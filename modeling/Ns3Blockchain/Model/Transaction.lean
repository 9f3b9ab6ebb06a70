import Ns3Blockchain.Model.Util

/-! # `transaction.cc`

A `double` is an exact rational.
-/

namespace Ns3Blockchain

structure Transaction where
  nodeId : CInt
  transId : CInt
  transSizeByte : CInt
  timeStamp : ℚ
  validatation : Bool
  execution : CInt
deriving DecidableEq

namespace Transaction

/-- `Transaction(int nodeId, int transId, double timeStamp)`. -/
def new (nodeId transId : CInt) (timeStamp : ℚ) : Transaction where
  nodeId := nodeId
  transId := transId
  timeStamp := timeStamp
  transSizeByte := CInt.lit 100
  validatation := false
  execution := CInt.lit 0

/-- `Transaction()` builds a `Transaction(0,0,0)` and drops it; the members keep
    what is in their storage. -/
def default (storage : Transaction) : Transaction := storage

def getTransactionNodeId (trans : Transaction) : CInt := trans.nodeId

def getTransactionId (trans : Transaction) : CInt := trans.transId

def getExecution (trans : Transaction) : CInt := trans.execution

def setExecution (trans : Transaction) (endorserId : CInt) : Transaction :=
  { trans with execution := endorserId }

/-- `operator=`. -/
def assign (_destination transSource : Transaction) : Transaction where
  nodeId := transSource.nodeId
  transId := transSource.transId
  timeStamp := transSource.timeStamp
  transSizeByte := transSource.transSizeByte
  validatation := transSource.validatation
  execution := transSource.execution

/-- `operator==`. -/
def equals (trans1 trans2 : Transaction) : Bool :=
  trans1.getTransactionNodeId == trans2.getTransactionNodeId &&
    trans1.getTransactionId == trans2.getTransactionId

end Transaction

end Ns3Blockchain
