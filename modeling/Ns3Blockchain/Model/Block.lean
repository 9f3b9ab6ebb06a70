import Ns3Blockchain.Model.Transaction

/-! # `block.cc` -/

namespace Ns3Blockchain

structure Block where
  blockHeight : CInt
  minerId : CInt
  nonce : CInt
  parentBlockMinerId : CInt
  blockSizeBytes : CInt
  totalTransactions : CInt
  timeStamp : ℚ
  timeReceived : ℚ
  receivedFromIpv4 : Ipv4Address
  transactions : List Transaction
deriving DecidableEq

namespace Block

/-- The constructor with eight arguments. -/
def new (blockHeight minerId nonce parentBlockMinerId blockSizeBytes : CInt)
    (timeStamp timeReceived : ℚ) (receivedFromIpv4 : Ipv4Address) : Block where
  blockHeight := blockHeight
  minerId := minerId
  nonce := nonce
  parentBlockMinerId := parentBlockMinerId
  blockSizeBytes := blockSizeBytes
  timeStamp := timeStamp
  timeReceived := timeReceived
  receivedFromIpv4 := receivedFromIpv4
  totalTransactions := CInt.lit 0
  transactions := []

/-- `Block()` builds an eight-argument block and drops it.  The members keep what
    is in their storage, apart from the transactions, which start empty;
    `receivedFromIpv4` is what `Ipv4Address()` makes of it. -/
def default (storage : Block) : Block := { storage with transactions := [] }

/-- `Block(const Block &blockSource)`: the counter restarts at zero. -/
def copy (blockSource : Block) : Block where
  blockHeight := blockSource.blockHeight
  minerId := blockSource.minerId
  nonce := blockSource.nonce
  parentBlockMinerId := blockSource.parentBlockMinerId
  blockSizeBytes := blockSource.blockSizeBytes
  timeStamp := blockSource.timeStamp
  timeReceived := blockSource.timeReceived
  receivedFromIpv4 := blockSource.receivedFromIpv4
  transactions := blockSource.transactions
  totalTransactions := CInt.lit 0

/-- `operator=`: the header is overwritten, the transactions and their counter
    stay those of the destination. -/
def assign (destination blockSource : Block) : Block :=
  { destination with
    blockHeight := blockSource.blockHeight
    minerId := blockSource.minerId
    nonce := blockSource.nonce
    parentBlockMinerId := blockSource.parentBlockMinerId
    blockSizeBytes := blockSource.blockSizeBytes
    timeStamp := blockSource.timeStamp
    timeReceived := blockSource.timeReceived
    receivedFromIpv4 := blockSource.receivedFromIpv4 }

def getBlockHeight (block : Block) : CInt := block.blockHeight

def setBlockHeight (block : Block) (blockHeight : CInt) : Block := { block with blockHeight }

def getNonce (block : Block) : CInt := block.nonce

def setNonce (block : Block) (nonce : CInt) : Block := { block with nonce }

def getMinerId (block : Block) : CInt := block.minerId

def setMinerId (block : Block) (minerId : CInt) : Block := { block with minerId }

def getParentBlockMinerId (block : Block) : CInt := block.parentBlockMinerId

def setParentBlockMinerId (block : Block) (parentBlockMinerId : CInt) : Block :=
  { block with parentBlockMinerId }

/-- Returns `m_parentBlockMinerId`. -/
def getBlockSizeBytes (block : Block) : CInt := block.parentBlockMinerId

def setBlockSizeBytes (block : Block) (blockSizeBytes : CInt) : Block := { block with blockSizeBytes }

def getTimeStamp (block : Block) : ℚ := block.timeStamp

def setTimeStamp (block : Block) (timeStamp : ℚ) : Block := { block with timeStamp }

def getTimeReceived (block : Block) : ℚ := block.timeReceived

def getReceivedFromIpv4 (block : Block) : Ipv4Address := block.receivedFromIpv4

def setReceivedFromIpv4 (block : Block) (receivedFromIpv4 : Ipv4Address) : Block :=
  { block with receivedFromIpv4 }

def getTransactions (block : Block) : List Transaction := block.transactions

/-- `vector::operator=`: the elements there are assigned to, further ones are
    copies. -/
def assignTransactions : List Transaction → List Transaction → List Transaction
  | _, [] => []
  | [], transactions => transactions
  | destination :: destinations, transSource :: transactions =>
    destination.assign transSource :: assignTransactions destinations transactions

/-- `m_totalTransactions` stays. -/
def setTransactions (block : Block) (transactions : List Transaction) : Block :=
  { block with transactions := assignTransactions block.transactions transactions }

def getTotalTransaction (block : Block) : CInt := block.totalTransactions

/-- The first match, or `Transaction()`. -/
def returnTransaction (storage : Transaction) (block : Block) (nodeId transId : CInt) :
    Transaction :=
  match block.transactions.find? fun trans =>
      trans.getTransactionNodeId == nodeId && trans.getTransactionId == transId with
  | some found => found
  | none => Transaction.default storage

/-- `HasTransaction(Transaction &)`. -/
def hasTransaction (block : Block) (newTrans : Transaction) : Bool :=
  block.transactions.any fun trans => trans.equals newTrans

/-- `HasTransaction(int, int)`. -/
def hasTransactionAt (block : Block) (nodeId transId : CInt) : Bool :=
  block.transactions.any fun trans =>
    trans.getTransactionNodeId == nodeId && trans.getTransactionId == transId

def addTransaction (block : Block) (newTrans : Transaction) : Exec Block := do
  let totalTransactions ← CInt.add block.totalTransactions (CInt.lit 1)
  return { block with transactions := block.transactions ++ [newTrans], totalTransactions }

/-- `this->IsParent(block)`.  Both sides of the second comparison are the
    *parent* miner id. -/
def isParent (this block : Block) : Exec Bool := do
  let parentHeight ← CInt.sub block.blockHeight (CInt.lit 1)
  return this.getBlockHeight == parentHeight &&
    this.getParentBlockMinerId == block.getParentBlockMinerId

/-- `this->IsChild(block)`, with the same second comparison. -/
def isChild (this block : Block) : Exec Bool := do
  let childHeight ← CInt.add block.blockHeight (CInt.lit 1)
  return this.getBlockHeight == childHeight &&
    this.getParentBlockMinerId == block.getParentBlockMinerId

/-- `operator==`. -/
def equals (block1 block2 : Block) : Bool :=
  block1.getBlockHeight == block2.getBlockHeight && block1.getMinerId == block2.getMinerId

/-! ## Copies -/

@[simp] theorem copy_blockHeight (block : Block) : block.copy.blockHeight = block.blockHeight := rfl

@[simp] theorem copy_minerId (block : Block) : block.copy.minerId = block.minerId := rfl

end Block

end Ns3Blockchain
