import Ns3Blockchain.Model.Machine

/-! # `util.h` and the address types -/

namespace Ns3Blockchain

/-- `enum Messages`. -/
inductive Messages where
  | inv
  | requestTrans
  | getHeaders
  | headers
  | getData
  | block
  | noMessage
  | replyTrans
  | msgTrans
  | resultTrans
deriving DecidableEq

/-- The integer an enumerator stands for. -/
def Messages.code : Messages → Int
  | .inv => 0
  | .requestTrans => 1
  | .getHeaders => 2
  | .headers => 3
  | .getData => 4
  | .block => 5
  | .noMessage => 6
  | .replyTrans => 7
  | .msgTrans => 8
  | .resultTrans => 9

/-- `enum CommitterType`. -/
inductive CommitterType where
  | committer
  | endorser
  | client
  | order
deriving DecidableEq

/-- `enum ProtocolType`. -/
inductive ProtocolType where
  | standardProtocol
  | sendHeaders
deriving DecidableEq

/-- `Ipv4Address`. -/
structure Ipv4Address where
  address : UInt32
deriving DecidableEq

/-- `Address`: an `InetSocketAddress`, or an address of another type. -/
inductive Address where
  | inetSocket (ipv4 : Ipv4Address) (port : UInt16)
  | other (type : UInt8) (data : List UInt8)
deriving DecidableEq

end Ns3Blockchain
