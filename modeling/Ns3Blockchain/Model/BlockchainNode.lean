import Ns3Blockchain.Model.Blockchain
import Ns3Blockchain.Model.Rapidjson
import Ns3Blockchain.Library.Loop
import Mathlib.Data.List.AList

/-! # `blockchain-node.cc`

A handler takes the node and what the run has done so far, and returns both.
What a run does, its `Effect`s, are the calls that leave the node and the log
lines that mark a frame or an item as handled.  The functions `blockchain-node.h`
declares and no file defines, and those of other libraries, are the fields of
`External`.
-/

namespace Ns3Blockchain

open Library Rapidjson

structure Socket where
  id : Nat
deriving DecidableEq

/-- `EventId`, by its unique id. -/
abbrev EventId := Nat

/-- The fields of `nodeStatistics` the handlers write.  The byte counters are `long`;
    their overflow is left out. -/
structure NodeStatistics where
  invReceivedBytes : Int
  invSentBytes : Int
  getDataReceivedBytes : Int
deriving DecidableEq

structure BlockchainNode where
  /-- `GetNode()->GetId()`. -/
  id : UInt32
  meanEndorsementTime : ℚ
  blockchain : Blockchain
  totalEndorsement : CInt
  transaction : List Transaction
  replyTransaction : List Transaction
  peersAddresses : List Ipv4Address
  /-- `none` is the null `Ptr<Socket>`. -/
  peersSockets : AList fun _ : Ipv4Address => Option Socket
  queueInv : AList fun _ : Str => List Address
  invTimeouts : AList fun _ : Str => EventId
  bufferedData : AList fun _ : Address => Str
  receivedNotValidated : AList fun _ : Str => Block
  nodeStats : NodeStatistics
  protocolType : ProtocolType
  committerType : CommitterType

inductive Effect where
  /-- `Parsed Packet: ...`. -/
  | parsedPacket (sender : Address) (parsedPacket : Str)
  /-- `Corrupted packet`. -/
  | corruptedPacket
  /-- `... received ... port ... with info = ...`. -/
  | received (ipv4 : Ipv4Address) (port : UInt16) (document : Value)
  /-- `INV : ... has already received the block ...`. -/
  | alreadyReceived (height minerId : CInt)
  /-- `Simulator::Schedule` of `InvTimeoutExpired(blockHash)`. -/
  | scheduleInvTimeout (blockHash : Str)
  | sendMessage (receivedMessage responseMessage : Messages) (document : Value)
      (outgoingAddress : Address)
  /-- `REQUEST_TRANS: ... has the transaction ...`. -/
  | hasTransaction (nodeId transId : CInt)
  | executeTransaction (newTrans : Transaction) (receivedFromIpv4 : Ipv4Address)
  /-- `REPLY_TRANS: ... has the reply_transaction ...`. -/
  | hasReplyTransaction (nodeId transId : CInt)
  /-- `m_peersSockets[peer]->Send(data)`. -/
  | send (peer : Ipv4Address) (data : Str)

structure External where
  /-- `document.Parse`: `none` is a parse error, which leaves the document null. -/
  parse : Str → Option Value
  /-- `internal::dtoa`, for the numbers a `Writer` prints as `double`. -/
  dtoa : ℚ → Str
  /-- What `atoi` returns for a number no `int` holds. -/
  atoiOutOfRange : Str → CInt
  /-- The id of the event `Simulator::Schedule` returns. -/
  schedule : BlockchainNode → Str → EventId
  receivedButNotValidated : BlockchainNode → Str → Bool
  /-- `SendMessage(receivedMessage, responseMessage, d, outgoingAddress)`; `d` is
      passed by reference. -/
  sendMessage : Messages → Messages → Value → Address → BlockchainNode → BlockchainNode × Value
  executeTransaction : Transaction → Ipv4Address → BlockchainNode → BlockchainNode

/-- A node and what it did so far. -/
structure NodeRun where
  node : BlockchainNode
  trace : List Effect

def NodeRun.emit (run : NodeRun) (effect : Effect) : NodeRun :=
  { run with trace := run.trace ++ [effect] }

@[simp] theorem NodeRun.emit_node (run : NodeRun) (effect : Effect) :
    (run.emit effect).node = run.node := rfl

@[simp] theorem NodeRun.emit_trace (run : NodeRun) (effect : Effect) :
    (run.emit effect).trace = run.trace ++ [effect] := rfl

namespace BlockchainNode

/-- `BlockchainNode()`, for the node `id` and after `SetProtocolType` and
    `SetCommitterType`. -/
def new (id : UInt32) (protocolType : ProtocolType) (committerType : CommitterType) :
    Exec BlockchainNode := do
  let blockchain ← Blockchain.new
  return {
    id, blockchain, protocolType, committerType
    meanEndorsementTime := 0
    totalEndorsement := CInt.lit 0
    transaction := []
    replyTransaction := []
    peersAddresses := []
    peersSockets := ∅
    queueInv := ∅
    invTimeouts := ∅
    bufferedData := ∅
    receivedNotValidated := ∅
    nodeStats := { invReceivedBytes := 0, invSentBytes := 0, getDataReceivedBytes := 0 } }

def blockchainMessageHeader : Nat := 90

def countBytes : Nat := 4

def inventorySizeBytes : Nat := 36

/-- `m_blockchainMessageHeader + m_countBytes + size*m_inventorySizeBytes`, in
    `unsigned int`. -/
def messageBytes (size : Nat) : Int :=
  ((blockchainMessageHeader + countBytes + size * inventorySizeBytes) % 4294967296 : Nat)

def hasTransaction (node : BlockchainNode) (nodeId transId : CInt) : Bool :=
  node.transaction.any fun transaction =>
    transaction.getTransactionNodeId == nodeId && transaction.getTransactionId == transId

def hasReplyTransaction (node : BlockchainNode) (nodeId transId transExecution : CInt) : Bool :=
  node.replyTransaction.any fun transaction =>
    transaction.getTransactionNodeId == nodeId && transaction.getTransactionId == transId &&
      transaction.getExecution == transExecution

section Handlers

variable (env : External)

/-! ## `case INV` -/

def atoi (s : Str) : CInt :=
  match BoundedInt.ofInt? (-2147483648) 2147483647 (Decimal.read s.cStr) with
  | some z => z
  | none => env.atoiOutOfRange s.cStr

/-- `height` and `minerId` of an inventory item.  Without a `/` both `substr`
    calls return the whole string. -/
def decodeInv (parsedInv : Str) : CInt × CInt :=
  match parsedInv.find '/' with
  | some invPos => (atoi env (parsedInv.take invPos), atoi env (parsedInv.drop (invPos + 1)))
  | none => (atoi env parsedInv, atoi env parsedInv)

/-- `HasBlock(..) || isOrphan(..) || ReceivedButNotValidated(..)`. -/
def alreadyKnown (node : BlockchainNode) (height minerId : CInt) (parsedInv : Str) : Exec Bool := do
  if ← node.blockchain.hasBlockAt height minerId then
    return true
  else if node.blockchain.isOrphanAt height minerId then
    return true
  else
    return env.receivedButNotValidated node parsedInv

/-- The state of the item loop of `case INV`. -/
structure InvScan extends NodeRun where
  requestBlocks : List Str

/-- The branch that asks for a block for the first time. -/
def requestBlock (parsedInv : Str) (scan : InvScan) : InvScan :=
  let timeout := env.schedule scan.node parsedInv
  { toNodeRun :=
      NodeRun.emit
        { scan.toNodeRun with
          node := { scan.node with invTimeouts := scan.node.invTimeouts.insert parsedInv timeout } }
        (.scheduleInvTimeout parsedInv)
    requestBlocks := scan.requestBlocks ++ [parsedInv] }

/-- `m_queueInv[parsedInv].push_back(from)`. -/
def pushQueueInv (node : BlockchainNode) (parsedInv : Str) (sender : Address) : BlockchainNode :=
  let queue := (node.queueInv.lookup parsedInv).getD []
  { node with queueInv := node.queueInv.insert parsedInv (queue ++ [sender]) }

/-- One pass of the item loop. -/
def invItem (sender : Address) (scan : InvScan) (element : Value) : Exec InvScan := do
  let chars ← element.getString
  let parsedInv := chars.cStr
  let (height, minerId) := decodeInv env parsedInv
  if ← alreadyKnown env scan.node height minerId parsedInv then
    return { scan with toNodeRun := scan.emit (.alreadyReceived height minerId) }
  else
    -- The block is asked for once; its sender is queued either way.
    let scan := if parsedInv ∈ scan.node.invTimeouts then scan else requestBlock env parsedInv scan
    return { scan with node := scan.node.pushQueueInv parsedInv sender }

def sendMessage (receivedMessage responseMessage : Messages) (document : Value) (sender : Address)
    (run : NodeRun) : NodeRun × Value :=
  let sent := env.sendMessage receivedMessage responseMessage document sender run.node
  (NodeRun.emit { run with node := sent.1 }
    (.sendMessage receivedMessage responseMessage document sender), sent.2)

/-- The two `SendMessage` calls after the item loop. -/
def requestFrom (sender : Address) (document : Value) (scan : InvScan) : Exec InvScan := do
  if scan.requestBlocks.isEmpty then
    return scan
  else
    let document ← document.removeMember "inv".toList
    let document ← document.addMember "blocks".toList (.array (scan.requestBlocks.map .string))
    -- `GET_DATA` is sent with what the first call left of the document.
    let (run, document) := sendMessage env .inv .getHeaders document sender scan.toNodeRun
    let (run, _) := sendMessage env .inv .getData document sender run
    return { toNodeRun := run, requestBlocks := scan.requestBlocks }

def addInvReceivedBytes (node : BlockchainNode) (size : Nat) : BlockchainNode :=
  { node with
    nodeStats :=
      { node.nodeStats with
        invReceivedBytes := node.nodeStats.invReceivedBytes + messageBytes size } }

def addGetDataReceivedBytes (node : BlockchainNode) (size : Nat) : BlockchainNode :=
  { node with
    nodeStats :=
      { node.nodeStats with
        getDataReceivedBytes := node.nodeStats.getDataReceivedBytes + messageBytes size } }

/-- The state before the item loop of an inventory of this size. -/
def invStart (size : Nat) (run : NodeRun) : InvScan :=
  { toNodeRun := { run with node := run.node.addInvReceivedBytes size }
    requestBlocks := [] }

/-- The item loop over `document["inv"]`. -/
def invLoop (sender : Address) (items : List Value) (run : NodeRun) : Exec InvScan :=
  foldChecked (invItem env sender) (invStart items.length run) items

def caseInv (sender : Address) (document : Value) (run : NodeRun) : Exec InvScan := do
  if run.node.committerType = .client then
    return { toNodeRun := run, requestBlocks := [] }
  else
    let inv ← document.member "inv".toList
    let items ← inv.elements
    let scan ← invLoop env sender items run
    requestFrom env sender document scan

/-! ## `case REQUEST_TRANS` -/

/-- The members of a transaction both transaction cases read. -/
structure TransactionItem where
  nodeId : CInt
  transId : CInt
  timestamp : ℚ
deriving DecidableEq

def readItem (element : Value) : Exec TransactionItem := do
  let nodeId ← element.member "nodeId".toList
  let nodeId ← nodeId.getInt
  let transId ← element.member "transId".toList
  let transId ← transId.getInt
  let timestamp ← element.member "timestamp".toList
  let timestamp ← timestamp.getDouble
  return { nodeId, transId, timestamp }

/-- `AdvertiseNewTransaction`, whose body is empty. -/
def advertiseNewTransaction (_newTrans : Transaction) (_msgType : Messages)
    (_receivedFromIpv4 : Ipv4Address) (run : NodeRun) : NodeRun :=
  run

/-- The `ENDORSER` branch; `now` is `Simulator::Now().GetSeconds()`. -/
def endorse (ipv4 : Ipv4Address) (now : ℚ) (newTrans : Transaction) (run : NodeRun) :
    Exec NodeRun := do
  let newTrans := newTrans.setExecution (CInt.ofUInt32 run.node.id)
  -- `m_totalEndorsement++` comes first: the old mean is weighted by one less.
  let totalEndorsement ← CInt.add run.node.totalEndorsement (CInt.lit 1)
  let before ← CInt.sub totalEndorsement (CInt.lit 1)
  let meanEndorsementTime :=
    (run.node.meanEndorsementTime * before.val + (now - newTrans.timeStamp)) / totalEndorsement.val
  let node := { run.node with totalEndorsement, meanEndorsementTime }
  return NodeRun.emit { run with node := env.executeTransaction newTrans ipv4 node }
    (.executeTransaction newTrans ipv4)

/-- One pass of the element loop. -/
def requestTransItem (ipv4 : Ipv4Address) (now : ℚ) (run : NodeRun) (element : Value) :
    Exec NodeRun := do
  let item ← readItem element
  if run.node.hasTransaction item.nodeId item.transId then
    return run.emit (.hasTransaction item.nodeId item.transId)
  else
    let newTrans := Transaction.new item.nodeId item.transId item.timestamp
    let run :=
      { run with node := { run.node with transaction := run.node.transaction ++ [newTrans] } }
    -- The stored copy keeps its execution; `SetExecution` is on the local one.
    if run.node.committerType = .endorser then
      endorse env ipv4 now newTrans run
    else
      return advertiseNewTransaction newTrans .requestTrans ipv4 run

def caseRequestTrans (ipv4 : Ipv4Address) (now : ℚ) (document : Value) (run : NodeRun) :
    Exec NodeRun := do
  if run.node.committerType = .client then
    return run
  else
    let transactions ← document.member "transactions".toList
    let elements ← transactions.elements
    let node := run.node.addGetDataReceivedBytes elements.length
    foldChecked (requestTransItem env ipv4 now) { run with node } elements

/-! ## `case REPLY_TRANS` -/

/-- One pass of the element loop.  A new reply is built and dropped: the branches
    that would keep it are empty. -/
def replyTransItem (run : NodeRun) (element : Value) : Exec NodeRun := do
  let item ← readItem element
  let transExecution ← element.member "execution".toList
  let transExecution ← transExecution.getInt
  if run.node.hasReplyTransaction item.nodeId item.transId transExecution then
    return run.emit (.hasReplyTransaction item.nodeId item.transId)
  else
    return run

def caseReplyTrans (document : Value) (run : NodeRun) : Exec NodeRun := do
  let transactions ← document.member "transactions".toList
  let elements ← transactions.elements
  let node := run.node.addGetDataReceivedBytes elements.length
  foldChecked replyTransItem { run with node } elements

/-! ## `HandleRead` -/

/-- `switch(document["message"].GetInt())`.  `REPLY_TRANS` falls through into
    `default`, which only logs. -/
def dispatch (ipv4 : Ipv4Address) (port : UInt16) (now : ℚ) (document : Value) (run : NodeRun) :
    Exec NodeRun := do
  let message ← document.member "message".toList
  let message ← message.getInt
  if message.val = Messages.inv.code then
    let scan ← caseInv env (.inetSocket ipv4 port) document run
    return scan.toNodeRun
  else if message.val = Messages.requestTrans.code then
    caseRequestTrans env ipv4 now document run
  else if message.val = Messages.replyTrans.code then
    caseReplyTrans document run
  else
    return run

/-- The state of the frame loop. -/
structure FrameLoop extends NodeRun where
  totalReceivedData : Str

/-- One evaluation of `while((pos = totalReceivedData.find("#")) != npos)` and of
    its body.  Only the `continue` of a corrupted packet erases the frame. -/
def frameStep (ipv4 : Ipv4Address) (port : UInt16) (now : ℚ) (loop : FrameLoop) :
    Exec (Option FrameLoop) :=
  match loop.totalReceivedData.find '#' with
  | none => return none
  | some pos => do
    let parsedPacket : Str := loop.totalReceivedData.take pos
    let run := loop.emit (.parsedPacket (.inetSocket ipv4 port) parsedPacket)
    let document := (env.parse parsedPacket.cStr).getD .null
    if document.isObject then
      -- No path through the `switch` shortens `totalReceivedData`.
      let run ← dispatch env ipv4 port now document (run.emit (.received ipv4 port document))
      return some { loop with toNodeRun := run }
    else
      return some
        { toNodeRun := run.emit .corruptedPacket
          totalReceivedData := loop.totalReceivedData.drop (pos + 1) }

structure Packet where
  sender : Address
  data : Str
deriving DecidableEq

/-- `m_bufferedData[from]`: a missing entry is made, empty. -/
def bufferedDataAt (node : BlockchainNode) (sender : Address) : BlockchainNode × Str :=
  match node.bufferedData.lookup sender with
  | some data => (node, data)
  | none => ({ node with bufferedData := node.bufferedData.insert sender [] }, [])

/-- `totalStream << m_bufferedData[from] << packetInfo`, before the frame loop. -/
def totalStream (sender : Address) (packetInfo : Str) (run : NodeRun) : FrameLoop :=
  let (node, buffered) := run.node.bufferedDataAt sender
  { node, trace := run.trace, totalReceivedData := buffered ++ packetInfo.cStr }

/-- The body of the packet loop.  The frame loop is given up after `fuel`
    evaluations of its guard. -/
def handlePacket (fuel : Nat) (now : ℚ) (packet : Packet) (run : NodeRun) :
    Except (Stop Fault) NodeRun :=
  match packet.sender with
  | .inetSocket ipv4 port => do
    let start := totalStream packet.sender packet.data run
    let loop ← runLoop (frameStep env ipv4 port now) fuel start
    return loop.toNodeRun
  | .other _ _ => return run

/-- `HandleRead` when `RecvFrom` delivers these packets.  An empty one ends the
    call. -/
def handleRead (fuel : Nat) (now : ℚ) (run : NodeRun) : List Packet → Except (Stop Fault) NodeRun
  | [] => .ok run
  | packet :: packets =>
    if packet.data.length = 0 then
      .ok run
    else do
      let run ← handlePacket env fuel now packet run
      handleRead fuel now run packets

/-! ## `AdvertiseNewBlock` -/

/-- The characters of `GetBlockHeight() << "/" << GetMinerId()`. -/
def blockHash (block : Block) : Str :=
  Decimal.print block.getBlockHeight.val ++ '/' :: Decimal.print block.getMinerId.val

/-- The document `AdvertiseNewBlock` builds. -/
def advertisement (protocolType : ProtocolType) (newBlock : Block) : Value :=
  match protocolType with
  | .standardProtocol =>
    .object
      [("type".toList, .string "blocks".toList), ("message".toList, .int Messages.inv.code),
        ("inv".toList, .array [.string (blockHash newBlock)])]
  | .sendHeaders => .object [("type".toList, .string "blocks".toList)]

/-- `m_peersSockets[peer]->Send(data)`: a missing entry is made, with a null
    socket. -/
def sendTo (peer : Ipv4Address) (data : Str) (run : NodeRun) : Exec NodeRun :=
  match run.node.peersSockets.lookup peer with
  | some (some _) => .ok (run.emit (.send peer data))
  | _ => .error .nullSocket

/-- One pass of the peer loop. -/
def advertiseTo (newBlock : Block) (document : Value) (packetInfo : Str) (run : NodeRun)
    (peer : Ipv4Address) : Exec NodeRun := do
  if peer ≠ newBlock.getReceivedFromIpv4 then
    -- The text and its delimiter are two `Send` calls.
    let run ← sendTo peer packetInfo run
    let run ← sendTo peer ['#'] run
    match run.node.protocolType with
    | .standardProtocol =>
      let inv ← document.member "inv".toList
      let items ← inv.elements
      let nodeStats :=
        { run.node.nodeStats with
          invSentBytes := run.node.nodeStats.invSentBytes + messageBytes items.length }
      return { run with node := { run.node with nodeStats } }
    | .sendHeaders => return run
  else
    return run

def advertiseNewBlock (newBlock : Block) (node : BlockchainNode) : Exec NodeRun :=
  let document := advertisement node.protocolType newBlock
  let packetInfo := write env.dtoa document
  foldChecked (advertiseTo newBlock document packetInfo) { node, trace := [] } node.peersAddresses

end Handlers

end BlockchainNode

end Ns3Blockchain
