import Ns3Blockchain.Verified.Advertisement

/-! # The shape a frame must have

`HandleRead` guards a frame with `IsObject` only.  What else its accessors
require is `FrameShape`: it depends on the message and on whether the node is a
`CLIENT`, and a frame without it stops the run.
-/

namespace Ns3Blockchain

open Library Library.Framing Rapidjson

namespace BlockchainNode

/-- The member `name` is there and `read` can read it. -/
def Reads {α : Type} (value : Value) (name : Str) (read : Value → Option α) : Prop :=
  ∃ found a, value.findMember name = some found ∧ read found = some a

/-- The member `name` is an array whose elements all have the shape. -/
def ReadsArray (document : Value) (name : Str) (shape : Value → Prop) : Prop :=
  ∃ elements, document.findMember name = some (.array elements) ∧ ∀ element ∈ elements, shape element

def InvShape (element : Value) : Prop := ∃ s, element = .string s

def TransactionShape (element : Value) : Prop :=
  Reads element "nodeId".toList Value.int? ∧ Reads element "transId".toList Value.int? ∧
    Reads element "timestamp".toList Value.double?

def ReplyShape (element : Value) : Prop :=
  TransactionShape element ∧ Reads element "execution".toList Value.int?

/-- A frame with the members its message needs. -/
def FrameShape (committerType : CommitterType) (document : Value) : Prop :=
  ∃ message : CInt, document.findMember "message".toList = some (.int message.val) ∧
    (message.val = Messages.inv.code → committerType ≠ .client →
      ReadsArray document "inv".toList InvShape) ∧
    (message.val = Messages.requestTrans.code → committerType ≠ .client →
      ReadsArray document "transactions".toList TransactionShape) ∧
    (message.val = Messages.replyTrans.code →
      ReadsArray document "transactions".toList ReplyShape)

/-- The pass of the frame loop that handles an object frame does not stop in
    `RAPIDJSON_ASSERT`, and it skips a frame without the members its message
    needs. -/
def HandledSafely (env : External) (ipv4 : Ipv4Address) (port : UInt16) (now : ℚ) (run : NodeRun)
    (frame rest : Str) (document : Value) : Prop :=
  Avoids .jsonAssert
      (frameStep env ipv4 port now { run with totalReceivedData := frame ++ '#' :: rest }) ∧
    (¬ FrameShape run.node.committerType document →
      ∃ loop, frameStep env ipv4 port now { run with totalReceivedData := frame ++ '#' :: rest } =
          .ok (some loop) ∧
        loop.node = run.node ∧ loop.totalReceivedData = rest)

variable {env : External}

/-! ## Members -/

theorem reads_iff {α : Type} {value : Value} {name : Str} {read : Value → Option α} :
    Reads value name read ↔
      ∃ a, (value.member name >>= fun found => Value.require (read found)) = .ok a := by
  constructor
  · intro ⟨found, a, there, readable⟩
    exact ⟨a, by rw [Value.member, there, Value.require_some, ok_bind, readable, Value.require_some]⟩
  · intro ⟨a, finished⟩
    obtain ⟨found, there, readable⟩ := bind_eq_ok_iff.mp finished
    exact ⟨found, a, Value.member_eq_ok_iff.mp there, Value.require_eq_ok_iff.mp readable⟩

theorem readsArray_iff {document : Value} {name : Str} {shape : Value → Prop} :
    ReadsArray document name shape ↔
      ∃ array elements, document.member name = .ok array ∧ array.elements = .ok elements ∧
        ∀ element ∈ elements, shape element := by
  constructor
  · intro ⟨elements, there, shaped⟩
    exact ⟨.array elements, elements, Value.member_eq_ok_iff.mpr there, rfl, shaped⟩
  · intro ⟨array, elements, there, isArray, shaped⟩
    rw [Value.elements_eq_ok_iff] at isArray
    subst isArray
    exact ⟨elements, Value.member_eq_ok_iff.mp there, shaped⟩

theorem readItem_ok_iff {element : Value} :
    (∃ item, readItem element = .ok item) ↔ TransactionShape element := by
  rw [TransactionShape, reads_iff, reads_iff, reads_iff]
  constructor
  · intro ⟨item, finished⟩
    obtain ⟨nodeId, nodeIdThere, finished⟩ := bind_eq_ok_iff.mp finished
    obtain ⟨nodeIdInt, nodeIdRead, finished⟩ := bind_eq_ok_iff.mp finished
    obtain ⟨transId, transIdThere, finished⟩ := bind_eq_ok_iff.mp finished
    obtain ⟨transIdInt, transIdRead, finished⟩ := bind_eq_ok_iff.mp finished
    obtain ⟨timestamp, timestampThere, finished⟩ := bind_eq_ok_iff.mp finished
    obtain ⟨timestampDouble, timestampRead, _⟩ := bind_eq_ok_iff.mp finished
    exact ⟨⟨nodeIdInt, bind_eq_ok_iff.mpr ⟨_, nodeIdThere, nodeIdRead⟩⟩,
      ⟨transIdInt, bind_eq_ok_iff.mpr ⟨_, transIdThere, transIdRead⟩⟩,
      ⟨timestampDouble, bind_eq_ok_iff.mpr ⟨_, timestampThere, timestampRead⟩⟩⟩
  · intro ⟨⟨nodeId, nodeIdRead⟩, ⟨transId, transIdRead⟩, ⟨timestamp, timestampRead⟩⟩
    obtain ⟨_, nodeIdThere, nodeIdRead⟩ := bind_eq_ok_iff.mp nodeIdRead
    obtain ⟨_, transIdThere, transIdRead⟩ := bind_eq_ok_iff.mp transIdRead
    obtain ⟨_, timestampThere, timestampRead⟩ := bind_eq_ok_iff.mp timestampRead
    refine ⟨{ nodeId, transId, timestamp }, ?_⟩
    rw [readItem, nodeIdThere, ok_bind, Value.getInt, nodeIdRead, ok_bind, transIdThere, ok_bind,
      Value.getInt, transIdRead, ok_bind, timestampThere, ok_bind, Value.getDouble, timestampRead,
      ok_bind]
    rfl

/-- The `switch`, once the message is read. -/
theorem dispatch_of_message {document : Value} {message : CInt}
    (there : document.findMember "message".toList = some (.int message.val)) (ipv4 : Ipv4Address)
    (port : UInt16) (now : ℚ) (run : NodeRun) :
    dispatch env ipv4 port now document run =
      if message.val = Messages.inv.code then do
        let scan ← caseInv env (.inetSocket ipv4 port) document run
        return scan.toNodeRun
      else if message.val = Messages.requestTrans.code then
        caseRequestTrans env ipv4 now document run
      else if message.val = Messages.replyTrans.code then
        caseReplyTrans document run
      else
        .ok run := by
  rw [dispatch, Value.member_eq_ok_iff.mpr there, ok_bind, Value.getInt_int, ok_bind]
  rfl

/-! ## Handlers that return have read a well-shaped frame -/

theorem invShape_of_invItem {sender : Address} {scan scan' : InvScan} {element : Value}
    (handled : invItem env sender scan element = .ok scan') : InvShape element := by
  obtain ⟨s, isString, _⟩ := bind_eq_ok_iff.mp handled
  exact ⟨s, Value.getString_eq_ok_iff.mp isString⟩

theorem readsArray_of_caseInv {sender : Address} {document : Value} {run : NodeRun}
    {scan : InvScan} (member : run.node.committerType ≠ .client)
    (handled : caseInv env sender document run = .ok scan) :
    ReadsArray document "inv".toList InvShape := by
  rw [caseInv, if_neg member] at handled
  obtain ⟨inv, there, handled⟩ := bind_eq_ok_iff.mp handled
  obtain ⟨items, isArray, handled⟩ := bind_eq_ok_iff.mp handled
  obtain ⟨_, looped, _⟩ := bind_eq_ok_iff.mp handled
  refine readsArray_iff.mpr ⟨inv, items, there, isArray, fun element listed => ?_⟩
  obtain ⟨_, _, step⟩ := foldChecked_step_ok looped element listed
  exact invShape_of_invItem step

theorem readsArray_of_caseRequestTrans {ipv4 : Ipv4Address} {now : ℚ} {document : Value}
    {run run' : NodeRun} (member : run.node.committerType ≠ .client)
    (handled : caseRequestTrans env ipv4 now document run = .ok run') :
    ReadsArray document "transactions".toList TransactionShape := by
  rw [caseRequestTrans, if_neg member] at handled
  obtain ⟨transactions, there, handled⟩ := bind_eq_ok_iff.mp handled
  obtain ⟨elements, isArray, looped⟩ := bind_eq_ok_iff.mp handled
  refine readsArray_iff.mpr ⟨transactions, elements, there, isArray, fun element listed => ?_⟩
  obtain ⟨_, _, step⟩ := foldChecked_step_ok looped element listed
  obtain ⟨item, read, _⟩ := bind_eq_ok_iff.mp step
  exact readItem_ok_iff.mp ⟨item, read⟩

theorem readsArray_of_caseReplyTrans {document : Value} {run run' : NodeRun}
    (handled : caseReplyTrans document run = .ok run') :
    ReadsArray document "transactions".toList ReplyShape := by
  obtain ⟨transactions, there, handled⟩ := bind_eq_ok_iff.mp handled
  obtain ⟨elements, isArray, looped⟩ := bind_eq_ok_iff.mp handled
  refine readsArray_iff.mpr ⟨transactions, elements, there, isArray, fun element listed => ?_⟩
  obtain ⟨_, _, step⟩ := foldChecked_step_ok looped element listed
  obtain ⟨item, read, step⟩ := bind_eq_ok_iff.mp step
  obtain ⟨execution, executionThere, step⟩ := bind_eq_ok_iff.mp step
  obtain ⟨transExecution, executionRead, _⟩ := bind_eq_ok_iff.mp step
  exact ⟨readItem_ok_iff.mp ⟨item, read⟩,
    reads_iff.mpr ⟨transExecution, bind_eq_ok_iff.mpr ⟨execution, executionThere, executionRead⟩⟩⟩

theorem frameShape_of_dispatch {ipv4 : Ipv4Address} {port : UInt16} {now : ℚ} {document : Value}
    {run run' : NodeRun} (handled : dispatch env ipv4 port now document run = .ok run') :
    FrameShape run.node.committerType document := by
  obtain ⟨value, there, typed⟩ := bind_eq_ok_iff.mp handled
  obtain ⟨message, isInt, selected⟩ := bind_eq_ok_iff.mp typed
  rw [Value.getInt_eq_ok_iff] at isInt
  refine ⟨message, by rw [Value.member_eq_ok_iff.mp there, isInt], ?_, ?_, ?_⟩
  · intro inv member
    rw [if_pos inv] at selected
    obtain ⟨scan, selected, _⟩ := bind_eq_ok_iff.mp selected
    exact readsArray_of_caseInv member selected
  · intro requestTrans member
    rw [if_neg (by rw [requestTrans]; decide), if_pos requestTrans] at selected
    exact readsArray_of_caseRequestTrans member selected
  · intro replyTrans
    rw [if_neg (by rw [replyTrans]; decide), if_neg (by rw [replyTrans]; decide),
      if_pos replyTrans] at selected
    exact readsArray_of_caseReplyTrans selected

/-! ## Well-shaped frames do not trip an accessor -/

theorem avoids_checked (z : Int) : Avoids .jsonAssert (CInt.checked z) := by
  unfold CInt.checked
  split <;> simp

theorem avoids_hasBlockAt (chain : Blockchain) (height minerId : CInt) :
    Avoids .jsonAssert (chain.hasBlockAt height minerId) := by
  unfold Blockchain.hasBlockAt
  refine avoids_bind ?_ fun top _ => ?_
  · unfold Blockchain.getCurrentTopBlock
    split <;> simp
  · split
    next => exact avoids_ok _ _
    next =>
      refine avoids_bind ?_ fun row _ => avoids_ok _ _
      unfold Blockchain.rowAt
      split
      next => split <;> simp
      next => simp

theorem avoids_alreadyKnown (node : BlockchainNode) (height minerId : CInt) (parsedInv : Str) :
    Avoids .jsonAssert (alreadyKnown env node height minerId parsedInv) := by
  refine avoids_bind (avoids_hasBlockAt _ _ _) fun has _ => ?_
  split
  next => exact avoids_ok _ _
  next => split <;> exact avoids_ok _ _

theorem avoids_invItem {element : Value} (shape : InvShape element) (sender : Address)
    (scan : InvScan) : Avoids .jsonAssert (invItem env sender scan element) := by
  obtain ⟨s, rfl⟩ := shape
  refine avoids_bind (avoids_ok _ s) fun chars _ => ?_
  refine avoids_bind (avoids_alreadyKnown _ _ _ _) fun known _ => ?_
  split <;> exact avoids_ok _ _

theorem avoids_requestFrom {fault : Fault} {document : Value} (object : document.isObject = true)
    (sender : Address) (scan : InvScan) :
    Avoids fault (requestFrom env sender document scan) := by
  unfold requestFrom
  split
  next => exact avoids_ok _ _
  next =>
    obtain ⟨members, removed⟩ := Value.removeMember_of_isObject object "inv".toList
    rw [removed, ok_bind]
    exact avoids_bind (avoids_ok _ _) fun document _ => avoids_ok _ _

theorem avoids_requestTransItem {element : Value} (shape : TransactionShape element)
    (ipv4 : Ipv4Address) (now : ℚ) (run : NodeRun) :
    Avoids .jsonAssert (requestTransItem env ipv4 now run element) := by
  obtain ⟨item, read⟩ := readItem_ok_iff.mpr shape
  rw [requestTransItem, read, ok_bind]
  split
  next => exact avoids_ok _ _
  next =>
    dsimp only
    split
    next =>
      refine avoids_bind (avoids_checked _) fun total _ => ?_
      exact avoids_bind (avoids_checked _) fun before _ => avoids_ok _ _
    next => exact avoids_ok _ _

theorem avoids_replyTransItem {element : Value} (shape : ReplyShape element) (run : NodeRun) :
    Avoids .jsonAssert (replyTransItem run element) := by
  obtain ⟨transaction, execution⟩ := shape
  obtain ⟨item, read⟩ := readItem_ok_iff.mpr transaction
  obtain ⟨transExecution, executionRead⟩ := reads_iff.mp execution
  obtain ⟨found, there, executionRead⟩ := bind_eq_ok_iff.mp executionRead
  rw [replyTransItem, read, ok_bind, there, ok_bind, Value.getInt, executionRead, ok_bind]
  split <;> exact avoids_ok _ _

theorem avoids_caseInv {document : Value} (object : document.isObject = true) {run : NodeRun}
    (shape : run.node.committerType ≠ .client → ReadsArray document "inv".toList InvShape)
    (sender : Address) : Avoids .jsonAssert (caseInv env sender document run) := by
  rw [caseInv]
  split
  next => exact avoids_ok _ _
  next member =>
    obtain ⟨items, found, shaped⟩ := shape member
    rw [Value.member_eq_ok_iff.mpr found, ok_bind, Value.elements_array, ok_bind]
    refine avoids_bind ?_ fun scan _ => avoids_requestFrom object sender scan
    exact avoids_foldChecked
      (fun element listed scan => avoids_invItem (shaped element listed) sender scan) _

theorem avoids_caseRequestTrans {document : Value} {run : NodeRun}
    (shape : run.node.committerType ≠ .client →
      ReadsArray document "transactions".toList TransactionShape)
    (ipv4 : Ipv4Address) (now : ℚ) :
    Avoids .jsonAssert (caseRequestTrans env ipv4 now document run) := by
  rw [caseRequestTrans]
  split
  next => exact avoids_ok _ _
  next member =>
    obtain ⟨elements, found, shaped⟩ := shape member
    rw [Value.member_eq_ok_iff.mpr found, ok_bind, Value.elements_array, ok_bind]
    exact avoids_foldChecked
      (fun element listed run => avoids_requestTransItem (shaped element listed) ipv4 now run) _

theorem avoids_caseReplyTrans {document : Value}
    (shape : ReadsArray document "transactions".toList ReplyShape) (run : NodeRun) :
    Avoids .jsonAssert (caseReplyTrans document run) := by
  obtain ⟨elements, found, shaped⟩ := shape
  rw [caseReplyTrans, Value.member_eq_ok_iff.mpr found, ok_bind, Value.elements_array, ok_bind]
  exact avoids_foldChecked
    (fun element listed run => avoids_replyTransItem (shaped element listed) run) _

theorem avoids_dispatch {document : Value} (object : document.isObject = true) {run : NodeRun}
    (shape : FrameShape run.node.committerType document) (ipv4 : Ipv4Address) (port : UInt16)
    (now : ℚ) : Avoids .jsonAssert (dispatch env ipv4 port now document run) := by
  obtain ⟨message, there, inv, requestTrans, replyTrans⟩ := shape
  rw [dispatch_of_message there]
  split
  next code =>
    exact avoids_bind (avoids_caseInv object (inv code) _) fun scan _ => avoids_ok _ _
  next =>
    split
    next code => exact avoids_caseRequestTrans (requestTrans code) ipv4 now
    next =>
      split
      next code => exact avoids_caseReplyTrans (replyTrans code) run
      -- Every other message, which only `default` sees.
      next => exact avoids_ok _ _

/-! ## Frames of `AdvertiseNewBlock` -/

/-- Of the two protocol types only the standard one sends frames its receivers
    can handle. -/
theorem frameShape_advertisement_iff (committerType : CommitterType) (protocolType : ProtocolType)
    (newBlock : Block) :
    FrameShape committerType (advertisement protocolType newBlock) ↔
      protocolType = .standardProtocol := by
  cases protocolType with
  | standardProtocol =>
    refine iff_of_true ⟨CInt.lit 0, rfl, fun _ _ => ?_, ?_, ?_⟩ rfl
    · refine ⟨[.string (blockHash newBlock)], rfl, fun element listed => ?_⟩
      exact ⟨blockHash newBlock, List.mem_singleton.mp listed⟩
    · intro absurdity
      cases absurdity
    · intro absurdity
      cases absurdity
  | sendHeaders =>
    refine iff_of_false ?_ ?_
    · intro ⟨message, there, _⟩
      cases there
    · intro absurdity
      cases absurdity

/-! ## Main result -/

/-- For every node state, committer type and object frame: the frame is handled
    safely exactly when it has the members its message needs. -/
theorem object_frame_safe_iff (env : External) (ipv4 : Ipv4Address) (port : UInt16) (now : ℚ)
    (run : NodeRun) (frame rest : Str) (document : Value) (whole : '#' ∉ frame)
    (object : frameDocument env frame = some document) :
    HandledSafely env ipv4 port now run frame rest document ↔
      FrameShape run.node.committerType document := by
  have pass := frameStep_dispatches ipv4 port now run rest whole object
  constructor
  · intro safe
    by_contra misshapen
    -- A frame that is skipped has been dispatched, so it had its members after all.
    obtain ⟨loop, handled, _⟩ := safe.2 misshapen
    rw [pass] at handled
    obtain ⟨run', dispatched, _⟩ := bind_eq_ok_iff.mp handled
    have shape := frameShape_of_dispatch dispatched
    rw [NodeRun.emit_node, NodeRun.emit_node] at shape
    exact misshapen shape
  · intro shape
    obtain ⟨_, guard⟩ := Option.filter_eq_some_iff.mp object
    refine ⟨?_, fun misshapen => absurd shape misshapen⟩
    rw [pass]
    refine avoids_bind (avoids_dispatch guard ?_ ipv4 port now) fun _ _ => avoids_ok _ _
    rw [NodeRun.emit_node, NodeRun.emit_node]
    exact shape

/-- A `REQUEST_TRANS` message with these transactions. -/
def requestDocument (items : List TransactionItem) : Value :=
  .object
    [("message".toList, .int Messages.requestTrans.code),
      ("transactions".toList, .array (items.map fun item =>
        .object [("nodeId".toList, .int item.nodeId.val), ("transId".toList, .int item.transId.val),
          ("timestamp".toList, .double item.timestamp)]))]

theorem requestDocument_shape (items : List TransactionItem) :
    ReadsArray (requestDocument items) "transactions".toList TransactionShape := by
  refine ⟨_, rfl, fun element member => ?_⟩
  obtain ⟨item, _, rfl⟩ := List.mem_map.mp member
  refine ⟨⟨_, item.nodeId, rfl, ?_⟩, ⟨_, item.transId, rfl, ?_⟩, ⟨_, item.timestamp, rfl, rfl⟩⟩
  · rw [Value.int?, BoundedInt.ofInt?_val]
  · rw [Value.int?, BoundedInt.ofInt?_val]

def requestText : Str :=
  "\x7b\"message\":1,\"transactions\":[\x7b\"nodeId\":4,\"transId\":2,\"timestamp\":0.5\x7d]\x7d".toList

/-- A `REQUEST_TRANS` message with one transaction, to an endorser. -/
theorem object_frame_safe_iff_request :
    HandledSafely
      (knowing [(requestText, requestDocument [⟨CInt.lit 4, CInt.lit 2, 1 / 2⟩])]) ⟨1⟩ 8333 3
      { node := idle 0 .standardProtocol .endorser, trace := [] } requestText []
      (requestDocument [⟨CInt.lit 4, CInt.lit 2, 1 / 2⟩]) :=
  (object_frame_safe_iff
    (knowing [(requestText, requestDocument [⟨CInt.lit 4, CInt.lit 2, 1 / 2⟩])]) ⟨1⟩ 8333 3
    { node := idle 0 .standardProtocol .endorser, trace := [] } requestText []
    (requestDocument [⟨CInt.lit 4, CInt.lit 2, 1 / 2⟩]) (by decide) rfl).mpr
    ⟨CInt.lit 1, rfl, fun code => absurd code (by decide), fun _ _ => requestDocument_shape _,
      fun code => absurd code (by decide)⟩

/-- What a `SENDHEADERS` node sends for the genesis block. -/
def sendHeadersText : Str := "\x7b\"type\":\"blocks\"\x7d".toList

example : write (fun _ => []) (advertisement .sendHeaders Blockchain.genesisBlock) =
    sendHeadersText := rfl

/-- The frame lacks `message`, which its receiver reads before anything else. -/
theorem sendHeaders_frame_trips :
    ¬ HandledSafely
      (knowing [(sendHeadersText, advertisement .sendHeaders Blockchain.genesisBlock)]) ⟨1⟩ 8333 0
      { node := idle 0 .sendHeaders .committer, trace := [] } sendHeadersText []
      (advertisement .sendHeaders Blockchain.genesisBlock) := by
  intro ⟨safe, _⟩
  rw [frameStep_dispatches ⟨1⟩ 8333 0 _ [] (by decide) rfl] at safe
  exact safe rfl

end BlockchainNode

end Ns3Blockchain
