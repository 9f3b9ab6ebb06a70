import Ns3Blockchain.Verified.Endorsement

/-! # Endorsement replies

`case REPLY_TRANS` looks a reply up in `m_replyTransaction`, builds it when it is not
there, and drops it again.  The table keeps what it holds, so a reply counts as
recorded only where it was there all along.
-/

namespace Ns3Blockchain

open Library Rapidjson

namespace BlockchainNode

/-- The message is a `REPLY_TRANS` whose elements carry int `nodeId`, `transId` and
    `execution` and a numeric `timestamp`. -/
def Delivery.IsReply (delivery : Delivery) : Prop :=
  delivery.document.findMember "message".toList = some (.int Messages.replyTrans.code) ∧
    ReadsArray delivery.document "transactions".toList ReplyShape

/-- `nodeId`, `transId` and `execution`. -/
abbrev ReplyKey := CInt × CInt × CInt

def replyKey (trans : Transaction) : ReplyKey :=
  (trans.getTransactionNodeId, trans.getTransactionId, trans.getExecution)

/-- The keys of `m_replyTransaction`. -/
def replies (node : BlockchainNode) : List ReplyKey := node.replyTransaction.map replyKey

def readReply (element : Value) : Exec ReplyKey := do
  let item ← readItem element
  let transExecution ← element.member "execution".toList
  let transExecution ← transExecution.getInt
  return (item.nodeId, item.transId, transExecution)

def repliesOf (elements : List Value) : List ReplyKey :=
  elements.filterMap fun element =>
    match readReply element with
    | .ok key => some key
    | .error _ => none

/-- Every reply delivered, in order. -/
def replyHistory (deliveries : List Delivery) : List ReplyKey :=
  deliveries.flatMap fun delivery => repliesOf delivery.elements

/-- A run of `node` has the replies it received: the lookup finds them, the table has
    each once, and those it did not have at first stand in it in order of arrival. -/
structure RepliesRecorded (node : BlockchainNode) (history : List ReplyKey) (run : NodeRun) :
    Prop where
  has : ∀ key ∈ history, run.node.hasReplyTransaction key.1 key.2.1 key.2.2 = true
  once : ∀ key ∈ history, (replies run.node).count key = 1
  table : replies run.node = replies node ++
    (firstArrivals (fun key => key) history).filter fun key => key ∉ replies node

/-- After every element of every message the replies are recorded, and an element
    that repeats one is only logged. -/
def RecordsReplies (env : External) (node : BlockchainNode) (deliveries : List Delivery) : Prop :=
  ∀ consumed delivery rest, deliveries = consumed ++ delivery :: rest →
    ∀ elements element key, elements ++ [element] <+: delivery.elements →
      readReply element = .ok key →
      ∃ run before after, foldChecked (deliver env) { node, trace := [] } consumed = .ok run ∧
        foldChecked replyTransItem (received run delivery) elements = .ok before ∧
        replyTransItem before element = .ok after ∧
        RepliesRecorded node (replyHistory consumed ++ repliesOf (elements ++ [element])) after ∧
        (key ∈ replyHistory consumed ++ repliesOf elements →
          after = before.emit (.hasReplyTransaction key.1 key.2.1))

variable {env : External} {node : BlockchainNode} {run run' : NodeRun} {key : ReplyKey}

/-! ## One element -/

theorem hasReplyTransaction_iff :
    node.hasReplyTransaction key.1 key.2.1 key.2.2 = true ↔ key ∈ replies node := by
  rw [hasReplyTransaction, List.any_eq_true, replies, List.mem_map]
  simp only [Bool.and_eq_true, beq_iff_eq, replyKey, Prod.ext_iff, and_assoc]

theorem readReply_ok {element : Value} (shaped : ReplyShape element) :
    ∃ key, readReply element = .ok key := by
  obtain ⟨item, read⟩ := readItem_ok_iff.mpr shaped.1
  obtain ⟨transExecution, executionRead⟩ := reads_iff.mp shaped.2
  obtain ⟨found, there, isInt⟩ := bind_eq_ok_iff.mp executionRead
  refine ⟨(item.nodeId, item.transId, transExecution), ?_⟩
  rw [readReply, read, ok_bind, there, ok_bind, Value.getInt, isInt, ok_bind]
  rfl

/-- Either way the node is left as it is. -/
theorem replyTransItem_eq {element : Value} (read : readReply element = .ok key) (run : NodeRun) :
    replyTransItem run element =
      if key ∈ replies run.node then .ok (run.emit (.hasReplyTransaction key.1 key.2.1))
      else .ok run := by
  obtain ⟨item, itemRead, read⟩ := bind_eq_ok_iff.mp read
  obtain ⟨found, there, read⟩ := bind_eq_ok_iff.mp read
  obtain ⟨transExecution, isInt, read⟩ := bind_eq_ok_iff.mp read
  rw [pure_eq_ok, Except.ok.injEq] at read
  subst read
  rw [replyTransItem, itemRead, ok_bind, there, ok_bind, isInt, ok_bind]
  simp only [← hasReplyTransaction_iff]
  rfl

/-! ## Messages -/

theorem Delivery.IsReply.shaped {delivery : Delivery} (isReply : delivery.IsReply) :
    ∀ element ∈ delivery.elements, ReplyShape element := by
  obtain ⟨_, elements, there, shaped⟩ := isReply
  rw [Delivery.elements, there]
  exact shaped

/-- A reply is handled by any node, a `CLIENT` too, and falls through to a log line. -/
theorem deliver_reply_eq (env : External) {delivery : Delivery} (isReply : delivery.IsReply)
    (run : NodeRun) :
    deliver env run delivery =
      foldChecked replyTransItem (received run delivery) delivery.elements := by
  obtain ⟨message, elements, there, _⟩ := isReply
  have selected : delivery.document.findMember "message".toList =
      some (.int (CInt.lit 7).val) := message
  rw [deliver, dispatch_of_message selected, if_neg (by decide), if_neg (by decide),
    if_pos (by decide), caseReplyTrans, Value.member_eq_ok_iff.mpr there, ok_bind,
    Value.elements_array, ok_bind, received, Delivery.elements, there]
  rfl

theorem replyLoop_keeps {elements : List Value} (shaped : ∀ element ∈ elements, ReplyShape element)
    (run : NodeRun) :
    ∃ run', foldChecked replyTransItem run elements = .ok run' ∧ run'.node = run.node := by
  refine foldChecked_progress (fun _ (s : NodeRun) => s.node = run.node) rfl ?_
  rintro consumed element s ⟨rest, whole⟩ same
  obtain ⟨key, read⟩ := readReply_ok (shaped element (by simp [← whole]))
  rw [replyTransItem_eq read]
  split
  next => exact ⟨_, rfl, same⟩
  next => exact ⟨s, rfl, same⟩

theorem deliveries_keep (env : External) (node : BlockchainNode) {deliveries : List Delivery}
    (areReplies : ∀ delivery ∈ deliveries, delivery.IsReply) :
    ∃ run, foldChecked (deliver env) { node, trace := [] } deliveries = .ok run ∧
      replies run.node = replies node := by
  refine foldChecked_progress (fun _ (s : NodeRun) => replies s.node = replies node) rfl ?_
  rintro consumed delivery s ⟨rest, whole⟩ same
  have isReply := areReplies delivery (by simp [← whole])
  obtain ⟨run', finished, kept⟩ := replyLoop_keeps isReply.shaped (received s delivery)
  refine ⟨run', (deliver_reply_eq env isReply s).trans finished, ?_⟩
  rw [kept]
  exact same

/-! ## What has been delivered -/

theorem repliesOf_append (elements later : List Value) :
    repliesOf (elements ++ later) = repliesOf elements ++ repliesOf later :=
  List.filterMap_append

theorem repliesOf_singleton {element : Value} (read : readReply element = .ok key) :
    repliesOf [element] = [key] := by
  rw [repliesOf, List.filterMap_cons, read]
  rfl

/-- What came up to an element came in the messages. -/
theorem history_upTo {consumed rest : List Delivery} {delivery : Delivery}
    {elements : List Value} (part : elements <+: delivery.elements) :
    replyHistory consumed ++ repliesOf elements <+:
      replyHistory (consumed ++ delivery :: rest) := by
  obtain ⟨later, whole⟩ := part
  rw [replyHistory, replyHistory, List.flatMap_append, List.flatMap_cons, ← whole,
    repliesOf_append, List.append_assoc]
  exact (List.prefix_append_right_inj _).mpr (List.prefix_append _ _)

/-- Every reply of the history came with some element. -/
theorem mem_replyHistory {deliveries : List Delivery} (member : key ∈ replyHistory deliveries) :
    ∃ consumed delivery rest elements element, deliveries = consumed ++ delivery :: rest ∧
      elements ++ [element] <+: delivery.elements ∧ readReply element = .ok key := by
  obtain ⟨delivery, listed, arrived⟩ := List.mem_flatMap.mp member
  obtain ⟨element, there, reads⟩ := List.mem_filterMap.mp arrived
  obtain ⟨consumed, rest, whole⟩ := List.append_of_mem listed
  obtain ⟨elements, later, split⟩ := List.append_of_mem there
  refine ⟨consumed, delivery, rest, elements, element, whole, ⟨later, by simp [split]⟩, ?_⟩
  cases answer : readReply element with
  | error fault =>
    rw [answer] at reads
    cases reads
  | ok found =>
    rw [answer] at reads
    cases reads
    rfl

/-! ## Main result -/

/-- A table that is what it was records what it had all along. -/
theorem recorded_of_kept {history : List ReplyKey} (kept : replies run.node = replies node)
    (had : ∀ key ∈ history, (replies node).count key = 1) : RepliesRecorded node history run := by
  have member : ∀ key ∈ history, key ∈ replies node := by
    intro key arrived
    rw [← List.count_pos_iff, had key arrived]
    exact Nat.one_pos
  refine ⟨?_, ?_, ?_⟩
  · intro key arrived
    rw [hasReplyTransaction_iff, kept]
    exact member key arrived
  · intro key arrived
    rw [kept]
    exact had key arrived
  · have none : (firstArrivals (fun key => key) history).filter (fun key => key ∉ replies node) =
        [] := by
      rw [List.filter_eq_nil_iff]
      intro key first fresh
      have arrived := (mem_map_firstArrivals (fun key => key)).mp (List.mem_map_of_mem first)
      rw [List.map_id'] at arrived
      exact of_decide_eq_true fresh (member key arrived)
    rw [kept, none, List.append_nil]

/-- The run up to an element, and what the element then does: it leaves the node, and
    is logged if the table has it. -/
theorem element_run (env : External) (node : BlockchainNode) {consumed rest : List Delivery}
    {delivery : Delivery} (areReplies : ∀ other ∈ consumed ++ delivery :: rest, other.IsReply)
    {elements : List Value} {element : Value}
    (part : elements ++ [element] <+: delivery.elements) (read : readReply element = .ok key) :
    ∃ run before, foldChecked (deliver env) { node, trace := [] } consumed = .ok run ∧
      foldChecked replyTransItem (received run delivery) elements = .ok before ∧
      replies before.node = replies node ∧
      replyTransItem before element = .ok
        (if key ∈ replies node then before.emit (.hasReplyTransaction key.1 key.2.1)
        else before) := by
  have isReply : delivery.IsReply := areReplies delivery (by simp)
  obtain ⟨run, delivered, kept⟩ := deliveries_keep env node fun other listed =>
    areReplies other (List.mem_append_left _ listed)
  have sofar : ∀ other ∈ elements, ReplyShape other := fun other listed =>
    isReply.shaped other (part.subset (List.mem_append_left _ listed))
  obtain ⟨before, looped, same⟩ := replyLoop_keeps sofar (received run delivery)
  have keptBefore : replies before.node = replies node := by
    rw [same]
    exact kept
  refine ⟨run, before, delivered, looped, keptBefore, ?_⟩
  rw [replyTransItem_eq read, keptBefore]
  split <;> rfl

/-- For every node and every sequence of `REPLY_TRANS` messages: the replies are
    recorded once, after every element, exactly when the table has each of them once
    to begin with. -/
theorem replies_recorded_iff (env : External) (node : BlockchainNode) (deliveries : List Delivery)
    (areReplies : ∀ delivery ∈ deliveries, delivery.IsReply) :
    RecordsReplies env node deliveries ↔
      ∀ key ∈ replyHistory deliveries, (replies node).count key = 1 := by
  constructor
  · intro records key member
    obtain ⟨consumed, delivery, rest, elements, element, rfl, part, read⟩ := mem_replyHistory member
    obtain ⟨run, before, delivered, looped, kept, stepped⟩ :=
      element_run env node areReplies part read
    obtain ⟨run', before', after, delivered', looped', stepped', recorded, _⟩ :=
      records consumed delivery rest rfl elements element key part read
    -- It is the run above, and no step of it touches the table.
    rw [delivered, Except.ok.injEq] at delivered'
    subst delivered'
    rw [looped, Except.ok.injEq] at looped'
    subst looped'
    rw [stepped, Except.ok.injEq] at stepped'
    subst stepped'
    have once := recorded.once key (by simp [repliesOf_append, repliesOf_singleton read])
    rw [← kept]
    split at once
    next => exact once
    next => exact once
  · rintro had consumed delivery rest rfl elements element key part read
    obtain ⟨run, before, delivered, looped, kept, stepped⟩ :=
      element_run env node areReplies part read
    have hadSofar : ∀ key ∈ replyHistory consumed ++ repliesOf (elements ++ [element]),
        (replies node).count key = 1 := fun key arrived =>
      had key ((history_upTo part).subset arrived)
    have stored : key ∈ replies node := by
      rw [← List.count_pos_iff, hadSofar key (by simp [repliesOf_append, repliesOf_singleton read])]
      exact Nat.one_pos
    rw [if_pos stored] at stepped
    exact ⟨run, before, _, delivered, looped, stepped, recorded_of_kept kept hadSofar, fun _ => rfl⟩

/-- A `REPLY_TRANS` message with these replies, all of time zero. -/
def replyDocument (keys : List ReplyKey) : Value :=
  .object
    [("message".toList, .int Messages.replyTrans.code),
      ("transactions".toList, .array (keys.map fun key =>
        .object [("nodeId".toList, .int key.1.val), ("transId".toList, .int key.2.1.val),
          ("timestamp".toList, .double 0), ("execution".toList, .int key.2.2.val)]))]

def replyDelivery (keys : List ReplyKey) : Delivery where
  ipv4 := ⟨1⟩
  port := 8333
  now := 5
  document := replyDocument keys

theorem replyDelivery_isReply (keys : List ReplyKey) : (replyDelivery keys).IsReply := by
  refine ⟨rfl, _, rfl, fun element member => ?_⟩
  obtain ⟨key, _, rfl⟩ := List.mem_map.mp member
  refine ⟨⟨⟨_, key.1, rfl, ?_⟩, ⟨_, key.2.1, rfl, ?_⟩, ⟨_, 0, rfl, rfl⟩⟩, ⟨_, key.2.2, rfl, ?_⟩⟩
  · rw [Value.int?, BoundedInt.ofInt?_val]
  · rw [Value.int?, BoundedInt.ofInt?_val]
  · rw [Value.int?, BoundedInt.ofInt?_val]

def oneReply : ReplyKey := (CInt.lit 1, CInt.lit 1, CInt.lit 3)

/-- A node whose table has the reply, which then comes twice. -/
theorem replies_recorded_iff_stored :
    RecordsReplies (knowing [])
      { idle 7 .standardProtocol .client with
        replyTransaction :=
          [(Transaction.new (CInt.lit 1) (CInt.lit 1) 0).setExecution (CInt.lit 3)] }
      [replyDelivery [oneReply], replyDelivery [oneReply]] := by
  refine (replies_recorded_iff _ _ _ ?_).mpr (by decide)
  intro delivery member
  simp only [List.mem_cons, List.not_mem_nil, or_false, or_self] at member
  rw [member]
  exact replyDelivery_isReply _

/-- A new node that receives one reply of another node. -/
theorem reply_is_dropped :
    ∃ run, deliver (knowing []) { node := idle 7 .standardProtocol .client, trace := [] }
        (replyDelivery [oneReply]) = .ok run ∧
      run.node.hasReplyTransaction (CInt.lit 1) (CInt.lit 1) (CInt.lit 3) = false ∧
      ¬ RecordsReplies (knowing []) (idle 7 .standardProtocol .client) [replyDelivery [oneReply]] := by
  refine ⟨_, rfl, rfl, ?_⟩
  intro records
  obtain ⟨run, before, after, delivered, looped, stepped, recorded, _⟩ :=
    records [] (replyDelivery [oneReply]) [] rfl [] _ oneReply List.prefix_rfl rfl
  cases delivered
  cases looped
  cases stepped
  have once := recorded.once oneReply (by decide)
  exact absurd once (by decide)

end BlockchainNode

end Ns3Blockchain
