import Ns3Blockchain.Verified.FrameShape
import Ns3Blockchain.Library.Arrivals
import Ns3Blockchain.Library.RunningMean

/-! # Transactions are accepted and endorsed once

`m_transaction` is the list of the first arrivals of every key, whatever is
repeated; the endorsements of an `ENDORSER` and its `ExecuteTransaction` calls
follow it element by element.
-/

namespace Ns3Blockchain

open Library Rapidjson

namespace BlockchainNode

/-- A dispatched `REQUEST_TRANS` message, with its sender and time. -/
structure Delivery where
  ipv4 : Ipv4Address
  port : UInt16
  now : ℚ
  document : Value

/-- The message is a `REQUEST_TRANS` whose elements carry int `nodeId` and
    `transId` and a numeric `timestamp`. -/
def Delivery.WellFormed (delivery : Delivery) : Prop :=
  delivery.document.findMember "message".toList = some (.int Messages.requestTrans.code) ∧
    ReadsArray delivery.document "transactions".toList TransactionShape

def Delivery.elements (delivery : Delivery) : List Value :=
  ((delivery.document.findMember "transactions".toList).bind Value.array?).getD []

/-- A transaction and the peer that delivered it. -/
structure Arrival where
  ipv4 : Ipv4Address
  item : TransactionItem

namespace Arrival

def key (arrival : Arrival) : CInt × CInt := (arrival.item.nodeId, arrival.item.transId)

/-- The element of `m_transaction` made for an arrival. -/
def transaction (arrival : Arrival) : Transaction :=
  Transaction.new arrival.item.nodeId arrival.item.transId arrival.item.timestamp

/-- The arguments of the endorser's call for an arrival. -/
def call (id : UInt32) (arrival : Arrival) : Transaction × Ipv4Address :=
  (arrival.transaction.setExecution (CInt.ofUInt32 id), arrival.ipv4)

end Arrival

def arrivalsOf (ipv4 : Ipv4Address) (elements : List Value) : List Arrival :=
  elements.filterMap fun element =>
    match readItem element with
    | .ok item => some ⟨ipv4, item⟩
    | .error _ => none

/-- Every transaction delivered, in order. -/
def history (deliveries : List Delivery) : List Arrival :=
  deliveries.flatMap fun delivery => arrivalsOf delivery.ipv4 delivery.elements

/-- A transaction, and the simulation time at which it is delivered. -/
structure Offer where
  now : ℚ
  arrival : Arrival

def offersOf (now : ℚ) (ipv4 : Ipv4Address) (elements : List Value) : List Offer :=
  (arrivalsOf ipv4 elements).map fun arrival => { now, arrival }

/-- Every transaction delivered, in order, with its time. -/
def offers (deliveries : List Delivery) : List Offer :=
  deliveries.flatMap fun delivery => offersOf delivery.now delivery.ipv4 delivery.elements

def deliver (env : External) (run : NodeRun) (delivery : Delivery) : Exec NodeRun :=
  dispatch env delivery.ipv4 delivery.port delivery.now delivery.document run

/-- The `ExecuteTransaction` calls of a run. -/
def executed (trace : List Effect) : List (Transaction × Ipv4Address) :=
  trace.filterMap fun
    | .executeTransaction newTrans receivedFromIpv4 => some (newTrans, receivedFromIpv4)
    | _ => none

/-- `ExecuteTransaction` leaves what the endorsement of later transactions reads
    as it is. -/
def KeepsEndorsements (env : External) : Prop :=
  ∀ newTrans ipv4 node,
    (env.executeTransaction newTrans ipv4 node).transaction = node.transaction ∧
    (env.executeTransaction newTrans ipv4 node).totalEndorsement = node.totalEndorsement ∧
    (env.executeTransaction newTrans ipv4 node).committerType = node.committerType ∧
    (env.executeTransaction newTrans ipv4 node).id = node.id

/-- What a run of `node` over `arrivals` has come to. -/
structure AcceptedOnce (node : BlockchainNode) (arrivals : List Arrival) (run : NodeRun) : Prop where
  transactions :
    run.node.transaction = (firstArrivals Arrival.key arrivals).map Arrival.transaction
  executed : executed run.trace =
    if node.committerType = .endorser then
      (firstArrivals Arrival.key arrivals).map (Arrival.call node.id)
    else []
  endorsements : run.node.totalEndorsement.val =
    if node.committerType = .endorser then (run.node.transaction.length : Int) else 0
  committerType : run.node.committerType = node.committerType
  id : run.node.id = node.id

variable {env : External} {node : BlockchainNode} {arrivals : List Arrival} {run : NodeRun}

/-! ## One element -/

theorem executed_append (trace trace' : List Effect) :
    executed (trace ++ trace') = executed trace ++ executed trace' :=
  List.filterMap_append

/-- An element whose transaction is stored changes nothing but the log. -/
theorem requestTransItem_seen (env : External) (ipv4 : Ipv4Address) (now : ℚ) {element : Value}
    {item : TransactionItem} (read : readItem element = .ok item)
    (seen : run.node.hasTransaction item.nodeId item.transId = true) :
    requestTransItem env ipv4 now run element =
      .ok (run.emit (.hasTransaction item.nodeId item.transId)) := by
  rw [requestTransItem, read, ok_bind, if_pos seen]
  rfl

/-- While the counter has room an endorsement counts one more and updates the mean. -/
theorem endorse_eq (env : External) (ipv4 : Ipv4Address) (now : ℚ) (newTrans : Transaction)
    (run : NodeRun) {count : ℕ} (counted : run.node.totalEndorsement.val = count)
    (room : count < 2147483647) :
    ∃ totalEndorsement : CInt, totalEndorsement.val = count + 1 ∧
      endorse env ipv4 now newTrans run = .ok
        { node := env.executeTransaction (newTrans.setExecution (CInt.ofUInt32 run.node.id)) ipv4
            { run.node with
              totalEndorsement := totalEndorsement
              meanEndorsementTime :=
                nextMean run.node.meanEndorsementTime count (now - newTrans.timeStamp) }
          trace := run.trace ++
            [.executeTransaction (newTrans.setExecution (CInt.ofUInt32 run.node.id)) ipv4] } := by
  obtain ⟨total, added, succ⟩ := @CInt.add_one run.node.totalEndorsement (by omega)
  obtain ⟨before, subtracted, pred⟩ := @CInt.sub_one total (by omega)
  have totalCast : (total.val : ℚ) = count + 1 := by
    rw [succ, counted]
    push_cast
    rfl
  have beforeCast : (before.val : ℚ) = count := by
    have same : before.val = count := by omega
    rw [same]
    rfl
  refine ⟨total, by rw [succ, counted], ?_⟩
  rw [endorse, added, ok_bind, subtracted, ok_bind, nextMean, ← totalCast, ← beforeCast]
  rfl

/-- What `requestTransItem` does with a new transaction before it endorses it. -/
def storeTransaction (arrival : Arrival) (run : NodeRun) : NodeRun :=
  { run with
    node := { run.node with transaction := run.node.transaction ++ [arrival.transaction] } }

theorem requestTransItem_new (env : External) (ipv4 : Ipv4Address) (now : ℚ) {element : Value}
    {item : TransactionItem} (read : readItem element = .ok item)
    (unseen : ¬ run.node.hasTransaction item.nodeId item.transId = true) :
    requestTransItem env ipv4 now run element =
      if run.node.committerType = .endorser then
        endorse env ipv4 now (Arrival.transaction ⟨ipv4, item⟩) (storeTransaction ⟨ipv4, item⟩ run)
      else .ok (storeTransaction ⟨ipv4, item⟩ run) := by
  rw [requestTransItem, read, ok_bind, if_neg unseen]
  rfl

/-! ## What an element does to the accepted transactions -/

/-- A key that came before: the arrival is no first one. -/
theorem AcceptedOnce.seen (accepted : AcceptedOnce node arrivals run) {arrival : Arrival}
    (known : arrival.key ∈ arrivals.map Arrival.key) (nodeId transId : CInt) :
    AcceptedOnce node (arrivals ++ [arrival]) (run.emit (.hasTransaction nodeId transId)) := by
  have next := firstArrivals_append_singleton Arrival.key arrivals arrival
  rw [if_pos known] at next
  refine ⟨?_, ?_, accepted.endorsements, accepted.committerType, accepted.id⟩
  · rw [next, NodeRun.emit_node, accepted.transactions]
  · -- A log line is no call.
    rw [next, NodeRun.emit_trace, executed_append, accepted.executed]
    exact List.append_nil _

theorem firstArrivals_fresh {arrival : Arrival} (fresh : arrival.key ∉ arrivals.map Arrival.key) :
    firstArrivals Arrival.key (arrivals ++ [arrival]) =
      firstArrivals Arrival.key arrivals ++ [arrival] := by
  rw [firstArrivals_append_singleton, if_neg fresh]

theorem storeTransaction_transaction (accepted : AcceptedOnce node arrivals run) {arrival : Arrival}
    (fresh : arrival.key ∉ arrivals.map Arrival.key) :
    (storeTransaction arrival run).node.transaction =
      (firstArrivals Arrival.key (arrivals ++ [arrival])).map Arrival.transaction := by
  rw [firstArrivals_fresh fresh, List.map_append, ← accepted.transactions]
  rfl

/-- A new key, at a node that does not endorse. -/
theorem AcceptedOnce.stored (accepted : AcceptedOnce node arrivals run) {arrival : Arrival}
    (fresh : arrival.key ∉ arrivals.map Arrival.key) (other : node.committerType ≠ .endorser) :
    AcceptedOnce node (arrivals ++ [arrival]) (storeTransaction arrival run) := by
  have none := accepted.endorsements
  have calls := accepted.executed
  rw [if_neg other] at none calls
  refine ⟨storeTransaction_transaction accepted fresh, ?_, ?_, accepted.committerType, accepted.id⟩
  · rw [if_neg other]
    exact calls
  · rw [if_neg other]
    exact none

/-- A new key, at an `ENDORSER`: the counter has room, and the call is the next
    one. -/
theorem AcceptedOnce.endorsed (keeps : KeepsEndorsements env)
    (accepted : AcceptedOnce node arrivals run) {arrival : Arrival}
    (fresh : arrival.key ∉ arrivals.map Arrival.key) (endorser : node.committerType = .endorser)
    (room : (firstArrivals Arrival.key (arrivals ++ [arrival])).length < 2147483648) (now : ℚ) :
    ∃ run', endorse env arrival.ipv4 now arrival.transaction (storeTransaction arrival run) =
        .ok run' ∧
      AcceptedOnce node (arrivals ++ [arrival]) run' := by
  have stored := storeTransaction_transaction accepted fresh
  have calls := accepted.executed
  have before : (storeTransaction arrival run).node.totalEndorsement.val =
      (if node.committerType = .endorser then (run.node.transaction.length : Int) else 0) :=
    accepted.endorsements
  -- The key is fresh, so the table and the first arrivals grow together: the counter has room
  -- for one more.
  have count : run.node.transaction.length + 1 =
      (firstArrivals Arrival.key (arrivals ++ [arrival])).length := by
    rw [firstArrivals_fresh fresh, accepted.transactions, List.length_append, List.length_map,
      List.length_singleton]
  rw [if_pos endorser] at before calls
  obtain ⟨total, succ, endorsed⟩ := endorse_eq env arrival.ipv4 now arrival.transaction
    (storeTransaction arrival run) before (by omega)
  -- `ExecuteTransaction` is declared and never defined: what it keeps is a hypothesis.
  obtain ⟨sameTransaction, sameTotal, sameType, sameId⟩ := keeps
    (arrival.transaction.setExecution (CInt.ofUInt32 (storeTransaction arrival run).node.id))
    arrival.ipv4
    { (storeTransaction arrival run).node with
      totalEndorsement := total
      meanEndorsementTime := nextMean (storeTransaction arrival run).node.meanEndorsementTime
        run.node.transaction.length (now - arrival.transaction.timeStamp) }
  refine ⟨_, endorsed, ?_, ?_, ?_, ?_, ?_⟩
  · rw [sameTransaction, stored]
  · rw [executed_append, if_pos endorser, firstArrivals_fresh fresh, List.map_append, ← calls,
      ← accepted.id]
    rfl
  · rw [if_pos endorser, sameTotal, sameTransaction, stored, List.length_map, ← count]
    change total.val = _
    rw [succ, Nat.cast_succ]
  · rw [sameType]
    exact accepted.committerType
  · rw [sameId]
    exact accepted.id

theorem arrivalsOf_cons (ipv4 : Ipv4Address) {element : Value} {item : TransactionItem}
    (read : readItem element = .ok item) (elements : List Value) :
    arrivalsOf ipv4 (element :: elements) = ⟨ipv4, item⟩ :: arrivalsOf ipv4 elements := by
  rw [arrivalsOf, List.filterMap_cons, read]
  rfl

theorem offersOf_append (now : ℚ) (ipv4 : Ipv4Address) (elements elements' : List Value) :
    offersOf now ipv4 (elements ++ elements') =
      offersOf now ipv4 elements ++ offersOf now ipv4 elements' := by
  rw [offersOf, arrivalsOf, List.filterMap_append, List.map_append]
  rfl

theorem offersOf_singleton (now : ℚ) (ipv4 : Ipv4Address) {element : Value} {item : TransactionItem}
    (read : readItem element = .ok item) : offersOf now ipv4 [element] = [⟨now, ⟨ipv4, item⟩⟩] := by
  rw [offersOf, arrivalsOf_cons ipv4 read]
  rfl

theorem Delivery.WellFormed.shaped {delivery : Delivery} (wellFormed : delivery.WellFormed) :
    ∀ element ∈ delivery.elements, TransactionShape element := by
  obtain ⟨_, elements, there, shaped⟩ := wellFormed
  rw [Delivery.elements, there]
  exact shaped

/-- The state in which the element loop of a message starts. -/
def received (run : NodeRun) (delivery : Delivery) : NodeRun :=
  { run with node := run.node.addGetDataReceivedBytes delivery.elements.length }

theorem deliver_eq (env : External) {delivery : Delivery} (wellFormed : delivery.WellFormed)
    (peer : run.node.committerType ≠ .client) :
    deliver env run delivery = foldChecked (requestTransItem env delivery.ipv4 delivery.now)
      (received run delivery) delivery.elements := by
  obtain ⟨message, elements, there, _⟩ := wellFormed
  have selected : delivery.document.findMember "message".toList =
      some (.int (CInt.lit 1).val) := message
  rw [deliver, dispatch_of_message selected, if_neg (by decide), if_pos (by decide),
    caseRequestTrans, if_neg peer, Value.member_eq_ok_iff.mpr there, ok_bind, Value.elements_array,
    ok_bind, received, Delivery.elements, there]
  rfl

/-- An invariant of the transactions offered so far that one pass of the element
    loop keeps while there is room. -/
structure ElementRule (env : External) (invariant : List Offer → NodeRun → Prop)
    (room : List Offer → Prop) : Prop where
  peer : ∀ {offered run}, invariant offered run → run.node.committerType ≠ .client
  message : ∀ {offered run}, invariant offered run → ∀ delivery,
    invariant offered (received run delivery)
  room_of_append : ∀ {offered later}, room (offered ++ later) → room offered
  element : ∀ {offered run element item} ipv4 now, invariant offered run →
    readItem element = .ok item → room (offered ++ [⟨now, ⟨ipv4, item⟩⟩]) →
      ∃ run', requestTransItem env ipv4 now run element = .ok run' ∧
        invariant (offered ++ [⟨now, ⟨ipv4, item⟩⟩]) run'

section Rule

variable {invariant : List Offer → NodeRun → Prop} {room : List Offer → Prop}
  {offered : List Offer}

/-- The element loop, stopped after any number of elements. -/
theorem ElementRule.elements (rule : ElementRule env invariant room) (ipv4 : Ipv4Address) (now : ℚ)
    (holds : invariant offered run) {elements : List Value}
    (shaped : ∀ element ∈ elements, TransactionShape element)
    (enough : room (offered ++ offersOf now ipv4 elements)) :
    ∃ run', foldChecked (requestTransItem env ipv4 now) run elements = .ok run' ∧
      invariant (offered ++ offersOf now ipv4 elements) run' := by
  refine foldChecked_progress
    (fun consumed run' => invariant (offered ++ offersOf now ipv4 consumed) run') ?_ ?_
  · rw [offersOf, arrivalsOf, List.filterMap_nil, List.map_nil, List.append_nil]
    exact holds
  · rintro consumed element s ⟨rest, whole⟩ sofar
    obtain ⟨item, read⟩ := readItem_ok_iff.mpr (shaped element (by simp [← whole]))
    -- The room for the whole message is room for the part of it so far.
    rw [← whole, offersOf_append, offersOf_append, offersOf_singleton now ipv4 read,
      ← List.append_assoc, ← List.append_assoc] at enough
    rw [offersOf_append, offersOf_singleton now ipv4 read, ← List.append_assoc]
    exact rule.element ipv4 now sofar read (rule.room_of_append enough)

/-- A sequence of messages. -/
theorem ElementRule.deliveries (rule : ElementRule env invariant room)
    (start : invariant [] { node, trace := [] }) {deliveries : List Delivery}
    (wellFormed : ∀ delivery ∈ deliveries, delivery.WellFormed) (enough : room (offers deliveries)) :
    ∃ run, foldChecked (deliver env) { node, trace := [] } deliveries = .ok run ∧
      invariant (offers deliveries) run := by
  refine foldChecked_progress (fun consumed run => invariant (offers consumed) run) start ?_
  rintro consumed delivery s ⟨rest, whole⟩ sofar
  have listed : delivery ∈ deliveries := by simp [← whole]
  have extended : offers (consumed ++ [delivery]) =
      offers consumed ++ offersOf delivery.now delivery.ipv4 delivery.elements := by simp [offers]
  have split : offers deliveries = offers (consumed ++ [delivery]) ++ offers rest := by
    rw [← whole]
    simp [offers]
  rw [split, extended] at enough
  rw [extended, deliver_eq env (wellFormed delivery listed) (rule.peer sofar)]
  exact rule.elements delivery.ipv4 delivery.now (rule.message sofar delivery)
    (wellFormed delivery listed).shaped (rule.room_of_append enough)

end Rule

theorem AcceptedOnce.received (accepted : AcceptedOnce node arrivals run) (delivery : Delivery) :
    AcceptedOnce node arrivals (received run delivery) :=
  ⟨accepted.transactions, accepted.executed, accepted.endorsements, accepted.committerType,
    accepted.id⟩

/-- Two runs that have accepted and endorsed the same. -/
structure SameEndorsements (run run' : NodeRun) : Prop where
  transaction : run'.node.transaction = run.node.transaction
  totalEndorsement : run'.node.totalEndorsement = run.node.totalEndorsement
  meanEndorsementTime : run'.node.meanEndorsementTime = run.node.meanEndorsementTime
  executed : executed run'.trace = executed run.trace

theorem elementLoop_seen (env : External) (ipv4 : Ipv4Address) (now : ℚ) {elements : List Value}
    (seen : ∀ element ∈ elements, ∃ item, readItem element = .ok item ∧
      run.node.hasTransaction item.nodeId item.transId = true) :
    ∃ run', foldChecked (requestTransItem env ipv4 now) run elements = .ok run' ∧
      SameEndorsements run run' := by
  refine foldChecked_progress (fun _ run' => SameEndorsements run run') ⟨rfl, rfl, rfl, rfl⟩ ?_
  intro consumed element s ⟨rest, whole⟩ same
  obtain ⟨item, read, has⟩ := seen element (by simp [← whole])
  have has' : s.node.hasTransaction item.nodeId item.transId = true := by
    rw [hasTransaction, same.transaction]
    exact has
  refine ⟨_, requestTransItem_seen env ipv4 now read has', same.transaction, same.totalEndorsement,
    same.meanEndorsementTime, ?_⟩
  rw [NodeRun.emit_trace, executed_append, same.executed]
  exact List.append_nil _

theorem requestDocument_wellFormed (ipv4 : Ipv4Address) (port : UInt16) (now : ℚ)
    (items : List TransactionItem) :
    Delivery.WellFormed { ipv4, port, now, document := requestDocument items } :=
  ⟨rfl, requestDocument_shape items⟩

/-- Two transactions, the first of them in three copies from two peers. -/
def repeatedDeliveries : List Delivery :=
  [{ ipv4 := ⟨1⟩, port := 8333, now := 5,
     document := requestDocument [⟨CInt.lit 1, CInt.lit 1, 2⟩, ⟨CInt.lit 1, CInt.lit 1, 3⟩] },
    { ipv4 := ⟨2⟩, port := 8333, now := 6,
      document := requestDocument [⟨CInt.lit 1, CInt.lit 1, 4⟩, ⟨CInt.lit 1, CInt.lit 2, 4⟩] }]

theorem repeatedDeliveries_wellFormed : ∀ delivery ∈ repeatedDeliveries, delivery.WellFormed := by
  intro delivery member
  simp only [repeatedDeliveries, List.mem_cons, List.not_mem_nil, or_false] at member
  obtain rfl | rfl := member
  · exact requestDocument_wellFormed _ _ _ _
  · exact requestDocument_wellFormed _ _ _ _

end BlockchainNode

end Ns3Blockchain
