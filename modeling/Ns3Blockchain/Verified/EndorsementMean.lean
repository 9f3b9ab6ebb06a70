import Mathlib.Tactic.NormNum
import Ns3Blockchain.Verified.Endorsement

/-! # The mean endorsement time

An `ENDORSER` updates `m_meanEndorsementTime` with each transaction it accepts.
The samples are the delays of the first arrivals of the keys it did not have, and
what it keeps is their mean.
-/

namespace Ns3Blockchain

open Library Rapidjson

namespace BlockchainNode

namespace Offer

def key (offer : Offer) : CInt × CInt := offer.arrival.key

def delay (offer : Offer) : ℚ := offer.now - offer.arrival.item.timestamp

end Offer

/-- The first offers of the keys that were not stored at the start. -/
def acceptedOffers (node : BlockchainNode) (offered : List Offer) : List Offer :=
  firstArrivals Offer.key (offered.filter fun offer => !node.hasTransaction offer.key.1 offer.key.2)

/-- `ExecuteTransaction` leaves the mean and what it is computed from. -/
def KeepsMean (env : External) : Prop :=
  ∀ newTrans ipv4 node,
    (env.executeTransaction newTrans ipv4 node).transaction = node.transaction ∧
    (env.executeTransaction newTrans ipv4 node).totalEndorsement = node.totalEndorsement ∧
    (env.executeTransaction newTrans ipv4 node).meanEndorsementTime = node.meanEndorsementTime ∧
    (env.executeTransaction newTrans ipv4 node).committerType = node.committerType

/-- What an `ENDORSER` has of the transactions offered so far. -/
structure MeanTracks (node : BlockchainNode) (offered : List Offer) (run : NodeRun) : Prop where
  known : ∀ nodeId transId, run.node.hasTransaction nodeId transId = true ↔
    node.hasTransaction nodeId transId = true ∨ (nodeId, transId) ∈ offered.map Offer.key
  total : run.node.totalEndorsement.val = ((acceptedOffers node offered).length : Int)
  mean : run.node.meanEndorsementTime = mean ((acceptedOffers node offered).map Offer.delay)
  committerType : run.node.committerType = .endorser

/-- The running mean is the mean: its product with the counter is the sum of the
    delays, the counter counts them, and the next divisor is not zero. -/
structure MeanIsMean (node : BlockchainNode) (offered : List Offer) (run : NodeRun) : Prop where
  product : run.node.meanEndorsementTime * run.node.totalEndorsement.val =
    ((acceptedOffers node offered).map Offer.delay).sum
  count : run.node.totalEndorsement.val = ((acceptedOffers node offered).length : Int)
  divisor : ∀ totalEndorsement,
    CInt.add run.node.totalEndorsement (CInt.lit 1) = .ok totalEndorsement →
      totalEndorsement.val ≠ 0

variable {env : External} {node : BlockchainNode} {offered : List Offer} {run : NodeRun}

/-! ## The accepted offers -/

theorem acceptedOffers_append (node : BlockchainNode) (offered : List Offer) (offer : Offer) :
    acceptedOffers node (offered ++ [offer]) =
      if node.hasTransaction offer.key.1 offer.key.2 = true ∨ offer.key ∈ offered.map Offer.key then
        acceptedOffers node offered
      else acceptedOffers node offered ++ [offer] := by
  rw [acceptedOffers, List.filter_append]
  by_cases stored : node.hasTransaction offer.key.1 offer.key.2 = true
  · rw [if_pos (.inl stored), List.filter_cons_of_neg (by simp [stored])]
    rw [List.filter_nil, List.append_nil, acceptedOffers]
  · -- The offers of this key are all there, so the filter does not hide one.
    have sameKeys : offer.key ∈ (offered.filter fun offer =>
        !node.hasTransaction offer.key.1 offer.key.2).map Offer.key ↔
        offer.key ∈ offered.map Offer.key := by
      rw [List.mem_map, List.mem_map]
      constructor
      · intro ⟨other, member, same⟩
        exact ⟨other, (List.mem_filter.mp member).1, same⟩
      · intro ⟨other, member, same⟩
        refine ⟨other, List.mem_filter.mpr ⟨member, ?_⟩, same⟩
        rw [same]
        simpa using stored
    rw [List.filter_cons_of_pos (by simp [stored]), List.filter_nil, firstArrivals_append_singleton]
    simp only [sameKeys, or_iff_right stored]
    rfl

theorem acceptedOffers_grows (node : BlockchainNode) (offered later : List Offer) :
    (acceptedOffers node offered).length ≤ (acceptedOffers node (offered ++ later)).length := by
  rw [acceptedOffers, acceptedOffers, List.filter_append]
  exact (firstArrivals_grows Offer.key _ _).length_le

/-! ## One element -/

theorem hasTransaction_storeTransaction (arrival : Arrival) (run : NodeRun) (nodeId transId : CInt) :
    (storeTransaction arrival run).node.hasTransaction nodeId transId = true ↔
      run.node.hasTransaction nodeId transId = true ∨ (nodeId, transId) = arrival.key := by
  rw [hasTransaction, storeTransaction, List.any_append, Bool.or_eq_true, List.any_cons, List.any_nil,
    Bool.or_false, Bool.and_eq_true, beq_iff_eq, beq_iff_eq, Arrival.key, Prod.mk.injEq]
  exact or_congr Iff.rfl (and_congr eq_comm eq_comm)

/-- The keys known after one more offer. -/
theorem MeanTracks.known_append (tracks : MeanTracks node offered run) (offer : Offer)
    (nodeId transId : CInt) :
    (run.node.hasTransaction nodeId transId = true ∨ (nodeId, transId) = offer.key) ↔
      node.hasTransaction nodeId transId = true ∨
        (nodeId, transId) ∈ (offered ++ [offer]).map Offer.key := by
  rw [tracks.known, List.map_append, List.mem_append, List.map_singleton, List.mem_singleton, or_assoc]

/-- A known key: neither the samples nor the node change. -/
theorem MeanTracks.seen (tracks : MeanTracks node offered run) {offer : Offer}
    (seen : run.node.hasTransaction offer.key.1 offer.key.2 = true) (effect : Effect) :
    MeanTracks node (offered ++ [offer]) (run.emit effect) := by
  have same := acceptedOffers_append node offered offer
  rw [if_pos ((tracks.known _ _).mp seen)] at same
  refine ⟨?_, by rw [same]; exact tracks.total, by rw [same]; exact tracks.mean,
    tracks.committerType⟩
  intro nodeId transId
  rw [← tracks.known_append, NodeRun.emit_node]
  constructor
  · exact .inl
  · rintro (has | keyed)
    · exact has
    · rw [← keyed] at seen
      exact seen

/-- A new key: its delay is the next sample. -/
theorem MeanTracks.endorsed (keeps : KeepsMean env) (tracks : MeanTracks node offered run)
    {offer : Offer} (fresh : ¬ run.node.hasTransaction offer.key.1 offer.key.2 = true)
    (room : (acceptedOffers node (offered ++ [offer])).length < 2147483648) :
    ∃ run', endorse env offer.arrival.ipv4 offer.now offer.arrival.transaction
        (storeTransaction offer.arrival run) = .ok run' ∧
      MeanTracks node (offered ++ [offer]) run' := by
  have next := acceptedOffers_append node offered offer
  rw [if_neg (mt (tracks.known _ _).mpr fresh)] at next
  rw [next, List.length_append, List.length_singleton] at room
  obtain ⟨total, succ, endorsed⟩ := endorse_eq env offer.arrival.ipv4 offer.now
    offer.arrival.transaction (storeTransaction offer.arrival run) tracks.total (by omega)
  refine ⟨_, endorsed, ?_, ?_, ?_, ?_⟩
  · intro nodeId transId
    rw [← tracks.known_append, hasTransaction, (keeps _ _ _).1]
    exact hasTransaction_storeTransaction offer.arrival run nodeId transId
  · rw [(keeps _ _ _).2.1, next, List.length_append, List.length_singleton]
    exact succ
  · rw [(keeps _ _ _).2.2.1, next, List.map_append, List.map_singleton, ← nextMean_mean,
      List.length_map, ← tracks.mean]
    rfl
  · rw [(keeps _ _ _).2.2.2]
    exact tracks.committerType

/-- One pass of the element loop. -/
theorem requestTransItem_tracks (keeps : KeepsMean env) (ipv4 : Ipv4Address) (now : ℚ)
    (tracks : MeanTracks node offered run) {element : Value} {item : TransactionItem}
    (read : readItem element = .ok item)
    (room : (acceptedOffers node (offered ++ [⟨now, ⟨ipv4, item⟩⟩])).length < 2147483648) :
    ∃ run', requestTransItem env ipv4 now run element = .ok run' ∧
      MeanTracks node (offered ++ [⟨now, ⟨ipv4, item⟩⟩]) run' := by
  by_cases seen : run.node.hasTransaction item.nodeId item.transId = true
  · exact ⟨_, requestTransItem_seen env ipv4 now read seen,
      @MeanTracks.seen node offered run tracks ⟨now, ⟨ipv4, item⟩⟩ seen _⟩
  · rw [requestTransItem_new env ipv4 now read seen, if_pos tracks.committerType]
    exact @MeanTracks.endorsed env node offered run keeps tracks ⟨now, ⟨ipv4, item⟩⟩ seen room

/-! ## Runs -/

theorem MeanTracks.received (tracks : MeanTracks node offered run) (delivery : Delivery) :
    MeanTracks node offered (received run delivery) :=
  ⟨tracks.known, tracks.total, tracks.mean, tracks.committerType⟩

theorem MeanTracks.peer (tracks : MeanTracks node offered run) :
    run.node.committerType ≠ .client := by
  rw [tracks.committerType]
  decide

theorem meanTracks_rule (keeps : KeepsMean env) (node : BlockchainNode) :
    ElementRule env (MeanTracks node)
      (fun offered => (acceptedOffers node offered).length < 2147483648) where
  peer := MeanTracks.peer
  message := MeanTracks.received
  room_of_append := by
    intro offered later enough
    have less := acceptedOffers_grows node offered later
    omega
  element := fun ipv4 now tracks read enough =>
    requestTransItem_tracks keeps ipv4 now tracks read enough

theorem MeanTracks.meanIsMean (tracks : MeanTracks node offered run) :
    MeanIsMean node offered run := by
  refine ⟨?_, tracks.total, ?_⟩
  · have product := mean_mul_length ((acceptedOffers node offered).map Offer.delay)
    rw [List.length_map, ← tracks.mean] at product
    rw [tracks.total, Int.cast_natCast]
    exact product
  · intro totalEndorsement added zero
    have succ := CInt.checked_eq_ok_iff.mp added
    rw [tracks.total, CInt.val_one] at succ
    omega

/-- A message all of whose keys are known leaves the counter and the mean. -/
theorem MeanTracks.redeliver (tracks : MeanTracks node offered run) {again : Delivery}
    (wellFormed : again.WellFormed)
    (repeated : ∀ offer ∈ offersOf again.now again.ipv4 again.elements,
      node.hasTransaction offer.key.1 offer.key.2 = true ∨ offer.key ∈ offered.map Offer.key) :
    ∃ run', deliver env run again = .ok run' ∧ SameEndorsements run run' := by
  have seen : ∀ element ∈ again.elements, ∃ item, readItem element = .ok item ∧
      (BlockchainNode.received run again).node.hasTransaction item.nodeId item.transId = true := by
    intro element listed
    obtain ⟨item, read⟩ := readItem_ok_iff.mpr (wellFormed.shaped element listed)
    refine ⟨item, read, ((tracks.received again).known _ _).mpr (repeated ⟨again.now, ⟨again.ipv4, item⟩⟩ ?_)⟩
    refine List.mem_map.mpr ⟨_, List.mem_filterMap.mpr ⟨element, listed, ?_⟩, rfl⟩
    rw [read]
  rw [deliver_eq env wellFormed tracks.peer]
  obtain ⟨run', finished, same⟩ := elementLoop_seen env again.ipv4 again.now seen
  exact ⟨run', finished, same.transaction, same.totalEndorsement, same.meanEndorsementTime,
    same.executed⟩

/-- For every `ENDORSER` whose counter and mean are zero, whatever transactions it
    has, and every sequence of `REQUEST_TRANS` messages at any times, up to any
    element of the next one: the running mean is the mean of the delays of the
    transactions accepted, and a message of known keys does not move it. -/
theorem running_mean_is_mean (env : External) (node : BlockchainNode) (deliveries : List Delivery)
    (keeps : KeepsMean env) (endorser : node.committerType = .endorser)
    (noEndorsements : node.totalEndorsement.val = 0) (noMean : node.meanEndorsementTime = 0)
    (wellFormed : ∀ delivery ∈ deliveries, delivery.WellFormed)
    (room : (acceptedOffers node (offers deliveries)).length < 2147483648) :
    ∃ run, foldChecked (deliver env) { node, trace := [] } deliveries = .ok run ∧
      MeanIsMean node (offers deliveries) run ∧
      (∀ next : Delivery, next.WellFormed → ∀ elements, elements <+: next.elements →
        (acceptedOffers node (offers deliveries ++ offersOf next.now next.ipv4 elements)).length <
          2147483648 →
        ∃ run', foldChecked (requestTransItem env next.ipv4 next.now) (received run next) elements =
            .ok run' ∧
          MeanIsMean node (offers deliveries ++ offersOf next.now next.ipv4 elements) run') ∧
      ∀ again : Delivery, again.WellFormed →
        (∀ offer ∈ offersOf again.now again.ipv4 again.elements,
          node.hasTransaction offer.key.1 offer.key.2 = true ∨
            offer.key ∈ (offers deliveries).map Offer.key) →
        ∃ run', deliver env run again = .ok run' ∧ SameEndorsements run run' := by
  have start : MeanTracks node (offers []) { node, trace := [] } := by
    refine ⟨?_, noEndorsements, ?_, endorser⟩
    · intro nodeId transId
      simp [offers]
    · rw [noMean]
      exact mean_nil.symm
  have rule := meanTracks_rule keeps node
  obtain ⟨run, finished, tracks⟩ := rule.deliveries start wellFormed room
  refine ⟨run, finished, tracks.meanIsMean, ?_, fun again wellFormedAgain repeated =>
    tracks.redeliver wellFormedAgain repeated⟩
  intro next nextWellFormed elements part enough
  obtain ⟨run', looped, tracks'⟩ := rule.elements next.ipv4 next.now (tracks.received next)
    (fun element listed => nextWellFormed.shaped element (part.subset listed)) enough
  exact ⟨run', looped, tracks'.meanIsMean⟩

/-- Delays 3 and 2; the other two elements repeat the first key. -/
theorem running_mean_is_mean_repeated :
    ∃ run, foldChecked (deliver (knowing []))
        { node := idle 7 .standardProtocol .endorser, trace := [] } repeatedDeliveries = .ok run ∧
      run.node.meanEndorsementTime * run.node.totalEndorsement.val = 5 := by
  obtain ⟨run, finished, isMean, _⟩ := running_mean_is_mean (knowing [])
    (idle 7 .standardProtocol .endorser) repeatedDeliveries (fun _ _ _ => ⟨rfl, rfl, rfl, rfl⟩) rfl
    rfl rfl repeatedDeliveries_wellFormed (by decide)
  have delays : (acceptedOffers (idle 7 .standardProtocol .endorser)
      (offers repeatedDeliveries)).map Offer.delay = [5 - 2, 6 - 4] := rfl
  refine ⟨run, finished, isMean.product.trans ?_⟩
  rw [delays]
  norm_num

end BlockchainNode

end Ns3Blockchain
