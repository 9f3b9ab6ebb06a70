import Ns3Blockchain.Library.KeyPool
import Ns3Blockchain.Verified.Copies
import Ns3Blockchain.Verified.Store

/-! # The orphan pool

By their keys the orphans follow the history of the pool exactly: `erase` moves
the headers of the later orphans down.  Their transactions stay where they were,
so an orphan is kept whole only behind a neighbour with the same ones.
-/

namespace Ns3Blockchain

open Library Library.KeyPool

namespace Block

/-- What `operator==` compares. -/
def key (block : Block) : CInt × CInt := (block.blockHeight, block.minerId)

theorem equals_iff {a b : Block} : a.equals b = true ↔ a.key = b.key := by
  rw [equals, Bool.and_eq_true, beq_iff_eq, beq_iff_eq, key, key, Prod.mk.injEq]
  rfl

/-- An assignment gives its source back exactly onto its transactions and
    counter. -/
theorem assign_eq_iff {destination blockSource : Block} :
    destination.assign blockSource = blockSource ↔
      destination.transactions = blockSource.transactions ∧
        destination.totalTransactions = blockSource.totalTransactions := by
  constructor
  · intro same
    rw [← same]
    exact ⟨rfl, rfl⟩
  · intro ⟨sameTransactions, sameTotal⟩
    rw [assign, sameTransactions, sameTotal]

end Block

namespace Blockchain

/-! ## Keys -/

/-- What a call does to the keys of the pool. -/
def orphanEvent : Operation → Option (PoolEvent (CInt × CInt))
  | .addBlock _ => none
  | .addOrphan newBlock => some (.add newBlock.key)
  | .removeOrphan newBlock => some (.remove newBlock.key)

def orphanHistory (operations : List Operation) : List (PoolEvent (CInt × CInt)) :=
  operations.filterMap orphanEvent

theorem map_key_shiftDown (hole : Block) (tail : List Block) :
    (shiftDown hole tail).map Block.key = tail.map Block.key := by
  induction tail generalizing hole with
  | nil => rfl
  | cons next tail inductionHypothesis =>
    rw [shiftDown, List.map_cons, inductionHypothesis, List.map_cons]
    rfl

theorem map_key_eraseFirst (newBlock : Block) (pool : List Block) :
    (eraseFirst newBlock pool).map Block.key =
      (PoolEvent.remove newBlock.key).apply (pool.map Block.key) := by
  induction pool with
  | nil => rfl
  | cons block tail inductionHypothesis =>
    rw [eraseFirst, List.map_cons]
    split
    next found =>
      rw [map_key_shiftDown, Block.equals_iff.mp found, remove_head]
    next other =>
      have different : block.key ≠ newBlock.key := fun same => other (Block.equals_iff.mpr same.symm)
      rw [List.map_cons, inductionHypothesis, remove_tail different]

theorem orphans_of_addBlock {chain chain' : Blockchain} {newBlock : Block}
    (added : chain.addBlock newBlock = .ok chain') : chain'.orphans = chain.orphans := by
  obtain ⟨_, _, added⟩ := bind_eq_ok_iff.mp added
  obtain ⟨_, _, added⟩ := bind_eq_ok_iff.mp added
  cases added
  rfl

/-- The step of the history. -/
theorem orphanKeys_apply {chain chain' : Blockchain} {operation : Operation}
    (applied : chain.apply operation = .ok chain') :
    chain'.orphans.map Block.key =
      poolFrom (chain.orphans.map Block.key) (orphanHistory [operation]) := by
  cases operation with
  | addBlock newBlock =>
    rw [orphans_of_addBlock applied]
    rfl
  | addOrphan newBlock =>
    cases applied
    exact List.map_append
  | removeOrphan newBlock =>
    cases applied
    exact map_key_eraseFirst newBlock chain.orphans

theorem orphanKeys_reach {operations : List Operation} {chain : Blockchain}
    (reached : reach operations = .ok chain) :
    chain.orphans.map Block.key = poolAfter (orphanHistory operations) := by
  obtain ⟨start, created, _, empty⟩ := new_represents
  rw [reach, created] at reached
  refine foldChecked_invariant (fun consumed (chain : Blockchain) =>
    chain.orphans.map Block.key = poolAfter (orphanHistory consumed)) ?_ ?_ reached
  · rw [empty]
    rfl
  · intro consumed operation chain chain' _ followed applied
    have history : orphanHistory (consumed ++ [operation]) =
        orphanHistory consumed ++ orphanHistory [operation] := List.filterMap_append
    rw [orphanKeys_apply applied, followed, history, poolAfter, poolAfter, poolFrom_append]

theorem isOrphanAt_iff {chain : Blockchain} {height minerId : CInt} :
    chain.isOrphanAt height minerId = true ↔ (height, minerId) ∈ chain.orphans.map Block.key := by
  rw [isOrphanAt, List.any_eq_true, List.mem_map]
  simp only [Bool.and_eq_true, beq_iff_eq, Block.key, Prod.mk.injEq]
  exact Iff.rfl

/-- A call on the pool leaves the chain. -/
structure SameChain (chain chain' : Blockchain) : Prop where
  blocks : chain'.blocks = chain.blocks
  totalBlocks : chain'.getTotalBlocks = chain.getTotalBlocks
  top : chain'.getCurrentTopBlock = chain.getCurrentTopBlock

/-- For every interleaving of the three calls on a fresh chain: the keys of the
    pool are those the history leaves, both tests decide by them, and neither side
    of a `Blockchain` is touched by the calls on the other. -/
theorem orphans_follow_history (operations : List Operation) (chain : Blockchain)
    (reached : reach operations = .ok chain) :
    chain.orphans.map Block.key = poolAfter (orphanHistory operations) ∧
    (∀ block : Block, chain.isOrphan block = chain.isOrphanAt block.blockHeight block.minerId) ∧
    (∀ height minerId : CInt, chain.isOrphanAt height minerId = true ↔
      effectiveRemovals (height, minerId) (orphanHistory operations) <
        additions (height, minerId) (orphanHistory operations)) ∧
    (∀ newBlock : Block, SameChain chain (chain.addOrphan newBlock) ∧
      SameChain chain (chain.removeOrphan newBlock)) ∧
    ∀ (newBlock : Block) (after : Blockchain), chain.addBlock newBlock = .ok after →
      after.orphans = chain.orphans := by
  have keys := orphanKeys_reach reached
  refine ⟨keys, fun _ => rfl, ?_, fun _ => ⟨⟨rfl, rfl, rfl⟩, ⟨rfl, rfl, rfl⟩⟩, ?_⟩
  · intro height minerId
    rw [isOrphanAt_iff, keys, mem_poolAfter_iff]
  · intro newBlock after added
    exact orphans_of_addBlock added

/-- Two copies of one orphan, one of them removed, and a removal of an absent key. -/
def repeatedOrphans : List Operation :=
  [.addOrphan (lineageBlock (CInt.lit 3) (CInt.lit 1) (CInt.lit 0)),
    .addOrphan (lineageBlock (CInt.lit 3) (CInt.lit 1) (CInt.lit 2)),
    .addBlock (lineageBlock (CInt.lit 2) (CInt.lit 4) (CInt.lit 0)),
    .removeOrphan (lineageBlock (CInt.lit 9) (CInt.lit 9) (CInt.lit 0)),
    .removeOrphan (lineageBlock (CInt.lit 3) (CInt.lit 1) (CInt.lit 0))]

theorem orphans_follow_history_repeated :
    ∃ chain, reach repeatedOrphans = .ok chain ∧
      chain.isOrphanAt (CInt.lit 3) (CInt.lit 1) = true := by
  have reached : ∃ chain, reach repeatedOrphans = .ok chain := ⟨_, rfl⟩
  obtain ⟨chain, reached⟩ := reached
  obtain ⟨_, _, counted, _⟩ := orphans_follow_history repeatedOrphans chain reached
  exact ⟨chain, reached, (counted (CInt.lit 3) (CInt.lit 1)).mpr (by decide)⟩

/-! ## Contents -/

/-- Deleting the first orphan equal to `newBlock`. -/
def deleteFirst (newBlock : Block) (pool : List Block) : List Block :=
  pool.eraseP fun block => newBlock.equals block

/-- `RemoveOrphan` leaves the other orphans in order, and no getter tells them from
    what they were. -/
def RemovesCleanly (newBlock : Block) (pool : List Block) : Prop :=
  List.Forall₂ Block.SameContents (eraseFirst newBlock pool) (deleteFirst newBlock pool)

/-- From the first orphan equal to `newBlock` on, each orphan has the transactions
    of the one before it. -/
def SharesTransactions (newBlock : Block) (pool : List Block) : Prop :=
  (pool.dropWhile fun block => !newBlock.equals block).IsChain fun hole next =>
    hole.transactions = next.transactions

instance (newBlock : Block) (pool : List Block) : Decidable (SharesTransactions newBlock pool) :=
  inferInstanceAs (Decidable (List.IsChain _ _))

/-- The pool the calls should leave. -/
def wholePool (pool : List Block) : Operation → List Block
  | .addBlock _ => pool
  | .addOrphan newBlock => pool ++ [newBlock.copy]
  | .removeOrphan newBlock => deleteFirst newBlock pool

/-- Every `RemoveOrphan` of the calls finds a pool it does not tear. -/
def RemovalsShareTransactions (operations : List Operation) : Prop :=
  ∀ before newBlock chain, before ++ [.removeOrphan newBlock] <+: operations →
    reach before = .ok chain → SharesTransactions newBlock chain.orphans

theorem shiftDown_sameContents_iff (hole : Block) (tail : List Block) :
    List.Forall₂ Block.SameContents (shiftDown hole tail) tail ↔
      (hole :: tail).IsChain fun hole next => hole.transactions = next.transactions := by
  induction tail generalizing hole with
  | nil => simp [shiftDown]
  | cons next tail inductionHypothesis =>
    have header : Block.SameHeader (hole.assign next) next := fun _ => rfl
    rw [shiftDown, List.forall₂_cons, inductionHypothesis, List.isChain_cons_cons,
      Block.sameContents_iff header, Block.assign_transactions]

theorem removesCleanly_iff (newBlock : Block) (pool : List Block) :
    RemovesCleanly newBlock pool ↔ SharesTransactions newBlock pool := by
  rw [RemovesCleanly, SharesTransactions, deleteFirst]
  induction pool with
  | nil => simp [eraseFirst]
  | cons block tail inductionHypothesis =>
    rw [eraseFirst]
    split
    next found =>
      rw [List.eraseP_cons_of_pos found, List.dropWhile_cons_of_neg (by simp [found])]
      exact shiftDown_sameContents_iff block tail
    next other =>
      -- The search has not reached the place yet: the block stays.
      have same : Block.SameContents block block :=
        (Block.sameContents_iff fun _ => rfl).mpr rfl
      rw [List.eraseP_cons_of_neg other, List.dropWhile_cons_of_pos (by simp [other]),
        List.forall₂_cons, inductionHypothesis]
      exact and_iff_right same

theorem shiftDown_eq {hole : Block} {tail : List Block}
    (shared : (hole :: tail).IsChain fun hole next => hole.transactions = next.transactions)
    (copied : ∀ block ∈ hole :: tail, block.totalTransactions = CInt.lit 0) :
    shiftDown hole tail = tail := by
  induction tail generalizing hole with
  | nil => rfl
  | cons next tail inductionHypothesis =>
    rw [List.isChain_cons_cons] at shared
    rw [List.forall_mem_cons] at copied
    have sameTotal : hole.totalTransactions = next.totalTransactions :=
      copied.1.trans (copied.2 next List.mem_cons_self).symm
    rw [shiftDown, Block.assign_eq_iff.mpr ⟨shared.1, sameTotal⟩,
      inductionHypothesis shared.2 copied.2]

theorem eraseFirst_eq {newBlock : Block} {pool : List Block}
    (shared : SharesTransactions newBlock pool)
    (copied : ∀ block ∈ pool, block.totalTransactions = CInt.lit 0) :
    eraseFirst newBlock pool = deleteFirst newBlock pool := by
  rw [SharesTransactions] at shared
  rw [deleteFirst]
  induction pool with
  | nil => rfl
  | cons block tail inductionHypothesis =>
    rw [eraseFirst]
    split
    next found =>
      rw [List.dropWhile_cons_of_neg (by simp [found])] at shared
      rw [List.eraseP_cons_of_pos found, shiftDown_eq shared copied]
    next other =>
      rw [List.dropWhile_cons_of_pos (by simp [other])] at shared
      rw [List.forall_mem_cons] at copied
      rw [List.eraseP_cons_of_neg other, inductionHypothesis shared copied.2]

/-- Every orphan is a copy, so its counter is zero, and stays so while nothing is
    torn. -/
theorem wholePool_copied {pool : List Block} (operation : Operation)
    (copied : ∀ block ∈ pool, block.totalTransactions = CInt.lit 0) :
    ∀ block ∈ wholePool pool operation, block.totalTransactions = CInt.lit 0 := by
  intro block member
  cases operation with
  | addBlock newBlock => exact copied block member
  | addOrphan newBlock =>
    rcases List.mem_append.mp member with old | new
    · exact copied block old
    · rw [List.mem_singleton.mp new]
      rfl
  | removeOrphan newBlock => exact copied block (List.mem_of_mem_eraseP member)

theorem reach_append_singleton (operations : List Operation) (operation : Operation) :
    reach (operations ++ [operation]) = reach operations >>= fun chain => chain.apply operation := by
  obtain ⟨chain, created, _⟩ := new_represents
  simp only [reach, created, ok_bind, foldChecked_append_singleton]

theorem orphans_eq_wholePool {operations : List Operation} {chain : Blockchain}
    (shared : RemovalsShareTransactions operations) (reached : reach operations = .ok chain) :
    chain.orphans = operations.foldl wholePool [] ∧
      ∀ block ∈ chain.orphans, block.totalTransactions = CInt.lit 0 := by
  induction operations using List.reverseRecOn generalizing chain with
  | nil =>
    obtain ⟨start, created, _, empty⟩ := new_represents
    rw [reach, created] at reached
    cases reached
    rw [empty]
    exact ⟨rfl, by simp⟩
  | append_singleton operations operation inductionHypothesis =>
    rw [reach_append_singleton, bind_eq_ok_iff] at reached
    obtain ⟨before, reachedBefore, applied⟩ := reached
    obtain ⟨whole, copied⟩ := inductionHypothesis
      (fun sofar newBlock chain within =>
        shared sofar newBlock chain (within.trans (List.prefix_append _ _)))
      reachedBefore
    -- Only a removal needs the hypothesis: the shift copies all but the transaction lists.
    have stepped : chain.orphans = wholePool before.orphans operation := by
      cases operation with
      | addBlock newBlock => exact orphans_of_addBlock applied
      | addOrphan newBlock =>
        cases applied
        rfl
      | removeOrphan newBlock =>
        cases applied
        exact eraseFirst_eq (shared operations newBlock before List.prefix_rfl reachedBefore) copied
    rw [List.foldl_append, ← whole, stepped]
    exact ⟨rfl, wholePool_copied operation copied⟩

/-- In every pool the calls reach, `RemoveOrphan` keeps every other orphan whole
    exactly when the orphans from the place on have one transaction list.  Calls
    that keep to this leave the pool with the first match of every removal deleted
    and nothing else touched. -/
theorem removeOrphan_keeps_others_iff (operations : List Operation) (chain : Blockchain)
    (reached : reach operations = .ok chain) :
    (∀ newBlock : Block, RemovesCleanly newBlock chain.orphans ↔
      SharesTransactions newBlock chain.orphans) ∧
    (RemovalsShareTransactions operations → chain.orphans = operations.foldl wholePool []) :=
  ⟨fun newBlock => removesCleanly_iff newBlock chain.orphans,
    fun shared => (orphans_eq_wholePool shared reached).1⟩

/-- Three orphans, the first with a transaction. -/
def threeOrphans : List Operation :=
  [.addOrphan Block.loadedBlock, .addOrphan (lineageBlock (CInt.lit 2) (CInt.lit 6) (CInt.lit 5)),
    .addOrphan (lineageBlock (CInt.lit 3) (CInt.lit 7) (CInt.lit 6))]

/-- The middle one is removed, and the two others stay. -/
theorem removeOrphan_keeps_others_iff_middle :
    ∃ chain chain', reach threeOrphans = .ok chain ∧
      RemovesCleanly (lineageBlock (CInt.lit 2) (CInt.lit 6) (CInt.lit 5)) chain.orphans ∧
      reach (threeOrphans ++
        [.removeOrphan (lineageBlock (CInt.lit 2) (CInt.lit 6) (CInt.lit 5))]) = .ok chain' ∧
      chain'.orphans = [Block.loadedBlock.copy,
        (lineageBlock (CInt.lit 3) (CInt.lit 7) (CInt.lit 6)).copy] := by
  obtain ⟨chain, reached⟩ : ∃ chain, reach threeOrphans = .ok chain := ⟨_, rfl⟩
  obtain ⟨chain', reached'⟩ : ∃ chain, reach (threeOrphans ++
      [.removeOrphan (lineageBlock (CInt.lit 2) (CInt.lit 6) (CInt.lit 5))]) = .ok chain := ⟨_, rfl⟩
  have shares : SharesTransactions (lineageBlock (CInt.lit 2) (CInt.lit 6) (CInt.lit 5))
      chain.orphans := by
    cases reached
    decide
  refine ⟨chain, chain', reached,
    ((removeOrphan_keeps_others_iff threeOrphans chain reached).1 _).mpr shares, reached', ?_⟩
  refine ((removeOrphan_keeps_others_iff _ chain' reached').2 ?_).trans (by decide)
  -- The one removal comes last.
  intro before newBlock between within reachedBefore
  rcases List.prefix_concat_iff.mp within with whole | earlier
  · obtain ⟨rfl, last⟩ := List.append_inj' whole rfl
    cases last
    cases reached.symm.trans reachedBefore
    exact shares
  · have member : Operation.removeOrphan newBlock ∈ threeOrphans :=
      earlier.subset (List.mem_append_right _ (List.mem_singleton_self _))
    simp [threeOrphans] at member

/-- Removing the first of two orphans gives the second one its transactions. -/
theorem removeOrphan_tears_neighbour :
    ∃ chain, reach [.addOrphan Block.loadedBlock,
        .addOrphan (lineageBlock (CInt.lit 2) (CInt.lit 6) (CInt.lit 5))] = .ok chain ∧
      (chain.removeOrphan Block.loadedBlock).orphans.map Block.getTransactions =
        [[Transaction.new (CInt.lit 1) (CInt.lit 1) 0]] ∧
      ¬ RemovesCleanly Block.loadedBlock chain.orphans := by
  refine ⟨_, rfl, by decide, ?_⟩
  rw [removesCleanly_iff]
  decide

end Blockchain

end Ns3Blockchain
