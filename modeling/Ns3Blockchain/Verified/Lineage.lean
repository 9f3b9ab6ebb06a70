import Mathlib.Data.List.Find
import Mathlib.Data.List.Pairwise
import Ns3Blockchain.Verified.Store

/-! # Parents and children

`IsParent` and `IsChild` compare the parent miner ids of the two blocks with each
other, not the parent miner id of the child with the miner id of the parent.
This module computes the three lineage lookups of a represented chain, and then
says exactly when they answer what a block declares.
-/

namespace Ns3Blockchain

open Library Library.RankedLog

namespace Block

/-- What `IsParent` and `IsChild` test. -/
def SharesParentId (lower upper : Block) : Prop :=
  lower.blockHeight.val + 1 = upper.blockHeight.val ∧
    lower.parentBlockMinerId = upper.parentBlockMinerId

/-- What `upper` declares about its parent. -/
def DeclaresParent (upper lower : Block) : Prop :=
  upper.blockHeight.val = lower.blockHeight.val + 1 ∧ upper.parentBlockMinerId = lower.minerId

instance (lower upper : Block) : Decidable (lower.SharesParentId upper) :=
  inferInstanceAs (Decidable (_ ∧ _))

instance (upper lower : Block) : Decidable (upper.DeclaresParent lower) :=
  inferInstanceAs (Decidable (_ ∧ _))

theorem isParent_eq {this block : Block} (room : -2147483648 < block.blockHeight.val) :
    this.isParent block = .ok (decide (this.SharesParentId block)) := by
  obtain ⟨parentHeight, subtracted, value⟩ := CInt.sub_one room
  rw [isParent, subtracted, ok_bind, pure_eq_ok, Except.ok.injEq, Bool.eq_iff_iff]
  simp only [getBlockHeight, getParentBlockMinerId, Bool.and_eq_true, beq_iff_eq, decide_eq_true_eq,
    SharesParentId, ← BoundedInt.val_inj]
  omega

/-- `IsParent` of a block of the least height overflows. -/
theorem isParent_overflow {this block : Block} (least : block.blockHeight.val = -2147483648) :
    this.isParent block = .error .intOverflow := by
  have subtracted : CInt.sub block.blockHeight (CInt.lit 1) = .error .intOverflow :=
    CInt.checked_of_overflow (by rw [CInt.val_one]; omega)
  rw [isParent, subtracted, error_bind]

theorem isChild_eq {this block : Block} (room : block.blockHeight.val < 2147483647) :
    this.isChild block = .ok (decide (block.SharesParentId this)) := by
  obtain ⟨childHeight, added, value⟩ := CInt.add_one room
  rw [isChild, added, ok_bind, pure_eq_ok, Except.ok.injEq, Bool.eq_iff_iff]
  simp only [getBlockHeight, getParentBlockMinerId, Bool.and_eq_true, beq_iff_eq, decide_eq_true_eq,
    SharesParentId, ← BoundedInt.val_inj]
  omega

end Block

namespace Blockchain

section Lookups

variable {chain : Blockchain} {log : List Block}

/-- `GetParent` is the earliest arrival one below that shares the parent id,
    wherever there is a height one below. -/
theorem getParent_eq_of_room (represented : chain.Represents log) {block : Block}
    (room : -2147483648 < block.blockHeight.val) :
    chain.getParent block = .ok (log.find? fun p => decide (p.SharesParentId block)) := by
  have upper := block.blockHeight.upper
  obtain ⟨parentHeight, subtracted, value⟩ := CInt.sub_one room
  obtain ⟨top, found, heightEq⟩ := getBlockchainHeight_eq represented
  have topHeight := represented.top_height found
  rw [getParent, Block.getBlockHeight, subtracted, ok_bind, heightEq, ok_bind]
  simp only [BoundedInt.lt_def, CInt.val_zero]
  split
  next outside =>
    -- above the chain, or the child is at height 0: no block of the log is one below
    rw [pure_eq_ok, Except.ok.injEq]
    symm
    rw [List.find?_eq_none]
    intro p member accepted
    have shares := (decide_eq_true_eq.mp accepted).1
    have bound := height_le_top represented found member
    have positive := represented.nonneg p member
    omega
  next inside =>
    have parentNonneg : 0 ≤ parentHeight.val := by omega
    have scanned : scanFirst block.isChild (row Block.rowIndex log parentHeight.val.toNat) = _ :=
      scanFirst_eq_find? fun p member => Block.isChild_eq (by
        rw [((mem_rowAt represented parentNonneg).mp member).2]
        omega)
    rw [represented.rowAt parentNonneg (by omega), ok_bind, scanned, find?_row]
    intro p accepted
    have height := (of_decide_eq_true accepted).1
    rw [Block.rowIndex]
    omega

theorem getParent_eq (represented : chain.Represents log) {block : Block}
    (nonneg : 0 ≤ block.blockHeight.val) :
    chain.getParent block = .ok (log.find? fun p => decide (p.SharesParentId block)) :=
  getParent_eq_of_room represented (by omega)

/-- `GetChildrenPointers` lists, in store order, the blocks one above that share
    the parent id, wherever one above is a row index. -/
theorem getChildrenPointers_eq_of_row (represented : chain.Represents log) {block : Block}
    (isRow : -1 ≤ block.blockHeight.val) (below : block.blockHeight.val < 2147483647) :
    chain.getChildrenPointers block =
      .ok (chain.stored.filter fun c => decide (block.SharesParentId c)) := by
  obtain ⟨childrenHeight, added, value⟩ := CInt.add_one below
  obtain ⟨top, found, heightEq⟩ := getBlockchainHeight_eq represented
  have topHeight := represented.top_height found
  rw [getChildrenPointers, Block.getBlockHeight, added, ok_bind, heightEq, ok_bind]
  simp only [BoundedInt.lt_def]
  split
  next above =>
    rw [pure_eq_ok, Except.ok.injEq]
    symm
    rw [List.filter_eq_nil_iff]
    intro c member accepted
    have shares := (decide_eq_true_eq.mp accepted).1
    have bound := height_le_top represented found ((mem_stored represented).mp member)
    omega
  next within =>
    have childNonneg : 0 ≤ childrenHeight.val := by omega
    have scanned : scanAll block.isParent (row Block.rowIndex log childrenHeight.val.toNat) = _ :=
      scanAll_eq_filter fun c member => Block.isParent_eq (by
        have := represented.nonneg c ((mem_rowAt represented childNonneg).mp member).1
        omega)
    have oneRow : ∀ c, decide (block.SharesParentId c) = true →
        c.rowIndex = childrenHeight.val.toNat := by
      intro c accepted
      have shares := (decide_eq_true_eq.mp accepted).1
      rw [Block.rowIndex]
      omega
    rw [represented.rowAt childNonneg (by omega), ok_bind, scanned, filter_row oneRow, stored,
      represented.blocks_eq, filter_flatten_rows oneRow]

theorem getChildrenPointers_eq (represented : chain.Represents log) {block : Block}
    (nonneg : 0 ≤ block.blockHeight.val) (below : block.blockHeight.val < 2147483647) :
    chain.getChildrenPointers block =
      .ok (chain.stored.filter fun c => decide (block.SharesParentId c)) :=
  getChildrenPointers_eq_of_row represented (by omega) below

/-- `GetOrpharnChildrenPointer` finishes exactly on pools without a block of the
    least height. -/
theorem getOrphanChildrenPointer_eq_ok_iff {block : Block} {children : List Block} :
    chain.getOrphanChildrenPointer block = .ok children ↔
      (∀ orphan ∈ chain.orphans, -2147483648 < orphan.blockHeight.val) ∧
        children = chain.orphans.filter fun c => decide (block.SharesParentId c) := by
  constructor
  · intro finished
    have room : ∀ orphan ∈ chain.orphans, -2147483648 < orphan.blockHeight.val := by
      intro orphan member
      obtain ⟨accepted, tested⟩ := scanAll_total finished orphan member
      by_contra least
      have lower := orphan.blockHeight.lower
      rw [Block.isParent_overflow (by omega)] at tested
      cases tested
    refine ⟨room, ?_⟩
    have scanned : scanAll block.isParent chain.orphans = _ :=
      scanAll_eq_filter fun orphan member => Block.isParent_eq (room orphan member)
    rw [getOrphanChildrenPointer, scanned, Except.ok.injEq] at finished
    exact finished.symm
  · intro ⟨room, same⟩
    rw [same]
    exact scanAll_eq_filter fun orphan member => Block.isParent_eq (room orphan member)

end Lookups

/-! ## Ancestry -/

/-- A block that may be added to a log: a new key above the genesis block, and a
    declared parent that is already there. -/
def Attaches (log : List Block) (newBlock : Block) : Prop :=
  1 ≤ newBlock.blockHeight.val ∧
    (∀ block ∈ log,
      ¬ (block.blockHeight = newBlock.blockHeight ∧ block.minerId = newBlock.minerId)) ∧
    ∃ parent ∈ log, newBlock.DeclaresParent parent

instance (log : List Block) (newBlock : Block) : Decidable (Attaches log newBlock) :=
  inferInstanceAs (Decidable (_ ∧ _ ∧ _))

/-- Every block of the sequence attaches to the log before it. -/
def ValidGrowth : List Block → List Block → Prop
  | _, [] => True
  | log, newBlock :: bs => Attaches log newBlock ∧ ValidGrowth (log ++ [newBlock]) bs

/-- Iterating `GetParent` from a block: each step returns the stored block one
    lower whose miner is the declared one; after the counted steps it is at the
    genesis block, where the next call returns null. -/
inductive AncestryPath (chain : Blockchain) : Block → Nat → Prop where
  | genesis : chain.getParent genesisBlock.copy = .ok none →
      AncestryPath chain genesisBlock.copy 0
  | parent {block p : Block} {n : Nat} : chain.getParent block = .ok (some p) →
      p ∈ chain.stored → block.DeclaresParent p → AncestryPath chain p n →
      AncestryPath chain block (n + 1)

def AncestryReachesGenesis (chain : Blockchain) : Prop :=
  ∀ block ∈ chain.stored, AncestryPath chain block block.blockHeight.val.toNat

/-- Every added block declares miner 0 as its parent's miner, and the earliest
    arrival at the height below an added block is a block of miner 0. -/
structure MinerZeroLineage (bs : List Block) : Prop where
  declared : ∀ block ∈ bs, block.parentBlockMinerId = CInt.lit 0
  earliest : ∀ block ∈ bs, ∀ p,
    (genesisBlock :: bs).find? (fun p => p.blockHeight.val + 1 == block.blockHeight.val) = some p →
      p.minerId = CInt.lit 0

section Ancestry

variable {bs : List Block} {chain : Blockchain}

theorem validGrowth_attaches {log bs : List Block} (valid : ValidGrowth log bs) {block : Block}
    (member : block ∈ bs) :
    1 ≤ block.blockHeight.val ∧ ∃ parent ∈ log ++ bs, block.DeclaresParent parent := by
  induction bs generalizing log with
  | nil => cases member
  | cons newBlock bs inductionHypothesis =>
    obtain ⟨⟨height, _, parent, parentMember, declares⟩, rest⟩ := valid
    cases member with
    | head => exact ⟨height, parent, by simp [parentMember], declares⟩
    | tail _ member =>
      have attached := inductionHypothesis rest member
      simpa using attached

theorem validGrowth_heights (valid : ValidGrowth [genesisBlock] bs) :
    ∀ block ∈ bs, 0 ≤ block.blockHeight.val := by
  intro block member
  have attached := validGrowth_attaches valid member
  omega

/-- A stored block is the genesis block or the copy of an added one. -/
theorem mem_stored_growth (represented : chain.Represents (arrivals bs)) {block : Block}
    (member : block ∈ chain.stored) :
    block = genesisBlock.copy ∨ ∃ source ∈ bs, block = source.copy := by
  rw [mem_stored represented, arrivals, List.map_cons, List.mem_cons] at member
  rcases member with genesis | added
  · exact Or.inl genesis
  · obtain ⟨source, member, copied⟩ := List.mem_map.mp added
    exact Or.inr ⟨source, member, copied.symm⟩

/-- Along a path the parent id never changes, so it is that of the genesis block. -/
theorem AncestryPath.parentId_zero {log : List Block} (represented : chain.Represents log)
    {block : Block} {n : Nat} (path : AncestryPath chain block n) (member : block ∈ chain.stored) :
    block.parentBlockMinerId = CInt.lit 0 := by
  induction path with
  | genesis => rfl
  | @parent block p n step parentMember declares _ inductionHypothesis =>
    have nonneg := represented.nonneg block ((mem_stored represented).mp member)
    rw [getParent_eq represented nonneg, Except.ok.injEq] at step
    have shares : p.SharesParentId block := by simpa using List.find?_some step
    exact shares.2.symm.trans (inductionHypothesis parentMember)

/-- Where all parent ids are 0, `GetParent` finds the earliest arrival one below. -/
theorem find_parent_of_declared (declared : ∀ block ∈ bs, block.parentBlockMinerId = CInt.lit 0)
    {block : Block} (parentId : block.parentBlockMinerId = CInt.lit 0) :
    (arrivals bs).find? (fun p => decide (p.SharesParentId block)) =
      ((genesisBlock :: bs).find? fun p => p.blockHeight.val + 1 == block.blockHeight.val).map
        Block.copy := by
  rw [arrivals, List.find?_map]
  congr 1
  apply List.find?_congr
  intro p member
  have sameId : p.parentBlockMinerId = block.parentBlockMinerId := by
    rcases List.mem_cons.mp member with genesis | added
    · rw [genesis, parentId]
      rfl
    · rw [declared p added, parentId]
  rw [Function.comp_apply, Bool.eq_iff_iff, decide_eq_true_eq, beq_iff_eq]
  exact and_iff_left sameId

theorem getParent_genesis {log : List Block} (represented : chain.Represents log) :
    chain.getParent genesisBlock.copy = .ok none := by
  rw [getParent_eq represented (by decide), Except.ok.injEq, List.find?_eq_none]
  intro p member accepted
  have shares := (decide_eq_true_eq.mp accepted).1
  have nonneg := represented.nonneg p member
  simp only [genesisBlock, Block.new, Block.copy, CInt.val_zero] at shares
  omega

/-- The step of the path at an added block. -/
theorem getParent_of_minerZeroLineage (valid : ValidGrowth [genesisBlock] bs)
    (represented : chain.Represents (arrivals bs)) (lineage : MinerZeroLineage bs) {source : Block}
    (added : source ∈ bs) :
    ∃ p ∈ chain.stored, chain.getParent source.copy = .ok (some p) ∧
      source.copy.DeclaresParent p := by
  have parentId : source.copy.parentBlockMinerId = CInt.lit 0 := lineage.declared source added
  -- The declared parent shows that some arrival is one below.
  obtain ⟨above, declaredParent, declaredMember, declares⟩ := validGrowth_attaches valid added
  obtain ⟨p, found⟩ : ∃ p, (genesisBlock :: bs).find?
      (fun p => p.blockHeight.val + 1 == source.blockHeight.val) = some p := by
    rw [← Option.isSome_iff_exists, List.find?_isSome]
    refine ⟨declaredParent, by simpa using declaredMember, ?_⟩
    rw [beq_iff_eq, declares.1]
  have height : p.blockHeight.val + 1 = source.blockHeight.val := by
    simpa using List.find?_some found
  have miner := lineage.earliest source added p found
  refine ⟨p.copy, ?_, ?_, height.symm, parentId.trans miner.symm⟩
  · rw [mem_stored represented]
    exact List.mem_map_of_mem (List.mem_of_find?_eq_some found)
  · have nonneg : 0 ≤ source.copy.blockHeight.val := by
      rw [Block.copy_blockHeight]
      omega
    rw [getParent_eq represented nonneg, find_parent_of_declared lineage.declared parentId,
      Block.copy_blockHeight, found]
    rfl

theorem ancestry_of_minerZeroLineage (valid : ValidGrowth [genesisBlock] bs)
    (represented : chain.Represents (arrivals bs)) (lineage : MinerZeroLineage bs) :
    AncestryReachesGenesis chain := by
  suffices byHeight : ∀ n, ∀ block ∈ chain.stored, block.blockHeight.val.toNat = n →
      AncestryPath chain block n from fun block member => byHeight _ block member rfl
  intro n
  induction n with
  | zero =>
    intro block member height
    rcases mem_stored_growth represented member with genesis | ⟨source, added, copied⟩
    · rw [genesis]
      exact AncestryPath.genesis (getParent_genesis represented)
    · -- An added block is above the genesis block.
      have attached := validGrowth_attaches valid added
      rw [copied, Block.copy_blockHeight] at height
      omega
  | succ n inductionHypothesis =>
    intro block member height
    rcases mem_stored_growth represented member with genesis | ⟨source, added, copied⟩
    · rw [genesis] at height
      cases height
    · obtain ⟨p, pMember, step, declares⟩ :=
        getParent_of_minerZeroLineage valid represented lineage added
      rw [← copied] at step declares
      refine AncestryPath.parent step pMember declares (inductionHypothesis p pMember ?_)
      have oneLower := declares.1
      omega

theorem minerZeroLineage_of_ancestry (valid : ValidGrowth [genesisBlock] bs)
    (represented : chain.Represents (arrivals bs)) (ancestry : AncestryReachesGenesis chain) :
    MinerZeroLineage bs := by
  have added_stored : ∀ source ∈ bs, source.copy ∈ chain.stored := by
    intro source added
    rw [mem_stored represented, arrivals]
    exact List.mem_map_of_mem (List.mem_cons_of_mem _ added)
  have declared : ∀ source ∈ bs, source.parentBlockMinerId = CInt.lit 0 := by
    intro source added
    have member := added_stored source added
    exact (ancestry source.copy member).parentId_zero represented member
  refine ⟨declared, ?_⟩
  intro source added p found
  have attached := validGrowth_attaches valid added
  have path := ancestry source.copy (added_stored source added)
  have above : source.copy.blockHeight.val.toNat ≠ 0 := by
    rw [Block.copy_blockHeight]
    omega
  -- The path has a first step, and that step is `GetParent` of the source.
  generalize source.copy.blockHeight.val.toNat = n at path above
  generalize start : source.copy = block at path
  cases path with
  | genesis _ => exact absurd rfl above
  | @parent _ p' _ step _ declares _ =>
    subst start
    have nonneg : 0 ≤ source.copy.blockHeight.val := by
      rw [Block.copy_blockHeight]
      omega
    have parentId : source.copy.parentBlockMinerId = CInt.lit 0 := declared source added
    rw [getParent_eq represented nonneg, find_parent_of_declared declared parentId,
      Except.ok.injEq] at step
    rw [Block.copy_blockHeight, found, Option.map_some, Option.some.injEq] at step
    subst step
    exact declares.2.symm.trans (declared source added)

end Ancestry

/-- Ancestry reaches the genesis block by declared parents exactly on growths
    whose blocks all declare miner 0 and whose earliest block at each height below
    another is miner 0's. -/
theorem ancestry_reaches_genesis_iff (bs : List Block) (chain : Blockchain)
    (valid : ValidGrowth [genesisBlock] bs) (grown : grow bs = .ok chain) :
    AncestryReachesGenesis chain ↔ MinerZeroLineage bs := by
  have represented := Represents.of_grow (validGrowth_heights valid) grown
  exact ⟨minerZeroLineage_of_ancestry valid represented,
    ancestry_of_minerZeroLineage valid represented⟩

/-- A chain of miner 0's blocks with a competitor at the top. -/
theorem ancestry_reaches_genesis_iff_minerZero :
    ∃ chain, grow [lineageBlock (CInt.lit 1) (CInt.lit 0) (CInt.lit 0),
        lineageBlock (CInt.lit 2) (CInt.lit 6) (CInt.lit 0)] = .ok chain ∧
      AncestryReachesGenesis chain := by
  obtain ⟨chain, grown, _⟩ := @grow_represents
    [lineageBlock (CInt.lit 1) (CInt.lit 0) (CInt.lit 0),
      lineageBlock (CInt.lit 2) (CInt.lit 6) (CInt.lit 0)] (by decide) (by decide)
  refine ⟨chain, grown, (ancestry_reaches_genesis_iff _ chain ?_ grown).mpr ?_⟩
  · simp only [ValidGrowth]
    decide
  · refine ⟨by decide, ?_⟩
    intro block member p found
    simp only [List.mem_cons, List.not_mem_nil, or_false] at member
    rcases member with first | second
    · subst first
      cases found
      rfl
    · subst second
      cases found
      rfl

/-- Two miners in turn, each declaring the block below: the path stops at once. -/
theorem ancestry_breaks_off :
    ∃ chain, ValidGrowth [genesisBlock] [lineageBlock (CInt.lit 1) (CInt.lit 5) (CInt.lit 0),
        lineageBlock (CInt.lit 2) (CInt.lit 6) (CInt.lit 5)] ∧
      grow [lineageBlock (CInt.lit 1) (CInt.lit 5) (CInt.lit 0),
        lineageBlock (CInt.lit 2) (CInt.lit 6) (CInt.lit 5)] = .ok chain ∧
      chain.getParent (lineageBlock (CInt.lit 2) (CInt.lit 6) (CInt.lit 5)) = .ok none ∧
      ¬ AncestryReachesGenesis chain := by
  have valid : ValidGrowth [genesisBlock] [lineageBlock (CInt.lit 1) (CInt.lit 5) (CInt.lit 0),
      lineageBlock (CInt.lit 2) (CInt.lit 6) (CInt.lit 5)] := by
    simp only [ValidGrowth]
    decide
  obtain ⟨chain, grown, represented⟩ := @grow_represents
    [lineageBlock (CInt.lit 1) (CInt.lit 5) (CInt.lit 0),
      lineageBlock (CInt.lit 2) (CInt.lit 6) (CInt.lit 5)] (by decide) (by decide)
  refine ⟨chain, valid, grown, ?_, ?_⟩
  · rw [getParent_eq represented (by decide)]
    decide
  · intro ancestry
    have lineage := minerZeroLineage_of_ancestry valid represented ancestry
    have declared := lineage.declared (lineageBlock (CInt.lit 2) (CInt.lit 6) (CInt.lit 5)) (by simp)
    exact absurd declared (by decide)

/-! ## Children -/

/-- The children lookups list exactly what the blocks declare, and no stored block
    is listed under two parents. -/
structure ChildrenExact (chain : Blockchain) : Prop where
  stored : ∀ p ∈ chain.stored, p.blockHeight.val < 2147483647 →
    chain.getChildrenPointers p = .ok (chain.stored.filter fun c => decide (c.DeclaresParent p))
  orphans : ∀ p ∈ chain.stored, p.blockHeight.val < 2147483647 →
    chain.getOrphanChildrenPointer p =
      .ok (chain.orphans.filter fun c => decide (c.DeclaresParent p))
  oneParent : ∀ p ∈ chain.stored, ∀ q ∈ chain.stored, p.blockHeight.val < 2147483647 →
    q.blockHeight.val < 2147483647 → ∀ c listP listQ, chain.getChildrenPointers p = .ok listP →
      chain.getChildrenPointers q = .ok listQ → c ∈ listP → c ∈ listQ → p = q

/-- Every stored block either names its own miner as its parent's miner, or has no
    block one above it, stored or orphan, that names one of the two; and no orphan
    has the least height. -/
structure ParentIdsTellMiners (chain : Blockchain) : Prop where
  ids : ∀ p ∈ chain.stored, p.blockHeight.val < 2147483647 → p.parentBlockMinerId = p.minerId ∨
    ∀ c ∈ chain.stored ++ chain.orphans, c.blockHeight.val = p.blockHeight.val + 1 →
      c.parentBlockMinerId ≠ p.parentBlockMinerId ∧ c.parentBlockMinerId ≠ p.minerId
  orphanHeights : ∀ c ∈ chain.orphans, -2147483648 < c.blockHeight.val

/-- No two blocks of a list have the same height and miner. -/
def DistinctKeys (blocks : List Block) : Prop :=
  blocks.Pairwise fun a b => ¬ (a.blockHeight = b.blockHeight ∧ a.minerId = b.minerId)

section Children

variable {chain : Blockchain} {log : List Block}

theorem eq_of_same_key (distinct : DistinctKeys log) {p q : Block} (pMember : p ∈ log)
    (qMember : q ∈ log) (sameHeight : p.blockHeight = q.blockHeight)
    (sameMiner : p.minerId = q.minerId) : p = q := by
  by_contra different
  have symmetric : Std.Symm fun a b : Block =>
      ¬ (a.blockHeight = b.blockHeight ∧ a.minerId = b.minerId) := by
    constructor
    intro a b apart same
    exact apart ⟨same.1.symm, same.2.symm⟩
  exact distinct.forall pMember qMember different ⟨sameHeight, sameMiner⟩

theorem filter_eq_filter_iff {α : Type} {xs : List α} {p q : α → Bool} :
    xs.filter p = xs.filter q ↔ ∀ x ∈ xs, p x = q x := by
  constructor
  · intro same x member
    have sameMember : x ∈ xs.filter p ↔ x ∈ xs.filter q := by rw [same]
    rw [Bool.eq_iff_iff]
    simpa [member] using sameMember
  · exact List.filter_congr

/-- The two tests agree on a block one above exactly when its parent id settles
    both the same way. -/
theorem tests_agree_iff {p c : Block} :
    decide (p.SharesParentId c) = decide (c.DeclaresParent p) ↔
      (c.blockHeight.val = p.blockHeight.val + 1 →
        (c.parentBlockMinerId = p.parentBlockMinerId ↔ c.parentBlockMinerId = p.minerId)) := by
  rw [decide_eq_decide, Block.SharesParentId, Block.DeclaresParent]
  constructor
  · intro same oneAbove
    constructor
    · intro shared
      exact (same.mp ⟨oneAbove.symm, shared.symm⟩).2
    · intro declared
      exact (same.mpr ⟨oneAbove, declared⟩).2.symm
  · intro agree
    constructor
    · intro ⟨height, shared⟩
      exact ⟨height.symm, (agree height.symm).mp shared.symm⟩
    · intro ⟨height, declared⟩
      exact ⟨height.symm, ((agree height).mpr declared).symm⟩

theorem ids_iff_tests_agree {blocks : List Block} {p : Block} :
    (p.parentBlockMinerId = p.minerId ∨
      ∀ c ∈ blocks, c.blockHeight.val = p.blockHeight.val + 1 →
        c.parentBlockMinerId ≠ p.parentBlockMinerId ∧ c.parentBlockMinerId ≠ p.minerId) ↔
      ∀ c ∈ blocks, decide (p.SharesParentId c) = decide (c.DeclaresParent p) := by
  simp only [tests_agree_iff]
  constructor
  · intro ids c member oneAbove
    rcases ids with same | neither
    · rw [same]
    · have unnamed := neither c member oneAbove
      exact ⟨fun shared => absurd shared unnamed.1, fun declared => absurd declared unnamed.2⟩
  · intro agree
    by_cases same : p.parentBlockMinerId = p.minerId
    · exact Or.inl same
    · refine Or.inr fun c member oneAbove => ?_
      have settled := agree c member oneAbove
      constructor
      · intro shared
        exact same (shared.symm.trans (settled.mp shared))
      · intro declared
        exact same ((settled.mpr declared).symm.trans declared)

/-- Exact lookups pin the parent ids; the children of the genesis block pin the
    heights of the pool. -/
theorem parentIdsTellMiners_of_childrenExact (represented : chain.Represents log)
    (genesis : genesisBlock.copy ∈ log) (exact : ChildrenExact chain) :
    ParentIdsTellMiners chain := by
  constructor
  · intro p member below
    have nonneg := represented.nonneg p ((mem_stored represented).mp member)
    have listed := exact.stored p member below
    rw [getChildrenPointers_eq represented nonneg below, Except.ok.injEq,
      filter_eq_filter_iff] at listed
    have pooled := (getOrphanChildrenPointer_eq_ok_iff.mp (exact.orphans p member below)).2
    rw [eq_comm, filter_eq_filter_iff] at pooled
    rw [ids_iff_tests_agree]
    intro c cMember
    rcases List.mem_append.mp cMember with inStore | inPool
    · exact listed c inStore
    · exact pooled c inPool
  · have pooled := exact.orphans _ ((mem_stored represented).mpr genesis) (by decide)
    exact (getOrphanChildrenPointer_eq_ok_iff.mp pooled).1

theorem parent_unique (represented : chain.Represents log) (distinct : DistinctKeys log)
    {p q c : Block} (pMember : p ∈ chain.stored) (qMember : q ∈ chain.stored)
    (ofP : c.DeclaresParent p) (ofQ : c.DeclaresParent q) : p = q := by
  have sameHeight : p.blockHeight = q.blockHeight := by
    have belowP := ofP.1
    have belowQ := ofQ.1
    exact BoundedInt.ext (by omega)
  exact eq_of_same_key distinct ((mem_stored represented).mp pMember)
    ((mem_stored represented).mp qMember) sameHeight (ofP.2.symm.trans ofQ.2)

theorem childrenExact_of_parentIdsTellMiners (represented : chain.Represents log)
    (distinct : DistinctKeys log) (tell : ParentIdsTellMiners chain) : ChildrenExact chain := by
  have agree : ∀ p ∈ chain.stored, p.blockHeight.val < 2147483647 →
      ∀ c ∈ chain.stored ++ chain.orphans,
        decide (p.SharesParentId c) = decide (c.DeclaresParent p) := by
    intro p member below
    exact ids_iff_tests_agree.mp (tell.ids p member below)
  have listed : ∀ p ∈ chain.stored, p.blockHeight.val < 2147483647 →
      chain.getChildrenPointers p =
        .ok (chain.stored.filter fun c => decide (c.DeclaresParent p)) := by
    intro p member below
    have nonneg := represented.nonneg p ((mem_stored represented).mp member)
    rw [getChildrenPointers_eq represented nonneg below, Except.ok.injEq, filter_eq_filter_iff]
    intro c cMember
    exact agree p member below c (List.mem_append_left _ cMember)
  refine ⟨listed, ?_, ?_⟩
  · intro p member below
    rw [getOrphanChildrenPointer_eq_ok_iff]
    refine ⟨tell.orphanHeights, filter_eq_filter_iff.mpr ?_⟩
    intro c cMember
    exact (agree p member below c (List.mem_append_right _ cMember)).symm
  · -- What both lists hold declares both parents, and a key has one block.
    intro p pMember q qMember pBelow qBelow c listP listQ ofP ofQ inP inQ
    rw [listed p pMember pBelow, Except.ok.injEq] at ofP
    rw [listed q qMember qBelow, Except.ok.injEq] at ofQ
    subst ofP ofQ
    have declaresP : c.DeclaresParent p := by simpa using (List.mem_filter.mp inP).2
    have declaresQ : c.DeclaresParent q := by simpa using (List.mem_filter.mp inQ).2
    exact parent_unique represented distinct pMember qMember declaresP declaresQ

end Children

/-- In every store and pool the calls reach, the children lookups are exact if and
    only if the parent ids of the blocks tell their miners. -/
theorem children_lookups_exact_iff (operations : List Operation) (chain : Blockchain)
    (heights : ∀ block ∈ addedBlocks operations, 0 ≤ block.blockHeight.val)
    (distinct : DistinctKeys (genesisBlock :: addedBlocks operations))
    (reached : reach operations = .ok chain) :
    ChildrenExact chain ↔ ParentIdsTellMiners chain := by
  have represented := Represents.of_reach heights reached
  have distinctLog : DistinctKeys (arrivals (addedBlocks operations)) := by
    rw [DistinctKeys, arrivals, List.pairwise_map]
    exact distinct
  exact ⟨parentIdsTellMiners_of_childrenExact represented List.mem_cons_self,
    childrenExact_of_parentIdsTellMiners represented distinctLog⟩

theorem children_lookups_exact_iff_minerZero :
    ∃ chain, reach [.addBlock (lineageBlock (CInt.lit 1) (CInt.lit 0) (CInt.lit 0)),
        .addOrphan (lineageBlock (CInt.lit 2) (CInt.lit 3) (CInt.lit 0))] = .ok chain ∧
      ChildrenExact chain := by
  refine ⟨⟨CInt.lit 2, [[genesisBlock], [lineageBlock (CInt.lit 1) (CInt.lit 0) (CInt.lit 0)]],
    [lineageBlock (CInt.lit 2) (CInt.lit 3) (CInt.lit 0)]⟩, by decide,
    (children_lookups_exact_iff [.addBlock (lineageBlock (CInt.lit 1) (CInt.lit 0) (CInt.lit 0)),
      .addOrphan (lineageBlock (CInt.lit 2) (CInt.lit 3) (CInt.lit 0))] _ ?_ ?_ (by decide)).mpr ?_⟩
  · decide
  · rw [DistinctKeys]
    decide
  · exact ⟨by decide, by decide⟩

/-- On a straight chain of two miners the child is not found, neither in the store
    nor in the pool. -/
theorem children_lookups_miss_declared :
    ∃ chain, reach [.addBlock (lineageBlock (CInt.lit 1) (CInt.lit 5) (CInt.lit 0)),
        .addBlock (lineageBlock (CInt.lit 2) (CInt.lit 6) (CInt.lit 5)),
        .addOrphan (lineageBlock (CInt.lit 2) (CInt.lit 7) (CInt.lit 5))] = .ok chain ∧
      DistinctKeys (genesisBlock :: [lineageBlock (CInt.lit 1) (CInt.lit 5) (CInt.lit 0),
        lineageBlock (CInt.lit 2) (CInt.lit 6) (CInt.lit 5)]) ∧
      chain.getChildrenPointers (lineageBlock (CInt.lit 1) (CInt.lit 5) (CInt.lit 0)) = .ok [] ∧
      chain.getOrphanChildrenPointer (lineageBlock (CInt.lit 1) (CInt.lit 5) (CInt.lit 0)) =
        .ok [] ∧
      ¬ ChildrenExact chain := by
  refine ⟨_, rfl, by rw [DistinctKeys]; decide, by decide, by decide, ?_⟩
  intro exact
  have listed := exact.stored (lineageBlock (CInt.lit 1) (CInt.lit 5) (CInt.lit 0)) (by decide)
    (by decide)
  exact absurd listed (by decide)

end Blockchain

end Ns3Blockchain
