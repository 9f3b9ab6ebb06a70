import Ns3Blockchain.Verified.Store

/-! # The first-seen rule

The top block is the earliest arrival among those of the greatest height: a
competitor of the same height, or a late lower block, never replaces it.  Two
nodes that add the same blocks in different orders therefore agree on everything
but, possibly, on which of the highest blocks is their top.
-/

namespace Ns3Blockchain.Blockchain

open Library Library.RankedLog

/-- `t` is the earliest block of the greatest height in an arrival sequence. -/
def IsFirstHighest (log : List Block) (t : Block) : Prop :=
  ∃ before after, log = before ++ t :: after ∧
    (∀ block ∈ before, block.blockHeight < t.blockHeight) ∧
    ∀ block ∈ after, block.blockHeight ≤ t.blockHeight

/-- One step of a growth: the height does not decrease, and the top is replaced
    exactly by a strictly higher block. -/
def FirstSeenStep (sofar : List Block) (newBlock : Block) : Prop :=
  ∃ before after top top', grow sofar = .ok before ∧ grow (sofar ++ [newBlock]) = .ok after ∧
    before.getCurrentTopBlock = .ok top ∧ after.getCurrentTopBlock = .ok top' ∧
    (∃ height height', before.getBlockchainHeight = .ok height ∧
      after.getBlockchainHeight = .ok height' ∧ height ≤ height') ∧
    top' = if top.blockHeight < newBlock.blockHeight then newBlock.copy else top

theorem isFirstHighest_iff {log : List Block} (nonneg : ∀ block ∈ log, 0 ≤ block.blockHeight.val)
    {t : Block} : IsFirstHighest log t ↔ leader Block.rowIndex log = some t := by
  rw [leader_eq_some_iff]
  constructor
  · rintro ⟨before, after, rfl, lower, upper⟩
    refine ⟨before, after, rfl, ?_, ?_⟩
    · intro block member
      have := nonneg block (by simp [member])
      have := BoundedInt.lt_def.mp (lower block member)
      simp only [Block.rowIndex]
      omega
    · intro block member
      have := BoundedInt.le_def.mp (upper block member)
      simp only [Block.rowIndex]
      omega
  · rintro ⟨before, after, rfl, lower, upper⟩
    have topNonneg := nonneg t (by simp)
    refine ⟨before, after, rfl, ?_, ?_⟩
    · intro block member
      have := lower block member
      simp only [Block.rowIndex] at this
      rw [BoundedInt.lt_def]
      omega
    · intro block member
      have := upper block member
      have := nonneg block (by simp [member])
      simp only [Block.rowIndex] at *
      rw [BoundedInt.le_def]
      omega

section Growth

variable {bs : List Block} (heights : ∀ block ∈ bs, 0 ≤ block.blockHeight.val)
  (few : bs.length < 2147483647)

include heights in
theorem genesis_nonneg : ∀ block ∈ genesisBlock :: bs, 0 ≤ block.blockHeight.val := by
  intro block member
  rcases List.mem_cons.mp member with genesis | member
  · subst genesis
    decide
  · exact heights block member

theorem leader_arrivals (bs : List Block) :
    leader Block.rowIndex (arrivals bs) = (leader Block.rowIndex (genesisBlock :: bs)).map Block.copy := by
  rw [arrivals, leader_map]
  intro block
  rfl

include heights few in
theorem firstSeen_step {sofar : List Block} {newBlock : Block} (step : sofar ++ [newBlock] <+: bs) :
    FirstSeenStep sofar newBlock := by
  obtain ⟨nonneg, before, grownBefore, representedBefore⟩ := prefix_grows heights few step
  obtain ⟨top, found, topEq⟩ := representedBefore.top
  have shorter := step.length_le
  have room : (arrivals sofar).length < 2147483647 := by
    simp [arrivals] at shorter ⊢
    omega
  obtain ⟨after, added⟩ := addBlock_succeeds representedBefore nonneg room
  have representedAfter := (represents_of_addBlock representedBefore nonneg added).1
  obtain ⟨top', found', topEq'⟩ := representedAfter.top
  have grownAfter : grow (sofar ++ [newBlock]) = .ok after := by
    rw [grow_append, grownBefore]
    exact added
  have topNonneg := representedBefore.nonneg top (leader_mem found)
  -- Both tops are leaders of their logs, and the logs differ by the new block.
  have replaced : top' = if top.blockHeight < newBlock.blockHeight then newBlock.copy else top := by
    have appended := leader_append (x := newBlock.copy) found
    rw [found', Option.some.injEq] at appended
    rw [appended]
    have sameTest : top.rowIndex < newBlock.copy.rowIndex ↔ top.blockHeight < newBlock.blockHeight := by
      rw [BoundedInt.lt_def]
      simp only [Block.rowIndex, Block.copy_blockHeight]
      omega
    simp only [sameTest]
  refine ⟨before, after, top, top', grownBefore, grownAfter, topEq, topEq',
    ⟨top.blockHeight, top'.blockHeight, ?_, ?_, ?_⟩, replaced⟩
  · rw [getBlockchainHeight, topEq]
    rfl
  · rw [getBlockchainHeight, topEq']
    rfl
  · rw [replaced, BoundedInt.le_def]
    split
    next above => exact Int.le_of_lt above
    next => exact Int.le_refl _

include heights few in
theorem grow_top : ∃ chain t, grow bs = .ok chain ∧ chain.Represents (arrivals bs) ∧
    IsFirstHighest (genesisBlock :: bs) t ∧ chain.getCurrentTopBlock = .ok t.copy := by
  obtain ⟨chain, grown, represented⟩ := grow_represents heights few
  obtain ⟨top, found, topEq⟩ := represented.top
  have copied := found
  rw [leader_arrivals, Option.map_eq_some_iff] at copied
  obtain ⟨t, first, same⟩ := copied
  subst same
  exact ⟨chain, t, grown, represented, (isFirstHighest_iff (genesis_nonneg heights)).mpr first, topEq⟩

end Growth

theorem isFirstHighest_unique {log : List Block} (nonneg : ∀ block ∈ log, 0 ≤ block.blockHeight.val)
    {t t' : Block} (first : IsFirstHighest log t) (first' : IsFirstHighest log t') : t = t' := by
  rw [isFirstHighest_iff nonneg] at first first'
  exact Option.some.inj (first.symm.trans first')

/-- Two nodes that add the same blocks in any two orders: both follow the
    first-seen rule at every step, both end with the earliest of their highest
    blocks on top, and they agree on the height, the count and every lookup. -/
theorem first_seen_rule_and_convergence (bs cs : List Block) (permuted : bs.Perm cs)
    (heights : ∀ block ∈ bs, 0 ≤ block.blockHeight.val) (few : bs.length < 2147483647) :
    (∀ sofar newBlock, sofar ++ [newBlock] <+: bs → FirstSeenStep sofar newBlock) ∧
    (∀ sofar newBlock, sofar ++ [newBlock] <+: cs → FirstSeenStep sofar newBlock) ∧
    ∃ chainB chainC topB topC, grow bs = .ok chainB ∧ grow cs = .ok chainC ∧
      chainB.getCurrentTopBlock = .ok topB ∧ chainC.getCurrentTopBlock = .ok topC ∧
      (∃ firstB, IsFirstHighest (genesisBlock :: bs) firstB ∧ topB = firstB.copy) ∧
      (∃ firstC, IsFirstHighest (genesisBlock :: cs) firstC ∧ topC = firstC.copy) ∧
      chainB.getBlockchainHeight = chainC.getBlockchainHeight ∧
      chainB.getTotalBlocks = chainC.getTotalBlocks ∧
      (∀ height minerId : CInt, 0 ≤ height.val →
        chainB.hasBlockAt height minerId = chainC.hasBlockAt height minerId) ∧
      (∀ block : Block, 0 ≤ block.blockHeight.val → chainB.hasBlock block = chainC.hasBlock block) ∧
      (∀ firstB firstC, IsFirstHighest (genesisBlock :: bs) firstB →
        IsFirstHighest (genesisBlock :: cs) firstC →
        ((topB.getBlockHeight = topC.getBlockHeight ∧ topB.getMinerId = topC.getMinerId) ↔
          (firstB.getBlockHeight = firstC.getBlockHeight ∧
            firstB.getMinerId = firstC.getMinerId))) := by
  have heightsC : ∀ block ∈ cs, 0 ≤ block.blockHeight.val := fun block member =>
    heights block (permuted.mem_iff.mpr member)
  have fewC : cs.length < 2147483647 := by
    rw [← permuted.length_eq]
    exact few
  refine ⟨fun _ _ => firstSeen_step heights few, fun _ _ => firstSeen_step heightsC fewC, ?_⟩
  obtain ⟨chainB, firstB, grownB, representedB, highestB, topB⟩ := grow_top heights few
  obtain ⟨chainC, firstC, grownC, representedC, highestC, topC⟩ := grow_top heightsC fewC
  have permutedArrivals : (arrivals bs).Perm (arrivals cs) := (permuted.cons _).map _
  have sameLookup : ∀ height minerId : CInt,
      (∃ stored ∈ arrivals bs, stored.blockHeight = height ∧ stored.minerId = minerId) ↔
        ∃ stored ∈ arrivals cs, stored.blockHeight = height ∧ stored.minerId = minerId := by
    intro height minerId
    simp only [permutedArrivals.mem_iff]
  refine ⟨chainB, chainC, firstB.copy, firstC.copy, grownB, grownC, topB, topC,
    ⟨firstB, highestB, rfl⟩, ⟨firstC, highestC, rfl⟩, ?_, ?_, ?_, ?_, ?_⟩
  · -- the depth of the log, hence the height of its leader, does not depend on the order
    obtain ⟨leaderB, foundB, heightB⟩ := getBlockchainHeight_eq representedB
    obtain ⟨leaderC, foundC, heightC⟩ := getBlockchainHeight_eq representedC
    have depthB := representedB.top_height foundB
    have depthC := representedC.top_height foundC
    rw [depth_perm permutedArrivals] at depthB
    rw [heightB, heightC, Except.ok.injEq, ← BoundedInt.val_inj]
    omega
  · rw [getTotalBlocks, getTotalBlocks, ← BoundedInt.val_inj, representedB.total_eq,
      representedC.total_eq, permutedArrivals.length_eq]
  · intro height minerId nonneg
    rw [hasBlockAt_eq representedB minerId nonneg, hasBlockAt_eq representedC minerId nonneg]
    simp only [sameLookup]
  · intro block nonneg
    rw [hasBlock_eq representedB nonneg, hasBlock_eq representedC nonneg]
    simp only [sameLookup]
  · intro firstB' firstC' highestB' highestC'
    rw [isFirstHighest_unique (genesis_nonneg heights) highestB' highestB,
      isFirstHighest_unique (genesis_nonneg heightsC) highestC' highestC]
    exact Iff.rfl

/-- Two competitors of height 1, added in the two orders. -/
theorem first_seen_rule_and_convergence_competitors :
    ∃ chainB chainC,
      grow [lineageBlock (CInt.lit 1) (CInt.lit 4) (CInt.lit 0),
        lineageBlock (CInt.lit 1) (CInt.lit 5) (CInt.lit 0)] =
          .ok chainB ∧
      grow [lineageBlock (CInt.lit 1) (CInt.lit 5) (CInt.lit 0),
        lineageBlock (CInt.lit 1) (CInt.lit 4) (CInt.lit 0)] =
          .ok chainC ∧
      chainB.getTotalBlocks = chainC.getTotalBlocks := by
  obtain ⟨_, _, chainB, chainC, _, _, grownB, grownC, _, _, _, _, _, totals, _⟩ :=
    first_seen_rule_and_convergence
      [lineageBlock (CInt.lit 1) (CInt.lit 4) (CInt.lit 0),
        lineageBlock (CInt.lit 1) (CInt.lit 5) (CInt.lit 0)]
      [lineageBlock (CInt.lit 1) (CInt.lit 5) (CInt.lit 0),
        lineageBlock (CInt.lit 1) (CInt.lit 4) (CInt.lit 0)]
      (List.Perm.swap _ _ _) (by decide) (by decide)
  exact ⟨chainB, chainC, grownB, grownC, totals⟩

end Ns3Blockchain.Blockchain
