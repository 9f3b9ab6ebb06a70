import Ns3Blockchain.Verified.Lineage

/-! # Heights at the ends of `int`

`AddBlock`, `GetChildrenPointers` and `GetParent` derive a row index from any `int`.
`GetParent` guards both sides of it, `GetChildrenPointers` one, `AddBlock` none; and
one above or below the greatest or least height there is no `int`.
-/

namespace Ns3Blockchain

open Library Library.RankedLog

namespace Blockchain

/-- `AddBlock` finds its row, or counts its dummy rows without overflow; and a
    height that is no row index leaves the rows, the total and the top. -/
structure AddBlockSafe (chain : Blockchain) (block : Block) : Prop where
  rows : ∃ blocks, chain.addToRows block = .ok blocks
  refused : block.blockHeight.val < 0 → ∃ after, chain.addBlock block = .ok after ∧
    after.blocks = chain.blocks ∧ after.totalBlocks = chain.totalBlocks ∧
    after.getCurrentTopBlock = chain.getCurrentTopBlock

/-- The three functions are safe for the height. -/
structure HeightSafe (chain : Blockchain) (block : Block) : Prop where
  addBlock : chain.AddBlockSafe block
  getChildrenPointers : ∃ children, chain.getChildrenPointers block = .ok children
  getParent : ∃ parent, chain.getParent block = .ok parent

variable {chain : Blockchain} {log : List Block} {block : Block}

/-! ## Heights below the rows -/

theorem below_top (represented : chain.Represents log) {height : CInt} (negative : height.val < 0) :
    ∃ top, chain.getCurrentTopBlock = .ok top ∧ ¬ top.blockHeight < height := by
  obtain ⟨top, found, topEq⟩ := represented.top
  have nonneg := represented.nonneg top (leader_mem found)
  refine ⟨top, topEq, ?_⟩
  rw [BoundedInt.lt_def]
  omega

theorem addToRows_negative (represented : chain.Represents log)
    (negative : block.blockHeight.val < 0) : chain.addToRows block = .error .rowOutOfRange := by
  obtain ⟨top, topEq, notAbove⟩ := below_top represented negative
  have positive := depth_pos Block.rowIndex represented.nonempty
  have some : chain.blocks.length ≠ 0 := by
    rw [represented.blocks_eq, length_rows]
    omega
  rw [addToRows, if_neg some, topEq, ok_bind, Block.getBlockHeight, Block.getBlockHeight,
    if_neg notAbove, represented.rowAt_outside (by omega)]
  rfl

theorem getChildrenPointers_negative (represented : chain.Represents log)
    (negative : block.blockHeight.val < -1) :
    chain.getChildrenPointers block = .error .rowOutOfRange := by
  obtain ⟨childrenHeight, added, value⟩ := @CInt.add_one block.blockHeight (by omega)
  obtain ⟨top, topEq, notAbove⟩ := @below_top chain log represented childrenHeight (by omega)
  rw [getChildrenPointers, Block.getBlockHeight, added, ok_bind, getBlockchainHeight, topEq, ok_bind,
    pure_eq_ok, ok_bind, Block.getBlockHeight, if_neg notAbove,
    represented.rowAt_outside (by omega), error_bind]

/-! ## Heights without a neighbour -/

theorem getChildrenPointers_overflow (greatest : ¬ block.blockHeight.val < 2147483647) :
    chain.getChildrenPointers block = .error .intOverflow := by
  have overflow : CInt.add block.blockHeight (CInt.lit 1) = .error .intOverflow :=
    CInt.checked_of_overflow (by rw [CInt.val_one]; omega)
  rw [getChildrenPointers, Block.getBlockHeight, overflow, error_bind]

theorem getParent_overflow (least : ¬ -2147483648 < block.blockHeight.val) :
    chain.getParent block = .error .intOverflow := by
  have overflow : CInt.sub block.blockHeight (CInt.lit 1) = .error .intOverflow :=
    CInt.checked_of_overflow (by rw [CInt.val_one]; omega)
  rw [getParent, Block.getBlockHeight, overflow, error_bind]

/-! ## Main result -/

theorem addBlockSafe_iff (represented : chain.Represents log) :
    chain.AddBlockSafe block ↔ 0 ≤ block.blockHeight.val := by
  constructor
  · intro safe
    by_contra negative
    obtain ⟨blocks, added⟩ := safe.rows
    rw [addToRows_negative represented (by omega)] at added
    cases added
  · intro nonneg
    refine ⟨⟨_, addToRows_eq represented nonneg⟩, fun negative => ?_⟩
    omega

theorem getChildrenPointers_finishes_iff (represented : chain.Represents log) :
    (∃ children, chain.getChildrenPointers block = .ok children) ↔
      -1 ≤ block.blockHeight.val ∧ block.blockHeight.val < 2147483647 := by
  constructor
  · rintro ⟨children, finished⟩
    by_cases below : block.blockHeight.val < 2147483647
    · refine ⟨?_, below⟩
      by_contra negative
      rw [getChildrenPointers_negative represented (by omega)] at finished
      cases finished
    · rw [getChildrenPointers_overflow below] at finished
      cases finished
  · rintro ⟨isRow, below⟩
    exact ⟨_, getChildrenPointers_eq_of_row represented isRow below⟩

theorem getParent_finishes_iff (represented : chain.Represents log) :
    (∃ parent, chain.getParent block = .ok parent) ↔ -2147483648 < block.blockHeight.val := by
  constructor
  · rintro ⟨parent, finished⟩
    by_contra least
    rw [getParent_overflow least] at finished
    cases finished
  · intro room
    exact ⟨_, getParent_eq_of_room represented room⟩

/-- In every chain grown from the genesis block and for every height of an `int`:
    `AddBlock` is safe from 0 on, `GetChildrenPointers` from -1 up to the greatest
    height but one, `GetParent` above the least height; so all three are exactly for
    the heights from 0 that have one above. -/
theorem height_safe_iff (bs : List Block) (chain : Blockchain)
    (heights : ∀ block ∈ bs, 0 ≤ block.blockHeight.val) (grown : grow bs = .ok chain)
    (block : Block) :
    (chain.AddBlockSafe block ↔ 0 ≤ block.blockHeight.val) ∧
    ((∃ children, chain.getChildrenPointers block = .ok children) ↔
      -1 ≤ block.blockHeight.val ∧ block.blockHeight.val < 2147483647) ∧
    ((∃ parent, chain.getParent block = .ok parent) ↔ -2147483648 < block.blockHeight.val) ∧
    (chain.HeightSafe block ↔ 0 ≤ block.blockHeight.val ∧ block.blockHeight.val < 2147483647) := by
  have represented := Represents.of_grow heights grown
  have added := @addBlockSafe_iff chain _ block represented
  have children := @getChildrenPointers_finishes_iff chain _ block represented
  have parent := @getParent_finishes_iff chain _ block represented
  refine ⟨added, children, parent, ?_⟩
  constructor
  · intro safe
    exact ⟨added.mp safe.addBlock, (children.mp safe.getChildrenPointers).2⟩
  · rintro ⟨nonneg, below⟩
    exact ⟨added.mpr nonneg, children.mpr ⟨by omega, below⟩, parent.mpr (by omega)⟩

/-- The genesis chain with a gap above it, and the last height but one. -/
theorem height_safe_iff_gap :
    ∃ chain, grow [lineageBlock (CInt.lit 3) (CInt.lit 5) (CInt.lit 1)] = .ok chain ∧
      chain.HeightSafe (lineageBlock (CInt.lit 2147483646) (CInt.lit 5) (CInt.lit 1)) := by
  refine ⟨_, rfl, ?_⟩
  obtain ⟨_, _, _, safe⟩ := height_safe_iff [lineageBlock (CInt.lit 3) (CInt.lit 5) (CInt.lit 1)] _
    (by decide) rfl (lineageBlock (CInt.lit 2147483646) (CInt.lit 5) (CInt.lit 1))
  exact safe.mpr (by decide)

/-- A negative height on the genesis chain, and the two ends of `int`. -/
theorem heights_leave_range :
    ∃ chain, new = .ok chain ∧
      chain.addBlock (lineageBlock (CInt.lit (-1)) (CInt.lit 5) (CInt.lit 0)) =
        .error .rowOutOfRange ∧
      chain.getChildrenPointers (lineageBlock (CInt.lit 2147483647) (CInt.lit 5) (CInt.lit 0)) =
        .error .intOverflow ∧
      chain.getParent (lineageBlock (CInt.lit (-2147483648)) (CInt.lit 5) (CInt.lit 0)) =
        .error .intOverflow ∧
      ¬ chain.HeightSafe (lineageBlock (CInt.lit (-1)) (CInt.lit 5) (CInt.lit 0)) := by
  refine ⟨_, rfl, rfl, rfl, rfl, ?_⟩
  intro safe
  obtain ⟨blocks, added⟩ := safe.addBlock.rows
  cases added

end Blockchain

end Ns3Blockchain
