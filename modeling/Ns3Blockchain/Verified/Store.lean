import Mathlib.Data.List.Forall2
import Ns3Blockchain.Library.RankedLog
import Ns3Blockchain.Model.Blockchain

/-! # The row-indexed store refines the append log

`Represents chain log` says that `m_blocks` is the log of the blocks added so
far, oldest first, filed under their heights.  `Blockchain()` establishes it and
`AddBlock` of a height that is a row index keeps it; every lookup is then a
statement about the log.
-/

namespace Ns3Blockchain

open Library Library.RankedLog

/-- The row a block of non-negative height belongs to. -/
def Block.rowIndex (block : Block) : Nat := block.blockHeight.val.toNat

/-- Every member but `m_totalTransactions` is the same. -/
def Block.SameButCounter (stored source : Block) : Prop :=
  { stored with totalTransactions := source.totalTransactions } = source

theorem Block.sameButCounter_copy (source : Block) : source.copy.SameButCounter source := rfl

namespace Blockchain

structure Represents (chain : Blockchain) (log : List Block) : Prop where
  blocks_eq : chain.blocks = rows Block.rowIndex log
  total_eq : chain.totalBlocks.val = log.length
  nonneg : ∀ block ∈ log, 0 ≤ block.blockHeight.val
  nonempty : log ≠ []

/-- `Blockchain()` followed by `AddBlock` of each block. -/
def grow (bs : List Block) : Exec Blockchain := do
  let chain ← new
  foldChecked addBlock chain bs

/-- What the store holds of an arrival sequence: copies, the genesis block first. -/
def arrivals (bs : List Block) : List Block := (genesisBlock :: bs).map Block.copy

/-- Every block of the store, row by row. -/
def stored (chain : Blockchain) : List Block := chain.blocks.flatten

/-- A block of the given lineage, empty otherwise. -/
def lineageBlock (height minerId parentBlockMinerId : CInt) : Block :=
  Block.new height minerId (CInt.lit 0) parentBlockMinerId (CInt.lit 0) 0 0 ⟨0⟩

/-- The calls that change a `Blockchain`. -/
inductive Operation where
  | addBlock (newBlock : Block)
  | addOrphan (newBlock : Block)
  | removeOrphan (newBlock : Block)

def apply (chain : Blockchain) : Operation → Exec Blockchain
  | .addBlock newBlock => chain.addBlock newBlock
  | .addOrphan newBlock => .ok (chain.addOrphan newBlock)
  | .removeOrphan newBlock => .ok (chain.removeOrphan newBlock)

/-- `Blockchain()` followed by a sequence of calls. -/
def reach (operations : List Operation) : Exec Blockchain := do
  let chain ← new
  foldChecked apply chain operations

/-- The blocks the calls add to the chain. -/
def addedBlocks (operations : List Operation) : List Block :=
  operations.filterMap fun
    | .addBlock newBlock => some newBlock
    | _ => none

/-! ## The top block -/

section Lookups

variable {chain : Blockchain} {log : List Block}

theorem rowIndex_eq {block : Block} (represented : chain.Represents log) (member : block ∈ log) :
    (block.rowIndex : Int) = block.blockHeight.val :=
  Int.toNat_of_nonneg (represented.nonneg block member)

theorem Represents.top (represented : chain.Represents log) :
    ∃ top, leader Block.rowIndex log = some top ∧ chain.getCurrentTopBlock = .ok top := by
  obtain ⟨top, found⟩ := leader_isSome Block.rowIndex represented.nonempty
  have positive := depth_pos Block.rowIndex represented.nonempty
  obtain ⟨rest, lastRow⟩ : ∃ rest,
      row Block.rowIndex log (depth Block.rowIndex log - 1) = top :: rest := by
    have head := leader_eq_head_last_row found
    exact List.head?_eq_some_iff.mp head
  refine ⟨top, found, ?_⟩
  rw [getCurrentTopBlock, represented.blocks_eq, List.getLast?_eq_getElem?, length_rows,
    getElem?_rows (by omega), lastRow]

theorem Represents.top_height (represented : chain.Represents log) {top : Block}
    (found : leader Block.rowIndex log = some top) :
    top.blockHeight.val + 1 = depth Block.rowIndex log := by
  have greatest := leader_rank found
  have index := rowIndex_eq represented (leader_mem found)
  omega

theorem Represents.rowAt (represented : chain.Represents log) {height : CInt}
    (nonneg : 0 ≤ height.val) (within : height.val < depth Block.rowIndex log) :
    chain.rowAt height = .ok (row Block.rowIndex log height.val.toNat) := by
  rw [Blockchain.rowAt, if_pos nonneg, represented.blocks_eq, getElem?_rows (by omega)]

/-- Only the indices of the rows are answered. -/
theorem Represents.rowAt_outside (represented : chain.Represents log) {height : CInt}
    (outside : ¬ (0 ≤ height.val ∧ height.val < depth Block.rowIndex log)) :
    chain.rowAt height = .error .rowOutOfRange := by
  rw [Blockchain.rowAt]
  split
  next nonneg =>
    have above : chain.blocks.length ≤ height.val.toNat := by
      rw [represented.blocks_eq, length_rows]
      omega
    rw [List.getElem?_eq_none above]
  next => rfl

theorem mem_rowAt (represented : chain.Represents log) {height : CInt} (nonneg : 0 ≤ height.val)
    {block : Block} :
    block ∈ row Block.rowIndex log height.val.toNat ↔ block ∈ log ∧ block.blockHeight = height := by
  rw [mem_row]
  constructor
  · intro ⟨member, index⟩
    have heightEq := rowIndex_eq represented member
    exact ⟨member, BoundedInt.ext (by omega)⟩
  · intro ⟨member, sameHeight⟩
    exact ⟨member, by rw [Block.rowIndex, sameHeight]⟩

/-- A block of the log is never above the top. -/
theorem height_le_top (represented : chain.Represents log) {top block : Block}
    (found : leader Block.rowIndex log = some top) (member : block ∈ log) :
    block.blockHeight.val ≤ top.blockHeight.val := by
  have bound := rank_lt_depth Block.rowIndex member
  have topHeight := represented.top_height found
  have index := rowIndex_eq represented member
  omega

theorem mem_stored (represented : chain.Represents log) {block : Block} :
    block ∈ chain.stored ↔ block ∈ log := by
  rw [stored, represented.blocks_eq, mem_flatten_rows]

theorem getBlockchainHeight_eq (represented : chain.Represents log) :
    ∃ top, leader Block.rowIndex log = some top ∧
      chain.getBlockchainHeight = .ok top.blockHeight := by
  obtain ⟨top, found, topEq⟩ := represented.top
  refine ⟨top, found, ?_⟩
  rw [getBlockchainHeight, topEq]
  rfl

/-! ## Membership -/

/-- A lookup that compares the height with the top before it indexes decides
    membership in the log, for every test that accepts only that height. -/
theorem guardedLookup_eq (represented : chain.Represents log) {height : CInt}
    (nonneg : 0 ≤ height.val) (test : Block → Bool)
    (ranked : ∀ block, test block = true → block.blockHeight = height) :
    (do
      let top ← chain.getCurrentTopBlock
      if top.getBlockHeight < height then
        return false
      else
        let row ← chain.rowAt height
        return row.any test : Exec Bool) = .ok (log.any test) := by
  obtain ⟨top, found, topEq⟩ := represented.top
  have topHeight := represented.top_height found
  simp only [topEq, ok_bind, Block.getBlockHeight, BoundedInt.lt_def]
  split
  next above =>
    -- no block of the log is that high
    have absent : log.any test = false := by
      rw [List.any_eq_false]
      intro block member accepted
      have bound := height_le_top represented found member
      rw [ranked block accepted] at bound
      omega
    rw [absent]
    rfl
  next within =>
    rw [represented.rowAt nonneg (by omega), ok_bind, pure_eq_ok]
    congr 1
    rw [Bool.eq_iff_iff, List.any_eq_true, List.any_eq_true]
    constructor
    · intro ⟨block, member, accepted⟩
      exact ⟨block, ((mem_rowAt represented nonneg).mp member).1, accepted⟩
    · intro ⟨block, member, accepted⟩
      exact ⟨block, (mem_rowAt represented nonneg).mpr ⟨member, ranked block accepted⟩, accepted⟩

theorem hasBlockAt_eq (represented : chain.Represents log) {height : CInt} (minerId : CInt)
    (nonneg : 0 ≤ height.val) :
    chain.hasBlockAt height minerId =
      .ok (decide (∃ block ∈ log, block.blockHeight = height ∧ block.minerId = minerId)) := by
  have looked := guardedLookup_eq represented nonneg
    (fun stored => stored.getBlockHeight == height && stored.getMinerId == minerId)
    (by
      intro block accepted
      rw [Bool.and_eq_true, beq_iff_eq] at accepted
      exact accepted.1)
  rw [hasBlockAt, looked, Except.ok.injEq, Bool.eq_iff_iff, List.any_eq_true]
  simp [Block.getBlockHeight, Block.getMinerId]

theorem hasBlock_eq (represented : chain.Represents log) {block : Block}
    (nonneg : 0 ≤ block.blockHeight.val) :
    chain.hasBlock block = .ok (decide (∃ stored ∈ log,
      stored.blockHeight = block.blockHeight ∧ stored.minerId = block.minerId)) := by
  have looked := guardedLookup_eq represented nonneg (fun stored => stored.equals block)
    (by
      intro stored accepted
      rw [Block.equals, Bool.and_eq_true, beq_iff_eq] at accepted
      exact accepted.1)
  rw [hasBlock, Block.getBlockHeight, looked, Except.ok.injEq, Bool.eq_iff_iff, List.any_eq_true]
  simp [Block.equals, Block.getBlockHeight, Block.getMinerId]

/-! ## `AddBlock` -/

/-- The padding below a block above the top: never negative, and the `int`
    subtractions stay in range. -/
theorem dummyRows_eq (represented : chain.Represents log) {newBlock top : Block}
    (found : leader Block.rowIndex log = some top)
    (above : top.blockHeight.val < newBlock.blockHeight.val) :
    ∃ dummyRows, chain.dummyRows newBlock = .ok dummyRows ∧ 0 ≤ dummyRows.val ∧
      dummyRows.val = newBlock.blockHeight.val - depth Block.rowIndex log := by
  obtain ⟨top', found', topEq⟩ := represented.top
  cases found.symm.trans found'
  have topHeight := represented.top_height found
  have topNonneg := represented.nonneg top (leader_mem found)
  have upper := newBlock.blockHeight.upper
  let difference := newBlock.blockHeight.val - top.blockHeight.val
  have subtracted : CInt.sub newBlock.blockHeight top.blockHeight =
      .ok ⟨difference, by omega, by omega⟩ := CInt.checked_of_range (by omega)
  have decremented : CInt.sub ⟨difference, by omega, by omega⟩ (CInt.lit 1) =
      .ok ⟨difference - 1, by omega, by omega⟩ :=
    CInt.checked_of_range (by show -2147483648 ≤ difference - 1 ∧ difference - 1 ≤ 2147483647; omega)
  refine ⟨⟨difference - 1, by omega, by omega⟩, ?_, by show 0 ≤ difference - 1; omega,
    by show difference - 1 = _; omega⟩
  simp only [dummyRows, topEq, ok_bind, Block.getBlockHeight, subtracted, decremented]

theorem addToRows_eq (represented : chain.Represents log) {newBlock : Block}
    (nonneg : 0 ≤ newBlock.blockHeight.val) :
    chain.addToRows newBlock = .ok (rows Block.rowIndex (log ++ [newBlock.copy])) := by
  obtain ⟨top, found, topEq⟩ := represented.top
  have topHeight := represented.top_height found
  have index : newBlock.copy.rowIndex = newBlock.blockHeight.val.toNat := rfl
  have nonemptyRows : chain.blocks.length ≠ 0 := by
    rw [represented.blocks_eq, length_rows]
    exact Nat.pos_iff_ne_zero.mp (depth_pos Block.rowIndex represented.nonempty)
  rw [addToRows, if_neg nonemptyRows, topEq, ok_bind]
  simp only [Block.getBlockHeight, BoundedInt.lt_def]
  split
  next above =>
    -- The rows between the old top and the new block are the dummy ones.
    obtain ⟨dummyRows, computed, _, count⟩ := dummyRows_eq represented found above
    have padding : dummyRows.val.toNat = newBlock.copy.rowIndex - depth Block.rowIndex log := by
      omega
    rw [computed, ok_bind, pure_eq_ok, rows_append_above (by omega), padding,
      represented.blocks_eq]
  next within =>
    -- A competitor or a late block: its row exists, filled or empty.
    rw [represented.rowAt nonneg (by omega), ok_bind, pure_eq_ok, rows_append_within (by omega),
      represented.blocks_eq, index]

theorem addBlock_eq (represented : chain.Represents log) {newBlock : Block}
    (nonneg : 0 ≤ newBlock.blockHeight.val) :
    chain.addBlock newBlock = CInt.add chain.totalBlocks (CInt.lit 1) >>= fun totalBlocks =>
      .ok { chain with blocks := rows Block.rowIndex (log ++ [newBlock.copy]), totalBlocks } := by
  rw [addBlock, addToRows_eq represented nonneg]
  rfl

/-- `AddBlock` appends to the log. -/
theorem represents_of_addBlock (represented : chain.Represents log) {newBlock : Block}
    (nonneg : 0 ≤ newBlock.blockHeight.val) {chain' : Blockchain}
    (added : chain.addBlock newBlock = .ok chain') :
    chain'.Represents (log ++ [newBlock.copy]) ∧ chain'.orphans = chain.orphans := by
  rw [addBlock_eq represented nonneg, bind_eq_ok_iff] at added
  obtain ⟨totalBlocks, counted, same⟩ := added
  cases same
  have total := CInt.checked_eq_ok_iff.mp counted
  refine ⟨⟨rfl, ?_, ?_, by simp⟩, rfl⟩
  · simp [total, represented.total_eq]
  · intro block member
    rcases List.mem_append.mp member with old | new
    · exact represented.nonneg block old
    · rw [List.mem_singleton.mp new]
      exact nonneg

/-- Only the counter can stop `AddBlock` of a row-index height. -/
theorem addBlock_succeeds (represented : chain.Represents log) {newBlock : Block}
    (nonneg : 0 ≤ newBlock.blockHeight.val) (room : log.length < 2147483647) :
    ∃ chain', chain.addBlock newBlock = .ok chain' := by
  have total := represented.total_eq
  have range : -2147483648 ≤ chain.totalBlocks.val + 1 ∧ chain.totalBlocks.val + 1 ≤ 2147483647 := by
    omega
  have counted : CInt.add chain.totalBlocks (CInt.lit 1) = .ok ⟨_, range.1, range.2⟩ :=
    CInt.checked_of_range range
  rw [addBlock_eq represented nonneg, counted]
  exact ⟨_, rfl⟩

end Lookups

/-! ## Growth from the genesis block -/

theorem new_represents :
    ∃ chain, new = .ok chain ∧ chain.Represents (arrivals []) ∧ chain.orphans = [] := by
  refine ⟨_, rfl, ?_, rfl⟩
  exact ⟨rfl, rfl, by simp [arrivals, genesisBlock, Block.new, Block.copy], by simp [arrivals]⟩

theorem arrivals_append (bs : List Block) (newBlock : Block) :
    arrivals (bs ++ [newBlock]) = arrivals bs ++ [newBlock.copy] := by
  simp [arrivals]

theorem grow_append (bs : List Block) (newBlock : Block) :
    grow (bs ++ [newBlock]) = grow bs >>= fun chain => chain.addBlock newBlock := by
  obtain ⟨chain, created, _⟩ := new_represents
  simp only [grow, created, ok_bind, foldChecked_append_singleton]

/-- Every growth with row-index heights finishes, and its store is the log. -/
theorem grow_represents {bs : List Block} (heights : ∀ block ∈ bs, 0 ≤ block.blockHeight.val)
    (few : bs.length < 2147483647) :
    ∃ chain, grow bs = .ok chain ∧ chain.Represents (arrivals bs) := by
  obtain ⟨start, created, represented, _⟩ := new_represents
  have run : ∃ chain, foldChecked addBlock start bs = .ok chain ∧ chain.Represents (arrivals bs) := by
    apply foldChecked_progress
      (fun (consumed : List Block) (chain : Blockchain) => chain.Represents (arrivals consumed))
      represented
    intro consumed newBlock chain sofar holds
    have member : newBlock ∈ bs := sofar.subset (by simp)
    have shorter := sofar.length_le
    have room : (arrivals consumed).length < 2147483647 := by
      simp [arrivals] at shorter ⊢
      omega
    obtain ⟨chain', added⟩ := addBlock_succeeds holds (heights newBlock member) room
    have next := represents_of_addBlock holds (heights newBlock member) added
    exact ⟨chain', added, by rw [arrivals_append]; exact next.1⟩
  obtain ⟨chain, grown, holds⟩ := run
  exact ⟨chain, by rw [grow, created]; exact grown, holds⟩

theorem Represents.of_grow {bs : List Block} (heights : ∀ block ∈ bs, 0 ≤ block.blockHeight.val)
    {chain : Blockchain} (grown : grow bs = .ok chain) : chain.Represents (arrivals bs) := by
  obtain ⟨start, created, represented, _⟩ := new_represents
  rw [grow, created] at grown
  apply foldChecked_invariant
    (fun (consumed : List Block) (chain : Blockchain) => chain.Represents (arrivals consumed))
    represented _ grown
  intro consumed newBlock chain chain' member holds added
  rw [arrivals_append]
  exact (represents_of_addBlock holds (heights newBlock member) added).1

/-- Of the calls that change a `Blockchain` only `AddBlock` reaches the log. -/
theorem represents_of_apply {chain chain' : Blockchain} {log : List Block}
    (represented : chain.Represents log) {operation : Operation}
    (heights : ∀ block ∈ addedBlocks [operation], 0 ≤ block.blockHeight.val)
    (applied : chain.apply operation = .ok chain') :
    chain'.Represents (log ++ (addedBlocks [operation]).map Block.copy) := by
  cases operation with
  | addBlock newBlock =>
    exact (represents_of_addBlock represented (heights newBlock List.mem_cons_self) applied).1
  | addOrphan newBlock | removeOrphan newBlock =>
    cases applied
    change Represents _ (log ++ [])
    rw [List.append_nil]
    exact ⟨represented.blocks_eq, represented.total_eq, represented.nonneg, represented.nonempty⟩

theorem Represents.of_reach {operations : List Operation}
    (heights : ∀ block ∈ addedBlocks operations, 0 ≤ block.blockHeight.val) {chain : Blockchain}
    (reached : reach operations = .ok chain) :
    chain.Represents (arrivals (addedBlocks operations)) := by
  obtain ⟨start, created, represented, _⟩ := new_represents
  rw [reach, created] at reached
  apply foldChecked_invariant
    (fun (consumed : List Operation) (chain : Blockchain) =>
      chain.Represents (arrivals (addedBlocks consumed)))
    represented _ reached
  intro consumed operation chain chain' member holds applied
  have appended : arrivals (addedBlocks (consumed ++ [operation])) =
      arrivals (addedBlocks consumed) ++ (addedBlocks [operation]).map Block.copy := by
    rw [arrivals, arrivals, addedBlocks, List.filterMap_append, ← List.cons_append, List.map_append]
    rfl
  rw [appended]
  refine represents_of_apply holds (fun block added => heights block ?_) applied
  obtain ⟨source, only, found⟩ := List.mem_filterMap.mp added
  exact List.mem_filterMap.mpr ⟨source, by rwa [List.mem_singleton.mp only], found⟩

/-- The prefixes of a growth are growths, each one block behind the next. -/
theorem prefix_grows {bs sofar : List Block} {newBlock : Block}
    (heights : ∀ block ∈ bs, 0 ≤ block.blockHeight.val) (few : bs.length < 2147483647)
    (step : sofar ++ [newBlock] <+: bs) :
    0 ≤ newBlock.blockHeight.val ∧
      ∃ chain, grow sofar = .ok chain ∧ chain.Represents (arrivals sofar) := by
  have members := step.subset
  have shorter := step.length_le
  simp only [List.length_append, List.length_singleton] at shorter
  refine ⟨heights newBlock (members (by simp)), ?_⟩
  apply grow_represents
  · intro block member
    exact heights block (members (by simp [member]))
  · omega

theorem row_arrivals (bs : List Block) (h : Nat) :
    row Block.rowIndex (arrivals bs) h =
      ((genesisBlock :: bs).filter fun block => block.rowIndex == h).map Block.copy := by
  rw [row, arrivals, List.filter_map]
  rfl

/-- A row of `m_blocks`, in the words of the blocks added. -/
theorem Represents.getElem?_blocks {bs : List Block} {chain : Blockchain}
    (represented : chain.Represents (arrivals bs)) {h : Nat} (within : h < chain.blocks.length) :
    chain.blocks[h]? =
      some (((genesisBlock :: bs).filter fun block => block.blockHeight.val == (h : Int)).map
        Block.copy) := by
  rw [represented.blocks_eq, length_rows] at within
  rw [represented.blocks_eq, getElem?_rows within, row_arrivals]
  congr 2
  apply List.filter_congr
  intro block member
  have nonneg : 0 ≤ block.blockHeight.val :=
    represented.nonneg block.copy (List.mem_map_of_mem member)
  rw [Bool.eq_iff_iff, beq_iff_eq, beq_iff_eq, Block.rowIndex]
  omega

/-- The number of rows is one more than the greatest height. -/
theorem Represents.length_blocks {bs : List Block} {chain : Blockchain}
    (represented : chain.Represents (arrivals bs)) :
    ∃ highest ∈ genesisBlock :: bs,
      (∀ block ∈ genesisBlock :: bs, block.blockHeight.val ≤ highest.blockHeight.val) ∧
      (chain.blocks.length : Int) = 1 + highest.blockHeight.val := by
  obtain ⟨top, found, _⟩ := represented.top
  have topHeight := represented.top_height found
  obtain ⟨highest, member, copied⟩ := List.mem_map.mp (leader_mem found)
  subst copied
  refine ⟨highest, member, ?_, ?_⟩
  · intro block member
    have copied : block.copy ∈ arrivals bs := List.mem_map_of_mem member
    have bound := height_le_top represented found copied
    rwa [Block.copy_blockHeight, Block.copy_blockHeight] at bound
  · rw [represented.blocks_eq, length_rows]
    rw [Block.copy_blockHeight] at topHeight
    omega

/-- `GetCurrentTopBlock` reads the head of the last row. -/
theorem getLast?_of_getCurrentTopBlock {chain : Blockchain} {top : Block}
    (topEq : chain.getCurrentTopBlock = .ok top) :
    ∃ rest, chain.blocks.getLast? = some (top :: rest) := by
  rw [getCurrentTopBlock] at topEq
  split at topEq
  next top' rest lastRow =>
    cases topEq
    exact ⟨rest, lastRow⟩
  next => cases topEq

/-- After `Blockchain()` and `AddBlock` of each block of `bs`: the rows of
    `m_blocks` are the log under its heights, each block with the header and the
    transactions it came with, the first and the last row have a block, the counter
    counts, the padding of every step is computed in range, and both lookups decide
    membership. -/
theorem store_refines_append_log (bs : List Block)
    (heights : ∀ block ∈ bs, 0 ≤ block.blockHeight.val) (few : bs.length < 2147483647) :
    ∃ chain, grow bs = .ok chain ∧
      (∃ highest ∈ genesisBlock :: bs,
        (∀ block ∈ genesisBlock :: bs, block.blockHeight.val ≤ highest.blockHeight.val) ∧
        (chain.blocks.length : Int) = 1 + highest.blockHeight.val) ∧
      (∀ h < chain.blocks.length, chain.blocks[h]? =
        some (((genesisBlock :: bs).filter fun block => block.blockHeight.val == (h : Int)).map
          Block.copy)) ∧
      (∀ (h : Nat) row, chain.blocks[h]? = some row →
        List.Forall₂ Block.SameButCounter row
          ((genesisBlock :: bs).filter fun block => block.blockHeight.val == (h : Int))) ∧
      (∃ first rest, chain.blocks.head? = some (first :: rest)) ∧
      (∃ top rest, chain.blocks.getLast? = some (top :: rest) ∧ chain.getCurrentTopBlock = .ok top) ∧
      chain.getTotalBlocks.val = 1 + bs.length ∧
      (∀ sofar newBlock, sofar ++ [newBlock] <+: bs → ∃ before top, grow sofar = .ok before ∧
        before.getCurrentTopBlock = .ok top ∧
        (top.blockHeight < newBlock.blockHeight →
          ∃ dummyRows, before.dummyRows newBlock = .ok dummyRows ∧ 0 ≤ dummyRows.val)) ∧
      (∀ height minerId : CInt, 0 ≤ height.val → chain.hasBlockAt height minerId =
        .ok (decide (∃ stored ∈ genesisBlock :: bs,
          stored.blockHeight = height ∧ stored.minerId = minerId))) ∧
      (∀ block : Block, 0 ≤ block.blockHeight.val → chain.hasBlock block =
        .ok (decide (∃ stored ∈ genesisBlock :: bs,
          stored.blockHeight = block.blockHeight ∧ stored.minerId = block.minerId))) := by
  obtain ⟨chain, grown, represented⟩ := grow_represents heights few
  have sameKeys : ∀ height minerId : CInt,
      (∃ stored ∈ arrivals bs, stored.blockHeight = height ∧ stored.minerId = minerId) ↔
        ∃ stored ∈ genesisBlock :: bs, stored.blockHeight = height ∧ stored.minerId = minerId := by
    intro height minerId
    simp [arrivals]
  refine ⟨chain, grown, represented.length_blocks, fun h within => represented.getElem?_blocks within,
    ?_, ?_, ?_, ?_, ?_, ?_, ?_⟩
  · intro h row found
    rw [represented.getElem?_blocks (List.getElem?_eq_some_iff.mp found).1, Option.some.injEq] at found
    rw [← found, List.forall₂_map_left_iff, List.forall₂_same]
    exact fun source _ => source.sameButCounter_copy
  · refine ⟨genesisBlock.copy, (bs.filter fun block => block.rowIndex == 0).map Block.copy, ?_⟩
    have positive := depth_pos Block.rowIndex represented.nonempty
    rw [represented.blocks_eq, List.head?_eq_getElem?, getElem?_rows positive, row_arrivals]
    rfl
  · -- The last row is never empty, whatever rows the padding left empty below it.
    obtain ⟨top, _, topEq⟩ := represented.top
    obtain ⟨rest, lastRow⟩ := getLast?_of_getCurrentTopBlock topEq
    exact ⟨top, rest, lastRow, topEq⟩
  · rw [getTotalBlocks, represented.total_eq]
    simp [arrivals]
    omega
  · -- The padding is computed before a block above the top is filed.
    intro sofar newBlock step
    obtain ⟨_, before, grownBefore, representedBefore⟩ := prefix_grows heights few step
    obtain ⟨topBefore, foundBefore, topBeforeEq⟩ := representedBefore.top
    refine ⟨before, topBefore, grownBefore, topBeforeEq, ?_⟩
    intro above
    obtain ⟨dummyRows, computed, nonnegRows, _⟩ := dummyRows_eq representedBefore foundBefore above
    exact ⟨dummyRows, computed, nonnegRows⟩
  · intro height minerId nonnegHeight
    rw [hasBlockAt_eq represented minerId nonnegHeight]
    simp only [sameKeys]
  · intro block nonnegHeight
    rw [hasBlock_eq represented nonnegHeight]
    simp only [sameKeys]

theorem store_refines_append_log_gap :
    ∃ chain, grow [lineageBlock (CInt.lit 2) (CInt.lit 7) (CInt.lit 0),
        lineageBlock (CInt.lit 1) (CInt.lit 3) (CInt.lit 0)] = .ok chain ∧
      chain.getTotalBlocks.val = 3 := by
  obtain ⟨chain, grown, _, _, _, _, _, total, _⟩ := store_refines_append_log
    [lineageBlock (CInt.lit 2) (CInt.lit 7) (CInt.lit 0),
      lineageBlock (CInt.lit 1) (CInt.lit 3) (CInt.lit 0)]
    (by decide) (by decide)
  exact ⟨chain, grown, total⟩

end Blockchain

end Ns3Blockchain
