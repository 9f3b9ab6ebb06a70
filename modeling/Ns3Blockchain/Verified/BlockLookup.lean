import Ns3Blockchain.Verified.Copies
import Ns3Blockchain.Verified.Store

/-! # `ReturnBlock` and `GetBlockPointer`

Both search the row of a height for a key.  Over a represented chain the search
is the one of the log; what is left of the two functions is when they index a row
at all, and what `ReturnBlock` makes of a key that is not there.
-/

namespace Ns3Blockchain

open Library Library.RankedLog

namespace Blockchain

/-- The first of the blocks with the key. -/
def earliest (blocks : List Block) (height minerId : CInt) : Option Block :=
  blocks.find? fun block => decide (block.blockHeight = height ∧ block.minerId = minerId)

/-- The block `Block()` is written to build. -/
def zeroBlock : Block :=
  Block.new (CInt.lit 0) (CInt.lit 0) (CInt.lit 0) (CInt.lit 0) (CInt.lit 0) 0 0 ⟨0⟩

/-- `returned` answers the query: the earliest block with the key, or a block with
    a zero header; and it has the key exactly when the key is there. -/
structure AnswersKey (blocks : List Block) (height minerId : CInt) (returned : Block) : Prop where
  found : ∀ source, earliest blocks height minerId = some source → returned = source.copy
  missing : earliest blocks height minerId = none → returned.SameHeader zeroBlock
  keyed : (returned.blockHeight = height ∧ returned.minerId = minerId) ↔
    ∃ stored ∈ blocks, stored.blockHeight = height ∧ stored.minerId = minerId

/-- `ReturnBlock`, which writes nothing, answers the query from any storage. -/
def ReturnBlockAgrees (chain : Blockchain) (blocks : List Block) (height minerId : CInt) : Prop :=
  ∀ storage, ∃ returned, chain.returnBlock storage height minerId = .ok returned ∧
    AnswersKey blocks height minerId returned

/-- `GetBlockPointer` returns null exactly where `HasBlock` is false, and otherwise
    points to the earliest block with the key. -/
def GetBlockPointerAgrees (chain : Blockchain) (blocks : List Block) (block : Block) : Prop :=
  ∃ found, chain.getBlockPointer block = .ok found ∧
    (found = none ↔ chain.hasBlock block = .ok false) ∧
    (chain.hasBlock block = .ok true →
      ∃ source, earliest blocks block.blockHeight block.minerId = some source ∧
        found = some source.copy)

/-! ## The search of the log -/

theorem earliest_eq_none_iff {blocks : List Block} {height minerId : CInt} :
    earliest blocks height minerId = none ↔
      ¬ ∃ stored ∈ blocks, stored.blockHeight = height ∧ stored.minerId = minerId := by
  rw [earliest, List.find?_eq_none]
  simp

theorem earliest_some {blocks : List Block} {height minerId : CInt} {block : Block}
    (found : earliest blocks height minerId = some block) :
    block ∈ blocks ∧ block.blockHeight = height ∧ block.minerId = minerId :=
  ⟨List.mem_of_find?_eq_some found, by simpa using List.find?_some found⟩

theorem earliest_arrivals (bs : List Block) (height minerId : CInt) :
    earliest (arrivals bs) height minerId =
      (earliest (genesisBlock :: bs) height minerId).map Block.copy := by
  rw [earliest, arrivals, List.find?_map]
  rfl

section Lookups

variable {chain : Blockchain} {log : List Block}

/-- In its row a block of the log is found as in the log. -/
theorem find?_key (height minerId : CInt) :
    (row Block.rowIndex log height.val.toNat).find?
        (fun block => block.getBlockHeight == height && block.getMinerId == minerId) =
      earliest log height minerId := by
  have sameTest : (fun block : Block => block.getBlockHeight == height && block.getMinerId == minerId) =
      fun block => decide (block.blockHeight = height ∧ block.minerId = minerId) := by
    funext block
    rw [Bool.decide_and]
    rfl
  rw [sameTest, earliest]
  apply RankedLog.find?_row
  intro block keyed
  rw [Block.rowIndex, (of_decide_eq_true keyed).1]

theorem searchRow_eq (represented : chain.Represents log) (height minerId : CInt) :
    chain.searchRow height minerId =
      chain.rowAt height >>= fun _ => .ok (earliest log height minerId) := by
  rw [searchRow]
  by_cases within : 0 ≤ height.val ∧ height.val < depth Block.rowIndex log
  · rw [represented.rowAt within.1 within.2, ok_bind, ok_bind, find?_key]
    rfl
  · rw [represented.rowAt_outside within]
    rfl

/-- The row of a block of the log exists. -/
theorem rowAt_of_mem (represented : chain.Represents log) {block : Block} (member : block ∈ log) :
    ∃ found, chain.rowAt block.blockHeight = .ok found := by
  have index := rowIndex_eq represented member
  have bound := rank_lt_depth Block.rowIndex member
  exact ⟨_, represented.rowAt (represented.nonneg block member) (by omega)⟩

/-- `ReturnBlock` answers from the log; where the log has no answer it still
    indexes the row, and then returns `Block()`. -/
theorem returnBlock_eq (represented : chain.Represents log) (storage : Block)
    (height minerId : CInt) :
    chain.returnBlock storage height minerId =
      match earliest log height minerId with
      | some block => .ok block.copy
      | none => chain.rowAt height >>= fun _ => .ok (Block.default storage) := by
  obtain ⟨top, found, heightEq⟩ := getBlockchainHeight_eq represented
  rw [returnBlock, heightEq, ok_bind, searchRow_eq represented]
  cases answer : earliest log height minerId with
  | some block =>
    -- The block is in range, so the first loop has returned it.
    obtain ⟨member, sameHeight, _⟩ := earliest_some answer
    have nonneg := represented.nonneg block member
    have bound := height_le_top represented found member
    obtain ⟨_, rowEq⟩ := rowAt_of_mem represented member
    rw [sameHeight] at nonneg bound rowEq
    rw [if_pos ⟨BoundedInt.le_def.mpr bound, BoundedInt.le_def.mpr (by rwa [CInt.val_zero])⟩, rowEq]
    rfl
  | none =>
    split
    next inside =>
      cases rowEq : chain.rowAt height with
      | ok _ => rfl
      | error _ => rfl
    next =>
      cases rowEq : chain.rowAt height with
      | ok _ => rfl
      | error _ => rfl

/-- `GetBlockPointer` searches the log up to the top and indexes no row above it. -/
theorem getBlockPointer_eq (represented : chain.Represents log) {top block : Block}
    (found : leader Block.rowIndex log = some top) (nonneg : 0 ≤ block.blockHeight.val) :
    chain.getBlockPointer block =
      if block.blockHeight ≤ top.blockHeight then
        .ok (earliest log block.blockHeight block.minerId)
      else
        .error .rowOutOfRange := by
  have topHeight := represented.top_height found
  rw [getBlockPointer, Block.getBlockHeight]
  split
  next inside =>
    rw [BoundedInt.le_def] at inside
    rw [represented.rowAt nonneg (by omega), ok_bind, ← find?_key]
    rfl
  next above =>
    rw [BoundedInt.le_def] at above
    rw [represented.rowAt_outside (by omega)]
    rfl

end Lookups

/-! ## Main results -/

/-- In every chain grown from the genesis block `ReturnBlock` answers exactly the
    queries for a stored key. -/
theorem returnBlock_agrees_iff (bs : List Block) (chain : Blockchain)
    (heights : ∀ block ∈ bs, 0 ≤ block.blockHeight.val) (grown : grow bs = .ok chain)
    (height minerId : CInt) :
    ReturnBlockAgrees chain (genesisBlock :: bs) height minerId ↔
      ∃ stored ∈ genesisBlock :: bs, stored.blockHeight = height ∧ stored.minerId = minerId := by
  have represented := Represents.of_grow heights grown
  have returned := fun storage => returnBlock_eq represented storage height minerId
  rw [earliest_arrivals] at returned
  constructor
  · intro agrees
    by_contra absent
    have missing := earliest_eq_none_iff.mpr absent
    rw [missing, Option.map_none] at returned
    -- The storage `Block()` leaves as it was shows through.
    let storage : Block := { zeroBlock with blockHeight := CInt.lit 1 }
    obtain ⟨block, answered, answers⟩ := agrees storage
    obtain ⟨_, _, same⟩ := bind_eq_ok_iff.mp ((returned storage).symm.trans answered)
    cases same
    have sameHeight := congrArg Block.blockHeight (answers.missing missing zeroBlock)
    exact absurd sameHeight (by decide)
  · intro stored storage
    cases answer : earliest (genesisBlock :: bs) height minerId with
    | none => exact absurd stored (earliest_eq_none_iff.mp answer)
    | some source =>
      obtain ⟨_, sameHeight, sameMiner⟩ := earliest_some answer
      refine ⟨source.copy, by rw [returned, answer]; rfl, ?_, ?_, ?_⟩
      · intro other found
        rw [answer, Option.some.injEq] at found
        rw [found]
      · intro missing
        rw [answer] at missing
        cases missing
      · exact iff_of_true ⟨sameHeight, sameMiner⟩ stored

/-- A key stored twice, below the top. -/
def repeatedKey : List Block :=
  [lineageBlock (CInt.lit 1) (CInt.lit 5) (CInt.lit 0),
    lineageBlock (CInt.lit 1) (CInt.lit 5) (CInt.lit 3),
    lineageBlock (CInt.lit 2) (CInt.lit 3) (CInt.lit 5)]

theorem returnBlock_agrees_iff_repeated :
    ∃ chain, grow repeatedKey = .ok chain ∧
      ReturnBlockAgrees chain (genesisBlock :: repeatedKey) (CInt.lit 1) (CInt.lit 5) ∧
      ¬ ReturnBlockAgrees chain (genesisBlock :: repeatedKey) (CInt.lit 1) (CInt.lit 3) := by
  obtain ⟨chain, grown⟩ : ∃ chain, grow repeatedKey = .ok chain := ⟨_, rfl⟩
  have agrees := returnBlock_agrees_iff repeatedKey chain (by decide) grown
  refine ⟨chain, grown, (agrees _ _).mpr ?_, fun absent => ?_⟩
  · exact ⟨lineageBlock (CInt.lit 1) (CInt.lit 5) (CInt.lit 0), by decide⟩
  · obtain ⟨stored, member, same⟩ := (agrees _ _).mp absent
    have missing : ∀ stored ∈ genesisBlock :: repeatedKey,
        ¬ (stored.blockHeight = CInt.lit 1 ∧ stored.minerId = CInt.lit 3) := by decide
    exact missing stored member same

/-- On the fresh chain: a height above the top and a negative one run out of the
    rows, and an absent miner gets whatever the storage held. -/
theorem returnBlock_leaves_range :
    ∃ chain, grow [] = .ok chain ∧
      chain.returnBlock zeroBlock (CInt.lit 5) (CInt.lit 0) = .error .rowOutOfRange ∧
      chain.returnBlock zeroBlock (CInt.lit (-1)) (CInt.lit 0) = .error .rowOutOfRange ∧
      chain.returnBlock Block.loadedBlock (CInt.lit 0) (CInt.lit 7) =
        .ok (Block.default Block.loadedBlock) ∧
      ¬ ReturnBlockAgrees chain [genesisBlock] (CInt.lit 5) (CInt.lit 0) := by
  refine ⟨_, rfl, by decide, by decide, by decide, ?_⟩
  intro agrees
  obtain ⟨_, answered, _⟩ := agrees zeroBlock
  cases answered

/-- In every chain grown from the genesis block `GetBlockPointer` agrees with
    `HasBlock` exactly on blocks not above the top. -/
theorem getBlockPointer_agrees_iff (bs : List Block) (chain : Blockchain)
    (heights : ∀ block ∈ bs, 0 ≤ block.blockHeight.val) (grown : grow bs = .ok chain)
    (block : Block) (nonneg : 0 ≤ block.blockHeight.val) :
    GetBlockPointerAgrees chain (genesisBlock :: bs) block ↔
      ∃ top, chain.getCurrentTopBlock = .ok top ∧ block.blockHeight ≤ top.blockHeight := by
  have represented := Represents.of_grow heights grown
  obtain ⟨top, leads, topEq⟩ := represented.top
  have pointed := getBlockPointer_eq represented leads nonneg
  constructor
  · intro ⟨found, pointer, _⟩
    refine ⟨top, topEq, ?_⟩
    by_contra above
    rw [pointed, if_neg above] at pointer
    cases pointer
  · intro ⟨top', topEq', inside⟩
    cases topEq.symm.trans topEq'
    rw [if_pos inside] at pointed
    refine ⟨_, pointed, ?_, ?_⟩
    · rw [hasBlock_eq represented nonneg, earliest_eq_none_iff, Except.ok.injEq, decide_eq_false_iff_not]
    · intro stored
      rw [hasBlock_eq represented nonneg, Except.ok.injEq, decide_eq_true_eq] at stored
      cases answer : earliest (genesisBlock :: bs) block.blockHeight block.minerId with
      | none =>
        -- `HasBlock` has seen the copy of an added block.
        have absent : earliest (arrivals bs) block.blockHeight block.minerId = none := by
          rw [earliest_arrivals, answer]
          rfl
        exact absurd stored (earliest_eq_none_iff.mp absent)
      | some source => exact ⟨source, rfl, by rw [earliest_arrivals, answer]; rfl⟩

/-- A skipped height below the top. -/
theorem getBlockPointer_agrees_iff_gap :
    ∃ chain, grow [lineageBlock (CInt.lit 2) (CInt.lit 7) (CInt.lit 0)] = .ok chain ∧
      GetBlockPointerAgrees chain [genesisBlock, lineageBlock (CInt.lit 2) (CInt.lit 7) (CInt.lit 0)]
        (lineageBlock (CInt.lit 1) (CInt.lit 7) (CInt.lit 0)) := by
  refine ⟨_, rfl, (getBlockPointer_agrees_iff
    [lineageBlock (CInt.lit 2) (CInt.lit 7) (CInt.lit 0)] _ (by decide) rfl _ (by decide)).mpr ?_⟩
  exact ⟨lineageBlock (CInt.lit 2) (CInt.lit 7) (CInt.lit 0), by decide⟩

/-- A block one above the genesis block, on the fresh chain. -/
theorem getBlockPointer_leaves_range :
    ∃ chain, grow [] = .ok chain ∧
      chain.hasBlock (lineageBlock (CInt.lit 1) (CInt.lit 5) (CInt.lit 0)) = .ok false ∧
      chain.getBlockPointer (lineageBlock (CInt.lit 1) (CInt.lit 5) (CInt.lit 0)) =
        .error .rowOutOfRange ∧
      ¬ GetBlockPointerAgrees chain [genesisBlock]
        (lineageBlock (CInt.lit 1) (CInt.lit 5) (CInt.lit 0)) := by
  refine ⟨_, rfl, by decide, by decide, ?_⟩
  intro ⟨_, pointer, _⟩
  cases pointer

end Blockchain

end Ns3Blockchain
