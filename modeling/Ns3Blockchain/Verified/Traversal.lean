import Ns3Blockchain.Verified.Lineage

/-! # Up and down the chain

`GetParent` walks the edges `IsChild` accepts, `GetChildrenPointers` those
`IsParent` accepts.  The two predicates are mirrored, and over a represented chain
so are the two walks, whatever the row guards and loops of each.
-/

namespace Ns3Blockchain

open Library Library.RankedLog

namespace Blockchain

/-- The row of the height holds the block. -/
def StoredAt (chain : Blockchain) (height : Int) (block : Block) : Prop :=
  block.blockHeight.val = height ∧ ∃ row, chain.blocks[height.toNat]? = some row ∧ block ∈ row

/-- `GetChildrenPointers` of `p` lists the block, each copy of it in the store. -/
def ListsChild (chain : Blockchain) (p c : Block) : Prop :=
  ∃ children, chain.getChildrenPointers p = .ok children ∧ c ∈ children ∧
    children.count c = chain.stored.count c

/-- The first of the blocks `IsChild` accepts as the parent of `c`. -/
def earliestParent (blocks : List Block) (c : Block) : Option Block :=
  blocks.find? fun p => decide (c.isChild p = .ok true)

/-- The edge from a stored child back up. -/
structure EdgeUp (chain : Blockchain) (c p : Block) : Prop where
  stored : chain.StoredAt (c.blockHeight.val - 1) p
  listed : chain.ListsChild p c

/-- The edge from a listed child back up to the earliest parent, which may be
    another block of the height of `p`. -/
structure EdgeDown (chain : Blockchain) (blocks : List Block) (p c : Block) : Prop where
  stored : chain.StoredAt (p.blockHeight.val + 1) c
  parent : ∃ source, earliestParent blocks c = some source ∧
    chain.getParent c = .ok (some source.copy) ∧
    chain.StoredAt p.blockHeight.val source.copy ∧ chain.ListsChild source.copy c

end Blockchain

namespace Block

/-- The test of `GetParent`, on candidates of every height. -/
theorem isChild_true_iff {this block : Block} :
    this.isChild block = .ok true ↔ block.SharesParentId this := by
  by_cases room : block.blockHeight.val < 2147483647
  · rw [isChild_eq room, Except.ok.injEq, decide_eq_true_eq]
  · -- One above the greatest height there is no block.
    have overflow : CInt.add block.blockHeight (CInt.lit 1) = .error .intOverflow :=
      CInt.checked_of_overflow (by rw [CInt.val_one]; omega)
    rw [isChild, overflow, error_bind]
    constructor
    · intro absurdity
      cases absurdity
    · rintro ⟨oneAbove, _⟩
      have upper := this.blockHeight.upper
      omega

end Block

namespace Blockchain

variable {chain : Blockchain} {log : List Block}

theorem storedAt_of_mem (represented : chain.Represents log) {block : Block}
    (member : block ∈ chain.stored) : chain.StoredAt block.blockHeight.val block := by
  rw [mem_stored represented] at member
  have bound := rank_lt_depth Block.rowIndex member
  refine ⟨rfl, row Block.rowIndex log block.rowIndex, ?_, ?_⟩
  · rw [represented.blocks_eq]
    exact getElem?_rows bound
  · exact mem_row.mpr ⟨member, rfl⟩

/-- A stored parent lists every copy of its stored child. -/
theorem listsChild_of_shares (represented : chain.Represents log) {p c : Block}
    (pMember : p ∈ chain.stored) (cMember : c ∈ chain.stored) (shares : p.SharesParentId c) :
    chain.ListsChild p c := by
  have nonneg := represented.nonneg p ((mem_stored represented).mp pMember)
  have below : p.blockHeight.val < 2147483647 := by
    have oneAbove := shares.1
    have upper := c.blockHeight.upper
    omega
  have accepted : decide (p.SharesParentId c) = true := decide_eq_true shares
  exact ⟨_, getChildrenPointers_eq represented nonneg below,
    List.mem_filter.mpr ⟨cMember, accepted⟩, List.count_filter accepted⟩

/-- `GetParent` of a stored block, in the words of the blocks added. -/
theorem getParent_eq_earliest {bs : List Block} (represented : chain.Represents (arrivals bs))
    {c : Block} (member : c ∈ chain.stored) :
    chain.getParent c = .ok ((earliestParent (genesisBlock :: bs) c).map Block.copy) := by
  have nonneg := represented.nonneg c ((mem_stored represented).mp member)
  rw [getParent_eq represented nonneg, arrivals, List.find?_map, earliestParent]
  simp only [Block.isChild_true_iff]
  rfl

theorem edgeUp_of_getParent (represented : chain.Represents log) {c p : Block}
    (member : c ∈ chain.stored) (up : chain.getParent c = .ok (some p)) : chain.EdgeUp c p := by
  have nonneg := represented.nonneg c ((mem_stored represented).mp member)
  rw [getParent_eq represented nonneg, Except.ok.injEq] at up
  have shares : p.SharesParentId c := by simpa using List.find?_some up
  have pMember := (mem_stored represented).mpr (List.mem_of_find?_eq_some up)
  have height : p.blockHeight.val = c.blockHeight.val - 1 := by
    have oneAbove := shares.1
    omega
  constructor
  · rw [← height]
    exact storedAt_of_mem represented pMember
  · exact listsChild_of_shares represented pMember member shares

theorem edgeDown_of_listed {bs : List Block} (represented : chain.Represents (arrivals bs))
    {p c : Block} {children : List Block} (pMember : p ∈ chain.stored)
    (down : chain.getChildrenPointers p = .ok children) (listed : c ∈ children) :
    chain.EdgeDown (genesisBlock :: bs) p c := by
  have pLog := (mem_stored represented).mp pMember
  have nonneg := represented.nonneg p pLog
  have below : p.blockHeight.val < 2147483647 := by
    -- The call has computed the height above.
    obtain ⟨childrenHeight, added, _⟩ := bind_eq_ok_iff.mp down
    have value := CInt.checked_eq_ok_iff.mp added
    have upper := childrenHeight.upper
    rw [CInt.val_one, Block.getBlockHeight] at value
    omega
  rw [getChildrenPointers_eq represented nonneg below, Except.ok.injEq] at down
  subst down
  obtain ⟨cMember, accepted⟩ := List.mem_filter.mp listed
  have shares : p.SharesParentId c := of_decide_eq_true accepted
  have storedC := storedAt_of_mem represented cMember
  rw [← shares.1] at storedC
  refine ⟨storedC, ?_⟩
  have up := getParent_eq_earliest represented cMember
  cases answer : earliestParent (genesisBlock :: bs) c with
  | none =>
    -- `p` itself is accepted.
    have rejected := List.find?_eq_none.mp answer
    obtain ⟨source, member, copied⟩ := List.mem_map.mp pLog
    subst copied
    exact absurd (decide_eq_true (Block.isChild_true_iff.mpr shares)) (rejected source member)
  | some source =>
    rw [answer, Option.map_some] at up
    have edge := edgeUp_of_getParent represented cMember up
    have sameHeight : c.blockHeight.val - 1 = p.blockHeight.val := by
      have oneAbove := shares.1
      omega
    refine ⟨source, rfl, up, ?_, edge.listed⟩
    rw [← sameHeight]
    exact edge.stored

/-- In every chain grown from the genesis block, with repeats, forks and gaps: the
    two predicates are mirrored, the parent of a stored block lists it, and a listed
    child leads back to the earliest parent at that height, which lists it too.  For
    a stored block `GetParent` always returns, and `GetChildrenPointers` whenever
    there is a height above. -/
theorem traversals_agree (bs : List Block) (chain : Blockchain)
    (heights : ∀ block ∈ bs, 0 ≤ block.blockHeight.val) (grown : grow bs = .ok chain) :
    (∀ a b : Block, 0 ≤ a.blockHeight.val → a.blockHeight.val < 2147483647 →
      0 ≤ b.blockHeight.val → b.blockHeight.val < 2147483647 →
        ∃ answer, a.isParent b = .ok answer ∧ b.isChild a = .ok answer) ∧
    (∀ c ∈ chain.stored, (∃ answer, chain.getParent c = .ok answer) ∧
      ∀ p, chain.getParent c = .ok (some p) → chain.EdgeUp c p) ∧
    (∀ p ∈ chain.stored,
      (p.blockHeight.val < 2147483647 → ∃ children, chain.getChildrenPointers p = .ok children) ∧
      ∀ children, chain.getChildrenPointers p = .ok children → ∀ c ∈ children,
        chain.EdgeDown (genesisBlock :: bs) p c) := by
  have represented := Represents.of_grow heights grown
  refine ⟨?_, ?_, ?_⟩
  · intro a b _ belowA nonnegB _
    exact ⟨_, Block.isParent_eq (by omega), Block.isChild_eq belowA⟩
  · intro c member
    exact ⟨⟨_, getParent_eq_earliest represented member⟩,
      fun p up => edgeUp_of_getParent represented member up⟩
  · intro p member
    constructor
    · intro below
      have nonneg := represented.nonneg p ((mem_stored represented).mp member)
      exact ⟨_, getChildrenPointers_eq represented nonneg below⟩
    · intro children down c listed
      exact edgeDown_of_listed represented member down listed

/-- A fork above a gap: both blocks of height 2 accept the one of height 3. -/
theorem traversals_agree_fork :
    ∃ chain, grow [lineageBlock (CInt.lit 2) (CInt.lit 5) (CInt.lit 1),
        lineageBlock (CInt.lit 2) (CInt.lit 6) (CInt.lit 1),
        lineageBlock (CInt.lit 3) (CInt.lit 7) (CInt.lit 1)] = .ok chain ∧
      chain.EdgeDown
        [genesisBlock, lineageBlock (CInt.lit 2) (CInt.lit 5) (CInt.lit 1),
          lineageBlock (CInt.lit 2) (CInt.lit 6) (CInt.lit 1),
          lineageBlock (CInt.lit 3) (CInt.lit 7) (CInt.lit 1)]
        (lineageBlock (CInt.lit 2) (CInt.lit 6) (CInt.lit 1))
        (lineageBlock (CInt.lit 3) (CInt.lit 7) (CInt.lit 1)) := by
  refine ⟨_, rfl, ?_⟩
  obtain ⟨_, _, down⟩ := traversals_agree
    [lineageBlock (CInt.lit 2) (CInt.lit 5) (CInt.lit 1),
      lineageBlock (CInt.lit 2) (CInt.lit 6) (CInt.lit 1),
      lineageBlock (CInt.lit 3) (CInt.lit 7) (CInt.lit 1)] _ (by decide) rfl
  exact (down (lineageBlock (CInt.lit 2) (CInt.lit 6) (CInt.lit 1)) (by decide)).2
    [lineageBlock (CInt.lit 3) (CInt.lit 7) (CInt.lit 1)] (by decide) _ (by decide)

end Blockchain

end Ns3Blockchain
