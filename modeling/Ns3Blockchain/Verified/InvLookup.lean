import Ns3Blockchain.Verified.InvTables

/-! # Heights from the wire

The height of an inventory item is whatever `atoi` makes of a peer's text, and
`HasBlock` compares it with the top only.  A negative height therefore indexes a
row that is not there; every other one is answered from the log.
-/

namespace Ns3Blockchain

open Library Library.RankedLog Rapidjson

namespace Blockchain

variable {chain : Blockchain} {log : List Block}

theorem hasBlockAt_negative (represented : chain.Represents log) {height : CInt} (minerId : CInt)
    (negative : height.val < 0) : chain.hasBlockAt height minerId = .error .rowOutOfRange := by
  obtain ⟨top, found, topEq⟩ := represented.top
  have nonneg := represented.nonneg top (leader_mem found)
  have notAbove : ¬ top.getBlockHeight < height := by
    rw [BoundedInt.lt_def, Block.getBlockHeight]
    omega
  rw [hasBlockAt, topEq, ok_bind, if_neg notAbove, represented.rowAt_outside (by omega)]
  rfl

end Blockchain

namespace BlockchainNode

/-- An `INV` message with any list of strings as its items. -/
def StringInv (document : Value) : Prop :=
  document.findMember "message".toList = some (.int Messages.inv.code) ∧
    ReadsArray document "inv".toList InvShape

/-- The known-block test of a message indexes no missing row, and at a node that
    makes it `HasBlock` decides the key of every item. -/
structure KnownTestSafe (env : External) (ipv4 : Ipv4Address) (port : UInt16) (now : ℚ)
    (document : Value) (run : NodeRun) : Prop where
  dispatched : Avoids .rowOutOfRange (dispatch env ipv4 port now document run)
  decides : run.node.committerType ≠ .client → ∀ element ∈ inventory document,
    run.node.blockchain.hasBlockAt (decodeInv env (itemText element)).1
        (decodeInv env (itemText element)).2 =
      .ok (decide (∃ block ∈ run.node.blockchain.stored,
        block.blockHeight = (decodeInv env (itemText element)).1 ∧
          block.minerId = (decodeInv env (itemText element)).2))

variable {env : External}

theorem StringInv.items {document : Value} (strings : StringInv document) :
    ∀ element ∈ inventory document, InvShape element := by
  obtain ⟨_, elements, there, shaped⟩ := strings
  rw [inventory, there]
  exact shaped

theorem invItem_negative {log : List Block} {scan : InvScan}
    (represented : scan.node.blockchain.Represents log) (sender : Address) {s : Str}
    (negative : (decodeInv env s.cStr).1.val < 0) :
    invItem env sender scan (.string s) = .error .rowOutOfRange := by
  have isString : (Value.string s).getString = .ok s := rfl
  rw [invItem, isString, ok_bind]
  dsimp only
  rw [alreadyKnown, Blockchain.hasBlockAt_negative represented _ negative, error_bind, error_bind]

/-- The item loop goes wrong at the first negative height, and only there. -/
theorem avoids_itemLoop_iff {log : List Block} {sender : Address} {scan : InvScan}
    (represented : scan.node.blockchain.Represents log) {elements : List Value}
    (strings : ∀ element ∈ elements, InvShape element) :
    Avoids .rowOutOfRange (foldChecked (invItem env sender) scan elements) ↔
      ∀ element ∈ elements, 0 ≤ (decodeInv env (itemText element)).1.val := by
  induction elements generalizing scan with
  | nil => simp
  | cons element elements inductionHypothesis =>
    obtain ⟨s, rfl⟩ := strings element List.mem_cons_self
    have others := fun other member => strings other (List.mem_cons_of_mem _ member)
    rw [foldChecked, List.forall_mem_cons, itemText]
    by_cases nonneg : 0 ≤ (decodeInv env s.cStr).1.val
    · obtain ⟨sameChain, _⟩ := afterItem_frame env sender scan s.cStr
      rw [invItem_eq represented sender nonneg, ok_bind,
        inductionHypothesis (by rw [sameChain]; exact represented) others]
      exact (and_iff_right nonneg).symm
    · rw [invItem_negative represented sender (by omega), error_bind, avoids_error_iff]
      exact iff_of_false (fun differs => differs rfl) fun all => nonneg all.1

theorem avoids_dispatch_inv_iff {log : List Block} {document : Value} {run : NodeRun}
    (represented : run.node.blockchain.Represents log) (strings : StringInv document)
    (peer : run.node.committerType ≠ .client) (ipv4 : Ipv4Address) (port : UInt16) (now : ℚ) :
    Avoids .rowOutOfRange (dispatch env ipv4 port now document run) ↔
      ∀ element ∈ inventory document, 0 ≤ (decodeInv env (itemText element)).1.val := by
  obtain ⟨_, there, _⟩ := strings.2
  have start : (invStart (inventory document).length run).node.blockchain.Represents log :=
    represented
  rw [dispatch_inv env strings.1, caseInv_eq there _ peer,
    ← @avoids_itemLoop_iff env log (.inetSocket ipv4 port) _ start _ strings.items]
  -- What follows the loop cannot make up for a fault in it, nor add one.
  constructor
  · intro safe fault
    rw [fault] at safe
    exact safe rfl
  · intro safe
    refine avoids_bind (avoids_bind safe fun scan _ => ?_) fun scan _ => avoids_ok _ _
    exact avoids_requestFrom (isObject_of_message strings.1) _ scan

/-- For every chain the calls reach and every `INV` message of strings: the
    known-block test stays in the rows and is right about every item exactly when
    the node is a `CLIENT`, which does not make it, or no item decodes to a negative
    height. -/
theorem wire_lookups_safe_iff (env : External) (ipv4 : Ipv4Address) (port : UInt16) (now : ℚ)
    (document : Value) (run : NodeRun) (strings : StringInv document)
    (grown : ∃ operations,
      (∀ block ∈ Blockchain.addedBlocks operations, 0 ≤ block.blockHeight.val) ∧
      Blockchain.reach operations = .ok run.node.blockchain) :
    KnownTestSafe env ipv4 port now document run ↔
      run.node.committerType = .client ∨
        ∀ element ∈ inventory document, 0 ≤ (decodeInv env (itemText element)).1.val := by
  obtain ⟨operations, heights, reached⟩ := grown
  have represented := Blockchain.Represents.of_reach heights reached
  by_cases client : run.node.committerType = .client
  · refine iff_of_true ⟨?_, fun peer => absurd client peer⟩ (.inl client)
    rw [dispatch_inv env strings.1, caseInv, if_pos client]
    exact avoids_ok _ _
  · rw [or_iff_right client, ← avoids_dispatch_inv_iff represented strings client ipv4 port now]
    constructor
    · intro safe
      exact safe.dispatched
    · intro safe
      refine ⟨safe, fun peer element member => ?_⟩
      have nonneg := (avoids_dispatch_inv_iff represented strings peer ipv4 port now).mp safe
      rw [Blockchain.hasBlockAt_eq represented _ (nonneg element member)]
      simp only [Blockchain.mem_stored represented]

/-- Texts without a `/`, with a sign and with letters. -/
def oddItems : List Str := ["0/0".toList, "+7".toList, "2x/9".toList]

theorem wire_lookups_safe_iff_odd :
    KnownTestSafe (knowing []) ⟨1⟩ 8333 0 (invDocument oddItems)
      { node := idle 0 .standardProtocol .committer, trace := [] } := by
  refine (wire_lookups_safe_iff (knowing []) ⟨1⟩ 8333 0 (invDocument oddItems) _ ?_ ?_).mpr (.inr ?_)
  · refine ⟨rfl, _, rfl, fun element member => ?_⟩
    obtain ⟨s, _, same⟩ := List.mem_map.mp member
    exact ⟨s, same.symm⟩
  · exact ⟨[], by simp [Blockchain.addedBlocks], rfl⟩
  · intro element member
    obtain ⟨s, listed, same⟩ := List.mem_map.mp member
    subst same
    exact (by decide : ∀ s ∈ oddItems, 0 ≤ (decodeInv (knowing []) s.cStr).1.val) s listed

/-- One item with a minus sign. -/
theorem wire_lookup_leaves_range :
    dispatch (knowing []) ⟨1⟩ 8333 0 (invDocument ["-1/0".toList])
        { node := idle 0 .standardProtocol .committer, trace := [] } = .error .rowOutOfRange ∧
      ¬ KnownTestSafe (knowing []) ⟨1⟩ 8333 0 (invDocument ["-1/0".toList])
        { node := idle 0 .standardProtocol .committer, trace := [] } := by
  have fault : dispatch (knowing []) ⟨1⟩ 8333 0 (invDocument ["-1/0".toList])
      { node := idle 0 .standardProtocol .committer, trace := [] } = .error .rowOutOfRange := rfl
  exact ⟨fault, fun safe => safe.dispatched fault⟩

end BlockchainNode

end Ns3Blockchain
