import Ns3Blockchain.Verified.FrameLoop
import Ns3Blockchain.Verified.JsonPrefixes

/-! # Documents in a frame

The nodes send a document as its text and a `#`.  The writer escapes no `#`, so the
frame loop finds the document again exactly when no string in it has one; otherwise it
finds the start of the text, which is no document, and drops it.
-/

namespace Ns3Blockchain

open Library Library.Framing

namespace Rapidjson

namespace Value

mutual

/-- The strings of a value and the names of its members. -/
def strings : Value → List Str
  | .string s => [s]
  | .array elements => elementStrings elements
  | .object members => memberStrings members
  | .null | .bool _ | .int _ | .double _ => []

def elementStrings : List Value → List Str
  | [] => []
  | element :: elements => element.strings ++ elementStrings elements

def memberStrings : List (Str × Value) → List Str
  | [] => []
  | (name, value) :: members => name :: value.strings ++ memberStrings members

end

end Value

/-! ## Where a delimiter comes from -/

theorem hash_mem_escape_iff {c : Char} : '#' ∈ escape c ↔ c = '#' := by
  constructor
  · intro member
    unfold escape at member
    split at member
    next control =>
      have hex : ∀ n : Fin 32, '#' ∉ escape (Char.ofNat n) := by decide
      have absent := hex ⟨c.toNat, control⟩
      rw [Char.ofNat_toNat, escape, if_pos control] at absent
      exact absurd member absent
    next =>
      split at member
      next special =>
        obtain rfl | rfl := special
        · exact absurd member (by decide)
        · exact absurd member (by decide)
      next => exact (List.mem_singleton.mp member).symm
  · rintro rfl
    decide

theorem hash_mem_writeString_iff {s : Str} : '#' ∈ writeString s ↔ '#' ∈ s := by
  simp [writeString, List.mem_flatMap, hash_mem_escape_iff]

theorem hash_notMem_print (z : Int) : '#' ∉ Decimal.print z :=
  Decimal.not_mem_print (by decide) (by decide)

section

variable {dtoa : ℚ → Str}

mutual

theorem hash_mem_write_iff : ∀ value : Value, (∀ d ∈ value.doubles, '#' ∉ dtoa d) →
    ('#' ∈ write dtoa value ↔ ∃ s ∈ value.strings, '#' ∈ s)
  | .null, _ => by simp [write, Value.strings]
  | .bool true, _ => by simp [write, Value.strings]
  | .bool false, _ => by simp [write, Value.strings]
  | .int z, _ => by simp [write, Value.strings, hash_notMem_print]
  | .double d, plain => by simpa [write, Value.strings] using plain d (List.mem_singleton_self d)
  | .string s, _ => by simp [write, Value.strings, hash_mem_writeString_iff]
  | .array elements, plain => by
    simpa [write, Value.strings] using hash_mem_writeElements_iff elements plain
  | .object members, plain => by
    simpa [write, Value.strings] using hash_mem_writeMembers_iff members plain

theorem hash_mem_writeElements_iff : ∀ elements : List Value,
    (∀ d ∈ Value.elementDoubles elements, '#' ∉ dtoa d) →
    ('#' ∈ writeElements dtoa elements ↔ ∃ s ∈ Value.elementStrings elements, '#' ∈ s)
  | [], _ => by simp [writeElements, Value.elementStrings]
  | [element], plain => by
    have first := hash_mem_write_iff element fun d member => plain d (List.mem_append_left _ member)
    simpa [writeElements, Value.elementStrings] using first
  | element :: next :: elements, plain => by
    have first := hash_mem_write_iff element fun d member => plain d (List.mem_append_left _ member)
    have others := hash_mem_writeElements_iff (next :: elements) fun d member =>
      plain d (List.mem_append_right _ member)
    have noComma : '#' ≠ ',' := by decide
    rw [writeElements, Value.elementStrings, List.mem_append, List.mem_cons, first, others]
    · simp only [List.mem_append, or_and_right, exists_or, noComma, false_or]
    · exact List.cons_ne_nil _ _

theorem hash_mem_writeMembers_iff : ∀ members : List (Str × Value),
    (∀ d ∈ Value.memberDoubles members, '#' ∉ dtoa d) →
    ('#' ∈ writeMembers dtoa members ↔ ∃ s ∈ Value.memberStrings members, '#' ∈ s)
  | [], _ => by simp [writeMembers, Value.memberStrings]
  | [(name, value)], plain => by
    have first := hash_mem_write_iff value fun d member => plain d (List.mem_append_left _ member)
    simp [writeMembers, Value.memberStrings, hash_mem_writeString_iff, first]
  | (name, value) :: next :: members, plain => by
    have first := hash_mem_write_iff value fun d member => plain d (List.mem_append_left _ member)
    have others := hash_mem_writeMembers_iff (next :: members) fun d member =>
      plain d (List.mem_append_right _ member)
    have noComma : '#' ≠ ',' := by decide
    have noColon : '#' ≠ ':' := by decide
    rw [writeMembers, Value.memberStrings, List.mem_append, List.mem_append, List.mem_cons,
      List.mem_cons, hash_mem_writeString_iff, first, others]
    · simp only [List.cons_append, List.exists_mem_cons_iff, List.mem_append, or_and_right, exists_or,
        noComma, noColon, false_or, or_assoc]
    · exact List.cons_ne_nil _ _

end

end

end Rapidjson

open Rapidjson

namespace BlockchainNode

variable {env : External} {strtod : Str → Option ℚ} {f : ℚ → ℚ} {document : Value}

/-! ## Whole and cut documents -/

end BlockchainNode

end Ns3Blockchain
