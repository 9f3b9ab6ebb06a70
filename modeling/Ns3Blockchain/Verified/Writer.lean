import Ns3Blockchain.Model.Writer
import Ns3Blockchain.Verified.Itoa

/-! # The writer and the tree

`write` prints a tree by recursion; the program prints it by `Accept`, which calls a
`Writer` that sees one event at a time and places the delimiters by the counts of its
levels.  The two agree on every tree whose integers a `GenericValue` can hold, up to the
first double that is not finite: there `Accept` stops.
-/

namespace Ns3Blockchain.Rapidjson

open Library

namespace Value

mutual

/-- Every integer is in the range of a 64-bit type. -/
def Fits : Value → Prop
  | .int z => FitsInt64 z
  | .array elements => ElementsFit elements
  | .object members => MembersFit members
  | .null | .bool _ | .double _ | .string _ => True

def ElementsFit : List Value → Prop
  | [] => True
  | element :: elements => element.Fits ∧ ElementsFit elements

def MembersFit : List (Str × Value) → Prop
  | [] => True
  | (_, value) :: members => value.Fits ∧ MembersFit members

end

end Value

namespace Tree

mutual

/-- The value with numbers in place of the doubles that are not finite. -/
def fill (f : NonFinite → ℚ) : Tree → Value
  | .null => .null
  | .bool b => .bool b
  | .int z => .int z
  | .double d => .double d
  | .nonFinite d => .double (f d)
  | .string s => .string s
  | .array elements => .array (fillElements f elements)
  | .object members => .object (fillMembers f members)

def fillElements (f : NonFinite → ℚ) : List Tree → List Value
  | [] => []
  | element :: elements => element.fill f :: fillElements f elements

def fillMembers (f : NonFinite → ℚ) : List (Str × Tree) → List (Str × Value)
  | [] => []
  | (name, value) :: members => (name, value.fill f) :: fillMembers f members

end

mutual

/-- The first double that is not finite, in the order in which they are printed. -/
def nonFinite? : Tree → Option NonFinite
  | .nonFinite d => some d
  | .array elements => elementsNonFinite? elements
  | .object members => membersNonFinite? members
  | .null | .bool _ | .int _ | .double _ | .string _ => none

def elementsNonFinite? : List Tree → Option NonFinite
  | [] => none
  | element :: elements => element.nonFinite?.or (elementsNonFinite? elements)

def membersNonFinite? : List (Str × Tree) → Option NonFinite
  | [] => none
  | (_, value) :: members => value.nonFinite?.or (membersNonFinite? members)

end

/-- Every integer is in the range of a 64-bit type. -/
def Fits (tree : Tree) : Prop := ∀ f, (tree.fill f).Fits

def isString : Tree → Bool
  | .string _ => true
  | _ => false

mutual

theorem fill_congr : ∀ {tree : Tree}, tree.nonFinite? = none → ∀ f g : NonFinite → ℚ,
    tree.fill f = tree.fill g
  | .null, _, _, _ | .bool _, _, _, _ | .int _, _, _, _ | .double _, _, _, _ | .string _, _, _, _ => rfl
  | .array elements, finite, f, g => congrArg Value.array (@fillElements_congr elements finite f g)
  | .object members, finite, f, g => congrArg Value.object (@fillMembers_congr members finite f g)

theorem fillElements_congr : ∀ {elements : List Tree}, elementsNonFinite? elements = none →
    ∀ f g : NonFinite → ℚ, fillElements f elements = fillElements g elements
  | [], _, _, _ => rfl
  | element :: elements, finite, f, g => by
    obtain ⟨first, others⟩ := Option.or_eq_none_iff.mp finite
    rw [fillElements, fillElements, fill_congr first f g, fillElements_congr others f g]

theorem fillMembers_congr : ∀ {members : List (Str × Tree)}, membersNonFinite? members = none →
    ∀ f g : NonFinite → ℚ, fillMembers f members = fillMembers g members
  | [], _, _, _ => rfl
  | (name, value) :: members, finite, f, g => by
    obtain ⟨first, others⟩ := Option.or_eq_none_iff.mp finite
    rw [fillMembers, fillMembers, fill_congr first f g, fillMembers_congr others f g]

end

end Tree

namespace Value

mutual

/-- A value is a tree. -/
def tree : Value → Tree
  | .null => .null
  | .bool b => .bool b
  | .int z => .int z
  | .double d => .double d
  | .string s => .string s
  | .array elements => .array (treeElements elements)
  | .object members => .object (treeMembers members)

def treeElements : List Value → List Tree
  | [] => []
  | element :: elements => element.tree :: treeElements elements

def treeMembers : List (Str × Value) → List (Str × Tree)
  | [] => []
  | (name, value) :: members => (name, value.tree) :: treeMembers members

end

mutual

theorem fill_tree (f : NonFinite → ℚ) : ∀ value : Value, value.tree.fill f = value
  | .null | .bool _ | .int _ | .double _ | .string _ => rfl
  | .array elements => congrArg Value.array (fillElements_tree f elements)
  | .object members => congrArg Value.object (fillMembers_tree f members)

theorem fillElements_tree (f : NonFinite → ℚ) : ∀ elements : List Value,
    Tree.fillElements f (treeElements elements) = elements
  | [] => rfl
  | element :: elements => by
    rw [treeElements, Tree.fillElements, fill_tree f element, fillElements_tree f elements]

theorem fillMembers_tree (f : NonFinite → ℚ) : ∀ members : List (Str × Value),
    Tree.fillMembers f (treeMembers members) = members
  | [] => rfl
  | (name, value) :: members => by
    rw [treeMembers, Tree.fillMembers, fill_tree f value, fillMembers_tree f members]

end

mutual

theorem nonFinite?_tree : ∀ value : Value, value.tree.nonFinite? = none
  | .null | .bool _ | .int _ | .double _ | .string _ => rfl
  | .array elements => elementsNonFinite?_tree elements
  | .object members => membersNonFinite?_tree members

theorem elementsNonFinite?_tree : ∀ elements : List Value,
    Tree.elementsNonFinite? (treeElements elements) = none
  | [] => rfl
  | element :: elements =>
    Option.or_eq_none_iff.mpr ⟨nonFinite?_tree element, elementsNonFinite?_tree elements⟩

theorem membersNonFinite?_tree : ∀ members : List (Str × Value),
    Tree.membersNonFinite? (treeMembers members) = none
  | [] => rfl
  | (_, value) :: members =>
    Option.or_eq_none_iff.mpr ⟨nonFinite?_tree value, membersNonFinite?_tree members⟩

end

theorem fits_tree {value : Value} (fits : value.Fits) : value.tree.Fits := by
  intro f
  rwa [fill_tree]

end Value

namespace Writer

variable {dtoa : ℚ → Str}

/-! ## One value -/

theorem handle_acceptNumber (writer : Writer) {z : Int} (fits : FitsInt64 z) :
    writer.handle dtoa (Value.acceptNumber z) = writer.putValue false (Decimal.print z) := by
  obtain ⟨lower, upper⟩ := fits
  unfold Value.acceptNumber
  split
  next i found =>
    rw [BoundedInt.ofInt?_eq_some_iff] at found
    rw [handle, i32toa_eq, found]
  next =>
    split
    next range =>
      have value : ((UInt32.ofInt z).toNat : Int) = z := by
        rw [UInt32.ofInt, UInt32.toNat_ofNat']
        omega
      rw [handle, u32toa_eq, ← Decimal.print_natCast, value]
    next =>
      split
      next i64 found =>
        rw [BoundedInt.ofInt?_eq_some_iff] at found
        rw [handle, i64toa_eq, found]
      next missing =>
        rw [BoundedInt.ofInt?_eq_none_iff] at missing
        have value : ((UInt64.ofInt z).toNat : Int) = z := by
          rw [UInt64.ofInt, UInt64.toNat_ofNat']
          omega
        rw [handle, u64toa_eq, ← Decimal.print_natCast, value]

/-! ## Delimiters -/

/-- The delimiter before the next element of an array that has `count`. -/
def comma (count : Nat) : Str := if 0 < count then [','] else []

theorem putPrefix_element (os : Str) (count : Nat) (levels : List Level) (hasRoot isString : Bool) :
    putPrefix ⟨os, ⟨count, true⟩ :: levels, hasRoot⟩ isString =
      .ok ⟨os ++ comma count, ⟨count + 1, true⟩ :: levels, hasRoot⟩ := by
  cases count with
  | zero => simp [putPrefix, comma]
  | succ count => simp [putPrefix, comma]

theorem putPrefix_name (os : Str) (count : Nat) (levels : List Level) (hasRoot : Bool) :
    putPrefix ⟨os, ⟨2 * count, false⟩ :: levels, hasRoot⟩ true =
      .ok ⟨os ++ comma count, ⟨2 * count + 1, false⟩ :: levels, hasRoot⟩ := by
  cases count with
  | zero => simp [putPrefix, comma]
  | succ count => simp [putPrefix, comma]

theorem putPrefix_memberValue (os : Str) (count : Nat) (levels : List Level)
    (hasRoot isString : Bool) :
    putPrefix ⟨os, ⟨2 * count + 1, false⟩ :: levels, hasRoot⟩ isString =
      .ok ⟨os ++ [':'], ⟨2 * (count + 1), false⟩ :: levels, hasRoot⟩ := by
  have odd : (2 * count + 1) % 2 = 1 := by omega
  simp [putPrefix, odd, Nat.mul_add]

/-- The texts of elements as they stand after `count` others. -/
def elementsAfter : Nat → List Str → Str
  | _, [] => []
  | count, text :: texts => comma count ++ text ++ elementsAfter (count + 1) texts

/-- The texts of members, each a name and a value, as they stand after `count` others. -/
def membersAfter : Nat → List (Str × Str) → Str
  | _, [] => []
  | count, (name, text) :: texts =>
    comma count ++ name ++ ':' :: text ++ membersAfter (count + 1) texts

theorem elementsAfter_succ (count : Nat) (texts : List Str) :
    elementsAfter (count + 1) texts = elementsAfter 1 texts := by
  induction texts generalizing count with
  | nil => rfl
  | cons text texts inductionHypothesis =>
    rw [elementsAfter, elementsAfter, inductionHypothesis (count + 1), inductionHypothesis 1]
    rfl

theorem membersAfter_succ (count : Nat) (texts : List (Str × Str)) :
    membersAfter (count + 1) texts = membersAfter 1 texts := by
  induction texts generalizing count with
  | nil => rfl
  | cons entry texts inductionHypothesis =>
    rw [membersAfter, membersAfter, inductionHypothesis (count + 1), inductionHypothesis 1]
    rfl

variable (dtoa) in
def memberTexts (members : List (Str × Value)) : List (Str × Str) :=
  members.map fun entry => (writeString entry.1, write dtoa entry.2)

theorem elementsAfter_zero (elements : List Value) :
    elementsAfter 0 (elements.map (write dtoa)) = writeElements dtoa elements := by
  induction elements with
  | nil => rfl
  | cons element elements inductionHypothesis =>
    rw [List.map_cons, elementsAfter]
    cases elements with
    | nil => simp [elementsAfter, writeElements, comma]
    | cons next elements =>
      rw [writeElements, ← inductionHypothesis, List.map_cons, elementsAfter, elementsAfter,
        elementsAfter_succ 1]
      · simp [comma]
      · simp

theorem membersAfter_zero (members : List (Str × Value)) :
    membersAfter 0 (memberTexts dtoa members) = writeMembers dtoa members := by
  induction members with
  | nil => rfl
  | cons entry members inductionHypothesis =>
    rw [memberTexts, List.map_cons, ← memberTexts, membersAfter]
    cases members with
    | nil => simp [memberTexts, membersAfter, writeMembers, comma]
    | cons next members =>
      rw [writeMembers, ← inductionHypothesis, memberTexts, List.map_cons, ← memberTexts,
        membersAfter, membersAfter, membersAfter_succ 1]
      · simp [comma]
      · simp

/-! ## One call -/

theorem putValue_of_prefix {writer opened : Writer} {isString : Bool} (text : Str)
    (prefixed : writer.putPrefix isString = .ok opened) :
    writer.putValue isString text = .ok { opened with os := opened.os ++ text } := by
  rw [putValue, prefixed]
  rfl

theorem putStart_of_prefix {writer opened : Writer} (inArray : Bool) (bracket : Char)
    (prefixed : writer.putPrefix false = .ok opened) :
    writer.putStart inArray bracket =
      .ok ⟨opened.os ++ [bracket], ⟨0, inArray⟩ :: opened.levelStack, opened.hasRoot⟩ := by
  rw [putStart, prefixed]
  rfl

theorem call_scalar {writer opened : Writer} {event : Event} {isString : Bool} {text : Str}
    (handled : writer.handle dtoa event = writer.putValue isString text)
    (prefixed : writer.putPrefix isString = .ok opened) :
    writer.call dtoa (.event event) = .ok (true, { opened with os := opened.os ++ text }) := by
  rw [call, handled, putValue_of_prefix text prefixed]
  rfl

@[simp] theorem andThen_true (writer : Writer) (next : Writer → Exec (Bool × Writer)) :
    andThen (.ok (true, writer)) next = next writer := rfl

@[simp] theorem andThen_false (writer : Writer) (next : Writer → Exec (Bool × Writer)) :
    andThen (.ok (false, writer)) next = .ok (false, writer) := rfl

theorem call_startArray {writer opened : Writer} (prefixed : writer.putPrefix false = .ok opened) :
    writer.call dtoa (.event .startArray) =
      .ok (true, ⟨opened.os ++ ['['], ⟨0, true⟩ :: opened.levelStack, opened.hasRoot⟩) := by
  rw [call, handle, putStart_of_prefix true '[' prefixed]
  rfl

theorem call_startObject {writer opened : Writer} (prefixed : writer.putPrefix false = .ok opened) :
    writer.call dtoa (.event .startObject) =
      .ok (true, ⟨opened.os ++ ['\x7b'], ⟨0, false⟩ :: opened.levelStack, opened.hasRoot⟩) := by
  rw [call, handle, putStart_of_prefix false '\x7b' prefixed]
  rfl

theorem call_key (name : Str) (os : Str) (count : Nat) (levels : List Level) (hasRoot : Bool) :
    call dtoa ⟨os, ⟨2 * count, false⟩ :: levels, hasRoot⟩ (.event (.key name)) =
      .ok (true, ⟨os ++ comma count ++ writeString name, ⟨2 * count + 1, false⟩ :: levels, hasRoot⟩) :=
  call_scalar rfl (putPrefix_name os count levels hasRoot)

/-! ## Finite trees -/

mutual

/-- The calls for a finite tree add its text where the prefix of the tree left the writer. -/
theorem accept_finite (f : NonFinite → ℚ) : ∀ (tree : Tree), (tree.fill f).Fits →
    tree.nonFinite? = none → ∀ {writer opened : Writer},
    writer.putPrefix tree.isString = .ok opened →
    accept dtoa tree writer = .ok (true, { opened with os := opened.os ++ write dtoa (tree.fill f) })
  | .null, _, _, _, _, prefixed => call_scalar rfl prefixed
  | .bool true, _, _, _, _, prefixed => call_scalar rfl prefixed
  | .bool false, _, _, _, _, prefixed => call_scalar rfl prefixed
  | .int _, fits, _, writer, _, prefixed => call_scalar (handle_acceptNumber writer fits) prefixed
  | .double _, _, _, _, _, prefixed => call_scalar rfl prefixed
  | .string _, _, _, _, _, prefixed => call_scalar rfl prefixed
  | .array elements, fit, finite, writer, opened, prefixed => by
    have body := acceptElements_finite f elements fit finite (opened.os ++ ['[']) 0 opened.levelStack
      opened.hasRoot
    rw [accept, call_startArray prefixed, andThen_true, body, andThen_true]
    simp [call, handle, putEnd, elementsAfter_zero, Tree.fill, write]
  | .object members, fit, finite, writer, opened, prefixed => by
    have body := acceptMembers_finite f members fit finite (opened.os ++ ['\x7b']) 0
      opened.levelStack opened.hasRoot
    rw [accept, call_startObject prefixed, andThen_true, body, andThen_true]
    simp [call, handle, putEnd, membersAfter_zero, Tree.fill, write]

theorem acceptElements_finite (f : NonFinite → ℚ) : ∀ (elements : List Tree),
    Value.ElementsFit (Tree.fillElements f elements) → Tree.elementsNonFinite? elements = none →
    ∀ (os : Str) (count : Nat) (levels : List Level) (hasRoot : Bool),
    acceptElements dtoa elements ⟨os, ⟨count, true⟩ :: levels, hasRoot⟩ =
      .ok (true,
        ⟨os ++ elementsAfter count ((Tree.fillElements f elements).map (write dtoa)),
          ⟨count + elements.length, true⟩ :: levels, hasRoot⟩)
  | [], _, _, os, count, levels, hasRoot => by
    simp [acceptElements, Tree.fillElements, elementsAfter]
  | element :: elements, ⟨fits, fit⟩, finite, os, count, levels, hasRoot => by
    obtain ⟨first, others⟩ := Option.or_eq_none_iff.mp finite
    have head := accept_finite f element fits first
      (putPrefix_element os count levels hasRoot element.isString)
    rw [acceptElements, head, andThen_true, acceptElements_finite f elements fit others]
    simp [Tree.fillElements, elementsAfter, Nat.add_assoc, Nat.add_comm 1]

theorem acceptMembers_finite (f : NonFinite → ℚ) : ∀ (members : List (Str × Tree)),
    Value.MembersFit (Tree.fillMembers f members) → Tree.membersNonFinite? members = none →
    ∀ (os : Str) (count : Nat) (levels : List Level) (hasRoot : Bool),
    acceptMembers dtoa members ⟨os, ⟨2 * count, false⟩ :: levels, hasRoot⟩ =
      .ok (true,
        ⟨os ++ membersAfter count (memberTexts dtoa (Tree.fillMembers f members)),
          ⟨2 * (count + members.length), false⟩ :: levels, hasRoot⟩)
  | [], _, _, os, count, levels, hasRoot => by
    simp [acceptMembers, Tree.fillMembers, memberTexts, membersAfter]
  | (name, value) :: members, ⟨fits, fit⟩, finite, os, count, levels, hasRoot => by
    obtain ⟨first, others⟩ := Option.or_eq_none_iff.mp finite
    have named := accept_finite f value fits first
      (putPrefix_memberValue (os ++ comma count ++ writeString name) count levels hasRoot
        value.isString)
    rw [acceptMembers, call_key, andThen_true, named, andThen_true,
      acceptMembers_finite f members fit others]
    simp [Tree.fillMembers, memberTexts, membersAfter, Nat.add_assoc, Nat.add_comm 1]

end

/-! ## Trees that stop `Accept` -/

/-- Up to the double, the text is that of the tree with any number in its place. -/
def EndsBefore (dtoa : ℚ → Str) (d : NonFinite) (text : Str) (whole : (NonFinite → ℚ) → Str) : Prop :=
  ∀ f, ∃ rest, text ++ dtoa (f d) ++ rest = whole f

theorem EndsBefore.within {d : NonFinite} {text : Str} {whole : (NonFinite → ℚ) → Str}
    (ends : EndsBefore dtoa d text whole) (before : Str) (after : (NonFinite → ℚ) → Str) :
    EndsBefore dtoa d (before ++ text) fun f => before ++ whole f ++ after f := by
  intro f
  obtain ⟨rest, whole⟩ := ends f
  exact ⟨rest ++ after f, by simp [← whole]⟩

mutual

theorem accept_stops : ∀ (tree : Tree), tree.Fits → ∀ {d : NonFinite}, tree.nonFinite? = some d →
    ∀ {writer opened : Writer}, writer.putPrefix tree.isString = .ok opened →
    ∃ text levels, accept dtoa tree writer =
        .ok (false, ⟨opened.os ++ text, levels ++ opened.levelStack, opened.hasRoot⟩) ∧
      (levels = [] ↔ tree = .nonFinite d) ∧
      EndsBefore dtoa d text fun f => write dtoa (tree.fill f)
  | .nonFinite d, _, _, rfl, writer, opened, prefixed => by
    refine ⟨[], [], ?_, iff_of_true rfl rfl, fun f => ⟨[], by simp [Tree.fill, write]⟩⟩
    have stopped : accept dtoa (.nonFinite d) writer = .ok (false, opened) := by
      change (writer.putPrefix false >>= fun writer => .ok (false, writer)) = _
      rw [show writer.putPrefix false = .ok opened from prefixed, ok_bind]
    simpa using stopped
  | .array elements, fits, d, found, writer, opened, prefixed => by
    obtain ⟨text, levels, stopped, nested, ends⟩ := acceptElements_stops elements fits found
      (opened.os ++ ['[']) 0 opened.levelStack opened.hasRoot
    refine ⟨'[' :: text, levels, ?_, iff_of_false nested nofun, ?_⟩
    · rw [accept, call_startArray prefixed, andThen_true, stopped, andThen_false]
      simp
    · simpa [Tree.fill, write, elementsAfter_zero] using ends.within ['['] fun _ => [']']
  | .object members, fits, d, found, writer, opened, prefixed => by
    obtain ⟨text, levels, stopped, nested, ends⟩ := acceptMembers_stops members fits found
      (opened.os ++ ['\x7b']) 0 opened.levelStack opened.hasRoot
    refine ⟨'\x7b' :: text, levels, ?_, iff_of_false nested nofun, ?_⟩
    · rw [accept, call_startObject prefixed, andThen_true, stopped, andThen_false]
      simp
    · simpa [Tree.fill, write, membersAfter_zero] using ends.within ['\x7b'] fun _ => ['\x7d']

theorem acceptElements_stops : ∀ (elements : List Tree),
    (∀ f, Value.ElementsFit (Tree.fillElements f elements)) → ∀ {d : NonFinite},
    Tree.elementsNonFinite? elements = some d →
    ∀ (os : Str) (count : Nat) (below : List Level) (hasRoot : Bool),
    ∃ text levels, acceptElements dtoa elements ⟨os, ⟨count, true⟩ :: below, hasRoot⟩ =
        .ok (false, ⟨os ++ text, levels ++ below, hasRoot⟩) ∧ levels ≠ [] ∧
      EndsBefore dtoa d text fun f =>
        elementsAfter count ((Tree.fillElements f elements).map (write dtoa))
  | element :: elements, fit, d, found, os, count, below, hasRoot => by
    have prefixed := putPrefix_element os count below hasRoot element.isString
    have fits : element.Fits := fun f => (fit f).1
    cases here : element.nonFinite? with
    -- The element holds the number: its own call stops the loop, with the array's level left open.
    | some d' =>
      obtain rfl : d' = d := by simpa [Tree.elementsNonFinite?, here] using found
      obtain ⟨text, levels, stopped, _, ends⟩ := accept_stops element fits here prefixed
      refine ⟨comma count ++ text, levels ++ [⟨count + 1, true⟩], ?_, by simp, ?_⟩
      · rw [acceptElements, stopped, andThen_false]
        simp
      · simpa [Tree.fillElements, elementsAfter] using ends.within (comma count) fun f =>
          elementsAfter (count + 1) ((Tree.fillElements f elements).map (write dtoa))
    -- The element is written whole, and the number stands in a later one; what a hole is filled
    -- with does not change the text of an element without holes.
    | none =>
      have later : Tree.elementsNonFinite? elements = some d := by
        simpa [Tree.elementsNonFinite?, here] using found
      have head (f : NonFinite → ℚ) := @accept_finite dtoa f element (fits f) here _ _ prefixed
      obtain ⟨text, levels, stopped, nested, ends⟩ := acceptElements_stops elements
        (fun f => (fit f).2) later (os ++ comma count ++ write dtoa (element.fill fun _ => 0))
        (count + 1) below hasRoot
      refine ⟨comma count ++ write dtoa (element.fill fun _ => 0) ++ text, levels, ?_, nested, ?_⟩
      · rw [acceptElements, head fun _ => 0, andThen_true, stopped]
        simp
      · intro f
        obtain ⟨rest, whole⟩ := ends f
        dsimp only at whole
        refine ⟨rest, ?_⟩
        simp only [Tree.fillElements, List.map_cons, elementsAfter]
        rw [← whole, Tree.fill_congr here f fun _ => 0]
        simp

theorem acceptMembers_stops : ∀ (members : List (Str × Tree)),
    (∀ f, Value.MembersFit (Tree.fillMembers f members)) → ∀ {d : NonFinite},
    Tree.membersNonFinite? members = some d →
    ∀ (os : Str) (count : Nat) (below : List Level) (hasRoot : Bool),
    ∃ text levels, acceptMembers dtoa members ⟨os, ⟨2 * count, false⟩ :: below, hasRoot⟩ =
        .ok (false, ⟨os ++ text, levels ++ below, hasRoot⟩) ∧ levels ≠ [] ∧
      EndsBefore dtoa d text fun f =>
        membersAfter count (memberTexts dtoa (Tree.fillMembers f members))
  | (name, value) :: members, fit, d, found, os, count, below, hasRoot => by
    have prefixed := putPrefix_memberValue (os ++ comma count ++ writeString name) count below hasRoot
      value.isString
    have fits : value.Fits := fun f => (fit f).1
    cases here : value.nonFinite? with
    -- The value holds the number: its name and colon are out already when `Accept` returns.
    | some d' =>
      obtain rfl : d' = d := by simpa [Tree.membersNonFinite?, here] using found
      obtain ⟨text, levels, stopped, _, ends⟩ := accept_stops value fits here prefixed
      refine ⟨comma count ++ writeString name ++ ':' :: text, levels ++ [⟨2 * (count + 1), false⟩], ?_,
        by simp, ?_⟩
      · rw [acceptMembers, call_key, andThen_true, stopped, andThen_false]
        simp
      · simpa [Tree.fillMembers, memberTexts, membersAfter] using
          ends.within (comma count ++ writeString name ++ [':']) fun f =>
            membersAfter (count + 1) (memberTexts dtoa (Tree.fillMembers f members))
    | none =>
      have later : Tree.membersNonFinite? members = some d := by
        simpa [Tree.membersNonFinite?, here] using found
      have head (f : NonFinite → ℚ) := @accept_finite dtoa f value (fits f) here _ _ prefixed
      obtain ⟨text, levels, stopped, nested, ends⟩ := acceptMembers_stops members
        (fun f => (fit f).2) later
        (os ++ comma count ++ writeString name ++ [':'] ++ write dtoa (value.fill fun _ => 0))
        (count + 1) below hasRoot
      refine ⟨comma count ++ writeString name ++ ':' :: write dtoa (value.fill fun _ => 0) ++ text,
        levels, ?_, nested, ?_⟩
      · rw [acceptMembers, call_key, andThen_true, head fun _ => 0, andThen_true, stopped]
        simp
      · intro f
        obtain ⟨rest, whole⟩ := ends f
        dsimp only [memberTexts] at whole
        refine ⟨rest, ?_⟩
        simp only [Tree.fillMembers, memberTexts, List.map_cons, membersAfter]
        rw [← whole, Tree.fill_congr here f fun _ => 0]
        simp

end

/-! ## Main result -/

theorem putPrefix_new (isString : Bool) : new.putPrefix isString = .ok ⟨[], [], true⟩ := rfl

theorem accept_tree (dtoa : ℚ → Str) {value : Value} (fits : value.Fits) :
    accept dtoa value.tree new = .ok (true, ⟨write dtoa value, [], true⟩) := by
  have finished := @accept_finite dtoa (fun _ => 0) value.tree (Value.fits_tree fits _)
    (Value.nonFinite?_tree value) _ _ (putPrefix_new _)
  rw [Value.fill_tree] at finished
  exact finished

/-- A `dtoa` that knows one half only. -/
def dtoaHalf (d : ℚ) : Str := if d = 1 / 2 then "0.5".toList else []

end Writer

end Ns3Blockchain.Rapidjson
