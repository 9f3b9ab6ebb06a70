import Ns3Blockchain.Verified.JsonReader
import Ns3Blockchain.Verified.Writer

/-! # Written documents

What the writer prints for a value is a text of that value, so the reader gives the
value back.  Doubles are the exception: of a printed `double` the reader makes what its
own conversion makes of the text.
-/

namespace Ns3Blockchain.Rapidjson

open Library

/-! ## Strings -/

theorem hexDigit_hexDigits {n : Nat} (small : n < 16) : HexDigit (hexDigits.getD n '0') n := by
  have table : ∀ n : Fin 16, HexDigit (hexDigits.getD n '0') n := by decide
  exact table ⟨n, small⟩

theorem codepointBytes_ascii {n : Nat} (ascii : n < 0x80) : codepointBytes n = [Char.ofNat n] :=
  if_pos ascii

theorem charText_escape (c : Char) : CharText (escape c) [c] := by
  have named {n : Nat} {e : Char} (code : c.toNat = n)
      (escaped : (e, Char.ofNat n) ∈ namedEscapes) : CharText ['\\', e] [c] := by
    rw [← Char.ofNat_toNat c, code]
    exact .escape (.char escaped)
  unfold escape
  split
  next control =>
    split
    -- The control characters with a name of their own: backspace, tab, line feed, form feed, return.
    next code => exact named code (by decide)
    next code => exact named code (by decide)
    next code => exact named code (by decide)
    next code => exact named code (by decide)
    next code => exact named code (by decide)
    next =>
      -- The others are `\u00XX`, and no surrogate.
      have zero : HexDigit '0' 0 := .inl rfl
      have upper : c.toNat / 16 < 16 := by omega
      have lower : c.toNat % 16 < 16 := Nat.mod_lt _ (by decide)
      have text := HexText.digits zero zero (hexDigit_hexDigits upper) (hexDigit_hexDigits lower)
      rw [show 4096 * 0 + 256 * 0 + 16 * (c.toNat / 16) + c.toNat % 16 = c.toNat by omega] at text
      have noLead : ¬ Lead c.toNat := fun lead => by
        have bound := lead.1
        omega
      have escaped := CharText.escape (.unicode (.single text noLead))
      rw [codepointBytes_ascii (by omega), Char.ofNat_toNat] at escaped
      exact escaped
  next printable =>
    split
    next special =>
      obtain rfl | rfl := special
      · exact .escape (.char (by decide))
      · exact .escape (.char (by decide))
    next plain =>
      rw [not_or] at plain
      exact .plain (Nat.le_of_not_lt printable) plain.1 plain.2

theorem charsText_escape (s : Str) : CharsText (s.flatMap escape) s := by
  induction s with
  | nil => exact .nil
  | cons c s inductionHypothesis => exact .cons (charText_escape c) inductionHypothesis

theorem stringText_writeString (s : Str) : StringText (writeString s) s :=
  .quoted (charsText_escape s)

/-! ## Integers -/

theorem intDigits_toDigits (n : Nat) : IntDigits (Nat.toDigits 10 n) where
  nonempty := Nat.toDigits_ne_nil
  allDigits _ member := Decimal.isDigit_of_mem_toDigits member
  noLeadingZero zero := by
    rw [Decimal.eq_zero_of_head?_toDigits zero]
    rfl

theorem exists_signed (z : Int) :
    ∃ minus digits, IntDigits digits ∧ Decimal.print z = signText minus ++ digits ∧
      signed minus digits = z := by
  unfold Decimal.print
  split
  next negative =>
    refine ⟨true, _, intDigits_toDigits z.natAbs, rfl, ?_⟩
    rw [signed, Nat.ofDigitChars_ten_toDigits, if_pos rfl]
    omega
  next nonneg =>
    refine ⟨false, _, intDigits_toDigits z.natAbs, rfl, ?_⟩
    rw [signed, Nat.ofDigitChars_ten_toDigits, if_neg Bool.false_ne_true]
    omega

/-! ## Values -/

namespace Value

mutual

/-- The value with every `double` changed. -/
def mapDouble (f : ℚ → ℚ) : Value → Value
  | .double d => .double (f d)
  | .array elements => .array (mapElements f elements)
  | .object members => .object (mapMembers f members)
  | .null => .null
  | .bool b => .bool b
  | .int z => .int z
  | .string s => .string s

def mapElements (f : ℚ → ℚ) : List Value → List Value
  | [] => []
  | element :: elements => element.mapDouble f :: mapElements f elements

def mapMembers (f : ℚ → ℚ) : List (Str × Value) → List (Str × Value)
  | [] => []
  | (name, value) :: members => (name, value.mapDouble f) :: mapMembers f members

end

mutual

/-- The doubles of a value, in the order they are printed. -/
def doubles : Value → List ℚ
  | .double d => [d]
  | .array elements => elementDoubles elements
  | .object members => memberDoubles members
  | .null | .bool _ | .int _ | .string _ => []

def elementDoubles : List Value → List ℚ
  | [] => []
  | element :: elements => element.doubles ++ elementDoubles elements

def memberDoubles : List (Str × Value) → List ℚ
  | [] => []
  | (_, value) :: members => value.doubles ++ memberDoubles members

end

end Value

section

variable {strtod : Str → Option ℚ} {dtoa : ℚ → Str} {f : ℚ → ℚ}

/-- Without a blank between two tokens. -/
theorem blank_nil : Blank [] := by
  intro c member
  cases member

theorem valueText_print {z : Int} (fits : FitsInt64 z) :
    ValueText strtod (Decimal.print z) (.int z) := by
  obtain ⟨minus, digits, isInt, text, value⟩ := exists_signed z
  rw [← value] at fits
  rw [text, ← value]
  exact .number (.int isInt fits)

variable (strtod dtoa f) in
/-- What is printed for `d` is read as `f d`. -/
def Reads (d : ℚ) : Prop := NumberText strtod (dtoa d) (.double (f d))

mutual

theorem valueText_write : ∀ value : Value, value.Fits →
    (∀ d ∈ value.doubles, Reads strtod dtoa f d) →
    ValueText strtod (write dtoa value) (value.mapDouble f)
  | .null, _, _ => .null
  | .bool true, _, _ => .true
  | .bool false, _, _ => .false
  | .int _, fits, _ => valueText_print fits
  | .double d, _, reads => .number (reads d (List.mem_singleton_self d))
  | .string s, _, _ => .string (stringText_writeString s)
  | .array [], _, _ => .emptyArray blank_nil
  | .array (element :: elements), fits, reads =>
    .array blank_nil (elementsText_write (element :: elements) (List.cons_ne_nil _ _) fits reads)
  | .object [], _, _ => .emptyObject blank_nil
  | .object (entry :: members), fits, reads =>
    .object blank_nil (membersText_write (entry :: members) (List.cons_ne_nil _ _) fits reads)

theorem elementsText_write : ∀ elements : List Value, elements ≠ [] →
    Value.ElementsFit elements → (∀ d ∈ Value.elementDoubles elements, Reads strtod dtoa f d) →
    ElementsText strtod (writeElements dtoa elements) (Value.mapElements f elements)
  | [], nonempty, _, _ => absurd rfl nonempty
  | [element], _, fit, reads => by
    have first := valueText_write element fit.1 fun d member =>
      reads d (List.mem_append_left _ member)
    have last := ElementsText.last first blank_nil
    rwa [List.append_nil] at last
  | element :: next :: elements, _, fit, reads => by
    have first := valueText_write element fit.1 fun d member =>
      reads d (List.mem_append_left _ member)
    have others := elementsText_write (next :: elements) (List.cons_ne_nil _ _) fit.2 fun d member =>
      reads d (List.mem_append_right _ member)
    have more := ElementsText.cons first blank_nil blank_nil others
    simpa [writeElements, Value.mapElements] using more

theorem membersText_write : ∀ members : List (Str × Value), members ≠ [] →
    Value.MembersFit members → (∀ d ∈ Value.memberDoubles members, Reads strtod dtoa f d) →
    MembersText strtod (writeMembers dtoa members) (Value.mapMembers f members)
  | [], nonempty, _, _ => absurd rfl nonempty
  | [(name, value)], _, fit, reads => by
    have first := valueText_write value fit.1 fun d member =>
      reads d (List.mem_append_left _ member)
    have last := MembersText.last (stringText_writeString name) blank_nil blank_nil first blank_nil
    simpa [writeMembers, Value.mapMembers] using last
  | (name, value) :: next :: members, _, fit, reads => by
    have first := valueText_write value fit.1 fun d member =>
      reads d (List.mem_append_left _ member)
    have others := membersText_write (next :: members) (List.cons_ne_nil _ _) fit.2 fun d member =>
      reads d (List.mem_append_right _ member)
    have more := MembersText.cons (stringText_writeString name) blank_nil blank_nil first blank_nil
      blank_nil others
    simpa [writeMembers, Value.mapMembers] using more

end

theorem jsonText_write {value : Value} (fits : value.Fits)
    (reads : ∀ d ∈ value.doubles, Reads strtod dtoa f d) :
    JsonText strtod (write dtoa value) (value.mapDouble f) := by
  have document := JsonText.document blank_nil (valueText_write value fits reads) blank_nil
  simpa using document

end

/-! ## Read values -/

section

variable {strtod : Str → Option ℚ}

theorem NumberText.fits {text : Str} {value : Value} (isNumber : NumberText strtod text value) :
    value.Fits := by
  cases isNumber with
  | int _ fits => exact fits
  | double _ _ _ _ _ => exact trivial

mutual

theorem ValueText.fits {text : Str} {value : Value} : ValueText strtod text value → value.Fits
  | .null => trivial
  | .true => trivial
  | .false => trivial
  | .number isNumber => isNumber.fits
  | .string _ => trivial
  | .emptyArray _ => trivial
  | .array _ inside => inside.fit
  | .emptyObject _ => trivial
  | .object _ inside => inside.fit

theorem ElementsText.fit {text : Str} {values : List Value} :
    ElementsText strtod text values → Value.ElementsFit values
  | .last first _ => ⟨first.fits, trivial⟩
  | .cons first _ _ others => ⟨first.fits, others.fit⟩

theorem MembersText.fit {text : Str} {members : List (Str × Value)} :
    MembersText strtod text members → Value.MembersFit members
  | .last _ _ _ first _ => ⟨first.fits, trivial⟩
  | .cons _ _ _ first _ _ others => ⟨first.fits, others.fit⟩

end

theorem JsonText.fits {text : Str} {value : Value} (isText : JsonText strtod text value) :
    value.Fits := by
  cases isText with
  | document _ root _ => exact root.fits

end

/-! ## Main results -/

namespace Document

theorem parse_of_text {strtod : Str → Option ℚ} {text : Str} {value : Value}
    (isText : JsonText strtod text value) : parse strtod text = .ok (some value) := by
  refine parse_text strtod ?_
  rwa [Str.cStr_of_nulFree isText.nulFree]

theorem parse_write {strtod : Str → Option ℚ} {dtoa : ℚ → Str} {f : ℚ → ℚ} {value : Value}
    (fits : value.Fits) (reads : ∀ d ∈ value.doubles, Reads strtod dtoa f d) :
    parse strtod (write dtoa value) = .ok (some (value.mapDouble f)) :=
  parse_of_text (jsonText_write fits reads)

/-- `Accept` on a new `Writer` returns `true` for a value, and the buffer is read back as
    the value, but for what the two conversions do to its doubles. -/
theorem parse_accept (strtod : Str → Option ℚ) (dtoa : ℚ → Str) (f : ℚ → ℚ) (value : Value)
    (fits : value.Fits) (reads : ∀ d ∈ value.doubles, Reads strtod dtoa f d) :
    ∃ writer, Writer.accept dtoa value.tree Writer.new = .ok (true, writer) ∧
      parse strtod writer.os = .ok (some (value.mapDouble f)) :=
  ⟨_, Writer.accept_tree dtoa fits, parse_write fits reads⟩

/-- A conversion that knows the text of one half only. -/
def strtodHalf (text : Str) : Option ℚ := if text = "0.5".toList then some (1 / 2) else none

theorem reads_half {d : ℚ} (half : d = 1 / 2) :
    Reads strtodHalf Writer.dtoaHalf (fun d => d) d := by
  subst half
  have printed : Writer.dtoaHalf (1 / 2) = "0.5".toList := if_pos rfl
  have read : strtodHalf "0.5".toList = some (1 / 2) := if_pos rfl
  rw [Reads, printed]
  exact @NumberText.double _ false ['0'] ['.', '5'] [] _ ⟨by decide, by simp, by decide⟩
    (.present ⟨by decide, by simp⟩) .absent (.inr (.inl (by decide))) read

/-- An escaped name over a number of each kind. -/
def kinds : Value :=
  .object [("\"\\\n".toList, .array [.int (-9223372036854775808), .double (1 / 2)])]

theorem parse_accept_kinds :
    ∃ writer, Writer.accept Writer.dtoaHalf kinds.tree Writer.new = .ok (true, writer) ∧
      parse strtodHalf writer.os = .ok (some kinds) :=
  parse_accept _ _ (fun d => d) kinds ⟨⟨⟨by decide, by decide⟩, trivial, trivial⟩, trivial⟩
    fun _ member => reads_half (List.mem_singleton.mp member)

end Document

end Ns3Blockchain.Rapidjson
