import Ns3Blockchain.Model.Reader

/-! # The texts of a value

The grammar of the documents the reader accepts, with the value each text stands for.
It is the grammar of JSON on bytes: the characters above ASCII stand for themselves,
and a trailing surrogate may stand alone.  Nothing in it is taken from the reader.
-/

namespace Ns3Blockchain.Rapidjson

/-! ## Tokens -/

/-- The characters that count for nothing between tokens. -/
def blanks : Str := [' ', '\t', '\n', '\r']

def Blank (ws : Str) : Prop := ∀ c ∈ ws, c ∈ blanks

/-- The digits of the base 16, which are read in both cases. -/
def lowerDigits : Str := "0123456789abcdef".toList

def upperDigits : Str := "0123456789ABCDEF".toList

def HexDigit (c : Char) (n : Nat) : Prop := lowerDigits[n]? = some c ∨ upperDigits[n]? = some c

instance (c : Char) (n : Nat) : Decidable (HexDigit c n) := inferInstanceAs (Decidable (_ ∨ _))

/-- Four hexadecimal digits and their number. -/
inductive HexText : Str → Nat → Prop where
  | digits {a b c d : Char} {k l m n : Nat} (first : HexDigit a k) (second : HexDigit b l)
      (third : HexDigit c m) (fourth : HexDigit d n) :
      HexText [a, b, c, d] (4096 * k + 256 * l + 16 * m + n)

/-- The first half of a surrogate pair. -/
def Lead (codepoint : Nat) : Prop := 0xD800 ≤ codepoint ∧ codepoint ≤ 0xDBFF

/-- The second half of a surrogate pair. -/
def Trail (codepoint : Nat) : Prop := 0xDC00 ≤ codepoint ∧ codepoint ≤ 0xDFFF

instance (codepoint : Nat) : Decidable (Lead codepoint) :=
  inferInstanceAs (Decidable (_ ∧ _))

instance (codepoint : Nat) : Decidable (Trail codepoint) :=
  inferInstanceAs (Decidable (_ ∧ _))

/-- What follows `\u`, and its code point. -/
inductive UnicodeText : Str → Nat → Prop where
  | single {hex : Str} {codepoint : Nat} (text : HexText hex codepoint)
      (noLead : ¬ Lead codepoint) : UnicodeText hex codepoint
  | pair {hex hex' : Str} {lead trail : Nat} (text : HexText hex lead) (text' : HexText hex' trail)
      (isLead : Lead lead) (isTrail : Trail trail) :
      UnicodeText (hex ++ '\\' :: 'u' :: hex')
        (0x10000 + 0x400 * (lead - 0xD800) + (trail - 0xDC00))

/-- The characters that may follow a backslash, each with the one it stands for. -/
def namedEscapes : List (Char × Char) :=
  [
    ('"', '"'), ('\\', '\\'), ('/', '/'), ('b', Char.ofNat 8), ('f', Char.ofNat 12), ('n', '\n'),
    ('r', '\r'), ('t', '\t')
  ]

/-- The bytes of a code point in UTF-8: seven bits in one byte, or six in every byte but
    the first, which says how many there are. -/
def codepointBytes (codepoint : Nat) : Str :=
  if codepoint < 0x80 then
    [Char.ofNat codepoint]
  else if codepoint < 0x800 then
    [Char.ofNat (0xC0 + codepoint / 64), Char.ofNat (0x80 + codepoint % 64)]
  else if codepoint < 0x10000 then
    [
      Char.ofNat (0xE0 + codepoint / 4096), Char.ofNat (0x80 + codepoint / 64 % 64),
      Char.ofNat (0x80 + codepoint % 64)
    ]
  else
    [
      Char.ofNat (0xF0 + codepoint / 262144), Char.ofNat (0x80 + codepoint / 4096 % 64),
      Char.ofNat (0x80 + codepoint / 64 % 64), Char.ofNat (0x80 + codepoint % 64)
    ]

/-- What follows a backslash, and the bytes it stands for. -/
inductive EscapeText : Str → Str → Prop where
  | char {e c : Char} (escaped : (e, c) ∈ namedEscapes) : EscapeText [e] [c]
  | unicode {text : Str} {codepoint : Nat} (point : UnicodeText text codepoint) :
      EscapeText ('u' :: text) (codepointBytes codepoint)

/-- One character of a string: its text, and the bytes it stands for. -/
inductive CharText : Str → Str → Prop where
  | plain {c : Char} (printable : 0x20 ≤ c.toNat) (noQuote : c ≠ '"') (noBackslash : c ≠ '\\') :
      CharText [c] [c]
  | escape {text chars : Str} (escaped : EscapeText text chars) : CharText ('\\' :: text) chars

/-- The text between the quotes. -/
inductive CharsText : Str → Str → Prop where
  | nil : CharsText [] []
  | cons {text chars texts rest : Str} (first : CharText text chars)
      (others : CharsText texts rest) : CharsText (text ++ texts) (chars ++ rest)

inductive StringText : Str → Str → Prop where
  | quoted {body str : Str} (chars : CharsText body str) : StringText ('"' :: body ++ ['"']) str

/-! ## Numbers -/

/-- Digits without a leading zero. -/
structure IntDigits (digits : Str) : Prop where
  nonempty : digits ≠ []
  allDigits : ∀ c ∈ digits, c.isDigit = true
  noLeadingZero : digits.head? = some '0' → digits = ['0']

/-- One digit or more. -/
structure Digits (digits : Str) : Prop where
  nonempty : digits ≠ []
  allDigits : ∀ c ∈ digits, c.isDigit = true

inductive FracText : Str → Prop where
  | absent : FracText []
  | present {digits : Str} (isDigits : Digits digits) : FracText ('.' :: digits)

inductive ExpText : Str → Prop where
  | absent : ExpText []
  | present {e : Char} {sign digits : Str} (letter : e = 'e' ∨ e = 'E')
      (isSign : sign = [] ∨ sign = ['+'] ∨ sign = ['-']) (isDigits : Digits digits) :
      ExpText (e :: sign ++ digits)

def signText (minus : Bool) : Str := if minus then ['-'] else []

/-- The integer that a sign and digits stand for. -/
def signed (minus : Bool) (digits : Str) : Int :=
  if minus then -(Nat.ofDigitChars 10 digits 0 : Int) else Nat.ofDigitChars 10 digits 0

section

variable (strtod : Str → Option ℚ)

/-- An integer literal in the range of a 64-bit type is that integer; any other literal
    is a `double`. -/
inductive NumberText : Str → Value → Prop where
  | int {minus : Bool} {digits : Str} (isInt : IntDigits digits)
      (fits : FitsInt64 (signed minus digits)) :
      NumberText (signText minus ++ digits) (.int (signed minus digits))
  | double {minus : Bool} {digits frac exp : Str} {d : ℚ} (isInt : IntDigits digits)
      (isFrac : FracText frac) (isExp : ExpText exp)
      (isDouble : ¬ FitsInt64 (signed minus digits) ∨ frac ≠ [] ∨ exp ≠ [])
      (read : strtod (signText minus ++ digits ++ frac ++ exp) = some d) :
      NumberText (signText minus ++ digits ++ frac ++ exp) (.double d)

/-! ## Values -/

mutual

inductive ValueText : Str → Value → Prop where
  | null : ValueText "null".toList .null
  | true : ValueText "true".toList (.bool true)
  | false : ValueText "false".toList (.bool false)
  | number {text : Str} {value : Value} (isNumber : NumberText strtod text value) :
      ValueText text value
  | string {text str : Str} (isString : StringText text str) : ValueText text (.string str)
  | emptyArray {ws : Str} (blank : Blank ws) : ValueText ('[' :: ws ++ [']']) (.array [])
  | array {ws text : Str} {elements : List Value} (blank : Blank ws)
      (inside : ElementsText text elements) : ValueText ('[' :: ws ++ text ++ [']']) (.array elements)
  | emptyObject {ws : Str} (blank : Blank ws) :
      ValueText ('\x7b' :: ws ++ ['\x7d']) (.object [])
  | object {ws text : Str} {members : List (Str × Value)} (blank : Blank ws)
      (inside : MembersText text members) :
      ValueText ('\x7b' :: ws ++ text ++ ['\x7d']) (.object members)

/-- One element or more, with what stands between the first and the closing bracket. -/
inductive ElementsText : Str → List Value → Prop where
  | last {text ws : Str} {value : Value} (first : ValueText text value) (blank : Blank ws) :
      ElementsText (text ++ ws) [value]
  | cons {text ws ws' texts : Str} {value : Value} {values : List Value}
      (first : ValueText text value) (blank : Blank ws) (blank' : Blank ws')
      (others : ElementsText texts values) :
      ElementsText (text ++ ws ++ ',' :: ws' ++ texts) (value :: values)

/-- One member or more, with what stands between the first and the closing brace. -/
inductive MembersText : Str → List (Str × Value) → Prop where
  | last {name str ws ws' text ws'' : Str} {value : Value} (named : StringText name str)
      (blank : Blank ws) (blank' : Blank ws') (first : ValueText text value)
      (blank'' : Blank ws'') :
      MembersText (name ++ ws ++ ':' :: ws' ++ text ++ ws'') [(str, value)]
  | cons {name str ws ws' text ws'' wsNext texts : Str} {value : Value}
      {members : List (Str × Value)} (named : StringText name str) (blank : Blank ws)
      (blank' : Blank ws') (first : ValueText text value) (blank'' : Blank ws'')
      (blankNext : Blank wsNext) (others : MembersText texts members) :
      MembersText (name ++ ws ++ ':' :: ws' ++ text ++ ws'' ++ ',' :: wsNext ++ texts)
        ((str, value) :: members)

end

/-- The texts of a document. -/
inductive JsonText : Str → Value → Prop where
  | document {ws text ws' : Str} {value : Value} (blank : Blank ws) (root : ValueText strtod text value)
      (blank' : Blank ws') : JsonText (ws ++ text ++ ws') value

end

/-! ## The characters of a text -/

/-- The characters a text is made of: no other control characters than blanks. -/
def TextChar (c : Char) : Prop := 0x20 ≤ c.toNat ∨ c ∈ blanks

instance (c : Char) : Decidable (TextChar c) := inferInstanceAs (Decidable (_ ∨ _))

theorem isDigit_bounds {c : Char} (digit : c.isDigit = true) : 48 ≤ c.toNat ∧ c.toNat ≤ 57 := by
  simpa [Char.isDigit, UInt32.le_iff_toNat_le] using digit

theorem HexDigit.lt {c : Char} {n : Nat} (digit : HexDigit c n) : n < 16 := by
  obtain found | found := digit
  · obtain ⟨inside, _⟩ := List.getElem?_eq_some_iff.mp found
    exact inside
  · obtain ⟨inside, _⟩ := List.getElem?_eq_some_iff.mp found
    exact inside

/-- No code point is beyond the range of Unicode, which the reader asserts. -/
theorem UnicodeText.le {text : Str} {codepoint : Nat} (point : UnicodeText text codepoint) :
    codepoint ≤ 0x10FFFF := by
  cases point with
  | single text _ =>
    cases text with
    | digits first second third fourth =>
      have := first.lt
      have := second.lt
      have := third.lt
      have := fourth.lt
      omega
  | pair _ _ isLead isTrail =>
    have leadUpper := isLead.2
    have trailUpper := isTrail.2
    omega

theorem HexDigit.textChar {c : Char} {n : Nat} (digit : HexDigit c n) : TextChar c := by
  have visible : (lowerDigits ++ upperDigits).all fun c => 0x20 ≤ c.toNat := by decide
  refine .inl (of_decide_eq_true (List.all_eq_true.mp visible c (List.mem_append.mpr ?_)))
  exact digit.imp List.mem_of_getElem? List.mem_of_getElem?

theorem HexText.textChars {hex : Str} {n : Nat} (text : HexText hex n) : ∀ c ∈ hex, TextChar c := by
  cases text with
  | digits first second third fourth =>
    simp only [List.forall_mem_cons]
    exact ⟨first.textChar, second.textChar, third.textChar, fourth.textChar, nofun⟩

theorem EscapeText.textChars {text chars : Str} (escape : EscapeText text chars) :
    ∀ c ∈ text, TextChar c := by
  have mark (c : Char) (visible : 0x20 ≤ c.toNat) : TextChar c := .inl visible
  cases escape with
  | char escaped =>
    have visible : ∀ entry ∈ namedEscapes, 0x20 ≤ entry.1.toNat := by decide
    rw [List.forall_mem_singleton]
    exact mark _ (visible _ escaped)
  | unicode point =>
    cases point with
    | single text _ =>
      rw [List.forall_mem_cons]
      exact ⟨mark 'u' (by decide), text.textChars⟩
    | pair text text' _ _ =>
      simp only [List.forall_mem_cons, List.forall_mem_append]
      exact ⟨mark 'u' (by decide), text.textChars, mark '\\' (by decide), mark 'u' (by decide),
        text'.textChars⟩

theorem CharText.textChars {text chars : Str} (char : CharText text chars) :
    ∀ c ∈ text, TextChar c := by
  cases char with
  | plain printable _ _ =>
    rw [List.forall_mem_singleton]
    exact .inl printable
  | escape escaped =>
    rw [List.forall_mem_cons]
    exact ⟨.inl (by decide), escaped.textChars⟩

theorem CharsText.textChars {text chars : Str} (inside : CharsText text chars) :
    ∀ c ∈ text, TextChar c := by
  induction inside with
  | nil => exact nofun
  | cons first _ inductionHypothesis =>
    rw [List.forall_mem_append]
    exact ⟨first.textChars, inductionHypothesis⟩

theorem StringText.textChars {text str : Str} (isString : StringText text str) :
    ∀ c ∈ text, TextChar c := by
  cases isString with
  | quoted inside =>
    simp only [List.cons_append, List.forall_mem_cons, List.forall_mem_append]
    exact ⟨.inl (by decide), inside.textChars, .inl (by decide), nofun⟩

/-- The characters a number is made of. -/
def NumberChar (c : Char) : Prop :=
  c.isDigit = true ∨ c = '-' ∨ c = '+' ∨ c = '.' ∨ c = 'e' ∨ c = 'E'

theorem NumberChar.textChar {c : Char} (char : NumberChar c) : TextChar c := by
  obtain digit | rfl | rfl | rfl | rfl | rfl := char
  · have bounds := isDigit_bounds digit
    exact .inl (by omega)
  all_goals exact .inl (by decide)

theorem numberChars_sign (minus : Bool) : ∀ c ∈ signText minus, NumberChar c := by
  cases minus with
  | true => exact List.forall_mem_singleton.mpr (by simp [NumberChar])
  | false => exact nofun

theorem numberChars_digits {digits : Str} (allDigits : ∀ c ∈ digits, c.isDigit = true) :
    ∀ c ∈ digits, NumberChar c :=
  fun c member => .inl (allDigits c member)

theorem FracText.numberChars {text : Str} (isFrac : FracText text) : ∀ c ∈ text, NumberChar c := by
  cases isFrac with
  | absent => exact nofun
  | present isDigits =>
    rw [List.forall_mem_cons]
    exact ⟨by simp [NumberChar], numberChars_digits isDigits.allDigits⟩

theorem ExpText.numberChars {text : Str} (isExp : ExpText text) : ∀ c ∈ text, NumberChar c := by
  cases isExp with
  | absent => exact nofun
  | @present e sign digits letter isSign isDigits =>
    have letterChar : NumberChar e := by
      obtain rfl | rfl := letter <;> simp [NumberChar]
    have signChars : ∀ c ∈ sign, NumberChar c := by
      obtain rfl | rfl | rfl := isSign <;> simp [NumberChar]
    simp only [List.cons_append, List.forall_mem_cons, List.forall_mem_append]
    exact ⟨letterChar, signChars, numberChars_digits isDigits.allDigits⟩

section

variable {strtod : Str → Option ℚ}

theorem NumberText.numberChars {text : Str} {value : Value}
    (isNumber : NumberText strtod text value) : ∀ c ∈ text, NumberChar c := by
  cases isNumber with
  | int isInt _ =>
    rw [List.forall_mem_append]
    exact ⟨numberChars_sign _, numberChars_digits isInt.allDigits⟩
  | double isInt isFrac isExp _ _ =>
    simp only [List.forall_mem_append]
    exact ⟨⟨⟨numberChars_sign _, numberChars_digits isInt.allDigits⟩, isFrac.numberChars⟩,
      isExp.numberChars⟩

theorem Blank.textChars {ws : Str} (blank : Blank ws) : ∀ c ∈ ws, TextChar c :=
  fun c member => .inr (blank c member)

theorem textChars_wrap {inside : Str} {first last : Char} (visible : 0x20 ≤ first.toNat)
    (visible' : 0x20 ≤ last.toNat) (chars : ∀ c ∈ inside, TextChar c) :
    ∀ c ∈ first :: inside ++ [last], TextChar c := by
  simp only [List.cons_append, List.forall_mem_cons, List.forall_mem_append]
  exact ⟨.inl visible, chars, .inl visible', nofun⟩

theorem textChars_append {text texts : Str} (chars : ∀ c ∈ text, TextChar c)
    (chars' : ∀ c ∈ texts, TextChar c) : ∀ c ∈ text ++ texts, TextChar c :=
  List.forall_mem_append.mpr ⟨chars, chars'⟩

theorem textChars_cons {c : Char} {text : Str} (visible : 0x20 ≤ c.toNat)
    (chars : ∀ c ∈ text, TextChar c) : ∀ d ∈ c :: text, TextChar d :=
  List.forall_mem_cons.mpr ⟨.inl visible, chars⟩

theorem textChars_visible {s : Str} (visible : s.all fun c => decide (0x20 ≤ c.toNat)) :
    ∀ c ∈ s, TextChar c := by
  intro c member
  exact .inl (of_decide_eq_true (List.all_eq_true.mp visible c member))

mutual

theorem ValueText.textChars {text : Str} {value : Value} :
    ValueText strtod text value → ∀ c ∈ text, TextChar c
  | .null => textChars_visible rfl
  | .true => textChars_visible rfl
  | .false => textChars_visible rfl
  | .number isNumber => fun c member => (isNumber.numberChars c member).textChar
  | .string isString => isString.textChars
  | .emptyArray blank => textChars_wrap (by decide) (by decide) blank.textChars
  | .array blank inside =>
    textChars_wrap (by decide) (by decide) (textChars_append blank.textChars inside.textChars)
  | .emptyObject blank => textChars_wrap (by decide) (by decide) blank.textChars
  | .object blank inside =>
    textChars_wrap (by decide) (by decide) (textChars_append blank.textChars inside.textChars)

theorem ElementsText.textChars {text : Str} {values : List Value} :
    ElementsText strtod text values → ∀ c ∈ text, TextChar c
  | .last first blank => textChars_append first.textChars blank.textChars
  | .cons first blank blank' others =>
    textChars_append
      (textChars_append (textChars_append first.textChars blank.textChars)
        (textChars_cons (by decide) blank'.textChars))
      others.textChars

theorem MembersText.textChars {text : Str} {members : List (Str × Value)} :
    MembersText strtod text members → ∀ c ∈ text, TextChar c
  | .last named blank blank' first blank'' =>
    textChars_append
      (textChars_append
        (textChars_append (textChars_append named.textChars blank.textChars)
          (textChars_cons (by decide) blank'.textChars))
        first.textChars)
      blank''.textChars
  | .cons named blank blank' first blank'' blankNext others =>
    textChars_append
      (textChars_append
        (textChars_append
          (textChars_append
            (textChars_append (textChars_append named.textChars blank.textChars)
              (textChars_cons (by decide) blank'.textChars))
            first.textChars)
          blank''.textChars)
        (textChars_cons (by decide) blankNext.textChars))
      others.textChars

end

/-- No text has a terminator in it. -/
theorem JsonText.nulFree {text : Str} {value : Value} (isText : JsonText strtod text value) :
    nul ∉ text := by
  intro member
  cases isText with
  | document blank root blank' =>
    have visible := textChars_append (textChars_append blank.textChars root.textChars)
      blank'.textChars nul member
    exact absurd visible (by decide)

end

end Ns3Blockchain.Rapidjson
