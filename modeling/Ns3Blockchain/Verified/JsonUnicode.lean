import Ns3Blockchain.Verified.JsonRoundTrip

/-! # Escaped characters

A string may spell any character as `\uXXXX`, or as two such escapes when it is beyond
the first 65536, with each digit in either case.  `ParseString` makes of every spelling
the bytes of the character in UTF-8.
-/

namespace Ns3Blockchain.Rapidjson

open Library

/-- The bytes of a character. -/
def utf8 (c : Char) : Str := (String.utf8EncodeChar c).map fun b => Char.ofNat b.toNat

/-! ## Bytes -/

theorem ofNat_toNat_uint8 {n : Nat} (small : n < 256) :
    Char.ofNat (UInt8.ofNat n).toNat = Char.ofNat n := by
  rw [UInt8.toNat_ofNat_of_lt' small]

theorem toNat_le (c : Char) : c.toNat ≤ 0x10FFFF := by
  have range : c.toNat < 0xD800 ∨ 0xDFFF < c.toNat ∧ c.toNat < 0x110000 := c.valid
  omega

/-- The bytes of the code point of a character are its own. -/
theorem codepointBytes_eq_utf8 (c : Char) : codepointBytes c.toNat = utf8 c := by
  have bound := toNat_le c
  unfold utf8 String.utf8EncodeChar codepointBytes
  rw [show c.val.toNat = c.toNat from rfl]
  dsimp only
  by_cases one : c.toNat < 0x80
  · rw [if_pos one, if_pos (show c.toNat ≤ 0x7F by omega), List.map_singleton, ofNat_toNat_uint8 (by omega)]
  rw [if_neg one, if_neg (show ¬ c.toNat ≤ 0x7F by omega)]
  by_cases two : c.toNat < 0x800
  · have first : c.toNat / 64 % 32 = c.toNat / 64 := Nat.mod_eq_of_lt (by omega)
    rw [if_pos two, if_pos (show c.toNat ≤ 0x7FF by omega)]
    simp (disch := omega) only [first, List.map_cons, List.map_nil, ofNat_toNat_uint8, Nat.add_comm]
  rw [if_neg two, if_neg (show ¬ c.toNat ≤ 0x7FF by omega)]
  by_cases three : c.toNat < 0x10000
  · have first : c.toNat / 4096 % 16 = c.toNat / 4096 := Nat.mod_eq_of_lt (by omega)
    rw [if_pos three, if_pos (show c.toNat ≤ 0xFFFF by omega)]
    simp (disch := omega) only [first, List.map_cons, List.map_nil, ofNat_toNat_uint8, Nat.add_comm]
  · have first : c.toNat / 262144 % 8 = c.toNat / 262144 := Nat.mod_eq_of_lt (by omega)
    rw [if_neg three, if_neg (show ¬ c.toNat ≤ 0xFFFF by omega)]
    simp (disch := omega) only [first, List.map_cons, List.map_nil, ofNat_toNat_uint8, Nat.add_comm]

/-! ## Spelled characters -/

/-- A digit in the upper or the lower case. -/
def hexDigit (upper : Bool) (n : Nat) : Char :=
  (if upper then upperDigits else lowerDigits).getD n '0'

/-- The four digits of a code unit; `upper` says the case of each. -/
def hex4 (upper : Nat → Bool) (n : Nat) : Str :=
  [
    hexDigit (upper 0) (n / 4096), hexDigit (upper 1) (n / 256 % 16),
    hexDigit (upper 2) (n / 16 % 16), hexDigit (upper 3) (n % 16)
  ]

/-- The text of a character as its code units, one or two. -/
def unicodeEscape (upper : Nat → Bool) (c : Char) : Str :=
  if c.toNat < 0x10000 then
    '\\' :: 'u' :: hex4 upper c.toNat
  else
    '\\' :: 'u' :: hex4 upper (0xD800 + (c.toNat - 0x10000) / 0x400) ++
      '\\' :: 'u' :: hex4 (fun i => upper (i + 4)) (0xDC00 + (c.toNat - 0x10000) % 0x400)

theorem hexDigit_digit (upper : Bool) {n : Nat} (small : n < 16) : HexDigit (hexDigit upper n) n := by
  have table : ∀ n : Fin 16, HexDigit (hexDigit upper n) n := by
    cases upper <;> decide
  exact table ⟨n, small⟩

theorem hexText_hex4 (upper : Nat → Bool) {n : Nat} (small : n < 0x10000) :
    HexText (hex4 upper n) n := by
  have first : n / 4096 < 16 := by omega
  have second : n / 256 % 16 < 16 := Nat.mod_lt _ (by decide)
  have third : n / 16 % 16 < 16 := Nat.mod_lt _ (by decide)
  have fourth : n % 16 < 16 := Nat.mod_lt _ (by decide)
  have text := HexText.digits (hexDigit_digit (upper 0) first) (hexDigit_digit (upper 1) second)
    (hexDigit_digit (upper 2) third) (hexDigit_digit (upper 3) fourth)
  have value : 4096 * (n / 4096) + 256 * (n / 256 % 16) + 16 * (n / 16 % 16) + n % 16 = n := by omega
  rw [value] at text
  exact text

theorem charText_unicodeEscape (upper : Nat → Bool) (c : Char) :
    CharText (unicodeEscape upper c) (utf8 c) := by
  rw [← codepointBytes_eq_utf8]
  have bound := toNat_le c
  unfold unicodeEscape
  split
  next single =>
    -- A character is no surrogate.
    have noLead : ¬ Lead c.toNat := by
      have range : c.toNat < 0xD800 ∨ 0xDFFF < c.toNat ∧ c.toNat < 0x110000 := c.valid
      unfold Lead
      omega
    exact .escape (.unicode (.single (hexText_hex4 upper single) noLead))
  next double =>
    have lead : Lead (0xD800 + (c.toNat - 0x10000) / 0x400) := ⟨by omega, by omega⟩
    have trail : Trail (0xDC00 + (c.toNat - 0x10000) % 0x400) := ⟨by omega, by omega⟩
    have text := UnicodeText.pair (hexText_hex4 upper (by omega))
      (hexText_hex4 (fun i => upper (i + 4)) (by omega)) lead trail
    have value : 0x10000 + 0x400 * (0xD800 + (c.toNat - 0x10000) / 0x400 - 0xD800) +
        (0xDC00 + (c.toNat - 0x10000) % 0x400 - 0xDC00) = c.toNat := by omega
    rw [value] at text
    exact .escape (.unicode text)

/-! ## Main result -/

/-- How a string spells a character: by its bytes, with what `WriteString` escapes, or by
    its code units. -/
inductive Spelling where
  | bytes
  | units (upper : Nat → Bool)

def spell : Char × Spelling → Str
  | (c, .bytes) => (utf8 c).flatMap escape
  | (c, .units upper) => unicodeEscape upper c

theorem CharsText.append {text text' chars chars' : Str} (first : CharsText text chars)
    (second : CharsText text' chars') : CharsText (text ++ text') (chars ++ chars') := by
  induction first with
  | nil => exact second
  | cons char _ inductionHypothesis =>
    rw [List.append_assoc, List.append_assoc]
    exact .cons char inductionHypothesis

theorem charsText_spell (character : Char × Spelling) :
    CharsText (spell character) (utf8 character.1) := by
  obtain ⟨c, spelling⟩ := character
  cases spelling with
  | bytes => exact charsText_escape (utf8 c)
  | units upper =>
    have one := CharsText.cons (charText_unicodeEscape upper c) .nil
    rwa [List.append_nil, List.append_nil] at one

/-- However the characters of a string are spelled, it is read as their bytes. -/
theorem parseString_spell (characters : List (Char × Spelling)) (rest : Str) :
    Reader.parseString (characters.flatMap spell ++ '"' :: rest) =
      .ok (characters.flatMap fun character => utf8 character.1, rest) := by
  rw [Reader.parseString_eq_ok_iff]
  refine ⟨characters.flatMap spell, ?_, rfl⟩
  induction characters with
  | nil => exact .nil
  | cons character characters inductionHypothesis =>
    exact (charsText_spell character).append inductionHypothesis

end Ns3Blockchain.Rapidjson
