import Ns3Blockchain.Library.Scanning
import Ns3Blockchain.Verified.Document
import Ns3Blockchain.Verified.JsonStrings

/-! # Reading numbers

The four digit loops of `ParseNumber` accumulate an unsigned integer and give it up
just before it would leave the range of its sign and width.  So no loop wraps around,
and the event carries the number the digits stand for.
-/

namespace Ns3Blockchain.Rapidjson.Reader

open Library

/-! ## Digit loops -/

theorem le_ofDigitChars (digits : Str) (i : Nat) : i ≤ Nat.ofDigitChars 10 digits i := by
  induction digits generalizing i with
  | nil => simp
  | cons c digits inductionHypothesis =>
    rw [Nat.ofDigitChars_cons]
    have more := inductionHypothesis (10 * i + (c.toNat - '0'.toNat))
    omega

/-- A number up to `limit` is read to its end, and a larger one is given up at one of
    its digits. -/
structure GivesUpAbove (limit : Nat) (loop : Nat → Str → Nat × Bool × Str) : Prop where
  reads : ∀ {digits rest : Str} {i : Nat}, (∀ c ∈ digits, c.isDigit = true) →
    Ends Char.isDigit rest → Nat.ofDigitChars 10 digits i ≤ limit →
    loop i (digits ++ rest) = (Nat.ofDigitChars 10 digits i, false, rest)
  breaks : ∀ {digits : Str} {i : Nat} (rest : Str), (∀ c ∈ digits, c.isDigit = true) → i ≤ limit →
    limit < Nat.ofDigitChars 10 digits i →
    ∃ read left, digits = read ++ left ∧ Nat.ofDigitChars 10 read i ≤ limit ∧
      loop i (digits ++ rest) = (Nat.ofDigitChars 10 read i, true, left ++ rest)

section

variable (size bound : Nat) (last : Char)

/-- Ten times `bound` and `last`. -/
def lastNumber : Nat := bound * 10 + (last.toNat - '0'.toNat)

variable {last}

/-- The test of a loop asks whether the next digit would lead past the last number. -/
theorem breaks_iff (lastDigit : last.isDigit = true) {c : Char} (digit : c.isDigit = true) (i : Nat) :
    bound ≤ i ∧ (i ≠ bound ∨ last < c) ↔ lastNumber bound last < 10 * i + (c.toNat - '0'.toNat) := by
  have lastBounds := isDigit_bounds lastDigit
  have bounds := isDigit_bounds digit
  have order : last < c ↔ last.toNat < c.toNat := Char.lt_def
  have zero : '0'.toNat = 48 := rfl
  rw [lastNumber, order, zero]
  omega

variable {size bound}

/-- Up to the last number a pass of the loop is exact. -/
theorem digitLoop_pass (lastDigit : last.isDigit = true) (room : lastNumber bound last < size)
    {c : Char} (digit : c.isDigit = true) {i : Nat}
    (inside : 10 * i + (c.toNat - '0'.toNat) ≤ lastNumber bound last) (is : Str) :
    digitLoop size bound last i (c :: is) =
      digitLoop size bound last (10 * i + (c.toNat - '0'.toNat)) is := by
  have stays : ¬ (bound ≤ i ∧ (i ≠ bound ∨ last < c)) := by
    rw [breaks_iff bound lastDigit digit]
    omega
  have unreduced : (i * 10 + (c.toNat - '0'.toNat)) % size = 10 * i + (c.toNat - '0'.toNat) := by
    rw [Nat.mul_comm i]
    exact Nat.mod_eq_of_lt (by omega)
  rw [digitLoop, if_pos digit, if_neg stays, unreduced]

theorem digitLoop_givesUp (lastDigit : last.isDigit = true) (room : lastNumber bound last < size) :
    GivesUpAbove (lastNumber bound last) (digitLoop size bound last) where
  reads := by
    intro digits rest i allDigits ended inside
    induction digits generalizing i with
    | nil =>
      cases rest with
      | nil => simp [digitLoop]
      | cons c rest =>
        rw [ends_cons_iff] at ended
        simp [digitLoop, ended]
    | cons c digits inductionHypothesis =>
      have digit := allDigits c List.mem_cons_self
      rw [Nat.ofDigitChars_cons] at inside ⊢
      -- A prefix of the digits is no larger than the number, so no digit is refused.
      have sofar := le_ofDigitChars digits (10 * i + (c.toNat - '0'.toNat))
      rw [List.cons_append, digitLoop_pass lastDigit room digit (Nat.le_trans sofar inside)]
      exact inductionHypothesis (fun d member => allDigits d (List.mem_cons_of_mem _ member)) inside
  breaks := by
    intro digits i rest allDigits start outside
    induction digits generalizing i with
    | nil =>
      rw [Nat.ofDigitChars_nil] at outside
      exact absurd start (Nat.not_le_of_lt outside)
    | cons c digits inductionHypothesis =>
      have digit := allDigits c List.mem_cons_self
      rw [Nat.ofDigitChars_cons] at outside
      -- The loop stops at the first digit that would pass the bound.
      by_cases next : 10 * i + (c.toNat - '0'.toNat) ≤ lastNumber bound last
      · obtain ⟨read, left, whole, small, looped⟩ := inductionHypothesis
          (fun d member => allDigits d (List.mem_cons_of_mem _ member)) next outside
        refine ⟨c :: read, left, by rw [whole, List.cons_append], ?_, ?_⟩
        · rwa [Nat.ofDigitChars_cons]
        · rw [List.cons_append, digitLoop_pass lastDigit room digit next, looped,
            Nat.ofDigitChars_cons]
      · refine ⟨[], c :: digits, rfl, start, ?_⟩
        rw [Nat.not_le, ← breaks_iff bound lastDigit digit] at next
        rw [List.cons_append, digitLoop, if_pos digit, if_pos next]
        rfl

end

/-! ## The integer -/

/-- The largest magnitude of the 32-bit type of a sign. -/
def limit32 (minus : Bool) : Nat := if minus then 2147483648 else 4294967295

/-- The largest magnitude of the 64-bit type of a sign. -/
def limit64 (minus : Bool) : Nat := if minus then 9223372036854775808 else 18446744073709551615

theorem digitLoop32_givesUp (minus : Bool) : GivesUpAbove (limit32 minus) (digitLoop32 minus) := by
  cases minus with
  | true =>
    have room : lastNumber 214748364 '8' < 4294967296 := by decide
    exact digitLoop_givesUp rfl room
  | false =>
    have room : lastNumber 429496729 '5' < 4294967296 := by decide
    exact digitLoop_givesUp rfl room

theorem digitLoop64_givesUp (minus : Bool) : GivesUpAbove (limit64 minus) (digitLoop64 minus) := by
  cases minus with
  | true =>
    have room : lastNumber 0x0CCCCCCCCCCCCCCC '8' < 18446744073709551616 := by decide
    exact digitLoop_givesUp rfl room
  | false =>
    have room : lastNumber 0x1999999999999999 '5' < 18446744073709551616 := by decide
    exact digitLoop_givesUp rfl room

theorem limit32_le_limit64 (minus : Bool) : limit32 minus ≤ limit64 minus := by
  cases minus <;> decide

theorem fitsInt64_signed_iff (minus : Bool) (digits : Str) :
    FitsInt64 (signed minus digits) ↔ Nat.ofDigitChars 10 digits 0 ≤ limit64 minus := by
  unfold FitsInt64 signed limit64
  split <;> omega

/-- The field in use holds `n`, which is in the range of its type. -/
structure Significand.Holds (significand : Significand) (minus : Bool) (n : Nat) : Prop where
  noDouble : significand.useDouble = false
  narrow : significand.use64bit = false → significand.i = n ∧ n ≤ limit32 minus
  wide : significand.use64bit = true → significand.i64 = n ∧ n ≤ limit64 minus

theorem val_negated32 {n : Nat} (range : n ≤ 2147483648) :
    (CInt.ofUInt32 (~~~UInt32.ofNat n + 1)).val = -(n : Int) := by
  have negated : (~~~UInt32.ofNat n + 1).toNat = (4294967296 - n) % 4294967296 := by
    rw [← UInt32.neg_eq_not_add, UInt32.toNat_neg, UInt32.toNat_ofNat', UInt32.size]
    omega
  unfold CInt.ofUInt32
  split
  next =>
    show ((~~~UInt32.ofNat n + 1).toNat : Int) = _
    omega
  next =>
    show ((~~~UInt32.ofNat n + 1).toNat : Int) - 4294967296 = _
    omega

theorem val_negated64 {n : Nat} (range : n ≤ 9223372036854775808) :
    (CInt64.ofUInt64 (~~~UInt64.ofNat n + 1)).val = -(n : Int) := by
  have negated : (~~~UInt64.ofNat n + 1).toNat = (18446744073709551616 - n) % 18446744073709551616 := by
    rw [← UInt64.neg_eq_not_add, UInt64.toNat_neg, UInt64.toNat_ofNat', UInt64.size]
    omega
  unfold CInt64.ofUInt64
  split
  next =>
    show ((~~~UInt64.ofNat n + 1).toNat : Int) = _
    omega
  next =>
    show ((~~~UInt64.ofNat n + 1).toNat : Int) - 18446744073709551616 = _
    omega

/-- The event of a number carries it. -/
theorem Significand.Holds.builds {significand : Significand} {minus : Bool} {digits : Str}
    (holds : significand.Holds minus (Nat.ofDigitChars 10 digits 0)) :
    Builds [significand.event minus] [.int (signed minus digits)] := by
  obtain ⟨i, i64, use64bit, useDouble⟩ := significand
  refine .one fun stack => ?_
  cases use64bit with
  -- Which `Handler` call is made depends on the width reached and on the sign.
  | true =>
    obtain ⟨value, range⟩ := holds.wide rfl
    dsimp only at value
    subst value
    cases minus with
    | true =>
      show Except.ok (Value.int _ :: stack) = _
      rw [val_negated64 range]
      rfl
    | false =>
      have unreduced : (UInt64.ofNat (Nat.ofDigitChars 10 digits 0)).toNat =
          Nat.ofDigitChars 10 digits 0 := UInt64.toNat_ofNat_of_lt' (Nat.lt_succ_of_le range)
      show Except.ok (Value.int (UInt64.ofNat (Nat.ofDigitChars 10 digits 0)).toNat :: stack) = _
      rw [unreduced]
      rfl
  | false =>
    obtain ⟨value, range⟩ := holds.narrow rfl
    dsimp only at value
    subst value
    cases minus with
    | true =>
      show Except.ok (Value.int _ :: stack) = _
      rw [val_negated32 range]
      rfl
    | false =>
      have unreduced : (UInt32.ofNat (Nat.ofDigitChars 10 digits 0)).toNat =
          Nat.ofDigitChars 10 digits 0 := UInt32.toNat_ofNat_of_lt' (Nat.lt_succ_of_le range)
      show Except.ok (Value.int (UInt32.ofNat (Nat.ofDigitChars 10 digits 0)).toNat :: stack) = _
      rw [unreduced]
      rfl

/-- What is known of a significand that stands for `n`: it is given up exactly when the
    64-bit type of the sign does not hold `n`. -/
structure Significand.ReadOf (significand : Significand) (minus : Bool) (n : Nat) : Prop where
  holds : n ≤ limit64 minus → significand.Holds minus n
  gaveUp : limit64 minus < n → significand.useDouble = true

theorem parseInt_digit {c : Char} {digits rest : Str} (minus : Bool) (noZero : c ≠ '0')
    (digit : c.isDigit = true) (others : ∀ d ∈ digits, d.isDigit = true)
    (stops : Ends Char.isDigit rest) :
    ∃ significand, parseInt minus (c :: (digits ++ rest)) = .ok (significand, rest) ∧
      significand.ReadOf minus (Nat.ofDigitChars 10 digits (c.toNat - '0'.toNat)) := by
  -- The first digit is read before the loops, so it has to fit by itself.
  have start : c.toNat - '0'.toNat ≤ limit32 minus := by
    have bounds := isDigit_bounds digit
    have nine : 9 ≤ limit32 minus := by cases minus <;> decide
    have zeroCode : '0'.toNat = 48 := rfl
    omega
  unfold parseInt
  simp only [if_neg noZero, if_pos digit]
  by_cases narrow : Nat.ofDigitChars 10 digits (c.toNat - '0'.toNat) ≤ limit32 minus
  · have wide := Nat.le_trans narrow (limit32_le_limit64 minus)
    rw [(digitLoop32_givesUp minus).reads others stops narrow]
    exact ⟨_, rfl, fun _ => ⟨rfl, fun _ => ⟨rfl, narrow⟩, nofun⟩, fun outside => by omega⟩
  · -- The 32-bit loop gave up at `left`; the 64-bit one goes on from there.
    obtain ⟨read, left, rfl, small, looped⟩ :=
      (digitLoop32_givesUp minus).breaks rest others start (Nat.lt_of_not_le narrow)
    have leftDigits : ∀ d ∈ left, d.isDigit = true :=
      fun d member => others d (List.mem_append_right _ member)
    rw [looped, Nat.ofDigitChars_append]
    dsimp only
    by_cases wide : Nat.ofDigitChars 10 left (Nat.ofDigitChars 10 read (c.toNat - '0'.toNat)) ≤
        limit64 minus
    · rw [(digitLoop64_givesUp minus).reads leftDigits stops wide]
      exact ⟨_, rfl, fun _ => ⟨rfl, nofun, fun _ => ⟨rfl, wide⟩⟩, fun outside => by omega⟩
    · -- Neither type holds the number: its last digits are passed over for the double.
      obtain ⟨read', left', rfl, _, looped'⟩ := (digitLoop64_givesUp minus).breaks rest leftDigits
        (Nat.le_trans small (limit32_le_limit64 minus)) (Nat.lt_of_not_le wide)
      have skipped : skipDigits (left' ++ rest) = rest :=
        dropWhile_run (fun d member => leftDigits d (List.mem_append_right _ member)) stops
      rw [looped']
      dsimp only
      rw [skipped]
      exact ⟨_, rfl, fun inside => absurd inside wide, fun _ => rfl⟩

/-- The digits of an integer are read to the last one. -/
theorem parseInt_digits {digits rest : Str} (minus : Bool) (isInt : IntDigits digits)
    (stops : digits = ['0'] ∨ Ends Char.isDigit rest) :
    ∃ significand, parseInt minus (digits ++ rest) = .ok (significand, rest) ∧
      significand.ReadOf minus (Nat.ofDigitChars 10 digits 0) := by
  cases digits with
  | nil => exact absurd rfl isInt.nonempty
  | cons c digits =>
    by_cases zero : c = '0'
    · have alone : c :: digits = ['0'] := isInt.noLeadingZero (by rw [zero]; rfl)
      rw [alone]
      exact ⟨_, rfl, fun _ => ⟨rfl, fun _ => ⟨rfl, Nat.zero_le _⟩, nofun⟩,
        fun outside => absurd outside (Nat.not_lt_zero _)⟩
    · have stops := stops.resolve_left fun same => zero (List.cons.inj same).1
      rw [Nat.ofDigitChars_cons, Nat.mul_zero, Nat.zero_add]
      exact parseInt_digit minus zero (isInt.allDigits c List.mem_cons_self)
        (fun d member => isInt.allDigits d (List.mem_cons_of_mem _ member)) stops

theorem parseInt_sound {minus : Bool} {s rest : Str} {significand : Significand}
    (parsed : parseInt minus s = .ok (significand, rest)) :
    ∃ digits, IntDigits digits ∧ s = digits ++ rest ∧
      significand.ReadOf minus (Nat.ofDigitChars 10 digits 0) := by
  -- The digits are read off the stream; what the parser returns is then known.
  have found : ∃ digits rest', IntDigits digits ∧ s = digits ++ rest' ∧
      (digits = ['0'] ∨ Ends Char.isDigit rest') := by
    cases s with
    | nil => cases parsed
    | cons c is =>
      by_cases zero : c = '0'
      · exact ⟨['0'], is, ⟨by simp, by simp, fun _ => rfl⟩, by rw [zero]; rfl, .inl rfl⟩
      · cases digit : c.isDigit with
        | false => simp [parseInt, zero, digit] at parsed
        | true =>
          obtain ⟨run, rest', rfl, inside, stops⟩ := exists_run Char.isDigit is
          refine ⟨c :: run, rest', ⟨by simp, ?_, by simp [zero]⟩, rfl, .inr stops⟩
          intro d member
          cases member with
          | head => exact digit
          | tail _ member => exact inside d member
  obtain ⟨digits, rest', isInt, rfl, stops⟩ := found
  obtain ⟨significand', parsed', readOf⟩ := parseInt_digits minus isInt stops
  rw [parsed] at parsed'
  cases parsed'
  exact ⟨digits, isInt, rfl, readOf⟩

/-! ## Fraction and exponent -/

/-- The characters a literal may go on with. -/
def isNumberChar (c : Char) : Bool := c.isDigit ∨ c = '.' ∨ c = 'e' ∨ c = 'E'

theorem peekDigit_digits {digits : Str} (isDigits : Digits digits) (rest : Str) :
    peekDigit (digits ++ rest) = true := by
  cases digits with
  | nil => exact absurd rfl isDigits.nonempty
  | cons c digits => exact isDigits.allDigits c List.mem_cons_self

theorem exists_digits {s : Str} (digit : peekDigit s = true) :
    ∃ digits, Digits digits ∧ s = digits ++ skipDigits s := by
  refine ⟨s.takeWhile Char.isDigit, ⟨?_, fun _ member => List.mem_takeWhile_imp member⟩,
    List.takeWhile_append_dropWhile.symm⟩
  cases s with
  | nil => cases digit
  | cons c s =>
    have first : c.isDigit = true := digit
    simp [first]

theorem parseFrac_sound {s rest : Str} {frac : Bool} (parsed : parseFrac s = .ok (frac, rest)) :
    ∃ text, FracText text ∧ s = text ++ rest ∧ (frac = true ↔ text ≠ []) := by
  unfold parseFrac at parsed
  split at parsed
  next s' dot =>
    rw [consume_eq_some_iff] at dot
    split at parsed
    next digit =>
      obtain ⟨digits, isDigits, whole⟩ := exists_digits digit
      cases parsed
      exact ⟨'.' :: digits, .present isDigits, by rw [dot, List.cons_append, ← whole], by simp⟩
    next => cases parsed
  next =>
    cases parsed
    exact ⟨[], .absent, rfl, by simp⟩

theorem parseFrac_complete {text rest : Str} (isFrac : FracText text)
    (stops : Ends Char.isDigit rest) (noPoint : rest.head? ≠ some '.') :
    ∃ frac, parseFrac (text ++ rest) = .ok (frac, rest) ∧ (frac = true ↔ text ≠ []) := by
  cases isFrac with
  | absent =>
    have missing : consume '.' rest = none := by
      cases rest with
      | nil => rfl
      | cons c rest =>
        rw [List.head?_cons, ne_eq, Option.some.injEq] at noPoint
        exact if_neg noPoint
    exact ⟨false, by simp [parseFrac, missing], by simp⟩
  | present isDigits =>
    rename_i digits
    have point : consume '.' ('.' :: (digits ++ rest)) = some (digits ++ rest) := rfl
    have skipped : skipDigits (digits ++ rest) = rest := dropWhile_run isDigits.allDigits stops
    exact ⟨true, by simp [parseFrac, point, peekDigit_digits isDigits, skipped], by simp⟩

theorem exists_sign (s : Str) :
    ∃ sign, (sign = [] ∨ sign = ['+'] ∨ sign = ['-']) ∧ s = sign ++ skipSign s := by
  unfold skipSign
  split
  next s => exact ⟨['+'], by simp, rfl⟩
  next s => exact ⟨['-'], by simp, rfl⟩
  next => exact ⟨[], by simp, rfl⟩

theorem skipSign_append {sign s : Str} (isSign : sign = [] ∨ sign = ['+'] ∨ sign = ['-'])
    (digit : peekDigit s = true) : skipSign (sign ++ s) = s := by
  obtain rfl | rfl | rfl := isSign
  · rw [List.nil_append]
    unfold skipSign
    split
    next => cases show '+'.isDigit = true from digit
    next => cases show '-'.isDigit = true from digit
    next => rfl
  · rfl
  · rfl

theorem parseExp_sound {s rest : Str} {exp : Bool} (parsed : parseExp s = .ok (exp, rest)) :
    ∃ text, ExpText text ∧ s = text ++ rest ∧ (exp = true ↔ text ≠ []) := by
  unfold parseExp at parsed
  split at parsed
  next =>
    cases parsed
    exact ⟨[], .absent, rfl, by simp⟩
  next c is =>
    split at parsed
    next letter =>
      dsimp only at parsed
      split at parsed
      next digit =>
        obtain ⟨sign, isSign, signed⟩ := exists_sign is
        obtain ⟨digits, isDigits, whole⟩ := exists_digits digit
        cases parsed
        refine ⟨c :: sign ++ digits, .present letter isSign isDigits, ?_, by simp⟩
        rw [List.append_assoc, ← whole, List.cons_append, ← signed]
      next => cases parsed
    next =>
      cases parsed
      exact ⟨[], .absent, rfl, by simp⟩

theorem parseExp_complete {text rest : Str} (isExp : ExpText text)
    (stops : Ends isNumberChar rest) :
    ∃ exp, parseExp (text ++ rest) = .ok (exp, rest) ∧ (exp = true ↔ text ≠ []) := by
  cases isExp with
  | absent =>
    refine ⟨false, ?_, by simp⟩
    cases rest with
    | nil => rfl
    | cons c rest =>
      rw [ends_cons_iff] at stops
      have noLetter : ¬ (c = 'e' ∨ c = 'E') := by
        rintro (rfl | rfl)
        · cases stops
        · cases stops
      exact if_neg noLetter
  | present letter isSign isDigits =>
    rename_i e sign digits
    have stops : Ends Char.isDigit rest := stops.mono fun c digit => by simp [isNumberChar, digit]
    have unsigned := skipSign_append isSign (peekDigit_digits isDigits rest)
    have skipped : skipDigits (digits ++ rest) = rest := dropWhile_run isDigits.allDigits stops
    exact ⟨true, by simp [parseExp, letter, unsigned, peekDigit_digits isDigits, skipped], by simp⟩

/-! ## Main results -/

variable {strtod : Str → Option ℚ}

theorem parseMinus_sound (s : Str) : s = signText (parseMinus s).1 ++ (parseMinus s).2 := by
  unfold parseMinus
  split
  next s' sign =>
    rw [consume_eq_some_iff] at sign
    exact sign
  next => rfl

theorem parseMinus_complete {digits : Str} (minus : Bool) (isInt : IntDigits digits) (rest : Str) :
    parseMinus (signText minus ++ (digits ++ rest)) = (minus, digits ++ rest) := by
  cases minus with
  | true => rfl
  | false =>
    cases digits with
    | nil => exact absurd rfl isInt.nonempty
    | cons c digits =>
      have noSign : c ≠ '-' := by
        rintro rfl
        cases isInt.allDigits '-' List.mem_cons_self
      simp [signText, parseMinus, consume, noSign]

/-- The text that `parseNumber` hands over for the value of a `double`. -/
theorem take_literal (text rest : Str) :
    (text ++ rest).take ((text ++ rest).length - rest.length) = text := by
  rw [List.length_append, Nat.add_sub_cancel, List.take_left]

theorem parseNumber_sound {s rest : Str} {events : List Event}
    (parsed : parseNumber strtod s = .ok (events, rest)) :
    ∃ text value, NumberText strtod text value ∧ s = text ++ rest ∧ Builds events [value] := by
  -- The text is the concatenation of what the four stages have read.
  have sign := parseMinus_sound s
  unfold parseNumber at parsed
  generalize parseMinus s = split at sign parsed
  obtain ⟨minus, afterSign⟩ := split
  obtain ⟨⟨significand, afterInt⟩, intParsed, fromInt⟩ := bind_eq_ok_iff.mp parsed
  obtain ⟨⟨frac, afterFrac⟩, fracParsed, fromFrac⟩ := bind_eq_ok_iff.mp fromInt
  obtain ⟨⟨exp, rest'⟩, expParsed, result⟩ := bind_eq_ok_iff.mp fromFrac
  obtain ⟨digits, isInt, intText, readOf⟩ := parseInt_sound intParsed
  obtain ⟨fracText, isFrac, fracWhole, hasFrac⟩ := parseFrac_sound fracParsed
  obtain ⟨expText, isExp, expWhole, hasExp⟩ := parseExp_sound expParsed
  dsimp only at sign result
  have whole : s = signText minus ++ digits ++ fracText ++ expText ++ rest' := by
    simp [sign, intText, fracWhole, expWhole]
  split at result
  next double =>
    split at result
    next d read =>
      cases result
      rw [whole, take_literal] at read
      refine ⟨_, .double d, .double isInt isFrac isExp ?_ read, whole, .one fun _ => rfl⟩
      rw [hasFrac, hasExp] at double
      -- `useDouble` without a fraction or an exponent comes from an integer out of range.
      refine double.imp_left fun given fits => ?_
      rw [fitsInt64_signed_iff] at fits
      rw [(readOf.holds fits).noDouble] at given
      cases given
    next => cases result
  next single =>
    cases result
    rw [hasFrac, hasExp, not_or, not_or, not_not, not_not] at single
    -- Here it is an integer, and the significand carries it exactly.
    obtain ⟨notGiven, noFrac, noExp⟩ := single
    have fits : Nat.ofDigitChars 10 digits 0 ≤ limit64 minus :=
      Nat.le_of_not_lt fun huge => notGiven (readOf.gaveUp huge)
    rw [noFrac, noExp, List.append_nil, List.append_nil] at whole
    exact ⟨_, _, .int isInt ((fitsInt64_signed_iff minus digits).mpr fits), whole,
      (readOf.holds fits).builds⟩

theorem ends_frac {text rest : Str} (isFrac : FracText text) (stops : Ends Char.isDigit rest) :
    Ends Char.isDigit (text ++ rest) := by
  cases isFrac with
  | absent => exact stops
  | present _ => exact ends_cons_iff.mpr rfl

theorem ends_exp {text rest : Str} (isExp : ExpText text) (stops : Ends isNumberChar rest) :
    Ends Char.isDigit (text ++ rest) ∧ (text ++ rest).head? ≠ some '.' := by
  cases isExp with
  | absent =>
    refine ⟨stops.mono fun c digit => by simp [isNumberChar, digit], fun point => ?_⟩
    cases stops '.' point
  | present letter _ _ =>
    obtain rfl | rfl := letter
    · exact ⟨ends_cons_iff.mpr rfl, by simp⟩
    · exact ⟨ends_cons_iff.mpr rfl, by simp⟩

variable (strtod) in
/-- Every literal is read to its end, and is a `double` when it has to be one. -/
theorem parseNumber_literal {digits frac exp rest : Str} (minus : Bool) (isInt : IntDigits digits)
    (isFrac : FracText frac) (isExp : ExpText exp) (stops : Ends isNumberChar rest) :
    ∃ significand : Significand, significand.ReadOf minus (Nat.ofDigitChars 10 digits 0) ∧
      parseNumber strtod (signText minus ++ digits ++ frac ++ exp ++ rest) =
        if significand.useDouble ∨ frac ≠ [] ∨ exp ≠ [] then
          (strtod (signText minus ++ digits ++ frac ++ exp)).elim
            (.error (.parseError .numberTooBig (signText minus ++ digits ++ frac ++ exp ++ rest)))
            fun d => .ok ([.double d], rest)
        else
          .ok ([significand.event minus], rest) := by
  obtain ⟨expEnds, noPoint⟩ := ends_exp isExp stops
  obtain ⟨significand, intParsed, readOf⟩ := parseInt_digits minus isInt
    (.inr (ends_frac isFrac expEnds))
  obtain ⟨hasFrac, fracParsed, fracIff⟩ := parseFrac_complete isFrac expEnds noPoint
  obtain ⟨hasExp, expParsed, expIff⟩ := parseExp_complete isExp stops
  refine ⟨significand, readOf, ?_⟩
  have literal := take_literal (signText minus ++ digits ++ frac ++ exp) rest
  have sign := parseMinus_complete minus isInt (frac ++ (exp ++ rest))
  simp only [List.append_assoc] at literal
  unfold parseNumber
  simp only [List.append_assoc, sign, intParsed, ok_bind, fracParsed, expParsed, literal, fracIff,
    expIff]
  cases strtod (signText minus ++ (digits ++ (frac ++ exp))) with
  | none => rfl
  | some d => rfl

theorem parseNumber_complete {text rest : Str} {value : Value}
    (isNumber : NumberText strtod text value) (stops : Ends isNumberChar rest) :
    ∃ events, parseNumber strtod (text ++ rest) = .ok (events, rest) ∧ Builds events [value] := by
  cases isNumber with
  | @int minus digits isInt fits =>
    obtain ⟨significand, readOf, parsed⟩ :=
      parseNumber_literal strtod minus isInt .absent .absent stops
    rw [fitsInt64_signed_iff] at fits
    have holds := readOf.holds fits
    rw [List.append_nil, List.append_nil, if_neg (by simp [holds.noDouble])] at parsed
    exact ⟨_, parsed, holds.builds⟩
  | @double minus digits frac exp d isInt isFrac isExp isDouble read =>
    obtain ⟨significand, readOf, parsed⟩ :=
      parseNumber_literal strtod minus isInt isFrac isExp stops
    have double : significand.useDouble ∨ frac ≠ [] ∨ exp ≠ [] := by
      refine isDouble.imp_left fun huge => ?_
      rw [fitsInt64_signed_iff, Nat.not_le] at huge
      exact readOf.gaveUp huge
    rw [if_pos double, read] at parsed
    exact ⟨_, parsed, .one fun _ => rfl⟩

theorem avoids_parseInt (minus : Bool) (s : Str) : Avoids .jsonAssert (parseInt minus s) := by
  unfold parseInt
  split
  next => exact avoids_error_iff.mpr nofun
  next =>
    split
    next => exact avoids_ok _ _
    next =>
      split
      next =>
        split
        next => exact avoids_ok _ _
        next => split <;> exact avoids_ok _ _
      next => exact avoids_error_iff.mpr nofun

theorem avoids_parseFrac (s : Str) : Avoids .jsonAssert (parseFrac s) := by
  unfold parseFrac
  split
  next =>
    split
    next => exact avoids_ok _ _
    next => exact avoids_error_iff.mpr nofun
  next => exact avoids_ok _ _

theorem avoids_parseExp (s : Str) : Avoids .jsonAssert (parseExp s) := by
  unfold parseExp
  split
  next => exact avoids_ok _ _
  next =>
    split
    next =>
      dsimp only
      split
      next => exact avoids_ok _ _
      next => exact avoids_error_iff.mpr nofun
    next => exact avoids_ok _ _

theorem avoids_parseNumber (is : Str) : Avoids .jsonAssert (parseNumber strtod is) := by
  refine avoids_bind (avoids_parseInt _ _) fun _ _ => ?_
  refine avoids_bind (avoids_parseFrac _) fun _ _ => ?_
  refine avoids_bind (avoids_parseExp _) fun _ _ => ?_
  dsimp only
  split
  next =>
    split
    next => exact avoids_ok _ _
    next => exact avoids_error_iff.mpr nofun
  next => exact avoids_ok _ _

end Ns3Blockchain.Rapidjson.Reader
