import Mathlib.Algebra.Group.Nat.Defs
import Mathlib.Tactic.Common

/-! # Decimal text of integers

`print` writes an integer in decimal and `read` is the reader of the C library:
blanks, an optional sign, then the longest run of digits, whatever follows.
`fixed` writes a number with leading zeros, so that the text of a number can be put
together from the texts of its parts.
-/

namespace Ns3Blockchain.Library.Decimal

/-- Optional minus sign and decimal digits. -/
def print (z : Int) : List Char :=
  if z < 0 then '-' :: Nat.toDigits 10 z.natAbs else Nat.toDigits 10 z.natAbs

/-- `isspace`. -/
def isBlank (c : Char) : Bool := c = ' ' ∨ 9 ≤ c.toNat ∧ c.toNat ≤ 13

/-- The number the leading digits stand for; `0` when there are none. -/
def readDigits (s : List Char) : Nat := Nat.ofDigitChars 10 (s.takeWhile Char.isDigit) 0

def readSigned : List Char → Int
  | '-' :: s => -(readDigits s : Int)
  | '+' :: s => readDigits s
  | s => readDigits s

def read (s : List Char) : Int := readSigned (s.dropWhile isBlank)

/-! ## The printed characters -/

theorem isDigit_of_mem_toDigits {n : Nat} {c : Char} (member : c ∈ Nat.toDigits 10 n) :
    c.isDigit = true :=
  Nat.isDigit_of_mem_toDigits (by decide) (by decide) member

theorem mem_print {z : Int} {c : Char} (member : c ∈ print z) : c = '-' ∨ c.isDigit = true := by
  unfold print at member
  split at member
  next =>
    cases member with
    | head => exact .inl rfl
    | tail _ member => exact .inr (isDigit_of_mem_toDigits member)
  next => exact .inr (isDigit_of_mem_toDigits member)

theorem not_mem_print {z : Int} {c : Char} (noSign : c ≠ '-') (noDigit : c.isDigit = false) :
    c ∉ print z := by
  intro member
  cases mem_print member with
  | inl sign => exact noSign sign
  | inr digit =>
    rw [noDigit] at digit
    cases digit

theorem isBlank_eq_false_of_isDigit {c : Char} (digit : c.isDigit = true) : isBlank c = false := by
  have bounds : 48 ≤ c.toNat ∧ c.toNat ≤ 57 := by
    simpa [Char.isDigit, UInt32.le_iff_toNat_le] using digit
  rw [isBlank, decide_eq_false_iff_not, not_or]
  constructor
  · rintro rfl
    exact absurd bounds.1 (by decide)
  · omega

/-- Only the text of zero starts with a zero. -/
theorem eq_zero_of_head?_toDigits {n : Nat} (zero : (Nat.toDigits 10 n).head? = some '0') : n = 0 := by
  induction n using Nat.strongRecOn with
  | ind n inductionHypothesis =>
    by_cases small : n < 10
    · rw [Nat.toDigits_of_lt_base small, List.head?_cons, Option.some.injEq] at zero
      have table : ∀ n : Fin 10, Nat.digitChar n = '0' → n.val = 0 := by decide
      exact table ⟨n, small⟩ zero
    · have large : 10 ≤ n := Nat.le_of_not_lt small
      have first : (Nat.toDigits 10 n).head? = (Nat.toDigits 10 (n / 10)).head? := by
        rw [Nat.toDigits_of_base_le (by decide) large, List.head?_append]
        cases digits : Nat.toDigits 10 (n / 10) with
        | nil => exact absurd digits Nat.toDigits_ne_nil
        | cons c tail => rfl
      have quotient := inductionHypothesis (n / 10) (by omega) (first ▸ zero)
      omega

@[simp] theorem print_natCast (n : Nat) : print n = Nat.toDigits 10 n := by
  rw [print, if_neg (by omega), Int.natAbs_natCast]

/-! ## Round trip -/

theorem readDigits_toDigits (n : Nat) {rest : List Char}
    (ended : ∀ c ∈ rest.head?, c.isDigit = false) :
    readDigits (Nat.toDigits 10 n ++ rest) = n := by
  have stops : rest.takeWhile Char.isDigit = [] := by
    cases rest with
    | nil => rfl
    | cons c rest => simp [ended c rfl]
  rw [readDigits, List.takeWhile_append_of_pos fun c member => isDigit_of_mem_toDigits member, stops,
    List.append_nil, Nat.ofDigitChars_ten_toDigits]

theorem readSigned_toDigits (n : Nat) {rest : List Char}
    (ended : ∀ c ∈ rest.head?, c.isDigit = false) :
    readSigned (Nat.toDigits 10 n ++ rest) = n := by
  cases digits : Nat.toDigits 10 n with
  | nil => exact absurd digits Nat.toDigits_ne_nil
  | cons c tail =>
    have digit : c.isDigit = true := isDigit_of_mem_toDigits (n := n) (by simp [digits])
    have value := readDigits_toDigits n ended
    rw [digits] at value
    -- The first character is a digit, so neither sign pattern of `readSigned` applies.
    rw [List.cons_append, readSigned.eq_3]
    · exact congrArg _ value
    · intro s sign
      cases sign
      cases digit
    · intro s sign
      cases sign
      cases digit

theorem read_print_append (z : Int) {rest : List Char}
    (ended : ∀ c ∈ rest.head?, c.isDigit = false) : read (print z ++ rest) = z := by
  unfold print
  split
  next negative =>
    have blanks : ('-' :: Nat.toDigits 10 z.natAbs ++ rest).dropWhile isBlank =
        '-' :: (Nat.toDigits 10 z.natAbs ++ rest) := rfl
    rw [read, blanks, readSigned, readDigits_toDigits _ ended]
    omega
  next nonneg =>
    have blanks : (Nat.toDigits 10 z.natAbs ++ rest).dropWhile isBlank =
        Nat.toDigits 10 z.natAbs ++ rest := by
      cases digits : Nat.toDigits 10 z.natAbs with
      | nil => exact absurd digits Nat.toDigits_ne_nil
      | cons c tail =>
        have digit : c.isDigit = true :=
          isDigit_of_mem_toDigits (n := z.natAbs) (by simp [digits])
        rw [List.cons_append, List.dropWhile_cons, isBlank_eq_false_of_isDigit digit]
        rfl
    rw [read, blanks, readSigned_toDigits _ ended]
    omega

@[simp] theorem read_print (z : Int) : read (print z) = z := by
  have whole : read (print z ++ []) = z := read_print_append z (by simp)
  rwa [List.append_nil] at whole

/-! ## Fixed width -/

/-- The digit of weight `10 ^ position`. -/
def digit (n position : Nat) : Char := Nat.digitChar (n / 10 ^ position % 10)

/-- The last `width` digits. -/
def fixed : Nat → Nat → List Char
  | 0, _ => []
  | width + 1, n => digit n width :: fixed width n

/-- The digits from the one of weight `10 ^ width` down; all but the last only where
    `n` reaches the weight. -/
def guarded : Nat → Nat → List Char
  | 0, n => [digit n 0]
  | width + 1, n =>
    (if 10 ^ (width + 1) ≤ n then [digit n (width + 1)] else []) ++ guarded width n

theorem digit_div (n places position : Nat) :
    digit (n / 10 ^ places) position = digit n (places + position) := by
  rw [digit, digit, Nat.div_div_eq_div_mul, Nat.pow_add]

theorem digit_mod (n : Nat) {places position : Nat} (below : position < places) :
    digit (n % 10 ^ places) position = digit n position := by
  obtain ⟨more, rfl⟩ := Nat.exists_eq_add_of_lt below
  have whole : 10 ^ (position + more + 1) = 10 ^ position * 10 ^ (more + 1) := by
    rw [← Nat.pow_add, Nat.add_assoc]
  have last : n / 10 ^ position % 10 ^ (more + 1) % 10 = n / 10 ^ position % 10 :=
    Nat.mod_mod_of_dvd _ ⟨10 ^ more, by rw [Nat.pow_succ, Nat.mul_comm]⟩
  rw [digit, digit, whole, Nat.mod_mul_right_div_self, last]

theorem fixed_mod (width n : Nat) {places : Nat} (within : width ≤ places) :
    fixed width (n % 10 ^ places) = fixed width n := by
  induction width with
  | zero => rfl
  | succ width inductionHypothesis =>
    rw [fixed, fixed, digit_mod n within, inductionHypothesis (Nat.le_of_succ_le within)]

theorem fixed_concat (width n : Nat) : fixed (width + 1) n = fixed width (n / 10) ++ [digit n 0] := by
  induction width with
  | zero => rfl
  | succ width inductionHypothesis =>
    have front : digit (n / 10) width = digit n (width + 1) := by
      rw [Nat.add_comm]
      exact digit_div n 1 width
    rw [fixed, inductionHypothesis, fixed, front, List.cons_append]

/-- A number in two parts: the digits of the upper one, then the lower one with its
    zeros. -/
theorem toDigits_of_le {width n : Nat} (low : 10 ^ width ≤ n) :
    Nat.toDigits 10 n = Nat.toDigits 10 (n / 10 ^ width) ++ fixed width (n % 10 ^ width) := by
  rw [fixed_mod width n (Nat.le_refl width)]
  induction width generalizing n with
  | zero => rw [Nat.pow_zero, Nat.div_one, fixed, List.append_nil]
  | succ width inductionHypothesis =>
    rw [Nat.pow_succ] at low ⊢
    have two : 10 ≤ n := by
      have := Nat.pow_pos (n := width) (show 0 < 10 by decide)
      omega
    have rest : 10 ^ width ≤ n / 10 := by omega
    have last : digit n 0 = Nat.digitChar (n % 10) := by rw [digit, Nat.pow_zero, Nat.div_one]
    rw [Nat.toDigits_of_base_le (by decide) two, inductionHypothesis rest, fixed_concat, last,
      Nat.div_div_eq_div_mul, Nat.mul_comm 10, List.append_assoc]

theorem guarded_of_le {width n : Nat} (low : 10 ^ width ≤ n) : guarded width n = fixed (width + 1) n := by
  induction width with
  | zero => rfl
  | succ width inductionHypothesis =>
    have lower : 10 ^ width ≤ n := Nat.le_trans (Nat.pow_le_pow_right (by decide) (Nat.le_succ _)) low
    rw [guarded, if_pos low, inductionHypothesis lower, List.singleton_append]
    rfl

/-- The text of a number is its digits without leading zeros. -/
theorem toDigits_eq_guarded {width n : Nat} (high : n < 10 ^ (width + 1)) :
    Nat.toDigits 10 n = guarded width n := by
  induction width with
  | zero =>
    have small : n < 10 := high
    rw [Nat.toDigits_of_lt_base small, guarded, digit, Nat.pow_zero, Nat.div_one,
      Nat.mod_eq_of_lt small]
  | succ width inductionHypothesis =>
    by_cases low : 10 ^ (width + 1) ≤ n
    · have top : n / 10 ^ (width + 1) < 10 := by
        rw [Nat.div_lt_iff_lt_mul (Nat.pow_pos (by decide)), Nat.mul_comm]
        exact high
      have first : digit n (width + 1) = Nat.digitChar (n / 10 ^ (width + 1)) := by
        rw [digit, Nat.mod_eq_of_lt top]
      rw [toDigits_of_le low, Nat.toDigits_of_lt_base top, guarded_of_le low, ← first,
        fixed_mod (width + 1) n (Nat.le_refl _)]
      rfl
    · rw [guarded, if_neg low, List.nil_append]
      exact inductionHypothesis (Nat.lt_of_not_le low)

end Ns3Blockchain.Library.Decimal
