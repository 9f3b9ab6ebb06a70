import Ns3Blockchain.Model.Itoa
import Ns3Blockchain.Library.Decimal

/-! # Integers to text, two digits at a time

`itoa.h` reads pairs of digits from a table and leaves out leading zeros by
comparing the value with powers of ten.  Each group of stores is a number of fixed
width, or one without its leading zeros, and the groups make up the decimal text.
-/

namespace Ns3Blockchain.Rapidjson

open Library Library.Decimal

/-! ## The table -/

/-- The table has the digits of the numbers below `100`. -/
theorem digitsLut_eq : digitsLut =
    (List.range 100).flatMap fun n => [Nat.digitChar (n / 10), Nat.digitChar (n % 10)] := by
  decide +kernel

theorem lut_pair : ∀ n < 100, lut (2 * n) = Nat.digitChar (n / 10) ∧
    lut (2 * n + 1) = Nat.digitChar (n % 10) := by
  unfold lut
  rw [digitsLut_eq]
  decide +kernel

theorem lut_upper {n : Nat} (small : n < 100) : lut (n <<< 1) = Nat.digitChar (n / 10) := by
  rw [Nat.shiftLeft_eq, Nat.mul_comm]
  exact (lut_pair n small).1

theorem lut_lower {n : Nat} (small : n < 100) : lut (n <<< 1 + 1) = Nat.digitChar (n % 10) := by
  rw [Nat.shiftLeft_eq, Nat.mul_comm]
  exact (lut_pair n small).2

theorem asciiDigit_eq : ∀ a < 10, asciiDigit a = Nat.digitChar a := by
  decide

/-- The four lookups for a number below `10000` are its digits. -/
theorem lut_four {b : Nat} (small : b < 10000) :
    lut ((b / 100) <<< 1) = digit b 3 ∧ lut ((b / 100) <<< 1 + 1) = digit b 2 ∧
      lut ((b % 100) <<< 1) = digit b 1 ∧ lut ((b % 100) <<< 1 + 1) = digit b 0 := by
  have upper : b / 100 < 100 := by omega
  have lower : b % 100 < 100 := Nat.mod_lt b (by decide)
  simp only [lut_upper upper, lut_lower upper, lut_upper lower, lut_lower lower, digit, Nat.reducePow,
    Nat.div_one]
  refine ⟨?_, trivial, ?_, ?_⟩
  · congr 1
    omega
  · congr 1
    omega
  · congr 1
    omega

theorem digit_upper (v position : Nat) : digit (v / 10000) position = digit v (4 + position) :=
  digit_div v 4 position

theorem digit_lower (v : Nat) {position : Nat} (below : position < 4) :
    digit (v % 10000) position = digit v position :=
  digit_mod v below

/-! ## Groups of digits -/

theorem putEight_eq {v : Nat} (small : v < 100000000) : putEight v = fixed 8 v := by
  obtain ⟨b3, b2, b1, b0⟩ := @lut_four (v / 10000) (by omega)
  obtain ⟨c3, c2, c1, c0⟩ := @lut_four (v % 10000) (Nat.mod_lt v (by decide))
  simp only [putEight, b3, b2, b1, b0, c3, c2, c1, c0, digit_upper]
  rw [digit_lower v (by decide), digit_lower v (by decide), digit_lower v (by decide),
    digit_lower v (by decide)]
  rfl

/-- The stores with a comparison for each leading zero. -/
theorem toDigits_eq_stores {v : Nat} (small : v < 100000000) :
    Nat.toDigits 10 v =
      putFrom 10000000 v (lut ((v / 10000 / 100) <<< 1)) ++
        putFrom 1000000 v (lut ((v / 10000 / 100) <<< 1 + 1)) ++
        putFrom 100000 v (lut ((v / 10000 % 100) <<< 1)) ++
        putFrom 10000 v (lut ((v / 10000 % 100) <<< 1 + 1)) ++
        putFrom 1000 v (lut ((v % 10000 / 100) <<< 1)) ++
        putFrom 100 v (lut ((v % 10000 / 100) <<< 1 + 1)) ++
        putFrom 10 v (lut ((v % 10000 % 100) <<< 1)) ++ [lut ((v % 10000 % 100) <<< 1 + 1)] := by
  obtain ⟨b3, b2, b1, b0⟩ := @lut_four (v / 10000) (by omega)
  obtain ⟨c3, c2, c1, c0⟩ := @lut_four (v % 10000) (Nat.mod_lt v (by decide))
  rw [@toDigits_eq_guarded 7 v small]
  simp only [b3, b2, b1, b0, c3, c2, c1, c0, digit_upper, putFrom, guarded, List.append_assoc]
  rw [digit_lower v (by decide), digit_lower v (by decide), digit_lower v (by decide),
    digit_lower v (by decide)]
  rfl

/-- Below `10^8` the comparisons with powers of ten leave out the leading zeros. -/
theorem putSmall_eq {value : Nat} (small : value < 100000000) :
    putSmall value = Nat.toDigits 10 value := by
  unfold putSmall
  split
  next four =>
    obtain ⟨d3, d2, d1, d0⟩ := lut_four four
    rw [@toDigits_eq_guarded 3 value four]
    simp only [d3, d2, d1, d0, putFrom, guarded, List.append_assoc]
    rfl
  next more =>
    -- From `10000` on the last five stores need no comparison.
    have four : 10000 ≤ value := by omega
    have three : 1000 ≤ value := by omega
    have two : 100 ≤ value := by omega
    have one : 10 ≤ value := by omega
    rw [toDigits_eq_stores small]
    simp [putFrom, four, three, two, one]

/-- The comparisons of `u64toa` are those of the part above `10^8`. -/
theorem putFrom_scaled (bound value : Nat) (c : Char) :
    putFrom (100000000 * bound) value c = putFrom bound (value / 100000000) c := by
  have scaled : 100000000 * bound ≤ value ↔ bound ≤ value / 100000000 := by
    rw [Nat.le_div_iff_mul_le (by decide), Nat.mul_comm]
  rw [putFrom, putFrom, if_congr scaled rfl rfl]

theorem toDigits_two {a : Nat} (two : 10 ≤ a) (small : a < 100) :
    Nat.toDigits 10 a = [lut (a <<< 1), lut (a <<< 1 + 1)] := by
  have upper : a / 10 < 10 := by omega
  rw [Nat.toDigits_of_base_le (by decide) two, Nat.toDigits_of_lt_base upper, lut_upper small,
    lut_lower small]
  rfl

/-! ## Unsigned values -/

theorem u32toa_eq (value : UInt32) : u32toa value = Nat.toDigits 10 value.toNat := by
  have range := value.toNat_lt
  unfold u32toa
  dsimp only
  split
  next small => exact putSmall_eq small
  next large =>
    have low : 10 ^ 8 ≤ value.toNat := Nat.le_of_not_lt large
    rw [toDigits_of_le low, putEight_eq (Nat.mod_lt _ (by decide))]
    congr 1
    change _ = Nat.toDigits 10 (value.toNat / 100000000)
    split
    next two => exact (toDigits_two two (by omega)).symm
    next one =>
      have digit : value.toNat / 100000000 < 10 := Nat.lt_of_not_le one
      rw [asciiDigit_eq _ digit, Nat.toDigits_of_lt_base digit]

/-- The one to four digits above `10^16`. -/
theorem leading_eq {a : Nat} (small : a < 10000) :
    (if a < 10 then [asciiDigit a]
      else if a < 100 then [lut (a <<< 1), lut (a <<< 1 + 1)]
      else if a < 1000 then
        [asciiDigit (a / 100), lut ((a % 100) <<< 1), lut ((a % 100) <<< 1 + 1)]
      else
        [lut ((a / 100) <<< 1), lut ((a / 100) <<< 1 + 1), lut ((a % 100) <<< 1),
          lut ((a % 100) <<< 1 + 1)]) =
      Nat.toDigits 10 a := by
  obtain ⟨d3, d2, d1, d0⟩ := lut_four small
  split
  next one => rw [asciiDigit_eq a one, Nat.toDigits_of_lt_base one]
  next two =>
    split
    next small => exact (toDigits_two (Nat.le_of_not_lt two) small).symm
    next three =>
      have low : 10 ^ 2 ≤ a := Nat.le_of_not_lt three
      split
      next small =>
        have first : a / 100 < 10 := by omega
        have digit2 : digit a 2 = Nat.digitChar (a / 100) := by
          change Nat.digitChar (a / 100 % 10) = _
          rw [Nat.mod_eq_of_lt first]
        rw [@toDigits_eq_guarded 2 a small, guarded_of_le low, asciiDigit_eq _ first, ← digit2, d1, d0]
        rfl
      next four =>
        have low : 10 ^ 3 ≤ a := Nat.le_of_not_lt four
        rw [@toDigits_eq_guarded 3 a small, guarded_of_le low, d3, d2, d1, d0]
        rfl

theorem u64toa_eq (value : UInt64) : u64toa value = Nat.toDigits 10 value.toNat := by
  have range := value.toNat_lt
  unfold u64toa
  dsimp only
  split
  next small => exact putSmall_eq small
  next large =>
    have low : 10 ^ 8 ≤ value.toNat := Nat.le_of_not_lt large
    split
    next middle =>
      have upper : value.toNat / 100000000 < 100000000 := by omega
      rw [toDigits_of_le low, putEight_eq (Nat.mod_lt _ (by decide))]
      simp only [putFrom_scaled]
      congr 1
      exact (toDigits_eq_stores upper).symm
    next huge =>
      have upper : 10 ^ 8 ≤ value.toNat / 10 ^ 8 := by omega
      have top : value.toNat / 100000000 / 100000000 = value.toNat / (100000000 * 100000000) :=
        Nat.div_div_eq_div_mul _ _ _
      have middle : value.toNat % (100000000 * 100000000) / 100000000 =
          value.toNat / 100000000 % 100000000 := Nat.mod_mul_right_div_self _ _ _
      have lowest : value.toNat % (100000000 * 100000000) % 100000000 = value.toNat % 100000000 :=
        Nat.mod_mod_of_dvd _ ⟨100000000, rfl⟩
      rw [leading_eq (by omega), middle, lowest, putEight_eq (Nat.mod_lt _ (by decide)),
        putEight_eq (Nat.mod_lt _ (by decide)), toDigits_of_le low, toDigits_of_le upper, ← top]
      simp only [Nat.reducePow]

/-! ## Signed values -/

theorem i32toa_eq (value : CInt) : i32toa value = Decimal.print value.val := by
  have lower := value.lower
  have upper := value.upper
  unfold i32toa Decimal.print
  dsimp only
  split
  next negative =>
    have absolute : (~~~UInt32.ofInt value.val + 1).toNat = value.val.natAbs := by
      rw [← UInt32.neg_eq_not_add, UInt32.toNat_neg, UInt32.ofInt, UInt32.toNat_ofNat', UInt32.size]
      omega
    rw [u32toa_eq, absolute]
  next nonneg =>
    have absolute : (UInt32.ofInt value.val).toNat = value.val.natAbs := by
      rw [UInt32.ofInt, UInt32.toNat_ofNat']
      omega
    rw [u32toa_eq, absolute]

theorem i64toa_eq (value : CInt64) : i64toa value = Decimal.print value.val := by
  have lower := value.lower
  have upper := value.upper
  unfold i64toa Decimal.print
  dsimp only
  split
  next negative =>
    have absolute : (~~~UInt64.ofInt value.val + 1).toNat = value.val.natAbs := by
      rw [← UInt64.neg_eq_not_add, UInt64.toNat_neg, UInt64.ofInt, UInt64.toNat_ofNat', UInt64.size]
      omega
    rw [u64toa_eq, absolute]
  next nonneg =>
    have absolute : (UInt64.ofInt value.val).toNat = value.val.natAbs := by
      rw [UInt64.ofInt, UInt64.toNat_ofNat']
      omega
    rw [u64toa_eq, absolute]

/-! ## Main result -/

/-- The four functions write every value of their types in decimal. -/
theorem itoa_writes_decimal :
    (∀ value : UInt32, u32toa value = Decimal.print value.toNat) ∧
    (∀ value : CInt, i32toa value = Decimal.print value.val) ∧
    (∀ value : UInt64, u64toa value = Decimal.print value.toNat) ∧
    ∀ value : CInt64, i64toa value = Decimal.print value.val := by
  refine ⟨fun value => ?_, i32toa_eq, fun value => ?_, i64toa_eq⟩
  · rw [u32toa_eq, print_natCast]
  · rw [u64toa_eq, print_natCast]

end Ns3Blockchain.Rapidjson
