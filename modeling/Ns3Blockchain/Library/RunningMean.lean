import Mathlib.Algebra.BigOperators.Group.List.Basic
import Mathlib.Algebra.CharZero.Defs
import Mathlib.Algebra.Field.Basic

/-! # The running mean

A counter and a mean, brought up to date one sample at a time.  The mean of no
sample is zero.
-/

namespace Ns3Blockchain.Library

variable {K : Type} [Field K]

def mean (xs : List K) : K := xs.sum / xs.length

/-- The mean after one more sample than the `count` behind `old`. -/
def nextMean (old : K) (count : ℕ) (x : K) : K := (old * count + x) / (count + 1)

theorem mean_nil : mean ([] : List K) = 0 := by simp [mean]

variable [CharZero K]

theorem mean_mul_length (xs : List K) : mean xs * xs.length = xs.sum := by
  cases xs with
  | nil => simp [mean]
  | cons x xs =>
    have positive : ((x :: xs).length : K) ≠ 0 := Nat.cast_ne_zero.mpr (Nat.succ_ne_zero _)
    rw [mean, div_mul_cancel₀ _ positive]

/-- One update of the mean of the samples so far gives the mean with the next. -/
theorem nextMean_mean (xs : List K) (x : K) : nextMean (mean xs) xs.length x = mean (xs ++ [x]) := by
  rw [nextMean, mean_mul_length, mean, List.sum_append, List.sum_singleton, List.length_append,
    List.length_singleton, Nat.cast_add, Nat.cast_one]

end Ns3Blockchain.Library
