import Mathlib.Tactic.Common

/-! # Integers of a machine range

`BoundedInt lo hi` is the type of the integers in `[lo, hi]`: the bounds are
fields, so a value outside the machine range cannot be built.  `ofInt?` is the
checked constructor every arithmetic operation of a program goes through.
-/

namespace Ns3Blockchain.Library

/-- An integer between `lo` and `hi`. -/
structure BoundedInt (lo hi : Int) where
  val : Int
  lower : lo ≤ val
  upper : val ≤ hi
deriving DecidableEq

namespace BoundedInt

variable {lo hi : Int}

@[ext] theorem ext {a b : BoundedInt lo hi} (same : a.val = b.val) : a = b := by
  cases a
  cases b
  cases same
  rfl

theorem val_inj {a b : BoundedInt lo hi} : a.val = b.val ↔ a = b :=
  ⟨ext, fun same => by rw [same]⟩

instance : LT (BoundedInt lo hi) := ⟨fun a b => a.val < b.val⟩

instance : LE (BoundedInt lo hi) := ⟨fun a b => a.val ≤ b.val⟩

instance (a b : BoundedInt lo hi) : Decidable (a < b) := inferInstanceAs (Decidable (a.val < b.val))

instance (a b : BoundedInt lo hi) : Decidable (a ≤ b) := inferInstanceAs (Decidable (a.val ≤ b.val))

theorem lt_def {a b : BoundedInt lo hi} : a < b ↔ a.val < b.val := Iff.rfl

theorem le_def {a b : BoundedInt lo hi} : a ≤ b ↔ a.val ≤ b.val := Iff.rfl

/-- The value `z`, when the range has it. -/
def ofInt? (lo hi z : Int) : Option (BoundedInt lo hi) :=
  if range : lo ≤ z ∧ z ≤ hi then some ⟨z, range.1, range.2⟩ else none

theorem ofInt?_eq_some_iff {z : Int} {a : BoundedInt lo hi} :
    ofInt? lo hi z = some a ↔ a.val = z := by
  unfold ofInt?
  split
  next range =>
    rw [Option.some.injEq, ← val_inj]
    exact eq_comm
  next range =>
    constructor
    · intro absurdity
      cases absurdity
    · rintro rfl
      exact absurd ⟨a.lower, a.upper⟩ range

theorem ofInt?_eq_none_iff {z : Int} : ofInt? lo hi z = none ↔ ¬ (lo ≤ z ∧ z ≤ hi) := by
  unfold ofInt?
  split
  next range => simp [range]
  next range => simp [range]

@[simp] theorem ofInt?_val (a : BoundedInt lo hi) : ofInt? lo hi a.val = some a :=
  ofInt?_eq_some_iff.mpr rfl

end BoundedInt

end Ns3Blockchain.Library
