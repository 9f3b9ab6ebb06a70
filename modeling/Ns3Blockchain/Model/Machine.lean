import Ns3Blockchain.Library.BoundedInt
import Ns3Blockchain.Library.Checked
import Mathlib.Algebra.Order.Field.Rat
import Mathlib.Data.List.TakeWhile

/-! # The C++ machine the sources run on

`CInt` is the 32-bit `int`, `Str` is `std::string`.  What the language leaves
undefined, and what a library assertion stops, is a `Fault`: the functions of
the model return in `Exec`, and a fault ends the run.
-/

namespace Ns3Blockchain

open Library

/-- The ways a run of the program ends abnormally. -/
inductive Fault where
  /-- `m_blocks[i]` without such a row, or element `0` of an empty row. -/
  | rowOutOfRange
  /-- Signed `int` overflow. -/
  | intOverflow
  /-- `RAPIDJSON_ASSERT`. -/
  | jsonAssert
  /-- A call through a null `Ptr<Socket>`. -/
  | nullSocket
deriving DecidableEq

abbrev Exec := Except Fault

/-- `int`. -/
abbrev CInt := BoundedInt (-2147483648) 2147483647

namespace CInt

/-- An `int` literal, reduced modulo `2^32` as a conversion to `int` is. -/
def lit (z : Int) : CInt :=
  ⟨Int.bmod z 4294967296, Int.le_bmod (by decide), Int.bmod_le (by decide)⟩

@[simp] theorem val_lit (z : Int) (range : -2147483648 ≤ z ∧ z ≤ 2147483647) : (lit z).val = z :=
  Int.bmod_eq_of_le (by omega) (by omega)

theorem val_zero : (lit 0).val = 0 := val_lit 0 (by decide)

theorem val_one : (lit 1).val = 1 := val_lit 1 (by decide)

/-- The result `z` of an `int` operation. -/
def checked (z : Int) : Exec CInt :=
  match BoundedInt.ofInt? (-2147483648) 2147483647 z with
  | some a => .ok a
  | none => .error .intOverflow

def add (a b : CInt) : Exec CInt := checked (a.val + b.val)

def sub (a b : CInt) : Exec CInt := checked (a.val - b.val)

/-- Conversion of an unsigned 32-bit value to `int`, modulo `2^32`. -/
def ofUInt32 (n : UInt32) : CInt :=
  if small : n.toNat ≤ 2147483647 then
    ⟨n.toNat, by omega, by omega⟩
  else
    ⟨(n.toNat : Int) - 4294967296, by omega, by have := n.toNat_lt; omega⟩

theorem checked_eq_ok_iff {z : Int} {a : CInt} : checked z = .ok a ↔ a.val = z := by
  rw [← BoundedInt.ofInt?_eq_some_iff, checked]
  split
  next b found => rw [found, Except.ok.injEq, Option.some.injEq]
  next missing => simp [missing]

theorem checked_of_range {z : Int} (range : -2147483648 ≤ z ∧ z ≤ 2147483647) :
    checked z = .ok ⟨z, range.1, range.2⟩ :=
  checked_eq_ok_iff.mpr rfl

theorem checked_of_overflow {z : Int} (overflow : ¬ (-2147483648 ≤ z ∧ z ≤ 2147483647)) :
    checked z = .error .intOverflow := by
  rw [checked, BoundedInt.ofInt?_eq_none_iff.mpr overflow]

theorem add_one {a : CInt} (room : a.val < 2147483647) :
    ∃ c, add a (lit 1) = .ok c ∧ c.val = a.val + 1 := by
  have lower := a.lower
  refine ⟨_, checked_of_range ⟨by rw [val_one]; omega, by rw [val_one]; omega⟩, ?_⟩
  show a.val + (lit 1).val = a.val + 1
  rw [val_one]

theorem sub_one {a : CInt} (room : -2147483648 < a.val) :
    ∃ c, sub a (lit 1) = .ok c ∧ c.val = a.val - 1 := by
  have upper := a.upper
  refine ⟨_, checked_of_range ⟨by rw [val_one]; omega, by rw [val_one]; omega⟩, ?_⟩
  show a.val - (lit 1).val = a.val - 1
  rw [val_one]

end CInt

/-- `std::string`. -/
abbrev Str := List Char

/-- The terminator of a C string. -/
def nul : Char := Char.ofNat 0

namespace Str

/-- What a `char *` reader sees of the characters of a string. -/
def cStr (s : Str) : Str := s.takeWhile fun c => c != nul

/-- `find` of a one-character delimiter; `none` is `npos`. -/
def find (s : Str) (delimiter : Char) : Option Nat := s.findIdx? fun c => c == delimiter

theorem cStr_of_nulFree {s : Str} (nulFree : nul ∉ s) : cStr s = s := by
  rw [cStr, List.takeWhile_eq_self_iff]
  intro c member
  rw [bne_iff_ne]
  rintro rfl
  exact nulFree member

theorem cStr_append_of_nulFree {s : Str} (t : Str) (nulFree : nul ∉ s) :
    cStr (s ++ t) = s ++ cStr t := by
  refine List.takeWhile_append_of_pos fun c member => ?_
  rw [bne_iff_ne]
  rintro rfl
  exact nulFree member

end Str

end Ns3Blockchain
