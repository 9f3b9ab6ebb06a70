import Mathlib.Data.List.Basic
import Mathlib.Data.List.Induction
import Mathlib.Logic.Function.Basic

/-! # Registers and the last write to each

A bank of registers, each of a type of its own, and writes to it.  After any
sequence of writes a register holds the last value written to it, and the last write
to a register does not depend on the writes to another.
-/

namespace Ns3Blockchain.Library.Registers

variable {ι : Type} [DecidableEq ι] {V : ι → Type}

/-- A register and the value written to it. -/
abbrev Write (V : ι → Type) := Σ i, V i

def write (bank : (i : ι) → V i) (w : Write V) : (i : ι) → V i := Function.update bank w.1 w.2

def runWrites (bank : (i : ι) → V i) (writes : List (Write V)) : (i : ι) → V i :=
  writes.foldl write bank

/-- What the write puts into register `i`. -/
def Write.at? (i : ι) (w : Write V) : Option (V i) :=
  if same : w.1 = i then some (same ▸ w.2) else none

/-- The last value the writes put into register `i`. -/
def lastWrite (i : ι) (writes : List (Write V)) : Option (V i) :=
  (writes.filterMap (Write.at? i)).getLast?

theorem write_apply (bank : (i : ι) → V i) (w : Write V) (i : ι) :
    write bank w i = (w.at? i).getD (bank i) := by
  obtain ⟨j, v⟩ := w
  rw [write, Write.at?]
  by_cases same : j = i
  · subst same
    rw [Function.update_self, dif_pos rfl]
    rfl
  · rw [Function.update_of_ne (Ne.symm same), dif_neg same]
    rfl

theorem lastWrite_append (i : ι) (writes : List (Write V)) (w : Write V) :
    lastWrite i (writes ++ [w]) = (w.at? i).or (lastWrite i writes) := by
  rw [lastWrite, List.filterMap_append, List.filterMap_cons, List.filterMap_nil]
  cases w.at? i with
  | none => rw [List.append_nil, Option.none_or, lastWrite]
  | some v => rw [List.getLast?_concat, Option.some_or]

theorem runWrites_append (bank : (i : ι) → V i) (writes later : List (Write V)) :
    runWrites bank (writes ++ later) = runWrites (runWrites bank writes) later :=
  List.foldl_append

/-- A register holds the last value written to it, or what it held at first. -/
theorem runWrites_apply (bank : (i : ι) → V i) (writes : List (Write V)) (i : ι) :
    runWrites bank writes i = (lastWrite i writes).getD (bank i) := by
  induction writes using List.reverseRecOn with
  | nil => rfl
  | append_singleton writes w inductionHypothesis =>
    have last : runWrites bank (writes ++ [w]) = write (runWrites bank writes) w :=
      runWrites_append bank writes [w]
    rw [last, write_apply, lastWrite_append, inductionHypothesis]
    cases w.at? i <;> rfl

/-- What is written elsewhere does not count. -/
theorem lastWrite_filter {i j : ι} (other : j ≠ i) (writes : List (Write V)) :
    lastWrite j (writes.filter fun w => w.1 ≠ i) = lastWrite j writes := by
  rw [lastWrite, lastWrite, List.filterMap_filter]
  congr 1
  apply List.filterMap_congr
  intro w _
  by_cases hit : w.1 = i
  · have missed : ¬ w.1 = j := by
      rw [hit]
      exact Ne.symm other
    rw [if_neg (by simpa using hit), Write.at?, dif_neg missed]
  · rw [if_pos (by simpa using hit)]

theorem lastWrite_congr {i j : ι} (other : j ≠ i) {writes writes' : List (Write V)}
    (alike : (writes.filter fun w => w.1 ≠ i) = writes'.filter fun w => w.1 ≠ i) :
    lastWrite j writes = lastWrite j writes' := by
  rw [← lastWrite_filter other writes, alike, lastWrite_filter other writes']

end Ns3Blockchain.Library.Registers
