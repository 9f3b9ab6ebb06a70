import Mathlib.Data.List.TakeWhile

/-! # Longest prefixes of a class

A scanner that takes characters of the class `p` as long as there are any stops where
the stream `Ends p`.  Every stream is one such run and what ends it, and the run is
what `takeWhile` takes and `dropWhile` drops.
-/

namespace Ns3Blockchain.Library

variable {α : Type} {p : α → Bool} {run rest : List α}

/-- The stream does not go on in the class. -/
def Ends (p : α → Bool) (rest : List α) : Prop := ∀ x ∈ rest.head?, p x = false

@[simp] theorem ends_nil : Ends p [] := by simp [Ends]

@[simp] theorem ends_cons_iff {x : α} : Ends p (x :: rest) ↔ p x = false := by simp [Ends]

theorem dropWhile_run (inside : ∀ x ∈ run, p x = true) (ended : Ends p rest) :
    (run ++ rest).dropWhile p = rest := by
  rw [List.dropWhile_append_of_pos inside]
  cases rest with
  | nil => rfl
  | cons x rest =>
    rw [ends_cons_iff] at ended
    simp [ended]

theorem ends_dropWhile (stream : List α) : Ends p (stream.dropWhile p) := by
  induction stream with
  | nil => exact ends_nil
  | cons x stream inductionHypothesis =>
    rw [List.dropWhile_cons]
    split
    next => exact inductionHypothesis
    next outside => exact ends_cons_iff.mpr (by simpa using outside)

/-- Every stream is a run and what ends it. -/
theorem exists_run (p : α → Bool) (stream : List α) :
    ∃ run rest, stream = run ++ rest ∧ (∀ x ∈ run, p x = true) ∧ Ends p rest :=
  ⟨stream.takeWhile p, stream.dropWhile p, List.takeWhile_append_dropWhile.symm,
    fun _ member => List.mem_takeWhile_imp member, ends_dropWhile stream⟩

theorem Ends.mono {q : α → Bool} (within : ∀ x, q x = true → p x = true) (ended : Ends p rest) :
    Ends q rest := by
  intro x first
  have outside := ended x first
  cases class' : q x with
  | false => rfl
  | true =>
    rw [within x class'] at outside
    cases outside

end Ns3Blockchain.Library
