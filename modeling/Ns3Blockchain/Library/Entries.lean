import Mathlib.Data.List.Basic
import Mathlib.Data.List.Induction

/-! # Lists of named entries

A name may repeat; a lookup finds the first entry of its name.  An entry is removed
by moving the last one into its place, which keeps the others but may bring a later
entry of a name before an earlier one.
-/

namespace Ns3Blockchain.Library.Entries

variable {κ α : Type} [BEq κ]

def firstOf (name : κ) (entries : List (κ × α)) : Option α :=
  (entries.find? fun entry => entry.1 == name).map Prod.snd

theorem firstOf_append (name : κ) (entries later : List (κ × α)) :
    firstOf name (entries ++ later) = (firstOf name entries).or (firstOf name later) := by
  rw [firstOf, List.find?_append, Option.map_or, firstOf, firstOf]

theorem firstOf_cons (name : κ) (entry : κ × α) (entries : List (κ × α)) :
    firstOf name (entry :: entries) =
      (if entry.1 == name then some entry.2 else none).or (firstOf name entries) := by
  rw [firstOf, firstOf, List.find?_cons]
  cases entry.1 == name <;> rfl

theorem firstOf_singleton (name : κ) (entry : κ × α) :
    firstOf name [entry] = if entry.1 == name then some entry.2 else none :=
  (firstOf_cons name entry []).trans Option.or_none

variable [LawfulBEq κ]

theorem firstOf_eq_none_iff {name : κ} {entries : List (κ × α)} :
    firstOf name entries = none ↔ name ∉ entries.map Prod.fst := by
  rw [firstOf, Option.map_eq_none_iff, List.find?_eq_none, List.mem_map]
  constructor
  · rintro missing ⟨entry, member, named⟩
    exact missing entry member (beq_iff_eq.mpr named)
  · intro absent entry member named
    exact absent ⟨entry, member, beq_iff_eq.mp named⟩

/-! ## Removal -/

section

variable {β : Type}

/-- The entries in their order, but for the last, which comes first. -/
def lastToFront (entries : List β) : List β := entries.getLast?.toList ++ entries.dropLast

theorem lastToFront_concat (entries : List β) (last : β) :
    lastToFront (entries ++ [last]) = last :: entries := by
  rw [lastToFront, List.getLast?_concat, List.dropLast_concat]
  rfl

theorem lastToFront_perm (entries : List β) : (lastToFront entries).Perm entries := by
  cases entries using List.reverseRecOn with
  | nil => exact List.Perm.nil
  | append_singleton entries last =>
    rw [lastToFront_concat]
    exact (List.perm_append_singleton last entries).symm

/-- Entry `m` is overwritten with the last one, which then goes. -/
def removeAt (entries : List β) (m : Nat) : List β :=
  match entries.getLast? with
  | some last => (entries.set m last).dropLast
  | none => entries

theorem removeAt_split (before : List β) (entry : β) (after : List β) :
    removeAt (before ++ entry :: after) before.length = before ++ lastToFront after := by
  cases after using List.reverseRecOn with
  | nil => simp [removeAt, lastToFront]
  | append_singleton after last =>
    have whole : before ++ entry :: (after ++ [last]) = (before ++ entry :: after) ++ [last] := by
      simp
    rw [removeAt, whole, List.getLast?_concat, ← whole]
    dsimp only
    rw [List.set_append_right _ _ (Nat.le_refl _), Nat.sub_self, List.set_cons_zero,
      lastToFront_concat, ← List.cons_append, ← List.append_assoc, List.dropLast_concat]

end

/-! ## Lookups after a removal -/

/-- The place a name is first found at is where the entries split. -/
theorem findIdx?_split {name : κ} {before : List (κ × α)} (first : name ∉ before.map Prod.fst)
    (value : α) (after : List (κ × α)) :
    (before ++ (name, value) :: after).findIdx? (fun entry => entry.1 == name) =
      some before.length := by
  rw [List.findIdx?_append]
  have missing : before.findIdx? (fun entry => entry.1 == name) = none := by
    rw [List.findIdx?_eq_none_iff]
    intro entry member
    by_contra named
    exact first (List.mem_map.mpr ⟨entry, member, by simpa using named⟩)
  rw [missing, List.findIdx?_cons]
  simp

/-- Moving the last entry forward hides an earlier one of its name, unless that name
    is found before, or with the same value. -/
theorem firstOf_lastToFront_iff {name : κ} {before after : List (κ × α)} :
    firstOf name (before ++ lastToFront after) = firstOf name (before ++ after) ↔
      ∀ last ∈ after.getLast?, last.1 = name → name ∉ before.map Prod.fst →
        firstOf name after = some last.2 := by
  rw [firstOf_append, firstOf_append, ← firstOf_eq_none_iff]
  cases after using List.reverseRecOn with
  | nil => simp [lastToFront]
  | append_singleton after last =>
    rw [lastToFront_concat, List.getLast?_concat]
    cases found : firstOf name before with
    | some value => simp
    | none =>
      rw [Option.none_or, Option.none_or, firstOf_cons]
      by_cases named : last.1 = name
      · simp [named, eq_comm]
      · simp [named, firstOf]

end Ns3Blockchain.Library.Entries
