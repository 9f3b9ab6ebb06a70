import Mathlib.Data.List.Nodup

/-! # First arrivals

A receiver that drops what it has seen keeps, of everything that arrives, the
first element of each key.
-/

namespace Ns3Blockchain.Library

variable {α κ : Type} [DecidableEq κ] (key : α → κ)

/-- The first element of each key, in order of arrival. -/
def firstArrivals : List α → List α
  | [] => []
  | x :: xs => x :: (firstArrivals xs).filter fun y => key y ≠ key x

theorem mem_map_firstArrivals {history : List α} {k : κ} :
    k ∈ (firstArrivals key history).map key ↔ k ∈ history.map key := by
  induction history with
  | nil => exact Iff.rfl
  | cons x xs inductionHypothesis =>
    simp only [List.mem_map] at inductionHypothesis
    by_cases same : key x = k
    · simp [firstArrivals, same]
    · simp only [firstArrivals, List.map_cons, List.mem_cons, List.mem_map, List.mem_filter,
        Ne.symm same, false_or, ← inductionHypothesis]
      constructor
      · intro ⟨y, ⟨member, _⟩, found⟩
        exact ⟨y, member, found⟩
      · intro ⟨y, member, found⟩
        exact ⟨y, ⟨member, by simpa [found] using Ne.symm same⟩, found⟩

/-- No key is kept twice. -/
theorem nodup_map_firstArrivals (history : List α) :
    ((firstArrivals key history).map key).Nodup := by
  induction history with
  | nil => exact List.nodup_nil
  | cons x xs inductionHypothesis =>
    rw [firstArrivals, List.map_cons, List.nodup_cons]
    constructor
    · intro member
      obtain ⟨y, kept, same⟩ := List.mem_map.mp member
      exact (decide_eq_true_eq.mp (List.mem_filter.mp kept).2) same
    · exact inductionHypothesis.sublist (List.filter_sublist.map key)

/-- The next arrival is dropped when its key has come before, and kept last
    otherwise. -/
theorem firstArrivals_append_singleton (history : List α) (x : α) :
    firstArrivals key (history ++ [x]) =
      if key x ∈ history.map key then firstArrivals key history
      else firstArrivals key history ++ [x] := by
  induction history with
  | nil => rfl
  | cons y ys inductionHypothesis =>
    rw [List.cons_append, firstArrivals, firstArrivals, inductionHypothesis, List.map_cons]
    -- `y` hides the later arrivals of its own key, so only another key looks further.
    by_cases same : key x = key y
    · have seen : key x ∈ key y :: ys.map key := by
        rw [same]
        exact List.mem_cons_self
      rw [if_pos seen]
      split
      next => rfl
      next => simp [same]
    · by_cases seen : key x ∈ ys.map key
      · rw [if_pos seen, if_pos (List.mem_cons_of_mem _ seen)]
      · have unseen : ¬ key x ∈ key y :: ys.map key := by
          rw [List.mem_cons, not_or]
          exact ⟨same, seen⟩
        rw [if_neg seen, if_neg unseen, List.filter_append, List.cons_append]
        simp [same]

/-- What is kept for a key is the first of everything that came with it. -/
theorem head?_filter_of_mem_firstArrivals {history : List α} {x : α}
    (kept : x ∈ firstArrivals key history) :
    (history.filter fun y => key y = key x).head? = some x := by
  induction history with
  | nil => cases kept
  | cons y ys inductionHypothesis =>
    rw [firstArrivals, List.mem_cons, List.mem_filter] at kept
    obtain rfl | ⟨kept, other⟩ := kept
    · simp
    · have skipped : ¬ key y = key x := fun same => decide_eq_true_eq.mp other same.symm
      rw [List.filter_cons_of_neg (by simpa using skipped)]
      exact inductionHypothesis kept

/-- Later arrivals do not disturb what is kept. -/
theorem firstArrivals_grows (xs ys : List α) :
    firstArrivals key xs <+: firstArrivals key (xs ++ ys) := by
  induction ys generalizing xs with
  | nil =>
    have same : firstArrivals key xs = firstArrivals key (xs ++ []) := by rw [List.append_nil]
    exact same ▸ List.prefix_rfl
  | cons y ys inductionHypothesis =>
    have rest := inductionHypothesis (xs ++ [y])
    rw [List.append_assoc, List.singleton_append] at rest
    refine List.IsPrefix.trans ?_ rest
    rw [firstArrivals_append_singleton]
    split
    next => exact List.prefix_rfl
    next => exact List.prefix_append _ _

/-- Keeping first arrivals commutes with looking at some of the keys only. -/
theorem filter_firstArrivals (p : κ → Bool) (history : List α) :
    (firstArrivals key history).filter (fun x => p (key x)) =
      firstArrivals key (history.filter fun x => p (key x)) := by
  induction history with
  | nil => rfl
  | cons x xs inductionHypothesis =>
    rw [firstArrivals, List.filter_cons, List.filter_cons, List.filter_filter]
    split
    next accepted =>
      rw [firstArrivals, ← inductionHypothesis, List.filter_filter]
      congr 1
      apply List.filter_congr
      intro y _
      exact Bool.and_comm _ _
    next rejected =>
      -- An arrival hidden by `x` has the key of `x`, so it is filtered away as well.
      rw [← inductionHypothesis]
      apply List.filter_congr
      intro y _
      rw [Bool.and_eq_left_iff_imp, decide_eq_true_eq]
      intro accepted same
      rw [same] at accepted
      exact rejected accepted

/-- The keys kept are the first arrivals of the keys. -/
theorem map_firstArrivals (history : List α) :
    (firstArrivals key history).map key = firstArrivals (fun k => k) (history.map key) := by
  induction history with
  | nil => rfl
  | cons x xs inductionHypothesis =>
    rw [firstArrivals, List.map_cons, List.map_cons, firstArrivals, ← inductionHypothesis,
      List.filter_map]
    rfl

/-- At most one arrival is kept exactly when all have one key. -/
theorem length_firstArrivals_le_one_iff {history : List α} :
    (firstArrivals key history).length ≤ 1 ↔ ∀ x ∈ history, ∀ y ∈ history, key x = key y := by
  have kept : ∀ {z : α}, z ∈ history → key z ∈ (firstArrivals key history).map key := fun member =>
    (mem_map_firstArrivals key).mpr (List.mem_map_of_mem member)
  have distinct := nodup_map_firstArrivals key history
  have kind : ∀ k ∈ (firstArrivals key history).map key, k ∈ history.map key := fun k member =>
    (mem_map_firstArrivals key).mp member
  rw [← List.length_map key]
  generalize (firstArrivals key history).map key = keys at kept distinct kind
  cases keys with
  | nil => exact iff_of_true (Nat.zero_le 1) fun x member => absurd (kept member) List.not_mem_nil
  | cons k keys =>
    cases keys with
    | nil =>
      refine iff_of_true (Nat.le_refl 1) fun x xMember y yMember => ?_
      exact (List.mem_singleton.mp (kept xMember)).trans (List.mem_singleton.mp (kept yMember)).symm
    | cons k' keys =>
      -- Two keys are kept, and each came with an arrival.
      refine iff_of_false (by simp) fun alike => ?_
      obtain ⟨x, xMember, rfl⟩ := List.mem_map.mp (kind k (by simp))
      obtain ⟨y, yMember, rfl⟩ := List.mem_map.mp (kind k' (by simp))
      rw [alike x xMember y yMember] at distinct
      simp at distinct

end Ns3Blockchain.Library
