import Mathlib.Tactic.Common

/-! # Computations that may fail

The bind laws of `Except` as rewriting rules, and scans whose test may itself
fail: `scanFirst` stops at the first element accepted, `scanAll` collects the
accepted ones in order, `foldChecked` threads a state.  Where the test does not
fail the scans are `List.find?` and `List.filter`.
-/

namespace Ns3Blockchain.Library

variable {ε α β σ : Type}

/-! ## Bind -/

@[simp] theorem ok_bind (a : α) (f : α → Except ε β) : (Except.ok a >>= f) = f a := rfl

@[simp] theorem error_bind (e : ε) (f : α → Except ε β) : (Except.error e >>= f) = .error e := rfl

@[simp] theorem pure_eq_ok (a : α) : (pure a : Except ε α) = .ok a := rfl

theorem bind_eq_ok_iff {x : Except ε α} {f : α → Except ε β} {b : β} :
    (x >>= f) = .ok b ↔ ∃ a, x = .ok a ∧ f a = .ok b := by
  cases x with
  | error e => simp
  | ok a => simp

/-! ## Scans -/

/-- The first element the test accepts; a failing test ends the scan. -/
def scanFirst (test : α → Except ε Bool) : List α → Except ε (Option α)
  | [] => .ok none
  | x :: xs => do
    if ← test x then
      return some x
    else
      scanFirst test xs

/-- Every element the test accepts, in order; a failing test ends the scan. -/
def scanAll (test : α → Except ε Bool) : List α → Except ε (List α)
  | [] => .ok []
  | x :: xs => do
    let accepted ← test x
    let rest ← scanAll test xs
    return if accepted then x :: rest else rest

theorem scanFirst_eq_find? {test : α → Except ε Bool} {p : α → Bool} {xs : List α}
    (total : ∀ x ∈ xs, test x = .ok (p x)) : scanFirst test xs = .ok (xs.find? p) := by
  induction xs with
  | nil => rfl
  | cons x xs inductionHypothesis =>
    have head := total x List.mem_cons_self
    have tail := inductionHypothesis fun y member => total y (List.mem_cons_of_mem _ member)
    cases accepted : p x <;> simp [scanFirst, head, tail, accepted]

theorem scanAll_eq_filter {test : α → Except ε Bool} {p : α → Bool} {xs : List α}
    (total : ∀ x ∈ xs, test x = .ok (p x)) : scanAll test xs = .ok (xs.filter p) := by
  induction xs with
  | nil => rfl
  | cons x xs inductionHypothesis =>
    have head := total x List.mem_cons_self
    have tail := inductionHypothesis fun y member => total y (List.mem_cons_of_mem _ member)
    cases accepted : p x <;> simp [scanAll, head, tail, accepted]

/-- A scan that finishes has evaluated the test everywhere. -/
theorem scanAll_total {test : α → Except ε Bool} {xs ys : List α}
    (finished : scanAll test xs = .ok ys) : ∀ x ∈ xs, ∃ accepted, test x = .ok accepted := by
  induction xs generalizing ys with
  | nil =>
    intro x member
    cases member
  | cons x xs inductionHypothesis =>
    rw [scanAll, bind_eq_ok_iff] at finished
    obtain ⟨accepted, head, finished⟩ := finished
    obtain ⟨rest, tail, _⟩ := bind_eq_ok_iff.mp finished
    intro y member
    cases member with
    | head => exact ⟨accepted, head⟩
    | tail _ member => exact inductionHypothesis tail y member

/-! ## Runs -/

/-- Apply one step for every input, in order; a failing step ends the run. -/
def foldChecked (step : σ → α → Except ε σ) : σ → List α → Except ε σ
  | s, [] => .ok s
  | s, x :: xs => do
    let s' ← step s x
    foldChecked step s' xs

@[simp] theorem foldChecked_nil (step : σ → α → Except ε σ) (s : σ) :
    foldChecked step s [] = .ok s := rfl

theorem foldChecked_append (step : σ → α → Except ε σ) (s : σ) (xs ys : List α) :
    foldChecked step s (xs ++ ys) = foldChecked step s xs >>= fun s' => foldChecked step s' ys := by
  induction xs generalizing s with
  | nil => rfl
  | cons x xs inductionHypothesis =>
    rw [List.cons_append, foldChecked, foldChecked]
    cases step s x with
    | error e => rfl
    | ok s' => exact inductionHypothesis s'

theorem foldChecked_append_singleton (step : σ → α → Except ε σ) (s : σ) (xs : List α) (x : α) :
    foldChecked step s (xs ++ [x]) = foldChecked step s xs >>= fun s' => step s' x := by
  rw [foldChecked_append]
  congr 1
  funext s'
  rw [foldChecked]
  cases step s' x <;> rfl

/-- The run rule: what every step preserves, relative to the inputs consumed so
    far, holds at the end of a run that finishes. -/
theorem foldChecked_invariant {step : σ → α → Except ε σ} (invariant : List α → σ → Prop)
    {s t : σ} {xs : List α} (start : invariant [] s)
    (preserved : ∀ consumed x s s', x ∈ xs → invariant consumed s → step s x = .ok s' →
      invariant (consumed ++ [x]) s')
    (finished : foldChecked step s xs = .ok t) : invariant xs t := by
  -- The induction is on the inputs left; the consumed ones move to the invariant.
  suffices general : ∀ rest consumed s, (∀ x ∈ rest, x ∈ xs) → invariant consumed s →
      foldChecked step s rest = .ok t → invariant (consumed ++ rest) t by
    simpa using general xs [] s (fun _ member => member) start finished
  intro rest
  induction rest with
  | nil =>
    intro consumed s _ holds finished
    cases finished
    simpa using holds
  | cons x rest inductionHypothesis =>
    intro consumed s members holds finished
    obtain ⟨s', stepped, finished⟩ := bind_eq_ok_iff.mp finished
    have next := preserved consumed x s s' (members x List.mem_cons_self) holds stepped
    simpa using inductionHypothesis (consumed ++ [x]) s'
      (fun y member => members y (List.mem_cons_of_mem _ member)) next finished

/-- The progress rule: when an invariant also rules out failure, the run
    finishes and the invariant holds at its end. -/
theorem foldChecked_progress {step : σ → α → Except ε σ} (invariant : List α → σ → Prop)
    {s : σ} {xs : List α} (start : invariant [] s)
    (preserved : ∀ consumed x s, consumed ++ [x] <+: xs → invariant consumed s →
      ∃ s', step s x = .ok s' ∧ invariant (consumed ++ [x]) s') :
    ∃ t, foldChecked step s xs = .ok t ∧ invariant xs t := by
  suffices general : ∀ rest consumed s, consumed ++ rest = xs → invariant consumed s →
      ∃ t, foldChecked step s rest = .ok t ∧ invariant xs t from general xs [] s rfl start
  intro rest
  induction rest with
  | nil =>
    rintro consumed s rfl holds
    exact ⟨s, rfl, by simpa using holds⟩
  | cons x rest inductionHypothesis =>
    intro consumed s whole holds
    have sofar : consumed ++ [x] <+: xs := ⟨rest, by simpa using whole⟩
    obtain ⟨s', stepped, next⟩ := preserved consumed x s sofar holds
    obtain ⟨t, finished, final⟩ := inductionHypothesis (consumed ++ [x]) s' (by simpa using whole) next
    exact ⟨t, by rw [foldChecked, stepped]; exact finished, final⟩

/-- A run that finishes has applied a step to every input. -/
theorem foldChecked_step_ok {step : σ → α → Except ε σ} {s t : σ} {xs : List α}
    (finished : foldChecked step s xs = .ok t) : ∀ x ∈ xs, ∃ s s', step s x = .ok s' := by
  induction xs generalizing s with
  | nil =>
    intro x member
    cases member
  | cons x xs inductionHypothesis =>
    obtain ⟨s', stepped, finished⟩ := bind_eq_ok_iff.mp finished
    intro y member
    cases member with
    | head => exact ⟨s, s', stepped⟩
    | tail _ member => exact inductionHypothesis finished y member

/-! ## Runs that follow a plan -/

section Plan

variable {τ : Type} {step : σ → α → Except ε σ} {next : τ → α → τ} {agrees : σ → τ → Prop}

/-- A run that finishes ends where the plan of its inputs does. -/
theorem foldChecked_follows
    (keeps : ∀ s t x s', agrees s t → step s x = .ok s' → agrees s' (next t x)) {s s' : σ} {t : τ}
    {xs : List α} (start : agrees s t) (finished : foldChecked step s xs = .ok s') :
    agrees s' (xs.foldl next t) := by
  induction xs generalizing s t with
  | nil =>
    cases finished
    exact start
  | cons x xs inductionHypothesis =>
    obtain ⟨between, stepped, finished⟩ := bind_eq_ok_iff.mp finished
    exact inductionHypothesis (keeps s t x between start stepped) finished

/-- Where the plan decides whether a step succeeds, it decides whether a run does. -/
theorem foldChecked_ok_iff (allows : τ → α → Prop)
    (guard : ∀ s t x, agrees s t → ((∃ s', step s x = .ok s') ↔ allows t x))
    (keeps : ∀ s t x s', agrees s t → step s x = .ok s' → agrees s' (next t x)) {s : σ} {t : τ}
    {xs : List α} (start : agrees s t) :
    (∃ s', foldChecked step s xs = .ok s') ↔
      ∀ before x after, xs = before ++ x :: after → allows (before.foldl next t) x := by
  constructor
  · rintro ⟨s', finished⟩ before x after rfl
    rw [foldChecked_append] at finished
    obtain ⟨between, first, finished⟩ := bind_eq_ok_iff.mp finished
    obtain ⟨last, stepped, _⟩ := bind_eq_ok_iff.mp finished
    exact (guard between _ x (foldChecked_follows keeps start first)).mp ⟨last, stepped⟩
  · intro allowed
    have progress : ∃ s', foldChecked step s xs = .ok s' ∧ agrees s' (xs.foldl next t) := by
      refine foldChecked_progress (fun consumed s => agrees s (consumed.foldl next t)) start ?_
      rintro consumed x between ⟨rest, whole⟩ sofar
      have here := allowed consumed x rest (by rw [← whole]; simp)
      obtain ⟨s', stepped⟩ := (guard between _ x sofar).mpr here
      refine ⟨s', stepped, ?_⟩
      rw [List.foldl_append]
      exact keeps between _ x s' sofar stepped
    obtain ⟨s', finished, _⟩ := progress
    exact ⟨s', finished⟩

end Plan

/-! ## Errors that do not occur -/

/-- The computation does not fail with `e`. -/
def Avoids (e : ε) (x : Except ε α) : Prop := x ≠ .error e

@[simp] theorem avoids_ok (e : ε) (a : α) : Avoids e (.ok a) := by
  intro absurdity
  cases absurdity

@[simp] theorem avoids_error_iff {e e' : ε} : Avoids e (.error e' : Except ε α) ↔ e' ≠ e := by
  rw [Avoids, ne_eq, Except.error.injEq]

theorem avoids_bind {e : ε} {x : Except ε α} {f : α → Except ε β} (first : Avoids e x)
    (next : ∀ a, x = .ok a → Avoids e (f a)) : Avoids e (x >>= f) := by
  cases x with
  | error e' => simpa using first
  | ok a => exact next a rfl

theorem avoids_foldChecked {e : ε} {step : σ → α → Except ε σ} {xs : List α}
    (each : ∀ x ∈ xs, ∀ s, Avoids e (step s x)) (s : σ) : Avoids e (foldChecked step s xs) := by
  induction xs generalizing s with
  | nil => exact avoids_ok e s
  | cons x xs inductionHypothesis =>
    exact avoids_bind (each x List.mem_cons_self s) fun s' _ =>
      inductionHypothesis (fun y member => each y (List.mem_cons_of_mem _ member)) s'

end Ns3Blockchain.Library
