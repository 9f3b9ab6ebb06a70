import Ns3Blockchain.Library.Checked

/-! # Loops that need not stop

A `while` loop is its step: `none` when the guard is false, `some` next state
after one pass of the body, an error when the body fails.  `ExitsAfter` counts
the passes of a run that leaves the loop, `runLoop` is the loop with a bound on
them; each is read off the other.
-/

namespace Ns3Blockchain.Library

variable {ε σ : Type}

/-- Why a bounded run gives no state. -/
inductive Stop (ε : Type) where
  | fault (reason : ε)
  | outOfFuel
deriving DecidableEq

/-- From `s` the loop makes `passes` passes and exits in `t`. -/
inductive ExitsAfter (step : σ → Except ε (Option σ)) : Nat → σ → σ → Prop where
  | exit {s : σ} (guardFalse : step s = .ok none) : ExitsAfter step 0 s s
  | pass {passes : Nat} {s s' t : σ} (body : step s = .ok (some s'))
      (rest : ExitsAfter step passes s' t) : ExitsAfter step (passes + 1) s t

/-- The loop, given up after `fuel` evaluations of its guard. -/
def runLoop (step : σ → Except ε (Option σ)) : Nat → σ → Except (Stop ε) σ
  | 0, _ => .error .outOfFuel
  | fuel + 1, s =>
    match step s with
    | .ok none => .ok s
    | .ok (some s') => runLoop step fuel s'
    | .error reason => .error (.fault reason)

variable {step : σ → Except ε (Option σ)}

/-! ## Runs that exit -/

theorem runLoop_eq_ok_iff {fuel : Nat} {s t : σ} :
    runLoop step fuel s = .ok t ↔ ∃ passes, passes < fuel ∧ ExitsAfter step passes s t := by
  induction fuel generalizing s with
  | zero => simp [runLoop]
  | succ fuel inductionHypothesis =>
    constructor
    · intro finished
      rw [runLoop] at finished
      split at finished
      next guardFalse =>
        cases finished
        exact ⟨0, Nat.succ_pos fuel, .exit guardFalse⟩
      next s' body =>
        obtain ⟨passes, bound, rest⟩ := inductionHypothesis.mp finished
        exact ⟨passes + 1, Nat.succ_lt_succ bound, .pass body rest⟩
      next => cases finished
    · intro ⟨passes, bound, run⟩
      cases run with
      | exit guardFalse => rw [runLoop, guardFalse]
      | pass body rest =>
        rw [runLoop, body]
        exact inductionHypothesis.mpr ⟨_, Nat.lt_of_succ_lt_succ bound, rest⟩

/-- A loop leaves in one state, after one number of passes. -/
theorem ExitsAfter.unique {passes passes' : Nat} {s t t' : σ} (run : ExitsAfter step passes s t)
    (run' : ExitsAfter step passes' s t') : passes = passes' ∧ t = t' := by
  induction run generalizing passes' with
  | exit guardFalse =>
    cases run' with
    | exit _ => exact ⟨rfl, rfl⟩
    | pass body _ =>
      rw [guardFalse] at body
      cases body
  | pass body _ inductionHypothesis =>
    cases run' with
    | exit guardFalse =>
      rw [guardFalse] at body
      cases body
    | pass body' rest' =>
      rw [body] at body'
      cases body'
      obtain ⟨same, sameState⟩ := inductionHypothesis rest'
      exact ⟨by rw [same], sameState⟩

/-- The termination rule: a measure that every pass lowers bounds the fuel a run needs. -/
theorem avoids_runLoop (measure : σ → Nat)
    (lowers : ∀ s s', step s = .ok (some s') → measure s' < measure s) {fuel : Nat} {s : σ}
    (enough : measure s < fuel) : Avoids .outOfFuel (runLoop step fuel s) := by
  induction fuel generalizing s with
  | zero => exact absurd enough (Nat.not_lt_zero _)
  | succ fuel inductionHypothesis =>
    rw [runLoop]
    split
    next => exact avoids_ok _ _
    next s' body =>
      have lower := lowers s s' body
      exact inductionHypothesis (by omega)
    next => simp

/-- A fault that no pass meets is none of the loop. -/
theorem avoids_fault_runLoop {reason : ε} (each : ∀ s, Avoids reason (step s)) (fuel : Nat) (s : σ) :
    Avoids (.fault reason) (runLoop step fuel s) := by
  induction fuel generalizing s with
  | zero => exact avoids_error_iff.mpr nofun
  | succ fuel inductionHypothesis =>
    rw [runLoop]
    split
    next => exact avoids_ok _ _
    next s' _ => exact inductionHypothesis s'
    next reason' failed =>
      have other := each s
      rw [failed, avoids_error_iff] at other
      exact avoids_error_iff.mpr fun same => other (Stop.fault.inj same)

/-- The same measure bounds the passes of a run that exits. -/
theorem ExitsAfter.passes_le (measure : σ → Nat)
    (lowers : ∀ s s', step s = .ok (some s') → measure s' < measure s) {passes : Nat} {s t : σ}
    (run : ExitsAfter step passes s t) : passes ≤ measure s := by
  induction run with
  | exit _ => exact Nat.zero_le _
  | pass body _ inductionHypothesis =>
    have lower := lowers _ _ body
    omega

/-- The divergence rule: no run exits from an invariant under which the guard
    stays true. -/
theorem not_exitsAfter_of_stuck (stuck : σ → Prop)
    (guardTrue : ∀ s, stuck s → step s ≠ .ok none)
    (preserved : ∀ s s', stuck s → step s = .ok (some s') → stuck s')
    {passes : Nat} {s t : σ} (start : stuck s) : ¬ ExitsAfter step passes s t := by
  intro run
  induction run with
  | exit guardFalse => exact guardTrue _ start guardFalse
  | pass body _ inductionHypothesis => exact inductionHypothesis (preserved _ _ start body)

/-! ## Runs that may go on -/

/-- From `s` the loop makes `passes` passes and comes to `t`. -/
inductive PassesTo (step : σ → Except ε (Option σ)) : Nat → σ → σ → Prop where
  | refl (s : σ) : PassesTo step 0 s s
  | pass {passes : Nat} {s s' t : σ} (body : step s = .ok (some s'))
      (rest : PassesTo step passes s' t) : PassesTo step (passes + 1) s t

theorem PassesTo.trans {passes passes' : Nat} {s t u : σ} (first : PassesTo step passes s t)
    (second : PassesTo step passes' t u) : PassesTo step (passes + passes') s u := by
  induction first with
  | refl =>
    rw [Nat.zero_add]
    exact second
  | @pass passes _ _ _ body _ inductionHypothesis =>
    rw [Nat.add_right_comm]
    exact .pass body (inductionHypothesis second)

/-- The passes use up as much fuel. -/
theorem PassesTo.runLoop_add {passes : Nat} {s t : σ} (run : PassesTo step passes s t)
    (fuel : Nat) : runLoop step (passes + fuel) s = runLoop step fuel t := by
  induction run with
  | refl => rw [Nat.zero_add]
  | pass body _ inductionHypothesis =>
    rw [Nat.add_right_comm, runLoop, body]
    exact inductionHypothesis

/-- The repeat rule: an invariant of the passes so far, under which there is always
    another one. -/
theorem passesTo_of_invariant (invariant : Nat → σ → Prop)
    (again : ∀ n s, invariant n s → ∃ s', step s = .ok (some s') ∧ invariant (n + 1) s') {s : σ}
    (start : invariant 0 s) (n : Nat) : ∃ t, PassesTo step n s t ∧ invariant n t := by
  induction n with
  | zero => exact ⟨s, .refl s, start⟩
  | succ n inductionHypothesis =>
    obtain ⟨t, passes, holds⟩ := inductionHypothesis
    obtain ⟨t', body, holds'⟩ := again n t holds
    exact ⟨t', passes.trans (.pass body (.refl t')), holds'⟩

/-- No fuel beyond the passes, no end. -/
theorem PassesTo.outOfFuel {passes fuel : Nat} {s t : σ} (run : PassesTo step passes s t)
    (short : fuel ≤ passes) : runLoop step fuel s = .error .outOfFuel := by
  induction run generalizing fuel with
  | refl =>
    rw [Nat.le_zero.mp short]
    rfl
  | pass body _ inductionHypothesis =>
    cases fuel with
    | zero => rfl
    | succ fuel =>
      rw [runLoop, body]
      exact inductionHypothesis (Nat.le_of_succ_le_succ short)

end Ns3Blockchain.Library
