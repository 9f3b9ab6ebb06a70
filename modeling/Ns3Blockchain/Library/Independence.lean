import Ns3Blockchain.Library.Checked

/-! # Inputs of kinds that do not interfere

The inputs of a machine fall into kinds, and each kind has its own view of the state: a
relation between states that look the same to it.  Where an input does the same to
states its kind cannot tell apart, and the other kinds cannot tell that it was there, a
run is what its inputs of each kind make of it apart: how they interleave does not
matter.
-/

namespace Ns3Blockchain.Library

variable {ε σ τ α β κ : Type}

/-! ## Two computations side by side -/

/-- Both fail in the same way, or both end in states that are related. -/
inductive Alike (related : σ → τ → Prop) : Except ε σ → Except ε τ → Prop where
  | ok {s : σ} {t : τ} (same : related s t) : Alike related (.ok s) (.ok t)
  | error (e : ε) : Alike related (.error e) (.error e)

section

variable {related : σ → τ → Prop}

theorem Alike.succeeds {x : Except ε σ} {y : Except ε τ} (alike : Alike related x y) {s : σ}
    (done : x = .ok s) : ∃ t, y = .ok t ∧ related s t := by
  cases alike with
  | ok same =>
    cases done
    exact ⟨_, rfl, same⟩
  | error => cases done

theorem Alike.succeeds_right {x : Except ε σ} {y : Except ε τ} (alike : Alike related x y) {t : τ}
    (done : y = .ok t) : ∃ s, x = .ok s ∧ related s t := by
  cases alike with
  | ok same =>
    cases done
    exact ⟨_, rfl, same⟩
  | error => cases done

/-- The same value, read on both sides. -/
theorem alike_bind (x : Except ε α) {f : α → Except ε σ} {g : α → Except ε τ}
    (next : ∀ a, x = .ok a → Alike related (f a) (g a)) : Alike related (x >>= f) (x >>= g) := by
  cases x with
  | error e => exact .error e
  | ok a => exact next a rfl

theorem Alike.bind {α' β' : Type} {related' : α' → β' → Prop} {x : Except ε σ} {y : Except ε τ}
    (first : Alike related x y) {f : σ → Except ε α'} {g : τ → Except ε β'}
    (next : ∀ s t, related s t → Alike related' (f s) (g t)) :
    Alike related' (x >>= f) (y >>= g) := by
  cases first with
  | ok same => exact next _ _ same
  | error e => exact .error e

theorem alike_foldChecked {step : σ → α → Except ε σ} {step' : τ → α → Except ε τ}
    (each : ∀ s t x, related s t → Alike related (step s x) (step' t x)) {s : σ} {t : τ}
    (start : related s t) (xs : List α) :
    Alike related (foldChecked step s xs) (foldChecked step' t xs) := by
  induction xs generalizing s t with
  | nil => exact .ok start
  | cons x xs inductionHypothesis =>
    exact (each s t x start).bind fun _ _ same => inductionHypothesis same

end

/-! ## Independence -/

/-- `same k s t`: an input of kind `k` cannot tell `s` from `t`. -/
structure Independent (step : σ → α → Except ε σ) (kind : α → κ) (same : κ → σ → σ → Prop) :
    Prop where
  refl : ∀ k s, same k s s
  own : ∀ s t x, same (kind x) s t → Alike (same (kind x)) (step s x) (step t x)
  others : ∀ k s t x s', kind x ≠ k → same k s t → step s x = .ok s' → same k s' t

variable [DecidableEq κ] {step : σ → α → Except ε σ} {kind : α → κ} {same : κ → σ → σ → Prop}

/-- The inputs of a kind, in order. -/
def ofKind (kind : α → κ) (k : κ) (xs : List α) : List α := xs.filter fun x => kind x = k

theorem ofKind_cons_self (kind : α → κ) (x : α) (xs : List α) :
    ofKind kind (kind x) (x :: xs) = x :: ofKind kind (kind x) xs :=
  List.filter_cons_of_pos (decide_eq_true rfl)

theorem ofKind_cons_of_ne {x : α} {k : κ} (other : kind x ≠ k) (xs : List α) :
    ofKind kind k (x :: xs) = ofKind kind k xs :=
  List.filter_cons_of_neg (by simpa using other)

theorem ofKind_singleton_of_ne {x : α} {k : κ} (other : kind x ≠ k) : ofKind kind k [x] = [] :=
  ofKind_cons_of_ne other []

theorem ofKind_append (kind : α → κ) (k : κ) (xs ys : List α) :
    ofKind kind k (xs ++ ys) = ofKind kind k xs ++ ofKind kind k ys :=
  List.filter_append xs ys

/-- A run, seen by one kind, is the run of its inputs. -/
theorem Independent.part (independent : Independent step kind same) {k : κ} {s s' t : σ}
    {xs : List α} (start : same k s t) (finished : foldChecked step s xs = .ok s') :
    ∃ t', foldChecked step t (ofKind kind k xs) = .ok t' ∧ same k s' t' := by
  induction xs generalizing s t with
  | nil =>
    cases finished
    exact ⟨t, rfl, start⟩
  | cons x xs inductionHypothesis =>
    obtain ⟨between, first, finished⟩ := bind_eq_ok_iff.mp finished
    by_cases here : kind x = k
    · subst here
      obtain ⟨between', first', still⟩ := (independent.own s t x start).succeeds first
      obtain ⟨t', others, seen⟩ := inductionHypothesis still finished
      refine ⟨t', ?_, seen⟩
      rw [ofKind_cons_self, foldChecked, first', ok_bind]
      exact others
    · rw [ofKind_cons_of_ne here]
      exact inductionHypothesis (independent.others k s t x between here start first) finished

/-- Where the inputs of every kind go through on their own, they go through together. -/
theorem Independent.whole (independent : Independent step kind same) {s : σ} {parts : κ → σ}
    (start : ∀ k, same k s (parts k)) {xs : List α}
    (apart : ∀ k, ∃ t, foldChecked step (parts k) (ofKind kind k xs) = .ok t) :
    ∃ s', foldChecked step s xs = .ok s' := by
  induction xs generalizing s parts with
  | nil => exact ⟨s, rfl⟩
  | cons x xs inductionHypothesis =>
    obtain ⟨t, own⟩ := apart (kind x)
    rw [ofKind_cons_self] at own
    obtain ⟨part, stepped, rest⟩ := bind_eq_ok_iff.mp own
    obtain ⟨between, first, seen⟩ :=
      (independent.own s (parts (kind x)) x (start _)).succeeds_right stepped
    obtain ⟨s', others⟩ := @inductionHypothesis between (Function.update parts (kind x) part)
      (fun k => by
        by_cases here : k = kind x
        · subst here
          rw [Function.update_self]
          exact seen
        · rw [Function.update_of_ne here]
          exact independent.others k s (parts k) x between (Ne.symm here) (start k) first)
      (fun k => by
        by_cases here : k = kind x
        · subst here
          rw [Function.update_self]
          exact ⟨t, rest⟩
        · rw [Function.update_of_ne here, ← ofKind_cons_of_ne (Ne.symm here)]
          exact apart k)
    exact ⟨s', by rw [foldChecked, first, ok_bind, others]⟩

/-- The interleaving rule. -/
theorem Independent.run (independent : Independent step kind same) (s : σ) (xs : List α) :
    ((∃ s', foldChecked step s xs = .ok s') ↔
        ∀ k, ∃ t, foldChecked step s (ofKind kind k xs) = .ok t) ∧
      ∀ s' k t, foldChecked step s xs = .ok s' → foldChecked step s (ofKind kind k xs) = .ok t →
        same k s' t := by
  refine ⟨⟨?_, fun apart => ?_⟩, ?_⟩
  · rintro ⟨s', finished⟩ k
    obtain ⟨t, part, _⟩ := independent.part (independent.refl k s) finished
    exact ⟨t, part⟩
  · exact @Independent.whole _ _ _ _ _ _ _ _ independent s (fun _ => s)
      (fun k => independent.refl k s) xs apart
  · intro s' k t finished part
    obtain ⟨t', part', seen⟩ := independent.part (independent.refl k s) finished
    rw [part] at part'
    cases part'
    exact seen

end Ns3Blockchain.Library
