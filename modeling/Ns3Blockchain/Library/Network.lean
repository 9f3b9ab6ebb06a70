import Mathlib.Algebra.BigOperators.Group.Finset.Piecewise
import Mathlib.Algebra.Group.Basic
import Mathlib.Data.Fintype.Defs
import Mathlib.Logic.Relation
import Mathlib.Tactic.Abel

/-! # A network of parties and what it conserves

The parties keep a state each; a step lets one of them send messages, or take one
message out of those in flight.  Where the senders' books grow by the weight of
what they send, and the receivers' by the weight of what they take, the two differ
by the weight in flight, however the steps interleave.
-/

namespace Ns3Blockchain.Library

open Relation

structure Network (ι σ μ : Type) where
  party : ι → σ
  inFlight : List μ

namespace Network

variable {ι σ μ A : Type} [DecidableEq ι]

/-- One party sends, or one party takes a message, each message once. -/
inductive Step (sends : σ → List μ → σ → Prop) (receives : σ → μ → σ → Prop) :
    Network ι σ μ → Network ι σ μ → Prop where
  | send {net : Network ι σ μ} {i : ι} {sent : List μ} {s : σ} :
      sends (net.party i) sent s →
      Step sends receives net
        { party := Function.update net.party i s, inFlight := net.inFlight ++ sent }
  | receive {net : Network ι σ μ} {i : ι} {before after : List μ} {message : μ} {s : σ} :
      net.inFlight = before ++ message :: after → receives (net.party i) message s →
      Step sends receives net
        { party := Function.update net.party i s, inFlight := before ++ after }

/-- How the two books follow the messages.  Only messages some party has sent need
    be accounted for on receipt; these are `good`. -/
structure Accounts [AddCommGroup A] (sends : σ → List μ → σ → Prop)
    (receives : σ → μ → σ → Prop) (good : μ → Prop) (weight : μ → A) (sentBook receivedBook : σ → A) :
    Prop where
  good_of_sends : ∀ s sent s', sends s sent s' → ∀ message ∈ sent, good message
  sends_sent : ∀ s sent s', sends s sent s' → sentBook s' = sentBook s + (sent.map weight).sum
  sends_received : ∀ s sent s', sends s sent s' → receivedBook s' = receivedBook s
  receives_sent : ∀ s message s', good message → receives s message s' → sentBook s' = sentBook s
  receives_received : ∀ s message s', good message → receives s message s' →
    receivedBook s' = receivedBook s + weight message

variable [AddCommGroup A] {sends : σ → List μ → σ → Prop} {receives : σ → μ → σ → Prop}
  {good : μ → Prop} {weight : μ → A} {sentBook receivedBook : σ → A} {net net' : Network ι σ μ}

theorem good_of_step (accounts : Accounts sends receives good weight sentBook receivedBook)
    (known : ∀ message ∈ net.inFlight, good message) (step : Step sends receives net net') :
    ∀ message ∈ net'.inFlight, good message := by
  cases step with
  | send sending =>
    intro message member
    rcases List.mem_append.mp member with old | new
    · exact known message old
    · exact accounts.good_of_sends _ _ _ sending message new
  | receive split _ =>
    intro message member
    apply known
    rw [split]
    rcases List.mem_append.mp member with before | after
    · exact List.mem_append_left _ before
    · exact List.mem_append_right _ (List.mem_cons_of_mem _ after)

section Totals

variable [Fintype ι]

def total (book : σ → A) (net : Network ι σ μ) : A := ∑ i, book (net.party i)

def weightInFlight (weight : μ → A) (net : Network ι σ μ) : A := (net.inFlight.map weight).sum

/-- A total after the state of one party changes. -/
theorem total_update (book : σ → A) (net : Network ι σ μ) (i : ι) (s : σ) (inFlight : List μ) :
    total book { party := Function.update net.party i s, inFlight } =
      total book net - book (net.party i) + book s := by
  have others := Finset.sum_update_of_mem (Finset.mem_univ i) (fun j => book (net.party j)) (book s)
  have whole := Finset.add_sum_erase Finset.univ (fun j => book (net.party j)) (Finset.mem_univ i)
  have updated : ∀ j, book (Function.update net.party i s j) =
      Function.update (fun j => book (net.party j)) i (book s) j := by
    intro j
    by_cases same : j = i
    · subst same
      rw [Function.update_self, Function.update_self]
    · rw [Function.update_of_ne same, Function.update_of_ne same]
  rw [total, total, Finset.sum_congr rfl fun j _ => updated j, others, ← whole,
    Finset.sdiff_singleton_eq_erase]
  abel

/-- What every step keeps. -/
def imbalance (weight : μ → A) (sentBook receivedBook : σ → A) (net : Network ι σ μ) : A :=
  total sentBook net - total receivedBook net - weightInFlight weight net

theorem imbalance_step (accounts : Accounts sends receives good weight sentBook receivedBook)
    (known : ∀ message ∈ net.inFlight, good message) (step : Step sends receives net net') :
    imbalance weight sentBook receivedBook net' = imbalance weight sentBook receivedBook net := by
  cases step with
  | send sending =>
    rw [imbalance, imbalance, total_update, total_update, accounts.sends_sent _ _ _ sending,
      accounts.sends_received _ _ _ sending, weightInFlight, weightInFlight, List.map_append,
      List.sum_append]
    abel
  | @receive i before after message s split receiving =>
    have taken : good message := known message (by rw [split]; simp)
    rw [imbalance, imbalance, total_update, total_update,
      accounts.receives_sent _ _ _ taken receiving, accounts.receives_received _ _ _ taken receiving,
      weightInFlight, weightInFlight, split, List.map_append, List.map_append, List.map_cons,
      List.sum_append, List.sum_append, List.sum_cons]
    abel

/-- The run rule, for any interleaving. -/
theorem imbalance_run (accounts : Accounts sends receives good weight sentBook receivedBook)
    (known : ∀ message ∈ net.inFlight, good message)
    (run : ReflTransGen (Step sends receives) net net') :
    imbalance weight sentBook receivedBook net' = imbalance weight sentBook receivedBook net := by
  suffices both : (∀ message ∈ net'.inFlight, good message) ∧
      imbalance weight sentBook receivedBook net' = imbalance weight sentBook receivedBook net from
    both.2
  induction run with
  | refl => exact ⟨known, rfl⟩
  | tail _ step inductionHypothesis =>
    obtain ⟨sofar, same⟩ := inductionHypothesis
    exact ⟨good_of_step accounts sofar step, (imbalance_step accounts sofar step).trans same⟩

/-- From a network with nothing in flight: what was sent is what was received and
    what is in flight. -/
theorem conserved (accounts : Accounts sends receives good weight sentBook receivedBook)
    (quiet : net.inFlight = []) (run : ReflTransGen (Step sends receives) net net') :
    total sentBook net' - total sentBook net =
      total receivedBook net' - total receivedBook net + weightInFlight weight net' := by
  have known : ∀ message ∈ net.inFlight, good message := by simp [quiet]
  have same := imbalance_run accounts known run
  have nothing : weightInFlight weight net = 0 := by simp [weightInFlight, quiet]
  rw [imbalance, imbalance, nothing, sub_zero, sub_sub, sub_eq_iff_eq_add] at same
  rw [same]
  abel

end Totals

end Network

end Ns3Blockchain.Library
