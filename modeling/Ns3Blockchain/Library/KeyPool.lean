import Mathlib.Data.List.Basic

/-! # Pools of keys

A pool is a sequence of keys: `add` puts one at the end, `remove` deletes the
first of its kind, if there is one.  A key is in the pool exactly when it was
added more often than a removal found it.
-/

namespace Ns3Blockchain.Library.KeyPool

variable {κ : Type} [DecidableEq κ]

inductive PoolEvent (κ : Type) where
  | add (key : κ)
  | remove (key : κ)
deriving DecidableEq

def PoolEvent.apply (pool : List κ) : PoolEvent κ → List κ
  | .add key => pool ++ [key]
  | .remove key => pool.erase key

theorem remove_head (key : κ) (pool : List κ) : (PoolEvent.remove key).apply (key :: pool) = pool :=
  List.erase_cons_head key pool

theorem remove_tail {key other : κ} (different : other ≠ key) (pool : List κ) :
    (PoolEvent.remove key).apply (other :: pool) = other :: (PoolEvent.remove key).apply pool :=
  List.erase_cons_tail (by simpa using different)

def poolFrom (pool : List κ) (events : List (PoolEvent κ)) : List κ :=
  events.foldl PoolEvent.apply pool

/-- The pool of a history that starts with none. -/
def poolAfter (events : List (PoolEvent κ)) : List κ := poolFrom [] events

def additions (key : κ) (events : List (PoolEvent κ)) : Nat := events.count (.add key)

/-- How many removals of `key` found it. -/
def effectiveFrom (key : κ) : List κ → List (PoolEvent κ) → Nat
  | _, [] => 0
  | pool, event :: events =>
    (if event = .remove key ∧ key ∈ pool then 1 else 0) +
      effectiveFrom key (event.apply pool) events

def effectiveRemovals (key : κ) (events : List (PoolEvent κ)) : Nat := effectiveFrom key [] events

theorem poolFrom_append (pool : List κ) (events later : List (PoolEvent κ)) :
    poolFrom pool (events ++ later) = poolFrom (poolFrom pool events) later :=
  List.foldl_append

/-- What one event does to the number of copies of a key. -/
theorem count_apply (key : κ) (pool : List κ) (event : PoolEvent κ) :
    (event.apply pool).count key + (if event = .remove key ∧ key ∈ pool then 1 else 0) =
      pool.count key + if event = .add key then 1 else 0 := by
  cases event with
  | add other =>
    rw [PoolEvent.apply, List.count_append, List.count_singleton]
    simp
  | remove other =>
    rw [PoolEvent.apply, List.count_erase]
    by_cases same : other = key
    · subst same
      by_cases present : other ∈ pool
      · have positive := List.count_pos_iff.mpr present
        simp only [present, beq_self_eq_true, and_self, if_true, reduceCtorEq, if_false]
        omega
      · have absent := List.count_eq_zero.mpr present
        simp [present, absent]
    · simp [same]

theorem count_poolFrom (key : κ) (pool : List κ) (events : List (PoolEvent κ)) :
    (poolFrom pool events).count key + effectiveFrom key pool events =
      pool.count key + additions key events := by
  induction events generalizing pool with
  | nil => rfl
  | cons event events inductionHypothesis =>
    have rest := inductionHypothesis (event.apply pool)
    have head := count_apply key pool event
    rw [additions] at rest ⊢
    rw [poolFrom, List.foldl_cons, ← poolFrom, effectiveFrom, List.count_cons]
    simp only [beq_iff_eq]
    omega

/-- The multiset reading of a history. -/
theorem mem_poolAfter_iff (key : κ) (events : List (PoolEvent κ)) :
    key ∈ poolAfter events ↔ effectiveRemovals key events < additions key events := by
  have counted := count_poolFrom key [] events
  rw [List.count_nil] at counted
  rw [← List.count_pos_iff, poolAfter, effectiveRemovals]
  omega

end Ns3Blockchain.Library.KeyPool
