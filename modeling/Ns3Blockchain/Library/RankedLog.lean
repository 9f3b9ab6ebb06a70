import Mathlib.Data.List.Basic
import Mathlib.Tactic.Common

/-! # Append logs indexed by rank

A log is the list of everything added so far, oldest first, and `rank` assigns
each entry a natural number.  `rows` files the log under its ranks: row `h` is
the sublist of the entries of rank `h`, and there is a row for every rank up to
the greatest one present.  `leader` is the earliest entry of the greatest rank.

The two append laws say how filing one more entry changes the rows: an entry
above every row opens a new last row, after as many empty ones as needed; any
other entry is appended to the row of its rank.
-/

namespace Ns3Blockchain.Library.RankedLog

variable {α : Type} (rank : α → Nat)

/-- One more than the greatest rank present, `0` for the empty log. -/
def depth : List α → Nat
  | [] => 0
  | x :: log => max (rank x + 1) (depth log)

/-- The entries of rank `h`, oldest first. -/
def row (log : List α) (h : Nat) : List α :=
  log.filter fun x => rank x == h

def rows (log : List α) : List (List α) :=
  (List.range (depth rank log)).map (row rank log)

/-- The earliest entry of the greatest rank. -/
def leader (log : List α) : Option α :=
  log.find? fun x => rank x + 1 == depth rank log

variable {rank}

/-! ## Depth -/

theorem rank_lt_depth (rank : α → Nat) {log : List α} {x : α} (member : x ∈ log) :
    rank x < depth rank log := by
  induction log with
  | nil => cases member
  | cons y log inductionHypothesis =>
    rw [depth]
    cases member with
    | head => omega
    | tail _ member =>
      have := inductionHypothesis member
      omega

theorem depth_append (log later : List α) :
    depth rank (log ++ later) = max (depth rank log) (depth rank later) := by
  induction log with
  | nil => simp [depth]
  | cons x log inductionHypothesis =>
    simp only [List.cons_append, depth, inductionHypothesis]
    omega

theorem depth_append_singleton (rank : α → Nat) (log : List α) (x : α) :
    depth rank (log ++ [x]) = max (depth rank log) (rank x + 1) := by
  rw [depth_append]
  simp [depth]

theorem depth_perm {log log' : List α} (permuted : log.Perm log') :
    depth rank log = depth rank log' := by
  induction permuted with
  | nil => rfl
  | cons x _ inductionHypothesis => simp only [depth, inductionHypothesis]
  | swap x y log =>
    simp only [depth]
    omega
  | trans _ _ first second => exact first.trans second

theorem depth_pos (rank : α → Nat) {log : List α} (nonempty : log ≠ []) : 0 < depth rank log := by
  cases log with
  | nil => exact absurd rfl nonempty
  | cons x log =>
    have := rank_lt_depth rank (@List.mem_cons_self _ x log)
    omega

/-- Some entry has the greatest rank. -/
theorem exists_rank_eq (rank : α → Nat) {log : List α} (nonempty : log ≠ []) :
    ∃ x ∈ log, rank x + 1 = depth rank log := by
  induction log with
  | nil => exact absurd rfl nonempty
  | cons x log inductionHypothesis =>
    by_cases head : depth rank log ≤ rank x + 1
    · exact ⟨x, List.mem_cons_self, by rw [depth]; omega⟩
    · have rest : log ≠ [] := by
        rintro rfl
        simp [depth] at head
      obtain ⟨y, member, greatest⟩ := inductionHypothesis rest
      exact ⟨y, List.mem_cons_of_mem _ member, by rw [depth]; omega⟩

theorem depth_map {f : α → α} (kept : ∀ x, rank (f x) = rank x) (log : List α) :
    depth rank (log.map f) = depth rank log := by
  induction log with
  | nil => rfl
  | cons x log inductionHypothesis => simp only [List.map_cons, depth, kept, inductionHypothesis]

/-! ## Rows -/

@[simp] theorem row_append (log later : List α) (h : Nat) :
    row rank (log ++ later) h = row rank log h ++ row rank later h := by
  simp [row]

theorem mem_row {log : List α} {h : Nat} {x : α} : x ∈ row rank log h ↔ x ∈ log ∧ rank x = h := by
  simp [row]

theorem row_eq_nil {log : List α} {h : Nat} (above : depth rank log ≤ h) : row rank log h = [] := by
  rw [List.eq_nil_iff_forall_not_mem]
  intro x member
  have entry := mem_row.mp member
  have := rank_lt_depth rank entry.1
  omega

@[simp] theorem row_singleton_self (x : α) : row rank [x] (rank x) = [x] := by
  simp [row]

theorem row_singleton_of_ne {x : α} {h : Nat} (other : h ≠ rank x) : row rank [x] h = [] := by
  simp [row, Ne.symm other]

@[simp] theorem length_rows (log : List α) : (rows rank log).length = depth rank log := by
  simp [rows]

theorem getElem?_rows {log : List α} {h : Nat} (within : h < depth rank log) :
    (rows rank log)[h]? = some (row rank log h) := by
  simp [rows, within]

theorem mem_flatten_rows {log : List α} {x : α} : x ∈ (rows rank log).flatten ↔ x ∈ log := by
  simp only [rows, List.mem_flatten, List.mem_map, List.mem_range]
  constructor
  · rintro ⟨_, ⟨h, _, rfl⟩, member⟩
    exact (mem_row.mp member).1
  · intro member
    exact ⟨_, ⟨rank x, rank_lt_depth rank member, rfl⟩, mem_row.mpr ⟨member, rfl⟩⟩

/-- Filing an entry above every row. -/
theorem rows_append_above {log : List α} {x : α} (above : depth rank log ≤ rank x) :
    rows rank (log ++ [x]) =
      rows rank log ++ List.replicate (rank x - depth rank log) [] ++ [[x]] := by
  apply List.ext_getElem?
  intro h
  have newDepth : depth rank (log ++ [x]) = rank x + 1 := by
    rw [depth_append_singleton]
    omega
  -- Row by row: the old rows, the padding, the new last row, and past it.
  by_cases old : h < depth rank log
  · have other : h ≠ rank x := by omega
    rw [List.append_assoc, List.getElem?_append_left (by simpa using old), getElem?_rows old,
      getElem?_rows (by omega), row_append, row_singleton_of_ne other, List.append_nil]
  · rw [List.append_assoc, List.getElem?_append_right (by simpa using old), length_rows]
    by_cases padding : h < rank x
    · rw [List.getElem?_append_left (by simp; omega), getElem?_rows (by omega), row_append,
        row_eq_nil (by omega), row_singleton_of_ne (by omega),
        List.getElem?_replicate_of_lt (by omega)]
      rfl
    · rw [List.getElem?_append_right (by simp; omega), List.length_replicate]
      by_cases last : h = rank x
      · subst last
        rw [getElem?_rows (by omega), row_append, row_eq_nil above]
        simp
      · rw [List.getElem?_eq_none (by simp; omega), List.getElem?_eq_none (by simp; omega)]

/-- Filing an entry in a row that exists. -/
theorem rows_append_within {log : List α} {x : α} (within : rank x < depth rank log) :
    rows rank (log ++ [x]) = (rows rank log).modify (rank x) (fun row => row ++ [x]) := by
  apply List.ext_getElem?
  intro h
  have sameDepth : depth rank (log ++ [x]) = depth rank log := by
    rw [depth_append_singleton]
    omega
  by_cases old : h < depth rank log
  · by_cases target : h = rank x
    · subst target
      rw [List.getElem?_modify_eq, getElem?_rows old, getElem?_rows (by omega), row_append,
        row_singleton_self]
      rfl
    · rw [List.getElem?_modify_ne _ _ (Ne.symm target), getElem?_rows old,
        getElem?_rows (by omega), row_append, row_singleton_of_ne target, List.append_nil]
  · rw [List.getElem?_eq_none (by simp; omega), List.getElem?_eq_none (by simp; omega)]

/-- A test that accepts one rank only filters the row of that rank as the log. -/
theorem filter_row {log : List α} {h : Nat} {p : α → Bool} (ranked : ∀ x, p x = true → rank x = h) :
    (row rank log h).filter p = log.filter p := by
  rw [row, List.filter_filter]
  apply List.filter_congr
  intro x _
  cases accepted : p x with
  | false => rfl
  | true => simp [ranked x accepted]

theorem find?_row {log : List α} {h : Nat} {p : α → Bool} (ranked : ∀ x, p x = true → rank x = h) :
    (row rank log h).find? p = log.find? p := by
  rw [← List.head?_filter, filter_row ranked, List.head?_filter]

/-- Looking only at one rank, the store order of the rows is the arrival order. -/
theorem filter_flatten_rows {log : List α} {h : Nat} {p : α → Bool}
    (ranked : ∀ x, p x = true → rank x = h) :
    (rows rank log).flatten.filter p = log.filter p := by
  have rowFilter : ∀ i, (row rank log i).filter p = if i = h then log.filter p else [] := by
    intro i
    split
    next same =>
      subst same
      exact filter_row ranked
    next other =>
      rw [List.filter_eq_nil_iff]
      intro x member accepted
      exact other ((mem_row.mp member).2.symm.trans (ranked x accepted))
  -- Only row `h` contributes, so the induction is on how many rows are laid out.
  have ranges : ∀ n, (((List.range n).map (row rank log)).flatten).filter p =
      if h < n then log.filter p else [] := by
    intro n
    induction n with
    | zero => simp
    | succ n inductionHypothesis =>
      rw [List.range_succ, List.map_append, List.flatten_append, List.filter_append,
        inductionHypothesis]
      simp only [List.map_cons, List.map_nil, List.flatten_cons, List.flatten_nil,
        List.append_nil, rowFilter]
      by_cases last : n = h
      · subst last
        simp
      · by_cases below : h < n
        · rw [if_pos below, if_neg last, if_pos (by omega), List.append_nil]
        · rw [if_neg below, if_neg last, if_neg (by omega), List.append_nil]
  rw [rows, ranges]
  split
  · rfl
  next above =>
    symm
    rw [List.filter_eq_nil_iff]
    intro x member accepted
    have := rank_lt_depth rank member
    have := ranked x accepted
    omega

/-! ## The leader -/

theorem leader_isSome (rank : α → Nat) {log : List α} (nonempty : log ≠ []) :
    ∃ t, leader rank log = some t := by
  obtain ⟨x, member, greatest⟩ := exists_rank_eq rank nonempty
  rw [← Option.isSome_iff_exists, leader, List.find?_isSome]
  exact ⟨x, member, by simpa using greatest⟩

theorem leader_rank {log : List α} {t : α} (found : leader rank log = some t) :
    rank t + 1 = depth rank log := by
  simpa using List.find?_some found

theorem leader_mem {log : List α} {t : α} (found : leader rank log = some t) : t ∈ log :=
  List.mem_of_find?_eq_some found

/-- The leader is the head of the last row. -/
theorem leader_eq_head_last_row {log : List α} {t : α} (found : leader rank log = some t) :
    (row rank log (depth rank log - 1)).head? = some t := by
  have greatest := leader_rank found
  rw [row, List.head?_filter, ← found, leader]
  congr 1
  funext x
  rw [Bool.eq_iff_iff]
  simp only [beq_iff_eq]
  omega

theorem leader_append {log : List α} {x t : α} (found : leader rank log = some t) :
    leader rank (log ++ [x]) = some (if rank t < rank x then x else t) := by
  have greatest := leader_rank found
  have newDepth := depth_append_singleton rank log x
  split
  next above =>
    -- No old entry reaches the new depth.
    rw [leader, List.find?_append, List.find?_eq_none.mpr]
    · have : rank x + 1 = depth rank (log ++ [x]) := by omega
      simp [this]
    · intro y member
      have := rank_lt_depth rank member
      simp only [beq_iff_eq]
      omega
  next within =>
    have sameDepth : depth rank (log ++ [x]) = depth rank log := by omega
    rw [leader, sameDepth, List.find?_append, ← leader, found]
    rfl

theorem leader_map {f : α → α} (kept : ∀ x, rank (f x) = rank x) (log : List α) :
    leader rank (log.map f) = (leader rank log).map f := by
  rw [leader, leader, List.find?_map, depth_map kept]
  congr 2
  funext x
  simp only [Function.comp_apply, kept]

/-- What the leader is, without reference to depths: everything before it is
    strictly lower and nothing after it is higher. -/
theorem leader_eq_some_iff {log : List α} {t : α} :
    leader rank log = some t ↔ ∃ before after, log = before ++ t :: after ∧
      (∀ x ∈ before, rank x < rank t) ∧ ∀ x ∈ after, rank x ≤ rank t := by
  constructor
  · intro found
    have greatest := leader_rank found
    obtain ⟨_, before, after, split, lower⟩ := List.find?_eq_some_iff_append.mp found
    refine ⟨before, after, split, ?_, ?_⟩
    · intro x member
      have bound : rank x < depth rank log := rank_lt_depth rank (by rw [split]; simp [member])
      have strict := lower x member
      simp only [Bool.not_eq_eq_eq_not, Bool.not_true, beq_eq_false_iff_ne] at strict
      omega
    · intro x member
      have bound : rank x < depth rank log := rank_lt_depth rank (by rw [split]; simp [member])
      omega
  · rintro ⟨before, after, rfl, lower, upper⟩
    have greatest : rank t + 1 = depth rank (before ++ t :: after) := by
      obtain ⟨x, member, top⟩ := exists_rank_eq rank
        (List.append_ne_nil_of_right_ne_nil before (List.cons_ne_nil t after))
      have bound : rank t < depth rank (before ++ t :: after) := rank_lt_depth rank (by simp)
      rcases List.mem_append.mp member with old | new
      · have := lower x old
        omega
      · rcases List.mem_cons.mp new with rfl | late
        · exact top
        · have := upper x late
          omega
    rw [leader, List.find?_eq_some_iff_append]
    refine ⟨by simpa using greatest, before, after, rfl, ?_⟩
    intro x member
    have := lower x member
    simp only [Bool.not_eq_eq_eq_not, Bool.not_true, beq_eq_false_iff_ne]
    omega

end Ns3Blockchain.Library.RankedLog
