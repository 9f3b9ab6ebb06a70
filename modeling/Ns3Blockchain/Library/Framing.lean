import Mathlib.Algebra.GroupWithZero.Nat
import Mathlib.Data.List.Basic

/-! # Streams of delimited frames

A stream is cut at every delimiter: `frames` are the pieces a delimiter ends, in
order, and `residue` is what follows the last one.  A receiver that keeps the
residue and puts it before the next segment extracts the frames of the whole
stream however the stream is segmented (`frames_append`); one that forgets it
does so exactly when no segment leaves a residue (`memoryless_iff`).
-/

namespace Ns3Blockchain.Library.Framing

variable {α : Type} [DecidableEq α]

/-- The pieces of the stream that end in a delimiter, without it. -/
def frames (d : α) (s : List α) : List (List α) := (s.splitOn d).dropLast

/-- The unfinished piece after the last delimiter. -/
def residue (d : α) (s : List α) : List α := (s.splitOn d).getLast (List.splitOn_ne_nil d s)

variable {d : α}

/-! ## The two shapes of a stream -/

theorem frames_of_not_mem {r : List α} (unfinished : d ∉ r) : frames d r = [] := by
  rw [frames, List.splitOn_eq_singleton unfinished, List.dropLast_singleton]

theorem residue_of_not_mem {r : List α} (unfinished : d ∉ r) : residue d r = r := by
  simp [residue, List.splitOn_eq_singleton unfinished]

theorem frames_frame {f : List α} (rest : List α) (whole : d ∉ f) :
    frames d (f ++ d :: rest) = f :: frames d rest := by
  rw [frames, List.splitOn_append_cons_self_of_not_mem whole,
    List.dropLast_cons_of_ne_nil (List.splitOn_ne_nil d rest), frames]

theorem residue_frame {f : List α} (rest : List α) (whole : d ∉ f) :
    residue d (f ++ d :: rest) = residue d rest := by
  simp [residue, List.splitOn_append_cons_self_of_not_mem whole, List.getLast_cons]

/-- Induction over a stream, frame by frame. -/
theorem stream_induction {motive : List α → Prop} (tail : ∀ r, d ∉ r → motive r)
    (frame : ∀ f rest, d ∉ f → motive rest → motive (f ++ d :: rest)) (s : List α) : motive s := by
  induction len : s.length using Nat.strongRecOn generalizing s with
  | ind n inductionHypothesis =>
    by_cases member : d ∈ s
    · obtain ⟨f, rest, rfl, whole⟩ := List.eq_append_cons_of_mem member
      refine frame f rest whole (inductionHypothesis rest.length ?_ rest rfl)
      rw [← len, List.length_append, List.length_cons]
      omega
    · exact tail s member

/-! ## Laws -/

@[simp] theorem frames_nil : frames d [] = [] := frames_of_not_mem List.not_mem_nil

@[simp] theorem residue_nil : residue d [] = [] := residue_of_not_mem List.not_mem_nil

theorem not_mem_residue (s : List α) : d ∉ residue d s := by
  induction s using stream_induction (d := d) with
  | tail r unfinished => rwa [residue_of_not_mem unfinished]
  | frame f rest whole inductionHypothesis => rwa [residue_frame rest whole]

/-- Messages sent with a delimiter behind each are cut back into the messages when the
    delimiter is in none of them. -/
theorem frames_flatMap {fs : List (List α)} (whole : ∀ f ∈ fs, d ∉ f) :
    frames d (fs.flatMap fun f => f ++ [d]) = fs := by
  induction fs with
  | nil => exact frames_nil
  | cons f fs inductionHypothesis =>
    rw [List.flatMap_cons, List.append_assoc, List.singleton_append,
      frames_frame _ (whole f List.mem_cons_self),
      inductionHypothesis fun g member => whole g (List.mem_cons_of_mem _ member)]

theorem frames_eq_cons {s f : List α} {fs : List (List α)} (framed : frames d s = f :: fs) :
    ∃ rest, s = f ++ d :: rest ∧ d ∉ f ∧ frames d rest = fs := by
  have unread : d ∈ s := by
    by_contra unfinished
    rw [frames_of_not_mem unfinished] at framed
    cases framed
  obtain ⟨first, rest, rfl, whole⟩ := List.eq_append_cons_of_mem unread
  rw [frames_frame rest whole] at framed
  cases framed
  exact ⟨rest, rfl, whole, rfl⟩

/-- Nothing of the stream is lost or made up. -/
theorem frames_append_residue (s : List α) :
    (frames d s).flatMap (fun f => f ++ [d]) ++ residue d s = s := by
  induction s using stream_induction (d := d) with
  | tail r unfinished => rw [frames_of_not_mem unfinished, residue_of_not_mem unfinished]; rfl
  | frame f rest whole inductionHypothesis =>
    rw [frames_frame rest whole, residue_frame rest whole, List.flatMap_cons, List.append_assoc,
      inductionHypothesis, List.append_assoc, List.singleton_append]

theorem length_eq (s : List α) :
    s.length = ((frames d s).map fun f => f.length + 1).sum + (residue d s).length := by
  conv => lhs; rw [← frames_append_residue (d := d) s]
  simp [List.length_flatMap]

/-! ## Segmentation -/

/-- The frames of a stream in two segments: those of the first, then those of
    its residue followed by the second. -/
theorem frames_append (s t : List α) :
    frames d (s ++ t) = frames d s ++ frames d (residue d s ++ t) := by
  induction s using stream_induction (d := d) with
  | tail r unfinished => rw [frames_of_not_mem unfinished, residue_of_not_mem unfinished]; rfl
  | frame f rest whole inductionHypothesis =>
    rw [List.append_assoc, List.cons_append, frames_frame _ whole, frames_frame rest whole,
      residue_frame rest whole, inductionHypothesis, List.cons_append]

theorem exists_of_mem_frames {s f : List α} (member : f ∈ frames d s) :
    ∃ before rest, s = before ++ (f ++ d :: rest) ∧ d ∉ f := by
  induction s using stream_induction (d := d) with
  | tail r unfinished =>
    rw [frames_of_not_mem unfinished] at member
    cases member
  | frame first rest whole inductionHypothesis =>
    rw [frames_frame rest whole] at member
    cases member with
    | head => exact ⟨[], rest, rfl, whole⟩
    | tail _ member =>
      obtain ⟨before, rest, rfl, whole⟩ := inductionHypothesis member
      exact ⟨first ++ d :: before, rest, by simp, whole⟩

/-- A frame of a part of a stream is the end of a frame of the stream. -/
theorem mem_frames_of_split {before chunk rest f : List α} (member : f ∈ frames d chunk) :
    ∃ g, g ++ f ∈ frames d (before ++ (chunk ++ rest)) := by
  obtain ⟨inside, behind, rfl, whole⟩ := exists_of_mem_frames member
  have joined : d ∉ residue d (before ++ inside) ++ f := by
    rw [List.mem_append, not_or]
    exact ⟨not_mem_residue _, whole⟩
  have split : before ++ (inside ++ (f ++ d :: behind) ++ rest) =
      before ++ inside ++ (f ++ d :: (behind ++ rest)) := by simp
  refine ⟨residue d (before ++ inside), ?_⟩
  rw [split, frames_append, ← List.append_assoc, frames_frame _ joined]
  exact List.mem_append_right _ List.mem_cons_self

theorem residue_append (s t : List α) : residue d (s ++ t) = residue d (residue d s ++ t) := by
  induction s using stream_induction (d := d) with
  | tail r unfinished => rw [residue_of_not_mem unfinished]
  | frame f rest whole inductionHypothesis =>
    rw [List.append_assoc, List.cons_append, residue_frame _ whole, residue_frame rest whole,
      inductionHypothesis]

theorem frames_flatten_of_finished {segments : List (List α)}
    (finished : ∀ s ∈ segments, residue d s = []) :
    frames d segments.flatten = segments.flatMap (frames d) ∧ residue d segments.flatten = [] := by
  induction segments with
  | nil => exact ⟨frames_nil, residue_nil⟩
  | cons s segments inductionHypothesis =>
    obtain ⟨sameFrames, nothingLeft⟩ :=
      inductionHypothesis fun t member => finished t (List.mem_cons_of_mem _ member)
    have first := finished s List.mem_cons_self
    rw [List.flatten_cons, frames_append, residue_append, first, List.nil_append, sameFrames]
    exact ⟨rfl, nothingLeft⟩

theorem length_flatten (segments : List (List α)) :
    segments.flatten.length = ((segments.flatMap (frames d)).map fun f => f.length + 1).sum +
      (segments.map fun s => (residue d s).length).sum := by
  induction segments with
  | nil => rfl
  | cons s segments inductionHypothesis =>
    rw [List.flatten_cons, List.length_append, inductionHypothesis, length_eq (d := d) s,
      List.flatMap_cons, List.map_append, List.sum_append, List.map_cons, List.sum_cons]
    omega

/-- A receiver that cuts each segment for itself sees the frames of the whole
    stream, with nothing left over, exactly when no segment leaves a residue. -/
theorem memoryless_iff (segments : List (List α)) :
    (segments.flatMap (frames d) = frames d segments.flatten ∧ residue d segments.flatten = []) ↔
      ∀ s ∈ segments, residue d s = [] := by
  constructor
  · intro ⟨sameFrames, nothingLeft⟩ s member
    -- The characters of the stream are counted twice: through its own frames,
    -- and through the frames and residues of its segments.
    have whole := length_eq (d := d) segments.flatten
    rw [length_flatten (d := d) segments, sameFrames, nothingLeft] at whole
    have none : (segments.map fun s => (residue d s).length).sum = 0 := by
      rw [List.length_nil] at whole
      omega
    exact List.length_eq_zero_iff.mp
      (List.sum_eq_zero_iff_forall_eq_nat.mp none _ (List.mem_map_of_mem member))
  · intro finished
    obtain ⟨sameFrames, nothingLeft⟩ := frames_flatten_of_finished finished
    exact ⟨sameFrames.symm, nothingLeft⟩

/-- A segment that is not empty leaves no residue when a delimiter ends it. -/
theorem residue_eq_nil_iff {s : List α} (nonempty : s ≠ []) :
    residue d s = [] ↔ s.getLast? = some d := by
  constructor
  · intro nothingLeft
    have whole := frames_append_residue (d := d) s
    rw [nothingLeft, List.append_nil] at whole
    -- The stream is its frames, each with its delimiter, so the last one ends it.
    obtain noFrame | ⟨fs, f, some⟩ := List.eq_nil_or_concat (frames d s)
    · rw [noFrame] at whole
      exact absurd whole.symm nonempty
    · rw [some] at whole
      simp [← whole]
  · intro last
    obtain ⟨init, rfl⟩ := List.getLast?_eq_some_iff.mp last
    rw [residue_append, residue_frame [] (not_mem_residue init), residue_nil]

end Ns3Blockchain.Library.Framing
