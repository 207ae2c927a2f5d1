import Mathlib.Tactic.TypeStar

/-!
# Frames of a stream

A stream is cut into frames by terminators and arrives in pieces, cut anywhere.  What
arrives is put into a buffer, and the frames that are complete are taken off it.  The
frames are those of the whole stream, however it was cut.
-/

namespace Framing

variable {α : Type*} (isEnd : α → Bool)

/-- Takes the complete frames off a buffer; the second part is what is left. -/
def takeFrames : List α → List (List α) × List α
  | [] => ([], [])
  | value :: buffer =>
      let (frames, rest) := takeFrames buffer
      if isEnd value then ([] :: frames, rest)
      else
        match frames with
        | [] => ([], value :: rest)
        | frame :: frames => ((value :: frame) :: frames, rest)

variable {isEnd}

/-- Frames that are complete stay complete. -/
theorem takeFrames_append (front back : List α) :
    takeFrames isEnd (front ++ back) =
      ((takeFrames isEnd front).1 ++ (takeFrames isEnd ((takeFrames isEnd front).2 ++ back)).1,
        (takeFrames isEnd ((takeFrames isEnd front).2 ++ back)).2) := by
  induction front with
  | nil => rfl
  | cons value front ih =>
      rw [List.cons_append, takeFrames, takeFrames, ih]
      by_cases ends : isEnd value = true
      · simp [ends]
      · simp only [if_neg ends]
        cases (takeFrames isEnd front).1 with
        | nil =>
            rw [List.nil_append, List.cons_append, takeFrames, List.nil_append]
            simp only [if_neg ends]
        | cons frame frames => rfl

/-- What is left of a buffer has no terminator. -/
theorem not_isEnd_of_mem_rest (buffer : List α) :
    ∀ value ∈ (takeFrames isEnd buffer).2, isEnd value = false := by
  induction buffer with
  | nil => simp [takeFrames]
  | cons value buffer ih =>
      rw [takeFrames]
      by_cases ends : isEnd value = true
      · simpa [ends] using ih
      · simp only [if_neg ends]
        cases (takeFrames isEnd buffer).1 with
        | nil => exact List.forall_mem_cons.mpr ⟨Bool.eq_false_iff.mpr ends, ih⟩
        | cons frame frames => exact ih

/-- No frame is complete without a terminator. -/
theorem takeFrames_of_forall {buffer : List α} (partly : ∀ value ∈ buffer, isEnd value = false) :
    takeFrames isEnd buffer = ([], buffer) := by
  induction buffer with
  | nil => rfl
  | cons value buffer ih =>
      obtain ⟨here, there⟩ := List.forall_mem_cons.mp partly
      rw [takeFrames, ih there]
      simp [here]

theorem takeFrames_rest (buffer : List α) :
    takeFrames isEnd (takeFrames isEnd buffer).2 = ([], (takeFrames isEnd buffer).2) :=
  takeFrames_of_forall (not_isEnd_of_mem_rest buffer)

/-- A terminator completes the frame that the buffer holds. -/
theorem takeFrames_append_singleton {buffer : List α}
    (partly : ∀ value ∈ buffer, isEnd value = false) (value : α) :
    takeFrames isEnd (buffer ++ [value]) =
      if isEnd value then ([buffer], []) else ([], buffer ++ [value]) := by
  induction buffer with
  | nil =>
      by_cases ends : isEnd value = true
      · simp [takeFrames, ends]
      · simp [takeFrames, ends]
  | cons first buffer ih =>
      obtain ⟨here, there⟩ := List.forall_mem_cons.mp partly
      rw [List.cons_append, takeFrames, ih there]
      by_cases ends : isEnd value = true
      · simp [here, ends]
      · simp [here, ends]

/-- The complete frames and the rest are what lies between the terminators. -/
theorem takeFrames_concat (buffer : List α) :
    (takeFrames isEnd buffer).1 ++ [(takeFrames isEnd buffer).2] = buffer.splitOnP isEnd := by
  induction buffer with
  | nil => rfl
  | cons value buffer ih =>
      rw [takeFrames, List.splitOnP_cons_eq_if_modifyHead, ← ih]
      by_cases ends : isEnd value = true
      · simp [ends]
      · simp only [if_neg ends]
        cases (takeFrames isEnd buffer).1 with
        | nil => rfl
        | cons frame frames => rfl

/-! ### Reading piece by piece -/

section Reading

variable {σ : Type*} (isEnd) (handle : σ → List α → σ)

/-- A piece arrives, and every frame that it completes is handled. -/
def feed (reading : List α × σ) (piece : List α) : List α × σ :=
  let (frames, rest) := takeFrames isEnd (reading.1 ++ piece)
  (rest, frames.foldl handle reading.2)

variable {isEnd handle}

/-- A piece may as well arrive in two. -/
theorem feed_append (reading : List α × σ) (front back : List α) :
    feed isEnd handle reading (front ++ back) =
      feed isEnd handle (feed isEnd handle reading front) back := by
  unfold feed
  dsimp only
  rw [← List.append_assoc, takeFrames_append (reading.1 ++ front), List.foldl_append]

/-- Nothing arrives. -/
theorem feed_nil {buffer : List α} (state : σ)
    (partly : takeFrames isEnd buffer = ([], buffer)) :
    feed isEnd handle (buffer, state) [] = (buffer, state) := by
  unfold feed
  dsimp only
  rw [List.append_nil, partly]
  rfl

end Reading

end Framing
