import Mathlib.Data.List.Basic

/-!
# Lessons

A course's activity falls into lessons: runs of events with no long gap between
them.  Lessons are found on whole seconds, newest first, and the events of one are
then asked for between its first and its last second.  Event times here are in
milliseconds, as they are stored.
-/

namespace Hermione

namespace Recap

/-- Activity separated by more than this is a different lesson. -/
def LESSON_GAP_SECS : Int :=
  30 * 60

/-- Lessons offered for navigation. -/
def MAX_LESSONS : Nat :=
  12

/-- A stretch of time, in seconds. -/
structure Span where
  fromSecs : Int
  toSecs : Int
  deriving DecidableEq, Repr

/-- `DateTime::timestamp`: the whole second a time lies in. -/
def timestamp (ms : Int) : Int :=
  ms / 1000

/-- The next event time, newest first: it extends the open span or opens another. -/
def lessonsStep (gap : Int) (out : List Span) (t : Int) : List Span :=
  match out.getLast? with
  | some last =>
      if last.fromSecs - t < gap then out.dropLast ++ [{ last with fromSecs := t }]
      else out ++ [⟨t, t⟩]
  | none => out ++ [⟨t, t⟩]

def lessons (timesDesc : List Int) (gap : Int) : List Span :=
  timesDesc.foldl (lessonsStep gap) []

/-- The lesson a recap is asked for, of those offered. -/
def lessonWindow (events : List Int) (index : Nat) : Option Span :=
  ((lessons (events.map timestamp) LESSON_GAP_SECS)[index]?).filter fun _ =>
    index < MAX_LESSONS

/-- The events between the first and the last second of a lesson. -/
def selected (window : Span) (events : List Int) : List Int :=
  events.filter fun time => window.fromSecs * 1000 ≤ time && time ≤ window.toSecs * 1000

/-! ## What the spans are made of -/

/-- The same step, with the events of each span on record. -/
def placedStep (gap : Int) (out : List (Span × List Int)) (event : Int) :
    List (Span × List Int) :=
  match out.getLast? with
  | some (last, kept) =>
      if last.fromSecs - timestamp event < gap then
        out.dropLast ++ [({ last with fromSecs := timestamp event }, kept ++ [event])]
      else out ++ [(⟨timestamp event, timestamp event⟩, [event])]
  | none => out ++ [(⟨timestamp event, timestamp event⟩, [event])]

/-- The spans with the events that were put into them. -/
def placed (gap : Int) (events : List Int) : List (Span × List Int) :=
  events.foldl (placedStep gap) []

theorem map_fst_placedStep (gap : Int) (out : List (Span × List Int)) (event : Int) :
    (placedStep gap out event).map Prod.fst =
      lessonsStep gap (out.map Prod.fst) (timestamp event) := by
  unfold placedStep lessonsStep
  rw [List.getLast?_map]
  cases found : out.getLast? with
  | none => simp
  | some entry =>
      simp only [Option.map_some]
      split
      · simp [List.map_dropLast]
      · simp

theorem map_fst_placed (gap : Int) (events : List Int) :
    (placed gap events).map Prod.fst = lessons (events.map timestamp) gap := by
  have step (out : List (Span × List Int)) :
      (events.foldl (placedStep gap) out).map Prod.fst =
        (events.map timestamp).foldl (lessonsStep gap) (out.map Prod.fst) := by
    induction events generalizing out with
    | nil => rfl
    | cons event events ih =>
        simp only [List.foldl_cons, List.map_cons]
        rw [ih, map_fst_placedStep]
  exact step []

/-- A span that covers its events. -/
def Covers (entry : Span × List Int) : Prop :=
  entry.1.fromSecs ≤ entry.1.toSecs ∧
    ∀ event ∈ entry.2,
      entry.1.fromSecs ≤ timestamp event ∧ timestamp event ≤ entry.1.toSecs

/-- What the loop keeps: every event in its span, and the spans apart from each
other and in order. -/
structure Sorted (out : List (Span × List Int)) (seen : List Int) : Prop where
  all : out.flatMap Prod.snd = seen
  covers : ∀ entry ∈ out, Covers entry
  apart : out.Pairwise fun newer older => older.1.toSecs < newer.1.fromSecs
  last : ∀ entry, out.getLast? = some entry → ∃ event ∈ seen, timestamp event = entry.1.fromSecs

variable {gap : Int} {out : List (Span × List Int)} {seen events : List Int} {event : Int}

theorem sorted_open (sorted : Sorted out seen)
    (older : ∀ entry ∈ out, timestamp event < entry.1.fromSecs) :
    Sorted (out ++ [(⟨timestamp event, timestamp event⟩, [event])]) (seen ++ [event]) := by
  constructor
  · simp [sorted.all]
  · intro entry member
    rcases List.mem_append.mp member with before | new
    · exact sorted.covers entry before
    · rw [List.mem_singleton.mp new]
      simp [Covers]
  · rw [List.pairwise_append]
    refine ⟨sorted.apart, List.pairwise_singleton _ _, ?_⟩
    intro entry member new same
    rw [List.mem_singleton.mp same]
    exact older entry member
  · intro entry found
    rw [List.getLast?_append, List.getLast?_singleton] at found
    obtain rfl := Option.some.inj found
    exact ⟨event, by simp, rfl⟩

theorem sorted_extend {closed : List (Span × List Int)} {last : Span} {kept : List Int}
    (sorted : Sorted (closed ++ [(last, kept)]) seen)
    (older : timestamp event ≤ last.fromSecs) :
    Sorted (closed ++ [({ last with fromSecs := timestamp event }, kept ++ [event])])
      (seen ++ [event]) := by
  obtain ⟨all, covers, apart, -⟩ := sorted
  have here := covers (last, kept) (by simp)
  constructor
  · rw [← all]
    simp
  · intro entry member
    rcases List.mem_append.mp member with before | new
    · exact covers entry (List.mem_append_left _ before)
    · rw [List.mem_singleton.mp new]
      refine ⟨Int.le_trans older here.1, ?_⟩
      intro other inside
      rcases List.mem_append.mp inside with old | this
      · exact ⟨Int.le_trans older (here.2 other old).1, (here.2 other old).2⟩
      · rw [List.mem_singleton.mp this]
        exact ⟨Int.le_refl _, Int.le_trans older here.1⟩
  · rw [List.pairwise_append] at apart ⊢
    refine ⟨apart.1, List.pairwise_singleton _ _, ?_⟩
    intro entry member new same
    rw [List.mem_singleton.mp same]
    exact apart.2.2 entry member (last, kept) (List.mem_singleton_self _)
  · intro entry found
    rw [List.getLast?_append, List.getLast?_singleton] at found
    obtain rfl := Option.some.inj found
    exact ⟨event, by simp, rfl⟩

theorem sorted_placedStep (positive : 0 < gap) (sorted : Sorted out seen)
    (older : ∀ before ∈ seen, event ≤ before) :
    Sorted (placedStep gap out event) (seen ++ [event]) := by
  unfold placedStep
  rcases List.eq_nil_or_concat out with rfl | ⟨closed, ⟨last, kept⟩, rfl⟩
  · exact sorted_open sorted (by simp)
  · have found : (closed.concat (last, kept)).getLast? = some (last, kept) := by simp
    obtain ⟨before, among, same⟩ := sorted.last (last, kept) found
    have after : timestamp event ≤ last.fromSecs := by
      have := older before among
      simp only [timestamp] at same ⊢
      omega
    rw [found]
    dsimp only
    rw [List.concat_eq_append] at sorted ⊢
    split
    · rw [List.dropLast_concat]
      exact sorted_extend sorted after
    · apply sorted_open sorted
      intro entry member
      have here : timestamp event < last.fromSecs := by omega
      rcases List.mem_append.mp member with earlier | this
      · have apart := (List.pairwise_append.mp sorted.apart).2.2 entry earlier (last, kept)
          (List.mem_singleton_self _)
        have forwards := (sorted.covers (last, kept) (by simp)).1
        dsimp only at apart forwards
        omega
      · rw [List.mem_singleton.mp this]
        exact here

/-- The spans of a descending list of events hold all of them, apart and in order. -/
theorem sorted_placed (positive : 0 < gap) (descending : events.Pairwise (· ≥ ·)) :
    Sorted (placed gap events) events := by
  have loop (out : List (Span × List Int)) (seen rest : List Int)
      (sorted : Sorted out seen) (ordered : (seen ++ rest).Pairwise (· ≥ ·)) :
      Sorted (rest.foldl (placedStep gap) out) (seen ++ rest) := by
    induction rest generalizing out seen with
    | nil => simpa using sorted
    | cons event rest ih =>
        rw [List.append_cons] at ordered ⊢
        refine ih _ _ (sorted_placedStep positive sorted ?_) ordered
        intro before member
        have pairs := (List.pairwise_append.mp (List.pairwise_append.mp ordered).1).2.2
        exact pairs before member event (List.mem_singleton_self _)
  exact loop [] [] events ⟨rfl, by simp, List.Pairwise.nil, by simp⟩ (by simpa using descending)

/-! ## Which events a recap is of -/

/-- Between whole seconds an event is in reach when its own second is, the last
second excepted. -/
theorem selected_iff {window : Span} (below : timestamp event ≤ window.toSecs)
    (above : window.fromSecs ≤ timestamp event) :
    (window.fromSecs * 1000 ≤ event ∧ event ≤ window.toSecs * 1000) ↔
      (timestamp event = window.toSecs → event % 1000 = 0) := by
  simp only [timestamp] at *
  omega

theorem not_selected {window : Span}
    (outside : window.toSecs < timestamp event ∨ timestamp event < window.fromSecs) :
    ¬ (window.fromSecs * 1000 ≤ event ∧ event ≤ window.toSecs * 1000) := by
  simp only [timestamp] at *
  omega

/-- The recap of a lesson is of the events that were put into its span exactly when
those in the span's last second have no sub-second part. -/
theorem selected_eq_placed_iff (events : List Int) (descending : events.Pairwise (· ≥ ·))
    (index : Nat) (window : Span) (found : lessonWindow events index = some window) :
    ∃ kept, (placed LESSON_GAP_SECS events)[index]? = some (window, kept) ∧
      (selected window events = kept ↔
        ∀ event ∈ kept, timestamp event = window.toSecs → event % 1000 = 0) := by
  have spans : (lessons (events.map timestamp) LESSON_GAP_SECS)[index]? = some window :=
    (Option.filter_eq_some_iff.mp found).1
  rw [← map_fst_placed, List.getElem?_map] at spans
  obtain ⟨⟨span, kept⟩, entry, rfl⟩ := Option.map_eq_some_iff.mp spans
  refine ⟨kept, entry, ?_⟩
  have sorted : Sorted (placed LESSON_GAP_SECS events) events :=
    sorted_placed (by decide) descending
  obtain ⟨newer, older, split⟩ : ∃ newer older,
      placed LESSON_GAP_SECS events = newer ++ (span, kept) :: older := by
    obtain ⟨within, here⟩ := List.getElem?_eq_some_iff.mp entry
    refine ⟨(placed LESSON_GAP_SECS events).take index,
      (placed LESSON_GAP_SECS events).drop (index + 1), ?_⟩
    rw [← here, ← List.drop_eq_getElem_cons within, List.take_append_drop]
  rw [split] at sorted
  have covers := sorted.covers (span, kept) (by simp)
  -- No other span reaches into this one.
  have others (entries : List (Span × List Int))
      (apart : ∀ entry ∈ entries, Covers entry ∧
        (span.toSecs < entry.1.fromSecs ∨ entry.1.toSecs < span.fromSecs)) :
      selected span (entries.flatMap Prod.snd) = [] := by
    rw [selected, List.filter_eq_nil_iff]
    intro event member
    obtain ⟨other, among, inside⟩ := List.mem_flatMap.mp member
    obtain ⟨⟨-, range⟩, away⟩ := apart other among
    have bounds := range event inside
    have outside : ¬ (span.fromSecs * 1000 ≤ event ∧ event ≤ span.toSecs * 1000) :=
      not_selected (by omega)
    simpa using outside
  have order := List.pairwise_append.mp sorted.apart
  have before := others newer fun other among =>
    ⟨sorted.covers other (List.mem_append_left _ among),
      .inl (order.2.2 other among (span, kept) List.mem_cons_self)⟩
  have after := others older fun other among =>
    ⟨sorted.covers other (List.mem_append_right _ (List.mem_cons_of_mem _ among)),
      .inr ((List.pairwise_cons.mp order.2.1).1 other among)⟩
  have whole : selected span events = selected span kept := by
    conv_lhs => rw [← sorted.all]
    rw [List.flatMap_append, List.flatMap_cons, selected, List.filter_append,
      List.filter_append]
    unfold selected at before after ⊢
    rw [before, after, List.nil_append, List.append_nil]
  rw [whole, selected, List.filter_eq_self]
  apply forall_congr'
  intro event
  apply forall_congr'
  intro inside
  have range := covers.2 event inside
  rw [Bool.and_eq_true, decide_eq_true_eq, decide_eq_true_eq]
  exact selected_iff range.2 range.1

/-- A lesson with a second of activity, its last event within that second. -/
def activity : List Int :=
  [61500, 61000, 60250]

theorem selected_eq_placed_whole :
    ∃ kept, (placed LESSON_GAP_SECS [61000, 60250])[0]? = some (⟨60, 61⟩, kept) ∧
      (selected ⟨60, 61⟩ [61000, 60250] = kept ↔
        ∀ event ∈ kept, timestamp event = 61 → event % 1000 = 0) :=
  selected_eq_placed_iff [61000, 60250] (by decide) 0 ⟨60, 61⟩ rfl

theorem selected_ne_placed_activity :
    activity.Pairwise (· ≥ ·) ∧ lessonWindow activity 0 = some ⟨60, 61⟩ ∧
      (placed LESSON_GAP_SECS activity)[0]? = some (⟨60, 61⟩, activity) ∧
      selected ⟨60, 61⟩ activity ≠ activity := by
  decide

end Recap

end Hermione
