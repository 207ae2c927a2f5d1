import Mathlib.Data.Set.Card
import Hermione.RecapSettled

/-!
# The timeline of a lesson

The buckets are the five-minute stretches, in order, from the one the lesson begins
in to the one it ends in, and each counts the students that were active in it.
-/

namespace Hermione

namespace Recap

/-! ### Filling the buckets -/

theorem length_foldl_intoBucket (start : Int) (seen : List (List Str)) (events : List Ev) :
    (events.foldl (intoBucket start) seen).length = seen.length := by
  induction events generalizing seen with
  | nil => rfl
  | cons ev events ih =>
      rw [List.foldl_cons, ih]
      unfold intoBucket
      split
      · rw [List.length_modify]
      · rfl

/-- The event is put into this bucket. -/
def FallsInto (start : Int) (number : Nat) (ev : Ev) : Prop :=
  ((ev.second - start).tdiv BUCKET_SECS).toNat? = some number

/-- After any events, a bucket holds whom it held and whose events fell into it, each
student once. -/
theorem foldl_intoBucket (start : Int) {number : Nat} {seen : List (List Str)}
    (events : List Ev) {bucket : List Str} (found : seen[number]? = some bucket)
    (once : bucket.Nodup) :
    ∃ students, (events.foldl (intoBucket start) seen)[number]? = some students ∧
      students.Nodup ∧ ∀ student, student ∈ students ↔
        student ∈ bucket ∨ ∃ ev ∈ events, FallsInto start number ev ∧ ev.student = student := by
  induction events generalizing seen bucket with
  | nil => exact ⟨bucket, found, once, fun student => by simp⟩
  | cons ev events ih =>
      by_cases here : FallsInto start number ev
      · have put : (intoBucket start seen ev)[number]? = some (bucket.insert ev.student) := by
          unfold intoBucket
          rw [here]
          dsimp only
          rw [List.getElem?_modify, found]
          simp
        obtain ⟨students, held, nodup, members⟩ := ih put once.insert
        refine ⟨students, held, nodup, fun student => ?_⟩
        rw [members, List.mem_insert_iff]
        constructor
        · rintro ((rfl | before) | ⟨later, listed, into, about⟩)
          · exact .inr ⟨ev, List.mem_cons_self, here, rfl⟩
          · exact .inl before
          · exact .inr ⟨later, List.mem_cons_of_mem _ listed, into, about⟩
        · rintro (before | ⟨other, listed, into, about⟩)
          · exact .inl (.inr before)
          · rcases List.mem_cons.mp listed with rfl | later
            · exact .inl (.inl about.symm)
            · exact .inr ⟨other, later, into, about⟩
      · have kept : (intoBucket start seen ev)[number]? = some bucket := by
          unfold intoBucket
          split
          · next other into =>
              have elsewhere : other ≠ number := by
                rintro rfl
                exact here into
              rw [List.getElem?_modify, found]
              simp [elsewhere]
          · exact found
        obtain ⟨students, held, nodup, members⟩ := ih kept once
        refine ⟨students, held, nodup, fun student => ?_⟩
        rw [members]
        apply or_congr_right
        constructor
        · rintro ⟨later, listed, into, about⟩
          exact ⟨later, List.mem_cons_of_mem _ listed, into, about⟩
        · rintro ⟨other, listed, into, about⟩
          rcases List.mem_cons.mp listed with rfl | later
          · exact absurd into here
          · exact ⟨other, later, into, about⟩

/-! ### The stretches -/

variable {window : Span} {events : List Ev}

/-- The second that the first bucket begins with. -/
def timelineStart (window : Span) : Int :=
  window.fromSecs - window.fromSecs % BUCKET_SECS

/-- An event of the lesson falls into the bucket of its stretch. -/
theorem fallsInto_iff {ev : Ev} (inside : window.fromSecs ≤ ev.second) (number : Nat) :
    FallsInto (timelineStart window) number ev ↔
      timelineStart window + number * BUCKET_SECS ≤ ev.second ∧
        ev.second < timelineStart window + (number + 1) * BUCKET_SECS := by
  unfold FallsInto timelineStart BUCKET_SECS
  have late : 0 ≤ ev.second - (window.fromSecs - window.fromSecs % (5 * 60)) := by omega
  rw [Int.tdiv_eq_ediv_of_nonneg late, Int.mem_toNat?]
  omega

/-- What the buckets of a window are to count. -/
structure ExactTimeline (window : Span) (events : List Ev) (buckets : List Bucket) : Prop where
  aligned : timelineStart window % BUCKET_SECS = 0
  /-- The first bucket holds the beginning of the window. -/
  first : timelineStart window ≤ window.fromSecs ∧
    window.fromSecs < timelineStart window + BUCKET_SECS
  /-- And the last one its end. -/
  last : ∃ last : Nat, buckets.length = last + 1 ∧
    timelineStart window + last * BUCKET_SECS ≤ window.toSecs ∧
      window.toSecs < timelineStart window + (last + 1) * BUCKET_SECS
  counts : ∀ (number : Nat) (bucket : Bucket), buckets[number]? = some bucket →
    bucket.atUnixMs = (timelineStart window + number * BUCKET_SECS) * 1000 ∧
      bucket.active = Set.ncard {student | ∃ ev ∈ events, ev.closed = false ∧
        timelineStart window + number * BUCKET_SECS ≤ ev.second ∧
          ev.second < timelineStart window + (number + 1) * BUCKET_SECS ∧ ev.student = student}
  /-- Every index that is computed is that of a bucket. -/
  complete : ∀ ev ∈ events, ev.closed = false →
    ∃ number < buckets.length, FallsInto (timelineStart window) number ev

theorem timeline_exact (window : Span) (events : List Ev)
    (forwards : window.fromSecs ≤ window.toSecs)
    (inside : ∀ ev ∈ events, window.fromSecs ≤ ev.second ∧ ev.second ≤ window.toSecs) :
    ExactTimeline window events (timeline window events) := by
  obtain ⟨last, count⟩ : ∃ last : Nat,
      ((window.toSecs - timelineStart window).tdiv BUCKET_SECS + 1).toNat = last + 1 ∧
        timelineStart window + last * BUCKET_SECS ≤ window.toSecs ∧
          window.toSecs < timelineStart window + (last + 1) * BUCKET_SECS := by
    unfold timelineStart BUCKET_SECS
    have late : 0 ≤ window.toSecs - (window.fromSecs - window.fromSecs % (5 * 60)) := by omega
    rw [Int.tdiv_eq_ediv_of_nonneg late]
    exact ⟨((window.toSecs - (window.fromSecs - window.fromSecs % (5 * 60))) / (5 * 60)).toNat,
      by omega, by omega, by omega⟩
  have length : (timeline window events).length = last + 1 := by
    unfold timeline
    dsimp only
    rw [List.length_map, List.length_zipIdx, length_foldl_intoBucket, List.length_replicate]
    exact count.1
  constructor
  · unfold timelineStart BUCKET_SECS
    omega
  · unfold timelineStart BUCKET_SECS
    omega
  · exact ⟨last, length, count.2⟩
  · intro number bucket found
    have early : number < last + 1 := length ▸ (List.getElem?_eq_some_iff.mp found).1
    have empty : (List.replicate ((window.toSecs - timelineStart window).tdiv BUCKET_SECS +
        1).toNat ([] : List Str))[number]? = some [] := by
      rw [count.1, List.getElem?_replicate, if_pos early]
    obtain ⟨students, held, nodup, members⟩ := foldl_intoBucket (timelineStart window)
      (events.filter fun ev => !ev.closed) empty List.nodup_nil
    unfold timeline at found
    dsimp only at found
    unfold timelineStart at held
    rw [List.getElem?_map, List.getElem?_zipIdx, held] at found
    cases found
    refine ⟨by simp [timelineStart], ?_⟩
    have same : {student | ∃ ev ∈ events, ev.closed = false ∧
        timelineStart window + number * BUCKET_SECS ≤ ev.second ∧
          ev.second < timelineStart window + (number + 1) * BUCKET_SECS ∧
            ev.student = student} = (students.toFinset : Set Str) := by
      ext student
      rw [List.coe_toFinset, Set.mem_ofPred_eq, Set.mem_ofPred_eq, members]
      simp only [List.not_mem_nil, false_or, List.mem_filter, Bool.not_eq_true']
      constructor
      · rintro ⟨ev, listed, active, lower, upper, about⟩
        exact ⟨ev, ⟨listed, active⟩,
          (fallsInto_iff (inside ev listed).1 number).mpr ⟨lower, upper⟩, about⟩
      · rintro ⟨ev, ⟨listed, active⟩, into, about⟩
        obtain ⟨lower, upper⟩ := (fallsInto_iff (inside ev listed).1 number).mp into
        exact ⟨ev, listed, active, lower, upper, about⟩
    rw [same, Set.ncard_coe_finset, List.toFinset_card_of_nodup nodup]
  · intro ev listed active
    obtain ⟨lower, upper⟩ := inside ev listed
    have late : 0 ≤ ev.second - timelineStart window := by
      unfold timelineStart BUCKET_SECS
      omega
    refine ⟨((ev.second - timelineStart window) / BUCKET_SECS).toNat, ?_, ?_⟩
    · rw [length]
      unfold BUCKET_SECS at count ⊢
      omega
    · unfold FallsInto
      rw [Int.tdiv_eq_ediv_of_nonneg late, Int.mem_toNat?]
      unfold BUCKET_SECS
      omega

omit window events in
/-- A lesson that begins before the epoch and runs over three stretches. -/
theorem timeline_exact_halves :
    ExactTimeline ⟨-10, 310⟩ halves (timeline ⟨-10, 310⟩ halves) :=
  timeline_exact ⟨-10, 310⟩ halves (by decide) (by decide)

end Recap

end Hermione
