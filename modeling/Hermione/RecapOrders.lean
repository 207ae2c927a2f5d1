import Mathlib.Data.Int.Order.Lemmas
import Mathlib.Logic.Equiv.Basic
import Hermione.LessonRecap

/-!
# The orders a recap is made in

A recap judges stints: a student's time on one exercise.  Whatever the orders, the
stints are the same.  What an order decides is which of several longest stints a
student's trouble is held against.
-/

namespace Hermione

namespace Recap

/-- A student's time on one exercise. -/
structure Stint where
  student : Str
  exercise : Nat
  seconds : Int
  deriving DecidableEq

variable (events : List Ev) (trouble : List Trouble) (exercises : List ExerciseInfo)

/-- The numbers of the lesson's exercises. -/
def numbers : AList fun _ : Str => Nat :=
  indexOf (exerciseOrder events exercises)

/-- The time of a student on an exercise, when there is any. -/
def timeOn (student : Str) (exercise : Nat) : Option Int :=
  (perStudent (numbers events exercises) events student).bind fun per =>
    (per.byExercise.lookup exercise).filter fun secs => 0 < secs

/-- A student's stint on an exercise. -/
def stintOn (student : Str) (exercise : Nat) : Option Stint :=
  (timeOn events exercises student exercise).map fun seconds => { student, exercise, seconds }

/-- Everybody's stints, in the order of the visits. -/
def stints (visits : Visits) : List Stint :=
  visits.students.flatMap fun student =>
    (visits.exercises student).filterMap (stintOn events exercises student)

/-- The exercise a student's trouble is held against. -/
def topOf (visits : Visits) (student : Str) : Option Nat :=
  (perStudent (numbers events exercises) events student).bind fun per =>
    (longest (visitedTimes per (visits.exercises student))).map Prod.fst

/-- A student's trouble. -/
def troubled (student : Str) : Signals :=
  ((signalsOf trouble).lookup student).getD .none

/-- What a stint is assessed to, with this much trouble. -/
def verdict (sig : Signals) (stint : Stint) : Level × List Str :=
  assess sig stint.seconds .none
    (fences (numbers events exercises) events (.ofKeys events exercises) stint.exercise)

/-- The trouble that is held against a stint. -/
def heldAgainst (visits : Visits) (stint : Stint) : Signals :=
  if some stint.exercise = topOf events exercises visits stint.student then
    troubled trouble stint.student
  else .none

/-- A stint, judged. -/
def judged (visits : Visits) (stint : Stint) : Judgement :=
  let verdict := verdict events exercises (heldAgainst events trouble exercises visits stint) stint
  { student := stint.student
    exercise := stint.exercise
    level := verdict.1
    seconds := stint.seconds
    reasons := verdict.2 }

variable {events trouble exercises}

section Complete

variable {visits others : Visits} (complete : visits.Complete events exercises)
  (complete' : others.Complete events exercises)

/-! ### The stints -/

theorem eq_of_stintOn {student : Str} {exercise : Nat} {stint : Stint}
    (made : stintOn events exercises student exercise = some stint) :
    stint.student = student ∧ stint.exercise = exercise := by
  obtain ⟨seconds, -, rfl⟩ := Option.map_eq_some_iff.mp made
  exact ⟨rfl, rfl⟩

theorem stintOn_eq_some_iff {student : Str} {exercise : Nat} {stint : Stint} :
    stintOn events exercises student exercise = some stint ↔
      stint.student = student ∧ stint.exercise = exercise ∧
        timeOn events exercises student exercise = some stint.seconds := by
  constructor
  · intro made
    obtain ⟨seconds, found, rfl⟩ := Option.map_eq_some_iff.mp made
    exact ⟨rfl, rfl, found⟩
  · rintro ⟨rfl, rfl, found⟩
    rw [stintOn, found]
    rfl

include complete in
theorem mem_stints {stint : Stint} :
    stint ∈ stints events exercises visits ↔
      timeOn events exercises stint.student stint.exercise = some stint.seconds := by
  simp only [stints, List.mem_flatMap, List.mem_filterMap, stintOn_eq_some_iff]
  constructor
  · rintro ⟨student, -, exercise, -, rfl, rfl, found⟩
    exact found
  · intro found
    obtain ⟨per, walked, spent⟩ := Option.bind_eq_some_iff.mp found
    have known : stint.student ∈ visits.students := by
      apply complete.students.mem_iff.mpr
      apply AList.lookup_isSome.mp
      rw [perStudent] at walked
      obtain ⟨rows, grouped, -⟩ := Option.map_eq_some_iff.mp walked
      rw [grouped]
      rfl
    have visited : stint.exercise ∈ visits.exercises stint.student := by
      apply (complete.exercises _ per walked).mem_iff.mpr
      apply AList.lookup_isSome.mp
      rw [(Option.filter_eq_some_iff.mp spent).1]
      rfl
    exact ⟨_, known, _, visited, rfl, rfl, found⟩

include complete in
theorem nodup_visited {student : Str} {per : PerStudent}
    (walked : perStudent (numbers events exercises) events student = some per) :
    (visits.exercises student).Nodup :=
  (complete.exercises student per walked).nodup_iff.mpr (AList.keys_nodup _)

include complete in
theorem nodup_stints : (stints events exercises visits).Nodup := by
  unfold stints
  rw [List.nodup_flatMap]
  constructor
  · intro student _
    cases walked : perStudent (numbers events exercises) events student with
    | none =>
        have nothing : (visits.exercises student).filterMap
            (stintOn events exercises student) = [] := by
          rw [List.filterMap_eq_nil_iff]
          intro exercise _
          simp [stintOn, timeOn, walked]
        rw [nothing]
        exact List.nodup_nil
    | some per =>
        apply (nodup_visited complete walked).filterMap
        intro first second stint one two
        exact (eq_of_stintOn one).2.symm.trans (eq_of_stintOn two).2
  · have apart : visits.students.Nodup :=
      complete.students.nodup_iff.mpr (AList.keys_nodup _)
    apply apart.imp
    intro first second differ
    apply List.disjoint_left.mpr
    intro stint one two
    obtain ⟨exercise, -, one⟩ := List.mem_filterMap.mp one
    obtain ⟨exercise', -, two⟩ := List.mem_filterMap.mp two
    exact differ ((eq_of_stintOn one).1.symm.trans (eq_of_stintOn two).1)

include complete complete' in
theorem stints_perm :
    (stints events exercises visits).Perm (stints events exercises others) := by
  apply (List.perm_ext_iff_of_nodup (nodup_stints complete) (nodup_stints complete')).mpr
  intro stint
  rw [mem_stints complete, mem_stints complete']

include complete complete' in
theorem students_perm : visits.students.Perm others.students :=
  complete.students.trans complete'.students.symm

/-- All stints of one student on one exercise are one. -/
theorem eq_of_mem_stints {first second : Stint}
    (one : timeOn events exercises first.student first.exercise = some first.seconds)
    (two : timeOn events exercises second.student second.exercise = some second.seconds)
    (same : first.student = second.student) (alike : first.exercise = second.exercise) :
    first = second := by
  rw [same, alike, two] at one
  cases first
  cases second
  dsimp only at same alike one
  rw [same, alike, ← Option.some.inj one]

/-! ### The judgements -/

include complete in
/-- What "long" means is the same for every order. -/
theorem fences_complete (exercise : Nat) :
    fences (numbers events exercises) events visits exercise =
      fences (numbers events exercises) events (.ofKeys events exercises) exercise :=
  Fences.forCohort_perm
    ((students_perm complete (complete_ofKeys events exercises)).filterMap _)

/-- The times that count, of a student. -/
theorem filter_visitedTimes {student : Str} {per : PerStudent}
    (walked : perStudent (numbers events exercises) events student = some per)
    (visited : List Nat) :
    ((visitedTimes per visited).filter fun entry => 0 < entry.2) =
      (visited.filterMap (stintOn events exercises student)).map fun stint =>
        (stint.exercise, stint.seconds) := by
  unfold visitedTimes
  rw [List.filter_filterMap, List.map_filterMap]
  apply List.filterMap_congr
  intro exercise _
  rw [stintOn, timeOn, walked, Option.bind_some]
  cases per.byExercise.lookup exercise with
  | none => rfl
  | some seconds => by_cases more : 0 < seconds <;> simp [Option.filter_some, more]

include complete in
/-- A lesson's judgements are of its stints. -/
theorem judgements_eq :
    judgements events trouble exercises visits =
      (stints events exercises visits).map (judged events trouble exercises visits) := by
  unfold judgements stints
  rw [List.map_flatMap]
  apply List.flatMap_congr
  intro student _
  have index : indexOf (exerciseOrder events exercises) = numbers events exercises := rfl
  rw [index]
  cases walked : perStudent (numbers events exercises) events student with
  | none =>
      have nothing : (visits.exercises student).filterMap
          (stintOn events exercises student) = [] := by
        rw [List.filterMap_eq_nil_iff]
        intro exercise _
        simp [stintOn, timeOn, walked]
      rw [nothing]
      rfl
  | some per =>
      have top : topOf events exercises visits student =
          (longest (visitedTimes per (visits.exercises student))).map Prod.fst := by
        rw [topOf, walked, Option.bind_some]
      unfold judge
      dsimp only
      rw [filter_visitedTimes walked, List.map_map]
      apply List.map_congr_left
      intro stint among
      obtain ⟨exercise, -, made⟩ := List.mem_filterMap.mp among
      obtain ⟨rfl, -⟩ := eq_of_stintOn made
      have long := fences_complete complete stint.exercise
      unfold numbers at long
      simp only [Function.comp, judged, verdict, heldAgainst, troubled, top, numbers, long]

/-! ### The longest stint -/

/-- The later of two entries, unless the earlier one has the greater time. -/
def longer (best entry : Nat × Int) : Nat × Int :=
  if best.2 ≤ entry.2 then entry else best

theorem foldl_longest (best : Nat × Int) (times : List (Nat × Int)) :
    times.foldl (fun best entry =>
      match best with
      | none => some entry
      | some other => if other.2 ≤ entry.2 then some entry else some other) (some best) =
      some (times.foldl longer best) := by
  induction times generalizing best with
  | nil => rfl
  | cons entry times ih =>
      rw [List.foldl_cons, List.foldl_cons, ← ih, longer, apply_ite some]

theorem longest_cons (first : Nat × Int) (times : List (Nat × Int)) :
    longest (first :: times) = some (times.foldl longer first) :=
  foldl_longest first times

/-- The greatest time is that of an entry, and no entry has a greater. -/
theorem foldl_longer (best : Nat × Int) (times : List (Nat × Int)) :
    times.foldl longer best ∈ best :: times ∧
      ∀ entry ∈ best :: times, entry.2 ≤ (times.foldl longer best).2 := by
  induction times generalizing best with
  | nil => simp
  | cons first times ih =>
      rw [List.foldl_cons]
      obtain ⟨among, most⟩ := ih (longer best first)
      have either : longer best first = best ∨ longer best first = first := by
        unfold longer
        split <;> simp
      have above : best.2 ≤ (longer best first).2 ∧ first.2 ≤ (longer best first).2 := by
        unfold longer
        split <;> omega
      constructor
      · rcases List.mem_cons.mp among with same | later
        · rw [same]
          rcases either with kept | taken
          · rw [kept]
            exact List.mem_cons_self
          · rw [taken]
            exact List.mem_cons_of_mem _ List.mem_cons_self
        · exact List.mem_cons_of_mem _ (List.mem_cons_of_mem _ later)
      · have greatest := most _ List.mem_cons_self
        intro entry member
        rcases List.mem_cons.mp member with rfl | member
        · exact above.1.trans greatest
        · rcases List.mem_cons.mp member with rfl | later
          · exact above.2.trans greatest
          · exact most entry (List.mem_cons_of_mem _ later)

theorem longest_spec {times : List (Nat × Int)} {entry : Nat × Int} (member : entry ∈ times) :
    ∃ most ∈ times, longest times = some most ∧ ∀ other ∈ times, other.2 ≤ most.2 := by
  cases times with
  | nil => cases member
  | cons first times =>
      obtain ⟨among, most⟩ := foldl_longer first times
      exact ⟨_, among, longest_cons first times, most⟩

/-- Which entry that is depends on the times and the order alone. -/
theorem longest_map {rename : Nat × Int → Nat × Int}
    (keeps : ∀ entry, (rename entry).2 = entry.2) (times : List (Nat × Int)) :
    longest (times.map rename) = (longest times).map rename := by
  have loop (best : Nat × Int) (times : List (Nat × Int)) :
      (times.map rename).foldl longer (rename best) = rename (times.foldl longer best) := by
    induction times generalizing best with
    | nil => rfl
    | cons first times ih =>
        rw [List.map_cons, List.foldl_cons, List.foldl_cons, ← ih]
        unfold longer
        rw [keeps, keeps, apply_ite rename]
  cases times with
  | nil => rfl
  | cons first times =>
      rw [List.map_cons, longest_cons, longest_cons, loop]
      rfl

include complete in
/-- The exercise that a student's trouble is held against is one of their longest. -/
theorem exists_top {stint : Stint} (member : stint ∈ stints events exercises visits) :
    ∃ top ∈ stints events exercises visits, top.student = stint.student ∧
      topOf events exercises visits stint.student = some top.exercise ∧
      ∀ other ∈ stints events exercises visits, other.student = stint.student →
        other.seconds ≤ top.seconds := by
  have timed {other : Stint} {per : PerStudent}
      (walked : perStudent (numbers events exercises) events other.student = some per)
      (listed : other ∈ stints events exercises visits) :
      (other.exercise, other.seconds) ∈ visitedTimes per (visits.exercises other.student) ∧
        0 < other.seconds := by
    have found := (mem_stints complete).mp listed
    rw [timeOn, walked, Option.bind_some] at found
    obtain ⟨spent, more⟩ := Option.filter_eq_some_iff.mp found
    have visited : other.exercise ∈ visits.exercises other.student := by
      apply (complete.exercises _ per walked).mem_iff.mpr
      apply AList.lookup_isSome.mp
      rw [spent]
      rfl
    refine ⟨List.mem_filterMap.mpr ⟨_, visited, ?_⟩, of_decide_eq_true more⟩
    rw [spent]
    rfl
  obtain ⟨per, walked, -⟩ := Option.bind_eq_some_iff.mp ((mem_stints complete).mp member)
  obtain ⟨visited, more⟩ := timed walked member
  obtain ⟨⟨exercise, seconds⟩, among, found, most⟩ := longest_spec visited
  have positive : 0 < seconds := lt_of_lt_of_le more (most _ visited)
  refine ⟨⟨stint.student, exercise, seconds⟩, (mem_stints complete).mpr ?_, rfl, ?_, ?_⟩
  · obtain ⟨number, -, made⟩ := List.mem_filterMap.mp among
    obtain ⟨secs, spent, same⟩ := Option.map_eq_some_iff.mp made
    cases same
    rw [timeOn, walked, Option.bind_some]
    exact Option.filter_eq_some_iff.mpr ⟨spent, decide_eq_true positive⟩
  · rw [topOf, walked, Option.bind_some, found]
    rfl
  · intro other listed about
    rw [← about] at walked most
    exact most _ (timed walked listed).1

/-! ### Another order -/

/-- The same visits, but that one student's exercises change places. -/
def Visits.swap (visits : Visits) (student : Str) (first second : Nat) : Visits :=
  { visits with
    exercises := fun other =>
      if other = student then (visits.exercises student).map (Equiv.swap first second)
      else visits.exercises other }

include complete in
theorem complete_swap {first second : Stint} (one : first ∈ stints events exercises visits)
    (two : second ∈ stints events exercises visits) (same : first.student = second.student) :
    (visits.swap first.student first.exercise second.exercise).Complete events exercises := by
  constructor
  · exact complete.students
  · intro student per walked
    unfold Visits.swap
    dsimp only
    split
    · next about =>
        subst about
        have listed {stint : Stint} (member : stint ∈ stints events exercises visits)
            (about : stint.student = first.student) :
            stint.exercise ∈ visits.exercises first.student := by
          obtain ⟨student, -, among⟩ := List.mem_flatMap.mp member
          obtain ⟨exercise, visited, made⟩ := List.mem_filterMap.mp among
          obtain ⟨rfl, rfl⟩ := eq_of_stintOn made
          rwa [about] at visited
        have once := nodup_visited complete walked
        apply List.Perm.trans _ (complete.exercises _ per walked)
        apply List.Subperm.perm_of_length_le _ (by rw [List.length_map])
        apply (once.map (Equiv.injective _)).subperm
        intro exercise swapped
        obtain ⟨other, visited, rfl⟩ := List.mem_map.mp swapped
        rw [Equiv.swap_apply_def]
        split
        · exact listed two same.symm
        · split
          · exact listed one rfl
          · exact visited
    · exact complete.exercises student per walked

section Swap

variable {first second : Stint} (one : first ∈ stints events exercises visits)
  (two : second ∈ stints events exercises visits) (same : first.student = second.student)
  (alike : first.seconds = second.seconds)

include complete one two same

/-- Stints of equal length change places. -/
theorem stints_swap :
    stints events exercises
        (visits.swap first.student first.exercise second.exercise) =
      (stints events exercises visits).map (Equiv.swap first second) := by
  have left : stintOn events exercises first.student first.exercise = some first :=
    stintOn_eq_some_iff.mpr ⟨rfl, rfl, (mem_stints complete).mp one⟩
  have right : stintOn events exercises first.student second.exercise = some second :=
    stintOn_eq_some_iff.mpr ⟨same.symm, rfl, same ▸ (mem_stints complete).mp two⟩
  have fixed {student : Str} {exercise : Nat}
      (other : student = first.student → exercise ≠ first.exercise ∧ exercise ≠ second.exercise) :
      (stintOn events exercises student exercise).map (Equiv.swap first second) =
        stintOn events exercises student exercise := by
    cases made : stintOn events exercises student exercise with
    | none => rfl
    | some stint =>
        obtain ⟨rfl, rfl⟩ := eq_of_stintOn made
        rw [Option.map_some, Equiv.swap_apply_of_ne_of_ne]
        · rintro rfl
          exact (other rfl).1 rfl
        · rintro rfl
          exact (other same.symm).2 rfl
  unfold stints
  rw [List.map_flatMap]
  apply List.flatMap_congr
  intro student _
  unfold Visits.swap
  dsimp only
  split
  · next about =>
      subst about
      rw [List.filterMap_map, List.map_filterMap]
      apply List.filterMap_congr
      intro exercise _
      rw [Function.comp, Equiv.swap_apply_def]
      split
      · next here =>
          rw [here, left, right, Option.map_some, Equiv.swap_apply_left]
      · next elsewhere =>
          split
          · next here =>
              rw [here, left, right, Option.map_some, Equiv.swap_apply_right]
          · next other => exact (fixed fun _ => ⟨elsewhere, other⟩).symm
  · next other =>
      rw [List.map_filterMap]
      apply List.filterMap_congr
      exact fun exercise _ => (fixed fun about => absurd about other).symm

include alike in
/-- And so does what trouble is held against. -/
theorem topOf_swap :
    topOf events exercises
        (visits.swap first.student first.exercise second.exercise) first.student =
      (topOf events exercises visits first.student).map
        (Equiv.swap first.exercise second.exercise) := by
  obtain ⟨per, walked, spent⟩ := Option.bind_eq_some_iff.mp ((mem_stints complete).mp one)
  have spent' := (mem_stints complete).mp two
  rw [← same, timeOn, walked, Option.bind_some] at spent'
  have left := (Option.filter_eq_some_iff.mp spent).1
  have right := (Option.filter_eq_some_iff.mp spent').1
  have times : visitedTimes per ((visits.swap first.student first.exercise
      second.exercise).exercises first.student) =
      (visitedTimes per (visits.exercises first.student)).map fun entry =>
        (Equiv.swap first.exercise second.exercise entry.1, entry.2) := by
    unfold visitedTimes Visits.swap
    dsimp only
    rw [if_pos rfl, List.filterMap_map, List.map_filterMap]
    apply List.filterMap_congr
    intro exercise _
    have kept : per.byExercise.lookup (Equiv.swap first.exercise second.exercise exercise) =
        per.byExercise.lookup exercise := by
      by_cases here : exercise = first.exercise
      · rw [here, Equiv.swap_apply_left, left, right, alike]
      · by_cases there : exercise = second.exercise
        · rw [there, Equiv.swap_apply_right, left, right, alike]
        · rw [Equiv.swap_apply_of_ne_of_ne here there]
    rw [Function.comp, kept, Option.map_map]
    rfl
  rw [topOf, topOf, walked, Option.bind_some, Option.bind_some, times]
  have renamed := @longest_map
    (fun entry => (Equiv.swap first.exercise second.exercise entry.1, entry.2)) (fun _ => rfl)
    (visitedTimes per (visits.exercises first.student))
  rw [renamed, Option.map_map, Option.map_map]
  rfl

omit complete one two same in
/-- Other students' trouble stays where it is. -/
theorem topOf_swap_of_ne {student : Str} (other : student ≠ first.student) :
    topOf events exercises (visits.swap first.student first.exercise second.exercise) student =
      topOf events exercises visits student := by
  unfold topOf Visits.swap
  simp only [if_neg other]

end Swap

end Complete

end Recap

end Hermione
