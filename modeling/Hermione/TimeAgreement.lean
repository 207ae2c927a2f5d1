import Hermione.RecapBuild

/-!
# Time is accounted for alike

Four loops count a student's time on an exercise: the time report, the cohorts
of the board, the board's own figure and the recap.  Each comes to the sum of
the gaps that follow the student's events on it.  So the board and the recap
measure a class against the same fences.
-/

namespace Hermione

/-! ### The board -/

namespace Overview

theorem count_cohortStep (exercise : Str) (tally : AList fun _ : Str => Int)
    (pair : FileEvent × FileEvent) :
    Tally.count (cohortStep tally pair) exercise =
      Tally.count tally exercise + spentOn exercise pair := by
  obtain ⟨cur, next⟩ := pair
  simp only [cohortStep, spentOn]
  cases cur.exercise with
  | none => simp
  | some other =>
      dsimp only
      split
      · next closed => simp [closed]
      · next opened =>
          rw [Tally.count_credit]
          simp [opened, eq_comm]

theorem count_perExercise (evs : List FileEvent) (exercise : Str) :
    Tally.count (perExercise evs) exercise = secondsOn exercise evs := by
  have loop := foldl_sum cohortStep (fun tally => Tally.count tally exercise) (spentOn exercise)
    (count_cohortStep exercise) (neighbours evs) ∅
  simpa [perExercise, secondsOn] using loop

theorem secondsOnExercise_some (evs : List FileEvent) (exercise : Str) :
    secondsOnExercise (some exercise) evs = secondsOn exercise evs := by
  have loop := foldl_sum (fun seconds pair =>
    if pair.1.closed ∨ pair.1.exercise ≠ some exercise then seconds
    else seconds + countedGap pair.1 pair.2) id (spentOn exercise) (by
      intro seconds pair
      unfold spentOn
      by_cases closed : pair.1.closed = true
      · simp [closed]
      · by_cases same : pair.1.exercise = some exercise
        · simp [closed, same]
        · simp [closed, same]) (neighbours evs) 0
  simpa [secondsOnExercise, secondsOn] using loop

end Overview

/-! ### The recap -/

namespace Recap

theorem gapUntil_ofRow (cur next : FileEvent) :
    gapUntil (.ofRow cur) (.ofRow next) = countedGap cur next :=
  rfl

@[simp]
theorem closed_ofRow (row : FileEvent) : (Ev.ofRow row).closed = row.closed :=
  rfl

theorem count_advance {exercise : Str} {number : Nat} (per : PerStudent)
    {current : Option Nat} {cur : FileEvent}
    (same : current = some number ↔ cur.exercise = some exercise) (next : FileEvent) :
    Tally.count (per.advance current (.ofRow cur) (.ofRow next)).byExercise number =
      Tally.count per.byExercise number + spentOn exercise (cur, next) := by
  by_cases closed : cur.closed = true
  · simp [PerStudent.advance, PerStudent.note, spentOn, closed]
  · cases current with
    | none =>
        have other : cur.exercise ≠ some exercise := fun here => by cases same.mpr here
        simp [PerStudent.advance, PerStudent.note, spentOn, closed, other]
    | some current =>
        have credited : (per.advance (some current) (.ofRow cur) (.ofRow next)).byExercise =
            Tally.credit per.byExercise current (countedGap cur next) := by
          simp [PerStudent.advance, PerStudent.note, closed, gapUntil_ofRow]
        rw [credited, Tally.count_credit]
        simp [spentOn, closed, ← same, eq_comm]

theorem total_advance (per : PerStudent) (current : Option Nat) (cur next : FileEvent) :
    (per.advance current (.ofRow cur) (.ofRow next)).total = per.total + spent (cur, next) := by
  by_cases closed : cur.closed = true
  · simp [PerStudent.advance, PerStudent.note, spent, closed]
  · simp [PerStudent.advance, PerStudent.note, spent, closed, gapUntil_ofRow]

variable {index : AList fun _ : Str => Nat}

/-- Walking a student's events credits an exercise with the gaps after its events. -/
theorem count_walk {exercise : Str} {number : Nat}
    (own : index.lookup exercise = some number)
    (alone : ∀ other, index.lookup other = some number → other = exercise)
    (per : PerStudent) (rows : List FileEvent) :
    Tally.count (per.walk index (rows.map Ev.ofRow)).byExercise number =
      Tally.count per.byExercise number + secondsOn exercise rows := by
  induction rows generalizing per with
  | nil => simp [PerStudent.walk, secondsOn, neighbours]
  | cons cur rows ih =>
      cases rows with
      | nil => simp [PerStudent.walk, PerStudent.note, secondsOn, neighbours]
      | cons next rows =>
          have same : cur.exercise.bind index.lookup = some number ↔
              cur.exercise = some exercise := by
            cases cur.exercise with
            | none => simp
            | some other =>
                rw [Option.bind_some, Option.some.injEq]
                constructor
                · exact alone other
                · rintro rfl
                  exact own
          rw [secondsOn_cons_cons, ← add_assoc, ← count_advance per same next]
          exact ih _

theorem total_walk (per : PerStudent) (rows : List FileEvent) :
    (per.walk index (rows.map Ev.ofRow)).total = per.total + secondsInAll rows := by
  induction rows generalizing per with
  | nil => simp [PerStudent.walk, secondsInAll, neighbours]
  | cons cur rows ih =>
      cases rows with
      | nil => simp [PerStudent.walk, PerStudent.note, secondsInAll, neighbours]
      | cons next rows =>
          rw [secondsInAll_cons_cons, ← add_assoc, ← total_advance]
          exact ih _

/-! ### The index of a slug -/

theorem mem_destutter_ne {Value : Type*} [DecidableEq Value] {values : List Value}
    {value : Value} : value ∈ values.destutter (· ≠ ·) ↔ value ∈ values := by
  have loop (values : List Value) (first : Value) :
      value ∈ values.destutter' (· ≠ ·) first ↔ value = first ∨ value ∈ values := by
    induction values generalizing first with
    | nil => simp [List.destutter']
    | cons next values ih =>
        rw [List.destutter'_cons]
        split
        · rw [List.mem_cons, ih, List.mem_cons]
        · next same =>
            rw [ih, List.mem_cons, not_not.mp same]
            tauto
  cases values with
  | nil => rfl
  | cons first values => rw [List.destutter_cons', loop, List.mem_cons]

/-- Every exercise an event names has a place in the order. -/
theorem mem_exerciseOrder {events : List Ev} (exercises : List ExerciseInfo) {slug : Str}
    (named : some slug ∈ events.map Ev.exercise) :
    slug ∈ (exerciseOrder events exercises).map Prod.fst := by
  obtain ⟨ev, member, own⟩ := List.mem_map.mp named
  have mentioned : slug ∈ events.filterMap Ev.exercise := List.mem_filterMap.mpr ⟨ev, member, own⟩
  unfold exerciseOrder
  dsimp only
  rw [List.map_append, List.mem_append]
  by_cases defined : (exercises.map fun info => (info.slug, info.title)).any
      fun entry => entry.1 == slug
  · left
    obtain ⟨entry, listed, same⟩ := List.any_eq_true.mp defined
    exact List.mem_map.mpr ⟨entry, listed, beq_iff_eq.mp same⟩
  · right
    refine List.mem_map.mpr ⟨(slug, slug), List.mem_map.mpr ⟨slug, ?_, rfl⟩, rfl⟩
    rw [mem_destutter_ne, List.mem_mergeSort, List.mem_filter]
    exact ⟨mentioned, by simpa using defined⟩

/-- What the loop over the order has bound. -/
theorem lookup_index {entries : List ((Str × Str) × Nat)} {bound : AList fun _ : Str => Nat}
    {slug : Str} {number : Nat}
    (found : (entries.foldl (fun index entry => index.insert entry.1.1 entry.2) bound).lookup slug =
      some number) :
    bound.lookup slug = some number ∨ ∃ title, ((slug, title), number) ∈ entries := by
  induction entries generalizing bound with
  | nil => exact .inl found
  | cons entry entries ih =>
      rcases ih found with before | ⟨title, later⟩
      · by_cases same : slug = entry.1.1
        · rw [same, AList.lookup_insert, Option.some.injEq] at before
          refine .inr ⟨entry.1.2, ?_⟩
          rw [same, ← before]
          exact List.mem_cons_self
        · rw [AList.lookup_insert_ne same] at before
          exact .inl before
      · exact .inr ⟨title, List.mem_cons_of_mem _ later⟩

theorem isSome_index {entries : List ((Str × Str) × Nat)} {bound : AList fun _ : Str => Nat}
    {slug : Str}
    (listed : (bound.lookup slug).isSome ∨ slug ∈ entries.map fun entry => entry.1.1) :
    ((entries.foldl (fun index entry => index.insert entry.1.1 entry.2) bound).lookup
      slug).isSome := by
  induction entries generalizing bound with
  | nil => simpa using listed
  | cons entry entries ih =>
      apply ih
      by_cases same : slug = entry.1.1
      · left
        rw [same, AList.lookup_insert]
        rfl
      · rw [AList.lookup_insert_ne same]
        simpa [same] using listed

/-- No two slugs have one index. -/
theorem indexOf_inj {order : List (Str × Str)} {first second : Str} {number : Nat}
    (one : (indexOf order).lookup first = some number)
    (two : (indexOf order).lookup second = some number) : first = second := by
  rcases lookup_index one with before | ⟨title, member⟩
  · cases before
  · rcases lookup_index two with before | ⟨title', member'⟩
    · cases before
    · have here := List.mem_zipIdx_iff_getElem?.mp member
      have there := List.mem_zipIdx_iff_getElem?.mp member'
      rw [here] at there
      cases there
      rfl

theorem exists_index {order : List (Str × Str)} {slug : Str}
    (listed : slug ∈ order.map Prod.fst) :
    ∃ number, (indexOf order).lookup slug = some number := by
  apply Option.isSome_iff_exists.mp
  apply isSome_index
  right
  rw [List.mem_map] at listed ⊢
  obtain ⟨entry, member, same⟩ := listed
  obtain ⟨place, within, rfl⟩ := List.getElem_of_mem member
  exact ⟨_, List.getElem_mem (by simpa using within), by simpa using same⟩

/-! ### One student -/

theorem secondsOn_eq_zero {exercise : Str} {rows : List FileEvent}
    (unnamed : ∀ row ∈ rows, row.exercise ≠ some exercise) : secondsOn exercise rows = 0 := by
  apply List.sum_eq_zero
  intro gap member
  obtain ⟨pair, near, rfl⟩ := List.mem_map.mp member
  rw [spentOn, if_neg]
  intro both
  exact unnamed pair.1 (List.of_mem_zip near).1 both.2

theorem perStudent_map (index : AList fun _ : Str => Nat) (events : List FileEvent)
    (student : Str) :
    perStudent index (events.map Ev.ofRow) student =
      ((Tally.group FileEvent.student events).lookup student).map fun rows =>
        PerStudent.empty.walk index (rows.map Ev.ofRow) := by
  have members : (events.map Ev.ofRow).filter (fun ev => ev.student = student) =
      (events.filter fun row => row.student = student).map Ev.ofRow := by
    rw [List.filter_map]
    rfl
  rw [perStudent, Tally.lookup_group, Tally.lookup_group, members]
  cases events.filter fun row => row.student = student with
  | nil => rfl
  | cons first rest => rfl

/-- The recap's time on an exercise is the time spent on it. -/
theorem lookup_byExercise {events : List FileEvent} {exercises : List ExerciseInfo}
    {rows : List FileEvent} (part : ∀ row ∈ rows, row ∈ events) (slug : Str) :
    (((indexOf (exerciseOrder (events.map Ev.ofRow) exercises)).lookup slug).bind
        (PerStudent.empty.walk (indexOf (exerciseOrder (events.map Ev.ofRow) exercises))
          (rows.map Ev.ofRow)).byExercise.lookup).filter (fun secs => 0 < secs) =
      Tally.some? (secondsOn slug rows) := by
  cases own : (indexOf (exerciseOrder (events.map Ev.ofRow) exercises)).lookup slug with
  | none =>
      rw [secondsOn_eq_zero]
      · rfl
      · intro row member named
        have mentioned : some slug ∈ (events.map Ev.ofRow).map Ev.exercise := by
          rw [List.map_map]
          exact List.mem_map.mpr ⟨row, part row member, named⟩
        obtain ⟨number, found⟩ := exists_index (mem_exerciseOrder exercises mentioned)
        rw [own] at found
        cases found
  | some number =>
      rw [Option.bind_some, Tally.filter_lookup,
        count_walk own (fun other same => indexOf_inj same own)]
      simp [PerStudent.empty]

end Recap

/-! ### All accounts -/

/-- The accounts of one student's time. -/
structure TimesAgree (index : AList fun _ : Str => Nat) (rows : List FileEvent)
    (per : Recap.PerStudent) : Prop where
  report : ∀ slug, (timePerFile rows).perExercise.lookup slug =
    Tally.some? (Overview.secondsOnExercise (some slug) rows)
  cohort : ∀ slug, ((Overview.perExercise rows).lookup slug).filter (fun secs => 0 < secs) =
    Tally.some? (Overview.secondsOnExercise (some slug) rows)
  recap : ∀ slug, ((index.lookup slug).bind per.byExercise.lookup).filter (fun secs => 0 < secs) =
    Tally.some? (Overview.secondsOnExercise (some slug) rows)
  recapTotal : per.total = (timePerFile rows).total
  files : (timePerFile rows).total = Tally.weigh FileTally.seconds (timePerFile rows).perFile
  exercises : Tally.weigh id (timePerFile rows).perExercise ≤ (timePerFile rows).total
  within : ∀ first last, rows.head? = some first → rows.getLast? = some last →
    (timePerFile rows).total ≤ last.seconds - first.seconds
  capped : (timePerFile rows).total ≤ IDLE_GAP_SECS * (rows.length - 1 : Nat)

theorem timesAgree {events : List FileEvent} (exercises : List Recap.ExerciseInfo)
    {rows : List FileEvent} (timed : Timed rows) (part : ∀ row ∈ rows, row ∈ events) :
    TimesAgree
      (Recap.indexOf (Recap.exerciseOrder (events.map Recap.Ev.ofRow) exercises)) rows
      (Recap.PerStudent.empty.walk
        (Recap.indexOf (Recap.exerciseOrder (events.map Recap.Ev.ofRow) exercises))
        (rows.map Recap.Ev.ofRow)) := by
  constructor
  · intro slug
    rw [Tally.lookup_of_positive (positive_timePerFile rows), count_timePerFile,
      Overview.secondsOnExercise_some]
  · intro slug
    rw [Tally.filter_lookup, Overview.count_perExercise, Overview.secondsOnExercise_some]
  · intro slug
    rw [Recap.lookup_byExercise part, Overview.secondsOnExercise_some]
  · rw [Recap.total_walk, total_timePerFile]
    exact zero_add _
  · exact (weigh_perFile rows).symm
  · exact weigh_perExercise_le rows
  · intro first last starts ends
    rw [total_timePerFile]
    exact secondsInAll_le timed starts ends
  · rw [total_timePerFile]
    exact secondsInAll_le_cap rows

/-- The times of a class on an exercise, its students being visited in an order. -/
def classTimes (events : List FileEvent) (visited : List Str) (exercise : Str) : List Int :=
  visited.filterMap fun student =>
    ((Tally.group FileEvent.student events).lookup student).bind fun rows =>
      Tally.some? (secondsOn exercise rows)

theorem cohortTimes_eq (events : List FileEvent) (visited : List Str) (exercise : Str) :
    Overview.cohortTimes (Tally.group FileEvent.student events) visited exercise =
      classTimes events visited exercise := by
  unfold Overview.cohortTimes classTimes
  congr 1
  funext student
  congr 1
  funext rows
  rw [Tally.filter_lookup, Overview.count_perExercise]

theorem fencesFor_eq (events : List FileEvent) (visited : List Str) (exercise : Str) :
    Overview.fencesFor (Tally.group FileEvent.student events) visited exercise =
      .forCohort (classTimes events visited exercise) := by
  unfold Overview.fencesFor
  rw [cohortTimes_eq]
  cases classTimes events visited exercise with
  | nil => rfl
  | cons first rest => rfl

theorem timesOn_eq {events : List FileEvent} {exercises : List Recap.ExerciseInfo}
    {visits : Recap.Visits} {exercise : Str} {number : Nat}
    (own : (Recap.indexOf (Recap.exerciseOrder (events.map Recap.Ev.ofRow) exercises)).lookup
      exercise = some number) :
    Recap.timesOn (Recap.indexOf (Recap.exerciseOrder (events.map Recap.Ev.ofRow) exercises))
        (events.map Recap.Ev.ofRow) visits number =
      classTimes events visits.students exercise := by
  unfold Recap.timesOn classTimes
  congr 1
  funext student
  rw [Recap.perStudent_map, Option.bind_map]
  congr 1
  funext rows
  have counted := Recap.count_walk own (fun other same => Recap.indexOf_inj same own)
    .empty rows
  rw [Function.comp, Tally.filter_lookup, counted]
  simp [Recap.PerStudent.empty]

/-- The report, the cohorts, the board and the recap account alike for the time
of every student, and the board and the recap hold every exercise to the same
fences, in whatever orders their maps are visited. -/
theorem time_accounts_agree {events : List FileEvent} (timed : Timed events)
    (exercises : List Recap.ExerciseInfo) {board : List Str} {visits : Recap.Visits}
    (boardOrder : board.Perm (Tally.group FileEvent.student events).keys)
    (recapOrder : visits.students.Perm (Tally.group FileEvent.student events).keys) :
    let evs := events.map Recap.Ev.ofRow
    let index := Recap.indexOf (Recap.exerciseOrder evs exercises)
    (∀ student rows, (Tally.group FileEvent.student events).lookup student = some rows →
      ∃ per, Recap.perStudent index evs student = some per ∧ TimesAgree index rows per) ∧
    ∀ exercise number, index.lookup exercise = some number →
      Overview.fencesFor (Tally.group FileEvent.student events) board exercise =
        Recap.fences index evs visits number := by
  intro evs index
  constructor
  · intro student rows found
    obtain ⟨-, rfl⟩ := (Tally.lookup_group_eq_some_iff FileEvent.student).mp found
    refine ⟨_, ?_, timesAgree exercises (timed.filter _) fun row => List.mem_of_mem_filter⟩
    rw [Recap.perStudent_map, found]
    rfl
  · intro exercise number own
    rw [fencesFor_eq, Recap.fences, timesOn_eq own]
    exact Fences.forCohort_perm ((boardOrder.trans recapOrder.symm).filterMap _)

/-- A student moves from one exercise to the next and closes the file. -/
def moves : List FileEvent :=
  [{ student := ['a'], path := ['f'], relativePath := none, exercise := some ['1'],
     kind := "focus".toList, edits := none, instant := 1500 },
   { student := ['a'], path := ['g'], relativePath := none, exercise := some ['2'],
     kind := "focus".toList, edits := none, instant := 61200 },
   { student := ['a'], path := ['g'], relativePath := none, exercise := some ['2'],
     kind := "close".toList, edits := none, instant := 300900 }]

theorem time_accounts_agree_moves :
    let index := Recap.indexOf (Recap.exerciseOrder (moves.map Recap.Ev.ofRow) [])
    Overview.secondsOnExercise (some ['2']) moves = 120 ∧
      ∃ per, Recap.perStudent index (moves.map Recap.Ev.ofRow) ['a'] = some per ∧
        TimesAgree index moves per := by
  intro index
  refine ⟨by decide, ?_⟩
  have timed : Timed moves := by
    unfold Timed
    decide
  have agree := @time_accounts_agree moves timed [] _ ⟨_, fun _ => []⟩ (.refl _) (.refl _)
  exact agree.1 ['a'] moves rfl

end Hermione
