import Hermione.TimeAgreement

/-!
# Judged by the same rules

The recap judges a student on every exercise of the lesson, the board on the one
they are on.  Both assess by the same function, but the recap knows nothing of
typing, and holds a student's trouble against one exercise only: the one they
spent most time on.
-/

namespace Hermione

/-! ### Levels -/

section Levels

/-- So much trouble that it asks for help by itself. -/
def Signals.Strong (sig : Signals) : Prop :=
  3 ≤ sig.errors ∨ 2 ≤ sig.failedRuns

/-- Any trouble. -/
def Signals.Some (sig : Signals) : Prop :=
  1 ≤ sig.errors ∨ 1 ≤ sig.failedRuns

theorem Signals.Strong.some {sig : Signals} (strong : sig.Strong) : sig.Some :=
  strong.imp (Int32.le_trans (by decide)) (Int32.le_trans (by decide))

theorem not_some_none : ¬ Signals.none.Some := by
  unfold Signals.Some
  decide

/-- Typing, and not long ago. -/
def EditActivity.Working (edits : EditActivity) : Prop :=
  0 < edits.recent ∧ ∃ since, edits.sinceLastSecs = some since ∧ since < STALL_SECS

/-- Known not to have typed for long. -/
def EditActivity.Silent (edits : EditActivity) : Prop :=
  ∃ since, edits.sinceLastSecs = some since ∧ STALL_SECS ≤ since

theorem EditActivity.not_silent_of_working (edits : EditActivity) (working : edits.Working) :
    ¬ edits.Silent := by
  obtain ⟨-, since, last, lately⟩ := working
  rintro ⟨other, same, long⟩
  rw [last] at same
  cases same
  omega

theorem not_working_none : ¬ EditActivity.none.Working := by
  rintro ⟨-, since, last, -⟩
  cases last

theorem not_silent_none : ¬ EditActivity.none.Silent := by
  rintro ⟨since, last, -⟩
  cases last

open Classical in
/-- The level, in terms of these. -/
theorem level_assess (sig : Signals) (seconds : Int) (edits : EditActivity) (fences : Fences) :
    (assess sig seconds edits fences).1 =
      if sig.Strong ∨ (fences.help ≤ seconds ∧ ¬ edits.Working) ∨
          (fences.watch ≤ seconds ∧ edits.Silent ∧ sig.Some) then .help
      else if sig.Some ∨ fences.watch ≤ seconds then .watch
      else .ok := by
  have working : edits.Working ↔ edits.recent > 0 ∧
      (edits.sinceLastSecs.any fun since => since < STALL_SECS) = true := by
    simp [EditActivity.Working, Option.any_eq_true]
  have silent : edits.Silent ↔
      (edits.sinceLastSecs.any fun since => since ≥ STALL_SECS) = true := by
    simp [EditActivity.Silent, Option.any_eq_true]
  unfold assess
  dsimp only
  apply if_congr
  · rw [← working, ← silent]
    simp only [Signals.Strong, Signals.Some, ge_iff_le, or_assoc, and_assoc]
  · rfl
  · apply if_congr
    · rw [← silent]
      constructor
      · rintro (⟨long, -⟩ | errors | runs | long)
        · exact .inr long
        · exact .inl (.inl errors)
        · exact .inl (.inr runs)
        · exact .inr long
      · rintro ((errors | runs) | long)
        · exact .inr (.inl errors)
        · exact .inr (.inr (.inl runs))
        · exact .inr (.inr (.inr long))
    · rfl
    · rfl

/-- Where the trouble is held against the exercise, the levels differ only if
typing keeps a slow student from needing help, or its lack brings one with some
trouble to it. -/
theorem level_charged_iff (sig : Signals) (seconds : Int) (edits : EditActivity)
    (fences : Fences) :
    (assess sig seconds .none fences).1 = (assess sig seconds edits fences).1 ↔
      sig.Strong ∨
        if fences.help ≤ seconds then ¬ edits.Working
        else ¬ (fences.watch ≤ seconds ∧ edits.Silent ∧ sig.Some) := by
  rw [level_assess, level_assess]
  by_cases strong : sig.Strong
  · simp [strong]
  · by_cases slow : fences.help ≤ seconds
    · have silent := edits.not_silent_of_working
      by_cases working : edits.Working
      · by_cases watched : sig.Some ∨ fences.watch ≤ seconds <;>
          simp [strong, slow, working, silent working, not_working_none, watched]
      · simp [strong, slow, working, not_working_none]
    · by_cases stalled : fences.watch ≤ seconds ∧ edits.Silent ∧ sig.Some
      · simp [strong, slow, stalled, not_silent_none]
      · simp [strong, slow, stalled, not_silent_none]

/-- Where it is not, the board must come to what the clock alone says. -/
theorem level_uncharged_iff (sig : Signals) (seconds : Int) (edits : EditActivity)
    (fences : Fences) :
    (assess .none seconds .none fences).1 = (assess sig seconds edits fences).1 ↔
      if fences.help ≤ seconds then sig.Strong ∨ ¬ edits.Working
      else if fences.watch ≤ seconds then ¬ sig.Strong ∧ ¬ (edits.Silent ∧ sig.Some)
      else ¬ sig.Some := by
  have quiet : ¬ Signals.none.Strong := fun strong => not_some_none strong.some
  rw [level_assess, level_assess]
  by_cases slow : fences.help ≤ seconds
  · have silent := edits.not_silent_of_working
    by_cases working : edits.Working
    · by_cases watched : sig.Some ∨ fences.watch ≤ seconds <;>
        simp [slow, working, silent working, not_working_none, watched]
    · simp [slow, working, not_working_none]
  · by_cases long : fences.watch ≤ seconds
    · simp [slow, long, quiet, not_silent_none]
    · have strong : sig.Strong → sig.Some := Signals.Strong.some
      by_cases trouble : sig.Some
      · by_cases much : sig.Strong <;> simp [slow, long, quiet, not_some_none, trouble, much]
      · simp [slow, long, quiet, not_some_none, trouble, mt strong trouble]

end Levels

/-! ### Typing -/

/-- The edits on an exercise. -/
def editsMade (exercise : Str) (rows : List FileEvent) : List FileEvent :=
  rows.filter fun row => row.kind = "edit".toList ∧ row.exercise = some exercise

/-- Document changes in the last few minutes. -/
def recentEdits (now : Int) (made : List FileEvent) : Int32 :=
  ((made.filter fun row => now - row.seconds ≤ EDIT_WINDOW_SECS).map
    fun row => row.edits.getD 0).foldl (· + ·) 0

/-- Some changes were reported lately, and some edit lately. -/
def TypesOn (now : Int) (exercise : Str) (rows : List FileEvent) : Prop :=
  0 < recentEdits now (editsMade exercise rows) ∧
    ∃ row ∈ editsMade exercise rows, now - row.seconds < STALL_SECS

/-- There were edits, and none lately. -/
def StoppedOn (now : Int) (exercise : Str) (rows : List FileEvent) : Prop :=
  editsMade exercise rows ≠ [] ∧
    ∀ row ∈ editsMade exercise rows, STALL_SECS ≤ now - row.seconds

/-- What the edits make of a sum and a last edit. -/
theorem foldl_edits (now : Int) (exercise : Str) (rows : List FileEvent) (recent : Int32)
    (last : Option Int) :
    rows.foldl (fun (state : Int32 × Option Int) ev =>
      if ev.kind ≠ "edit".toList ∨ ev.exercise ≠ some exercise then (state.1, state.2)
      else
        (if now - ev.seconds ≤ EDIT_WINDOW_SECS then state.1 + ev.edits.getD 0 else state.1,
          some (match state.2 with
            | none => ev.seconds
            | some second => max second ev.seconds))) (recent, last) =
      (((editsMade exercise rows).filter fun row => now - row.seconds ≤ EDIT_WINDOW_SECS).map
          (fun row => row.edits.getD 0) |>.foldl (· + ·) recent,
        match last with
        | none => ((editsMade exercise rows).map FileEvent.seconds).max?
        | some second =>
            some (((editsMade exercise rows).map FileEvent.seconds).foldl max second)) := by
  induction rows generalizing recent last with
  | nil => cases last <;> rfl
  | cons row rows ih =>
      rw [List.foldl_cons]
      by_cases edit : row.kind = "edit".toList ∧ row.exercise = some exercise
      · rw [if_neg (by tauto), ih]
        have made : editsMade exercise (row :: rows) = row :: editsMade exercise rows := by
          simp [editsMade, edit]
        rw [made, List.map_cons]
        apply Prod.ext
        · dsimp only
          by_cases lately : now - row.seconds ≤ EDIT_WINDOW_SECS
          · rw [if_pos lately, List.filter_cons, if_pos (by exact decide_eq_true lately)]
            rfl
          · rw [if_neg lately, List.filter_cons, if_neg (by rwa [decide_eq_true_eq])]
        · cases last <;> rfl
      · rw [if_pos (by tauto), ih]
        have made : editsMade exercise (row :: rows) = editsMade exercise rows := by
          simp only [editsMade, List.filter_cons, decide_eq_true_eq, if_neg edit]
        rw [made]

theorem editsOn_eq (now : Int) (exercise : Str) (rows : List FileEvent) :
    Overview.editsOn (some exercise) now rows =
      (recentEdits now (editsMade exercise rows),
        ((editsMade exercise rows).map FileEvent.seconds).max?) :=
  foldl_edits now exercise rows 0 none

/-- The last edit is the latest of them. -/
theorem lastEdit_iff {made : List FileEvent} {last : Int} :
    (made.map FileEvent.seconds).max? = some last ↔
      (∃ row ∈ made, row.seconds = last) ∧ ∀ row ∈ made, row.seconds ≤ last := by
  rw [List.max?_eq_some_iff]
  simp

theorem exists_lastEdit {made : List FileEvent} (some : made ≠ []) :
    ∃ last, (made.map FileEvent.seconds).max? = .some last := by
  apply Option.isSome_iff_exists.mp
  rw [List.isSome_max?_iff]
  simpa using some

/-- What the board knows of a present student's typing. -/
theorem working_iff (now : Int) (exercise : Str) (rows : List FileEvent) :
    (Overview.editActivity true now (Overview.editsOn (some exercise) now rows)).Working ↔
      TypesOn now exercise rows := by
  rw [editsOn_eq]
  simp only [EditActivity.Working, Overview.editActivity, TypesOn, if_true, Option.map_eq_some_iff]
  apply and_congr_right
  intro _
  constructor
  · rintro ⟨since, ⟨last, latest, rfl⟩, lately⟩
    obtain ⟨⟨row, member, rfl⟩, -⟩ := lastEdit_iff.mp latest
    exact ⟨row, member, lately⟩
  · rintro ⟨row, member, lately⟩
    obtain ⟨last, latest⟩ := exists_lastEdit (List.ne_nil_of_mem member)
    have bound := (lastEdit_iff.mp latest).2 row member
    exact ⟨now - last, ⟨last, latest, rfl⟩, by omega⟩

theorem silent_iff (now : Int) (exercise : Str) (rows : List FileEvent) :
    (Overview.editActivity true now (Overview.editsOn (some exercise) now rows)).Silent ↔
      StoppedOn now exercise rows := by
  rw [editsOn_eq]
  simp only [EditActivity.Silent, Overview.editActivity, StoppedOn, if_true, Option.map_eq_some_iff]
  constructor
  · rintro ⟨since, ⟨last, latest, rfl⟩, long⟩
    obtain ⟨⟨row, member, -⟩, bound⟩ := lastEdit_iff.mp latest
    refine ⟨List.ne_nil_of_mem member, ?_⟩
    intro other edited
    have := bound other edited
    omega
  · rintro ⟨made, long⟩
    obtain ⟨last, latest⟩ := exists_lastEdit made
    obtain ⟨⟨row, member, rfl⟩, -⟩ := lastEdit_iff.mp latest
    exact ⟨now - row.seconds, ⟨row.seconds, latest, rfl⟩, long row member⟩

/-! ### The board's entry -/

/-- What the board says of a present student who is on an exercise. -/
theorem struggle_eq {events : List FileEvent} {sessions : List TerminalSession} {now : Int}
    {board : List Str} {entry : OverviewStudent} {exercise : Str}
    (shown : entry ∈ Overview.students events sessions now board)
    (present : entry.present = true) (on : entry.exercise = some exercise) :
    ∃ rows, (Tally.group FileEvent.student events).lookup entry.student = some rows ∧
      (∃ last, rows.getLast? = some last ∧ last.exercise = some exercise) ∧
      entry.struggle =
        (assess (((tallySignals sessions).lookup entry.student).getD .none)
          (secondsOn exercise rows)
          (Overview.editActivity true now (Overview.editsOn (some exercise) now rows))
          (.forCohort (classTimes events board exercise))).1 := by
  obtain ⟨name, -, made⟩ := List.mem_filterMap.mp shown
  obtain ⟨rows, found, made⟩ := Option.bind_eq_some_iff.mp made
  unfold Overview.student at made
  split at made
  · cases made
  · next last ends =>
      dsimp only at made
      cases made
      dsimp only at present on
      refine ⟨rows, found, ⟨last, ends, on⟩, ?_⟩
      dsimp only
      rw [on, present, Overview.secondsOnExercise_some, ← fencesFor_eq]

/-! ### The recap's level -/

namespace Recap

theorem lookup_signals (trouble : List Trouble) (bound : AList fun _ : Str => Signals)
    (of : Str → Option Signals)
    (agree : ∀ entry ∈ trouble,
      of entry.student = some { errors := entry.errors, failedRuns := entry.failedRuns })
    (student : Str) :
    (trouble.foldl (fun signals entry =>
        signals.insert entry.student
          { errors := entry.errors, failedRuns := entry.failedRuns }) bound).lookup student =
      if student ∈ trouble.map Trouble.student then of student else bound.lookup student := by
  induction trouble generalizing bound with
  | nil => rfl
  | cons entry trouble ih =>
      rw [List.foldl_cons, ih _ fun other member => agree other (List.mem_cons_of_mem _ member)]
      by_cases later : student ∈ trouble.map Trouble.student
      · rw [if_pos later, List.map_cons, if_pos (List.mem_cons_of_mem _ later)]
      · rw [if_neg later]
        by_cases same : student = entry.student
        · rw [if_pos (by simp [same]), same, AList.lookup_insert]
          exact (agree entry List.mem_cons_self).symm
        · rw [if_neg (by simpa [same] using later), AList.lookup_insert_ne same]

/-- The recap has the trouble of every student that the sessions say. -/
theorem lookup_signalsOf {sessions : List TerminalSession} {visited : List Str}
    (order : visited.Perm (tallySignals sessions).keys) (student : Str) :
    (signalsOf (troubleOf sessions visited)).lookup student =
      (tallySignals sessions).lookup student := by
  have agree : ∀ entry ∈ troubleOf sessions visited,
      (tallySignals sessions).lookup entry.student =
        some { errors := entry.errors, failedRuns := entry.failedRuns } := by
    intro entry member
    obtain ⟨name, -, made⟩ := List.mem_filterMap.mp member
    obtain ⟨sig, found, rfl⟩ := Option.map_eq_some_iff.mp made
    exact found
  rw [signalsOf, lookup_signals _ _ (fun name => (tallySignals sessions).lookup name) agree]
  split
  · rfl
  · next absent =>
      cases found : (tallySignals sessions).lookup student with
      | none => rfl
      | some sig =>
          have visits : student ∈ visited :=
            order.mem_iff.mpr (AList.lookup_isSome.mp (by rw [found]; rfl))
          have listed : Trouble.mk student sig.errors sig.failedRuns ∈
              troubleOf sessions visited :=
            List.mem_filterMap.mpr ⟨student, visits, by rw [found]; rfl⟩
          exact absurd (List.mem_map_of_mem listed) absent

theorem mem_judge {fences : Nat → Fences} {signals : AList fun _ : Str => Signals} {student : Str}
    {per : PerStudent} {visited : List Nat} {judgement : Judgement} :
    judgement ∈ judge fences signals student per visited ↔
      ∃ number ∈ visited, ∃ seconds, per.byExercise.lookup number = some seconds ∧ 0 < seconds ∧
        judgement =
          let verdict := assess
            (if some number = (longest (visitedTimes per visited)).map Prod.fst then
              (signals.lookup student).getD .none else .none) seconds .none (fences number)
          { student, exercise := number, level := verdict.1, seconds, reasons := verdict.2 } := by
  simp only [judge, List.mem_map, List.mem_filter, visitedTimes, List.mem_filterMap,
    Option.map_eq_some_iff, decide_eq_true_eq]
  constructor
  · rintro ⟨entry, ⟨⟨number, listed, seconds, found, rfl⟩, more⟩, rfl⟩
    exact ⟨number, listed, seconds, found, more, rfl⟩
  · rintro ⟨number, listed, seconds, found, more, rfl⟩
    exact ⟨_, ⟨⟨number, listed, seconds, found, rfl⟩, more⟩, rfl⟩

theorem mem_judgements {events : List Ev} {trouble : List Trouble}
    {exercises : List ExerciseInfo} {visits : Visits} {judgement : Judgement} :
    judgement ∈ judgements events trouble exercises visits ↔
      ∃ student ∈ visits.students, ∃ per,
        perStudent (indexOf (exerciseOrder events exercises)) events student = some per ∧
        judgement ∈ judge (fences (indexOf (exerciseOrder events exercises)) events visits)
          (signalsOf trouble) student per (visits.exercises student) := by
  simp only [judgements, List.mem_flatMap]
  apply exists_congr
  intro student
  apply and_congr_right
  intro _
  cases perStudent (indexOf (exerciseOrder events exercises)) events student <;> simp

section Levels

variable {events : List Ev} {trouble : List Trouble} {exercises : List ExerciseInfo}
  {visits : Visits} {student exercise : Str} {number : Nat} {per : PerStudent}

/-- All judgements on a student's exercise say the same of it. -/
theorem level_judgement {judgement : Judgement}
    (found : perStudent (indexOf (exerciseOrder events exercises)) events student = some per)
    (judged : judgement ∈ judgements events trouble exercises visits)
    (about : judgement.student = student) (on : judgement.exercise = number) :
    ∃ seconds, per.byExercise.lookup number = some seconds ∧ 0 < seconds ∧
      judgement.level = (assess
        (if some number =
            (longest (visitedTimes per (visits.exercises student))).map Prod.fst then
          ((signalsOf trouble).lookup student).getD .none else .none) seconds .none
        (fences (indexOf (exerciseOrder events exercises)) events visits number)).1 := by
  obtain ⟨name, -, per', found', judged⟩ := mem_judgements.mp judged
  obtain ⟨number', -, seconds, spent, more, rfl⟩ := mem_judge.mp judged
  cases about
  cases on
  rw [found] at found'
  cases found'
  exact ⟨seconds, spent, more, rfl⟩

/-- The level on an exercise is what the student's time on it is assessed to. -/
theorem levelOn_eq (visited : student ∈ visits.students)
    (own : (indexOf (exerciseOrder events exercises)).lookup exercise = some number)
    (found : perStudent (indexOf (exerciseOrder events exercises)) events student = some per)
    (known : (visits.exercises student).Perm per.byExercise.keys) :
    levelOn events trouble exercises visits student exercise =
      match (per.byExercise.lookup number).filter fun seconds => 0 < seconds with
      | none => .ok
      | some seconds =>
          (assess
            (if some number =
                (longest (visitedTimes per (visits.exercises student))).map Prod.fst then
              ((signalsOf trouble).lookup student).getD .none else .none) seconds .none
            (fences (indexOf (exerciseOrder events exercises)) events visits number)).1 := by
  unfold levelOn
  dsimp only
  split
  · next judgement picked =>
      have chosen := List.find?_some picked
      rw [decide_eq_true_eq, own, Option.some.injEq] at chosen
      obtain ⟨seconds, spent, more, level⟩ :=
        level_judgement found (List.mem_of_find?_eq_some picked) chosen.1 chosen.2.symm
      rw [spent, Option.filter_some, if_pos (decide_eq_true more)]
      exact level
  · next none =>
      split
      · rfl
      · next seconds spent =>
          obtain ⟨spent, more⟩ := Option.filter_eq_some_iff.mp spent
          have listed : number ∈ visits.exercises student :=
            known.mem_iff.mpr (AList.lookup_isSome.mp (by rw [spent]; rfl))
          obtain ⟨judgement, judged, about, on⟩ :
              ∃ judgement ∈ judge (fences (indexOf (exerciseOrder events exercises)) events visits)
                (signalsOf trouble) student per (visits.exercises student),
                judgement.student = student ∧ judgement.exercise = number :=
            ⟨_, mem_judge.mpr ⟨number, listed, seconds, spent, of_decide_eq_true more, rfl⟩,
              rfl, rfl⟩
          have missed := List.find?_eq_none.mp none judgement
            (mem_judgements.mpr ⟨student, visited, per, found, judged⟩)
          simp [own, about, on] at missed

end Levels

/-! ### The exercise that trouble is held against -/

/-- Only exercises are in the tally of a walk. -/
theorem mem_keys_walk (index : AList fun _ : Str => Nat) {number : Nat} (per : PerStudent)
    (events : List Ev) (member : number ∈ (per.walk index events).byExercise.keys) :
    number ∈ per.byExercise.keys ∨ ∃ slug, index.lookup slug = some number := by
  have step (current : Option Str) (per : PerStudent) (ev next : Ev)
      (member : number ∈ (per.advance (current.bind index.lookup) ev next).byExercise.keys) :
      number ∈ per.byExercise.keys ∨ ∃ slug, index.lookup slug = some number := by
    unfold PerStudent.advance at member
    dsimp only at member
    split at member
    · exact .inl member
    · cases own : current.bind index.lookup with
      | none => exact .inl (by simpa [own, PerStudent.note] using member)
      | some other =>
          obtain ⟨slug, -, found⟩ := Option.bind_eq_some_iff.mp own
          have credited : number = other ∨ number ∈ per.byExercise.keys.erase other := by
            simpa [own, PerStudent.note, Tally.credit] using member
          rcases credited with rfl | before
          · exact .inr ⟨slug, found⟩
          · exact .inl (List.mem_of_mem_erase before)
  induction events generalizing per with
  | nil => exact .inl member
  | cons ev events ih =>
      cases events with
      | nil => exact .inl member
      | cons next rest =>
          rcases ih _ member with before | slug
          · exact step ev.exercise per ev next before
          · exact .inr slug

/-- The slug that has a number. -/
theorem getD_of_lookup_indexOf {order : List (Str × Str)} {slug : Str} {number : Nat}
    (own : (indexOf order).lookup slug = some number) : (order.getD number ([], [])).1 = slug := by
  rcases lookup_index own with before | ⟨title, member⟩
  · cases before
  · rw [List.getD_eq_getElem?_getD, List.mem_zipIdx_iff_getElem?.mp member]
    rfl

/-- A student's times, by the numbers of the exercises. -/
def timesByNumber (order : List (Str × Str)) (rows : List FileEvent) (visited : List Nat) :
    List (Nat × Int) :=
  visited.map fun number => (number, secondsOn (order.getD number ([], [])).1 rows)

theorem visitedTimes_walk {order : List (Str × Str)} {rows : List FileEvent} {visited : List Nat}
    (known : visited.Perm
      (PerStudent.empty.walk (indexOf order) (rows.map Ev.ofRow)).byExercise.keys) :
    visitedTimes (PerStudent.empty.walk (indexOf order) (rows.map Ev.ofRow)) visited =
      timesByNumber order rows visited := by
  unfold visitedTimes timesByNumber
  refine (List.filterMap_congr ?_).trans (congrFun List.filterMap_eq_map visited)
  intro number listed
  have bound := known.mem_iff.mp listed
  rcases mem_keys_walk _ _ _ bound with before | ⟨slug, own⟩
  · cases before
  · obtain ⟨seconds, found⟩ := Option.isSome_iff_exists.mp (AList.lookup_isSome.mpr bound)
    have counted := count_walk own (fun other same => indexOf_inj same own) .empty rows
    rw [Tally.count, found] at counted
    have whole : seconds = secondsOn slug rows := by
      simpa [PerStudent.empty] using counted
    rw [found, Function.comp, getD_of_lookup_indexOf own, whole]
    rfl

/-! ### Who is listed -/

theorem mem_take_help (sorted kept : List FollowUp) (watching : Nat) {entry : FollowUp}
    (needs : entry.level = .help) :
    entry ∈ (sorted.foldl (fun (state : List FollowUp × Nat) entry =>
        if entry.level = .help then (state.1 ++ [entry], state.2)
        else if state.2 < MAX_WATCH_LISTED then (state.1 ++ [entry], state.2 + 1)
        else (state.1, state.2 + 1)) (kept, watching)).1 ↔ entry ∈ kept ∨ entry ∈ sorted := by
  induction sorted generalizing kept watching with
  | nil => simp
  | cons first sorted ih =>
      rw [List.foldl_cons]
      split
      · rw [ih, List.mem_append, List.mem_singleton, List.mem_cons, or_assoc]
      · next other =>
          have differs : entry ≠ first := fun same => other (same ▸ needs)
          split
          · rw [ih, List.mem_append, List.mem_singleton, List.mem_cons, or_assoc]
          · rw [ih, List.mem_cons]
            tauto

theorem mem_followUp_help {events : List Ev} {trouble : List Trouble}
    {exercises : List ExerciseInfo} {visits : Visits} {entry : FollowUp}
    (needs : entry.level = .help) :
    entry ∈ followUp events trouble exercises visits ↔
      ∃ judgement ∈ judgements events trouble exercises visits,
        entry = { student := judgement.student
                  exercise := ((exerciseOrder events exercises).getD judgement.exercise ([], [])).1
                  level := judgement.level
                  seconds := judgement.seconds
                  reasons := judgement.reasons } := by
  apply (mem_take_help _ [] 0 needs).trans
  simp only [List.not_mem_nil, false_or, List.mem_mergeSort, List.mem_map, List.mem_filter,
    decide_eq_true_eq]
  constructor
  · rintro ⟨judgement, ⟨judged, -⟩, rfl⟩
    exact ⟨judgement, judged, rfl⟩
  · rintro ⟨judgement, judged, rfl⟩
    dsimp only at needs
    exact ⟨judgement, ⟨judged, by rw [needs]; decide⟩, rfl⟩

/-- Every student, and every exercise of each, is visited once. -/
structure Visits.Complete (visits : Visits) (events : List Ev) (exercises : List ExerciseInfo) :
    Prop where
  students : visits.students.Perm (Tally.group Ev.student events).keys
  exercises : ∀ student per,
    perStudent (indexOf (exerciseOrder events exercises)) events student = some per →
      (visits.exercises student).Perm per.byExercise.keys

/-- The maps visited in the order they hold their entries in. -/
def Visits.ofKeys (events : List Ev) (exercises : List ExerciseInfo) : Visits :=
  { students := (Tally.group Ev.student events).keys
    exercises := fun student =>
      match perStudent (indexOf (exerciseOrder events exercises)) events student with
      | none => []
      | some per => per.byExercise.keys }

theorem complete_ofKeys (events : List Ev) (exercises : List ExerciseInfo) :
    (Visits.ofKeys events exercises).Complete events exercises := by
  constructor
  · exact .refl _
  · intro student per found
    simp only [Visits.ofKeys, found]
    exact .refl _

theorem keys_group_map (events : List FileEvent) :
    (Tally.group Ev.student (events.map Ev.ofRow)).keys.Perm
      (Tally.group FileEvent.student events).keys := by
  apply (List.perm_ext_iff_of_nodup (AList.keys_nodup _) (AList.keys_nodup _)).mpr
  intro student
  have same := perStudent_map ∅ events student
  rw [← AList.mem_keys, ← AList.mem_keys, ← AList.lookup_isSome, ← AList.lookup_isSome,
    ← Option.isSome_map (f := PerStudent.walk ∅ .empty)]
  rw [perStudent] at same
  rw [same, Option.isSome_map]

/-- The number of a judgement is that of the exercise it is shown with. -/
theorem number_of_walk {order : List (Str × Str)} {events : List Ev} {exercise : Str}
    {number : Nat} {seconds : Int}
    (spent : (PerStudent.empty.walk (indexOf order) events).byExercise.lookup number =
      some seconds)
    (shown : (order.getD number ([], [])).1 = exercise) :
    (indexOf order).lookup exercise = some number := by
  have bound : number ∈ (PerStudent.empty.walk (indexOf order) events).byExercise.keys :=
    AList.lookup_isSome.mp (by rw [spent]; rfl)
  rcases mem_keys_walk _ _ _ bound with before | ⟨slug, own⟩
  · cases before
  · rwa [← shown, getD_of_lookup_indexOf own]

/-- Who needed help on an exercise is listed, and nobody else. -/
theorem listed_iff_help {events : List Ev} {trouble : List Trouble}
    {exercises : List ExerciseInfo} {visits : Visits} {student exercise : Str} {number : Nat}
    {per : PerStudent} (complete : visits.Complete events exercises)
    (own : (indexOf (exerciseOrder events exercises)).lookup exercise = some number)
    (visited : student ∈ visits.students)
    (found : perStudent (indexOf (exerciseOrder events exercises)) events student = some per) :
    (∃ entry ∈ followUp events trouble exercises visits,
      entry.student = student ∧ entry.exercise = exercise ∧ entry.level = .help) ↔
      levelOn events trouble exercises visits student exercise = .help := by
  have known := complete.exercises student per found
  constructor
  · rintro ⟨entry, listed, about, on, needs⟩
    obtain ⟨judgement, judged, rfl⟩ := (mem_followUp_help needs).mp listed
    dsimp only at about on needs
    obtain ⟨seconds, spent, more, level⟩ := level_judgement found judged about rfl
    have numbered : judgement.exercise = number := by
      obtain ⟨walked, -, rfl⟩ := Option.map_eq_some_iff.mp found
      have same := number_of_walk spent on
      rw [own, Option.some.injEq] at same
      exact same.symm
    rw [numbered] at spent level
    rw [levelOn_eq visited own found known, spent, Option.filter_some,
      if_pos (decide_eq_true more)]
    exact level.symm.trans needs
  · intro needs
    simp only [levelOn] at needs
    split at needs
    · next judgement picked =>
        have chosen := List.find?_some picked
        rw [decide_eq_true_eq] at chosen
        refine ⟨_, (mem_followUp_help needs).mpr
          ⟨judgement, List.mem_of_find?_eq_some picked, rfl⟩, chosen.1, ?_, needs⟩
        exact getD_of_lookup_indexOf chosen.2
    · cases needs

end Recap

/-! ### Where they agree -/

/-- The recap holds the student's trouble against this exercise: of those they
spent most time on it is the last one visited. -/
def Charged (order : List (Str × Str)) (visited : List Nat) (rows : List FileEvent)
    (exercise : Str) : Prop :=
  (Recap.longest (Recap.timesByNumber order rows visited)).map Prod.fst =
    (Recap.indexOf order).lookup exercise

instance (order : List (Str × Str)) (visited : List Nat) (rows : List FileEvent)
    (exercise : Str) : Decidable (Charged order visited rows exercise) :=
  inferInstanceAs (Decidable (_ = _))

/-- The recap and the board judge a student alike on an exercise.  If the trouble
is held against it, the student's typing must make no difference; if it is not,
the trouble and the typing together must make none. -/
def JudgedAlike (events : List FileEvent) (sessions : List TerminalSession)
    (exercises : List Recap.ExerciseInfo) (visits : Recap.Visits) (now : Int)
    (student exercise : Str) : Prop :=
  let rows := events.filter fun row => row.student = student
  let order := Recap.exerciseOrder (events.map Recap.Ev.ofRow) exercises
  let seconds := secondsOn exercise rows
  let fences := Fences.forCohort (classTimes events visits.students exercise)
  let sig := ((tallySignals sessions).lookup student).getD .none
  if 0 < seconds ∧ Charged order (visits.exercises student) rows exercise then
    sig.Strong ∨
      if fences.help ≤ seconds then ¬ TypesOn now exercise rows
      else ¬ (fences.watch ≤ seconds ∧ StoppedOn now exercise rows ∧ sig.Some)
  else if fences.help ≤ seconds then sig.Strong ∨ ¬ TypesOn now exercise rows
  else if fences.watch ≤ seconds then
    ¬ sig.Strong ∧ ¬ (StoppedOn now exercise rows ∧ sig.Some)
  else ¬ sig.Some

theorem level_idle (times : List Int) {seconds : Int} (idle : ¬ 0 < seconds) :
    (assess .none seconds .none (.forCohort times)).1 = .ok := by
  have watch := Fences.watch_pos times
  have help := Fences.help_pos times
  have quiet : ¬ Signals.none.Strong := fun strong => not_some_none strong.some
  rw [level_assess, if_neg, if_neg]
  · rintro (trouble | long)
    · exact not_some_none trouble
    · omega
  · rintro (strong | ⟨slow, -⟩ | ⟨-, -, trouble⟩)
    · exact quiet strong
    · omega
    · exact not_some_none trouble

/-- The recap gives a student the level that the board showed exactly if what the
recap leaves out made no difference. -/
theorem levelOn_eq_struggle_iff {events : List FileEvent} {sessions : List TerminalSession}
    {exercises : List Recap.ExerciseInfo} {now : Int} {board tallied : List Str}
    {visits : Recap.Visits} (boardOrder : board.Perm (Tally.group FileEvent.student events).keys)
    (complete : visits.Complete (events.map Recap.Ev.ofRow) exercises)
    (tallyOrder : tallied.Perm (tallySignals sessions).keys) {entry : OverviewStudent}
    {exercise : Str} (shown : entry ∈ Overview.students events sessions now board)
    (present : entry.present = true) (on : entry.exercise = some exercise) :
    Recap.levelOn (events.map Recap.Ev.ofRow) (Recap.troubleOf sessions tallied) exercises visits
        entry.student exercise = entry.struggle ↔
      JudgedAlike events sessions exercises visits now entry.student exercise := by
  obtain ⟨rows, found, ⟨last, ends, lastOn⟩, level⟩ := struggle_eq shown present on
  have members := ((Tally.lookup_group_eq_some_iff FileEvent.student).mp found).2
  have part : ∀ row ∈ rows, row ∈ events := by
    rw [← members]
    exact fun row => List.mem_of_mem_filter
  have named : some exercise ∈ (events.map Recap.Ev.ofRow).map Recap.Ev.exercise := by
    rw [List.map_map]
    exact List.mem_map.mpr ⟨last, part last (List.mem_of_getLast? ends), lastOn⟩
  obtain ⟨number, own⟩ := Recap.exists_index (Recap.mem_exerciseOrder exercises named)
  have visited : entry.student ∈ visits.students := by
    apply (complete.students.trans (Recap.keys_group_map events)).mem_iff.mpr
    exact AList.lookup_isSome.mp (by rw [found]; rfl)
  have walked : Recap.perStudent
      (Recap.indexOf (Recap.exerciseOrder (events.map Recap.Ev.ofRow) exercises))
      (events.map Recap.Ev.ofRow) entry.student = some (Recap.PerStudent.empty.walk
        (Recap.indexOf (Recap.exerciseOrder (events.map Recap.Ev.ofRow) exercises))
        (rows.map Recap.Ev.ofRow)) := by
    rw [Recap.perStudent_map, found, Option.map_some]
  have known := complete.exercises _ _ walked
  have spent := @Recap.lookup_byExercise events exercises rows part exercise
  rw [own, Option.bind_some] at spent
  have cohort : Fences.forCohort (classTimes events board exercise) =
      .forCohort (classTimes events visits.students exercise) :=
    Fences.forCohort_perm ((boardOrder.trans
      (complete.students.trans (Recap.keys_group_map events)).symm).filterMap _)
  have charged : some number = (Recap.longest (Recap.timesByNumber
      (Recap.exerciseOrder (events.map Recap.Ev.ofRow) exercises) rows
        (visits.exercises entry.student))).map Prod.fst ↔
      Charged (Recap.exerciseOrder (events.map Recap.Ev.ofRow) exercises)
        (visits.exercises entry.student) rows exercise := by
    rw [Charged, own, eq_comm]
  rw [Recap.levelOn_eq visited own walked known, spent, level, cohort,
    Recap.lookup_signalsOf tallyOrder, Recap.visitedTimes_walk known, Recap.fences,
    timesOn_eq own]
  unfold JudgedAlike
  dsimp only
  rw [members, ← working_iff, ← silent_iff]
  by_cases busy : 0 < secondsOn exercise rows
  · have counted : Tally.some? (secondsOn exercise rows) = some (secondsOn exercise rows) := by
      rw [Tally.some?, Option.filter_some, if_pos (decide_eq_true busy)]
    rw [counted]
    dsimp only
    by_cases held : Charged (Recap.exerciseOrder (events.map Recap.Ev.ofRow) exercises)
        (visits.exercises entry.student) rows exercise
    · simp only [charged.mpr held, busy, held, and_self, if_true]
      exact level_charged_iff _ _ _ _
    · simp only [mt charged.mp held, held, and_false, if_false]
      exact level_uncharged_iff _ _ _ _
  · have nobody : Tally.some? (secondsOn exercise rows) = none := by
      rw [Tally.some?, Option.filter_some, if_neg (by rwa [decide_eq_true_eq])]
    rw [nobody]
    simp only [busy, false_and, if_false]
    rw [← level_idle (classTimes events visits.students exercise) busy]
    exact level_uncharged_iff _ _ _ _

/-- Below the upper fence, typing matters only where there is trouble. -/
theorem judgedAlike_of_untroubled {events : List FileEvent} {sessions : List TerminalSession}
    {exercises : List Recap.ExerciseInfo} {visits : Recap.Visits} {now : Int}
    {student exercise : Str} (untroubled : (tallySignals sessions).lookup student = none)
    (quick : secondsOn exercise (events.filter fun row => row.student = student) <
      (Fences.forCohort (classTimes events visits.students exercise)).help) :
    JudgedAlike events sessions exercises visits now student exercise := by
  have quiet : ¬ Signals.none.Strong := fun strong => not_some_none strong.some
  unfold JudgedAlike
  dsimp only
  rw [untroubled, Option.getD_none]
  split
  · right
    rw [if_neg (not_le.mpr quick)]
    exact fun stuck => not_some_none stuck.2.2
  · rw [if_neg (not_le.mpr quick)]
    split
    · exact ⟨quiet, fun stuck => not_some_none stuck.2⟩
    · exact not_some_none

/-- A student types at the one exercise of the course, for two minutes at a time. -/
def typing (gaps : Nat) : List FileEvent :=
  (List.range (gaps + 1)).map fun count =>
    { student := ['a'], path := ['f'], relativePath := none, exercise := some ['1'],
      kind := "edit".toList, edits := some 3, instant := count * 120000 }

def onlyExercise : List Recap.ExerciseInfo :=
  [{ slug := ['1'], title := ['A'] }]

theorem exerciseOrder_typing (gaps : Nat) :
    Recap.exerciseOrder ((typing gaps).map Recap.Ev.ofRow) onlyExercise = [(['1'], ['A'])] := by
  have defined : (((typing gaps).map Recap.Ev.ofRow).filterMap Recap.Ev.exercise).filter
      (fun slug => !(onlyExercise.map fun info => (info.slug, info.title)).any
        fun entry => entry.1 == slug) = [] := by
    rw [List.filter_eq_nil_iff]
    intro slug named
    obtain ⟨ev, listed, own⟩ := List.mem_filterMap.mp named
    obtain ⟨row, member, rfl⟩ := List.mem_map.mp listed
    obtain ⟨count, -, rfl⟩ := List.mem_map.mp member
    cases own
    decide
  simp only [Recap.exerciseOrder, defined, List.mergeSort_nil]
  rfl

/-- After twelve minutes the recap and the board agree. -/
theorem levelOn_eq_struggle_typing :
    ∃ entry ∈ Overview.students (typing 6) [] 730 [['a']],
      Recap.levelOn ((typing 6).map Recap.Ev.ofRow) (Recap.troubleOf [] []) onlyExercise
        (.ofKeys ((typing 6).map Recap.Ev.ofRow) onlyExercise) entry.student ['1'] =
          entry.struggle := by
  refine ⟨_, List.mem_singleton.mpr rfl, ?_⟩
  apply (@levelOn_eq_struggle_iff (typing 6) [] onlyExercise 730 [['a']] [] _ (.refl _)
    (Recap.complete_ofKeys _ _) (.refl _) _ ['1'] (List.mem_singleton.mpr rfl) (by decide) rfl).mpr
  apply judgedAlike_of_untroubled
  · rfl
  · decide

/-- After twenty-six minutes of typing the student is to be watched on the board,
and is listed by the recap as having needed help. -/
theorem levelOn_ne_struggle_typing :
    ∃ entry ∈ Overview.students (typing 13) [] 1570 [['a']],
      entry.present = true ∧ entry.exercise = some ['1'] ∧ entry.struggle = .watch ∧
      Recap.levelOn ((typing 13).map Recap.Ev.ofRow) (Recap.troubleOf [] []) onlyExercise
        (.ofKeys ((typing 13).map Recap.Ev.ofRow) onlyExercise) entry.student ['1'] = .help ∧
      ∃ listed ∈ Recap.followUp ((typing 13).map Recap.Ev.ofRow) (Recap.troubleOf [] [])
        onlyExercise (.ofKeys ((typing 13).map Recap.Ev.ofRow) onlyExercise),
        listed.student = entry.student ∧ listed.exercise = ['1'] ∧ listed.level = .help := by
  have order := exerciseOrder_typing 13
  have complete := Recap.complete_ofKeys ((typing 13).map Recap.Ev.ofRow) onlyExercise
  have level : Recap.levelOn ((typing 13).map Recap.Ev.ofRow) (Recap.troubleOf [] []) onlyExercise
      (.ofKeys ((typing 13).map Recap.Ev.ofRow) onlyExercise) ['a'] ['1'] = .help := by
    rw [Recap.levelOn, Recap.judgements, Recap.Visits.ofKeys, order]
    decide
  refine ⟨_, List.mem_singleton.mpr rfl, by decide, rfl, by decide, level, ?_⟩
  have numbered : (Recap.indexOf (Recap.exerciseOrder ((typing 13).map Recap.Ev.ofRow)
      onlyExercise)).lookup ['1'] = some 0 := by
    rw [order]
    rfl
  exact (Recap.listed_iff_help complete numbered (by decide) rfl).mpr level

end Hermione
