import Hermione.MachineSums
import Hermione.OptionTraversal
import Hermione.Overview

/-!
# The board's tallies

Edits, errors and failed runs are added up in `i32`s, from file events whose counts the
editor sends and the server keeps as they are.  The tallies are exact, and the board
is shown, where every sum on the way to them fits.
-/

namespace Hermione

/-! ### The events -/

/-- A file event as the editor sends it. -/
structure FileEventIn where
  student : Str
  path : Str
  relativePath : Option Str
  exercise : Option Str
  kind : Str
  edits : Option Int32
  atUnixMs : Int

/-- Re-anchors a path that arrived absolute at its first segment that names an exercise. -/
def reanchor (relative : Str) (slugs : List Str) : Option (Str × Str) :=
  if relative.head? ≠ some '/' then none
  else
    match ((Str.split '/' relative).filter (· ≠ [])).dropWhile (· ∉ slugs) with
    | [] => none
    | anchor :: segments => some (['/'].intercalate (anchor :: segments), anchor)

section Ingest

-- The times that a `DateTime` can hold, in milliseconds, and the server's clock.
variable (representable : Int → Bool) (received : Int)

/-- The row that an event is stored as. -/
def FileEventIn.stored (verified : Option Str) (slugs : List Str) (event : FileEventIn) :
    FileEvent :=
  let (relativePath, exercise) :=
    match event.relativePath.bind (reanchor · slugs) with
    | some (fixed, anchor) => (some fixed, event.exercise.or (some anchor))
    | none => (event.relativePath, event.exercise)
  { student := verified.getD event.student
    path := event.path
    relativePath
    exercise
    kind := event.kind
    edits := event.edits
    instant := if representable event.atUnixMs then event.atUnixMs else received }

end Ingest

/-! ### The board in either build -/

/-- One session's errors, and whether it failed, are added to its student's. -/
def tallyIn (build : Build) (signals : AList fun _ : Str => Signals) (session : TerminalSession) :
    Option (AList fun _ : Str => Signals) :=
  let sig := (signals.lookup session.student).getD .none
  let failed := session.exitCode.any fun code => code != 0
  (build.add sig.errors session.errorCount).bind fun errors =>
    (if failed then build.add sig.failedRuns 1 else some sig.failedRuns).map fun failedRuns =>
      signals.insert session.student { errors, failedRuns }

/-- `tallySignals`, with the additions of the build. -/
def tallySignalsIn (build : Build) (sessions : List TerminalSession) :
    Option (AList fun _ : Str => Signals) :=
  sessions.foldlM (tallyIn build) ∅

namespace Overview

/-- An event is counted if it is an edit on the current exercise, and lately. -/
def countIn (build : Build) (current : Option Str) (now : Int) (edits : Int32 × Option Int)
    (ev : FileEvent) : Option (Int32 × Option Int) :=
  if ev.kind ≠ "edit".toList ∨ ev.exercise ≠ current then some edits
  else
    let last := match edits.2 with
      | none => ev.seconds
      | some second => max second ev.seconds
    (if now - ev.seconds ≤ EDIT_WINDOW_SECS then build.add edits.1 (ev.edits.getD 0)
      else some edits.1).map fun recent => (recent, some last)

/-- `editsOn`, with the additions of the build. -/
def editsOnIn (build : Build) (current : Option Str) (now : Int) (evs : List FileEvent) :
    Option (Int32 × Option Int) :=
  evs.foldlM (countIn build current now) (0, none)

/-- What the board says of a student, whose edits are these. -/
def studentWith (fences : Str → Fences) (signals : AList fun _ : Str => Signals) (now : Int)
    (name : Str) (evs : List FileEvent) (last : FileEvent) (edits : Int32 × Option Int) :
    OverviewStudent :=
  let seconds := secondsOnExercise last.exercise evs
  let present := now - last.seconds ≤ ACTIVE_WINDOW_SECS
  let activity := editActivity present now edits
  let sig := (signals.lookup name).getD .none
  let (struggle, struggleReasons) := assess sig seconds activity
    (match last.exercise with
      | none => .fixed
      | some exercise => fences exercise)
  { student := name
    exercise := last.exercise
    lastSeen := last.instant
    present
    secondsOnExercise := seconds
    startedExercise := startedExercise last.exercise evs
    struggle
    struggleReasons
    errors := sig.errors
    failedRuns := sig.failedRuns
    editsRecent := activity.recent
    lastEdit := edits.2.map (· * 1000) }

/-- The students that are visited, with their events and the last of these. -/
def rowsOf (events : List FileEvent) (visited : List Str) :
    List (Str × List FileEvent × FileEvent) :=
  visited.filterMap fun name =>
    ((Tally.group FileEvent.student events).lookup name).bind fun evs =>
      evs.getLast?.map fun last => (name, evs, last)

/-- `students`, with the additions of the build; none where it panics. -/
def studentsIn (build : Build) (events : List FileEvent) (sessions : List TerminalSession)
    (now : Int) (visited : List Str) : Option (List OverviewStudent) :=
  (tallySignalsIn build sessions).bind fun signals =>
    (rowsOf events visited).mapM fun (name, evs, last) =>
      (editsOnIn build last.exercise now evs).map
        (studentWith (fencesFor (Tally.group FileEvent.student events) visited) signals now name
          evs last)

end Overview

/-! ### A build that wraps shows the board -/

theorem Build.wrapping_add (total value : Int32) :
    Build.wrapping.add total value = some (total + value) := by
  unfold Build.add
  split <;> rfl

theorem tallySignalsIn_wrapping (sessions : List TerminalSession) :
    tallySignalsIn .wrapping sessions = some (tallySignals sessions) := by
  refine Eq.trans (congrArg (sessions.foldlM · ∅) ?_) List.foldlM_pure
  funext signals session
  unfold tallyIn
  dsimp only
  rw [Build.wrapping_add, Build.wrapping_add, Option.bind_some]
  split <;> rfl

namespace Overview

theorem editsOnIn_wrapping (current : Option Str) (now : Int) (evs : List FileEvent) :
    editsOnIn .wrapping current now evs = some (editsOn current now evs) := by
  refine Eq.trans (congrArg (evs.foldlM · (0, none)) ?_) List.foldlM_pure
  funext edits ev
  unfold countIn
  dsimp only
  rw [Build.wrapping_add]
  by_cases skipped : ev.kind ≠ "edit".toList ∨ ev.exercise ≠ current
  · rw [if_pos skipped, if_pos skipped]
    rfl
  · rw [if_neg skipped, if_neg skipped]
    by_cases recent : now - ev.seconds ≤ EDIT_WINDOW_SECS
    · rw [if_pos recent, if_pos recent]
      rfl
    · rw [if_neg recent, if_neg recent]
      rfl

theorem student_eq (fences : Str → Fences) (signals : AList fun _ : Str => Signals) (now : Int)
    (name : Str) (evs : List FileEvent) :
    student fences signals now name evs = evs.getLast?.map fun last =>
      studentWith fences signals now name evs last (editsOn last.exercise now evs) := by
  unfold student
  cases evs.getLast? <;> rfl

/-- Where additions wrap, the board is the one of the model. -/
theorem studentsIn_wrapping (events : List FileEvent) (sessions : List TerminalSession)
    (now : Int) (visited : List Str) :
    studentsIn .wrapping events sessions now visited =
      some (students events sessions now visited) := by
  unfold studentsIn
  rw [tallySignalsIn_wrapping, Option.bind_some]
  simp only [editsOnIn_wrapping, Option.map_some]
  refine List.mapM_pure.trans (congrArg some ?_)
  rw [rowsOf, List.map_filterMap, students]
  refine congrArg (visited.filterMap ·) ?_
  funext name
  cases (Tally.group FileEvent.student events).lookup name with
  | none => rfl
  | some evs =>
      rw [Option.bind_some, Option.bind_some, Option.map_map, student_eq]
      rfl

/-! ### What is added up -/

/-- The counts of the recent edits. -/
def recentEdits (current : Option Str) (now : Int) (evs : List FileEvent) : List Int32 :=
  (evs.filter fun ev => ev.kind = "edit".toList ∧ ev.exercise = current ∧
    now - ev.seconds ≤ EDIT_WINDOW_SECS).map fun ev => ev.edits.getD 0

theorem foldlM_countIn (build : Build) (current : Option Str) (now : Int)
    (edits : Int32 × Option Int) (evs : List FileEvent) :
    (evs.foldlM (countIn build current now) edits).map Prod.fst =
      build.addAll edits.1 (recentEdits current now evs) := by
  induction evs generalizing edits with
  | nil => rfl
  | cons ev evs ih =>
      rw [List.foldlM_cons, recentEdits, countIn]
      by_cases skipped : ev.kind ≠ "edit".toList ∨ ev.exercise ≠ current
      · rw [if_pos skipped, List.filter_cons_of_neg]
        · exact ih edits
        · rw [decide_eq_true_eq]
          rintro ⟨edit, on, -⟩
          exact skipped.elim (absurd edit) (absurd on)
      · rw [if_neg skipped]
        by_cases recent : now - ev.seconds ≤ EDIT_WINDOW_SECS
        · obtain ⟨edit, on⟩ := not_or.mp skipped
          rw [if_pos recent, List.filter_cons_of_pos, List.map_cons, Build.addAll]
          · cases build.add edits.1 (ev.edits.getD 0) with
            | none => rfl
            | some total => exact ih _
          · exact decide_eq_true ⟨not_not.mp edit, not_not.mp on, recent⟩
        · rw [if_neg recent, List.filter_cons_of_neg]
          · exact ih _
          · rw [decide_eq_true_eq]
            rintro ⟨-, -, late⟩
            exact recent late

end Overview

/-- What the tally has of a student. -/
def sigOf (signals : AList fun _ : Str => Signals) (name : Str) : Signals :=
  (signals.lookup name).getD .none

/-- The errors of a student's sessions. -/
def errorCounts (name : Str) (sessions : List TerminalSession) : List Int32 :=
  (sessions.filter (·.student = name)).map TerminalSession.errorCount

/-- The student's sessions that failed, one each. -/
def failures (name : Str) (sessions : List TerminalSession) : List Int32 :=
  (sessions.filter fun session =>
    session.student = name ∧ session.exitCode.any (· != 0) = true).map fun _ => 1

theorem errorCounts_append (name : Str) (front back : List TerminalSession) :
    errorCounts name (front ++ back) = errorCounts name front ++ errorCounts name back := by
  rw [errorCounts, List.filter_append, List.map_append]
  rfl

theorem failures_append (name : Str) (front back : List TerminalSession) :
    failures name (front ++ back) = failures name front ++ failures name back := by
  rw [failures, List.filter_append, List.map_append]
  rfl

theorem errorCounts_self (session : TerminalSession) :
    errorCounts session.student [session] = [session.errorCount] := by
  simp [errorCounts]

theorem failures_self (session : TerminalSession) :
    failures session.student [session] =
      if session.exitCode.any (· != 0) = true then [1] else [] := by
  by_cases failed : session.exitCode.any (· != 0) = true
  · simp [failures, failed]
  · simp [failures, failed]

/-- What one session adds to the tally. -/
theorem tallyIn_eq_some {build : Build} {signals next : AList fun _ : Str => Signals}
    {session : TerminalSession} (tallied : tallyIn build signals session = some next) (name : Str) :
    build.addAll (sigOf signals name).errors (errorCounts name [session]) =
        some (sigOf next name).errors ∧
      build.addAll (sigOf signals name).failedRuns (failures name [session]) =
        some (sigOf next name).failedRuns := by
  obtain ⟨errors, errorsAdded, rest⟩ := Option.bind_eq_some_iff.mp tallied
  obtain ⟨failedRuns, failedAdded, rfl⟩ := Option.map_eq_some_iff.mp rest
  by_cases same : session.student = name
  · subst same
    have now : sigOf (signals.insert session.student { errors, failedRuns }) session.student =
        { errors, failedRuns } := by
      rw [sigOf, AList.lookup_insert, Option.getD_some]
    rw [now, errorCounts_self, failures_self, Build.addAll_singleton]
    refine ⟨errorsAdded, ?_⟩
    by_cases failed : session.exitCode.any (· != 0) = true
    · rw [if_pos failed] at failedAdded ⊢
      rwa [Build.addAll_singleton]
    · rw [if_neg failed] at failedAdded ⊢
      exact failedAdded
  · have others : sigOf (signals.insert session.student { errors, failedRuns }) name =
        sigOf signals name := by
      rw [sigOf, AList.lookup_insert_ne (Ne.symm same), sigOf]
    have none : errorCounts name [session] = [] := by simp [errorCounts, same]
    have none' : failures name [session] = [] := by simp [failures, same]
    rw [others, none, none']
    exact ⟨rfl, rfl⟩

theorem exists_tallyIn {build : Build} {signals : AList fun _ : Str => Signals}
    {session : TerminalSession} {errors failedRuns : Int32}
    (errorsAdded : build.addAll (sigOf signals session.student).errors
      (errorCounts session.student [session]) = some errors)
    (failedAdded : build.addAll (sigOf signals session.student).failedRuns
      (failures session.student [session]) = some failedRuns) :
    ∃ next, tallyIn build signals session = some next := by
  rw [errorCounts_self, Build.addAll_singleton] at errorsAdded
  rw [failures_self] at failedAdded
  refine ⟨signals.insert session.student { errors, failedRuns },
    Option.bind_eq_some_iff.mpr ⟨errors, errorsAdded,
      Option.map_eq_some_iff.mpr ⟨failedRuns, ?_, rfl⟩⟩⟩
  by_cases failed : session.exitCode.any (· != 0) = true
  · rw [if_pos failed] at failedAdded ⊢
    rwa [Build.addAll_singleton] at failedAdded
  · rw [if_neg failed] at failedAdded ⊢
    exact failedAdded

section Sessions

variable {build : Build} {sessions : List TerminalSession}

/-- The tally has what adding up each student's sessions comes to. -/
theorem foldlM_tallyIn {signals next : AList fun _ : Str => Signals}
    (tallied : sessions.foldlM (tallyIn build) signals = some next) (name : Str) :
    build.addAll (sigOf signals name).errors (errorCounts name sessions) =
        some (sigOf next name).errors ∧
      build.addAll (sigOf signals name).failedRuns (failures name sessions) =
        some (sigOf next name).failedRuns := by
  induction sessions generalizing signals with
  | nil =>
      cases tallied
      exact ⟨rfl, rfl⟩
  | cons session sessions ih =>
      obtain ⟨middle, first, later⟩ := Option.bind_eq_some_iff.mp tallied
      rw [← List.singleton_append, errorCounts_append, failures_append, Build.addAll_append,
        Build.addAll_append, (tallyIn_eq_some first name).1, (tallyIn_eq_some first name).2]
      exact ih later

/-- If what each student's sessions come to can be added up, so can the tally. -/
theorem exists_foldlM_tallyIn {signals : AList fun _ : Str => Signals}
    (errors : ∀ name, ∃ total, build.addAll (sigOf signals name).errors
      (errorCounts name sessions) = some total)
    (failed : ∀ name, ∃ total, build.addAll (sigOf signals name).failedRuns
      (failures name sessions) = some total) :
    ∃ next, sessions.foldlM (tallyIn build) signals = some next := by
  induction sessions generalizing signals with
  | nil => exact ⟨signals, rfl⟩
  | cons session sessions ih =>
      rw [← List.singleton_append] at errors failed
      simp only [errorCounts_append, failures_append, Build.addAll_append,
        Option.bind_eq_some_iff] at errors failed
      obtain ⟨_, _, errorsAdded, _⟩ := errors session.student
      obtain ⟨_, _, failedAdded, _⟩ := failed session.student
      obtain ⟨middle, first⟩ := exists_tallyIn errorsAdded failedAdded
      obtain ⟨next, later⟩ := @ih middle
        (fun name => by
          obtain ⟨total, before, added, after⟩ := errors name
          rw [(tallyIn_eq_some first name).1] at added
          cases added
          exact ⟨total, after⟩)
        (fun name => by
          obtain ⟨total, before, added, after⟩ := failed name
          rw [(tallyIn_eq_some first name).2] at added
          cases added
          exact ⟨total, after⟩)
      exact ⟨next, Option.bind_eq_some_iff.mpr ⟨middle, first, later⟩⟩

end Sessions

/-! ### Exact tallies -/

/-- The rows of a student. -/
def eventsOf (events : List FileEvent) (name : Str) : List FileEvent :=
  events.filter (·.student = name)

/-- The student's sessions that failed. -/
def failedCount (name : Str) (sessions : List TerminalSession) : Nat :=
  sessions.countP fun session => session.student = name ∧ session.exitCode.any (· != 0) = true

/-- The board is shown, and its tallies are the sums over the rows. -/
def TalliesExact (build : Build) (events : List FileEvent) (sessions : List TerminalSession)
    (now : Int) (visited : List Str) : Prop :=
  ∃ board, Overview.studentsIn build events sessions now visited = some board ∧
    ∀ entry ∈ board,
      entry.editsRecent.toInt = ((Overview.recentEdits entry.exercise now
        (eventsOf events entry.student)).map Int32.toInt).sum ∧
      entry.errors.toInt = ((errorCounts entry.student sessions).map Int32.toInt).sum ∧
      entry.failedRuns.toInt = failedCount entry.student sessions

/-- Every sum on the way to a tally fits. -/
structure TalliesFit (events : List FileEvent) (sessions : List TerminalSession) (now : Int) :
    Prop where
  errors : ∀ name, Fit ((errorCounts name sessions).map Int32.toInt)
  failedRuns : ∀ name, failedCount name sessions < 2 ^ 31
  edits : ∀ name last, (eventsOf events name).getLast? = some last →
    Fit ((Overview.recentEdits last.exercise now (eventsOf events name)).map Int32.toInt)

theorem failures_toInt (name : Str) (sessions : List TerminalSession) :
    (failures name sessions).map Int32.toInt = List.replicate (failedCount name sessions) 1 := by
  rw [failures, List.map_map, failedCount, List.countP_eq_length_filter]
  exact List.map_const'

theorem lookup_eventsOf {events : List FileEvent} {name : Str} {last : FileEvent}
    (ends : (eventsOf events name).getLast? = some last) :
    (Tally.group FileEvent.student events).lookup name = some (eventsOf events name) := by
  refine (Tally.lookup_group_eq_some_iff FileEvent.student).mpr ⟨?_, rfl⟩
  intro none
  rw [none] at ends
  cases ends

theorem Overview.mem_rowsOf {events : List FileEvent} {visited : List Str} {name : Str}
    {evs : List FileEvent} {last : FileEvent} :
    (name, evs, last) ∈ rowsOf events visited ↔
      name ∈ visited ∧ evs = eventsOf events name ∧ evs.getLast? = some last := by
  unfold rowsOf eventsOf
  rw [List.mem_filterMap]
  constructor
  · rintro ⟨other, member, own⟩
    obtain ⟨members, found, own⟩ := Option.bind_eq_some_iff.mp own
    obtain ⟨final, ends, same⟩ := Option.map_eq_some_iff.mp own
    cases same
    exact ⟨member, ((Tally.lookup_group_eq_some_iff FileEvent.student).mp found).2.symm, ends⟩
  · rintro ⟨member, rfl, ends⟩
    exact ⟨name, member, Option.bind_eq_some_iff.mpr
      ⟨_, lookup_eventsOf ends, Option.map_eq_some_iff.mpr ⟨last, ends, rfl⟩⟩⟩

section Exact

variable {build : Build} {events : List FileEvent} {sessions : List TerminalSession} {now : Int}
  {visited : List Str}

/-- The edits that are counted are the recent ones. -/
theorem Overview.exists_editsOnIn_iff {current : Option Str} {recent : Int32}
    {evs : List FileEvent} :
    (∃ edits, editsOnIn build current now evs = some edits ∧ edits.1 = recent) ↔
      build.addAll 0 (recentEdits current now evs) = some recent := by
  rw [← foldlM_countIn build current now (0, none) evs, Option.map_eq_some_iff]
  rfl

/-- An entry of the board comes of the tally and the student's counted edits. -/
theorem Overview.exists_of_mem_studentsIn {signals : AList fun _ : Str => Signals}
    (tallied : tallySignalsIn build sessions = some signals) {board : List OverviewStudent}
    (made : studentsIn build events sessions now visited = some board) {entry : OverviewStudent}
    (member : entry ∈ board) :
    ∃ name last edits, (eventsOf events name).getLast? = some last ∧
      editsOnIn build last.exercise now (eventsOf events name) = some edits ∧
      entry = studentWith (fencesFor (Tally.group FileEvent.student events) visited) signals now
        name (eventsOf events name) last edits := by
  unfold studentsIn at made
  rw [tallied, Option.bind_some] at made
  obtain ⟨⟨name, evs, last⟩, listed, own⟩ := OptionTraversal.exists_of_mem_results made member
  obtain ⟨-, rfl, ends⟩ := mem_rowsOf.mp listed
  obtain ⟨edits, counted, same⟩ := Option.map_eq_some_iff.mp own
  exact ⟨name, last, edits, ends, counted, same.symm⟩

section Fit

variable (fit : TalliesFit events sessions now)
include fit

theorem TalliesFit.fitFailures (name : Str) : Fit ((failures name sessions).map Int32.toInt) := by
  rw [failures_toInt, fit_ones]
  exact fit.failedRuns name

/-- If the sums fit, the tally is made, in either build. -/
theorem TalliesFit.tallied (build : Build) :
    ∃ signals, tallySignalsIn build sessions = some signals := by
  refine exists_foldlM_tallyIn (fun name => ?_) (fun name => ?_)
  · obtain ⟨total, added, -⟩ := build.addAll_zero (fit.errors name)
    exact ⟨total, added⟩
  · obtain ⟨total, added, -⟩ := build.addAll_zero (fit.fitFailures name)
    exact ⟨total, added⟩

/-- And the board is shown. -/
theorem TalliesFit.shown (build : Build) (visited : List Str) :
    ∃ board, Overview.studentsIn build events sessions now visited = some board := by
  obtain ⟨signals, tallied⟩ := fit.tallied build
  unfold Overview.studentsIn
  rw [tallied, Option.bind_some, OptionTraversal.exists_mapM_iff]
  rintro ⟨name, evs, last⟩ member
  obtain ⟨-, rfl, ends⟩ := Overview.mem_rowsOf.mp member
  obtain ⟨total, added, -⟩ := build.addAll_zero (fit.edits name last ends)
  obtain ⟨edits, counted, -⟩ := Overview.exists_editsOnIn_iff.mpr added
  exact ⟨_, Option.map_eq_some_iff.mpr ⟨edits, counted, rfl⟩⟩

/-- The board that is shown is exact. -/
theorem TalliesFit.exact (build : Build) (visited : List Str) :
    TalliesExact build events sessions now visited := by
  obtain ⟨signals, tallied⟩ := fit.tallied build
  obtain ⟨board, made⟩ := fit.shown build visited
  refine ⟨board, made, fun entry member => ?_⟩
  obtain ⟨name, last, edits, ends, counted, rfl⟩ :=
    Overview.exists_of_mem_studentsIn tallied made member
  obtain ⟨errorsAdded, failedAdded⟩ := foldlM_tallyIn tallied name
  change edits.1.toInt = ((Overview.recentEdits last.exercise now (eventsOf events name)).map
      Int32.toInt).sum ∧
    (sigOf signals name).errors.toInt = ((errorCounts name sessions).map Int32.toInt).sum ∧
    (sigOf signals name).failedRuns.toInt = failedCount name sessions
  refine ⟨?_, ?_, ?_⟩
  · obtain ⟨total, added, sum⟩ := build.addAll_zero (fit.edits name last ends)
    have same := Overview.exists_editsOnIn_iff.mp ⟨edits, counted, rfl⟩
    rw [← sum, Option.some.inj (added.symm.trans same)]
  · obtain ⟨total, added, sum⟩ := build.addAll_zero (fit.errors name)
    rw [← sum, Option.some.inj (added.symm.trans errorsAdded)]
  · obtain ⟨total, added, sum⟩ := build.addAll_zero (fit.fitFailures name)
    rw [failures_toInt, sum_ones] at sum
    rw [← sum, Option.some.inj (added.symm.trans failedAdded)]

end Fit

/-- If additions are checked and the board is shown, the sums fit. -/
theorem TalliesFit.of_checked (order : visited.Perm (Tally.group FileEvent.student events).keys)
    (exact : TalliesExact .checked events sessions now visited) :
    TalliesFit events sessions now := by
  obtain ⟨board, made, -⟩ := exact
  obtain ⟨signals, tallied, made⟩ := Option.bind_eq_some_iff.mp made
  refine ⟨fun name => ?_, fun name => ?_, fun name last ends => ?_⟩
  · exact (fit_iff_checked _).mpr ⟨_, (foldlM_tallyIn tallied name).1⟩
  · rw [← fit_ones, ← failures_toInt]
    exact (fit_iff_checked _).mpr ⟨_, (foldlM_tallyIn tallied name).2⟩
  · have on : name ∈ visited := by
      rw [order.mem_iff]
      exact AList.lookup_isSome.mp (Option.isSome_of_eq_some (lookup_eventsOf ends))
    obtain ⟨entry, own⟩ := OptionTraversal.exists_mapM_iff.mp ⟨board, made⟩ _
      (Overview.mem_rowsOf.mpr ⟨on, rfl, ends⟩)
    obtain ⟨edits, counted, -⟩ := Option.map_eq_some_iff.mp own
    exact (fit_iff_checked _).mpr ⟨_, Overview.exists_editsOnIn_iff.mp ⟨edits, counted, rfl⟩⟩

end Exact

/-- The tallies are exact, however the server was built, exactly if the sums on the way to
them fit. -/
theorem talliesExact_iff {events : List FileEvent} {visited : List Str}
    (order : visited.Perm (Tally.group FileEvent.student events).keys)
    (sessions : List TerminalSession) (now : Int) :
    (∀ build, TalliesExact build events sessions now visited) ↔ TalliesFit events sessions now :=
  ⟨fun exact => .of_checked order (exact .checked), fun fit build => fit.exact build visited⟩

/-- An edit on no exercise at the start of the epoch, as the editor may send it. -/
def editOf (edits : Int32) : FileEventIn :=
  { student := "a".toList, path := "x".toList, relativePath := none, exercise := none
    kind := "edit".toList, edits := some edits, atUnixMs := 0 }

/-- What is stored of two edits with these counts. -/
def twoEdits (first second : Int32) : List FileEvent :=
  [editOf first, editOf second].map (FileEventIn.stored (fun _ => true) 0 none [])

theorem talliesExact_iff_two :
    (∀ build, TalliesExact build (twoEdits 1 2) [] 0 ["a".toList]) ↔
      TalliesFit (twoEdits 1 2) [] 0 :=
  talliesExact_iff (.refl _) [] 0

/-- Two edits with the largest count do not fit. -/
theorem not_talliesExact_largest :
    ¬ ∀ build, TalliesExact build (twoEdits 2147483647 2147483647) [] 0 ["a".toList] := by
  intro exact
  obtain ⟨board, made, -⟩ := exact .checked
  have panics : (Overview.studentsIn .checked (twoEdits 2147483647 2147483647) [] 0
      ["a".toList]).isSome = false := by
    decide +kernel
  rw [made] at panics
  cases panics

example : (Overview.studentsIn .wrapping (twoEdits 2147483647 2147483647) [] 0 ["a".toList]).map
    (·.map OverviewStudent.editsRecent) = some [-2] := by
  decide +kernel

end Hermione
