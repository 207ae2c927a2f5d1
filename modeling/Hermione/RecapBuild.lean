import Mathlib.Data.List.Destutter
import Hermione.Assessment
import Hermione.Overview
import Hermione.TimeOnTask

/-!
# The recap of a lesson

Sums up one lesson from the same file events and terminal sessions as the board.
The maps it is made from are visited in orders of their own: `Visits` holds them.
-/

namespace Hermione

namespace Recap

/-- Students "to watch" listed beside everyone who needed help. -/
def MAX_WATCH_LISTED : Nat :=
  10

/-- One file event, reduced to what the recap uses. Times are seconds. -/
structure Ev where
  student : Str
  exercise : Option Str
  closed : Bool
  edits : Int32
  second : Int
  deriving DecidableEq

/-- What the handler makes of a stored event. -/
def Ev.ofRow (row : FileEvent) : Ev :=
  { student := row.student
    exercise := row.exercise
    closed := row.closed
    edits := row.edits.getD 0
    second := row.seconds }

/-- Errors and failed runs a student's terminal produced during the lesson. -/
structure Trouble where
  student : Str
  errors : Int32
  failedRuns : Int32

/-- What the handler makes of the sessions, when their tallies are visited in
this order. -/
def troubleOf (sessions : List TerminalSession) (visited : List Str) : List Trouble :=
  visited.filterMap fun student =>
    ((tallySignals sessions).lookup student).map fun sig =>
      { student, errors := sig.errors, failedRuns := sig.failedRuns }

structure ExerciseInfo where
  slug : Str
  title : Str

structure PerStudent where
  /-- Seconds per exercise index. -/
  byExercise : AList fun _ : Nat => Int
  total : Int
  edits : Int
  /-- Exercise index of the student's latest activity that was on an exercise. -/
  lastExercise : Option Nat

def PerStudent.empty : PerStudent :=
  { byExercise := ∅, total := 0, edits := 0, lastExercise := none }

/-- Exercises in course order, then any that activity mentions but the course
never defined. -/
def exerciseOrder (events : List Ev) (exercises : List ExerciseInfo) : List (Str × Str) :=
  let order := exercises.map fun info => (info.slug, info.title)
  let undefined := (events.filterMap Ev.exercise).filter fun slug =>
    !order.any fun entry => entry.1 == slug
  let undefined := (undefined.mergeSort fun first second => first ≤ second).destutter (· ≠ ·)
  order ++ undefined.map fun slug => (slug, slug)

/-- The index of each slug. -/
def indexOf (order : List (Str × Str)) : AList fun _ : Str => Nat :=
  order.zipIdx.foldl (fun index entry => index.insert entry.1.1 entry.2) ∅

/-- What one event adds, whatever follows it. -/
def PerStudent.note (per : PerStudent) (exercise : Option Nat) (ev : Ev) : PerStudent :=
  { per with
    edits := per.edits + max ev.edits.toInt 0
    lastExercise :=
      match exercise with
      | some index => some index
      | none => per.lastExercise }

/-- The time until the next event, as far as it is counted. -/
def gapUntil (ev next : Ev) : Int :=
  max 0 (min (next.second - ev.second) IDLE_GAP_SECS)

/-- What an event and the time until the next one add. -/
def PerStudent.advance (per : PerStudent) (exercise : Option Nat) (ev next : Ev) : PerStudent :=
  let noted := per.note exercise ev
  if ev.closed then noted
  else
    let gap := gapUntil ev next
    { noted with
      total := noted.total + gap
      byExercise :=
        match exercise with
        | some index => Tally.credit noted.byExercise index gap
        | none => noted.byExercise }

/-- A student's events one after the other. -/
def PerStudent.walk (index : AList fun _ : Str => Nat) : PerStudent → List Ev → PerStudent
  | per, [] => per
  | per, [ev] => per.note (ev.exercise.bind index.lookup) ev
  | per, ev :: next :: rest =>
      walk index (per.advance (ev.exercise.bind index.lookup) ev next) (next :: rest)

/-- What is summed up of each student. -/
def perStudent (index : AList fun _ : Str => Nat) (events : List Ev) (student : Str) :
    Option PerStudent :=
  ((Tally.group Ev.student events).lookup student).map (PerStudent.walk index .empty)

/-- The orders in which the students are visited, and each one's exercises. -/
structure Visits where
  students : List Str
  exercises : Str → List Nat

/-- The times of a class on an exercise. -/
def timesOn (index : AList fun _ : Str => Nat) (events : List Ev) (visits : Visits)
    (exercise : Nat) : List Int :=
  visits.students.filterMap fun student =>
    (perStudent index events student).bind fun per =>
      (per.byExercise.lookup exercise).filter fun secs => 0 < secs

/-- What "long" means on an exercise. -/
def fences (index : AList fun _ : Str => Nat) (events : List Ev) (visits : Visits)
    (exercise : Nat) : Fences :=
  .forCohort (timesOn index events visits exercise)

/-- The last of the entries with the greatest time: `max_by_key`. -/
def longest (times : List (Nat × Int)) : Option (Nat × Int) :=
  times.foldl (fun best entry =>
    match best with
    | none => some entry
    | some other => if other.2 ≤ entry.2 then some entry else some other) none

/-- How a student did on an exercise. -/
structure Judgement where
  student : Str
  exercise : Nat
  level : Level
  seconds : Int
  reasons : List Str

/-- The trouble of each student. -/
def signalsOf (trouble : List Trouble) : AList fun _ : Str => Signals :=
  trouble.foldl (fun signals entry =>
    signals.insert entry.student { errors := entry.errors, failedRuns := entry.failedRuns }) ∅

/-- A student's times, in the order they are visited. -/
def visitedTimes (per : PerStudent) (visited : List Nat) : List (Nat × Int) :=
  visited.filterMap fun exercise =>
    (per.byExercise.lookup exercise).map fun secs => (exercise, secs)

/-- The judgements on one student: trouble is held against the exercise they spent
most time on. -/
def judge (fences : Nat → Fences) (signals : AList fun _ : Str => Signals) (student : Str)
    (per : PerStudent) (visited : List Nat) : List Judgement :=
  let times := visitedTimes per visited
  let top := (longest times).map Prod.fst
  (times.filter fun entry => 0 < entry.2).map fun (exercise, seconds) =>
    let sig :=
      if some exercise = top then (signals.lookup student).getD .none else .none
    let (level, reasons) := assess sig seconds .none (fences exercise)
    { student, exercise, level, seconds, reasons }

/-- All judgements of a lesson. -/
def judgements (events : List Ev) (trouble : List Trouble) (exercises : List ExerciseInfo)
    (visits : Visits) : List Judgement :=
  let index := indexOf (exerciseOrder events exercises)
  visits.students.flatMap fun student =>
    match perStudent index events student with
    | none => []
    | some per =>
        judge (fences index events visits) (signalsOf trouble) student per
          (visits.exercises student)

/-! ### What it answers with -/

structure ExerciseRecap where
  exercise : Str
  title : Str
  students : Nat
  medianSeconds : Int
  longestSeconds : Int
  /-- Students who, by the board's own rules, needed help on it. -/
  neededHelp : Nat
  toWatch : Nat
  /-- Students whose last activity was on a later exercise. -/
  movedOn : Nat

structure FollowUp where
  student : Str
  exercise : Str
  level : Level
  seconds : Int
  reasons : List Str

/-- One exercise of the lesson. -/
def exerciseRecap (judged : List Judgement) (lastExercise : Str → Option Nat) (times : List Int)
    (index : Nat) (entry : Str × Str) : ExerciseRecap :=
  let here := judged.filter fun judgement => judgement.exercise = index
  { exercise := entry.1
    title := entry.2
    students := here.length
    medianSeconds :=
      match times with
      | [] => 0
      | _ :: _ => quantile times.mergeSort (1 / 2)
    longestSeconds := here.foldl (fun longest judgement => max longest judgement.seconds) 0
    neededHelp := here.countP fun judgement => judgement.level = .help
    toWatch := here.countP fun judgement => judgement.level = .watch
    movedOn := here.countP fun judgement =>
      (lastExercise judgement.student).any fun last => index < last }

/-- Exercises nobody worked on are not part of the lesson. -/
def exerciseRecaps (events : List Ev) (trouble : List Trouble) (exercises : List ExerciseInfo)
    (visits : Visits) : List ExerciseRecap :=
  let order := exerciseOrder events exercises
  let index := indexOf order
  let judged := judgements events trouble exercises visits
  let last := fun student => (perStudent index events student).bind PerStudent.lastExercise
  (order.zipIdx.map fun (entry, exercise) =>
    exerciseRecap judged last (timesOn index events visits exercise) exercise entry).filter
      fun recap => 0 < recap.students

/-- Everyone who needed help, then those worth watching; longest first within
each. -/
def followsUp (first second : FollowUp) : Bool :=
  if first.level = .help ∧ second.level ≠ .help then true
  else if first.level ≠ .help ∧ second.level = .help then false
  else if first.seconds ≠ second.seconds then second.seconds < first.seconds
  else first.student ≤ second.student

/-- Of those to watch only the first few are listed. -/
def followUp (events : List Ev) (trouble : List Trouble) (exercises : List ExerciseInfo)
    (visits : Visits) : List FollowUp :=
  let order := exerciseOrder events exercises
  let listed := (judgements events trouble exercises visits).filter fun judgement =>
    judgement.level ≠ .ok
  let sorted := (listed.map fun judgement =>
    { student := judgement.student
      exercise := (order.getD judgement.exercise ([], [])).1
      level := judgement.level
      seconds := judgement.seconds
      reasons := judgement.reasons : FollowUp }).mergeSort followsUp
  (sorted.foldl (fun (kept, watching) entry =>
    if entry.level = .help then (kept ++ [entry], watching)
    else if watching < MAX_WATCH_LISTED then (kept ++ [entry], watching + 1)
    else (kept, watching + 1)) (([] : List FollowUp), 0)).1

/-- The level the recap gives a student on an exercise; one that is not judged
there is not listed. -/
def levelOn (events : List Ev) (trouble : List Trouble) (exercises : List ExerciseInfo)
    (visits : Visits) (student exercise : Str) : Level :=
  let index := indexOf (exerciseOrder events exercises)
  let judged := (judgements events trouble exercises visits).find? fun judgement =>
    judgement.student = student ∧ index.lookup exercise = some judgement.exercise
  match judged with
  | some judgement => judgement.level
  | none => .ok

end Recap

end Hermione
