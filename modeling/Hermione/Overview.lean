import Hermione.Assessment
import Hermione.TimeOnTask

/-!
# The live board

The board shows every student with what they work on, how long they have, and
whether they seem to need help.  It is made from the file events and terminal
sessions of the recent past.  A hash map is visited in an order of its own, which
is a parameter here.
-/

namespace Hermione

/-- A student last seen within this many seconds is considered "active". -/
def ACTIVE_WINDOW_SECS : Int :=
  90

/-- Window over which recent edit volume is summed. -/
def EDIT_WINDOW_SECS : Int :=
  5 * 60

/-- A stored terminal session. -/
structure TerminalSession where
  student : Str
  errorCount : Int32
  exitCode : Option Int32
  deriving DecidableEq

/-- Struggle signals: errors and failed runs of each student's sessions. -/
def tallySignals (sessions : List TerminalSession) : AList fun _ : Str => Signals :=
  sessions.foldl (fun signals session =>
    let sig := (signals.lookup session.student).getD .none
    let failed := session.exitCode.any fun code => code != 0
    signals.insert session.student
      { errors := sig.errors + session.errorCount
        failedRuns := if failed then sig.failedRuns + 1 else sig.failedRuns }) ∅

structure OverviewStudent where
  student : Str
  exercise : Option Str
  /-- In milliseconds. -/
  lastSeen : Int
  /-- Seen recently: the status is "active". -/
  present : Bool
  /-- Accumulated time-on-task for the current exercise (seconds). -/
  secondsOnExercise : Int
  /-- When the student first touched the current exercise (milliseconds). -/
  startedExercise : Option Int
  struggle : Level
  struggleReasons : List Str
  errors : Int32
  failedRuns : Int32
  editsRecent : Int32
  lastEdit : Option Int

namespace Overview

/-- One student's times on exercises. -/
def cohortStep (perExercise : AList fun _ : Str => Int) (pair : FileEvent × FileEvent) :
    AList fun _ : Str => Int :=
  match pair.1.exercise with
  | none => perExercise
  | some exercise =>
      if pair.1.closed then perExercise
      else Tally.credit perExercise exercise (countedGap pair.1 pair.2)

def perExercise (evs : List FileEvent) : AList fun _ : Str => Int :=
  (neighbours evs).foldl cohortStep ∅

/-- The times a class contributes to the cohort of an exercise, the students
being visited in this order. -/
def cohortTimes (perStudent : AList fun _ : Str => List FileEvent) (students : List Str)
    (exercise : Str) : List Int :=
  students.filterMap fun student =>
    (perStudent.lookup student).bind fun evs =>
      ((perExercise evs).lookup exercise).filter fun secs => 0 < secs

/-- The thresholds of an exercise: those of its cohort, or the fixed ones. -/
def fencesFor (perStudent : AList fun _ : Str => List FileEvent) (students : List Str)
    (exercise : Str) : Fences :=
  match cohortTimes perStudent students exercise with
  | [] => .fixed
  | times => .forCohort times

def secondsOnExercise (current : Option Str) (evs : List FileEvent) : Int :=
  (neighbours evs).foldl (fun seconds pair =>
    if pair.1.closed ∨ pair.1.exercise ≠ current then seconds
    else seconds + countedGap pair.1 pair.2) 0

def startedExercise (current : Option Str) (evs : List FileEvent) : Option Int :=
  evs.foldl (fun started ev =>
    if ev.exercise = current then
      some (match started with
        | none => ev.instant
        | some instant => min instant ev.instant)
    else started) none

/-- Recent edits, and the second of the last one, on the current exercise. -/
def editsOn (current : Option Str) (now : Int) (evs : List FileEvent) : Int32 × Option Int :=
  evs.foldl (fun (recent, last) ev =>
    if ev.kind ≠ "edit".toList ∨ ev.exercise ≠ current then (recent, last)
    else
      (if now - ev.seconds ≤ EDIT_WINDOW_SECS then recent + ev.edits.getD 0 else recent,
        some (match last with
          | none => ev.seconds
          | some second => max second ev.seconds))) (0, none)

/-- Someone who walked away isn't stuck, so "hasn't typed" only counts while they
are present. -/
def editActivity (present : Bool) (now : Int) (edits : Int32 × Option Int) : EditActivity :=
  { recent := edits.1
    sinceLastSecs := if present then edits.2.map fun last => now - last else none }

/-- What the board says of a student. -/
def student (fences : Str → Fences) (signals : AList fun _ : Str => Signals) (now : Int)
    (name : Str) (evs : List FileEvent) : Option OverviewStudent :=
  match evs.getLast? with
  | none => none
  | some last =>
      let current := last.exercise
      let seconds := secondsOnExercise current evs
      let present := now - last.seconds ≤ ACTIVE_WINDOW_SECS
      let edits := editsOn current now evs
      let activity := editActivity present now edits
      let sig := (signals.lookup name).getD .none
      let (struggle, struggleReasons) := assess sig seconds activity
        (match current with
          | none => .fixed
          | some exercise => fences exercise)
      some
        { student := name
          exercise := current
          lastSeen := last.instant
          present
          secondsOnExercise := seconds
          startedExercise := startedExercise current evs
          struggle
          struggleReasons
          errors := sig.errors
          failedRuns := sig.failedRuns
          editsRecent := activity.recent
          lastEdit := edits.2.map (· * 1000) }

/-- The students of the board, in the order they are visited. -/
def students (events : List FileEvent) (sessions : List TerminalSession) (now : Int)
    (visited : List Str) : List OverviewStudent :=
  let perStudent := Tally.group FileEvent.student events
  visited.filterMap fun name =>
    (perStudent.lookup name).bind fun evs =>
      student (fencesFor perStudent visited) (tallySignals sessions) now name evs

end Overview

end Hermione
