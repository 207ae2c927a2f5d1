import Hermione.JudgedAlike
import Hermione.Lessons
import Hermione.StableSorts

/-!
# The whole recap

What the recap says beside the exercises and the students to follow up with: who
was there, for how long, who was silent, and how busy each stretch was.  None of
this depends on the orders in which the maps are visited.
-/

namespace Hermione

namespace Recap

/-- Width of one timeline bar. -/
def BUCKET_SECS : Int :=
  5 * 60

/-- Less active time than this and a student was barely part of the lesson. -/
def BARELY_THERE_SECS : Int :=
  5 * 60

/-- A message the teacher sent during the lesson. -/
structure Sent where
  second : Int
  text : Str
  /-- `none` is everyone. -/
  recipient : Option Str

structure Quiet where
  student : Str
  /-- "barely there" or "never typed". -/
  why : Str
  activeSeconds : Int
  deriving DecidableEq

structure Bucket where
  atUnixMs : Int
  /-- Students with any activity in this stretch. -/
  active : Nat

structure SentOut where
  atUnixMs : Int
  text : Str
  recipient : Option Str

structure LessonRecap where
  fromUnixMs : Int
  toUnixMs : Int
  /-- Students with any activity in the lesson. -/
  students : Nat
  /-- Median active time across them (seconds). -/
  medianActiveSeconds : Int
  exercises : List ExerciseRecap
  followUp : List FollowUp
  quiet : List Quiet
  timeline : List Bucket
  messages : List SentOut

/-- Somebody in the class reported edits. -/
def classTyped (index : AList fun _ : Str => Nat) (events : List Ev) (visits : Visits) : Bool :=
  visits.students.any fun student =>
    (perStudent index events student).any fun per => 0 < per.edits

/-- Why a student counts as silent, if they do. -/
def quietEntry (index : AList fun _ : Str => Nat) (events : List Ev) (typed : Bool)
    (student : Str) : Option Quiet :=
  (perStudent index events student).bind fun per =>
    if per.total < BARELY_THERE_SECS then
      some { student, why := "barely there".toList, activeSeconds := per.total }
    else if typed ∧ per.edits = 0 then
      some { student, why := "never typed".toList, activeSeconds := per.total }
    else none

/-- Least active first. -/
def quieter (first second : Quiet) : Bool :=
  if first.activeSeconds ≠ second.activeSeconds then first.activeSeconds < second.activeSeconds
  else first.student ≤ second.student

/-- Present but silent. -/
def quiet (index : AList fun _ : Str => Nat) (events : List Ev) (visits : Visits) : List Quiet :=
  (visits.students.filterMap
    (quietEntry index events (classTyped index events visits))).mergeSort quieter

/-- Puts an event's student into the bucket of its time.  A negative index becomes a
very large one in the code, which is no bucket's either. -/
def intoBucket (start : Int) (seen : List (List Str)) (ev : Ev) : List (List Str) :=
  match ((ev.second - start).tdiv BUCKET_SECS).toNat? with
  | some number => seen.modify number (List.insert ev.student)
  | none => seen

/-- How many students were active in each five minutes of the lesson, which ends no
earlier than it begins. -/
def timeline (window : Span) (events : List Ev) : List Bucket :=
  let start := window.fromSecs - window.fromSecs % BUCKET_SECS
  let count := ((window.toSecs - start).tdiv BUCKET_SECS + 1).toNat
  let seen := (events.filter fun ev => !ev.closed).foldl (intoBucket start)
    (List.replicate count [])
  seen.zipIdx.map fun (students, number) =>
    { atUnixMs := (start + number * BUCKET_SECS) * 1000, active := students.length }

/-- The active times of the class. -/
def totals (index : AList fun _ : Str => Nat) (events : List Ev) (visits : Visits) : List Int :=
  visits.students.filterMap fun student =>
    (perStudent index events student).map PerStudent.total

/-- Sums up a lesson. -/
def build (window : Span) (events : List Ev) (trouble : List Trouble) (sent : List Sent)
    (exercises : List ExerciseInfo) (visits : Visits) : LessonRecap :=
  let index := indexOf (exerciseOrder events exercises)
  let totals := totals index events visits
  { fromUnixMs := window.fromSecs * 1000
    toUnixMs := window.toSecs * 1000
    students := (Tally.group Ev.student events).keys.length
    medianActiveSeconds := if totals.isEmpty then 0 else quantile totals.mergeSort (1 / 2)
    exercises := exerciseRecaps events trouble exercises visits
    followUp := followUp events trouble exercises visits
    quiet := quiet index events visits
    timeline := timeline window events
    messages := sent.map fun message =>
      { atUnixMs := message.second * 1000, text := message.text, recipient := message.recipient } }

/-! ### What the orders have no part in -/

section Students

variable {visits others : Visits} (same : visits.students.Perm others.students)
  (index : AList fun _ : Str => Nat) (events : List Ev)

include same

theorem classTyped_perm : classTyped index events visits = classTyped index events others := by
  unfold classTyped
  rw [Bool.eq_iff_iff, List.any_eq_true, List.any_eq_true]
  simp only [same.mem_iff]

theorem mergeSort_totals_perm :
    (totals index events visits).mergeSort = (totals index events others).mergeSort :=
  StableSorts.mergeSort_eq_of_perm (same.filterMap _)

theorem isEmpty_totals_perm :
    (totals index events visits).isEmpty = (totals index events others).isEmpty :=
  (same.filterMap _).isEmpty_eq

/-- Silent students are told apart by their names. -/
theorem quiet_perm : quiet index events visits = quiet index events others := by
  unfold quiet
  rw [classTyped_perm same]
  have entries := same.filterMap (quietEntry index events (classTyped index events others))
  have total (first second : Quiet) : quieter first second || quieter second first := by
    unfold quieter
    split <;> split <;> simp <;> first | omega | exact le_total _ _
  have trans (first second third : Quiet) (left : quieter first second)
      (right : quieter second third) : quieter first third := by
    unfold quieter at *
    split at left <;> split at right <;> split <;> simp at * <;>
      first | omega | exact left.trans right
  apply StableSorts.mergeSort_eq_of_apart trans total entries
  intro first left second right before after
  have named {entry : Quiet} {typed : Bool}
      (among : entry ∈ visits.students.filterMap (quietEntry index events typed)) :
      quietEntry index events typed entry.student = some entry := by
    obtain ⟨student, -, made⟩ := List.mem_filterMap.mp among
    have about : entry.student = student := by
      obtain ⟨per, -, made⟩ := Option.bind_eq_some_iff.mp made
      split at made
      · cases made
        rfl
      · split at made
        · cases made
          rfl
        · cases made
    rwa [about]
  have sameStudent : first.student = second.student := by
    unfold quieter at before after
    split at before <;> split at after <;> simp at * <;>
      first | omega | exact le_antisymm before after
  have one := named (entries.mem_iff.mpr left)
  have two := named (entries.mem_iff.mpr right)
  rw [sameStudent, two] at one
  exact (Option.some.inj one).symm

end Students

variable {events : List Ev} {trouble : List Trouble} {exercises : List ExerciseInfo}
  {visits others : Visits} (window : Span) (sent : List Sent)

/-- Two recaps of a lesson differ in the exercises or in whom to follow up with. -/
theorem build_eq_iff (same : visits.students.Perm others.students) :
    build window events trouble sent exercises visits =
        build window events trouble sent exercises others ↔
      exerciseRecaps events trouble exercises visits =
          exerciseRecaps events trouble exercises others ∧
        followUp events trouble exercises visits = followUp events trouble exercises others := by
  simp only [build, mergeSort_totals_perm same, isEmpty_totals_perm same, quiet_perm same,
    LessonRecap.mk.injEq, and_true, true_and]

end Recap

end Hermione
