import Mathlib.Algebra.Order.BigOperators.Group.List
import Hermione.Lessons
import Hermione.RustStrings
import Hermione.Tallies

/-!
# Time on task

The editor reports file events, and the time between two of them is held to have
been spent on the file of the earlier one.  A gap is capped, so that idle time is
not counted as work, and the time after a file was closed is nobody's.
-/

namespace Hermione

/-- Gaps longer than this (seconds) between consecutive events are treated as
the student being away, and not counted as time-on-task. -/
def IDLE_GAP_SECS : Int :=
  120

/-- A stored file event.  Its time is in milliseconds. -/
structure FileEvent where
  student : Str
  path : Str
  relativePath : Option Str
  exercise : Option Str
  kind : Str
  edits : Option Int32
  instant : Int
  deriving DecidableEq

namespace FileEvent

/-- The whole second the event lies in. -/
def seconds (event : FileEvent) : Int :=
  Recap.timestamp event.instant

def closed (event : FileEvent) : Bool :=
  event.kind == "close".toList

end FileEvent

/-- Events in the order of their times. -/
def Timed (events : List FileEvent) : Prop :=
  events.Pairwise fun earlier later => earlier.instant ≤ later.instant

/-- `windows(2)` of a list: every element with its successor. -/
def neighbours {Value : Type*} (values : List Value) : List (Value × Value) :=
  values.zip values.tail

/-- The time between two events, in seconds, as far as it is counted. -/
def countedGap (cur next : FileEvent) : Int :=
  max 0 (min (next.seconds - cur.seconds) IDLE_GAP_SECS)

/-! ### The time report -/

structure FileTally where
  relativePath : Option Str
  exercise : Option Str
  seconds : Int

structure FileTime where
  path : Str
  relativePath : Option Str
  exercise : Option Str
  seconds : Int

structure ExerciseTime where
  exercise : Str
  seconds : Int

structure TimeReport where
  student : Str
  totalSeconds : Int
  perFile : List FileTime
  perExercise : List ExerciseTime

/-- What the report is made from. -/
structure TimeTally where
  perFile : AList fun _ : Str => FileTally
  perExercise : AList fun _ : Str => Int
  total : Int

namespace TimeTally

def empty : TimeTally :=
  { perFile := ∅, perExercise := ∅, total := 0 }

def step (tally : TimeTally) (pair : FileEvent × FileEvent) : TimeTally :=
  let (cur, next) := pair
  if cur.closed then tally
  else
    let gap := countedGap cur next
    if gap = 0 then tally
    else
      let entry := (tally.perFile.lookup cur.path).getD
        { relativePath := cur.relativePath, exercise := cur.exercise, seconds := 0 }
      { perFile := tally.perFile.insert cur.path { entry with seconds := entry.seconds + gap }
        perExercise :=
          match cur.exercise with
          | some exercise => Tally.credit tally.perExercise exercise gap
          | none => tally.perExercise
        total := tally.total + gap }

/-- The report, longest times first, when the maps are visited in these orders. -/
def report (tally : TimeTally) (student : Str)
    (files : List (Sigma fun _ : Str => FileTally)) (exercises : List (Sigma fun _ : Str => Int)) :
    TimeReport :=
  { student
    totalSeconds := tally.total
    perFile :=
      (files.map fun entry =>
        { path := entry.1
          relativePath := entry.2.relativePath
          exercise := entry.2.exercise
          seconds := entry.2.seconds : FileTime }).mergeSort fun first second =>
            second.seconds ≤ first.seconds
    perExercise :=
      (exercises.map fun entry =>
        { exercise := entry.1, seconds := entry.2 : ExerciseTime }).mergeSort
          fun first second => second.seconds ≤ first.seconds }

end TimeTally

/-- Estimates time-on-task per file and per exercise for one student. -/
def timePerFile (rows : List FileEvent) : TimeTally :=
  (neighbours rows).foldl TimeTally.step .empty

/-! ### What is counted -/

/-- The time between two events is spent on the exercise. -/
def spentOn (exercise : Str) (pair : FileEvent × FileEvent) : Int :=
  if pair.1.closed = false ∧ pair.1.exercise = some exercise then countedGap pair.1 pair.2
  else 0

/-- The time between two events is spent on some file. -/
def spent (pair : FileEvent × FileEvent) : Int :=
  if pair.1.closed then 0 else countedGap pair.1 pair.2

/-- Time on an exercise: the gaps after its events. -/
def secondsOn (exercise : Str) (rows : List FileEvent) : Int :=
  ((neighbours rows).map (spentOn exercise)).sum

/-- Time on all files. -/
def secondsInAll (rows : List FileEvent) : Int :=
  ((neighbours rows).map spent).sum

theorem countedGap_nonneg (cur next : FileEvent) : 0 ≤ countedGap cur next :=
  le_max_left _ _

theorem countedGap_le_cap (cur next : FileEvent) : countedGap cur next ≤ IDLE_GAP_SECS :=
  max_le (by decide) (min_le_right _ _)

theorem countedGap_le {cur next : FileEvent} (timed : cur.instant ≤ next.instant) :
    countedGap cur next ≤ next.seconds - cur.seconds := by
  have ordered : cur.seconds ≤ next.seconds :=
    Int.ediv_le_ediv (by decide) timed
  exact max_le (by omega) (min_le_left _ _)

theorem spent_nonneg (pair : FileEvent × FileEvent) : 0 ≤ spent pair := by
  unfold spent
  split
  · rfl
  · exact countedGap_nonneg _ _

/-! ### The report counts that -/

/-- A loop that adds to a number what each element contributes. -/
theorem foldl_sum {State Value : Type*} (step : State → Value → State) (read : State → Int)
    (weight : Value → Int)
    (adds : ∀ state value, read (step state value) = read state + weight value)
    (values : List Value) (state : State) :
    read (values.foldl step state) = read state + (values.map weight).sum := by
  induction values generalizing state with
  | nil => simp
  | cons value values ih =>
      rw [List.foldl_cons, ih, adds, List.map_cons, List.sum_cons, add_assoc]

namespace TimeTally

theorem count_step (exercise : Str) (tally : TimeTally) (pair : FileEvent × FileEvent) :
    Tally.count (tally.step pair).perExercise exercise =
      Tally.count tally.perExercise exercise + spentOn exercise pair := by
  obtain ⟨cur, next⟩ := pair
  simp only [step, spentOn]
  split
  · next closed => simp [closed]
  · next open_ =>
      split
      · next zero => simp [zero]
      · simp only [open_, true_and]
        split
        · next other same =>
            rw [Tally.count_credit, same]
            simp only [Option.some.injEq, eq_comm]
        · next none => simp [none]

theorem total_step (tally : TimeTally) (pair : FileEvent × FileEvent) :
    (tally.step pair).total = tally.total + spent pair := by
  obtain ⟨cur, next⟩ := pair
  simp only [step, spent]
  split
  · simp
  · split
    · next zero => simp [zero]
    · rfl

theorem weigh_perFile_step (tally : TimeTally) (pair : FileEvent × FileEvent) :
    Tally.weigh FileTally.seconds (tally.step pair).perFile =
      Tally.weigh FileTally.seconds tally.perFile + spent pair := by
  obtain ⟨cur, next⟩ := pair
  simp only [step, spent]
  split
  · simp
  · split
    · next zero => simp [zero]
    · rw [Tally.weigh_insert]
      cases tally.perFile.lookup cur.path with
      | none => simp
      | some entry => simp

/-- Time between two events is spent on some exercise. -/
def spentOnAny (pair : FileEvent × FileEvent) : Int :=
  if pair.1.exercise = none then 0 else spent pair

theorem weigh_perExercise_step (tally : TimeTally) (pair : FileEvent × FileEvent) :
    Tally.weigh id (tally.step pair).perExercise =
      Tally.weigh id tally.perExercise + spentOnAny pair := by
  obtain ⟨cur, next⟩ := pair
  simp only [step, spentOnAny, spent]
  split
  · simp
  · split
    · next zero => simp [zero]
    · cases cur.exercise with
      | none => simp
      | some exercise => simp [Tally.weigh_credit]

theorem positive_step {tally : TimeTally} (positive : Tally.Positive tally.perExercise)
    (pair : FileEvent × FileEvent) :
    Tally.Positive (tally.step pair).perExercise := by
  obtain ⟨cur, next⟩ := pair
  simp only [step]
  split
  · exact positive
  · split
    · exact positive
    · next gap =>
        have more : 0 < countedGap cur next :=
          lt_of_le_of_ne (countedGap_nonneg cur next) (Ne.symm gap)
        cases cur.exercise with
        | none => exact positive
        | some exercise => exact Tally.positive_credit positive exercise more

end TimeTally

/-- The report's time on an exercise is the time spent on it. -/
theorem count_timePerFile (rows : List FileEvent) (exercise : Str) :
    Tally.count (timePerFile rows).perExercise exercise = secondsOn exercise rows := by
  have loop := foldl_sum TimeTally.step (fun tally => Tally.count tally.perExercise exercise)
    (spentOn exercise) (TimeTally.count_step exercise) (neighbours rows) .empty
  simpa [timePerFile, secondsOn, TimeTally.empty] using loop

theorem total_timePerFile (rows : List FileEvent) :
    (timePerFile rows).total = secondsInAll rows := by
  have loop := foldl_sum TimeTally.step TimeTally.total spent TimeTally.total_step
    (neighbours rows) .empty
  simpa [timePerFile, secondsInAll, TimeTally.empty] using loop

/-- The total is the sum over the files. -/
theorem weigh_perFile (rows : List FileEvent) :
    Tally.weigh FileTally.seconds (timePerFile rows).perFile = (timePerFile rows).total := by
  have loop := foldl_sum TimeTally.step (fun tally => Tally.weigh FileTally.seconds tally.perFile)
    spent TimeTally.weigh_perFile_step (neighbours rows) .empty
  rw [total_timePerFile]
  simpa [timePerFile, secondsInAll, TimeTally.empty, Tally.weigh] using loop

/-- Time on exercises is part of the total. -/
theorem weigh_perExercise_le (rows : List FileEvent) :
    Tally.weigh id (timePerFile rows).perExercise ≤ (timePerFile rows).total := by
  have loop := foldl_sum TimeTally.step (fun tally => Tally.weigh id tally.perExercise)
    TimeTally.spentOnAny TimeTally.weigh_perExercise_step (neighbours rows) .empty
  have part :
      ((neighbours rows).map TimeTally.spentOnAny).sum ≤ ((neighbours rows).map spent).sum := by
    apply List.sum_le_sum
    intro pair _
    unfold TimeTally.spentOnAny
    split
    · exact spent_nonneg pair
    · exact le_rfl
  have whole : Tally.weigh id (timePerFile rows).perExercise =
      ((neighbours rows).map TimeTally.spentOnAny).sum := by
    simpa [timePerFile, TimeTally.empty, Tally.weigh] using loop
  rw [total_timePerFile, whole]
  exact part

theorem positive_timePerFile (rows : List FileEvent) :
    Tally.Positive (timePerFile rows).perExercise := by
  have loop (pairs : List (FileEvent × FileEvent)) (tally : TimeTally)
      (positive : Tally.Positive tally.perExercise) :
      Tally.Positive (pairs.foldl TimeTally.step tally).perExercise := by
    induction pairs generalizing tally with
    | nil => exact positive
    | cons pair pairs ih => exact ih _ (TimeTally.positive_step positive pair)
  apply loop
  intro key amount found
  cases found

/-! ### Bounds -/

theorem neighbours_cons_cons {Value : Type*} (first second : Value) (rest : List Value) :
    neighbours (first :: second :: rest) = (first, second) :: neighbours (second :: rest) :=
  rfl

theorem secondsOn_cons_cons (exercise : Str) (cur next : FileEvent) (rows : List FileEvent) :
    secondsOn exercise (cur :: next :: rows) =
      spentOn exercise (cur, next) + secondsOn exercise (next :: rows) := by
  rw [secondsOn, neighbours_cons_cons, List.map_cons, List.sum_cons, secondsOn]

theorem secondsInAll_cons_cons (cur next : FileEvent) (rows : List FileEvent) :
    secondsInAll (cur :: next :: rows) = spent (cur, next) + secondsInAll (next :: rows) := by
  rw [secondsInAll, neighbours_cons_cons, List.map_cons, List.sum_cons, secondsInAll]

/-- All time lies between the first event and the last. -/
theorem secondsInAll_le {rows : List FileEvent} (timed : Timed rows) {first last : FileEvent}
    (starts : rows.head? = some first) (ends : rows.getLast? = some last) :
    secondsInAll rows ≤ last.seconds - first.seconds := by
  induction rows generalizing first with
  | nil => cases starts
  | cons cur rows ih =>
      cases starts
      cases rows with
      | nil =>
          cases ends
          simp [secondsInAll, neighbours]
      | cons next rows =>
          have later := ih (List.Pairwise.of_cons timed) rfl ends
          have gap : spent (cur, next) ≤ next.seconds - cur.seconds := by
            have counted := countedGap_le ((List.pairwise_cons.mp timed).1 next List.mem_cons_self)
            have nonneg := countedGap_nonneg cur next
            unfold spent
            split <;> omega
          rw [secondsInAll_cons_cons]
          omega

/-- Every gap counts for no more than the cap. -/
theorem secondsInAll_le_cap (rows : List FileEvent) :
    secondsInAll rows ≤ IDLE_GAP_SECS * (rows.length - 1 : Nat) := by
  have each : ∀ pair ∈ neighbours rows, spent pair ≤ IDLE_GAP_SECS := by
    intro pair _
    unfold spent
    split
    · decide
    · exact countedGap_le_cap _ _
  have bound := List.sum_le_card_nsmul ((neighbours rows).map spent) IDLE_GAP_SECS
    (List.forall_mem_map.mpr each)
  have length : (neighbours rows).length = rows.length - 1 := by
    simp [neighbours]
  rw [List.length_map, length, nsmul_eq_mul, mul_comm] at bound
  exact bound

end Hermione
