import Mathlib.Algebra.Order.Floor.Div
import Mathlib.Data.Rat.Floor
import Hermione.RustStrings
import Hermione.StableSorts

/-!
# Who needs help

What counts as long on an exercise comes from the times of the class on it, by
Tukey's fences.  A student is judged by those, by what their terminal showed and
by whether they type.
-/

namespace Hermione

/-- Fixed time-on-exercise thresholds (seconds), for cohorts too small to say
what "long" means. -/
def WATCH_SECS : Int :=
  10 * 60

def HELP_SECS : Int :=
  25 * 60

/-- Fewest students needed on an exercise before its own distribution is trusted. -/
def MIN_COHORT : Nat :=
  5

/-- However tightly a class clusters, nobody is an outlier before this long. -/
def MIN_WATCH_SECS : Int :=
  5 * 60

def MIN_HELP_SECS : Int :=
  10 * 60

/-- A present student who hasn't typed for this long is more likely stuck. -/
def STALL_SECS : Int :=
  5 * 60

/-- `f64::round`: to the nearest integer, halves away from zero. -/
def roundAway (value : ℚ) : Int :=
  if 0 ≤ value then ⌊value + 1 / 2⌋ else ⌈value - 1 / 2⌉

/-- Linear-interpolated quantile of an ascending, non-empty list, over exact
numbers. -/
def quantile (sorted : List Int) (q : ℚ) : Int :=
  let pos := q * ((sorted.length - 1 : Nat) : ℚ)
  let (lo, hi) := (⌊pos⌋.toNat, ⌈pos⌉.toNat)
  let frac := pos - lo
  let (low, high) := (sorted.getD lo 0, sorted.getD hi 0)
  roundAway (low + (high - low) * frac)

/-- Where "unusually long on this exercise" starts, for one exercise. -/
structure Fences where
  watch : Int
  help : Int
  /-- Students the thresholds were derived from; 0 when they are the fixed ones. -/
  cohort : Nat
  /-- Median time on the exercise across that cohort (seconds). -/
  median : Int
  deriving DecidableEq

namespace Fences

def fixed : Fences :=
  { watch := WATCH_SECS, help := HELP_SECS, cohort := 0, median := 0 }

/-- Outliers of the distribution of time spent on one exercise. -/
def forCohort (times : List Int) : Fences :=
  if times.length < MIN_COHORT then fixed
  else
    let t := times.mergeSort
    let (q1, med, q3) := (quantile t (1 / 4), quantile t (1 / 2), quantile t (3 / 4))
    let iqr := q3 - q1
    { watch := max (max (q3 + (iqr * 3).tdiv 2) ((med * 3).tdiv 2)) MIN_WATCH_SECS
      help := max (max (q3 + iqr * 3) (med * 2)) MIN_HELP_SECS
      cohort := t.length
      median := med }

/-- The fences are those of the times, in whatever order they come. -/
theorem forCohort_perm {times others : List Int} (same : times.Perm others) :
    forCohort times = forCohort others := by
  unfold forCohort
  rw [same.length_eq, StableSorts.mergeSort_eq_of_perm same]

theorem watch_pos (times : List Int) : 0 < (forCohort times).watch := by
  unfold forCohort
  split
  · decide
  · exact lt_of_lt_of_le (by decide) (le_max_right _ _)

theorem help_pos (times : List Int) : 0 < (forCohort times).help := by
  unfold forCohort
  split
  · decide
  · exact lt_of_lt_of_le (by decide) (le_max_right _ _)

end Fences

/-- Per-student error and failure tallies from terminal sessions. -/
structure Signals where
  errors : Int32
  failedRuns : Int32
  deriving DecidableEq

/-- How much the student has been typing. -/
structure EditActivity where
  /-- Document changes reported lately. -/
  recent : Int32
  /-- Seconds since the last reported edit, when that says something. -/
  sinceLastSecs : Option Int
  deriving DecidableEq

def Signals.none : Signals :=
  { errors := 0, failedRuns := 0 }

def EditActivity.none : EditActivity :=
  { recent := 0, sinceLastSecs := .none }

/-- A count that is not positive reaches none of the bounds. -/
theorem few_of_not_pos {count : Int32} (none : ¬ 0 < count) :
    ¬ 1 ≤ count ∧ ¬ 2 ≤ count ∧ ¬ 3 ≤ count := by
  simp only [Int32.le_iff_toInt_le, Int32.lt_iff_toInt_lt] at none ⊢
  have zero : (0 : Int32).toInt = 0 := rfl
  have one : (1 : Int32).toInt = 1 := rfl
  have two : (2 : Int32).toInt = 2 := rfl
  have three : (3 : Int32).toInt = 3 := rfl
  omega

theorem not_pos_of_not_one_le {count : Int32} (none : ¬ 1 ≤ count) : ¬ 0 < count := by
  simp only [Int32.le_iff_toInt_le, Int32.lt_iff_toInt_lt] at none ⊢
  have zero : (0 : Int32).toInt = 0 := rfl
  have one : (1 : Int32).toInt = 1 := rfl
  omega

inductive Level where
  | ok
  | watch
  | help
  deriving DecidableEq, Repr

/-- Combines signals into a struggle level and the reasons for it. -/
def assess (sig : Signals) (secondsOnExercise : Int) (edits : EditActivity) (fences : Fences) :
    Level × List Str :=
  let text (number : Int) : Str := (toString number).toList
  let plural (number : Int32) : Str := if number == 1 then [] else ['s']
  let ofErrors : List Str :=
    if sig.errors > 0 then
      [text sig.errors.toInt ++ " error".toList ++ plural sig.errors ++ " in recent runs".toList]
    else []
  let ofRuns : List Str :=
    if sig.failedRuns > 0 then
      [text sig.failedRuns.toInt ++ " failed run".toList ++ plural sig.failedRuns]
    else []
  let long := secondsOnExercise ≥ fences.watch
  let mins := secondsOnExercise.tdiv 60
  let ofTime : List Str :=
    if long then
      if fences.cohort > 0 then
        [text mins ++ " min, class median ".toList ++ text (fences.median.tdiv 60) ++ " min".toList]
      else [text mins ++ " min on this exercise".toList]
    else []
  let stalled := long ∧ edits.sinceLastSecs.any fun since => since ≥ STALL_SECS
  let ofStall : List Str :=
    match edits.sinceLastSecs with
    | some since =>
        if stalled then ["no edits for ".toList ++ text (since.tdiv 60) ++ " min".toList] else []
    | .none => []
  -- Slow but visibly working: an outlier on the clock, not necessarily stuck.
  let working := edits.recent > 0 ∧ edits.sinceLastSecs.any fun since => since < STALL_SECS
  let help :=
    sig.errors ≥ 3 ∨ sig.failedRuns ≥ 2 ∨ (secondsOnExercise ≥ fences.help ∧ ¬ working) ∨
      (stalled ∧ (sig.errors ≥ 1 ∨ sig.failedRuns ≥ 1))
  let watch := stalled ∨ sig.errors ≥ 1 ∨ sig.failedRuns ≥ 1 ∨ long
  (if help then .help else if watch then .watch else .ok,
    ofErrors ++ ofRuns ++ ofTime ++ ofStall)

end Hermione
