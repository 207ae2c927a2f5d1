import Mathlib.Algebra.Order.Group.Int
import Hermione.Lessons
import Hermione.SplitRuns

/-!
# Lessons are the runs of activity

The times, newest first, fall into runs in which each comes less than the gap after
the next, and a lesson is the stretch from the last time of a run to its first.
-/

namespace Hermione

namespace Recap

open SplitRuns

/-- Close enough for one lesson. -/
def within (gap : Int) (newer older : Int) : Bool :=
  newer - older < gap

/-- From the last time of a run, newest first, to its first. -/
def spanOf (run : List Int) : Span :=
  { fromSecs := run.getLastD 0, toSecs := run.headD 0 }

/-! ### The loop -/

variable {gap : Int} {times : List Int}

/-- The spans are those of the runs. -/
theorem lessons_eq_runs (times : List Int) (gap : Int) :
    lessons times gap = (times.splitBy (within gap)).map spanOf := by
  induction times using List.reverseRecOn with
  | nil => rfl
  | append_singleton times t ih =>
      have step : lessons (times ++ [t]) gap = lessonsStep gap (lessons times gap) t := by
        unfold lessons
        rw [List.foldl_append]
        rfl
      rw [step, ih]
      rcases List.eq_nil_or_concat (times.splitBy (within gap)) with none | ⟨closed, run, runs⟩
      · rw [List.splitBy_eq_nil.mp none]
        rfl
      · rw [List.concat_eq_append] at runs
        have filled : run ≠ [] :=
          List.ne_nil_of_mem_splitBy (runs ▸ List.mem_append_right _ (List.mem_singleton_self run))
        obtain ⟨last, ends⟩ : ∃ last, run.getLast? = some last :=
          ⟨_, List.getLast?_eq_some_getLast filled⟩
        have whole : times.getLast? = some last := by
          rw [← List.flatten_splitBy (within gap) times, runs, List.flatten_append,
            List.getLast?_append, List.flatten_singleton, ends]
          rfl
        have opened : spanOf run = { fromSecs := last, toSecs := run.headD 0 } := by
          unfold spanOf
          rw [List.getLastD_eq_getLast?, ends]
          rfl
        unfold lessonsStep
        rw [runs, List.map_append, List.map_singleton, List.getLast?_concat, List.dropLast_concat]
        dsimp only
        rw [opened]
        dsimp only
        split
        · next close =>
            rw [splitBy_concat_related runs ends (decide_eq_true close), List.map_append,
              List.map_singleton]
            have longer : spanOf (run ++ [t]) = { fromSecs := t, toSecs := run.headD 0 } := by
              unfold spanOf
              rw [List.getLastD_concat, List.headD_eq_head?_getD, List.headD_eq_head?_getD,
                List.head?_append_of_ne_nil _ filled]
            rw [longer]
        · next apart =>
            rw [splitBy_concat_unrelated whole (decide_eq_false apart), runs, List.map_append,
              List.map_append, List.map_singleton, List.map_singleton, opened]
            rfl

/-! ### The partition -/

/-- What the spans of a list of times have to do with it. -/
structure Partition (gap : Int) (times : List Int) (spans : List Span) : Prop where
  /-- Newest first, and no two have a second in common. -/
  disjoint : spans.Pairwise fun newer older => older.toSecs < newer.fromSecs
  once : ∀ t ∈ times, ∃! span, span ∈ spans ∧ span.fromSecs ≤ t ∧ t ≤ span.toSecs
  ends : ∀ span ∈ spans, span.fromSecs ∈ times ∧ span.toSecs ∈ times
  /-- One time and the next, in one span. -/
  close : times.IsChain fun newer older =>
    ∀ span ∈ spans, span.fromSecs ≤ older → newer ≤ span.toSecs → newer - older < gap
  apart : spans.IsChain fun newer older => gap ≤ newer.fromSecs - older.toSecs

/-- A run that is not empty: its newest time, and its oldest. -/
theorem exists_ends {run : List Int} (filled : run ≠ []) :
    ∃ newest oldest, run.head? = some newest ∧ run.getLast? = some oldest ∧
      spanOf run = { fromSecs := oldest, toSecs := newest } := by
  refine ⟨run.head filled, run.getLast filled, List.head?_eq_some_head filled,
    List.getLast?_eq_some_getLast filled, ?_⟩
  unfold spanOf
  rw [List.getLastD_eq_getLast?, List.getLast?_eq_some_getLast filled, List.headD_eq_head?_getD,
    List.head?_eq_some_head filled]
  rfl

/-- Lessons are apart by the gap, and a second is in at most one. -/
theorem pairwise_of_isChain {spans : List Span} (positive : 0 < gap)
    (forwards : ∀ span ∈ spans, span.fromSecs ≤ span.toSecs)
    (apart : spans.IsChain fun newer older => gap ≤ newer.fromSecs - older.toSecs) :
    spans.Pairwise fun newer older => older.toSecs < newer.fromSecs := by
  induction spans with
  | nil => exact List.Pairwise.nil
  | cons span spans ih =>
      have rest := ih (fun other later => forwards other (List.mem_cons_of_mem _ later))
        (List.IsChain.tail apart)
      refine List.pairwise_cons.mpr ⟨?_, rest⟩
      intro other later
      cases spans with
      | nil => cases later
      | cons next spans =>
          have here := (List.isChain_cons_cons.mp apart).1
          have along := forwards next (by simp)
          rcases List.mem_cons.mp later with rfl | later
          · omega
          · have before := (List.pairwise_cons.mp rest).1 other later
            omega

/-! ### The spans of the runs -/

theorem spanOf_mem_lessons {run : List Int} (member : run ∈ times.splitBy (within gap)) :
    spanOf run ∈ lessons times gap := by
  rw [lessons_eq_runs]
  exact List.mem_map_of_mem member

theorem exists_run {span : Span} (member : span ∈ lessons times gap) :
    ∃ run ∈ times.splitBy (within gap), run ≠ [] ∧ spanOf run = span := by
  rw [lessons_eq_runs] at member
  obtain ⟨run, listed, own⟩ := List.mem_map.mp member
  exact ⟨run, listed, List.ne_nil_of_mem_splitBy listed, own⟩

/-- Every time of a run is between its ends. -/
theorem spanOf_bounds (descending : times.Pairwise (· ≥ ·)) {run : List Int}
    (member : run ∈ times.splitBy (within gap)) {t : Int} (inside : t ∈ run) :
    (spanOf run).fromSecs ≤ t ∧ t ≤ (spanOf run).toSecs := by
  have sorted : run.Pairwise (· ≥ ·) := by
    rw [← List.flatten_splitBy (within gap) times, List.pairwise_flatten] at descending
    exact descending.1 run member
  obtain ⟨newest, oldest, first, last, span⟩ := exists_ends (List.ne_nil_of_mem_splitBy member)
  rw [span]
  constructor
  · obtain ⟨front, rfl⟩ := List.getLast?_eq_some_iff.mp last
    rcases List.mem_append.mp inside with before | here
    · exact (List.pairwise_append.mp sorted).2.2 t before oldest (List.mem_singleton_self _)
    · exact (List.mem_singleton.mp here).ge
  · cases run with
    | nil => cases inside
    | cons top rest =>
        cases first
        rcases List.mem_cons.mp inside with rfl | later
        · exact Int.le_refl _
        · exact (List.pairwise_cons.mp sorted).1 t later

/-- A lesson begins and ends at some time. -/
theorem ends_mem_of_mem_lessons {span : Span} (member : span ∈ lessons times gap) :
    span.fromSecs ∈ times ∧ span.toSecs ∈ times := by
  obtain ⟨run, listed, filled, rfl⟩ := exists_run member
  have part : ∀ t ∈ run, t ∈ times := by
    intro t inside
    rw [← List.flatten_splitBy (within gap) times]
    exact List.mem_flatten.mpr ⟨run, listed, inside⟩
  obtain ⟨newest, oldest, first, last, span⟩ := exists_ends filled
  rw [span]
  exact ⟨part oldest (List.mem_of_getLast? last), part newest (List.mem_of_head? first)⟩

theorem forwards_of_mem_lessons (descending : times.Pairwise (· ≥ ·)) {span : Span}
    (member : span ∈ lessons times gap) : span.fromSecs ≤ span.toSecs := by
  obtain ⟨run, listed, filled, rfl⟩ := exists_run member
  obtain ⟨newest, _, first, _, _⟩ := exists_ends filled
  have bounds := spanOf_bounds descending listed (List.mem_of_head? first)
  exact bounds.1.trans bounds.2

theorem lessons_apart (times : List Int) (gap : Int) :
    (lessons times gap).IsChain fun newer older => gap ≤ newer.fromSecs - older.toSecs := by
  rw [lessons_eq_runs, List.isChain_map]
  apply (List.isChain_getLast_head_splitBy (within gap) times).imp
  rintro newer older ⟨filledNewer, filledOlder, far⟩
  obtain ⟨_, oldest, _, last, span⟩ := exists_ends filledNewer
  obtain ⟨newest, _, first, _, span'⟩ := exists_ends filledOlder
  rw [List.getLast?_eq_some_getLast filledNewer, Option.some.injEq] at last
  rw [List.head?_eq_some_head filledOlder, Option.some.injEq] at first
  rw [last, first] at far
  rw [span, span']
  exact not_lt.mp (of_decide_eq_false far)

section Gap

variable (descending : times.Pairwise (· ≥ ·)) (positive : 0 < gap)
include descending positive

theorem lessons_disjoint :
    (lessons times gap).Pairwise fun newer older => older.toSecs < newer.fromSecs :=
  pairwise_of_isChain positive (fun _ => forwards_of_mem_lessons descending)
    (lessons_apart times gap)

/-- So a time is in one span alone. -/
theorem eq_of_mem_lessons {one other : Span} (member : one ∈ lessons times gap)
    (member' : other ∈ lessons times gap) {t : Int} (above : one.fromSecs ≤ t)
    (below : t ≤ one.toSecs) (above' : other.fromSecs ≤ t) (below' : t ≤ other.toSecs) :
    one = other := by
  have disjoint := lessons_disjoint descending positive
  have all : ∀ one ∈ lessons times gap, ∀ other ∈ lessons times gap, ∀ t,
      one.fromSecs ≤ t → t ≤ one.toSecs → other.fromSecs ≤ t → t ≤ other.toSecs → one = other := by
    intro one member other member'
    apply List.Pairwise.forall_of_forall_of_flip _ _ _ member member'
    · exact fun _ _ _ _ _ _ _ => rfl
    · exact disjoint.imp fun before t above _ _ below => by omega
    · exact disjoint.imp fun before t _ below above _ => by omega
  exact all one member other member' t above below above' below'

/-- One time and the next are close, if they are in one span. -/
theorem lessons_close :
    times.IsChain fun newer older => ∀ span ∈ lessons times gap,
      span.fromSecs ≤ older → newer ≤ span.toSecs → newer - older < gap := by
  have close : (times.splitBy (within gap)).flatten.IsChain fun newer older =>
      ∀ span ∈ lessons times gap, span.fromSecs ≤ older → newer ≤ span.toSecs →
        newer - older < gap := by
    rw [List.isChain_flatten (List.nil_notMem_splitBy _ _)]
    constructor
    · intro run member
      apply (List.isChain_of_mem_splitBy member).imp
      intro newer older close _ _ _ _
      exact of_decide_eq_true close
    · apply (List.isChain_getLast_head_splitBy (within gap) times).imp_of_mem_imp
      rintro run next member member' ⟨filledRun, filledNext, far⟩ newer last older first span among
        above below
      rw [List.getLast?_eq_some_getLast filledRun] at last
      rw [List.head?_eq_some_head filledNext] at first
      cases last
      cases first
      have far := not_lt.mp (of_decide_eq_false far)
      -- A span that reached over the gap would be that of the older run.
      have here := spanOf_bounds descending member' (List.head_mem filledNext)
      have same := eq_of_mem_lessons descending positive among (spanOf_mem_lessons member') above
        (by omega) here.1 here.2
      obtain ⟨newest, _, firstNext, _, spanNext⟩ := exists_ends filledNext
      rw [List.head?_eq_some_head filledNext, Option.some.injEq] at firstNext
      rw [same, spanNext] at below
      dsimp only at below
      omega
  rwa [List.flatten_splitBy] at close

end Gap

/-- The lessons are a partition of the times. -/
theorem lessons_partition (times : List Int) (gap : Int) (descending : times.Pairwise (· ≥ ·))
    (positive : 0 < gap) : Partition gap times (lessons times gap) where
  disjoint := lessons_disjoint descending positive
  once := by
    intro t member
    rw [← List.flatten_splitBy (within gap) times] at member
    obtain ⟨run, among, inside⟩ := List.mem_flatten.mp member
    obtain ⟨above, below⟩ := spanOf_bounds descending among inside
    refine ⟨spanOf run, ⟨spanOf_mem_lessons among, above, below⟩, ?_⟩
    rintro other ⟨member', above', below'⟩
    exact eq_of_mem_lessons descending positive member' (spanOf_mem_lessons among) above' below'
      above below
  ends _ := ends_mem_of_mem_lessons
  close := lessons_close descending positive
  apart := lessons_apart times gap

/-- An exercise class with a break, and two files opened in one second. -/
theorem lessons_partition_break :
    Partition 1800 [7200, 7200, 5700, 3900] (lessons [7200, 7200, 5700, 3900] 1800) :=
  lessons_partition _ 1800 (by decide) (by decide)

end Recap

end Hermione
