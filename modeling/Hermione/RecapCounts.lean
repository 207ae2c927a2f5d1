import Mathlib.Data.Set.Card
import Hermione.RecapSettled
import Hermione.StruggleFences

/-!
# What a recap counts

The counts of an exercise, its times and the list to follow up with come from
different passes, but all from the judgements on the same stints.
-/

namespace Hermione

namespace Recap

variable {events : List Ev} {trouble : List Trouble} {exercises : List ExerciseInfo}
  {visits : Visits}

/-! ### What a recap is to say -/

section Statements

variable (events trouble exercises visits)

/-- The students with time on the exercise of this slug. -/
def onExercise (slug : Str) : Set Str :=
  {student | ∃ number, (numbers events exercises).lookup slug = some number ∧
    (timeOn events exercises student number).isSome}

/-- All who were judged to be watched, as they would be listed. -/
def allToWatch : List FollowUp :=
  ((judgements events trouble exercises visits).filter fun judgement =>
    judgement.level = .watch).map (Judgement.followUp (exerciseOrder events exercises))

/-- By time spent, then by name. -/
def longestFirst (entry : FollowUp) : Intᵒᵈ ×ₗ Str :=
  toLex (OrderDual.toDual entry.seconds, entry.student)

/-- The counts of an exercise agree with each other and with the list. -/
structure CountsAgree (listed : ExerciseRecap) (followUp : List FollowUp) : Prop where
  students : listed.students = (onExercise events exercises listed.exercise).ncard
  neededHelp : listed.neededHelp =
    followUp.countP fun entry => entry.level = .help ∧ entry.exercise = listed.exercise
  judged : listed.neededHelp + listed.toWatch ≤ listed.students
  movedOn : listed.movedOn ≤ listed.students
  median : listed.medianSeconds ≤ listed.longestSeconds

/-- A recap does not contradict itself. -/
structure Consistent (recap : LessonRecap) : Prop where
  counts : ∀ listed ∈ recap.exercises, CountsAgree events exercises listed recap.followUp
  helped : ∀ judgement ∈ judgements events trouble exercises visits, judgement.level = .help →
    judgement.followUp (exerciseOrder events exercises) ∈ recap.followUp
  watched : (recap.followUp.filter fun entry => entry.level = .watch) =
    (StableSorts.sortBy longestFirst (allToWatch events trouble exercises visits)).take 10
  ordered : recap.followUp.Pairwise fun first second =>
    (first.level = .help ∧ second.level = .watch) ∨ (first.level = second.level ∧
      (second.seconds < first.seconds ∨
        (first.seconds = second.seconds ∧ first.student ≤ second.student)))

end Statements

/-! ### The exercises -/

/-- An exercise that is listed has a number, and stints on it. -/
theorem exists_number (complete : visits.Complete events exercises) {listed : ExerciseRecap}
    (among : listed ∈ exerciseRecaps events trouble exercises visits) :
    ∃ number, (numbers events exercises).lookup listed.exercise = some number ∧
      ((exerciseOrder events exercises).getD number ([], [])).1 = listed.exercise ∧
      listed = exerciseRecap (judgements events trouble exercises visits)
        (fun student => (perStudent (numbers events exercises) events student).bind
          PerStudent.lastExercise)
        (timesOn (numbers events exercises) events visits number) number
        (listed.exercise, listed.title) := by
  obtain ⟨made, some⟩ := List.mem_filter.mp among
  obtain ⟨⟨entry, number⟩, stands, rfl⟩ := List.mem_map.mp made
  have slug : ((exerciseOrder events exercises).getD number ([], [])).1 = entry.1 := by
    rw [List.getD_eq_getElem?_getD, List.mk_mem_zipIdx_iff_getElem?.mp stands, Option.getD_some]
  have busy := of_decide_eq_true some
  rw [students_exerciseRecap complete, List.countP_pos_iff] at busy
  obtain ⟨stint, member, here⟩ := busy
  have found := lookup_slug member
  rw [of_decide_eq_true here, slug] at found
  exact ⟨number, found, slug, rfl⟩

/-- Stints on one exercise are of different students. -/
theorem countP_allStints (number : Nat) :
    ((allStints events exercises).countP fun stint => stint.exercise = number) =
      {student | (timeOn events exercises student number).isSome}.ncard := by
  have nodup : (((allStints events exercises).filter fun stint =>
      stint.exercise = number).map Stint.student).Nodup := by
    apply List.Nodup.map_on
    · intro first one second two same
      obtain ⟨one, here⟩ := List.mem_filter.mp one
      obtain ⟨two, there⟩ := List.mem_filter.mp two
      exact eq_of_mem_stints (mem_allStints.mp one) (mem_allStints.mp two) same
        ((of_decide_eq_true here).trans (of_decide_eq_true there).symm)
    · exact (nodup_stints (complete_ofKeys events exercises)).filter _
  have same : {student | (timeOn events exercises student number).isSome} =
      ((((allStints events exercises).filter fun stint =>
        stint.exercise = number).map Stint.student).toFinset : Set Str) := by
    ext student
    rw [List.coe_toFinset, Set.mem_ofPred_eq, Set.mem_ofPred_eq, Option.isSome_iff_exists,
      List.mem_map]
    constructor
    · rintro ⟨seconds, found⟩
      exact ⟨⟨student, number, seconds⟩,
        List.mem_filter.mpr ⟨mem_allStints.mpr found, decide_eq_true rfl⟩, rfl⟩
    · rintro ⟨stint, member, rfl⟩
      obtain ⟨member, here⟩ := List.mem_filter.mp member
      exact ⟨_, of_decide_eq_true here ▸ mem_allStints.mp member⟩
  rw [same, Set.ncard_coe_finset, List.toFinset_card_of_nodup nodup, List.length_map,
    List.countP_eq_length_filter]

/-- The times that the median is taken of are those of the stints. -/
theorem mem_timesOn (complete : visits.Complete events exercises) {number : Nat} {time : Int}
    (listed : time ∈ timesOn (numbers events exercises) events visits number) :
    ∃ stint ∈ stints events exercises visits, stint.exercise = number ∧ stint.seconds = time := by
  obtain ⟨student, -, found⟩ := List.mem_filterMap.mp listed
  exact ⟨⟨student, number, time⟩, (mem_stints complete).mpr found, rfl, rfl⟩

theorem le_foldl_max (judgements : List Judgement) (most : Int) :
    most ≤ judgements.foldl (fun longest judgement => max longest judgement.seconds) most := by
  induction judgements generalizing most with
  | nil => exact le_refl most
  | cons first judgements ih => exact (le_max_left _ _).trans (ih _)

theorem seconds_le_foldl_max {judgements : List Judgement} {most : Int} {judgement : Judgement}
    (listed : judgement ∈ judgements) :
    judgement.seconds ≤
      judgements.foldl (fun longest judgement => max longest judgement.seconds) most := by
  induction judgements generalizing most with
  | nil => cases listed
  | cons first judgements ih =>
      rcases List.mem_cons.mp listed with rfl | later
      · exact (le_max_right _ _).trans (le_foldl_max judgements _)
      · exact ih later

/-- No quantile of times is above all of them. -/
theorem quantile_mergeSort_le {times : List Int} {bound : Int} (some : times ≠ [])
    (nonneg : ∀ time ∈ times, 0 ≤ time) (most : ∀ time ∈ times, time ≤ bound) {q : ℚ}
    (positive : 0 ≤ q) (proper : q ≤ 1) : quantile times.mergeSort q ≤ bound := by
  have ascending : times.mergeSort.Pairwise (· ≤ ·) := List.pairwise_mergeSort' (· ≤ ·) times
  have same : times.mergeSort.Perm times := times.mergeSort_perm _
  exact quantile_le ascending (fun time listed => nonneg time (same.mem_iff.mp listed))
    (by rwa [ne_eq, ← List.length_eq_zero_iff, List.length_mergeSort, List.length_eq_zero_iff])
    (fun time listed => most time (same.mem_iff.mp listed)) positive proper

theorem median_le_longest (complete : visits.Complete events exercises)
    (last : Str → Option Nat) (number : Nat) (entry : Str × Str) :
    (exerciseRecap (judgements events trouble exercises visits) last
        (timesOn (numbers events exercises) events visits number) number entry).medianSeconds ≤
      (exerciseRecap (judgements events trouble exercises visits) last
        (timesOn (numbers events exercises) events visits number) number entry).longestSeconds := by
  have bounded : ∀ time ∈ timesOn (numbers events exercises) events visits number, 0 ≤ time ∧
      time ≤ (exerciseRecap (judgements events trouble exercises visits) last
        (timesOn (numbers events exercises) events visits number) number entry).longestSeconds := by
    intro time listed
    obtain ⟨stint, member, here, rfl⟩ := mem_timesOn complete listed
    constructor
    · obtain ⟨per, -, spent⟩ := Option.bind_eq_some_iff.mp ((mem_stints complete).mp member)
      exact (of_decide_eq_true (Option.filter_eq_some_iff.mp spent).2).le
    · have judgement : judged events trouble exercises visits stint ∈
          (judgements events trouble exercises visits).filter fun judgement =>
            judgement.exercise = number := by
        rw [judgements_eq complete]
        exact List.mem_filter.mpr ⟨List.mem_map_of_mem member, decide_eq_true here⟩
      exact seconds_le_foldl_max judgement
  generalize times : timesOn (numbers events exercises) events visits number = list at bounded ⊢
  cases list with
  | nil => exact le_foldl_max _ 0
  | cons time rest =>
      exact quantile_mergeSort_le (List.cons_ne_nil _ _)
        (fun other listed => (bounded other listed).1)
        (fun other listed => (bounded other listed).2) (by norm_num) (by norm_num)

/-- Whoever needed help and whoever is to be watched are different judgements. -/
theorem neededHelp_add_toWatch_le (judgements : List Judgement) (last : Str → Option Nat)
    (times : List Int) (number : Nat) (entry : Str × Str) :
    (exerciseRecap judgements last times number entry).neededHelp +
        (exerciseRecap judgements last times number entry).toWatch ≤
      (exerciseRecap judgements last times number entry).students := by
  unfold exerciseRecap
  dsimp only
  generalize (judgements.filter fun judgement => judgement.exercise = number) = here
  induction here with
  | nil => exact le_refl _
  | cons judgement here ih =>
      rw [List.countP_cons, List.countP_cons, List.length_cons]
      cases judgement.level <;> simp only [decide_true, decide_false, if_true, if_false,
        reduceCtorEq, Bool.false_eq_true] <;> omega

/-! ### The list -/

theorem ne_ok_of_mem_sorted {entry : FollowUp}
    (among : entry ∈
      StableSorts.sortBy FollowUp.rank (entries events trouble exercises visits)) :
    entry.level ≠ .ok := by
  obtain ⟨stint, member, rfl⟩ :=
    List.mem_map.mp ((StableSorts.sortBy_perm _ _).mem_iff.mp among)
  exact of_decide_eq_true (List.mem_filter.mp member).2

/-- The entries of a level are the judgements of it. -/
theorem filter_entries_level (complete : visits.Complete events exercises) {level : Level}
    (trouble : List Trouble) (listed : level ≠ .ok) :
    ((entries events trouble exercises visits).filter fun entry => entry.level = level) =
      ((judgements events trouble exercises visits).filter fun judgement =>
        judgement.level = level).map (Judgement.followUp (exerciseOrder events exercises)) := by
  unfold entries
  rw [judgements_eq complete, List.filter_map, List.filter_filter, List.filter_map, List.map_map]
  congr 1
  apply List.filter_congr
  intro stint _
  simp only [Function.comp, Judgement.followUp]
  by_cases same : (judged events trouble exercises visits stint).level = level
  · simp [same, listed]
  · simp [same]

theorem filter_ne_help (complete : visits.Complete events exercises) (trouble : List Trouble) :
    ((StableSorts.sortBy FollowUp.rank (entries events trouble exercises visits)).filter
        fun entry => entry.level ≠ .help) =
      StableSorts.sortBy longestFirst (allToWatch events trouble exercises visits) := by
  have watched : ((StableSorts.sortBy FollowUp.rank
      (entries events trouble exercises visits)).filter fun entry => entry.level ≠ .help) =
      (StableSorts.sortBy FollowUp.rank (entries events trouble exercises visits)).filter
        fun entry => entry.level = .watch := by
    apply List.filter_congr
    intro entry among
    have listed := ne_ok_of_mem_sorted among
    cases level : entry.level
    · exact absurd level listed
    · rfl
    · rfl
  rw [watched, StableSorts.filter_sortBy_comm,
    filter_entries_level complete trouble (by decide : Level.watch ≠ .ok)]
  apply StableSorts.sortBy_congr
  intro first one second two
  have level {entry : FollowUp} (among : entry ∈ allToWatch events trouble exercises visits) :
      entry.level = .watch := by
    obtain ⟨judgement, member, rfl⟩ := List.mem_map.mp among
    exact of_decide_eq_true (List.mem_filter.mp member).2
  unfold FollowUp.rank longestFirst
  rw [rankOf_le_rankOf_iff, level one, level two, Prod.Lex.toLex_le_toLex]
  simp

theorem countP_help_followUp (complete : visits.Complete events exercises) (slug : Str) :
    ((followUp events trouble exercises visits).countP fun entry =>
        entry.level = .help ∧ entry.exercise = slug) =
      (judgements events trouble exercises visits).countP fun judgement =>
        judgement.level = .help ∧
          ((exerciseOrder events exercises).getD judgement.exercise ([], [])).1 = slug := by
  have waits : ((((StableSorts.sortBy FollowUp.rank
      (entries events trouble exercises visits)).filter fun entry =>
        entry.level ≠ .help).take MAX_WATCH_LISTED).countP fun entry =>
          entry.level = .help ∧ entry.exercise = slug) = 0 := by
    rw [List.countP_eq_zero]
    intro entry among helped
    have other := (List.mem_filter.mp (List.mem_of_mem_take among)).2
    exact of_decide_eq_true other (of_decide_eq_true helped).1
  rw [followUp_eq_append complete, List.countP_append, waits, Nat.add_zero,
    StableSorts.filter_sortBy_comm, (StableSorts.sortBy_perm _ _).countP_eq,
    filter_entries_level complete trouble (by decide : Level.help ≠ .ok), List.countP_map,
    List.countP_filter]
  apply List.countP_congr
  intro judgement _
  simp [Function.comp, Judgement.followUp, and_comm]

theorem neededHelp_eq (complete : visits.Complete events exercises) {number : Nat} {slug : Str}
    (found : (numbers events exercises).lookup slug = some number)
    (named : ((exerciseOrder events exercises).getD number ([], [])).1 = slug)
    (last : Str → Option Nat) (times : List Int) (entry : Str × Str) :
    (exerciseRecap (judgements events trouble exercises visits) last times number
        entry).neededHelp =
      (followUp events trouble exercises visits).countP fun entry =>
        entry.level = .help ∧ entry.exercise = slug := by
  rw [countP_help_followUp complete]
  unfold exerciseRecap
  dsimp only
  rw [List.countP_filter]
  apply List.countP_congr
  intro judgement listed
  rw [judgements_eq complete] at listed
  obtain ⟨stint, member, rfl⟩ := List.mem_map.mp listed
  have own := lookup_slug ((mem_stints_iff complete).mp member)
  have here : stint.exercise = number ↔
      ((exerciseOrder events exercises).getD stint.exercise ([], [])).1 = slug := by
    constructor
    · rintro rfl
      exact named
    · intro same
      rw [same, found] at own
      exact (Option.some.inj own).symm
  have exercise : (judged events trouble exercises visits stint).exercise = stint.exercise := rfl
  rw [exercise, Bool.and_eq_true, decide_eq_true_eq, decide_eq_true_eq, decide_eq_true_eq, here]

theorem countsAgree (complete : visits.Complete events exercises) {listed : ExerciseRecap}
    (among : listed ∈ exerciseRecaps events trouble exercises visits) :
    CountsAgree events exercises listed (followUp events trouble exercises visits) := by
  obtain ⟨number, found, named, made⟩ := exists_number complete among
  constructor
  · have there : onExercise events exercises listed.exercise =
        {student | (timeOn events exercises student number).isSome} := by
      ext student
      simp [onExercise, found]
    rw [there, ← countP_allStints, ← students_exerciseRecap complete, ← made]
  · rw [made]
    exact neededHelp_eq complete found named _ _ _
  · rw [made]
    exact neededHelp_add_toWatch_le _ _ _ _ _
  · rw [made]
    exact List.countP_le_length
  · rw [made]
    exact median_le_longest complete _ _ _

theorem build_consistent (window : Span) (events : List Ev) (trouble : List Trouble)
    (sent : List Sent) (exercises : List ExerciseInfo) (visits : Visits)
    (complete : visits.Complete events exercises) :
    Consistent events trouble exercises visits
      (build window events trouble sent exercises visits) := by
  constructor
  · intro listed among
    exact countsAgree complete among
  · intro judgement listed helped
    have entry : judgement.followUp (exerciseOrder events exercises) ∈
        (entries events trouble exercises visits).filter fun entry => entry.level = .help := by
      rw [filter_entries_level complete trouble (by decide)]
      exact List.mem_map_of_mem (List.mem_filter.mpr ⟨listed, decide_eq_true helped⟩)
    change _ ∈ followUp events trouble exercises visits
    rw [followUp_eq_append complete, StableSorts.filter_sortBy_comm]
    exact List.mem_append_left _ ((StableSorts.sortBy_perm _ _).mem_iff.mpr entry)
  · change ((followUp events trouble exercises visits).filter fun entry =>
      entry.level = .watch) = _
    rw [followUp_eq_append complete, List.filter_append]
    have helps : (((StableSorts.sortBy FollowUp.rank
        (entries events trouble exercises visits)).filter fun entry =>
          entry.level = .help).filter fun entry => entry.level = .watch) = [] := by
      rw [List.filter_eq_nil_iff]
      intro entry among watched
      have helped := of_decide_eq_true (List.mem_filter.mp among).2
      rw [helped] at watched
      exact absurd watched (by decide)
    rw [helps, List.nil_append, filter_ne_help complete trouble]
    apply List.filter_eq_self.mpr
    intro entry among
    have member := (StableSorts.sortBy_perm _ _).mem_iff.mp (List.mem_of_mem_take among)
    obtain ⟨judgement, listed, rfl⟩ := List.mem_map.mp member
    exact (List.mem_filter.mp listed).2
  · change (followUp events trouble exercises visits).Pairwise _
    rw [followUp_eq_take complete]
    apply List.Pairwise.sublist (List.take_sublist _ _)
    apply (StableSorts.pairwise_sortBy FollowUp.rank _).imp_of_mem
    intro first second one two before
    have listed := ne_ok_of_mem_sorted one
    have listed' := ne_ok_of_mem_sorted two
    have order := rankOf_le_rankOf_iff.mp before
    cases level : first.level <;> cases level' : second.level <;> simp_all

/-- Whichever of the two exercises the trouble is held against. -/
theorem build_consistent_halves :
    Consistent halves threeErrors bothExercises (.ofKeys halves bothExercises)
      (build ⟨0, 120⟩ halves threeErrors [] bothExercises (.ofKeys halves bothExercises)) :=
  build_consistent ⟨0, 120⟩ halves threeErrors [] bothExercises _
    (complete_ofKeys halves bothExercises)

end Recap

end Hermione
