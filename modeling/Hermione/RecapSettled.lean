import Hermione.RecapRanks

/-!
# When a recap is a function of the lesson

The maps a recap is made from are visited in orders of their own.  Two stints of one
student that took equally long are told apart by nothing else, so the order decides
against which of them the student's trouble is held, and which of them is listed
first.  It makes no difference exactly if neither can be seen in the recap.
-/

namespace Hermione

/-! ### What trouble adds -/

/-- Without any trouble the counts are not looked at. -/
theorem assess_of_not_some {sig : Signals} (quiet : ¬ sig.Some) (seconds : Int)
    (edits : EditActivity) (fences : Fences) :
    assess sig seconds edits fences = assess .none seconds edits fences := by
  unfold Signals.Some at quiet
  have few {count : Int32} (none : ¬ 1 ≤ count) : ¬ 3 ≤ count ∧ ¬ 2 ≤ count ∧ ¬ 0 < count :=
    have low := few_of_not_pos (not_pos_of_not_one_le none)
    ⟨low.2.2, low.2.1, not_pos_of_not_one_le none⟩
  have errors := few (not_or.mp quiet).1
  have runs := few (not_or.mp quiet).2
  have noErrors := few (not_or.mp not_some_none).1
  have noRuns := few (not_or.mp not_some_none).2
  unfold assess
  simp only [ge_iff_le, gt_iff_lt, errors, runs, noErrors, noRuns, (not_or.mp quiet).1,
    (not_or.mp quiet).2, (not_or.mp not_some_none).1,
    (not_or.mp not_some_none).2, if_false]

/-- Any trouble is among the reasons. -/
theorem reasons_ne_of_some {sig : Signals} (some : sig.Some) (seconds : Int)
    (edits : EditActivity) (fences : Fences) :
    (assess sig seconds edits fences).2 ≠ (assess .none seconds edits fences).2 := by
  intro same
  unfold assess at same
  dsimp only at same
  rw [List.append_cancel_right_eq, List.append_cancel_right_eq] at same
  have more : ∀ {count : Int32}, 1 ≤ count → count > 0 := by
    intro count one
    simp only [gt_iff_lt, Int32.le_iff_toInt_le, Int32.lt_iff_toInt_lt] at one ⊢
    have one : (1 : Int32).toInt = 1 := rfl
    have zero : (0 : Int32).toInt = 0 := rfl
    omega
  have none : ¬ Signals.none.errors > 0 ∧ ¬ Signals.none.failedRuns > 0 := by decide
  rw [if_neg none.1, if_neg none.2] at same
  obtain ⟨noErrors, noRuns⟩ := List.append_eq_nil_iff.mp same
  rcases some with errors | runs
  · rw [if_pos (more errors)] at noErrors
    cases noErrors
  · rw [if_pos (more runs)] at noRuns
    cases noRuns

namespace Recap

/-! ### The condition -/

section Statements

variable (events : List Ev) (trouble : List Trouble) (exercises : List ExerciseInfo)

/-- All stints of a lesson. -/
def allStints : List Stint :=
  stints events exercises (.ofKeys events exercises)

/-- No stint of the student is longer. -/
def IsLongest (stint : Stint) : Prop :=
  ∀ other ∈ allStints events exercises, other.student = stint.student →
    other.seconds ≤ stint.seconds

instance (stint : Stint) : Decidable (IsLongest events exercises stint) :=
  inferInstanceAs (Decidable (∀ other ∈ allStints events exercises, _))

/-- The level of a stint, if a student's trouble counts on all their longest. -/
def levelOf (stint : Stint) : Level :=
  (verdict events exercises
    (if IsLongest events exercises stint then troubled trouble stint.student else .none) stint).1

/-- The stints to watch that are listed before this one. -/
def ahead (stint : Stint) : Nat :=
  (allStints events exercises).countP fun other =>
    levelOf events trouble exercises other = .watch ∧
      (stint.seconds < other.seconds ∨
        (other.seconds = stint.seconds ∧ other.student < stint.student))

/-- Two stints of a student that took equally long. -/
structure Tied (first second : Stint) : Prop where
  one : first ∈ allStints events exercises
  two : second ∈ allStints events exercises
  student : first.student = second.student
  seconds : first.seconds = second.seconds
  exercise : first.exercise ≠ second.exercise

/-- Where a student has trouble, and spent most time on several exercises, those are
to watch, whether the trouble is held against them or not. -/
def ChargedAlike : Prop :=
  ∀ first second, Tied events exercises first second → IsLongest events exercises first →
    (troubled trouble first.student).Some →
      (verdict events exercises .none first).1 = .watch ∧
        (verdict events exercises (troubled trouble first.student) first).1 = .watch

/-- Of the stints that are listed, no two of a student took equally long and have the
same level. -/
def ListedApart : Prop :=
  ∀ first second, Tied events exercises first second →
    levelOf events trouble exercises first = levelOf events trouble exercises second →
      levelOf events trouble exercises first = .ok ∨
        (levelOf events trouble exercises first = .watch ∧
          MAX_WATCH_LISTED ≤ ahead events trouble exercises first)

end Statements

variable {events : List Ev} {trouble : List Trouble} {exercises : List ExerciseInfo}
  {visits others : Visits}

theorem mem_allStints {stint : Stint} :
    stint ∈ allStints events exercises ↔
      timeOn events exercises stint.student stint.exercise = some stint.seconds :=
  mem_stints (complete_ofKeys events exercises)

theorem mem_stints_iff (complete : visits.Complete events exercises) {stint : Stint} :
    stint ∈ stints events exercises visits ↔ stint ∈ allStints events exercises := by
  rw [mem_stints complete, mem_allStints]

theorem Tied.symm {first second : Stint} (tied : Tied events exercises first second) :
    Tied events exercises second first :=
  ⟨tied.two, tied.one, tied.student.symm, tied.seconds.symm, tied.exercise.symm⟩

theorem Tied.isLongest {first second : Stint} (tied : Tied events exercises first second)
    (longest : IsLongest events exercises first) : IsLongest events exercises second := by
  intro other member about
  rw [← tied.seconds]
  exact longest other member (about.trans tied.student.symm)

/-- Stints of one student that took equally long are one or are tied. -/
theorem eq_or_tied {first second : Stint} (one : first ∈ allStints events exercises)
    (two : second ∈ allStints events exercises) (student : first.student = second.student)
    (seconds : first.seconds = second.seconds) :
    first = second ∨ Tied events exercises first second := by
  by_cases exercise : first.exercise = second.exercise
  · exact .inl (eq_of_mem_stints (mem_allStints.mp one) (mem_allStints.mp two) student exercise)
  · exact .inr ⟨one, two, student, seconds, exercise⟩

/-! ### What the order decides -/

section Complete

variable (complete : visits.Complete events exercises) {stint : Stint}
  (member : stint ∈ allStints events exercises)

include complete member

/-- A student's trouble is held against a longest stint. -/
theorem exists_charged :
    ∃ top ∈ allStints events exercises, top.student = stint.student ∧
      topOf events exercises visits stint.student = some top.exercise ∧
      IsLongest events exercises top := by
  obtain ⟨top, listed, about, charged, most⟩ :=
    exists_top complete ((mem_stints_iff complete).mpr member)
  refine ⟨top, (mem_stints_iff complete).mp listed, about, charged, ?_⟩
  intro other among same
  exact most other ((mem_stints_iff complete).mpr among) (same.trans about)

theorem isLongest_of_topOf
    (charged : some stint.exercise = topOf events exercises visits stint.student) :
    IsLongest events exercises stint := by
  obtain ⟨top, listed, about, found, longest⟩ := exists_charged complete member
  have same : stint = top :=
    eq_of_mem_stints (mem_allStints.mp member) (mem_allStints.mp listed) about.symm
      (Option.some.inj (charged.trans found))
  exact same ▸ longest

/-- A longest stint that the trouble is not held against is tied with another. -/
theorem exists_tied_of_not_topOf (longest : IsLongest events exercises stint)
    (other : some stint.exercise ≠ topOf events exercises visits stint.student) :
    ∃ top, Tied events exercises stint top := by
  obtain ⟨top, listed, about, found, most⟩ := exists_charged complete member
  have equal : stint.seconds = top.seconds :=
    le_antisymm (most stint member about.symm) (longest top listed about)
  rcases eq_or_tied member listed about.symm equal with rfl | tied
  · exact absurd found.symm other
  · exact ⟨top, tied⟩

/-- Where nothing hinges on what the trouble is held against, the level is the same
for every order. -/
theorem level_judged (alike : ChargedAlike events trouble exercises) :
    (judged events trouble exercises visits stint).level =
      levelOf events trouble exercises stint := by
  change (verdict events exercises (heldAgainst events trouble exercises visits stint) stint).1 = _
  unfold levelOf heldAgainst
  by_cases charged : some stint.exercise = topOf events exercises visits stint.student
  · rw [if_pos charged, if_pos (isLongest_of_topOf complete member charged)]
  · rw [if_neg charged]
    by_cases longest : IsLongest events exercises stint
    · rw [if_pos longest]
      by_cases any : (troubled trouble stint.student).Some
      · obtain ⟨top, tied⟩ := exists_tied_of_not_topOf complete member longest charged
        obtain ⟨bare, held⟩ := alike stint top tied longest any
        rw [bare, held]
      · rw [verdict, verdict, assess_of_not_some any]
    · rw [if_neg longest]

/-- A stint that is tied with none of its level is judged the same for every order. -/
theorem judged_eq (alike : ChargedAlike events trouble exercises)
    (complete' : others.Complete events exercises)
    (alone : ∀ other, Tied events exercises stint other →
      levelOf events trouble exercises stint ≠ levelOf events trouble exercises other) :
    judged events trouble exercises visits stint =
      judged events trouble exercises others stint := by
  have held : verdict events exercises (heldAgainst events trouble exercises visits stint) stint =
      verdict events exercises (heldAgainst events trouble exercises others stint) stint := by
    by_cases longest : IsLongest events exercises stint
    · by_cases any : (troubled trouble stint.student).Some
      · -- Both must be to watch, and then there can be no other.
        have charged {visits : Visits} (complete : visits.Complete events exercises) :
            some stint.exercise = topOf events exercises visits stint.student := by
          by_contra other
          obtain ⟨top, tied⟩ := exists_tied_of_not_topOf complete member longest other
          have one := alike stint top tied longest any
          have two := alike top stint tied.symm (tied.isLongest longest) (tied.student ▸ any)
          apply alone top tied
          unfold levelOf
          rw [if_pos longest, if_pos (tied.isLongest longest), one.2, two.2]
        unfold heldAgainst
        rw [if_pos (charged complete), if_pos (charged complete')]
      · unfold heldAgainst verdict
        split <;> split <;> simp only [assess_of_not_some any]
    · have never {visits : Visits} (complete : visits.Complete events exercises) :
          some stint.exercise ≠ topOf events exercises visits stint.student :=
        fun charged => longest (isLongest_of_topOf complete member charged)
      unfold heldAgainst
      rw [if_neg (never complete), if_neg (never complete')]
  unfold judged
  rw [held]

end Complete

/-! ### Where the condition holds -/

variable (events trouble exercises) in
/-- The rank that a stint is listed with. -/
def Stint.rank (stint : Stint) : Rank :=
  rankOf (levelOf events trouble exercises stint) stint.seconds stint.student

theorem entries_eq (complete : visits.Complete events exercises)
    (alike : ChargedAlike events trouble exercises) :
    entries events trouble exercises visits =
      ((stints events exercises visits).filter fun stint =>
        levelOf events trouble exercises stint ≠ .ok).map fun stint =>
          (judged events trouble exercises visits stint).followUp
            (exerciseOrder events exercises) := by
  unfold entries
  congr 1
  apply List.filter_congr
  intro stint member
  rw [level_judged complete ((mem_stints_iff complete).mp member) alike]

theorem rank_followUp (complete : visits.Complete events exercises)
    (alike : ChargedAlike events trouble exercises) {stint : Stint}
    (member : stint ∈ allStints events exercises) (order : List (Str × Str)) :
    ((judged events trouble exercises visits stint).followUp order).rank =
      stint.rank events trouble exercises := by
  unfold Stint.rank
  rw [← level_judged complete member alike]
  rfl

/-- Counting entries by their ranks is counting stints. -/
theorem countP_entries (complete : visits.Complete events exercises)
    (alike : ChargedAlike events trouble exercises) (test : Rank → Bool) :
    ((entries events trouble exercises visits).countP fun entry => test entry.rank) =
      (allStints events exercises).countP fun stint =>
        levelOf events trouble exercises stint ≠ .ok ∧
          test (stint.rank events trouble exercises) := by
  have all : (allStints events exercises).Perm (stints events exercises visits) :=
    stints_perm (complete_ofKeys events exercises) complete
  rw [entries_eq complete alike, List.countP_map, List.countP_filter, all.countP_eq]
  apply List.countP_congr
  intro stint member
  rw [Function.comp, rank_followUp complete alike ((mem_stints_iff complete).mp member)]
  simp [and_comm]

theorem countP_help (complete : visits.Complete events exercises)
    (alike : ChargedAlike events trouble exercises) :
    ((entries events trouble exercises visits).countP fun entry => entry.level = .help) =
      (allStints events exercises).countP fun stint =>
        levelOf events trouble exercises stint = .help := by
  have helped (entry : FollowUp) : decide (entry.level = .help) = !(ofLex entry.rank).1 := by
    simp [FollowUp.rank, rankOf]
  simp only [helped]
  rw [countP_entries complete alike fun rank => !(ofLex rank).1]
  apply List.countP_congr
  intro stint _
  cases level : levelOf events trouble exercises stint <;> simp [Stint.rank, rankOf, level]

/-- A stint to watch stands behind all who needed help and those to watch that are
ahead of it. -/
theorem countP_before (complete : visits.Complete events exercises)
    (alike : ChargedAlike events trouble exercises) {stint : Stint}
    (watched : levelOf events trouble exercises stint = .watch) :
    ((entries events trouble exercises visits).countP fun entry =>
        entry.rank < stint.rank events trouble exercises) =
      ((entries events trouble exercises visits).countP fun entry => entry.level = .help) +
        ahead events trouble exercises stint := by
  rw [countP_help complete alike,
    countP_entries complete alike fun rank => rank < stint.rank events trouble exercises,
    List.countP_eq_countP_filter_add _ _ fun stint =>
      levelOf events trouble exercises stint = .help, List.countP_filter, List.countP_filter]
  congr 1
  · apply List.countP_congr
    intro other _
    cases level : levelOf events trouble exercises other <;>
      simp [Stint.rank, rankOf_lt_rankOf_iff, watched, level]
  · apply List.countP_congr
    intro other _
    cases level : levelOf events trouble exercises other <;>
      simp [Stint.rank, rankOf_lt_rankOf_iff, watched, level]

theorem rank_eq_iff {first second : Stint}
    (listed : levelOf events trouble exercises first ≠ .ok)
    (listed' : levelOf events trouble exercises second ≠ .ok) :
    first.rank events trouble exercises = second.rank events trouble exercises ↔
      levelOf events trouble exercises first = levelOf events trouble exercises second ∧
        first.seconds = second.seconds ∧ first.student = second.student := by
  unfold Stint.rank
  rw [rankOf_eq_rankOf_iff]
  cases level : levelOf events trouble exercises first <;>
    cases level' : levelOf events trouble exercises second <;> simp_all

/-- The entries of a rank are those of its stints. -/
theorem filter_entries (complete : visits.Complete events exercises)
    (alike : ChargedAlike events trouble exercises) (one : Rank) :
    ((entries events trouble exercises visits).filter fun entry => entry.rank = one) =
      ((stints events exercises visits).filter fun stint =>
        levelOf events trouble exercises stint ≠ .ok ∧
          stint.rank events trouble exercises = one).map fun stint =>
            (judged events trouble exercises visits stint).followUp
              (exerciseOrder events exercises) := by
  rw [entries_eq complete alike, List.filter_map, List.filter_filter]
  congr 1
  apply List.filter_congr
  intro stint member
  rw [Function.comp, rank_followUp complete alike ((mem_stints_iff complete).mp member),
    Bool.decide_and, Bool.and_comm]

/-- Of at most one entry there is one order. -/
theorem eq_of_perm_of_single {α : Type*} {entries others : List α} (same : entries.Perm others)
    (nodup : entries.Nodup) (single : ∀ first ∈ entries, ∀ second ∈ entries, first = second) :
    entries = others := by
  match entries with
  | [] => exact (List.nil_perm.mp same).symm
  | [entry] => exact List.singleton_perm.mp same
  | first :: second :: rest =>
      have twins := single first (by simp) second (by simp)
      simp [twins] at nodup

/-- The same students are listed, in one order, whatever the visits. -/
theorem followUp_eq_of_settled (complete : visits.Complete events exercises)
    (complete' : others.Complete events exercises)
    (alike : ChargedAlike events trouble exercises)
    (apart : ListedApart events trouble exercises) :
    followUp events trouble exercises visits = followUp events trouble exercises others := by
  rw [followUp_eq_take complete, followUp_eq_take complete', countP_help complete alike,
    countP_help complete' alike]
  have same := stints_perm complete complete'
  have ranks {visits : Visits} (complete : visits.Complete events exercises) :
      (entries events trouble exercises visits).map FollowUp.rank =
        ((stints events exercises visits).filter fun stint =>
          levelOf events trouble exercises stint ≠ .ok).map
            (Stint.rank events trouble exercises) := by
    rw [entries_eq complete alike, List.map_map]
    apply List.map_congr_left
    intro stint among
    exact rank_followUp complete alike
      ((mem_stints_iff complete).mp (List.mem_of_mem_filter among)) _
  apply StableSorts.take_sortBy_eq
  · rw [ranks complete, ranks complete']
    exact (same.filter _).map _
  intro one early
  have single : ∀ first second, first ∈ allStints events exercises →
      second ∈ allStints events exercises →
      (levelOf events trouble exercises first ≠ .ok ∧
        first.rank events trouble exercises = one) →
      (levelOf events trouble exercises second ≠ .ok ∧
        second.rank events trouble exercises = one) → first = second := by
    rintro first second within within' ⟨listed, rfl⟩ ⟨listed', ranked⟩
    obtain ⟨level, seconds, student⟩ := (rank_eq_iff listed' listed).mp ranked
    rcases eq_or_tied within within' student.symm seconds.symm with same | tied
    · exact same
    · rcases apart first second tied level.symm with ok | ⟨watched, late⟩
      · exact absurd ok listed
      · rw [countP_before complete alike watched, countP_help complete alike] at early
        omega
  rw [filter_entries complete alike, filter_entries complete' alike,
    ← eq_of_perm_of_single (same.filter _) ((nodup_stints complete).filter _)]
  · apply List.map_congr_left
    intro stint among
    obtain ⟨member, ranked⟩ := List.mem_filter.mp among
    have within := (mem_stints_iff complete).mp member
    rw [judged_eq complete within alike complete']
    intro other tied level
    have listed := of_decide_eq_true ranked
    have other_listed : levelOf events trouble exercises other ≠ .ok := level ▸ listed.1
    have twin := single stint other within tied.two listed
      ⟨other_listed, ((rank_eq_iff other_listed listed.1).mpr
        ⟨level.symm, tied.seconds.symm, tied.student.symm⟩).trans listed.2⟩
    exact tied.exercise (congrArg Stint.exercise twin)
  · intro first among second among'
    obtain ⟨member, ranked⟩ := List.mem_filter.mp among
    obtain ⟨member', ranked'⟩ := List.mem_filter.mp among'
    exact single first second ((mem_stints_iff complete).mp member)
      ((mem_stints_iff complete).mp member') (of_decide_eq_true ranked)
      (of_decide_eq_true ranked')

/-- And the same is counted. -/
theorem exerciseRecaps_eq_of_alike (complete : visits.Complete events exercises)
    (complete' : others.Complete events exercises)
    (alike : ChargedAlike events trouble exercises) :
    exerciseRecaps events trouble exercises visits =
      exerciseRecaps events trouble exercises others := by
  have bare {visits : Visits} (complete : visits.Complete events exercises) :
      (judgements events trouble exercises visits).map Judgement.bare =
        (stints events exercises visits).map fun stint =>
          { student := stint.student
            exercise := stint.exercise
            level := levelOf events trouble exercises stint
            seconds := stint.seconds
            reasons := [] } := by
    rw [judgements_eq complete, List.map_map]
    apply List.map_congr_left
    intro stint member
    rw [← level_judged complete ((mem_stints_iff complete).mp member) alike]
    rfl
  unfold exerciseRecaps
  dsimp only
  congr 1
  apply List.map_congr_left
  rintro ⟨entry, number⟩ _
  dsimp only
  rw [← exerciseRecap_bare, ← exerciseRecap_bare (judgements events trouble exercises others),
    bare complete, bare complete']
  apply exerciseRecap_perm
  · exact (stints_perm complete complete').map _
  · exact (students_perm complete complete').filterMap _

/-! ### Where it fails -/

/-- The slug that a stint is listed with tells its exercise. -/
theorem lookup_slug {stint : Stint} (member : stint ∈ allStints events exercises) :
    (numbers events exercises).lookup
      ((exerciseOrder events exercises).getD stint.exercise ([], [])).1 = some stint.exercise := by
  obtain ⟨per, walked, spent⟩ := Option.bind_eq_some_iff.mp (mem_allStints.mp member)
  obtain ⟨rows, -, rfl⟩ := Option.map_eq_some_iff.mp walked
  exact number_of_walk (Option.filter_eq_some_iff.mp spent).1 rfl

/-- Of two stints that are listed the same, with one student, each is the other. -/
theorem eq_of_slug {first second : Stint} (one : first ∈ allStints events exercises)
    (two : second ∈ allStints events exercises) (student : first.student = second.student)
    (slug : ((exerciseOrder events exercises).getD first.exercise ([], [])).1 =
      ((exerciseOrder events exercises).getD second.exercise ([], [])).1) : first = second := by
  have number := lookup_slug one
  rw [slug, lookup_slug two] at number
  exact eq_of_mem_stints (mem_allStints.mp one) (mem_allStints.mp two) student
    (Option.some.inj number).symm

/-- A student's trouble can be held against each of their longest stints, whatever
becomes of the others. -/
theorem exists_charging {stint : Stint} (member : stint ∈ allStints events exercises)
    (longest : IsLongest events exercises stint) :
    ∃ visits : Visits, visits.Complete events exercises ∧
      topOf events exercises visits stint.student = some stint.exercise ∧
      ∀ other, other ≠ stint.student → topOf events exercises visits other =
        topOf events exercises (.ofKeys events exercises) other := by
  have complete := complete_ofKeys events exercises
  obtain ⟨top, listed, about, charged, most⟩ := exists_charged complete member
  have equal : top.seconds = stint.seconds :=
    le_antisymm (longest top listed about) (most stint member about.symm)
  refine ⟨_, complete_swap complete listed member about, ?_, ?_⟩
  · rw [← about, topOf_swap complete listed member about equal, about, charged, Option.map_some,
      Equiv.swap_apply_left]
  · intro other elsewhere
    exact topOf_swap_of_ne (about ▸ elsewhere)

/-- Who is counted as one to watch. -/
theorem toWatch_exerciseRecap (complete : visits.Complete events exercises)
    (last : Str → Option Nat) (times : List Int) (number : Nat) (entry : Str × Str) :
    (exerciseRecap (judgements events trouble exercises visits) last times number entry).toWatch =
      (allStints events exercises).countP fun stint =>
        stint.exercise = number ∧
          (judged events trouble exercises visits stint).level = .watch := by
  have all : (allStints events exercises).Perm (stints events exercises visits) :=
    stints_perm (complete_ofKeys events exercises) complete
  unfold exerciseRecap
  dsimp only
  rw [judgements_eq complete, List.countP_filter, List.countP_map, all.countP_eq]
  apply List.countP_congr
  intro stint _
  rw [Function.comp, Bool.and_eq_true]
  constructor
  · rintro ⟨watched, here⟩
    exact decide_eq_true ⟨of_decide_eq_true here, of_decide_eq_true watched⟩
  · intro both
    obtain ⟨here, watched⟩ := of_decide_eq_true both
    exact ⟨decide_eq_true watched, decide_eq_true here⟩

theorem students_exerciseRecap (complete : visits.Complete events exercises)
    (last : Str → Option Nat) (times : List Int) (number : Nat) (entry : Str × Str) :
    (exerciseRecap (judgements events trouble exercises visits) last times number entry).students =
      (allStints events exercises).countP fun stint => stint.exercise = number := by
  have all : (allStints events exercises).Perm (stints events exercises visits) :=
    stints_perm (complete_ofKeys events exercises) complete
  unfold exerciseRecap
  dsimp only
  rw [judgements_eq complete, ← List.countP_eq_length_filter, List.countP_map, all.countP_eq]
  rfl

/-- Lists that are filtered alike to the same entries have the same entries. -/
theorem eq_of_filter_map_eq {α β : Type*} {entries : List α} {first second : α → β}
    {keep : β → Bool} (alike : ∀ entry ∈ entries, keep (first entry) = keep (second entry))
    (same : (entries.map first).filter keep = (entries.map second).filter keep) {entry : α}
    (member : entry ∈ entries) (kept : keep (first entry) = true) :
    first entry = second entry := by
  induction entries with
  | nil => cases member
  | cons other entries ih =>
      have rest : ∀ entry ∈ entries, keep (first entry) = keep (second entry) :=
        fun entry later => alike entry (List.mem_cons_of_mem _ later)
      have here := alike other List.mem_cons_self
      rw [List.map_cons, List.map_cons, List.filter_cons, List.filter_cons, ← here] at same
      rcases List.mem_cons.mp member with rfl | later
      · rw [if_pos kept, if_pos kept] at same
        exact (List.cons.inj same).1
      · apply ih rest _ later
        split at same
        · exact (List.cons.inj same).2
        · exact same

/-- The exercises that a lesson's stints are on are recapped. -/
theorem exerciseRecap_eq {stint : Stint} (member : stint ∈ allStints events exercises)
    (complete : visits.Complete events exercises) (complete' : others.Complete events exercises)
    (same : exerciseRecaps events trouble exercises visits =
      exerciseRecaps events trouble exercises others) :
    ((allStints events exercises).countP fun other =>
      other.exercise = stint.exercise ∧
        (judged events trouble exercises visits other).level = .watch) =
      (allStints events exercises).countP fun other =>
        other.exercise = stint.exercise ∧
          (judged events trouble exercises others other).level = .watch := by
  obtain ⟨entry, listed⟩ : ∃ entry, (entry, stint.exercise) ∈
      (exerciseOrder events exercises).zipIdx := by
    rcases lookup_index (lookup_slug member) with before | ⟨title, listed⟩
    · cases before
    · exact ⟨_, listed⟩
  have counts := eq_of_filter_map_eq (by
    rintro ⟨entry, number⟩ _
    dsimp only
    rw [students_exerciseRecap complete, students_exerciseRecap complete']) same listed (by
    dsimp only
    rw [students_exerciseRecap complete, decide_eq_true_eq, List.countP_pos_iff]
    exact ⟨stint, member, decide_eq_true rfl⟩)
  have watch := congrArg ExerciseRecap.toWatch counts
  dsimp only at watch
  rwa [toWatch_exerciseRecap complete, toWatch_exerciseRecap complete'] at watch

/-- Trouble shows: where it does not mean help, it means to be watched. -/
theorem watch_of_not_help {sig : Signals} (any : sig.Some) {stint : Stint}
    (no_help : (verdict events exercises sig stint).1 ≠ .help) :
    (verdict events exercises sig stint).1 = .watch := by
  unfold verdict at no_help ⊢
  rw [level_assess] at no_help ⊢
  split at no_help
  · exact absurd rfl no_help
  · next calm => rw [if_neg calm, if_pos (.inl any)]

section Charging

variable (events trouble exercises) in
/-- One order holds a student's trouble against a stint, the other against another one. -/
structure Charging (held spared : Visits) (first : Stint) : Prop where
  complete : held.Complete events exercises
  complete' : spared.Complete events exercises
  charged : heldAgainst events trouble exercises held first = troubled trouble first.student
  bare : heldAgainst events trouble exercises spared first = .none
  same : ∀ stint : Stint, stint.student ≠ first.student →
    heldAgainst events trouble exercises held stint =
      heldAgainst events trouble exercises spared stint

theorem exists_charging_pair {first second : Stint} (tied : Tied events exercises first second)
    (longest : IsLongest events exercises first) :
    ∃ held spared, Charging events trouble exercises held spared first := by
  obtain ⟨held, complete, top, same⟩ := exists_charging tied.one longest
  obtain ⟨spared, complete', top', same'⟩ := exists_charging tied.two (tied.isLongest longest)
  refine ⟨held, spared, complete, complete', ?_, ?_, ?_⟩
  · unfold heldAgainst
    rw [if_pos top.symm]
  · unfold heldAgainst
    rw [if_neg]
    rw [tied.student, top', Option.some.injEq]
    exact tied.exercise
  · intro stint student
    unfold heldAgainst
    rw [same _ student, same' _ (tied.student ▸ student)]

variable {held spared : Visits} {first : Stint}
  (charging : Charging events trouble exercises held spared first)
  (own : first ∈ allStints events exercises)
include charging own

/-- One who needs help is listed with the trouble as a reason. -/
theorem Charging.not_help (any : (troubled trouble first.student).Some)
    (lists : followUp events trouble exercises held = followUp events trouble exercises spared) :
    (verdict events exercises (troubled trouble first.student) first).1 ≠ .help := by
  intro help
  have needs : ((judged events trouble exercises held first).followUp
      (exerciseOrder events exercises)).level = .help := by
    change (verdict events exercises (heldAgainst events trouble exercises held first) first).1 = _
    rw [charging.charged, help]
  have listed : (judged events trouble exercises held first).followUp
      (exerciseOrder events exercises) ∈ followUp events trouble exercises held := by
    apply (mem_followUp_help needs).mpr
    refine ⟨_, ?_, rfl⟩
    rw [judgements_eq charging.complete]
    exact List.mem_map_of_mem ((mem_stints_iff charging.complete).mpr own)
  rw [lists, mem_followUp_help needs, judgements_eq charging.complete'] at listed
  obtain ⟨judgement, among, equal⟩ := listed
  obtain ⟨stint, member, rfl⟩ := List.mem_map.mp among
  have twin : first = stint :=
    eq_of_slug own ((mem_stints_iff charging.complete').mp member)
      (congrArg FollowUp.student equal) (congrArg FollowUp.exercise equal)
  subst twin
  have reasons := congrArg FollowUp.reasons equal
  change (verdict events exercises (heldAgainst events trouble exercises held first) first).2 =
    (verdict events exercises (heldAgainst events trouble exercises spared first) first).2
      at reasons
  rw [charging.charged, charging.bare] at reasons
  exact reasons_ne_of_some any _ _ _ reasons

/-- Of the other stints on the exercise, as many are to watch in either order. -/
theorem Charging.countP_others :
    (((allStints events exercises).erase first).countP fun stint =>
        stint.exercise = first.exercise ∧
          (judged events trouble exercises held stint).level = .watch) =
      ((allStints events exercises).erase first).countP fun stint =>
        stint.exercise = first.exercise ∧
          (judged events trouble exercises spared stint).level = .watch := by
  apply List.countP_congr
  intro stint among
  have nodup : (allStints events exercises).Nodup := nodup_stints (complete_ofKeys _ _)
  obtain ⟨different, member⟩ := nodup.mem_erase_iff.mp among
  rw [decide_eq_true_iff, decide_eq_true_iff]
  apply and_congr_right
  intro here
  have student : stint.student ≠ first.student := by
    intro student
    exact different (eq_of_mem_stints (mem_allStints.mp member) (mem_allStints.mp own)
      student here)
  unfold judged
  rw [charging.same stint student]

end Charging

/-- If every order makes the same recap, it is the same for the trouble of a student
which of their longest stints it is held against. -/
theorem chargedAlike_of_alike
    (alike : ∀ visits others : Visits, visits.Complete events exercises →
      others.Complete events exercises →
        exerciseRecaps events trouble exercises visits =
            exerciseRecaps events trouble exercises others ∧
          followUp events trouble exercises visits = followUp events trouble exercises others) :
    ChargedAlike events trouble exercises := by
  intro first second tied longest any
  obtain ⟨held, spared, charging⟩ := @exists_charging_pair events trouble exercises _ _ tied longest
  obtain ⟨recaps, lists⟩ := alike held spared charging.complete charging.complete'
  have watched := watch_of_not_help any (charging.not_help tied.one any lists)
  refine ⟨?_, watched⟩
  -- It is counted as one to watch only where the trouble is held against it, otherwise.
  by_contra other
  have counts := exerciseRecap_eq tied.one charging.complete charging.complete' recaps
  rw [(List.perm_cons_erase tied.one).countP_eq, (List.perm_cons_erase tied.one).countP_eq,
    List.countP_cons, List.countP_cons, charging.countP_others tied.one,
    Nat.add_left_cancel_iff] at counts
  have left : (judged events trouble exercises held first).level = .watch := by
    change (verdict events exercises (heldAgainst events trouble exercises held first) first).1 = _
    rw [charging.charged, watched]
  have right : (judged events trouble exercises spared first).level ≠ .watch := by
    change
      (verdict events exercises (heldAgainst events trouble exercises spared first) first).1 ≠ _
    rw [charging.bare]
    exact other
  simp [left, right] at counts

/-- The entry that stands first among those of a stint's rank. -/
theorem getElem?_followUp (complete : visits.Complete events exercises)
    (alike : ChargedAlike events trouble exercises) {stint : Stint}
    (member : stint ∈ allStints events exercises)
    (listed : levelOf events trouble exercises stint ≠ .ok)
    (early : levelOf events trouble exercises stint = .help ∨
      ahead events trouble exercises stint < MAX_WATCH_LISTED) :
    (followUp events trouble exercises visits)[(allStints events exercises).countP fun other =>
        levelOf events trouble exercises other ≠ .ok ∧
          other.rank events trouble exercises < stint.rank events trouble exercises]? =
      (((stints events exercises visits).filter fun other =>
        levelOf events trouble exercises other ≠ .ok ∧
          other.rank events trouble exercises =
            stint.rank events trouble exercises).map fun other =>
            (judged events trouble exercises visits other).followUp
              (exerciseOrder events exercises))[0]? := by
  have before := countP_entries complete alike fun rank =>
    rank < stint.rank events trouble exercises
  simp only [decide_eq_true_eq] at before
  rw [← before, ← filter_entries complete alike, followUp_eq_take complete,
    List.getElem?_take_of_lt]
  · have within : 0 < ((entries events trouble exercises visits).filter fun entry =>
        entry.rank = stint.rank events trouble exercises).length := by
      rw [filter_entries complete alike, List.length_map]
      apply List.length_pos_of_mem
      exact List.mem_filter.mpr
        ⟨(mem_stints_iff complete).mpr member, decide_eq_true ⟨listed, rfl⟩⟩
    exact StableSorts.getElem?_sortBy FollowUp.rank _ _ within
  · cases level : levelOf events trouble exercises stint with
    | ok => exact absurd level listed
    | watch =>
        rw [countP_before complete alike level]
        rcases early with help | few
        · cases level.symm.trans help
        · omega
    | help =>
        have fewer : ((entries events trouble exercises visits).countP fun entry =>
            entry.rank < stint.rank events trouble exercises) ≤
            (entries events trouble exercises visits).countP fun entry => entry.level = .help := by
          apply List.countP_mono_left
          intro entry _ below
          have ahead := of_decide_eq_true below
          unfold FollowUp.rank Stint.rank at ahead
          rw [rankOf_lt_rankOf_iff, level] at ahead
          rcases ahead with ⟨help, -⟩ | ⟨same, -⟩
          · exact decide_eq_true help
          · exact decide_eq_true (same.mpr rfl)
        have room : 0 < MAX_WATCH_LISTED := by decide
        omega

/-- If every order makes the same recap, no two stints stand together in the list. -/
theorem listedApart_of_alike (charged : ChargedAlike events trouble exercises)
    (lists : ∀ visits others : Visits, visits.Complete events exercises →
      others.Complete events exercises →
        followUp events trouble exercises visits = followUp events trouble exercises others) :
    ListedApart events trouble exercises := by
  intro first second tied level
  by_contra visible
  rw [not_or, not_and] at visible
  obtain ⟨listed, late⟩ := visible
  have early : levelOf events trouble exercises first = .help ∨
      ahead events trouble exercises first < MAX_WATCH_LISTED := by
    cases same : levelOf events trouble exercises first with
    | ok => exact absurd same listed
    | watch => exact .inr (not_le.mp (late same))
    | help => exact .inl rfl
  have complete := complete_ofKeys events exercises
  have twins (other : Stint) : (levelOf events trouble exercises other ≠ .ok ∧
      other.rank events trouble exercises = first.rank events trouble exercises) ↔
      levelOf events trouble exercises other = levelOf events trouble exercises first ∧
        other.seconds = first.seconds ∧ other.student = first.student := by
    constructor
    · rintro ⟨shown, same⟩
      exact (rank_eq_iff shown listed).mp same
    · intro same
      have shown : levelOf events trouble exercises other ≠ .ok := same.1 ▸ listed
      exact ⟨shown, (rank_eq_iff shown listed).mpr same⟩
  have place {visits : Visits} (complete : visits.Complete events exercises) :=
    getElem?_followUp complete charged tied.one listed early
  simp only [twins] at place
  -- Whichever stands first, another could.
  cases found : (allStints events exercises).filter fun other =>
      levelOf events trouble exercises other = levelOf events trouble exercises first ∧
        other.seconds = first.seconds ∧ other.student = first.student with
  | nil =>
      have nobody := List.filter_eq_nil_iff.mp found first tied.one
      exact nobody (decide_eq_true ⟨rfl, rfl, rfl⟩)
  | cons head rest =>
      obtain ⟨within, same⟩ := List.mem_filter.mp (found ▸ List.mem_cons_self)
      have alike := of_decide_eq_true same
      obtain ⟨other, pair, twin⟩ : ∃ other, Tied events exercises head other ∧
          levelOf events trouble exercises other = levelOf events trouble exercises first ∧
            other.seconds = first.seconds ∧ other.student = first.student := by
        rcases eq_or_tied within tied.one alike.2.2 alike.2.1 with rfl | pair
        · exact ⟨second, tied, level.symm, tied.seconds.symm, tied.student.symm⟩
        · exact ⟨first, pair, rfl, rfl, rfl⟩
      have swapped := complete_swap complete pair.one pair.two pair.student
      have one := place complete
      have two := place swapped
      rw [stints_swap complete pair.one pair.two pair.student, List.filter_map] at two
      have kept : ((allStints events exercises).filter fun stint =>
          levelOf events trouble exercises (Equiv.swap head other stint) =
              levelOf events trouble exercises first ∧
            (Equiv.swap head other stint).seconds = first.seconds ∧
              (Equiv.swap head other stint).student = first.student) = head :: rest := by
        rw [← found]
        apply List.filter_congr
        intro stint _
        rw [decide_eq_decide]
        by_cases here : stint = head
        · rw [here, Equiv.swap_apply_left]
          exact ⟨fun _ => alike, fun _ => twin⟩
        · by_cases there : stint = other
          · rw [there, Equiv.swap_apply_right]
            exact ⟨fun _ => twin, fun _ => alike⟩
          · rw [Equiv.swap_apply_of_ne_of_ne here there]
      unfold allStints at found kept
      rw [found, List.map_cons, List.getElem?_cons_zero] at one
      simp only [Function.comp_def] at two
      rw [kept, List.map_cons, List.map_cons, Equiv.swap_apply_left, List.getElem?_cons_zero,
        ← lists _ _ complete swapped, one] at two
      have slug := congrArg FollowUp.exercise (Option.some.inj two)
      have equal := eq_of_slug pair.one pair.two pair.student slug
      exact pair.exercise (congrArg Stint.exercise equal)

/-! ### The law -/

/-- Every order of the maps makes the same recap exactly if, of the stints of a
student that took equally long, neither which of them the trouble is held against nor
which of them comes first can be seen. -/
theorem build_deterministic_iff (window : Span) (events : List Ev) (trouble : List Trouble)
    (sent : List Sent) (exercises : List ExerciseInfo) :
    (∀ visits others : Visits, visits.Complete events exercises →
      others.Complete events exercises →
        build window events trouble sent exercises visits =
          build window events trouble sent exercises others) ↔
      ChargedAlike events trouble exercises ∧ ListedApart events trouble exercises := by
  constructor
  · intro alike
    have parts := fun visits others complete complete' =>
      (build_eq_iff window sent (students_perm complete complete')).mp
        (alike visits others complete complete')
    have charged := chargedAlike_of_alike parts
    exact ⟨charged, listedApart_of_alike charged fun visits others complete complete' =>
      (parts visits others complete complete').2⟩
  · rintro ⟨charged, apart⟩ visits others complete complete'
    apply (build_eq_iff window sent (students_perm complete complete')).mpr
    exact ⟨exerciseRecaps_eq_of_alike complete complete' charged,
      followUp_eq_of_settled complete complete' charged apart⟩

/-- A student with trouble, and a minute on each of two exercises. -/
def halves : List Ev :=
  [{ student := ['a'], exercise := some ['1'], closed := false, edits := 0, second := 0 },
    { student := ['a'], exercise := some ['2'], closed := false, edits := 0, second := 60 },
    { student := ['a'], exercise := none, closed := true, edits := 0, second := 120 }]

def threeErrors : List Trouble :=
  [{ student := ['a'], errors := 3, failedRuns := 0 }]

def bothExercises : List ExerciseInfo :=
  [{ slug := ['1'], title := ['A'] }, { slug := ['2'], title := ['B'] }]

/-- It is the order that decides on which of them the student needed help. -/
theorem not_build_deterministic_halves :
    ¬ ∀ visits others : Visits, visits.Complete halves bothExercises →
      others.Complete halves bothExercises →
        build ⟨0, 120⟩ halves threeErrors [] bothExercises visits =
          build ⟨0, 120⟩ halves threeErrors [] bothExercises others := by
  intro alike
  have charged := chargedAlike_of_alike fun visits others complete complete' =>
    (build_eq_iff ⟨0, 120⟩ [] (students_perm complete complete')).mp
      (alike visits others complete complete')
  have tied : Tied halves bothExercises ⟨['a'], 0, 60⟩ ⟨['a'], 1, 60⟩ := by
    constructor
    · exact mem_allStints.mpr (by decide +kernel)
    · exact mem_allStints.mpr (by decide +kernel)
    · rfl
    · rfl
    · decide
  have bare := (charged _ _ tied (by decide +kernel) (.inl (by decide +kernel))).1
  exact absurd bare (by decide +kernel)

end Recap

end Hermione
