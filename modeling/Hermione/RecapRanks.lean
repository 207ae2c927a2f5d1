import Mathlib.Data.Prod.Lex
import Mathlib.Order.Interval.Set.Defs
import Hermione.RecapOrders

/-!
# Who is listed, and what is counted

The list of students to follow up with is the beginning of a sort by rank: everyone
who needed help, and the first few of those to watch.  What is counted on an
exercise does not depend on the order of the judgements, nor on their reasons.
-/

namespace Hermione

namespace Recap

/-! ### Ranks -/

/-- Whether it can wait, for how long the student was on it (longest first), and who
it is. -/
abbrev Rank : Type :=
  Bool ×ₗ Intᵒᵈ ×ₗ Str

/-- The rank of a stint that was given a level. -/
def rankOf (level : Level) (seconds : Int) (student : Str) : Rank :=
  toLex (decide (level ≠ .help), toLex (OrderDual.toDual seconds, student))

def FollowUp.rank (entry : FollowUp) : Rank :=
  rankOf entry.level entry.seconds entry.student

theorem rankOf_le_rankOf_iff {level level' : Level} {seconds seconds' : Int}
    {student student' : Str} :
    rankOf level seconds student ≤ rankOf level' seconds' student' ↔
      (level = .help ∧ level' ≠ .help) ∨ ((level = .help ↔ level' = .help) ∧
        (seconds' < seconds ∨ (seconds = seconds' ∧ student ≤ student'))) := by
  unfold rankOf
  rw [Prod.Lex.toLex_le_toLex, Prod.Lex.toLex_le_toLex]
  by_cases help : level = .help <;> by_cases help' : level' = .help <;>
    simp [help, help']

theorem rankOf_lt_rankOf_iff {level level' : Level} {seconds seconds' : Int}
    {student student' : Str} :
    rankOf level seconds student < rankOf level' seconds' student' ↔
      (level = .help ∧ level' ≠ .help) ∨ ((level = .help ↔ level' = .help) ∧
        (seconds' < seconds ∨ (seconds = seconds' ∧ student < student'))) := by
  unfold rankOf
  rw [Prod.Lex.toLex_lt_toLex, Prod.Lex.toLex_lt_toLex]
  by_cases help : level = .help <;> by_cases help' : level' = .help <;>
    simp [help, help']

theorem rankOf_eq_rankOf_iff {level level' : Level} {seconds seconds' : Int}
    {student student' : Str} :
    rankOf level seconds student = rankOf level' seconds' student' ↔
      (level = .help ↔ level' = .help) ∧ seconds = seconds' ∧ student = student' := by
  unfold rankOf
  by_cases help : level = .help <;> by_cases help' : level' = .help <;>
    simp [help, help']

/-- The order of the list is that of the ranks. -/
theorem mergeSort_followsUp (entries : List FollowUp) :
    entries.mergeSort followsUp = StableSorts.sortBy FollowUp.rank entries := by
  have order : followsUp = fun first second => decide (first.rank ≤ second.rank) := by
    funext first second
    unfold followsUp FollowUp.rank
    rw [Bool.eq_iff_iff, decide_eq_true_eq, rankOf_le_rankOf_iff]
    by_cases help : first.level = .help <;> by_cases help' : second.level = .help
    all_goals
      simp only [help, help', not_true_eq_false, not_false_eq_true, and_false, and_true, ne_eq,
        if_true, if_false, true_and, false_or, true_or, iff_self, reduceCtorEq]
    all_goals
      by_cases equal : first.seconds = second.seconds <;> simp [equal]
  unfold StableSorts.sortBy
  rw [order]

/-- Those who needed help come first. -/
theorem sortBy_rank_eq_append (entries : List FollowUp) :
    StableSorts.sortBy FollowUp.rank entries =
      ((StableSorts.sortBy FollowUp.rank entries).filter fun entry => entry.level = .help) ++
        (StableSorts.sortBy FollowUp.rank entries).filter fun entry => entry.level ≠ .help := by
  have order : (StableSorts.sortBy FollowUp.rank entries).Pairwise fun one two =>
      decide (one.level ≠ .help) ≤ decide (two.level ≠ .help) := by
    apply (StableSorts.pairwise_sortBy FollowUp.rank entries).imp
    intro one two before
    rcases rankOf_le_rankOf_iff.mp before with ⟨help, -⟩ | ⟨same, -⟩
    · simp [help]
    · simp [same]
  have split := StableSorts.eq_append_of_pairwise _ order true
  simpa [Bool.lt_iff] using split

/-- The loop over the sorted list: everyone who needed help, and the first few of the
rest. -/
theorem listed_eq_append (entries : List FollowUp) :
    ((StableSorts.sortBy FollowUp.rank entries).foldl
        (fun (state : List FollowUp × Nat) entry =>
          if entry.level = .help then (state.1 ++ [entry], state.2)
          else if state.2 < MAX_WATCH_LISTED then (state.1 ++ [entry], state.2 + 1)
          else (state.1, state.2 + 1)) (([] : List FollowUp), 0)).1 =
      ((StableSorts.sortBy FollowUp.rank entries).filter fun entry => entry.level = .help) ++
        ((StableSorts.sortBy FollowUp.rank entries).filter fun entry => entry.level ≠ .help).take
          MAX_WATCH_LISTED := by
  have helped (helps kept : List FollowUp) (watching : Nat)
      (all : ∀ entry ∈ helps, entry.level = .help) :
      helps.foldl (fun (state : List FollowUp × Nat) entry =>
        if entry.level = .help then (state.1 ++ [entry], state.2)
        else if state.2 < MAX_WATCH_LISTED then (state.1 ++ [entry], state.2 + 1)
        else (state.1, state.2 + 1)) (kept, watching) = (kept ++ helps, watching) := by
    induction helps generalizing kept with
    | nil => simp
    | cons entry helps ih =>
        rw [List.foldl_cons, if_pos (all entry List.mem_cons_self),
          ih _ fun other later => all other (List.mem_cons_of_mem _ later)]
        simp
  have waited (waits kept : List FollowUp) (watching : Nat)
      (all : ∀ entry ∈ waits, entry.level ≠ .help) :
      (waits.foldl (fun (state : List FollowUp × Nat) entry =>
        if entry.level = .help then (state.1 ++ [entry], state.2)
        else if state.2 < MAX_WATCH_LISTED then (state.1 ++ [entry], state.2 + 1)
        else (state.1, state.2 + 1)) (kept, watching)).1 =
          kept ++ waits.take (MAX_WATCH_LISTED - watching) := by
    induction waits generalizing kept watching with
    | nil => simp
    | cons entry waits ih =>
        have rest : ∀ other ∈ waits, other.level ≠ .help :=
          fun other later => all other (List.mem_cons_of_mem _ later)
        rw [List.foldl_cons, if_neg (all entry List.mem_cons_self)]
        split
        · next room =>
            rw [ih _ _ rest, Nat.sub_add_eq, ← Nat.succ_pred_eq_of_pos (Nat.sub_pos_of_lt room)]
            simp
        · next full =>
            rw [ih _ _ rest, Nat.sub_eq_zero_of_le (by omega), Nat.sub_eq_zero_of_le (by omega)]
            simp
  have parts := sortBy_rank_eq_append entries
  generalize StableSorts.sortBy FollowUp.rank entries = sorted at parts
  have helps : ∀ entry ∈ sorted.filter fun entry => entry.level = .help, entry.level = .help :=
    fun entry among => of_decide_eq_true (List.mem_filter.mp among).2
  have waits : ∀ entry ∈ sorted.filter fun entry => entry.level ≠ .help, entry.level ≠ .help :=
    fun entry among => of_decide_eq_true (List.mem_filter.mp among).2
  conv_lhs => rw [parts]
  rw [List.foldl_append, helped _ _ _ helps, waited _ _ _ waits]
  rfl

/-- That is a beginning of the sorted list. -/
theorem append_take_eq_take (entries : List FollowUp) :
    ((StableSorts.sortBy FollowUp.rank entries).filter fun entry => entry.level = .help) ++
        ((StableSorts.sortBy FollowUp.rank entries).filter fun entry => entry.level ≠ .help).take
          MAX_WATCH_LISTED =
      (StableSorts.sortBy FollowUp.rank entries).take
        ((entries.countP fun entry => entry.level = .help) + MAX_WATCH_LISTED) := by
  have parts := sortBy_rank_eq_append entries
  have count : (entries.countP fun entry => entry.level = .help) =
      ((StableSorts.sortBy FollowUp.rank entries).filter fun entry => entry.level = .help).length :=
    by rw [← List.countP_eq_length_filter, (StableSorts.sortBy_perm _ entries).countP_eq]
  rw [count]
  generalize StableSorts.sortBy FollowUp.rank entries = sorted at parts
  calc _ = ((sorted.filter fun entry => entry.level = .help) ++
        sorted.filter fun entry => entry.level ≠ .help).take
          ((sorted.filter fun entry => entry.level = .help).length + MAX_WATCH_LISTED) :=
        (List.take_length_add_append _).symm
    _ = _ := by rw [← parts]

/-! ### What is listed -/

variable {events : List Ev} {trouble : List Trouble} {exercises : List ExerciseInfo}
  {visits others : Visits}

/-- What a judgement is listed as. -/
def Judgement.followUp (order : List (Str × Str)) (judgement : Judgement) : FollowUp :=
  { student := judgement.student
    exercise := (order.getD judgement.exercise ([], [])).1
    level := judgement.level
    seconds := judgement.seconds
    reasons := judgement.reasons }

variable (events trouble exercises) in
/-- All that could be listed. -/
def entries (visits : Visits) : List FollowUp :=
  ((stints events exercises visits).filter fun stint =>
      (judged events trouble exercises visits stint).level ≠ .ok).map fun stint =>
    (judged events trouble exercises visits stint).followUp (exerciseOrder events exercises)

/-- The list has all entries that needed help, and the first few others. -/
theorem followUp_eq_append (complete : visits.Complete events exercises) :
    followUp events trouble exercises visits =
      ((StableSorts.sortBy FollowUp.rank (entries events trouble exercises visits)).filter
          fun entry => entry.level = .help) ++
        ((StableSorts.sortBy FollowUp.rank (entries events trouble exercises visits)).filter
          fun entry => entry.level ≠ .help).take MAX_WATCH_LISTED := by
  rw [← listed_eq_append, ← mergeSort_followsUp]
  unfold followUp entries
  dsimp only
  rw [judgements_eq complete, List.filter_map, List.map_map]
  rfl

/-- The list is the beginning of the entries in order. -/
theorem followUp_eq_take (complete : visits.Complete events exercises) :
    followUp events trouble exercises visits =
      (StableSorts.sortBy FollowUp.rank (entries events trouble exercises visits)).take
        (((entries events trouble exercises visits).countP fun entry => entry.level = .help) +
          MAX_WATCH_LISTED) := by
  rw [followUp_eq_append complete, append_take_eq_take]

/-! ### What is counted -/

/-- A judgement without its reasons. -/
def Judgement.bare (judgement : Judgement) : Judgement :=
  { judgement with reasons := [] }

theorem exerciseRecap_bare (judgements : List Judgement) (last : Str → Option Nat)
    (times : List Int) (number : Nat) (entry : Str × Str) :
    exerciseRecap (judgements.map Judgement.bare) last times number entry =
      exerciseRecap judgements last times number entry := by
  unfold exerciseRecap
  simp only [List.filter_map, List.length_map, List.foldl_map, List.countP_map]
  rfl

theorem exerciseRecap_perm {judgements judgements' : List Judgement} {times times' : List Int}
    (same : judgements.Perm judgements') (sameTimes : times.Perm times') (last : Str → Option Nat)
    (number : Nat) (entry : Str × Str) :
    exerciseRecap judgements last times number entry =
      exerciseRecap judgements' last times' number entry := by
  have here := same.filter fun judgement => decide (judgement.exercise = number)
  have median : exerciseRecap judgements last times number entry =
      exerciseRecap judgements last times' number entry := by
    have sorted := StableSorts.mergeSort_eq_of_perm sameTimes
    rcases times with _ | ⟨first, rest⟩
    · rw [List.nil_perm.mp sameTimes]
    · rcases times' with _ | ⟨first', rest'⟩
      · cases List.perm_nil.mp sameTimes
      · unfold exerciseRecap
        dsimp only
        rw [sorted]
  rw [median]
  unfold exerciseRecap
  dsimp only
  rw [here.length_eq, here.countP_eq, here.countP_eq, here.countP_eq,
    here.foldl_eq' fun one _ two _ most => by omega]

end Recap

end Hermione
