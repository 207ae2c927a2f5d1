import Hermione.Assessment

/-!
# Levels and reasons

A student who does worse in every respect is not judged to do better: more errors,
more failed runs, more time on the exercise and a longer silence never lower the
level, and neither do fewer edits.  Whoever is given a level is told why.
-/

namespace Hermione

/-- How urgent a level is. -/
def struggleRank : Level → Nat
  | .help => 2
  | .watch => 1
  | .ok => 0

section Assess

variable (sig : Signals) (secondsOnExercise : Int) (edits : EditActivity) (fences : Fences)

/-- A long time without an edit, while present. -/
def Stalled : Prop :=
  secondsOnExercise ≥ fences.watch ∧
    edits.sinceLastSecs.any (fun since => since ≥ STALL_SECS) = true

/-- Slow but visibly working. -/
def Working : Prop :=
  edits.recent > 0 ∧ edits.sinceLastSecs.any (fun since => since < STALL_SECS) = true

def NeedsHelp : Prop :=
  sig.errors ≥ 3 ∨ sig.failedRuns ≥ 2 ∨ (secondsOnExercise ≥ fences.help ∧ ¬ Working edits) ∨
    (Stalled secondsOnExercise edits fences ∧ (sig.errors ≥ 1 ∨ sig.failedRuns ≥ 1))

def NeedsWatching : Prop :=
  Stalled secondsOnExercise edits fences ∨ sig.errors ≥ 1 ∨ sig.failedRuns ≥ 1 ∨
    secondsOnExercise ≥ fences.watch

instance : Decidable (Stalled secondsOnExercise edits fences) :=
  inferInstanceAs (Decidable (_ ∧ _))

instance : Decidable (Working edits) :=
  inferInstanceAs (Decidable (_ ∧ _))

instance : Decidable (NeedsHelp sig secondsOnExercise edits fences) :=
  inferInstanceAs (Decidable (_ ∨ _))

instance : Decidable (NeedsWatching sig secondsOnExercise edits fences) :=
  inferInstanceAs (Decidable (_ ∨ _))

/-- The level is decided by the two. -/
theorem assess_level :
    (assess sig secondsOnExercise edits fences).1 =
      if NeedsHelp sig secondsOnExercise edits fences then .help
      else if NeedsWatching sig secondsOnExercise edits fences then .watch
      else .ok :=
  rfl

/-- Nothing is said of a student exactly if there is nothing to say. -/
theorem assess_reasons_eq_nil_iff :
    (assess sig secondsOnExercise edits fences).2 = [] ↔
      ¬ sig.errors > 0 ∧ ¬ sig.failedRuns > 0 ∧ ¬ secondsOnExercise ≥ fences.watch := by
  unfold assess
  simp only [List.append_eq_nil_iff]
  constructor
  · rintro ⟨⟨⟨errors, runs⟩, time⟩, -⟩
    refine ⟨fun some => ?_, fun some => ?_, fun long => ?_⟩
    · rw [if_pos some] at errors
      cases errors
    · rw [if_pos some] at runs
      cases runs
    · rw [if_pos long] at time
      split at time <;> cases time
  · rintro ⟨errors, runs, short⟩
    refine ⟨⟨⟨if_neg errors, if_neg runs⟩, if_neg short⟩, ?_⟩
    split
    · exact if_neg fun stalled => short stalled.1
    · rfl

end Assess

theorem assess_eq_ok_iff {sig : Signals} {secondsOnExercise : Int} {edits : EditActivity}
    {fences : Fences} :
    (assess sig secondsOnExercise edits fences).1 = .ok ↔
      ¬ NeedsHelp sig secondsOnExercise edits fences ∧
        ¬ NeedsWatching sig secondsOnExercise edits fences := by
  rw [assess_level]
  split
  · next help => simp [help]
  · next help =>
      split
      · next watch => simp [watch]
      · next watch => simp [help, watch]

/-- One input is nowhere better than another. -/
structure NoBetter (sig : Signals) (seconds : Int) (edits : EditActivity)
    (worseSig : Signals) (worseSeconds : Int) (worseEdits : EditActivity) : Prop where
  errors : sig.errors ≤ worseSig.errors
  failedRuns : sig.failedRuns ≤ worseSig.failedRuns
  seconds : seconds ≤ worseSeconds
  /-- Both are known, or neither is. -/
  sinceLast : Option.Rel (· ≤ ·) edits.sinceLastSecs worseEdits.sinceLastSecs
  recent : worseEdits.recent ≤ edits.recent

namespace NoBetter

variable {sig worseSig : Signals} {seconds worseSeconds : Int} {edits worseEdits : EditActivity}
  {fences : Fences} (worse : NoBetter sig seconds edits worseSig worseSeconds worseEdits)

include worse

theorem silent (silent : edits.sinceLastSecs.any (fun since => since ≥ STALL_SECS) = true) :
    worseEdits.sinceLastSecs.any (fun since => since ≥ STALL_SECS) = true := by
  have sinceLast := worse.sinceLast
  revert silent sinceLast
  generalize edits.sinceLastSecs = before, worseEdits.sinceLastSecs = after
  intro silent sinceLast
  cases sinceLast with
  | none => exact silent
  | some longer => exact decide_eq_true ((of_decide_eq_true silent).trans longer)

theorem stalled (stalled : Stalled seconds edits fences) :
    Stalled worseSeconds worseEdits fences :=
  ⟨stalled.1.trans worse.seconds, worse.silent stalled.2⟩

/-- Whoever works in the worse case does in the better one. -/
theorem working (working : Working worseEdits) : Working edits := by
  obtain ⟨some, lately⟩ := working
  refine ⟨Int32.lt_of_lt_of_le some worse.recent, ?_⟩
  have sinceLast := worse.sinceLast
  revert lately sinceLast
  generalize edits.sinceLastSecs = before, worseEdits.sinceLastSecs = after
  intro lately sinceLast
  cases sinceLast with
  | none => exact lately
  | some longer => exact decide_eq_true (longer.trans_lt (of_decide_eq_true lately))

theorem needsHelp (help : NeedsHelp sig seconds edits fences) :
    NeedsHelp worseSig worseSeconds worseEdits fences := by
  rcases help with errors | runs | ⟨long, idle⟩ | ⟨stalled, trouble⟩
  · exact .inl (Int32.le_trans errors worse.errors)
  · exact .inr (.inl (Int32.le_trans runs worse.failedRuns))
  · exact .inr (.inr (.inl ⟨long.trans worse.seconds, fun works => idle (worse.working works)⟩))
  · refine .inr (.inr (.inr ⟨worse.stalled stalled, ?_⟩))
    exact trouble.imp (Int32.le_trans · worse.errors) (Int32.le_trans · worse.failedRuns)

theorem needsWatching (watch : NeedsWatching sig seconds edits fences) :
    NeedsWatching worseSig worseSeconds worseEdits fences := by
  rcases watch with stalled | errors | runs | long
  · exact .inl (worse.stalled stalled)
  · exact .inr (.inl (Int32.le_trans errors worse.errors))
  · exact .inr (.inr (.inl (Int32.le_trans runs worse.failedRuns)))
  · exact .inr (.inr (.inr (long.trans worse.seconds)))

theorem struggleRank_le :
    struggleRank (assess sig seconds edits fences).1 ≤
      struggleRank (assess worseSig worseSeconds worseEdits fences).1 := by
  rw [assess_level, assess_level]
  by_cases help : NeedsHelp sig seconds edits fences
  · rw [if_pos help, if_pos (worse.needsHelp help)]
  · rw [if_neg help]
    by_cases watch : NeedsWatching sig seconds edits fences
    · rw [if_pos watch, if_pos (worse.needsWatching watch)]
      split <;> decide
    · rw [if_neg watch]
      exact Nat.zero_le _

end NoBetter

/-- Where help comes no sooner than watching, whoever needs either has a reason. -/
theorem assess_ne_ok_iff {fences : Fences} (ordered : fences.watch ≤ fences.help) (sig : Signals)
    (seconds : Int) (edits : EditActivity) :
    (assess sig seconds edits fences).1 ≠ .ok ↔ (assess sig seconds edits fences).2 ≠ [] := by
  rw [not_iff_not, assess_eq_ok_iff, assess_reasons_eq_nil_iff]
  constructor
  · rintro ⟨-, watch⟩
    unfold NeedsWatching at watch
    tauto
  · rintro ⟨errors, runs, short⟩
    unfold NeedsHelp NeedsWatching Stalled
    obtain ⟨noError, -, notThree⟩ := few_of_not_pos errors
    obtain ⟨noRun, notTwo, -⟩ := few_of_not_pos runs
    have notLong : ¬ seconds ≥ fences.help := fun long => short (ordered.trans long)
    tauto

/-- Of two inputs of which one is nowhere better, it gets the higher level, or the same;
and a student is flagged exactly if there is a reason to give. -/
theorem assess_monotone {fences : Fences} (ordered : fences.watch ≤ fences.help) :
    (∀ {sig worseSig : Signals} {seconds worseSeconds : Int} {edits worseEdits : EditActivity},
      NoBetter sig seconds edits worseSig worseSeconds worseEdits →
      struggleRank (assess sig seconds edits fences).1 ≤
        struggleRank (assess worseSig worseSeconds worseEdits fences).1) ∧
    ∀ sig seconds edits, (assess sig seconds edits fences).1 ≠ .ok ↔
      (assess sig seconds edits fences).2 ≠ [] :=
  ⟨NoBetter.struggleRank_le, assess_ne_ok_iff ordered⟩

/-- Half an hour on an exercise, once typing and once silent. -/
theorem assess_monotone_silent :
    struggleRank (assess .none 1800 ⟨2, some 10⟩ .fixed).1 ≤
      struggleRank (assess .none 1800 ⟨0, some 600⟩ .fixed).1 :=
  (@assess_monotone .fixed (by decide)).1
    ⟨by decide, by decide, le_refl _, .some (by decide), by decide⟩

end Hermione
