import Hermione.StoreRefinement

/-!
# What the store answers, told by its history

Through the reference every answer is a fact about the calls before it: the
last snapshot inserted for the slot and the touches that confirmed it since, the
number of inserts, the asks granted.  Calls on other slots do not come into it.
-/

namespace Hermione

open EventRuns SnapshotStore

/-- Whether a call inserts a snapshot for a slot. -/
def InsertsInto (slot : Slot) (timed : Timed) : Prop :=
  ∃ snapshot, timed.call = .insert slot snapshot

def isInsert (timed : Timed) : Bool :=
  match timed.call with
  | .insert _ _ => true
  | _ => false

/-- When the touches of one snapshot were made. -/
def touchTimes (slot : Slot) (rev : Nat) (calls : List Timed) : List Nat :=
  calls.filterMap fun timed =>
    match timed.call with
    | .touch other number => if other = slot ∧ number = rev then some timed.now else none
    | _ => none

/-- The last instant a snapshot inserted at `received` was confirmed at. -/
def lastConfirmed (slot : Slot) (rev received : Nat) (since : List Timed) : Nat :=
  (touchTimes slot rev since).getLast?.getD received

/-- What the store answers a call with after the calls before it. -/
def answerTo (before : List Timed) (timed : Timed) : Answer :=
  (SnapshotStore.step (final SnapshotStore.step SnapshotStore.empty before) timed).2

/-- The ask at `instant` was granted. -/
def Granted (calls : List Timed) (slot : Slot) (instant : Nat) : Prop :=
  ∃ before after, calls = before ++ ⟨instant, .claimAsk slot⟩ :: after ∧
    answerTo before ⟨instant, .claimAsk slot⟩ = .due true

def SnapshotStore.Answer.number : Answer → Option Nat
  | .rev number => some number
  | _ => none

namespace ReferenceStore

variable {reference : ReferenceStore} {slot : Slot}

/-- The state the reference is left in by a list of calls. -/
abbrev after (calls : List Timed) : ReferenceStore :=
  final ReferenceStore.step ReferenceStore.empty calls

@[simp]
theorem clock_step (reference : ReferenceStore) (timed : Timed) :
    (reference.step timed).1.clock = timed.now := by
  obtain ⟨now, call⟩ := timed
  cases call with
  | insert slot snapshot => rfl
  | touch slot rev =>
      unfold step
      dsimp only
      split <;> rfl
  | latest slot => rfl
  | claimAsk slot =>
      unfold step
      dsimp only
      split <;> rfl

theorem nextRev_step (reference : ReferenceStore) (timed : Timed) :
    (reference.step timed).1.nextRev =
      reference.nextRev + if isInsert timed then 1 else 0 := by
  obtain ⟨now, call⟩ := timed
  cases call with
  | insert slot snapshot => rfl
  | touch slot rev =>
      unfold step
      dsimp only
      split <;> rfl
  | latest slot => rfl
  | claimAsk slot =>
      unfold step
      dsimp only
      split <;> rfl

theorem nextRev_final (reference : ReferenceStore) (calls : List Timed) :
    (final step reference calls).nextRev =
      reference.nextRev + calls.countP isInsert := by
  induction calls generalizing reference with
  | nil => rfl
  | cons timed calls ih =>
      have rest := ih (reference.step timed).1
      rw [nextRev_step] at rest
      rw [List.countP_cons]
      change (final step (reference.step timed).1 calls).nextRev = _
      rw [rest]
      omega

/-- A call that inserts nothing for a slot keeps its entry, but for the instant
of a touch. -/
theorem latestOf_step {timed : Timed} (notInto : ¬ InsertsInto slot timed) :
    (reference.step timed).1.latestOf slot = (reference.latestOf slot).map fun stored =>
      { stored with
        received := lastConfirmed slot stored.rev stored.received [timed] } := by
  obtain ⟨now, call⟩ := timed
  have identity : ∀ entry : Option Stored, entry =
      entry.map fun stored => { stored with received := stored.received } := by
    intro entry
    cases entry <;> rfl
  cases call with
  | insert other snapshot =>
      have different : slot ≠ other := by
        rintro rfl
        exact notInto ⟨snapshot, rfl⟩
      change Function.update reference.latestOf other _ slot = _
      rw [Function.update_of_ne different]
      exact identity _
  | latest other => exact identity _
  | claimAsk other =>
      have kept : (reference.step ⟨now, .claimAsk other⟩).1.latestOf = reference.latestOf := by
        unfold step
        dsimp only
        split <;> rfl
      rw [kept]
      exact identity _
  | touch other rev =>
      by_cases same : other = slot
      · subst same
        unfold step
        dsimp only
        cases found : reference.latestOf other with
        | none => simp [found]
        | some stored =>
            by_cases named : stored.rev = rev
            · simp [Option.filter_some, named, lastConfirmed, touchTimes]
            · simp [Option.filter_some, named, found, lastConfirmed, touchTimes, Ne.symm named]
      · have kept : (reference.step ⟨now, .touch other rev⟩).1.latestOf slot =
            reference.latestOf slot := by
          unfold step
          dsimp only
          split
          · exact Function.update_of_ne (Ne.symm same) _ _
          · rfl
        rw [kept]
        simp [lastConfirmed, touchTimes, same]

theorem lastConfirmed_cons (slot : Slot) (rev received : Nat) (timed : Timed)
    (since : List Timed) :
    lastConfirmed slot rev received (timed :: since) =
      lastConfirmed slot rev (lastConfirmed slot rev received [timed]) since := by
  unfold lastConfirmed touchTimes
  rw [List.filterMap_cons]
  split <;> rename_i nothing <;> simp [nothing, List.getLast?_cons]

/-- Over calls that insert nothing for a slot its entry is only confirmed. -/
theorem latestOf_final (reference : ReferenceStore) {since : List Timed}
    (notInto : ∀ timed ∈ since, ¬ InsertsInto slot timed) :
    (final step reference since).latestOf slot = (reference.latestOf slot).map fun stored =>
      { stored with
        received := lastConfirmed slot stored.rev stored.received since } := by
  induction since generalizing reference with
  | nil => cases found : reference.latestOf slot <;> simp [final, found, lastConfirmed, touchTimes]
  | cons timed since ih =>
      have rest := ih (reference.step timed).1
        (fun other member => notInto other (List.mem_cons_of_mem _ member))
      rw [latestOf_step (notInto timed List.mem_cons_self)] at rest
      change (final step (reference.step timed).1 since).latestOf slot = _
      rw [rest, Option.map_map]
      congr 1
      funext stored
      simp only [Function.comp, lastConfirmed_cons slot stored.rev stored.received timed since]

/-- After an insert for a slot, and no other since, its entry is the one inserted. -/
theorem latestOf_after_insert {before since : List Timed} {now : Nat} {snapshot : Snapshot}
    (notInto : ∀ timed ∈ since, ¬ InsertsInto slot timed) :
    (after (before ++ ⟨now, .insert slot snapshot⟩ :: since)).latestOf slot =
      some { snapshot
             received := lastConfirmed slot (before.countP isInsert + 1) now since
             rev := before.countP isInsert + 1 } := by
  have counted : (after before).nextRev = before.countP isInsert := by
    rw [after, nextRev_final]
    exact Nat.zero_add _
  have inserted : ((after before).step ⟨now, .insert slot snapshot⟩).1.latestOf slot =
      some { snapshot, received := now, rev := before.countP isInsert + 1 } := by
    rw [← counted]
    exact Function.update_self _ _ _
  have kept := latestOf_final ((after before).step ⟨now, .insert slot snapshot⟩).1 notInto
  rw [inserted] at kept
  rw [after, final_append]
  exact kept

theorem latestOf_after_none {before : List Timed}
    (notInto : ∀ timed ∈ before, ¬ InsertsInto slot timed) :
    (after before).latestOf slot = none := by
  rw [after, latestOf_final _ notInto]
  rfl

/-- The numbers a run of calls hands out are consecutive. -/
theorem numbers_answers (reference : ReferenceStore) (calls : List Timed) :
    (answers step reference calls).filterMap Answer.number =
      List.range' (reference.nextRev + 1) (calls.countP isInsert) := by
  induction calls generalizing reference with
  | nil => rfl
  | cons timed calls ih =>
      have rest := ih (reference.step timed).1
      rw [nextRev_step] at rest
      rw [answers, List.filterMap_cons, List.countP_cons, rest]
      obtain ⟨now, call⟩ := timed
      cases call with
      | insert slot snapshot =>
          simp [step, Answer.number, isInsert, List.range'_succ]
      | touch slot rev =>
          have noNumber : (reference.step ⟨now, .touch slot rev⟩).2 = .done := by
            unfold step
            dsimp only
            split <;> rfl
          simp [noNumber, Answer.number, isInsert]
      | latest slot => simp [step, Answer.number, isInsert]
      | claimAsk slot =>
          have noNumber : (reference.step ⟨now, .claimAsk slot⟩).2.number = none := by
            unfold step
            dsimp only
            split <;> rfl
          simp [noNumber, isInsert]

end ReferenceStore

/-! ### From the reference to the store -/

open ReferenceStore

/-- Calls as they may come from the start. -/
abbrev AdmissibleCalls (calls : List Timed) : Prop :=
  Admissible ReferenceStore.step ReferenceStore.Allowed ReferenceStore.empty calls

variable {calls before since : List Timed} {timed : Timed} {slot : Slot}

theorem refines_after (admissible : AdmissibleCalls before) :
    Refines (final SnapshotStore.step SnapshotStore.empty before)
      (ReferenceStore.after before) :=
  (answers_eq_reference admissible).2

theorem allowed_of_admissible (admissible : AdmissibleCalls (before ++ timed :: since)) :
    AdmissibleCalls before ∧ (ReferenceStore.after before).Allowed timed := by
  obtain ⟨first, second⟩ := admissible_append_iff.mp admissible
  exact ⟨first, second.1⟩

theorem answerTo_eq (admissible : AdmissibleCalls (before ++ timed :: since)) :
    answerTo before timed = ((ReferenceStore.after before).step timed).2 := by
  obtain ⟨first, allowed⟩ := allowed_of_admissible admissible
  exact ((refines_after first).step allowed).2

theorem granted_concat_iff {instant : Nat} :
    Granted (calls ++ [timed]) slot instant ↔
      Granted calls slot instant ∨
        timed = ⟨instant, .claimAsk slot⟩ ∧ answerTo calls timed = .due true := by
  constructor
  · rintro ⟨before, after, whole, granted⟩
    rcases List.eq_nil_or_concat after with rfl | ⟨front, last, rfl⟩
    · obtain ⟨rfl, same⟩ := List.append_inj' whole rfl
      obtain rfl : timed = _ := by simpa using same
      exact Or.inr ⟨rfl, granted⟩
    · left
      refine ⟨before, front, ?_, granted⟩
      have regrouped : calls ++ [timed] =
          (before ++ ⟨instant, .claimAsk slot⟩ :: front) ++ [last] := by
        simpa using whole
      exact (List.append_inj' regrouped rfl).1
  · rintro (⟨before, after, rfl, granted⟩ | ⟨rfl, granted⟩)
    · exact ⟨before, after ++ [timed], by simp, granted⟩
    · exact ⟨calls, [], rfl, granted⟩

/-- The reference remembers the last ask it granted, and no later one was. -/
theorem asked_after (admissible : AdmissibleCalls calls) (slot : Slot) :
    (∀ instant, (ReferenceStore.after calls).asked slot = some instant →
      Granted calls slot instant) ∧
    ∀ instant, Granted calls slot instant →
      instant ≤ (ReferenceStore.after calls).clock ∧
        ∃ last, (ReferenceStore.after calls).asked slot = some last ∧ instant ≤ last := by
  induction calls using List.reverseRecOn with
  | nil =>
      refine ⟨by simp [ReferenceStore.after, final, ReferenceStore.empty], ?_⟩
      rintro instant ⟨before, after, whole, _⟩
      simp at whole
  | append_singleton calls timed ih =>
      obtain ⟨first, allowed⟩ := allowed_of_admissible admissible
      obtain ⟨remembered, bounded⟩ := ih first
      have answered := answerTo_eq admissible
      have stepped : ReferenceStore.after (calls ++ [timed]) =
          ((ReferenceStore.after calls).step timed).1 := by
        rw [ReferenceStore.after, final_append]
        rfl
      rw [stepped, clock_step]
      generalize ReferenceStore.after calls = reference at *
      have later : reference.clock ≤ timed.now := allowed.1
      -- Only a granted ask for this slot changes what is remembered for it.
      by_cases grants : timed.call = .claimAsk slot ∧ reference.due timed.now slot = true
      · obtain ⟨now, call⟩ := timed
        obtain ⟨rfl, due⟩ := grants
        have steppedDue : reference.step ⟨now, .claimAsk slot⟩ =
            ({ reference with
                clock := now
                asked := Function.update reference.asked slot (some now) }, .due true) := by
          unfold ReferenceStore.step
          exact if_pos due
        rw [steppedDue] at answered ⊢
        simp only [Function.update_self, Option.some.injEq]
        constructor
        · rintro instant rfl
          exact granted_concat_iff.mpr (Or.inr ⟨rfl, answered⟩)
        · intro instant granted
          rcases granted_concat_iff.mp granted with old | ⟨new, _⟩
          · have early := (bounded instant old).1
            exact ⟨early.trans later, now, rfl, early.trans later⟩
          · cases new
            exact ⟨Nat.le_refl _, now, rfl, Nat.le_refl _⟩
      · have kept : (reference.step timed).1.asked slot = reference.asked slot ∧
            ∀ instant, timed = ⟨instant, .claimAsk slot⟩ →
              (reference.step timed).2 ≠ .due true := by
          obtain ⟨now, call⟩ := timed
          cases call with
          | insert other snapshot => exact ⟨rfl, by simp⟩
          | latest other => exact ⟨rfl, by simp⟩
          | touch other rev =>
              unfold ReferenceStore.step
              dsimp only
              split <;> exact ⟨rfl, by simp⟩
          | claimAsk other =>
              unfold ReferenceStore.step
              dsimp only
              split
              · rename_i due
                have different : slot ≠ other := by
                  rintro rfl
                  exact grants ⟨rfl, due⟩
                refine ⟨Function.update_of_ne different _ _, ?_⟩
                intro instant same
                cases same
                exact absurd rfl different
              · exact ⟨rfl, by simp⟩
        rw [kept.1]
        constructor
        · intro instant isLast
          exact granted_concat_iff.mpr (Or.inl (remembered instant isLast))
        · intro instant granted
          rcases granted_concat_iff.mp granted with old | ⟨new, due⟩
          · obtain ⟨early, found⟩ := bounded instant old
            exact ⟨early.trans later, found⟩
          · rw [answered] at due
            exact absurd due (kept.2 instant new)

/-- An ask is granted exactly when every earlier one was an interval ago. -/
theorem answerTo_claimAsk_iff {now : Nat}
    (admissible : AdmissibleCalls (before ++ ⟨now, .claimAsk slot⟩ :: since)) :
    answerTo before ⟨now, .claimAsk slot⟩ = .due true ↔
      ∀ instant, Granted before slot instant → instant + askInterval ≤ now := by
  have positive : 0 < askInterval := by decide
  obtain ⟨first, _⟩ := allowed_of_admissible admissible
  obtain ⟨remembered, bounded⟩ := asked_after first slot
  have answered : answerTo before ⟨now, .claimAsk slot⟩ =
      .due ((ReferenceStore.after before).due now slot) := by
    rw [answerTo_eq admissible]
    unfold ReferenceStore.step
    dsimp only
    split
    · rename_i due
      exact congrArg Answer.due due.symm
    · rename_i due
      exact congrArg Answer.due (Bool.eq_false_iff.mpr due).symm
  rw [answered, Answer.due.injEq]
  unfold ReferenceStore.due
  constructor
  · intro due instant granted
    obtain ⟨_, last, isLast, below⟩ := bounded instant granted
    rw [isLast, Option.all_some, decide_eq_true_eq] at due
    unfold elapsed at due
    omega
  · intro apart
    cases asked : (ReferenceStore.after before).asked slot with
    | none => rfl
    | some last =>
        have lastApart := apart last (remembered last asked)
        rw [Option.all_some, decide_eq_true_eq]
        unfold elapsed
        omega

end Hermione
