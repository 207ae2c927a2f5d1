import Hermione.StoreHistory

/-!
# Slots and the numbers they share

Numbers come from one counter for all slots, and nothing else ties a slot to the
others.  So until its next insert the answers about a slot are those it would get
without the calls on others; and renumbered, as if the slot's own inserts had been
counted, they always are.
-/

namespace Hermione

open EventRuns SnapshotStore ReferenceStore

/-- The answers to the calls about one slot. -/
def answersAbout (slot : Slot) (calls : List Timed) (answers : List Answer) : List Answer :=
  (calls.zip answers).filterMap fun entry =>
    if entry.1.call.slot = slot then some entry.2 else none

/-! ### Other numbers -/

def Stored.renumber (number : Nat → Nat) (stored : Stored) : Stored :=
  { stored with rev := number stored.rev }

def Latest.renumber (number : Nat → Nat) (latest : Latest) : Latest :=
  { latest with rev := number latest.rev }

namespace SnapshotStore

def Timed.renumber (number : Nat → Nat) (timed : Timed) : Timed :=
  { timed with
    call :=
      match timed.call with
      | .touch slot rev => .touch slot (number rev)
      | call => call }

def Answer.renumber (number : Nat → Nat) : Answer → Answer
  | .rev given => .rev (number given)
  | .latest shown => .latest (shown.map (Latest.renumber number))
  | answer => answer

theorem Timed.renumber_id (timed : Timed) : timed.renumber id = timed := by
  obtain ⟨now, call⟩ := timed
  cases call <;> rfl

theorem Answer.renumber_id (answer : Answer) : answer.renumber id = answer := by
  cases answer with
  | latest latest => cases latest <;> rfl
  | _ => rfl

end SnapshotStore

@[simp]
theorem isInsert_renumber (number : Nat → Nat) (timed : Timed) :
    isInsert (timed.renumber number) = isInsert timed := by
  obtain ⟨now, call⟩ := timed
  cases call <;> rfl

/-- Two reference stores that agree about one slot, up to its numbers. -/
structure AgreeAt (number : Nat → Nat) (slot : Slot) (first second : ReferenceStore) : Prop where
  latest : second.latestOf slot = (first.latestOf slot).map (Stored.renumber number)
  asked : second.asked slot = first.asked slot
  clock : second.clock ≤ first.clock

variable {calls before since : List Timed} {timed : Timed} {slot : Slot}

namespace AgreeAt

variable {number : Nat → Nat} {first second : ReferenceStore}

/-- A call on another slot keeps the agreement. -/
theorem step_other (agree : AgreeAt number slot first second)
    (later : first.clock ≤ timed.now) (other : timed.call.slot ≠ slot) :
    AgreeAt number slot (first.step timed).1 second := by
  have bound : second.clock ≤ (first.step timed).1.clock := by
    rw [clock_step]
    exact agree.clock.trans later
  obtain ⟨now, call⟩ := timed
  cases call with
  | insert owner snapshot =>
      refine ⟨?_, agree.asked, bound⟩
      rw [agree.latest]
      exact congrArg _ (Function.update_of_ne (Ne.symm other) _ _).symm
  | latest owner => exact ⟨agree.latest, agree.asked, bound⟩
  | touch owner rev =>
      unfold ReferenceStore.step at bound ⊢
      dsimp only at bound ⊢
      split
      · refine ⟨?_, agree.asked, by simpa using agree.clock.trans later⟩
        rw [agree.latest]
        exact congrArg _ (Function.update_of_ne (Ne.symm other) _ _).symm
      · exact ⟨agree.latest, agree.asked, by simpa using agree.clock.trans later⟩
  | claimAsk owner =>
      unfold ReferenceStore.step at bound ⊢
      dsimp only at bound ⊢
      split
      · refine ⟨agree.latest, ?_, by simpa using agree.clock.trans later⟩
        rw [agree.asked]
        exact (Function.update_of_ne (Ne.symm other) _ _).symm
      · exact ⟨agree.latest, agree.asked, by simpa using agree.clock.trans later⟩

/-- What `latest` answers about the slot. -/
theorem latest_eq (agree : AgreeAt number slot first second) (now : Nat) :
    second.latest now slot = (first.latest now slot).map (Latest.renumber number) := by
  rw [ReferenceStore.latest, ReferenceStore.latest, agree.latest]
  cases first.latestOf slot with
  | none => rfl
  | some stored =>
      by_cases fresh : elapsed now stored.received < ttl
      · simp [Stored.renumber, Latest.renumber, fresh]
      · simp [Stored.renumber, fresh]

/-- A touch names the entry of the one store if it names that of the other. -/
theorem filter_eq (agree : AgreeAt number slot first second) (apart : number.Injective)
    (rev : Nat) :
    ((second.latestOf slot).filter fun stored => stored.rev == number rev) =
      ((first.latestOf slot).filter fun stored => stored.rev == rev).map
        (Stored.renumber number) := by
  rw [agree.latest]
  cases first.latestOf slot with
  | none => rfl
  | some stored =>
      by_cases named : stored.rev = rev
      · simp [Option.filter_some, Stored.renumber, named]
      · have other : number stored.rev ≠ number rev := fun same => named (apart same)
        simp [Option.filter_some, Stored.renumber, named, other]

/-- A call on the slot itself is allowed alike, answered alike and keeps the agreement,
if an insert is given the number it should. -/
theorem step_own (agree : AgreeAt number slot first second) (apart : number.Injective)
    (allowed : first.Allowed timed) (own : timed.call.slot = slot)
    (numbered : InsertsInto slot timed → number (first.nextRev + 1) = second.nextRev + 1) :
    second.Allowed (timed.renumber number) ∧
      (second.step (timed.renumber number)).2 = (first.step timed).2.renumber number ∧
      AgreeAt number slot (first.step timed).1 (second.step (timed.renumber number)).1 := by
  obtain ⟨now, call⟩ := timed
  obtain ⟨later, named⟩ := allowed
  have laterSecond : second.clock ≤ now := agree.clock.trans later
  cases call with
  | insert owner snapshot =>
      obtain rfl : owner = slot := own
      have same := numbered ⟨snapshot, rfl⟩
      refine ⟨⟨laterSecond, trivial⟩, congrArg Answer.rev same.symm, ?_, agree.asked, Nat.le_refl _⟩
      simp [ReferenceStore.step, Timed.renumber, Stored.renumber, same]
  | latest owner =>
      obtain rfl : owner = slot := own
      refine ⟨⟨laterSecond, trivial⟩, congrArg Answer.latest (agree.latest_eq now),
        agree.latest, agree.asked, Nat.le_refl _⟩
  | touch owner rev =>
      obtain rfl : owner = slot := own
      have filtered := agree.filter_eq apart rev
      refine ⟨⟨laterSecond, ?_⟩, ?_⟩
      · rcases named with ⟨latest, found, rfl⟩ | other
        · left
          have shown := (agree.latest_eq now).trans (congrArg (Option.map _) found)
          exact ⟨latest.renumber number, shown, rfl⟩
        · right
          intro stored found
          rw [agree.latest] at found
          obtain ⟨old, there, rfl⟩ := Option.map_eq_some_iff.mp found
          exact fun same => other old there (apart same)
      · unfold ReferenceStore.step Timed.renumber
        dsimp only
        rw [filtered]
        cases (first.latestOf owner).filter fun stored => stored.rev == rev with
        | none => exact ⟨rfl, agree.latest, agree.asked, Nat.le_refl _⟩
        | some stored =>
            refine ⟨rfl, ?_, agree.asked, Nat.le_refl _⟩
            simp [Stored.renumber]
  | claimAsk owner =>
      obtain rfl : owner = slot := own
      refine ⟨⟨laterSecond, trivial⟩, ?_⟩
      unfold ReferenceStore.step ReferenceStore.due Timed.renumber
      dsimp only
      rw [agree.asked]
      split
      · refine ⟨rfl, agree.latest, ?_, Nat.le_refl _⟩
        simp
      · exact ⟨rfl, agree.latest, agree.asked, Nat.le_refl _⟩

/-- Leaving out the calls on other slots leaves the answers about the slot, up to the
numbers, as long as these are as they should be. -/
theorem answersAbout_eq (agree : AgreeAt number slot first second) (apart : number.Injective)
    (admissible : Admissible ReferenceStore.step ReferenceStore.Allowed first since)
    (numbered : ∀ done timed rest, since = done ++ timed :: rest → InsertsInto slot timed →
      number (first.nextRev + done.countP isInsert + 1) =
        second.nextRev + done.countP (fun timed => isInsert timed && timed.call.slot = slot) + 1) :
    let own := (since.filter fun timed => timed.call.slot = slot).map (Timed.renumber number)
    Admissible ReferenceStore.step ReferenceStore.Allowed second own ∧
      (answersAbout slot since (answers ReferenceStore.step first since)).map
          (Answer.renumber number) = answers ReferenceStore.step second own := by
  induction since generalizing first second with
  | nil => exact ⟨trivial, rfl⟩
  | cons timed since ih =>
      obtain ⟨allowed, rest⟩ := admissible
      by_cases own : timed.call.slot = slot
      · obtain ⟨allowedSecond, sameAnswer, agreeNext⟩ :=
          agree.step_own apart allowed own (numbered [] timed since rfl)
        have counted : (second.step (timed.renumber number)).1.nextRev =
            second.nextRev + if isInsert timed then 1 else 0 := by
          rw [nextRev_step, isInsert_renumber]
        obtain ⟨restSecond, sameRest⟩ := ih agreeNext rest (by
          intro done other later split inserts
          have given := numbered (timed :: done) other later (by rw [split]; rfl) inserts
          rw [nextRev_step, counted]
          simp only [List.countP_cons, own, decide_true, Bool.and_true] at given ⊢
          convert given using 2 <;> omega)
        dsimp only
        rw [List.filter_cons_of_pos (by simpa using own), List.map_cons]
        refine ⟨⟨allowedSecond, restSecond⟩, ?_⟩
        rw [answers, answers, ← sameRest, sameAnswer]
        simp [answersAbout, own]
      · obtain ⟨restSecond, sameRest⟩ := ih (agree.step_other allowed.1 own) rest (by
          intro done other later split inserts
          have given := numbered (timed :: done) other later (by rw [split]; rfl) inserts
          rw [nextRev_step]
          simp only [List.countP_cons, own, decide_false, Bool.and_false, Bool.false_eq_true,
            if_false] at given ⊢
          convert given using 2 <;> omega)
        dsimp only
        rw [List.filter_cons_of_neg (by simpa using own)]
        refine ⟨restSecond, ?_⟩
        rw [answers, ← sameRest]
        simp [answersAbout, own]

end AgreeAt

/-! ### A slot's own numbers -/

/-- Whose snapshot each insert brought, in order. -/
def owners (calls : List Timed) : List Slot :=
  (calls.filter isInsert).map fun timed => timed.call.slot

/-- The insert that is given this number is for the slot. -/
def Owns (slot : Slot) (calls : List Timed) (number : Nat) : Prop :=
  0 < number ∧ (owners calls)[number - 1]? = some slot

instance (slot : Slot) (calls : List Timed) (number : Nat) : Decidable (Owns slot calls number) :=
  inferInstanceAs (Decidable (_ ∧ _))

/-- A number as it would be if the slot's inserts alone were counted.  Those that no
insert into the slot is given are kept out of the way. -/
def ownNumber (slot : Slot) (calls : List Timed) (number : Nat) : Nat :=
  if Owns slot calls number then ((owners calls).take number).count slot
  else (owners calls).length + number + 1

section Numbers

variable {number : Nat}

theorem take_of_owns (owns : Owns slot calls number) :
    (owners calls).take number = (owners calls).take (number - 1) ++ [slot] := by
  have next : number = number - 1 + 1 := by
    have := owns.1
    omega
  conv_lhs => rw [next, List.take_add_one, owns.2]
  rfl

/-- A slot's numbers keep their order. -/
theorem ownNumber_lt {first second : Nat} (one : Owns slot calls first)
    (other : Owns slot calls second) (less : first < second) :
    ownNumber slot calls first < ownNumber slot calls second := by
  have sublist : ((owners calls).take first).Sublist ((owners calls).take (second - 1)) :=
    (List.take_prefix_take_left (by omega)).sublist
  have counts := sublist.count_le slot
  rw [ownNumber, if_pos one, ownNumber, if_pos other, take_of_owns other, List.count_append,
    List.count_singleton_self]
  omega

theorem ownNumber_le (owns : Owns slot calls number) :
    ownNumber slot calls number ≤ (owners calls).length := by
  rw [ownNumber, if_pos owns]
  exact List.count_le_length.trans (List.length_take_le' _ _)

/-- No two numbers become one. -/
theorem ownNumber_injective (slot : Slot) (calls : List Timed) :
    (ownNumber slot calls).Injective := by
  intro first second same
  by_cases one : Owns slot calls first
  · by_cases other : Owns slot calls second
    · rcases Nat.lt_trichotomy first second with less | equal | more
      · exact absurd same (ownNumber_lt one other less).ne
      · exact equal
      · exact absurd same (ownNumber_lt other one more).ne'
    · have small := ownNumber_le one
      rw [same, ownNumber, if_neg other] at small
      omega
  · by_cases other : Owns slot calls second
    · have small := ownNumber_le other
      rw [← same, ownNumber, if_neg one] at small
      omega
    · rw [ownNumber, if_neg one, ownNumber, if_neg other] at same
      omega

/-- An insert into the slot is given the number after those of the inserts before it. -/
theorem ownNumber_of_insert {done rest : List Timed} (inserts : InsertsInto slot timed) :
    ownNumber slot (done ++ timed :: rest) (done.countP isInsert + 1) =
      done.countP (fun timed => isInsert timed && timed.call.slot = slot) + 1 := by
  obtain ⟨now, call⟩ := timed
  obtain ⟨snapshot, rfl⟩ := inserts
  have whole : owners (done ++ ⟨now, .insert slot snapshot⟩ :: rest) =
      owners done ++ slot :: owners rest := by
    rw [owners, List.filter_append, List.map_append]
    rfl
  have length : (owners done).length = done.countP isInsert := by
    rw [owners, List.length_map, List.countP_eq_length_filter]
  have count : (owners done).count slot =
      done.countP fun timed => isInsert timed && timed.call.slot = slot := by
    rw [owners, List.count_eq_countP, List.countP_map, List.countP_filter]
    apply List.countP_congr
    intro timed _
    simp [and_comm]
  have owns : Owns slot (done ++ ⟨now, .insert slot snapshot⟩ :: rest)
      (done.countP isInsert + 1) := by
    refine ⟨Nat.succ_pos _, ?_⟩
    rw [whole, Nat.add_sub_cancel, ← length, List.getElem?_append_right (Nat.le_refl _),
      Nat.sub_self]
    rfl
  rw [ownNumber, if_pos owns, take_of_owns owns, Nat.add_sub_cancel, whole, ← length,
    List.take_left, List.count_append, count, List.count_singleton_self]

end Numbers

/-! ### The store's answers -/

/-- The store's own answers, from the state a list of calls leaves it in. -/
abbrev answersAfter (before since : List Timed) : List Answer :=
  answers SnapshotStore.step (final SnapshotStore.step SnapshotStore.empty before) since

/-- A slot's calls as they would be with its own numbers. -/
def ownCalls (slot : Slot) (calls : List Timed) : List Timed :=
  (calls.filter fun timed => timed.call.slot = slot).map (Timed.renumber (ownNumber slot calls))

/-- Where the two stores are the same for a slot, so are their answers about it. -/
theorem answersAbout_of_agree {number : Nat → Nat} {own : List Timed} {first : SnapshotStore}
    {reference other : ReferenceStore} {second : SnapshotStore}
    (related : Refines first reference) (alike : Refines second other)
    (admissible : Admissible ReferenceStore.step ReferenceStore.Allowed reference since)
    (same : Admissible ReferenceStore.step ReferenceStore.Allowed other own ∧
      (answersAbout slot since (answers ReferenceStore.step reference since)).map
          (Answer.renumber number) = answers ReferenceStore.step other own) :
    (answersAbout slot since (answers SnapshotStore.step first since)).map
        (Answer.renumber number) = answers SnapshotStore.step second own := by
  have simulates (store : SnapshotStore) (reference : ReferenceStore) (timed : Timed)
      (related : Refines store reference) (allowed : reference.Allowed timed) :=
    related.step allowed
  rw [(answers_eq_of_simulation simulates related admissible).1, same.2,
    (answers_eq_of_simulation simulates alike same.1).1]

/-- Up to their numbers, the answers about a slot are those of a store that only the
calls on that slot are made to. -/
theorem answersAbout_renumber (admissible : AdmissibleCalls calls) (slot : Slot) :
    (answersAbout slot calls (answersAfter [] calls)).map
        (Answer.renumber (ownNumber slot calls)) = answersAfter [] (ownCalls slot calls) := by
  have agree : AgreeAt (ownNumber slot calls) slot ReferenceStore.empty ReferenceStore.empty :=
    ⟨rfl, rfl, Nat.le_refl _⟩
  apply answersAbout_of_agree refines_empty refines_empty admissible
  apply agree.answersAbout_eq (ownNumber_injective slot calls) admissible
  rintro done timed rest rfl inserts
  simpa [ReferenceStore.empty] using ownNumber_of_insert inserts

/-- And until the slot's next insert they are the same. -/
theorem answersAbout_after (admissible : AdmissibleCalls (before ++ since))
    (notInto : ∀ timed ∈ since, ¬ InsertsInto slot timed) :
    answersAbout slot since (answersAfter before since) =
      answersAfter before (since.filter fun timed => timed.call.slot = slot) := by
  obtain ⟨first, second⟩ := admissible_append_iff.mp admissible
  have related := refines_after first
  have agree : AgreeAt id slot (ReferenceStore.after before) (ReferenceStore.after before) := by
    refine ⟨?_, rfl, Nat.le_refl _⟩
    cases (ReferenceStore.after before).latestOf slot <;> rfl
  have same := answersAbout_of_agree related related second
    (agree.answersAbout_eq Function.injective_id second fun done timed rest split inserts =>
      absurd inserts (notInto timed (by simp [split])))
  simpa only [List.map_congr_left fun answer _ => Answer.renumber_id answer,
    List.map_congr_left fun timed _ => Timed.renumber_id timed, List.map_id'] using same

end Hermione
