import Hermione.StoreNumbers

/-!
# The whole account of the store

What a list of calls on the store is answered, said without its state.
-/

namespace Hermione

open EventRuns SnapshotStore ReferenceStore

/-- What a list of calls on the store is answered. -/
structure StoreAccount (calls : List Timed) : Prop where
  /-- Every answer is that of a store that never prunes. -/
  reference : answers SnapshotStore.step SnapshotStore.empty calls =
    answers ReferenceStore.step ReferenceStore.empty calls
  /-- `latest` answers nothing before the first insert for the slot. -/
  latestNone : ∀ before now slot after,
    calls = before ++ ⟨now, .latest slot⟩ :: after →
    (∀ timed ∈ before, ¬ InsertsInto slot timed) →
    answerTo before ⟨now, .latest slot⟩ = .latest none
  /-- It answers the last snapshot inserted for the slot, if that was inserted or
  last touched less than the TTL ago. -/
  latestSome : ∀ before received slot snapshot since now after,
    calls = before ++ ⟨received, .insert slot snapshot⟩ :: since ++
      ⟨now, .latest slot⟩ :: after →
    (∀ timed ∈ since, ¬ InsertsInto slot timed) →
    let rev := before.countP isInsert + 1
    let age := elapsed now (lastConfirmed slot rev received since)
    answerTo (before ++ ⟨received, .insert slot snapshot⟩ :: since) ⟨now, .latest slot⟩ =
      .latest (if age < ttl then some ⟨snapshot, age, rev⟩ else none)
  /-- Numbers strictly increase. -/
  numbers : ((answers SnapshotStore.step SnapshotStore.empty calls).filterMap
    Answer.number).Pairwise (· < ·)
  /-- A touch with another number than the slot's last changes nothing. -/
  superseded : ∀ before received slot snapshot since now rev after,
    calls = before ++ ⟨received, .insert slot snapshot⟩ :: since ++
      ⟨now, .touch slot rev⟩ :: after →
    (∀ timed ∈ since, ¬ InsertsInto slot timed) →
    rev ≠ before.countP isInsert + 1 →
    let store := final SnapshotStore.step SnapshotStore.empty
      (before ++ ⟨received, .insert slot snapshot⟩ :: since)
    store.touch now slot rev = store
  /-- An ask is granted if and only if it is an interval after every one granted. -/
  asks : ∀ before now slot after,
    calls = before ++ ⟨now, .claimAsk slot⟩ :: after →
    (answerTo before ⟨now, .claimAsk slot⟩ = .due true ↔
      ∀ instant, Granted before slot instant → instant + askInterval ≤ now)
  /-- Until a slot's next insert the answers about it are those it would get without the
  calls on others. -/
  others : ∀ before since slot,
    calls = before ++ since → (∀ timed ∈ since, ¬ InsertsInto slot timed) →
    answersAbout slot since (answersAfter before since) =
      answersAfter before (since.filter fun timed => timed.call.slot = slot)
  /-- At any time they are, but for the numbers, those of a store that only the slot's own
  calls were made to. -/
  alone : ∀ slot, (answersAbout slot calls (answersAfter [] calls)).map
      (Answer.renumber (ownNumber slot calls)) = answersAfter [] (ownCalls slot calls)
  /-- Other numbers stay apart, and in order. -/
  apart : ∀ slot, (ownNumber slot calls).Injective ∧
    ∀ first second, Owns slot calls first → Owns slot calls second → first < second →
      ownNumber slot calls first < ownNumber slot calls second

theorem store_account (calls : List Timed) (admissible : AdmissibleCalls calls) :
    StoreAccount calls where
  reference := (answers_eq_reference admissible).1
  latestNone := by
    rintro before now slot after rfl notInto
    rw [answerTo_eq admissible]
    simp [ReferenceStore.step, ReferenceStore.latest, latestOf_after_none notInto]
  latestSome := by
    rintro before received slot snapshot since now after rfl notInto
    rw [answerTo_eq admissible]
    simp [ReferenceStore.step, ReferenceStore.latest, latestOf_after_insert notInto]
  numbers := by
    rw [(answers_eq_reference admissible).1, numbers_answers]
    exact List.pairwise_lt_range'
  superseded := by
    rintro before received slot snapshot since now rev after rfl notInto different
    obtain ⟨first, _⟩ := allowed_of_admissible admissible
    have entry := (refines_after first).latest slot
    rw [latestOf_after_insert notInto] at entry
    have dropped : ((final SnapshotStore.step SnapshotStore.empty
        (before ++ ⟨received, .insert slot snapshot⟩ :: since)).latestOf.lookup slot).filter
          (fun stored => stored.rev == rev) = none := by
      rcases entry with same | ⟨missing, _⟩
      · rw [same, Option.filter_some, if_neg (by simpa using Ne.symm different)]
      · rw [missing, Option.filter_none]
    dsimp only
    unfold SnapshotStore.touch
    rw [dropped]
  asks := by
    rintro before now slot after rfl
    exact answerTo_claimAsk_iff admissible
  others := by
    rintro before since slot rfl notInto
    exact answersAbout_after admissible notInto
  alone := answersAbout_renumber admissible
  apart slot := ⟨ownNumber_injective slot calls, fun _ _ => ownNumber_lt⟩

/-- Two students' snapshots, one of them confirmed and read. -/
def twoStudents : List Timed :=
  [⟨0, .insert ⟨0, alice⟩ .empty⟩, ⟨1, .insert ⟨0, bob⟩ .declined⟩,
    ⟨5, .touch ⟨0, alice⟩ 1⟩, ⟨6, .latest ⟨0, alice⟩⟩, ⟨7, .claimAsk ⟨0, alice⟩⟩]

theorem admissible_twoStudents : AdmissibleCalls twoStudents := by
  refine ⟨⟨by decide, trivial⟩, ⟨by decide, trivial⟩, ⟨by decide, Or.inl ?_⟩,
    ⟨by decide, trivial⟩, ⟨by decide, trivial⟩, trivial⟩
  exact ⟨⟨.empty, 5, 1⟩, rfl, rfl⟩

theorem store_account_twoStudents : StoreAccount twoStudents :=
  store_account twoStudents admissible_twoStudents

/-- The second student's snapshot is given another number than without the first's. -/
theorem not_answers_alone_twoStudents :
    AdmissibleCalls twoStudents ∧
      answersAbout ⟨0, bob⟩ twoStudents (answersAfter [] twoStudents) = [.rev 2] ∧
      answersAfter [] (twoStudents.filter fun timed => timed.call.slot = ⟨0, bob⟩) = [.rev 1] :=
  ⟨admissible_twoStudents, rfl, rfl⟩

end Hermione
