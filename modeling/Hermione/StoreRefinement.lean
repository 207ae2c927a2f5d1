import Mathlib.Logic.Function.Basic
import Hermione.SnapshotStore

/-!
# The store refines one that never prunes

The reference store is a function from slots, so that calls on different slots
cannot meet.  The store's entry for a slot is the reference's, or it was swept
and the reference's has been stale since; what is stale stays stale, because
only a fresh entry is ever touched and a stale ask is due again anyway.
-/

namespace Hermione

open EventRuns SnapshotStore

/-- A store that never prunes, with the instant of its last call. -/
structure ReferenceStore where
  latestOf : Slot → Option Stored
  asked : Slot → Option Nat
  nextRev : Nat
  clock : Nat

namespace ReferenceStore

def empty : ReferenceStore :=
  { latestOf := fun _ => none, asked := fun _ => none, nextRev := 0, clock := 0 }

def latest (store : ReferenceStore) (now : Nat) (slot : Slot) : Option Latest :=
  (store.latestOf slot).bind fun stored =>
    if elapsed now stored.received < ttl then
      some ⟨stored.snapshot, elapsed now stored.received, stored.rev⟩
    else none

def due (store : ReferenceStore) (now : Nat) (slot : Slot) : Bool :=
  (store.asked slot).all fun instant => askInterval ≤ elapsed now instant

def step (store : ReferenceStore) (timed : Timed) : ReferenceStore × Answer :=
  let store := { store with clock := timed.now }
  match timed.call with
  | .insert slot snapshot =>
      let rev := store.nextRev + 1
      ({ store with
          latestOf := Function.update store.latestOf slot
            (some { snapshot, received := timed.now, rev })
          nextRev := rev }, .rev rev)
  | .touch slot rev =>
      match (store.latestOf slot).filter fun stored => stored.rev == rev with
      | some stored =>
          ({ store with
              latestOf := Function.update store.latestOf slot
                (some { stored with received := timed.now }) }, .done)
      | none => (store, .done)
  | .latest slot => (store, .latest (store.latest timed.now slot))
  | .claimAsk slot =>
      if store.due timed.now slot then
        ({ store with asked := Function.update store.asked slot (some timed.now) }, .due true)
      else (store, .due false)

/-- The clock does not go back, and a touch is made while the latest snapshot
carries the number, or with a number that is not the slot's current one. -/
def Allowed (store : ReferenceStore) (timed : Timed) : Prop :=
  store.clock ≤ timed.now ∧
    match timed.call with
    | .touch slot rev =>
        (∃ latest, store.latest timed.now slot = some latest ∧ latest.rev = rev) ∨
          ∀ stored, store.latestOf slot = some stored → stored.rev ≠ rev
    | _ => True

end ReferenceStore

/-- An entry is the reference's, or was swept after that had gone stale. -/
def SweptEntry {α : Type*} (instant : α → Nat) (clock : Nat) (kept reference : Option α) :
    Prop :=
  kept = reference ∨
    kept = none ∧ ∃ value, reference = some value ∧ ttl ≤ elapsed clock (instant value)

/-- The store against the reference. -/
structure Refines (store : SnapshotStore) (reference : ReferenceStore) : Prop where
  nextRev : store.nextRev = reference.nextRev
  latest : ∀ slot, SweptEntry Stored.received reference.clock
    (store.latestOf.lookup slot) (reference.latestOf slot)
  asked : ∀ slot, SweptEntry id reference.clock (store.asked.lookup slot)
    (reference.asked slot)

section SweptEntries

variable {α : Type*} {instant : α → Nat} {clock now : Nat} {kept reference : Option α}

theorem SweptEntry.mono (entry : SweptEntry instant clock kept reference)
    (later : clock ≤ now) : SweptEntry instant now kept reference := by
  rcases entry with same | ⟨missing, value, found, stale⟩
  · exact Or.inl same
  · refine Or.inr ⟨missing, value, found, ?_⟩
    unfold elapsed at stale ⊢
    omega

/-- Sweeping keeps the relation. -/
theorem SweptEntry.filter (entry : SweptEntry instant now kept reference) :
    SweptEntry instant now
      (kept.filter fun value => elapsed now (instant value) < ttl) reference := by
  rcases entry with rfl | ⟨rfl, stale⟩
  · cases kept with
    | none => exact Or.inl rfl
    | some value =>
        by_cases fresh : elapsed now (instant value) < ttl
        · left
          simp [fresh]
        · right
          refine ⟨?_, value, rfl, Nat.not_lt.mp fresh⟩
          rw [Option.filter_some, if_neg (by simpa using fresh)]
  · exact Or.inr ⟨rfl, stale⟩

/-- What has no answer for a stale entry cannot tell the two apart. -/
theorem SweptEntry.bind_eq {β : Type*} (entry : SweptEntry instant now kept reference)
    {f : α → Option β} (staleNone : ∀ value, ttl ≤ elapsed now (instant value) →
      f value = none) : kept.bind f = reference.bind f := by
  rcases entry with same | ⟨missing, value, found, stale⟩
  · rw [same]
  · rw [missing, found, Option.bind_none, Option.bind_some, staleNone value stale]

/-- Nor can a test that every stale entry passes. -/
theorem SweptEntry.all_eq (entry : SweptEntry instant now kept reference)
    {p : α → Bool} (stalePasses : ∀ value, ttl ≤ elapsed now (instant value) →
      p value = true) : kept.all p = reference.all p := by
  rcases entry with same | ⟨missing, value, found, stale⟩
  · rw [same]
  · rw [missing, found, Option.all_none, Option.all_some, stalePasses value stale]

end SweptEntries

variable {store : SnapshotStore} {reference : ReferenceStore}

theorem lookup_swept {β : Type*} (map : AList fun _ : Slot => β) (sweep : Prop)
    [Decidable sweep] (keep : β → Bool) (slot : Slot) :
    (if sweep then map.retain fun _ => keep else map).lookup slot =
      if sweep then (map.lookup slot).filter keep else map.lookup slot := by
  split
  · exact AList.lookup_retain _ map slot
  · rfl

/-- The relation holds at a later instant, swept or not. -/
theorem Refines.swept {β : Type*} {instant : β → Nat} {now : Nat}
    {map : AList fun _ : Slot => β} {entries : Slot → Option β}
    (entry : ∀ slot, SweptEntry instant now (map.lookup slot) (entries slot))
    (sweep : Prop) [Decidable sweep] (slot : Slot) :
    SweptEntry instant now
      ((if sweep then map.retain fun _ value => elapsed now (instant value) < ttl
        else map).lookup slot) (entries slot) := by
  rw [lookup_swept]
  split
  · exact (entry slot).filter
  · exact entry slot

private theorem sweptEntry_insert {β : Type*} {instant : β → Nat} {now : Nat}
    {map : AList fun _ : Slot => β} {entries : Slot → Option β}
    (entry : ∀ slot, SweptEntry instant now (map.lookup slot) (entries slot))
    (slot : Slot) (value : β) (other : Slot) :
    SweptEntry instant now ((map.insert slot value).lookup other)
      (Function.update entries slot (some value) other) := by
  by_cases same : other = slot
  · subst same
    left
    rw [AList.lookup_insert, Function.update_self]
  · rw [AList.lookup_insert_ne same, Function.update_of_ne same]
    exact entry other

private theorem related_insert (related : Refines store reference) {now : Nat}
    (later : reference.clock ≤ now) (slot : Slot) (snapshot : Snapshot) :
    Refines (store.insert now slot snapshot).1
      (reference.step ⟨now, .insert slot snapshot⟩).1 := by
  have latestNow := fun slot => (related.latest slot).mono later
  have swept := Refines.swept latestNow (pruneThreshold < store.latestOf.size)
  refine ⟨congrArg (· + 1) related.nextRev, ?_, fun other => (related.asked other).mono later⟩
  intro other
  have inserted := sweptEntry_insert swept slot
    { snapshot, received := now, rev := store.nextRev + 1 } other
  simpa only [SnapshotStore.insert, ReferenceStore.step, related.nextRev] using inserted

/-- The entry a fresh touch names has not been swept. -/
private theorem lookup_of_latest (related : Refines store reference) {now : Nat}
    (later : reference.clock ≤ now) {slot : Slot} {latest : Latest}
    (found : reference.latest now slot = some latest) :
    ∃ stored, store.latestOf.lookup slot = some stored ∧
      reference.latestOf slot = some stored ∧ stored.rev = latest.rev := by
  unfold ReferenceStore.latest at found
  obtain ⟨stored, isStored, shown⟩ := Option.bind_eq_some_iff.mp found
  split at shown
  · rename_i fresh
    rcases (related.latest slot).mono later with same | ⟨_, value, isValue, stale⟩
    · refine ⟨stored, by rw [same, isStored], isStored, ?_⟩
      rw [← Option.some.inj shown]
    · rw [isStored, Option.some.injEq] at isValue
      subst isValue
      omega
  · simp at shown

private theorem related_touch (related : Refines store reference) {now : Nat}
    {slot : Slot} {rev : Nat} (allowed : reference.Allowed ⟨now, .touch slot rev⟩) :
    Refines (store.touch now slot rev) (reference.step ⟨now, .touch slot rev⟩).1 := by
  obtain ⟨later, named⟩ := allowed
  have latestNow := fun slot => (related.latest slot).mono later
  have askedNow := fun slot => (related.asked slot).mono later
  rcases named with ⟨latest, found, revEq⟩ | superseded
  · obtain ⟨stored, inStore, inReference, storedRev⟩ :=
      lookup_of_latest related later found
    have keeps : ((some stored).filter fun stored => stored.rev == rev) = some stored := by
      rw [Option.filter_some, if_pos (by simp [storedRev, revEq])]
    refine ⟨?_, ?_, ?_⟩
    · simpa [SnapshotStore.touch, ReferenceStore.step, inStore, inReference, keeps]
        using related.nextRev
    · intro other
      have inserted := sweptEntry_insert latestNow slot { stored with received := now } other
      simpa [SnapshotStore.touch, ReferenceStore.step, inStore, inReference, keeps]
        using inserted
    · intro other
      simpa [SnapshotStore.touch, ReferenceStore.step, inStore, inReference, keeps]
        using askedNow other
  · have dropsReference :
        ((reference.latestOf slot).filter fun stored => stored.rev == rev) = none := by
      rw [Option.filter_eq_none_iff]
      intro stored isStored
      simpa using superseded stored isStored
    have drops :
        ((store.latestOf.lookup slot).filter fun stored => stored.rev == rev) = none := by
      rcases related.latest slot with same | ⟨missing, _⟩
      · rw [same, dropsReference]
      · rw [missing, Option.filter_none]
    have storeKept : store.touch now slot rev = store := by
      unfold SnapshotStore.touch
      rw [drops]
    have referenceKept : (reference.step ⟨now, .touch slot rev⟩).1 =
        { reference with clock := now } := by
      unfold ReferenceStore.step
      dsimp only
      rw [dropsReference]
    rw [storeKept, referenceKept]
    exact ⟨related.nextRev, latestNow, askedNow⟩

private theorem related_claimAsk (related : Refines store reference) {now : Nat}
    (later : reference.clock ≤ now) (slot : Slot) :
    Refines (store.claimAsk now slot).1 (reference.step ⟨now, .claimAsk slot⟩).1 ∧
      Answer.due (store.claimAsk now slot).2 =
        (reference.step ⟨now, .claimAsk slot⟩).2 := by
  have latestNow := fun slot => (related.latest slot).mono later
  have askedNow := fun slot => (related.asked slot).mono later
  have swept := Refines.swept askedNow (pruneThreshold < store.asked.size)
  have sameDue := (swept slot).all_eq
    (p := fun instant => decide (askInterval ≤ elapsed now instant)) (by
      intro instant stale
      have interval_le : askInterval ≤ ttl := by decide
      exact decide_eq_true (interval_le.trans stale))
  unfold SnapshotStore.claimAsk ReferenceStore.step ReferenceStore.due
  dsimp only [id] at sameDue swept ⊢
  rw [sameDue]
  split
  · exact ⟨⟨related.nextRev, latestNow, sweptEntry_insert swept slot now⟩, rfl⟩
  · exact ⟨⟨related.nextRev, latestNow, swept⟩, rfl⟩

/-- One allowed call keeps the relation and gives the same answer. -/
theorem Refines.step (related : Refines store reference) {timed : Timed}
    (allowed : reference.Allowed timed) :
    Refines (store.step timed).1 (reference.step timed).1 ∧
      (store.step timed).2 = (reference.step timed).2 := by
  obtain ⟨now, call⟩ := timed
  have later : reference.clock ≤ now := allowed.1
  have latestNow := fun slot => (related.latest slot).mono later
  have askedNow := fun slot => (related.asked slot).mono later
  cases call with
  | insert slot snapshot =>
      refine ⟨related_insert related later slot snapshot, ?_⟩
      exact congrArg Answer.rev (congrArg (· + 1) related.nextRev)
  | touch slot rev =>
      refine ⟨related_touch related allowed, ?_⟩
      unfold SnapshotStore.step ReferenceStore.step
      dsimp only
      split <;> rfl
  | latest slot =>
      refine ⟨⟨related.nextRev, latestNow, askedNow⟩, ?_⟩
      have same := (latestNow slot).bind_eq (f := fun stored =>
        if elapsed now stored.received < ttl then
          some (Latest.mk stored.snapshot (elapsed now stored.received) stored.rev)
        else none) (fun stored stale => if_neg (Nat.not_lt.mpr stale))
      exact congrArg Answer.latest same
  | claimAsk slot => exact related_claimAsk related later slot

theorem refines_empty : Refines SnapshotStore.empty ReferenceStore.empty :=
  ⟨rfl, fun _ => Or.inl rfl, fun _ => Or.inl rfl⟩

/-- The store and the reference answer every admissible list of calls alike. -/
theorem answers_eq_reference {calls : List Timed}
    (admissible : Admissible ReferenceStore.step ReferenceStore.Allowed
      ReferenceStore.empty calls) :
    answers SnapshotStore.step SnapshotStore.empty calls =
        answers ReferenceStore.step ReferenceStore.empty calls ∧
      Refines (final SnapshotStore.step SnapshotStore.empty calls)
        (final ReferenceStore.step ReferenceStore.empty calls) :=
  answers_eq_of_simulation (fun _ _ _ related allowed => related.step allowed)
    refines_empty admissible

end Hermione
