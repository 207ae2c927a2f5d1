import Hermione.AListRetain
import Hermione.EventRuns
import Hermione.Snapshot

/-!
# The latest snapshot per student

The store keeps the snapshots themselves and, apart from them, when each
student's editor was last asked for one.  Both maps are swept of stale entries
as a side effect of adding to them.  Instants are nanoseconds of the server's
clock; every call reads it once.
-/

namespace Hermione

/-- A snapshot older than this is dropped. -/
def ttl : Nat := 180 * 10 ^ 9

/-- Don't ask a student's editor more often than this. -/
def askInterval : Nat := 750 * 10 ^ 6

/-- Entries kept before expired ones are swept out. -/
def pruneThreshold : Nat := 256

structure Stored where
  snapshot : Snapshot
  received : Nat
  rev : Nat
  deriving DecidableEq

/-- A snapshot with what a reader needs to judge it. -/
structure Latest where
  snapshot : Snapshot
  age : Nat
  rev : Nat
  deriving DecidableEq

/-- How long ago an instant was. -/
def elapsed (now instant : Nat) : Nat :=
  now - instant

structure SnapshotStore where
  latestOf : AList fun _ : Slot => Stored
  asked : AList fun _ : Slot => Nat
  nextRev : Nat

namespace SnapshotStore

def empty : SnapshotStore :=
  { latestOf := ∅, asked := ∅, nextRev := 0 }

/-- Keeps a snapshot as its student's latest and returns its number. -/
def insert (store : SnapshotStore) (now : Nat) (slot : Slot) (snapshot : Snapshot) :
    SnapshotStore × Nat :=
  let swept :=
    if pruneThreshold < store.latestOf.size then
      store.latestOf.retain fun _ stored => elapsed now stored.received < ttl
    else store.latestOf
  let rev := store.nextRev + 1
  ({ store with
      latestOf := swept.insert slot { snapshot, received := now, rev }
      nextRev := rev }, rev)

/-- The editor confirms the latest snapshot, number `rev`, is still exactly what
is on screen. -/
def touch (store : SnapshotStore) (now : Nat) (slot : Slot) (rev : Nat) :
    SnapshotStore :=
  match (store.latestOf.lookup slot).filter fun stored => stored.rev == rev with
  | some stored =>
      { store with latestOf := store.latestOf.insert slot { stored with received := now } }
  | none => store

/-- The student's latest snapshot, if one arrived recently enough to trust. -/
def latest (store : SnapshotStore) (now : Nat) (slot : Slot) : Option Latest :=
  (store.latestOf.lookup slot).bind fun stored =>
    let age := elapsed now stored.received
    if age < ttl then some { snapshot := stored.snapshot, age, rev := stored.rev } else none

/-- Whether it is time to ask this student's editor for a fresh snapshot; saying
yes counts as asking. -/
def claimAsk (store : SnapshotStore) (now : Nat) (slot : Slot) : SnapshotStore × Bool :=
  let swept :=
    if pruneThreshold < store.asked.size then
      store.asked.retain fun _ instant => elapsed now instant < ttl
    else store.asked
  let due := (swept.lookup slot).all fun instant => askInterval ≤ elapsed now instant
  if due then ({ store with asked := swept.insert slot now }, true)
  else ({ store with asked := swept }, false)

/-! ### What a call does to an entry -/

theorem lookup_insert_self (store : SnapshotStore) (now : Nat) (slot : Slot)
    (snapshot : Snapshot) :
    (store.insert now slot snapshot).1.latestOf.lookup slot =
      some { snapshot, received := now, rev := store.nextRev + 1 } := by
  unfold SnapshotStore.insert
  exact AList.lookup_insert _

theorem lookup_insert_of_ne {slot other : Slot} (different : slot ≠ other)
    (store : SnapshotStore) (now : Nat) (snapshot : Snapshot) :
    (store.insert now other snapshot).1.latestOf.lookup slot =
      if pruneThreshold < store.latestOf.size then
        (store.latestOf.lookup slot).filter fun stored => elapsed now stored.received < ttl
      else store.latestOf.lookup slot := by
  unfold SnapshotStore.insert
  dsimp only
  rw [AList.lookup_insert_ne different]
  split
  · exact AList.lookup_retain _ _ _
  · rfl

/-- After an insert an entry is the one inserted or was there before. -/
theorem lookup_insert_cases {store : SnapshotStore} {now : Nat} {target slot : Slot}
    {snapshot : Snapshot} {stored : Stored}
    (found : (store.insert now target snapshot).1.latestOf.lookup slot = some stored) :
    (slot = target ∧ stored = { snapshot, received := now, rev := store.nextRev + 1 }) ∨
      (slot ≠ target ∧ store.latestOf.lookup slot = some stored) := by
  by_cases same : slot = target
  · subst same
    rw [lookup_insert_self, Option.some.injEq] at found
    exact Or.inl ⟨rfl, found.symm⟩
  · rw [lookup_insert_of_ne same] at found
    right
    split at found
    · exact ⟨same, (Option.filter_eq_some_iff.mp found).1⟩
    · exact ⟨same, found⟩

theorem lookup_touch (store : SnapshotStore) (now : Nat) (target slot : Slot) (rev : Nat) :
    (store.touch now target rev).latestOf.lookup slot =
      (store.latestOf.lookup slot).map fun stored =>
        if target = slot ∧ stored.rev = rev then { stored with received := now } else stored := by
  unfold SnapshotStore.touch
  cases named : (store.latestOf.lookup target).filter fun stored => stored.rev == rev with
  | none =>
      by_cases same : target = slot
      · subst same
        cases found : store.latestOf.lookup target with
        | none => rfl
        | some stored =>
            have other : stored.rev ≠ rev := by
              rw [found, Option.filter_eq_none_iff] at named
              simpa using named stored rfl
            simp [other]
      · simp [same]
  | some stored =>
      obtain ⟨found, revEq⟩ := Option.filter_eq_some_iff.mp named
      by_cases same : target = slot
      · subst same
        simp only [AList.lookup_insert, found, Option.map_some]
        simp [beq_iff_eq.mp revEq]
      · simp [AList.lookup_insert_ne (Ne.symm same), same]

theorem nextRev_touch (store : SnapshotStore) (now : Nat) (target : Slot) (rev : Nat) :
    (store.touch now target rev).nextRev = store.nextRev := by
  unfold SnapshotStore.touch
  split <;> rfl

/-- A touch changes no entry but for the instant. -/
theorem lookup_touch_cases {store : SnapshotStore} {now rev : Nat} {target slot : Slot}
    {stored : Stored} (found : (store.touch now target rev).latestOf.lookup slot = some stored) :
    ∃ old, store.latestOf.lookup slot = some old ∧ stored.rev = old.rev ∧
      stored.snapshot = old.snapshot := by
  rw [lookup_touch] at found
  obtain ⟨old, oldFound, rfl⟩ := Option.map_eq_some_iff.mp found
  refine ⟨old, oldFound, ?_, ?_⟩ <;> split <;> rfl

/-- No entry's number is ahead of the counter. -/
def Numbered (store : SnapshotStore) : Prop :=
  ∀ slot stored, store.latestOf.lookup slot = some stored → stored.rev ≤ store.nextRev

theorem numbered_insert {store : SnapshotStore} (numbered : Numbered store) (now : Nat)
    (target : Slot) (snapshot : Snapshot) :
    Numbered (store.insert now target snapshot).1 := by
  intro slot stored found
  have counter : (store.insert now target snapshot).1.nextRev = store.nextRev + 1 := rfl
  rw [counter]
  rcases lookup_insert_cases found with ⟨_, rfl⟩ | ⟨_, old⟩
  · exact Nat.le_refl _
  · exact (numbered slot stored old).trans (Nat.le_succ _)

theorem numbered_touch {store : SnapshotStore} (numbered : Numbered store) (now : Nat)
    (target : Slot) (rev : Nat) : Numbered (store.touch now target rev) := by
  intro slot stored found
  obtain ⟨old, oldFound, revEq, _⟩ := lookup_touch_cases found
  rw [nextRev_touch, revEq]
  exact numbered slot old oldFound

/-! ### Calls and their answers -/

inductive Call where
  | insert (slot : Slot) (snapshot : Snapshot)
  | touch (slot : Slot) (rev : Nat)
  | latest (slot : Slot)
  | claimAsk (slot : Slot)

def Call.slot : Call → Slot
  | insert slot _ | touch slot _ | latest slot | claimAsk slot => slot

/-- A call and the instant it is made at. -/
structure Timed where
  now : Nat
  call : Call

inductive Answer where
  | rev (rev : Nat)
  | done
  | latest (latest : Option Latest)
  | due (due : Bool)

def step (store : SnapshotStore) (timed : Timed) : SnapshotStore × Answer :=
  match timed.call with
  | .insert slot snapshot =>
      let (store, rev) := store.insert timed.now slot snapshot
      (store, .rev rev)
  | .touch slot rev => (store.touch timed.now slot rev, .done)
  | .latest slot => (store, .latest (store.latest timed.now slot))
  | .claimAsk slot =>
      let (store, due) := store.claimAsk timed.now slot
      (store, .due due)

end SnapshotStore

end Hermione
