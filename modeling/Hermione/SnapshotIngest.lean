import Hermione.SnapshotStore

/-!
# A student's editor posts the file it has on screen

A request reads the slot's latest snapshot, is refused or confirmed or has its
report turned into a snapshot off the async runtime, and stores that when it is
done.  The reading and the storing are separate calls on the store, and any
number of requests may be between them at once.
-/

namespace Hermione

open SnapshotStore

def Snapshot.isFile : Snapshot → Bool
  | .file _ => true
  | _ => false

namespace Ingest

/-- A verified identity overrides the self-asserted name, and is not fallen back
from when it is unusable. -/
def studentOf (verified : Option Str) (claimed : Student) : Except ApiError Student :=
  match verified with
  | none => .ok claimed
  | some name =>
      match Student.tryFrom name with
      | .ok student => .ok student
      | .error error => .error (.refused .unauthorized error.message)

def notLatest : ApiError :=
  .refused .conflict "that snapshot is no longer the latest; send the whole file"

/-- How far a request has come. -/
inductive Request where
  | idle
  /-- Not even the caret moved: about to confirm number `basis`. -/
  | confirming (slot : Slot) (basis : Nat)
  /-- The report is being turned into a snapshot on top of the one read. -/
  | building (slot : Slot) (state : Report.State) (previous : Option Snapshot)
  | answered (response : Except ApiError Nat)

/-- From reading the slot to the answer, or to the first wait. -/
def readSlot (store : SnapshotStore) (now : Nat) (slot : Slot) (state : Report.State) :
    Request :=
  let latest := store.latest now slot
  match state with
  | .cursor basis cursor =>
      -- Honoured only on top of the very snapshot the editor meant.
      match latest.filter fun latest => latest.rev == basis && latest.snapshot.isFile with
      | none => .answered (.error notLatest)
      | some onBasis =>
          if onBasis.snapshot.cursor = some cursor then .confirming slot basis
          else .building slot state (latest.map Latest.snapshot)
  | _ => .building slot state (latest.map Latest.snapshot)

/-- The server's side of a request, up to the first wait. -/
def receive (store : SnapshotStore) (now : Nat) (course : Uuid) (verified : Option Str)
    (report : Report) : Request :=
  match studentOf verified report.student with
  | .ok student => readSlot store now ⟨course, student⟩ report.state
  | .error error => .answered (.error error)

/-- The store and every request made of it, by a number of their own. -/
structure State where
  store : SnapshotStore
  requests : Nat → Request

def initial : State :=
  { store := SnapshotStore.empty, requests := fun _ => .idle }

inductive Event where
  | receive (id now : Nat) (course : Uuid) (verified : Option Str) (report : Report)
  | confirm (id now : Nat)
  | store (id now : Nat)
  /-- The request's future is dropped, or its blocking task panics. -/
  | abandon (id : Nat)

variable (words : WordDiff) (syntect : Syntect)

def step (state : State) : Event → Option State
  | .receive id now course verified report =>
      match state.requests id with
      | .idle =>
          some { state with
            requests := Function.update state.requests id
              (receive state.store now course verified report) }
      | _ => none
  | .confirm id now =>
      match state.requests id with
      | .confirming slot basis =>
          some
            { store := state.store.touch now slot basis
              requests := Function.update state.requests id (.answered (.ok basis)) }
      | _ => none
  | .store id now =>
      match state.requests id with
      | .building slot report previous =>
          (Snapshot.fromReport words syntect report previous).map fun snapshot =>
            let (store, rev) := state.store.insert now slot snapshot
            { store
              requests := Function.update state.requests id (.answered (.ok rev)) }
      | _ => none
  | .abandon id =>
      match state.requests id with
      | .building _ _ _ | .confirming _ _ =>
          some { state with
            requests := Function.update state.requests id (.answered (.error .internal)) }
      | _ => none

/-- What a step can do, guards included. -/
inductive Moves (state : State) : Event → State → Prop where
  | receive (id now : Nat) (course : Uuid) (verified : Option Str) (report : Report)
      (idle : state.requests id = .idle) :
      Moves state (.receive id now course verified report)
        { state with
          requests := Function.update state.requests id
            (Ingest.receive state.store now course verified report) }
  | confirm (id now : Nat) (slot : Slot) (basis : Nat)
      (confirming : state.requests id = .confirming slot basis) :
      Moves state (.confirm id now)
        { store := state.store.touch now slot basis
          requests := Function.update state.requests id (.answered (.ok basis)) }
  | store (id now : Nat) (slot : Slot) (report : Report.State)
      (previous : Option Snapshot) (snapshot : Snapshot)
      (building : state.requests id = .building slot report previous)
      (built : Snapshot.fromReport words syntect report previous = some snapshot) :
      Moves state (.store id now)
        { store := (state.store.insert now slot snapshot).1
          requests := Function.update state.requests id
            (.answered (.ok (state.store.insert now slot snapshot).2)) }
  | abandon (id : Nat)
      (waiting : (∃ slot report previous, state.requests id = .building slot report previous) ∨
        ∃ slot basis, state.requests id = .confirming slot basis) :
      Moves state (.abandon id)
        { state with
          requests := Function.update state.requests id (.answered (.error .internal)) }

variable {words syntect}

theorem moves_of_step {state next : State} {event : Event}
    (stepped : step words syntect state event = some next) :
    Moves words syntect state event next := by
  cases event with
  | receive id now course verified report =>
      rw [step] at stepped
      split at stepped
      · rename_i idle
        rw [← Option.some.inj stepped]
        exact .receive id now course verified report idle
      · simp at stepped
  | confirm id now =>
      rw [step] at stepped
      split at stepped
      · rename_i slot basis confirming
        rw [← Option.some.inj stepped]
        exact .confirm id now slot basis confirming
      · simp at stepped
  | store id now =>
      rw [step] at stepped
      split at stepped
      · rename_i slot report previous building
        obtain ⟨snapshot, built, equal⟩ := Option.map_eq_some_iff.mp stepped
        rw [← equal]
        exact .store id now slot report previous snapshot building built
      · simp at stepped
  | abandon id =>
      rw [step] at stepped
      split at stepped
      · rename_i slot report previous building
        rw [← Option.some.inj stepped]
        exact .abandon id (Or.inl ⟨slot, report, previous, building⟩)
      · rename_i slot basis confirming
        rw [← Option.some.inj stepped]
        exact .abandon id (Or.inr ⟨slot, basis, confirming⟩)
      · simp at stepped

/-! ### What reading the slot comes to -/

/-- The slot's fresh snapshot, if there is one, is not a file with the number. -/
def OffBasis (store : SnapshotStore) (now : Nat) (slot : Slot) (basis : Nat) : Prop :=
  ∀ latest, store.latest now slot = some latest → latest.rev = basis →
    latest.snapshot.isFile = false

variable {store : SnapshotStore} {now basis : Nat} {slot : Slot} {cursor : Cursor}

/-- A caret-only report is refused, or has found a file under the number. -/
theorem readSlot_cursor_cases (store : SnapshotStore) (now : Nat) (slot : Slot)
    (basis : Nat) (cursor : Cursor) :
    (OffBasis store now slot basis ∧
      readSlot store now slot (.cursor basis cursor) = .answered (.error notLatest)) ∨
    ∃ stored file, store.latestOf.lookup slot = some stored ∧ stored.rev = basis ∧
      stored.snapshot = .file file ∧ ¬ OffBasis store now slot basis ∧
      (readSlot store now slot (.cursor basis cursor) = .confirming slot basis ∨
        readSlot store now slot (.cursor basis cursor) =
          .building slot (.cursor basis cursor) (some (.file file))) := by
  unfold readSlot
  dsimp only
  cases kept : (store.latest now slot).filter
      fun latest => latest.rev == basis && latest.snapshot.isFile with
  | none =>
      left
      refine ⟨?_, rfl⟩
      intro latest isLatest revEq
      rw [Option.filter_eq_none_iff] at kept
      simpa [revEq] using kept latest isLatest
  | some onBasis =>
      right
      obtain ⟨isLatest, matching⟩ := Option.filter_eq_some_iff.mp kept
      simp only [Bool.and_eq_true, beq_iff_eq] at matching
      have met : ¬ OffBasis store now slot basis := by
        intro offBasis
        have notFile := offBasis onBasis isLatest matching.1
        simp [notFile] at matching
      rw [isLatest, Option.map_some]
      unfold SnapshotStore.latest at isLatest
      obtain ⟨stored, found, shown⟩ := Option.bind_eq_some_iff.mp isLatest
      dsimp only at shown
      split at shown
      · rw [← Option.some.inj shown] at matching ⊢
        cases shownFile : stored.snapshot with
        | declined | empty => simp [shownFile, Snapshot.isFile] at matching
        | file file =>
            refine ⟨stored, file, found, matching.1, shownFile, met, ?_⟩
            dsimp only
            split
            · exact Or.inl rfl
            · exact Or.inr rfl
      · simp at shown

theorem readSlot_of_not_cursor {state : Report.State}
    (notCursor : ∀ basis cursor, state ≠ .cursor basis cursor) :
    readSlot store now slot state =
      .building slot state ((store.latest now slot).map Latest.snapshot) := by
  unfold readSlot
  cases state with
  | cursor basis cursor => exact absurd rfl (notCursor basis cursor)
  | declined | empty | file => rfl

theorem receive_of_student {course : Uuid} {verified : Option Str} {posted : Report}
    {student : Student} (isStudent : studentOf verified posted.student = .ok student) :
    receive store now course verified posted =
      readSlot store now ⟨course, student⟩ posted.state := by
  unfold receive
  rw [isStudent]

/-- A request that waits has a student, and what its slot's reading came to. -/
theorem student_of_receive {course : Uuid} {verified : Option Str} {posted : Report}
    (waiting : ∀ response, receive store now course verified posted ≠ .answered response) :
    ∃ student, studentOf verified posted.student = .ok student := by
  cases isStudent : studentOf verified posted.student with
  | ok student => exact ⟨student, rfl⟩
  | error error =>
      refine absurd ?_ (waiting (.error error))
      unfold receive
      rw [isStudent]

/-- No number is handed out before the first wait. -/
theorem receive_ne_ok {course : Uuid} {verified : Option Str} {posted : Report} {rev : Nat} :
    receive store now course verified posted ≠ .answered (.ok rev) := by
  unfold receive
  split
  · rename_i student _
    cases isCursor : posted.state with
    | cursor basis cursor =>
        rcases readSlot_cursor_cases store now ⟨course, student⟩ basis cursor with
          ⟨_, refused⟩ | ⟨_, _, _, _, _, _, accepted | built⟩
        · simp [refused]
        · simp [accepted]
        · simp [built]
    | declined | empty | file =>
        rw [readSlot_of_not_cursor (by simp)]
        simp
  · simp

end Ingest

end Hermione
