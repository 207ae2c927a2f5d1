import Hermione.SnapshotIngest

/-!
# What a caret-only report is stored on top of

A caret-only report is checked against the slot when the request reads it and
stored after a wait.  The entry it replaces is the one it was checked against if
and only if nothing displaced that entry in between, which no check rules out:
another request may have stored a whole file.  Numbers never come back, so an
entry once displaced is not met again.
-/

namespace Hermione

open EventRuns SnapshotStore

namespace Ingest

variable {words : WordDiff} {syntect : Syntect} {slot : Slot} {basis : Nat}

/-- A step takes the slot's entry away: by storing another snapshot there, or by
sweeping it out as expired while storing elsewhere. -/
def Displaces (slot : Slot) (state : State) (event : Event) : Prop :=
  ∃ id now target report previous, event = .store id now ∧
    state.requests id = .building target report previous ∧
    (target = slot ∨
      pruneThreshold < state.store.latestOf.size ∧
        ∃ stored, state.store.latestOf.lookup slot = some stored ∧
          ttl ≤ elapsed now stored.received)

/-- The slot's entry carries a number, and a snapshot. -/
def Holds (store : SnapshotStore) (slot : Slot) (basis : Nat) (snapshot : Snapshot) : Prop :=
  ∃ stored, store.latestOf.lookup slot = some stored ∧ stored.rev = basis ∧
    stored.snapshot = snapshot

/-- The slot's entry does not carry a number that was handed out already. -/
def Gone (store : SnapshotStore) (slot : Slot) (basis : Nat) : Prop :=
  basis ≤ store.nextRev ∧
    ∀ stored, store.latestOf.lookup slot = some stored → stored.rev ≠ basis

/-! ### One call on the store -/

/-- A number that has gone from a slot stays gone. -/
theorem gone_insert {store : SnapshotStore} (gone : Gone store slot basis) (now : Nat)
    (target : Slot) (snapshot : Snapshot) :
    Gone (store.insert now target snapshot).1 slot basis := by
  obtain ⟨bound, absent⟩ := gone
  refine ⟨bound.trans (Nat.le_succ _), ?_⟩
  intro stored found
  rcases lookup_insert_cases found with ⟨_, rfl⟩ | ⟨_, old⟩
  · dsimp only
    omega
  · exact absent stored old

theorem gone_touch {store : SnapshotStore} (gone : Gone store slot basis) (now : Nat)
    (target : Slot) (rev : Nat) : Gone (store.touch now target rev) slot basis := by
  obtain ⟨bound, absent⟩ := gone
  refine ⟨by rwa [nextRev_touch], ?_⟩
  intro stored found
  obtain ⟨old, oldFound, revEq, _⟩ := lookup_touch_cases found
  rw [revEq]
  exact absent old oldFound

theorem holds_touch {store : SnapshotStore} {snapshot : Snapshot}
    (holds : Holds store slot basis snapshot) (now : Nat) (target : Slot) (rev : Nat) :
    Holds (store.touch now target rev) slot basis snapshot := by
  obtain ⟨stored, found, revEq, snapshotEq⟩ := holds
  unfold Holds
  rw [lookup_touch, found, Option.map_some]
  refine ⟨_, rfl, ?_, ?_⟩
  · split <;> exact revEq
  · split <;> exact snapshotEq

/-! ### One step of the requests -/

variable {state next : State} {event : Event}

theorem numbered_step (numbered : Numbered state.store)
    (stepped : step words syntect state event = some next) : Numbered next.store := by
  cases moves_of_step stepped with
  | receive | abandon => exact numbered
  | confirm id now target rev => exact numbered_touch numbered now target rev
  | store id now target report previous snapshot =>
      exact numbered_insert numbered now target snapshot

theorem gone_step (gone : Gone state.store slot basis)
    (stepped : step words syntect state event = some next) :
    Gone next.store slot basis := by
  cases moves_of_step stepped with
  | receive | abandon => exact gone
  | confirm id now target rev => exact gone_touch gone now target rev
  | store id now target report previous snapshot =>
      exact gone_insert gone now target snapshot

/-- An entry is kept by a step that does not displace it. -/
theorem holds_step {snapshot : Snapshot} (holds : Holds state.store slot basis snapshot)
    (stepped : step words syntect state event = some next)
    (kept : ¬ Displaces slot state event) : Holds next.store slot basis snapshot := by
  cases moves_of_step stepped with
  | receive | abandon => exact holds
  | confirm id now target rev => exact holds_touch holds now target rev
  | store id now target report previous built building =>
      obtain ⟨stored, found, revEq, snapshotEq⟩ := holds
      have different : slot ≠ target := by
        rintro rfl
        exact kept ⟨id, now, slot, report, previous, rfl, building, Or.inl rfl⟩
      have present : (state.store.insert now target built).1.latestOf.lookup slot =
          some stored := by
        rw [lookup_insert_of_ne different, found]
        split
        · rename_i sweeps
          rw [Option.filter_some, if_pos]
          by_contra stale
          apply kept
          refine ⟨id, now, target, report, previous, rfl, building,
            Or.inr ⟨sweeps, stored, found, ?_⟩⟩
          simpa using stale
        · rfl
      exact ⟨stored, present, revEq, snapshotEq⟩

/-- A step that displaces an entry leaves its number gone. -/
theorem gone_of_displaces {snapshot : Snapshot} (numbered : Numbered state.store)
    (holds : Holds state.store slot basis snapshot)
    (stepped : step words syntect state event = some next)
    (displaced : Displaces slot state event) : Gone next.store slot basis := by
  obtain ⟨stored, found, revEq, _⟩ := holds
  have bound := numbered slot stored found
  obtain ⟨id, now, target, report, previous, rfl, building, how⟩ := displaced
  cases moves_of_step stepped with
  | store _ _ actual _ _ built actualBuilding =>
      obtain ⟨rfl, rfl, rfl⟩ : actual = target ∧ _ ∧ _ := by
        simpa using actualBuilding.symm.trans building
      refine ⟨?_, ?_⟩
      · change basis ≤ state.store.nextRev + 1
        omega
      · intro after afterFound
        by_cases same : slot = actual
        · subst same
          rw [lookup_insert_self, Option.some.injEq] at afterFound
          subst afterFound
          dsimp only
          omega
        · rcases how with rfl | ⟨sweeps, stale, staleFound, old⟩
          · exact absurd rfl same
          · rw [found, Option.some.injEq] at staleFound
            subst staleFound
            rw [lookup_insert_of_ne same, if_pos sweeps, found, Option.filter_some,
              if_neg (by simpa using old)] at afterFound
            simp at afterFound

/-! ### Between reading and storing -/

/-- From an entry with the number, a run leaves the entry in place if and only
if none of its steps displaces it; otherwise the number is gone. -/
theorem holds_run {snapshot : Snapshot} {events : List Event} (numbered : Numbered state.store)
    (holds : Holds state.store slot basis snapshot)
    (ran : run (step words syntect) state events = some next) :
    (Guarded (step words syntect) (fun state event => ¬ Displaces slot state event)
        state events ∧ Holds next.store slot basis snapshot) ∨
      (¬ Guarded (step words syntect) (fun state event => ¬ Displaces slot state event)
        state events ∧ Gone next.store slot basis) := by
  induction events generalizing state with
  | nil =>
      simp only [run_nil, Option.some.injEq] at ran
      subst ran
      exact Or.inl ⟨trivial, holds⟩
  | cons event events ih =>
      obtain ⟨middle, stepped, rest⟩ := run_cons_eq_some_iff.mp ran
      by_cases displaced : Displaces slot state event
      · right
        refine ⟨fun guarded => guarded.1 displaced, ?_⟩
        have gone := gone_of_displaces numbered holds stepped displaced
        exact invariant_of_run (fun _ _ _ gone stepped => gone_step gone stepped) gone rest
      · have same : Guarded (step words syntect)
            (fun state event => ¬ Displaces slot state event) state (event :: events) ↔
            Guarded (step words syntect)
              (fun state event => ¬ Displaces slot state event) middle events := by
          constructor
          · intro guarded
            exact guarded.2 middle stepped
          · intro guarded
            refine ⟨displaced, fun other otherStepped => ?_⟩
            rw [stepped, Option.some.injEq] at otherStepped
            exact otherStepped ▸ guarded
        rw [same]
        exact ih (numbered_step numbered stepped) (holds_step holds stepped displaced) rest

/-- A request that has something to store has been received, and nothing has
happened to it since. -/
theorem exists_receive {events : List Event} {id : Nat} {report : Report.State}
    {previous : Option Snapshot} (ran : run (step words syntect) initial events = some state)
    (building : state.requests id = .building slot report previous) :
    ∃ before now course verified posted since middle,
      events = before ++ .receive id now course verified posted :: since ∧
      run (step words syntect) initial
        (before ++ [.receive id now course verified posted]) = some middle ∧
      middle.requests id = .building slot report previous ∧
      run (step words syntect) middle since = some state := by
  induction events using List.reverseRecOn generalizing state with
  | nil =>
      simp only [run_nil, Option.some.injEq] at ran
      subst ran
      simp [initial] at building
  | append_singleton events event ih =>
      obtain ⟨earlier, ranEarlier, last⟩ := run_append_eq_some_iff.mp ran
      have stepped : step words syntect earlier event = some state := by
        simpa [run] using last
      by_cases received : ∃ now course verified posted,
          event = .receive id now course verified posted
      · obtain ⟨now, course, verified, posted, rfl⟩ := received
        exact ⟨events, now, course, verified, posted, [], state, rfl, ran, building, rfl⟩
      · have unchanged : earlier.requests id = .building slot report previous := by
          cases moves_of_step stepped with
          | receive other now course verified posted =>
              have different : id ≠ other := by
                rintro rfl
                exact received ⟨now, course, verified, posted, rfl⟩
              simpa [Function.update_of_ne different] using building
          | confirm other | store other | abandon other =>
              by_cases same : id = other
              · subst same
                simp at building
              · simpa [Function.update_of_ne same] using building
        obtain ⟨before, now, course, verified, posted, since, middle, whole, ranBefore,
          buildingMiddle, ranSince⟩ := ih ranEarlier unchanged
        refine ⟨before, now, course, verified, posted, since ++ [event], middle,
          by simp [whole], ranBefore, buildingMiddle, ?_⟩
        exact run_append_eq_some_iff.mpr ⟨earlier, ranSince, last⟩

theorem numbered_run {events : List Event}
    (ran : run (step words syntect) initial events = some state) :
    Numbered state.store := by
  have start : Numbered initial.store := by
    intro slot stored found
    simp [initial, SnapshotStore.empty] at found
  exact invariant_of_run (fun _ _ _ numbered stepped => numbered_step numbered stepped)
    start ran

/-- What a caret-only report has read when it gets as far as to be stored. -/
theorem holds_of_receive {store : SnapshotStore} {now : Nat} {course : Uuid}
    {verified : Option Str} {posted : Report} {cursor : Cursor} {previous : Option Snapshot}
    (building : receive store now course verified posted =
      .building slot (.cursor basis cursor) previous) :
    ∃ file, Holds store slot basis (.file file) ∧ previous = some (.file file) := by
  have waiting : ∀ response, receive store now course verified posted ≠
      .answered response := by
    intro response answered
    simp [answered] at building
  obtain ⟨student, isStudent⟩ := student_of_receive waiting
  rw [receive_of_student isStudent] at building
  cases isCursor : posted.state with
  | cursor actual actualCursor =>
      rw [isCursor] at building
      rcases readSlot_cursor_cases store now ⟨course, student⟩ actual actualCursor with
        ⟨_, refused⟩ | ⟨stored, file, found, revEq, shown, _, confirming | built⟩
      · simp [refused] at building
      · simp [confirming] at building
      · rw [built, Request.building.injEq, Report.State.cursor.injEq] at building
        obtain ⟨rfl, ⟨rfl, rfl⟩, rfl⟩ := building
        exact ⟨file, ⟨stored, found, revEq, shown⟩, rfl⟩
  | declined | empty | file =>
      rw [isCursor, readSlot_of_not_cursor (by simp)] at building
      simp at building

/-! ### The whole run -/

/-- Whenever a snapshot built from a caret-only report is stored, the entry it
replaces carries the number the report names, and the snapshot is that entry's
file with the caret moved. -/
def StoresOnBasis (words : WordDiff) (syntect : Syntect) (events : List Event) : Prop :=
  ∀ before id now after state slot basis cursor previous,
    events = before ++ .store id now :: after →
    run (step words syntect) initial before = some state →
    state.requests id = .building slot (.cursor basis cursor) previous →
    ∃ file, Holds state.store slot basis (.file file) ∧
      Snapshot.fromReport words syntect (.cursor basis cursor) previous =
        some (.file (file.withCursor cursor))

/-- Between a caret-only report's reading of the slot and its storing, no step
displaces the slot's entry. -/
def Undisplaced (words : WordDiff) (syntect : Syntect) (events : List Event) : Prop :=
  ∀ before id read course verified posted since now after middle state
      slot basis cursor previous,
    events = before ++ .receive id read course verified posted :: since ++
      .store id now :: after →
    run (step words syntect) initial
      (before ++ [.receive id read course verified posted]) = some middle →
    middle.requests id = .building slot (.cursor basis cursor) previous →
    run (step words syntect) middle since = some state →
    state.requests id = .building slot (.cursor basis cursor) previous →
    Guarded (step words syntect) (fun state event => ¬ Displaces slot state event)
      middle since

/-- A caret-only report that names another number than the slot's fresh file
carries is answered with a conflict, and the store stays as it is. -/
def RefusedOffBasis (words : WordDiff) (syntect : Syntect) (events : List Event) : Prop :=
  ∀ before id now course verified posted after state next student basis cursor,
    events = before ++ .receive id now course verified posted :: after →
    run (step words syntect) initial before = some state →
    step words syntect state (.receive id now course verified posted) = some next →
    studentOf verified posted.student = .ok student →
    posted.state = .cursor basis cursor →
    OffBasis state.store now ⟨course, student⟩ basis →
    next.requests id = .answered (.error notLatest) ∧ next.store = state.store

theorem refusedOffBasis (words : WordDiff) (syntect : Syntect) (events : List Event) :
    RefusedOffBasis words syntect events := by
  rintro before id now course verified posted after state next student basis cursor _ _
    stepped verifiedAs isCursor offBasis
  cases moves_of_step stepped with
  | receive _ _ _ _ _ idle =>
      refine ⟨?_, rfl⟩
      have refused : readSlot state.store now ⟨course, student⟩ (.cursor basis cursor) =
          .answered (.error notLatest) := by
        rcases readSlot_cursor_cases state.store now ⟨course, student⟩ basis cursor with
          ⟨_, refused⟩ | ⟨_, _, _, _, _, met, _⟩
        · exact refused
        · exact absurd offBasis met
      simp only [Function.update_self]
      rw [receive_of_student verifiedAs, isCursor, refused]

/-- In every run, caret-only reports are stored on the snapshots they name if and
only if none of these is displaced between being read and being replaced. -/
theorem storesOnBasis_iff (words : WordDiff) (syntect : Syntect) (events : List Event) :
    (StoresOnBasis words syntect events ↔ Undisplaced words syntect events) ∧
      RefusedOffBasis words syntect events := by
  have onRead : ∀ before id read course verified posted middle slot basis cursor previous,
      run (step words syntect) initial
        (before ++ [.receive id read course verified posted]) = some middle →
      middle.requests id = .building slot (.cursor basis cursor) previous →
      Numbered middle.store ∧
        ∃ file, Holds middle.store slot basis (.file file) ∧ previous = some (.file file) := by
    intro before id read course verified posted middle slot basis cursor previous ran building
    refine ⟨numbered_run ran, ?_⟩
    obtain ⟨earlier, _, last⟩ := run_append_eq_some_iff.mp ran
    have stepped : step words syntect earlier (.receive id read course verified posted) =
        some middle := by
      simpa [run] using last
    cases moves_of_step stepped with
    | receive => exact holds_of_receive (by simpa using building)
  refine ⟨⟨?_, ?_⟩, refusedOffBasis words syntect events⟩
  · rintro onBasis before id read course verified posted since now after middle state
      slot basis cursor previous rfl ranRead building ranSince stillBuilding
    obtain ⟨numbered, file, holds, _⟩ := onRead _ _ _ _ _ _ _ _ _ _ _ ranRead building
    have ran : run (step words syntect) initial
        (before ++ .receive id read course verified posted :: since) = some state := by
      have split := run_append_eq_some_iff.mpr ⟨middle, ranRead, ranSince⟩
      simpa using split
    obtain ⟨stored, ⟨entry, found, revEq, _⟩, _⟩ :=
      onBasis _ id now after state slot basis cursor previous rfl ran stillBuilding
    rcases holds_run numbered holds ranSince with ⟨guarded, _⟩ | ⟨_, gone⟩
    · exact guarded
    · exact absurd revEq (gone.2 entry found)
  · rintro undisplaced before id now after state slot basis cursor previous rfl ran building
    obtain ⟨start, read, course, verified, posted, since, middle, rfl, ranRead,
      buildingMiddle, ranSince⟩ := exists_receive ran building
    obtain ⟨numbered, file, holds, previousEq⟩ :=
      onRead _ _ _ _ _ _ _ _ _ _ _ ranRead buildingMiddle
    have guarded := undisplaced start id read course verified posted since now after middle
      state slot basis cursor previous rfl ranRead buildingMiddle ranSince building
    rcases holds_run numbered holds ranSince with ⟨_, held⟩ | ⟨displaced, _⟩
    · exact ⟨file, held, by rw [previousEq]; rfl⟩
    · exact absurd guarded displaced

/-- A caret-only report names the only file there is; before its snapshot is
stored, another editor's whole file is. -/
def overtaken : List Event :=
  [.receive 0 0 0 none ⟨alice, .file (Report.plainFile "a".toList)⟩, .store 0 1,
    .receive 1 2 0 none ⟨alice, .cursor 1 Cursor.start⟩,
    .receive 2 3 0 none ⟨alice, .file (Report.plainFile "b".toList)⟩, .store 2 4,
    .store 1 5]

theorem not_storesOnBasis_overtaken :
    ¬ StoresOnBasis leadingWords noGrammars overtaken := by
  intro onBasis
  obtain ⟨file, ⟨stored, found, revEq, _⟩, _⟩ :=
    onBasis (overtaken.take 5) 1 5 [] _ ⟨0, alice⟩ 1 Cursor.start _ rfl rfl rfl
  have revTwo : (some stored).map Stored.rev = some 2 := by
    rw [← found]
    rfl
  simp [revEq] at revTwo

end Ingest

end Hermione
