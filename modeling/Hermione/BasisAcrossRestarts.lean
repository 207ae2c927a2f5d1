import Hermione.EditorWindows

/-!
# Which snapshot a window's number names

Within one process a number names one snapshot, whichever window asks.  A number
from an earlier process is only a number: it is refused if the slot's fresh file
happens not to carry it, and otherwise taken for that file.
-/

namespace Hermione

open EventRuns SnapshotStore

/-- A number handed out by the running process names one snapshot only. -/
def Issue.Sound (issue : Issue) (process : Nat) (store : SnapshotStore) : Prop :=
  issue.process ≤ process ∧
    (issue.process = process → issue.rev ≤ store.nextRev ∧
      ∀ slot stored, store.latestOf.lookup slot = some stored → stored.rev = issue.rev →
        stored.snapshot = issue.snapshot)

/-- What a window remembers was handed out. -/
def LastFile.Handed (last : LastFile) (process : Nat) (store : SnapshotStore) : Prop :=
  ∃ issue, last.issue = some issue ∧ issue.rev = last.rev ∧ issue.Sound process store

/-- No two slots' entries carry one number. -/
def Distinct (store : SnapshotStore) : Prop :=
  ∀ first second one other, store.latestOf.lookup first = some one →
    store.latestOf.lookup second = some other → one.rev = other.rev → first = second

variable {store : SnapshotStore} {process now : Nat} {slot : Slot} {issue : Issue}

theorem distinct_insert (distinct : Distinct store) (numbered : Numbered store)
    (now : Nat) (target : Slot) (snapshot : Snapshot) :
    Distinct (store.insert now target snapshot).1 := by
  intro first second one other foundOne foundOther same
  rcases lookup_insert_cases foundOne with ⟨firstEq, rfl⟩ | ⟨_, oldOne⟩ <;>
    rcases lookup_insert_cases foundOther with ⟨secondEq, rfl⟩ | ⟨_, oldOther⟩
  · rw [firstEq, secondEq]
  · have bound := numbered second other oldOther
    dsimp only at same
    omega
  · have bound := numbered first one oldOne
    dsimp only at same
    omega
  · exact distinct first second one other oldOne oldOther same

theorem distinct_touch (distinct : Distinct store) (now : Nat) (target : Slot) (rev : Nat) :
    Distinct (store.touch now target rev) := by
  intro first second one other foundOne foundOther same
  obtain ⟨oldOne, oldOneFound, oneRev, _⟩ := lookup_touch_cases foundOne
  obtain ⟨oldOther, oldOtherFound, otherRev, _⟩ := lookup_touch_cases foundOther
  rw [oneRev, otherRev] at same
  exact distinct first second oldOne oldOther oldOneFound oldOtherFound same

theorem Issue.Sound.insert (sound : issue.Sound process store) (now : Nat) (target : Slot)
    (snapshot : Snapshot) : issue.Sound process (store.insert now target snapshot).1 := by
  refine ⟨sound.1, fun current => ?_⟩
  obtain ⟨bound, names⟩ := sound.2 current
  refine ⟨bound.trans (Nat.le_succ _), ?_⟩
  intro slot stored found same
  rcases lookup_insert_cases found with ⟨_, rfl⟩ | ⟨_, old⟩
  · dsimp only at same
    omega
  · exact names slot stored old same

theorem Issue.Sound.touch (sound : issue.Sound process store) (now : Nat) (target : Slot)
    (rev : Nat) : issue.Sound process (store.touch now target rev) := by
  refine ⟨sound.1, fun current => ?_⟩
  obtain ⟨bound, names⟩ := sound.2 current
  refine ⟨by rwa [nextRev_touch], ?_⟩
  intro slot stored found same
  obtain ⟨old, oldFound, revEq, snapshotEq⟩ := lookup_touch_cases found
  rw [snapshotEq]
  exact names slot old oldFound (revEq.symm.trans same)

/-- A number of an earlier process stays one. -/
theorem Issue.Sound.restart (sound : issue.Sound process store) (fresh : SnapshotStore) :
    issue.Sound (process + 1) fresh := by
  have earlier := sound.1
  exact ⟨by omega, fun current => by omega⟩

theorem sound_issueOf (numbered : Numbered store) (distinct : Distinct store)
    (issued : World.issueOf process store slot = some issue) :
    issue.Sound process store := by
  obtain ⟨stored, found, rfl⟩ := Option.map_eq_some_iff.mp issued
  refine ⟨Nat.le_refl _, fun _ => ⟨numbered slot stored found, ?_⟩⟩
  intro other entry entryFound same
  have slotEq := distinct other slot entry stored entryFound found same
  subst slotEq
  rw [found, Option.some.injEq] at entryFound
  rw [entryFound]

namespace World

/-- Every number known anywhere was handed out, and names one snapshot if the
running process did. -/
structure Consistent (world : World) : Prop where
  numbered : Numbered world.server.store
  distinct : Distinct world.server.store
  issued : ∀ id issue, world.issued id = some issue →
    issue.Sound world.process world.server.store
  confirming : ∀ id slot basis, world.server.requests id = .confirming slot basis →
    ∃ issue, world.issued id = some issue ∧ issue.rev = basis
  answered : ∀ id rev, world.server.requests id = .answered (.ok rev) →
    ∃ issue, world.issued id = some issue ∧ issue.rev = rev
  windows : ∀ window last, (world.windows window).lastFile = some last →
    last.Handed world.process world.server.store

variable {words : WordDiff} {syntect : Syntect} {world next : World}

theorem consistent_initial : Consistent initial where
  numbered slot stored found := by simp [initial, Ingest.initial, SnapshotStore.empty] at found
  distinct first second one other found := by
    simp [initial, Ingest.initial, SnapshotStore.empty] at found
  issued id issue found := by simp [initial] at found
  confirming id slot basis found := by simp [initial, Ingest.initial] at found
  answered id rev found := by simp [initial, Ingest.initial] at found
  windows window last found := by simp [initial] at found

/-- A window may remember nothing, or what was handed out. -/
theorem Consistent.setWindow (consistent : Consistent world) (window : Nat) {value : Window}
    (handed : ∀ last, value.lastFile = some last →
      last.Handed world.process world.server.store) :
    Consistent (world.setWindow window value) := by
  refine ⟨consistent.numbered, consistent.distinct, consistent.issued,
    consistent.confirming, consistent.answered, ?_⟩
  intro other last found
  by_cases same : other = window
  · subst same
    exact handed last (by simpa [World.setWindow] using found)
  · exact consistent.windows other last
      (by simpa [World.setWindow, Function.update_of_ne same] using found)

theorem consistent_restart (consistent : Consistent world) :
    Consistent
      { world with process := world.process + 1, server := restarted world.server } where
  numbered slot stored found := by simp [restarted, SnapshotStore.empty] at found
  distinct first second one other found := by simp [restarted, SnapshotStore.empty] at found
  issued id issue found := (consistent.issued id issue found).restart _
  confirming id slot basis found := by
    unfold restarted at found
    dsimp only at found
    split at found
    · simp at found
    · simp at found
    · exact consistent.confirming id slot basis found
  answered id rev found := by
    unfold restarted at found
    dsimp only at found
    split at found
    · simp at found
    · simp at found
    · exact consistent.answered id rev found
  windows window last found := by
    obtain ⟨issue, issueEq, revEq, sound⟩ := consistent.windows window last found
    exact ⟨issue, issueEq, revEq, sound.restart _⟩

/-- What a request about to be confirmed has read. -/
theorem exists_of_confirming {course : Uuid} {verified : Option Str} {report : Report}
    {basis : Nat}
    (confirming : Ingest.receive store now course verified report = .confirming slot basis) :
    ∃ stored, store.latestOf.lookup slot = some stored ∧ stored.rev = basis := by
  have waiting : ∀ response, Ingest.receive store now course verified report ≠
      .answered response := by
    intro response answered
    simp [answered] at confirming
  obtain ⟨student, isStudent⟩ := Ingest.student_of_receive waiting
  rw [Ingest.receive_of_student isStudent] at confirming
  cases isCursor : report.state with
  | cursor actual cursor =>
      rw [isCursor] at confirming
      rcases Ingest.readSlot_cursor_cases store now ⟨course, student⟩ actual cursor with
        ⟨_, refused⟩ | ⟨stored, file, found, revEq, _, _, accepted | built⟩
      · simp [refused] at confirming
      · rw [accepted, Ingest.Request.confirming.injEq] at confirming
        obtain ⟨rfl, rfl⟩ := confirming
        exact ⟨stored, found, revEq⟩
      · simp [built] at confirming
  | declined | empty | file =>
      rw [isCursor, Ingest.readSlot_of_not_cursor (by simp)] at confirming
      simp at confirming

/-- Taking a report leaves the store and the windows as they are, and the request
where reading the slot has brought it. -/
theorem receive_spec {id : Nat} {course : Uuid} {verified : Option Str} {report : Report}
    (received : receive words syntect world id now course verified report = some next) :
    next.process = world.process ∧ next.windows = world.windows ∧
      next.server.store = world.server.store ∧
      next.server.requests = Function.update world.server.requests id
        (Ingest.receive world.server.store now course verified report) ∧
      world.server.requests id = .idle ∧
      (next.issued = world.issued ∧
          (∀ slot basis, next.server.requests id ≠ .confirming slot basis) ∨
        ∃ slot basis, next.server.requests id = .confirming slot basis ∧
          next.issued = Function.update world.issued id
            (issueOf world.process world.server.store slot)) := by
  unfold receive at received
  obtain ⟨server, stepped, equal⟩ := Option.map_eq_some_iff.mp received
  cases Ingest.moves_of_step stepped with
  | receive _ _ _ _ _ idle =>
      dsimp only at equal
      split at equal
      · rename_i slot basis confirming
        rw [← equal]
        exact ⟨rfl, rfl, rfl, rfl, idle, Or.inr ⟨slot, basis, confirming, rfl⟩⟩
      · rename_i notConfirming
        rw [← equal]
        exact ⟨rfl, rfl, rfl, rfl, idle, Or.inl ⟨rfl, notConfirming⟩⟩

theorem consistent_receive (consistent : Consistent world) {id : Nat} {course : Uuid}
    {verified : Option Str} {report : Report}
    (received : receive words syntect world id now course verified report = some next) :
    Consistent next := by
  obtain ⟨processEq, windowsEq, storeEq, requestsEq, idle, issuedEq⟩ := receive_spec received
  have issuedCases : ∀ other issue, next.issued other = some issue →
      world.issued other = some issue ∨
        ∃ slot, issueOf world.process world.server.store slot = some issue := by
    intro other issue found
    rcases issuedEq with ⟨same, _⟩ | ⟨slot, basis, _, updated⟩
    · exact Or.inl (by rwa [same] at found)
    · rw [updated] at found
      by_cases own : other = id
      · subst own
        exact Or.inr ⟨slot, by simpa using found⟩
      · exact Or.inl (by simpa [Function.update_of_ne own] using found)
  have issuedOther : ∀ other, other ≠ id → next.issued other = world.issued other := by
    intro other different
    rcases issuedEq with ⟨same, _⟩ | ⟨slot, basis, _, updated⟩
    · rw [same]
    · rw [updated, Function.update_of_ne different]
  refine ⟨?_, ?_, ?_, ?_, ?_, ?_⟩
  · rw [storeEq]
    exact consistent.numbered
  · rw [storeEq]
    exact consistent.distinct
  · intro other issue found
    rw [processEq, storeEq]
    rcases issuedCases other issue found with old | ⟨slot, new⟩
    · exact consistent.issued other issue old
    · exact sound_issueOf consistent.numbered consistent.distinct new
  · intro other slot basis confirming
    by_cases own : other = id
    · subst own
      rcases issuedEq with ⟨_, notConfirming⟩ | ⟨actual, actualBasis, isConfirming, updated⟩
      · exact absurd confirming (notConfirming slot basis)
      · rw [confirming, Ingest.Request.confirming.injEq] at isConfirming
        obtain ⟨rfl, rfl⟩ := isConfirming
        rw [requestsEq, Function.update_self] at confirming
        obtain ⟨stored, found, revEq⟩ := exists_of_confirming confirming
        rw [updated]
        exact ⟨⟨world.process, stored.rev, stored.snapshot⟩, by simp [issueOf, found], revEq⟩
    · rw [requestsEq, Function.update_of_ne own] at confirming
      rw [issuedOther other own]
      exact consistent.confirming other slot basis confirming
  · intro other rev answered
    rw [requestsEq] at answered
    by_cases own : other = id
    · subst own
      rw [Function.update_self] at answered
      exact absurd answered Ingest.receive_ne_ok
    · rw [Function.update_of_ne own] at answered
      rw [issuedOther other own]
      exact consistent.answered other rev answered
  · intro window last found
    rw [windowsEq] at found
    rw [processEq, storeEq]
    exact consistent.windows window last found

theorem consistent_confirm (consistent : Consistent world) {id : Nat} {basis : Nat}
    (confirming : world.server.requests id = .confirming slot basis) (now : Nat) :
    Consistent
      { world with
        server :=
          { store := world.server.store.touch now slot basis
            requests := Function.update world.server.requests id (.answered (.ok basis)) } } where
  numbered := numbered_touch consistent.numbered now slot basis
  distinct := distinct_touch consistent.distinct now slot basis
  issued other issue found := (consistent.issued other issue found).touch now slot basis
  confirming other target rev found := by
    by_cases own : other = id
    · subst own
      simp at found
    · exact consistent.confirming other target rev
        (by simpa [Function.update_of_ne own] using found)
  answered other rev found := by
    by_cases own : other = id
    · subst own
      obtain rfl : basis = rev := by simpa using found
      exact consistent.confirming other slot basis confirming
    · exact consistent.answered other rev
        (by simpa [Function.update_of_ne own] using found)
  windows window last found := by
    obtain ⟨issue, issueEq, revEq, sound⟩ := consistent.windows window last found
    exact ⟨issue, issueEq, revEq, sound.touch now slot basis⟩

theorem consistent_store (consistent : Consistent world) (id now : Nat) (slot : Slot)
    (snapshot : Snapshot) :
    Consistent
      { world with
        server :=
          { store := (world.server.store.insert now slot snapshot).1
            requests := Function.update world.server.requests id
              (.answered (.ok (world.server.store.insert now slot snapshot).2)) }
        issued := Function.update world.issued id
          (issueOf world.process (world.server.store.insert now slot snapshot).1 slot) } := by
  have numbered := numbered_insert consistent.numbered now slot snapshot
  have distinct := distinct_insert consistent.distinct consistent.numbered now slot snapshot
  refine ⟨numbered, distinct, ?_, ?_, ?_, ?_⟩
  · intro other issue found
    by_cases own : other = id
    · subst own
      exact sound_issueOf numbered distinct (by simpa using found)
    · exact (consistent.issued other issue
        (by simpa [Function.update_of_ne own] using found)).insert now slot snapshot
  · intro other target rev found
    by_cases own : other = id
    · subst own
      simp at found
    · simp only [Function.update_of_ne own] at found ⊢
      exact consistent.confirming other target rev found
  · intro other rev found
    by_cases own : other = id
    · subst own
      obtain rfl : world.server.store.nextRev + 1 = rev := by
        simpa [SnapshotStore.insert] using found
      simp [issueOf, lookup_insert_self]
    · simp only [Function.update_of_ne own] at found ⊢
      exact consistent.answered other rev found
  · intro window last found
    obtain ⟨issue, issueEq, revEq, sound⟩ := consistent.windows window last found
    exact ⟨issue, issueEq, revEq, sound.insert now slot snapshot⟩

theorem consistent_abandon (consistent : Consistent world) (id : Nat) :
    Consistent
      { world with
        server :=
          { world.server with
            requests := Function.update world.server.requests id
              (.answered (.error .internal)) } } where
  numbered := consistent.numbered
  distinct := consistent.distinct
  issued := consistent.issued
  confirming other target rev found := by
    by_cases own : other = id
    · subst own
      simp at found
    · exact consistent.confirming other target rev
        (by simpa [Function.update_of_ne own] using found)
  answered other rev found := by
    by_cases own : other = id
    · subst own
      simp at found
    · exact consistent.answered other rev
        (by simpa [Function.update_of_ne own] using found)
  windows := consistent.windows

theorem consistent_serverStep (consistent : Consistent world) {event : Ingest.Event}
    (stepped : serverStep words syntect world event = some next) : Consistent next := by
  cases event with
  | receive id now course verified report => simp [serverStep] at stepped
  | confirm id now =>
      obtain ⟨server, moved, rfl⟩ := Option.map_eq_some_iff.mp stepped
      cases Ingest.moves_of_step moved with
      | confirm _ _ slot basis confirming =>
          exact consistent_confirm consistent confirming now
  | abandon id =>
      obtain ⟨server, moved, rfl⟩ := Option.map_eq_some_iff.mp stepped
      cases Ingest.moves_of_step moved with
      | abandon => exact consistent_abandon consistent id
  | store id now =>
      obtain ⟨server, moved, equal⟩ := Option.map_eq_some_iff.mp stepped
      cases Ingest.moves_of_step moved with
      | store _ _ slot report previous snapshot building =>
          rw [building] at equal
          rw [← equal]
          exact consistent_store consistent id now slot snapshot

/-- What a window remembers from an answer was handed out. -/
theorem handed_of_remember (consistent : Consistent world) {window : Nat}
    {remembered : Option LastFile} {last : LastFile}
    (delivered : remember world (world.windows window).lastFile
      (world.windows window).sending = some remembered)
    (found : remembered = some last) : last.Handed world.process world.server.store := by
  have handed : ∀ id rev, world.server.requests id = .answered (.ok rev) →
      ∀ key, LastFile.Handed ⟨key, rev, world.issued id⟩ world.process world.server.store := by
    intro id rev answered key
    obtain ⟨issue, issueEq, revEq⟩ := consistent.answered id rev answered
    exact ⟨issue, issueEq, revEq, consistent.issued id issue issueEq⟩
  subst found
  unfold remember at delivered
  split at delivered
  · simp at delivered
  · rename_i id _
    split at delivered
    · rename_i rev answered
      obtain ⟨old, _, rfl⟩ := Option.map_eq_some_iff.mp (Option.some.inj delivered)
      exact handed id rev answered old.key
    · simp at delivered
    · simp at delivered
  · rename_i id key _
    split at delivered
    · rename_i rev answered
      obtain ⟨actual, _, rfl⟩ := Option.map_eq_some_iff.mp (Option.some.inj delivered)
      exact handed id rev answered actual
    · simp at delivered
    · simp at delivered

theorem consistent_step {event : Event} (consistent : Consistent world)
    (stepped : step words syntect world event = some next) : Consistent next := by
  cases event with
  | restart =>
      rw [← Option.some.inj stepped]
      exact consistent_restart consistent
  | server event => exact consistent_serverStep consistent stepped
  | postCursor window id now course verified student key cursor =>
      rw [step] at stepped
      split at stepped
      · rename_i last _ isLast
        split at stepped
        · obtain ⟨middle, received, rfl⟩ := Option.map_eq_some_iff.mp stepped
          apply (consistent_receive consistent received).setWindow
          intro remembered same
          obtain ⟨processEq, _, storeEq, _⟩ := receive_spec received
          rw [processEq, storeEq, ← Option.some.inj same]
          exact consistent.windows window last isLast
        · simp at stepped
      · simp at stepped
  | postWhole window id now course verified report key =>
      rw [step] at stepped
      split at stepped
      · split at stepped
        · simp at stepped
        · obtain ⟨middle, received, rfl⟩ := Option.map_eq_some_iff.mp stepped
          apply (consistent_receive consistent received).setWindow
          simp
      · simp at stepped
  | deliver window =>
      obtain ⟨remembered, delivered, rfl⟩ := Option.map_eq_some_iff.mp stepped
      apply consistent.setWindow
      intro last found
      exact handed_of_remember consistent delivered found
  | lose window =>
      rw [step] at stepped
      split at stepped
      · simp at stepped
      · rw [← Option.some.inj stepped]
        apply consistent.setWindow
        simp
  | forget window =>
      rw [← Option.some.inj stepped]
      apply consistent.setWindow
      simp

theorem consistent_run {events : List Event}
    (ran : run (step words syntect) initial events = some world) : Consistent world :=
  invariant_of_run (fun _ _ _ consistent stepped => consistent_step consistent stepped)
    consistent_initial ran

/-! ### Where a caret-only report lands -/

/-- A caret-only report a window posts in a run. -/
structure CaretPost (words : WordDiff) (syntect : Syntect) (events : List Event) where
  before : List Event
  window : Nat
  id : Nat
  now : Nat
  course : Uuid
  verified : Option Str
  claimed : Student
  key : Str
  cursor : Cursor
  after : List Event
  world : World
  next : World
  last : LastFile
  student : Student
  whole : events =
    before ++ .postCursor window id now course verified claimed key cursor :: after
  ran : run (step words syntect) initial before = some world
  stepped : step words syntect world
    (.postCursor window id now course verified claimed key cursor) = some next
  isLast : (world.windows window).lastFile = some last
  isStudent : Ingest.studentOf verified claimed = .ok student

namespace CaretPost

variable {events : List Event}

/-- The slot the report is about. -/
def target (post : CaretPost words syntect events) : Slot :=
  ⟨post.course, post.student⟩

/-- The request was not refused. -/
def Accepted (post : CaretPost words syntect events) : Prop :=
  ∀ response, post.next.server.requests post.id ≠ .answered response

/-- If it is accepted, the slot holds the snapshot its number was given for; and
a number of an earlier process is refused. -/
def Applied (post : CaretPost words syntect events) : Prop :=
  (post.Accepted → ∃ stored issue,
    post.world.server.store.latestOf.lookup post.target = some stored ∧
      stored.rev = post.last.rev ∧ post.last.issue = some issue ∧
      issue.process = post.world.process ∧ issue.rev = post.last.rev ∧
      stored.snapshot = issue.snapshot) ∧
  ((∀ issue, post.last.issue = some issue → issue.process < post.world.process) →
    post.next.server.requests post.id = .answered (.error Ingest.notLatest))

/-- The number is the running process's own, or the slot has no fresh file that
carries it. -/
def Unambiguous (post : CaretPost words syntect events) : Prop :=
  (∃ issue, post.last.issue = some issue ∧ issue.process = post.world.process) ∨
    Ingest.OffBasis post.world.server.store post.now post.target post.last.rev

theorem request_eq (post : CaretPost words syntect events) :
    post.next.server.requests post.id =
      Ingest.readSlot post.world.server.store post.now post.target
        (.cursor post.last.rev post.cursor) := by
  have stepped := post.stepped
  rw [step] at stepped
  split at stepped
  · rename_i last _ isLast
    have lastEq : last = post.last := Option.some.inj (isLast.symm.trans post.isLast)
    subst lastEq
    split at stepped
    · obtain ⟨middle, received, equal⟩ := Option.map_eq_some_iff.mp stepped
      obtain ⟨_, _, _, requestsEq, _⟩ := receive_spec received
      rw [← equal]
      change middle.server.requests post.id = _
      rw [requestsEq, Function.update_self, Ingest.receive_of_student post.isStudent]
      rfl
    · simp at stepped
  · simp at stepped

theorem applied_iff (post : CaretPost words syntect events) :
    post.Applied ↔ post.Unambiguous := by
  have consistent := consistent_run post.ran
  obtain ⟨issue, issueEq, revEq, sound⟩ :=
    consistent.windows post.window post.last post.isLast
  have request := post.request_eq
  rcases Ingest.readSlot_cursor_cases post.world.server.store post.now post.target
      post.last.rev post.cursor with
    ⟨offBasis, refused⟩ | ⟨stored, file, found, storedRev, shown, met, accepted⟩
  · rw [refused] at request
    constructor
    · intro _
      exact Or.inr offBasis
    · intro _
      exact ⟨fun accepted => absurd request (accepted _), fun _ => request⟩
  · have notRefused : post.Accepted := by
      intro response answered
      rw [request] at answered
      rcases accepted with confirming | building
      · simp [confirming] at answered
      · simp [building] at answered
    constructor
    · intro applied
      obtain ⟨_, given, _, _, givenEq, processEq, _⟩ := applied.1 notRefused
      exact Or.inl ⟨given, givenEq, processEq⟩
    · intro unambiguous
      rcases unambiguous with ⟨given, givenEq, processEq⟩ | offBasis
      · rw [issueEq, Option.some.injEq] at givenEq
        subst givenEq
        refine ⟨fun _ => ⟨stored, issue, found, storedRev, issueEq, processEq, revEq, ?_⟩, ?_⟩
        · exact (sound.2 processEq).2 post.target stored found (storedRev.trans revEq.symm)
        · intro earlier
          have before := earlier issue issueEq
          omega
      · exact absurd offBasis met

end CaretPost

/-- At any point of any run, a caret-only report a window posts is applied to the
snapshot its number was given for, and a number of an earlier process is refused,
if and only if the number is the running process's own or is not carried by the
slot's fresh file. -/
theorem caretPost_applied_iff (words : WordDiff) (syntect : Syntect) (events : List Event)
    (post : CaretPost words syntect events) : post.Applied ↔ post.Unambiguous :=
  post.applied_iff

/-- One window's file is given number 1; after a restart another window's is too,
and the first window moves its caret. -/
def sameNumber : List Event :=
  [.postWhole 0 0 0 0 none ⟨alice, .file (Report.plainFile "a".toList)⟩ (some "a".toList),
    .server (.store 0 1), .deliver 0, .restart,
    .postWhole 1 1 2 0 none ⟨alice, .file (Report.plainFile "b".toList)⟩ (some "b".toList),
    .server (.store 1 3), .deliver 1,
    .postCursor 0 2 4 0 none alice "a".toList Cursor.start]

def sameNumberPost : CaretPost leadingWords noGrammars sameNumber where
  before := sameNumber.take 7
  window := 0
  id := 2
  now := 4
  course := 0
  verified := none
  claimed := alice
  key := "a".toList
  cursor := Cursor.start
  after := []
  world := _
  next := _
  last := _
  student := alice
  whole := rfl
  ran := rfl
  stepped := rfl
  isLast := rfl
  isStudent := rfl

theorem not_applied_sameNumber : ¬ sameNumberPost.Applied := by
  intro applied
  have givenProcess : sameNumberPost.last.issue.map Issue.process = some 0 := rfl
  have running : sameNumberPost.world.process = 1 := rfl
  rcases sameNumberPost.applied_iff.mp applied with ⟨issue, issueEq, processEq⟩ | offBasis
  · rw [issueEq, Option.map_some, processEq, running] at givenProcess
    simp at givenProcess
  · have notFile := offBasis _ rfl rfl
    simp [Snapshot.isFile] at notFile

end World

end Hermione
