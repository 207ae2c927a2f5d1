import Hermione.MessageRouting

/-!
# What no two broadcasts and no two sockets share

Identifiers come from one sequence: the rows of the table, the rows of an open
transaction and the messages a broadcast has yet to send are all told apart by
them.  Receivers are told apart by the sockets that hold them.
-/

namespace Hermione

/-- The identifiers a broadcast has inserted, or has yet to send. -/
def Posting.ids : Posting → List Int
  | .inserting _ _ _ _ rows _ => rows.map MessageRow.id
  | .publishing _ todo _ _ => todo.map MessageOut.id
  | _ => []

/-- An open transaction, on a table. -/
def Posting.Drafted (table : List MessageRow) : Posting → Prop
  | .inserting _ text _ _ rows sent =>
      text ≠ [] ∧ sent.map MessageOut.id = rows.map MessageRow.id ∧
        ∀ row ∈ rows, row.body = text ∧ ∀ other ∈ table, other.id ≠ row.id
  | _ => True

/-- A table numbered by a sequence, with a text in every row. -/
structure Sequenced (table : List MessageRow) (nextId : Int) : Prop where
  unique : (table.map MessageRow.id).Nodup
  below : ∀ row ∈ table, row.id < nextId
  texts : ∀ row ∈ table, row.body ≠ []

/-- Two rows of one number are one row. -/
theorem Sequenced.eq_of_id {table : List MessageRow} {nextId : Int}
    (numbered : Sequenced table nextId) {row other : MessageRow} (member : row ∈ table)
    (listed : other ∈ table) (same : row.id = other.id) : row = other :=
  List.inj_on_of_nodup_map numbered.unique member listed same

/-- The receiver of the course's messages that a socket holds. -/
def SocketPhase.receiver : SocketPhase → Option Nat
  | .arrivingControl messages | .handedControl messages _ | .tailing messages _ => some messages
  | _ => none

namespace MessageWorld

/-- Every identifier is in one place. -/
structure Told (world : MessageWorld) : Prop where
  table : Sequenced world.table world.nextId
  once : ∀ task, (world.postings task).ids.Nodup
  below : ∀ task, ∀ id ∈ (world.postings task).ids, id < world.nextId
  apart : ∀ task other, task ≠ other →
    ∀ id ∈ (world.postings task).ids, id ∉ (world.postings other).ids
  drafted : ∀ task, (world.postings task).Drafted world.table

section Told

variable {jwt : JsonWebToken} {world next : MessageWorld} {event : Event}

/-- A broadcast goes on, with no number but its own and new ones. -/
theorem Told.posted {task : Nat} {posting : Posting} (told : Told world)
    (postings : next.postings = Function.update world.postings task posting)
    (table : next.table = world.table) (later : world.nextId ≤ next.nextId)
    (once : posting.ids.Nodup)
    (own : ∀ id ∈ posting.ids,
      id ∈ (world.postings task).ids ∨ world.nextId ≤ id ∧ id < next.nextId)
    (drafted : posting.Drafted world.table) : Told next := by
  have away (other : Nat) (different : other ≠ task) (id : Int) (member : id ∈ posting.ids) :
      id ∉ (world.postings other).ids := by
    intro shared
    rcases own id member with old | ⟨new, -⟩
    · exact told.apart other task different id shared old
    · have := told.below other id shared
      omega
  constructor
  · rw [table]
    exact ⟨told.table.unique, fun row member => Int.lt_of_lt_of_le (told.table.below row member)
      later, told.table.texts⟩
  · intro other
    rw [postings, Function.update_apply]
    split
    · exact once
    · exact told.once other
  · intro other id member
    rw [postings, Function.update_apply] at member
    split at member
    · rcases own id member with old | ⟨-, new⟩
      · exact Int.lt_of_lt_of_le (told.below task id old) later
      · exact new
    · exact Int.lt_of_lt_of_le (told.below other id member) later
  · intro first second different id member shared
    rw [postings, Function.update_apply] at member shared
    split at member
    · rename_i same
      rw [if_neg fun also => different (same.trans also.symm)] at shared
      exact away second (fun also => different (same.trans also.symm)) id member shared
    · split at shared
      · rename_i foreign _
        exact away first foreign id shared member
      · exact told.apart first second different id member shared
  · intro other
    rw [postings, table, Function.update_apply]
    split
    · exact drafted
    · exact told.drafted other

/-- A transaction is committed. -/
theorem Told.commit {task : Nat} {course : Uuid} {text : Str} {now : Int}
    {rows : List MessageRow} {sent : List MessageOut} {posting : Posting} (told : Told world)
    (inserting : world.postings task = .inserting course text now [] rows sent)
    (ids : posting.ids = sent.map MessageOut.id)
    (drafted : ∀ table, posting.Drafted table) :
    Told { world.withPosting task posting with table := world.table ++ rows } := by
  obtain ⟨written, numbers, fresh⟩ := (inserting ▸ told.drafted task : Posting.Drafted _ _)
  have mine : (world.postings task).ids = rows.map MessageRow.id := by rw [inserting]; rfl
  have same : posting.ids = (world.postings task).ids := by rw [ids, numbers, mine]
  have idsOf (other : Nat) :
      (Function.update world.postings task posting other).ids = (world.postings other).ids := by
    rw [Function.update_apply]
    split
    · rename_i here
      rw [here, same]
    · rfl
  constructor
  · constructor
    · rw [List.map_append, List.nodup_append]
      refine ⟨told.table.unique, mine ▸ told.once task, ?_⟩
      intro id stored other inserted equal
      obtain ⟨row, member, rfl⟩ := List.mem_map.mp stored
      obtain ⟨new, listed, rfl⟩ := List.mem_map.mp inserted
      exact (fresh new listed).2 row member equal
    · intro row member
      rcases List.mem_append.mp member with stored | inserted
      · exact told.table.below row stored
      · exact told.below task row.id (mine ▸ List.mem_map_of_mem inserted)
    · intro row member
      rcases List.mem_append.mp member with stored | inserted
      · exact told.table.texts row stored
      · rw [(fresh row inserted).1]
        exact written
  · intro other
    exact (idsOf other).symm ▸ told.once other
  · intro other id member
    exact told.below other id (idsOf other ▸ member)
  · intro first second different id member
    exact (idsOf second).symm ▸ told.apart first second different id (idsOf first ▸ member)
  · intro other
    dsimp only [withPosting]
    rw [Function.update_apply]
    split
    · exact drafted _
    · rename_i different
      have before := told.drafted other
      have apart := told.apart other task different
      rw [mine] at apart
      -- What another broadcast inserted has other numbers than what is committed.
      cases posting : world.postings other with
      | inserting owner text now todo drafts sent =>
          rw [posting] at before apart
          refine ⟨before.1, before.2.1, fun row listed =>
            ⟨(before.2.2 row listed).1, fun stored member => ?_⟩⟩
          rcases List.mem_append.mp member with old | new
          · exact (before.2.2 row listed).2 stored old
          · intro equal
            exact apart row.id (List.mem_map_of_mem listed)
              (equal ▸ List.mem_map_of_mem new)
      | idle | publishing | answered => trivial

theorem ids_nextPublish (course : Uuid) (todo : List MessageOut) (answer : Option Int × Nat) :
    (nextPublish course todo answer).ids = todo.map MessageOut.id := by
  cases todo <;> rfl

theorem drafted_nextPublish (course : Uuid) (todo : List MessageOut)
    (answer : Option Int × Nat) (table : List MessageRow) :
    (nextPublish course todo answer).Drafted table := by
  cases todo <;> trivial

/-- A broadcast that is let in has a text. -/
theorem drafted_post (access : Access) (request : BroadcastRequest) (ctx : AuthCtx) (now : Int)
    (table : List MessageRow) :
    (post access request ctx now).Drafted table ∧ (post access request ctx now).ids = [] := by
  unfold post
  split
  · exact ⟨trivial, rfl⟩
  · rename_i text audiences accepted
    have written : text ≠ [] := by
      unfold broadcastOf at accepted
      dsimp only at accepted
      split at accepted
      · simp at accepted
      · rename_i present
        cases found : audiencesOf request with
        | error error => simp [found, Except.map] at accepted
        | ok some =>
            simp only [found, Except.map, Except.ok.injEq, Prod.mk.injEq] at accepted
            rw [← accepted.1]
            simpa using present
    split
    · exact ⟨trivial, rfl⟩
    · exact ⟨⟨written, rfl, by simp⟩, rfl⟩

/-- The numbers left to send once the first message was sent. -/
theorem Told.sent {task : Nat} {course : Uuid} {message : MessageOut} {todo : List MessageOut}
    {publish : Publishing} {answer : Option Int × Nat} {posting : Posting}
    (told : Told world)
    (publishing : world.postings task = .publishing course (message :: todo) publish answer)
    (postings : next.postings = Function.update world.postings task posting)
    (table : next.table = world.table) (sequence : next.nextId = world.nextId)
    (left : posting.ids <:+ (message :: todo).map MessageOut.id)
    (drafted : posting.Drafted world.table) : Told next := by
  have own : (world.postings task).ids = (message :: todo).map MessageOut.id := by
    rw [publishing]
    rfl
  refine told.posted postings table (Int.le_of_eq sequence.symm) ?_ ?_ drafted
  · exact (own ▸ told.once task).sublist left.sublist
  · exact fun id member => .inl (own ▸ left.subset member)

/-- A broadcast goes on. -/
theorem Told.broadcast (told : Told world) (moves : Moves jwt world event next) (task : Nat)
    (about : event = .insert task ∨ event = .commit task ∨ event = .rollBack task ∨
      event = .publish task) : Told next := by
  cases moves with
  | insert task course text now audience todo rows sent inserting =>
      have mine : (world.postings task).ids = rows.map MessageRow.id := by rw [inserting]; rfl
      obtain ⟨written, numbers, fresh⟩ :=
        (inserting ▸ told.drafted task : Posting.Drafted _ _)
      refine told.posted rfl rfl
        (Int.le_of_lt (Int.lt_succ _)) ?_ ?_ ⟨written, ?_, ?_⟩
      · simp only [Posting.ids, List.map_append, List.nodup_append]
        refine ⟨mine ▸ told.once task, by simp, ?_⟩
        intro id member other new
        have := told.below task id (mine ▸ member)
        simp only [rowOf, List.map_cons, List.map_nil, List.mem_singleton] at new
        omega
      · intro id member
        simp only [Posting.ids, List.map_append, List.mem_append, List.map_cons, List.map_nil,
          List.mem_singleton, rowOf] at member
        rcases member with old | rfl
        · exact .inl (mine ▸ old)
        · exact .inr ⟨Int.le_refl _, Int.lt_succ _⟩
      · simp [numbers, outOf]
      · intro row member
        rcases List.mem_append.mp member with old | new
        · exact fresh row old
        · obtain rfl := List.mem_singleton.mp new
          refine ⟨rfl, fun other stored => ?_⟩
          have := told.table.below other stored
          simp only [rowOf]
          omega
  | commit task course text now rows sent inserting =>
      exact told.commit inserting (ids_nextPublish _ _ _) (drafted_nextPublish _ _ _)
  | rollBack =>
      exact told.posted rfl rfl (Int.le_refl _)
        List.nodup_nil (by simp [Posting.ids]) trivial
  | lookUp task course message todo answer sender publishing bound =>
      exact told.sent publishing rfl rfl rfl (List.suffix_refl _) trivial
  | nobody task course message todo answer publishing unbound =>
      exact told.sent publishing rfl rfl rfl (by simp [ids_nextPublish])
        (drafted_nextPublish _ _ _ _)
  | publish task course message todo answer sender publishing =>
      refine told.sent publishing rfl rfl rfl ?_ ?_
      · split
        · simp [ids_nextPublish]
        · exact List.suffix_refl _
      · split
        · exact drafted_nextPublish _ _ _ _
        · trivial
  | forget task course message todo answer publishing =>
      exact told.sent publishing rfl rfl rfl (by simp [ids_nextPublish])
        (drafted_nextPublish _ _ _ _)
  | _ => simp at about

theorem Told.same (told : Told world) (table : next.table = world.table)
    (sequence : next.nextId = world.nextId) (postings : next.postings = world.postings) :
    Told next := by
  constructor
  · rw [table, sequence]
    exact told.table
  · rw [postings]
    exact told.once
  · rw [postings, sequence]
    exact told.below
  · rw [postings]
    exact told.apart
  · rw [postings, table]
    exact told.drafted

theorem hangUp_same (world : MessageWorld) (phase : SocketPhase) :
    (world.hangUp phase).table = world.table ∧
      (world.hangUp phase).nextId = world.nextId ∧
      (world.hangUp phase).postings = world.postings ∧
      (world.hangUp phase).sockets = world.sockets := by
  unfold hangUp
  split <;> exact ⟨rfl, rfl, rfl, rfl⟩

theorem Told.step (told : Told world) (stepped : MessageWorld.step jwt world event = some next) :
    Told next := by
  have moves := moves_of_step stepped
  cases event with
  | insert task => exact told.broadcast moves task (.inl rfl)
  | commit task => exact told.broadcast moves task (.inr (.inl rfl))
  | rollBack task => exact told.broadcast moves task (.inr (.inr (.inl rfl)))
  | publish task => exact told.broadcast moves task (.inr (.inr (.inr rfl)))
  | post task request ctx now =>
      cases moves
      obtain ⟨drafted, none⟩ := drafted_post world.access request ctx now world.table
      exact told.posted rfl rfl (Int.le_refl _) (none ▸ List.nodup_nil) (by simp [none]) drafted
  | close sock =>
      cases moves
      obtain ⟨table, sequence, postings, -⟩ := hangUp_same world (world.sockets sock).phase
      exact told.same table sequence postings
  | _ => cases moves <;> exact told.same rfl rfl rfl

end Told

theorem told_initial (access : Access) {table : List MessageRow} {nextId : Int}
    (numbered : Sequenced table nextId) : Told (initial access table nextId) :=
  ⟨numbered, fun _ => List.nodup_nil, fun _ _ member => by simp [initial, Posting.ids] at member,
    fun _ _ _ _ member => by simp [initial, Posting.ids] at member, fun _ => trivial⟩

/-! ## Receivers -/

/-- No two sockets hold one receiver. -/
def Apart (world : MessageWorld) : Prop :=
  ∀ sock other receiver, (world.sockets sock).phase.receiver = some receiver →
    (world.sockets other).phase.receiver = some receiver → sock = other

section Apart

variable {jwt : JsonWebToken} {world next : MessageWorld} {event : Event}

/-- A socket that holds a receiver holds one that was made. -/
theorem Routed.made (routed : Routed world) {sock receiver : Nat}
    (holds : (world.sockets sock).phase.receiver = some receiver) :
    world.msgHub.Hears receiver (world.sockets sock).course := by
  have sound := routed.sockets sock
  unfold Socket.Sound at sound
  cases phase : (world.sockets sock).phase with
  | arrivingControl messages =>
      simp only [phase, SocketPhase.receiver, Option.some.injEq] at sound holds
      exact holds ▸ sound
  | handedControl messages sender =>
      simp only [phase, SocketPhase.receiver, Option.some.injEq] at sound holds
      exact holds ▸ sound.1
  | tailing messages control =>
      simp only [phase, SocketPhase.receiver, Option.some.injEq] at sound holds
      exact holds ▸ sound.1
  | unopened | querying | catchingUp | arriving | handed | gone =>
      simp [phase, SocketPhase.receiver] at holds

/-- A socket moves on with the receiver it has, or without one. -/
theorem Apart.kept {sock : Nat} {socket : Socket} (apart : Apart world)
    (sockets : next.sockets = Function.update world.sockets sock socket)
    (kept : ∀ receiver, socket.phase.receiver = some receiver →
      (world.sockets sock).phase.receiver = some receiver) : Apart next := by
  have before (other receiver : Nat)
      (holds : (next.sockets other).phase.receiver = some receiver) :
      (world.sockets other).phase.receiver = some receiver := by
    rw [sockets, Function.update_apply] at holds
    split at holds
    · rename_i same
      exact same ▸ kept receiver holds
    · exact holds
  intro first second receiver holds shares
  exact apart first second receiver (before first receiver holds)
    (before second receiver shares)

/-- A receiver made just now is nobody's yet. -/
theorem Apart.listen {sock : Nat} {socket : Socket} (apart : Apart world)
    (routed : Routed world)
    (sockets : next.sockets = Function.update world.sockets sock socket)
    (holds : socket.phase.receiver = some world.msgHub.receivers.length) : Apart next := by
  have within (other receiver : Nat)
      (held : (world.sockets other).phase.receiver = some receiver) :
      receiver < world.msgHub.receivers.length := by
    obtain ⟨listening, found, -⟩ := routed.made held
    exact (List.getElem?_eq_some_iff.mp found).1
  intro first second receiver held shares
  rw [sockets, Function.update_apply] at held shares
  split at held
  · rename_i here
    split at shares
    · rename_i also
      rw [here, also]
    · rw [holds] at held
      obtain rfl := Option.some.inj held
      exact absurd (within second _ shares) (Nat.lt_irrefl _)
  · split at shares
    · rw [holds] at shares
      obtain rfl := Option.some.inj shares
      exact absurd (within first _ held) (Nat.lt_irrefl _)
    · exact apart first second receiver held shares

theorem receiver_afterListen (socket : Socket) (messages : Nat) :
    (afterListen socket messages).receiver = some messages := by
  unfold afterListen
  split <;> rfl

theorem Apart.step (apart : Apart world) (routed : Routed world)
    (stepped : MessageWorld.step jwt world event = some next) : Apart next := by
  cases moves_of_step stepped with
  | listen sock sender handed =>
      exact apart.listen routed rfl (receiver_afterListen _ _)
  | connect sock now request headers course student unopened accepted =>
      refine apart.kept rfl fun receiver holds => ?_
      cases given : request.since <;> simp [given, SocketPhase.receiver] at holds
  | channelControl sock messages student arriving belongs =>
      exact apart.kept rfl fun receiver holds => by rw [arriving]; exact holds
  | listenControl sock messages sender handed =>
      exact apart.kept rfl fun receiver holds => by rw [handed]; exact holds
  | relay sock | relayControl sock | take sock =>
      exact apart.kept rfl fun receiver holds => holds
  | query sock | queryFailed sock | pass sock | caughtUp sock | channel sock =>
      exact apart.kept rfl fun receiver holds => by simp [SocketPhase.receiver] at holds
  | close sock opened there =>
      have sockets := (hangUp_same world (world.sockets sock).phase).2.2.2
      refine apart.kept (congrArg (Function.update · sock _) sockets) fun receiver holds => ?_
      simp [SocketPhase.receiver] at holds
  | _ => exact apart

theorem apart_initial (access : Access) (table : List MessageRow) (nextId : Int) :
    Apart (initial access table nextId) :=
  fun _ _ _ holds => by simp [initial, unopened, SocketPhase.receiver] at holds

end Apart

end MessageWorld

end Hermione
