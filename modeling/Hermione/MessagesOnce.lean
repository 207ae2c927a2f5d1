import Hermione.EventRuns
import Hermione.MessageDelivery

/-!
# Every message, once

What an editor that keeps reconnecting is shown.  A connection is seamless when it
starts to listen at a moment at which every message was either caught up on or is
yet to be sent.
-/

namespace Hermione

/-- The open socket that a step of the server is about. -/
def MessageWorld.Event.sock : MessageWorld.Event → Option Nat
  | .query sock | .queryFailed sock | .pass sock | .advance sock | .relay sock
  | .relayControl sock | .take sock | .close sock => some sock
  | _ => none

namespace MessageSocket

open MessageWorld

/-- The moment to start listening on a sender: of every message for the student,
either the editor had it, or the catch-up selected it, or it is yet to be sent; and
the sender is the course's, and stays so. -/
structure Seamless (slot : Slot) (first : Int) (state : MessageSocket) (sender : Nat) :
    Prop where
  accounted : ∀ row ∈ state.world.table, Wanted slot first row →
    (row.id ∈ state.client.before ++ state.client.page.map MessageOut.id ↔
      ¬ Pending slot.course state.world row.id)
  bound : state.world.msgHub.channels slot.course = some sender
  calm : Calm slot.course state.world sender

/-- The editor's sockets start to listen at such moments only. -/
def Timely (slot : Slot) (first : Int) (state : MessageSocket) : Event → Prop
  | .server (.advance sock) =>
      state.client.socket = some sock → ∀ sender,
        (state.world.sockets sock).phase = .handed sender → Seamless slot first state sender
  | _ => True

/-- What the editor received, and what is on the wire for it. -/
def got (client : Client) (socket : Socket) : List Int :=
  client.received ++ messageIds socket.wire

/-- What there is to say of the editor alone. -/
structure Remembers (first : Int) (table : List MessageRow) (client : Client) : Prop where
  floor : first ≤ client.lastMessageId
  last : ∀ id ∈ client.received, id ≤ client.lastMessageId
  stored : ∀ id ∈ client.received, ∃ row ∈ table, row.id = id
  selected : ∀ id ∈ client.before ++ client.page.map MessageOut.id,
    ∃ row ∈ table, row.id = id
  pageOnce : ∀ id, first < id →
    (client.before ++ client.page.map MessageOut.id).count id ≤ 1

/-- How what the editor received goes together with how far its socket is. -/
def Along (slot : Slot) (first : Int) (world : MessageWorld) (client : Client)
    (socket : Socket) : Prop :=
  match socket.phase with
  | .unopened => False
  | .querying =>
      client.received = client.before ∧ socket.wire = [] ∧ client.page = [] ∧
        socket.since = some client.lastMessageId
  | .catchingUp rest =>
      got client socket ++ rest.map MessageOut.id =
        client.before ++ client.page.map MessageOut.id
  | .arriving | .handed _ =>
      got client socket = client.before ++ client.page.map MessageOut.id
  | .arrivingControl receiver | .handedControl receiver _ | .tailing receiver _ =>
      ∃ listening, world.msgHub.receivers[receiver]? = some listening ∧
        Live slot first world (got client socket) listening
  | .gone => True

/-- The editor's socket, while it reads it. -/
structure Connected (slot : Slot) (first : Int) (world : MessageWorld) (client : Client)
    (socket : Socket) : Prop where
  course : socket.course = slot.course
  student : socket.student = some slot.student
  wire : ∀ message, .message message ∈ socket.wire → Fits world.table slot.course message
  once : ∀ id, first < id → (got client socket).count id ≤ 1
  along : Along slot first world client socket

/-- What holds of the server and the editor in every state of a seamless run. -/
structure Kept (slot : Slot) (first : Int) (state : MessageSocket) : Prop where
  routed : Routed state.world
  told : Told state.world
  apart : Apart state.world
  remembers : Remembers first state.world.table state.client
  once : ∀ id, first < id → state.client.received.count id ≤ 1
  connected : ∀ sock, state.client.socket = some sock →
    Connected slot first state.world state.client (state.world.sockets sock)

section Kept

variable {jwt : JsonWebToken} {slot : Slot} {first : Int} {world next : MessageWorld}
  {client : Client} {sock : Nat} {socket : Socket} {event : MessageWorld.Event}

theorem Remembers.grow {table more : List MessageRow}
    (remembers : Remembers first table client) (grown : table ⊆ more) :
    Remembers first more client := by
  refine ⟨remembers.floor, remembers.last, ?_, ?_, remembers.pageOnce⟩
  · intro id member
    obtain ⟨row, listed, same⟩ := remembers.stored id member
    exact ⟨row, grown listed, same⟩
  · intro id member
    obtain ⟨row, listed, same⟩ := remembers.selected id member
    exact ⟨row, grown listed, same⟩

theorem exists_row_id {table : List MessageRow} {course : Uuid} {message : MessageOut}
    (fits : Fits table course message) : ∃ row ∈ table, row.id = message.id := by
  obtain ⟨row, member, -, made⟩ := fits
  exact ⟨row, member, (tryFrom_eq_ok_iff.mp made).2.1⟩

/-- Whatever the editor has or will get was stored. -/
theorem Connected.stored (connected : Connected slot first world client socket)
    (remembers : Remembers first world.table client) (routed : Routed world)
    {receiver : Nat} {listening : Broadcast.Receiver MessageOut}
    (found : world.msgHub.receivers[receiver]? = some listening) (id : Int)
    (member : id ∈ got client socket ++ waiting slot.student listening.unread) :
    ∃ row ∈ world.table, row.id = id := by
  rcases List.mem_append.mp member with here | queued
  · rcases List.mem_append.mp here with received | sent
    · exact remembers.stored id received
    · obtain ⟨frame, listed, same⟩ := List.mem_filterMap.mp sent
      cases frame with
      | control asked => simp at same
      | message message =>
          obtain rfl := Option.some.inj same
          exact exists_row_id (connected.wire message listed)
  · obtain ⟨message, listed, rfl⟩ := List.mem_map.mp queued
    obtain ⟨key, -, fits⟩ := routed.messages listening (List.mem_of_getElem? found)
    exact exists_row_id (fits message (List.mem_filter.mp listed).1)

/-- The receiver of a socket that listens. -/
theorem Along.receiver (along : Along slot first world client socket) {receiver : Nat}
    (holds : socket.phase.receiver = some receiver) :
    ∃ listening, world.msgHub.receivers[receiver]? = some listening ∧
      Live slot first world (got client socket) listening := by
  unfold Along at along
  cases phase : socket.phase with
  | arrivingControl messages =>
      simp only [phase, SocketPhase.receiver, Option.some.injEq] at along holds
      exact holds ▸ along
  | handedControl messages sender =>
      simp only [phase, SocketPhase.receiver, Option.some.injEq] at along holds
      exact holds ▸ along
  | tailing messages control =>
      simp only [phase, SocketPhase.receiver, Option.some.injEq] at along holds
      exact holds ▸ along
  | unopened | querying | catchingUp | arriving | handed | gone =>
      simp [phase, SocketPhase.receiver] at holds

theorem along_of_receiver {receiver : Nat} (holds : socket.phase.receiver = some receiver)
    (live : ∃ listening, world.msgHub.receivers[receiver]? = some listening ∧
      Live slot first world (got client socket) listening) :
    Along slot first world client socket := by
  unfold Along
  cases phase : socket.phase with
  | arrivingControl messages =>
      simp only [phase, SocketPhase.receiver, Option.some.injEq] at holds
      exact holds ▸ live
  | handedControl messages sender =>
      simp only [phase, SocketPhase.receiver, Option.some.injEq] at holds
      exact holds ▸ live
  | tailing messages control =>
      simp only [phase, SocketPhase.receiver, Option.some.injEq] at holds
      exact holds ▸ live
  | unopened | querying | catchingUp | arriving | handed | gone =>
      simp [phase, SocketPhase.receiver] at holds

/-- The server goes on, and the editor's socket stays as it is. -/
theorem Along.onward (along : Along slot first world client socket)
    (live : ∀ receiver listening, socket.phase.receiver = some receiver →
      world.msgHub.receivers[receiver]? = some listening →
        Live slot first world (got client socket) listening →
          ∃ after, next.msgHub.receivers[receiver]? = some after ∧
            Live slot first next (got client socket) after) :
    Along slot first next client socket := by
  unfold Along at along ⊢
  cases phase : socket.phase with
  | arrivingControl messages =>
      simp only [phase] at along ⊢
      obtain ⟨listening, found, lives⟩ := along
      exact live messages listening (by rw [phase]; rfl) found lives
  | handedControl messages sender =>
      simp only [phase] at along ⊢
      obtain ⟨listening, found, lives⟩ := along
      exact live messages listening (by rw [phase]; rfl) found lives
  | tailing messages control =>
      simp only [phase] at along ⊢
      obtain ⟨listening, found, lives⟩ := along
      exact live messages listening (by rw [phase]; rfl) found lives
  | unopened => simp [phase] at along
  | gone => trivial
  | querying | catchingUp | arriving | handed => simpa only [phase] using along

/-- A step beside the editor's socket. -/
structure Beside (slot : Slot) (first : Int) (world next : MessageWorld) (client : Client) :
    Prop where
  table : world.table ⊆ next.table
  sockets : ∀ sock, client.socket = some sock → next.sockets sock = world.sockets sock
  live : ∀ sock receiver listening, client.socket = some sock →
    (world.sockets sock).phase.receiver = some receiver →
      world.msgHub.receivers[receiver]? = some listening →
        Live slot first world (got client (world.sockets sock)) listening →
          ∃ after, next.msgHub.receivers[receiver]? = some after ∧
            Live slot first next (got client (world.sockets sock)) after

theorem Kept.beside (kept : Kept slot first ⟨world, client⟩) (routed : Routed next)
    (told : Told next) (apart : Apart next)
    (beside : Beside slot first world next client) : Kept slot first ⟨next, client⟩ := by
  refine ⟨routed, told, apart, kept.remembers.grow beside.table, kept.once, ?_⟩
  intro sock reading
  have connected := kept.connected sock reading
  dsimp only at connected ⊢
  rw [beside.sockets sock reading]
  exact ⟨connected.course, connected.student,
    fun message sent => (connected.wire message sent).grow beside.table, connected.once,
    connected.along.onward fun receiver listening => beside.live sock receiver listening reading⟩

/-- The hub of messages stays the course's as far as the editor can tell. -/
theorem beside_of_hub (table : next.table = world.table)
    (postings : next.postings = world.postings)
    (sockets : ∀ sock, client.socket = some sock → next.sockets sock = world.sockets sock)
    (bound : ∀ sender, world.msgHub.channels slot.course = some sender →
      next.msgHub.channels slot.course = some sender)
    (receivers : ∀ sock receiver, client.socket = some sock →
      (world.sockets sock).phase.receiver = some receiver →
        ∀ listening, world.msgHub.receivers[receiver]? = some listening →
          next.msgHub.receivers[receiver]? = some listening) :
    Beside slot first world next client := by
  refine ⟨by rw [table]; exact fun _ member => member, sockets, ?_⟩
  intro sock receiver listening reading holds found live
  refine ⟨listening, receivers sock receiver reading holds listening found, ?_⟩
  refine live.frame table (bound _ live.bound) ?_ fun task => by rw [postings]
  intro task publish staged
  rw [postings] at staged
  exact live.calm task publish staged

/-- Another socket changes, and nothing else does. -/
theorem sockets_of_update {other : Nat} {changed : Socket} (away : client.socket ≠ some other)
    (sockets : next.sockets = Function.update world.sockets other changed) (sock : Nat)
    (reading : client.socket = some sock) : next.sockets sock = world.sockets sock := by
  rw [sockets, Function.update_of_ne]
  rintro rfl
  exact away reading

/-- The receivers a socket holds are dropped with it, and no others. -/
theorem hangUp_receivers {phase : SocketPhase} {receiver : Nat}
    (held : phase.receiver ≠ some receiver) :
    (world.hangUp phase).msgHub.receivers[receiver]? = world.msgHub.receivers[receiver]? ∧
      (world.hangUp phase).msgHub.channels = world.msgHub.channels := by
  have dropped (messages : Nat) (different : receiver ≠ messages) :
      (world.msgHub.dropReceiver messages).receivers[receiver]? =
        world.msgHub.receivers[receiver]? :=
    Broadcast.getElem?_dropReceiver_of_ne different
  cases phase with
  | arrivingControl messages | handedControl messages sender =>
      exact ⟨dropped messages fun same => held (congrArg some same.symm), rfl⟩
  | tailing messages control =>
      have kept := dropped messages fun same => held (congrArg some same.symm)
      cases control <;> exact ⟨kept, rfl⟩
  | unopened | querying | catchingUp | arriving | handed | gone => exact ⟨rfl, rfl⟩

theorem hangUp_channels (world : MessageWorld) (phase : SocketPhase) :
    (world.hangUp phase).msgHub.channels = world.msgHub.channels := by
  unfold hangUp
  split <;> rfl

/-- A broadcast goes on beside the editor's socket. -/
theorem Kept.broadcast (kept : Kept slot first ⟨world, client⟩)
    (moves : MessageWorld.Moves jwt world event next) (task : Nat)
    (about : event = .insert task ∨ event = .commit task ∨ event = .rollBack task ∨
      event = .publish task) :
    Beside slot first world next client := by
  have grown : world.table ⊆ next.table ∧ next.sockets = world.sockets := by
    rcases about with rfl | rfl | rfl | rfl <;> cases moves <;>
      first
        | exact ⟨fun _ member => member, rfl⟩
        | exact ⟨List.subset_append_left _ _, rfl⟩
  refine ⟨grown.1, fun sock _ => by rw [grown.2], ?_⟩
  intro sock receiver listening reading holds found live
  have connected := kept.connected sock reading
  exact live.broadcast kept.routed kept.told found
    (connected.stored kept.remembers kept.routed found) moves task about

/-- Another socket goes on beside the editor's. -/
theorem Kept.another (kept : Kept slot first ⟨world, client⟩)
    (moves : MessageWorld.Moves jwt world event next) (other : Nat)
    (away : client.socket ≠ some other)
    (about : event.sock = some other) : Beside slot first world next client := by
  have foreign (sock receiver messages : Nat) (reading : client.socket = some sock)
      (holds : (world.sockets sock).phase.receiver = some receiver)
      (shares : (world.sockets other).phase.receiver = some messages) :
      receiver ≠ messages := by
    rintro rfl
    exact away (kept.apart sock other receiver holds shares ▸ reading)
  have still (sock receiver : Nat) (_ : client.socket = some sock)
      (_ : (world.sockets sock).phase.receiver = some receiver)
      (listening : Broadcast.Receiver MessageOut)
      (found : world.msgHub.receivers[receiver]? = some listening) :
      world.msgHub.receivers[receiver]? = some listening :=
    found
  cases moves with
  | query | queryFailed | pass | caughtUp | channelControl | listenControl | relayControl |
    take =>
      obtain rfl := Option.some.inj about
      exact beside_of_hub rfl rfl (sockets_of_update away rfl) (fun _ bound => bound) still
  | channel =>
      obtain rfl := Option.some.inj about
      refine beside_of_hub rfl rfl (sockets_of_update away rfl)
        (fun _ bound => Hub.channel_channels_of_eq_some bound) ?_
      intro sock receiver _ _ listening found
      rw [Hub.channel_receivers, found]
  | listen =>
      obtain rfl := Option.some.inj about
      refine beside_of_hub rfl rfl (sockets_of_update away rfl) (fun _ bound => bound) ?_
      intro sock receiver _ _ listening found
      have within := (List.getElem?_eq_some_iff.mp found).1
      simp [Hub.listen, List.getElem?_append_left within, found]
  | relay _ messages control message hub tailing received meant =>
      obtain rfl := Option.some.inj about
      obtain ⟨⟨read, rest⟩, taken, same⟩ := Option.map_eq_some_iff.mp received
      obtain ⟨rfl, rfl⟩ := Prod.mk.inj same
      refine beside_of_hub rfl rfl (sockets_of_update away rfl) (fun _ bound => bound) ?_
      intro sock receiver reading holds listening found
      have different := foreign sock receiver messages reading holds (by rw [tailing]; rfl)
      exact (Broadcast.getElem?_recv taken different).trans found
  | passOver _ messages control message hub tailing received others =>
      obtain rfl := Option.some.inj about
      obtain ⟨⟨read, rest⟩, taken, same⟩ := Option.map_eq_some_iff.mp received
      obtain ⟨rfl, rfl⟩ := Prod.mk.inj same
      refine beside_of_hub rfl rfl (fun _ _ => rfl) (fun _ bound => bound) ?_
      intro sock receiver reading holds listening found
      have different := foreign sock receiver messages reading holds (by rw [tailing]; rfl)
      exact (Broadcast.getElem?_recv taken different).trans found
  | close other =>
      obtain rfl := Option.some.inj about
      obtain ⟨table, -, postings, sockets⟩ := hangUp_same world (world.sockets other).phase
      have changed := congrArg (fun sockets => Function.update sockets other
        { world.sockets other with phase := .gone }) sockets
      refine beside_of_hub table postings (sockets_of_update away changed) ?_ ?_
      · intro sender bound
        exact (congrFun (hangUp_channels world _) _).trans bound
      · intro sock receiver reading holds listening found
        have held : (world.sockets other).phase.receiver ≠ some receiver :=
          fun shares => foreign sock receiver receiver reading holds shares rfl
        exact (hangUp_receivers held).1.trans found
  | _ => simp [Event.sock] at about

/-- What a query for what was missed selects comes after everything received, and
each message once. -/
theorem Remembers.query {table : List MessageRow} {nextId : Int}
    (remembers : Remembers first table client) (numbered : Sequenced table nextId)
    (same : client.received = client.before)
    (once : ∀ id, first < id → client.received.count id ≤ 1) :
    Remembers first table
      { client with
        page := shown (missed table slot.course client.lastMessageId (some slot.student)) } := by
  have selected (id : Int)
      (member : id ∈ (shown (missed table slot.course client.lastMessageId
        (some slot.student))).map MessageOut.id) :
      ∃ row ∈ table, row.id = id ∧ client.lastMessageId < id := by
    have listed := (shown_ids_sublist _).subset member
    obtain ⟨row, found, rfl⟩ := List.mem_map.mp listed
    obtain ⟨stored, -, above, -⟩ := mem_missed found
    exact ⟨row, stored, rfl, above⟩
  refine ⟨remembers.floor, remembers.last, remembers.stored, ?_, ?_⟩
  · intro id member
    rcases List.mem_append.mp member with earlier | paged
    · exact remembers.stored id (same ▸ earlier)
    · obtain ⟨row, stored, equal, -⟩ := selected id paged
      exact ⟨row, stored, equal⟩
  · intro id above
    rw [List.count_append, ← same]
    by_cases paged : id ∈ (shown (missed table slot.course client.lastMessageId
        (some slot.student))).map MessageOut.id
    · have unseen : id ∉ client.received := by
        intro received
        obtain ⟨-, -, -, higher⟩ := selected id paged
        have := remembers.last id received
        omega
      have nodup := (nodup_missed numbered.unique slot.course client.lastMessageId
        (some slot.student)).sublist (shown_ids_sublist _)
      rw [List.count_eq_zero_of_not_mem unseen, Nat.zero_add]
      exact List.nodup_iff_count_le_one.mp nodup id
    · rw [List.count_eq_zero_of_not_mem paged, Nat.add_zero]
      exact once id above

/-- The editor's own socket goes on. -/
theorem Kept.own {after : Client} (kept : Kept slot first ⟨world, client⟩)
    (stepped : MessageWorld.step jwt world event = some next)
    (reading : after.socket = some sock) (received : after.received = client.received)
    (remembers : Remembers first next.table after) (sockets : next.sockets sock = socket)
    (connected : Connected slot first next after socket) :
    Kept slot first ⟨next, after⟩ := by
  refine ⟨kept.routed.step stepped, kept.told.step stepped, kept.apart.step kept.routed stepped,
    remembers, ?_, ?_⟩
  · dsimp only
    rw [received]
    exact kept.once
  · intro other same
    obtain rfl := Option.some.inj (reading.symm.trans same)
    exact sockets ▸ connected

/-- The editor's socket is caught up. -/
theorem Kept.catchUp (kept : Kept slot first ⟨world, client⟩)
    (moves : MessageWorld.Moves jwt world event next)
    (stepped : MessageWorld.step jwt world event = some next)
    (reading : client.socket = some sock)
    (about : event = .query sock ∨ event = .queryFailed sock ∨ event = .pass sock) :
    Kept slot first ⟨next, client.record slot world.table event⟩ := by
  have connected := kept.connected sock reading
  dsimp only at connected
  have along := connected.along
  unfold Along at along
  cases moves with
  | query _ since querying wanted =>
      obtain rfl : _ = sock := by simpa using about
      simp only [querying] at along
      obtain ⟨fresh, silent, blank, resumes⟩ := along
      rw [Client.record, if_pos reading]
      refine kept.own stepped reading rfl
        (kept.remembers.query kept.told.table fresh kept.once) (Function.update_self _ _ _)
        ⟨connected.course, connected.student, connected.wire, connected.once, ?_⟩
      obtain rfl : since = client.lastMessageId :=
        Option.some.inj (wanted.symm.trans resumes)
      simp only [Along, got, silent, fresh, connected.course, connected.student]
      simp [messageIds]
  | queryFailed _ querying =>
      obtain rfl : _ = sock := by simpa using about
      simp only [querying] at along
      obtain ⟨fresh, silent, blank, -⟩ := along
      refine kept.own stepped reading rfl kept.remembers (Function.update_self _ _ _)
        ⟨connected.course, connected.student, connected.wire, connected.once, ?_⟩
      simp [Along, got, Client.record, silent, fresh, blank, messageIds]
  | pass named message rest catchingUp =>
      obtain rfl : named = sock := by simpa using about
      simp only [catchingUp] at along
      have sound := kept.routed.sockets named
      rw [Socket.Sound, catchingUp] at sound
      have order : client.received ++
            messageIds ((world.sockets named).wire ++ [.message message]) ++
              rest.map MessageOut.id =
          client.before ++ client.page.map MessageOut.id := by
        rw [← along, got, messageIds_message]
        simp
      refine kept.own stepped reading rfl kept.remembers (Function.update_self _ _ _)
        ⟨connected.course, connected.student, ?_, ?_, order⟩
      · intro other sent
        rcases List.mem_append.mp sent with before | new
        · exact connected.wire other before
        · obtain rfl := SocketFrame.message.inj (List.mem_singleton.mp new)
          exact connected.course ▸ (sound other List.mem_cons_self).1
      · intro id above
        refine Nat.le_trans (List.Sublist.count_le id ?_) (kept.remembers.pageOnce id above)
        dsimp only
        rw [← order]
        exact List.sublist_append_left _ _
  | caughtUp _ catchingUp =>
      obtain rfl : _ = sock := by simpa using about
      simp only [catchingUp] at along
      refine kept.own stepped reading rfl kept.remembers (Function.update_self _ _ _)
        ⟨connected.course, connected.student, connected.wire, connected.once, ?_⟩
      rw [List.map_nil, List.append_nil] at along
      exact along
  | _ => simp at about

/-- A connection that starts to listen at the right moment has or will get
everything. -/
theorem Seamless.live {sender : Nat} (seamless : Seamless slot first ⟨world, client⟩ sender)
    {list : List Int} (same : list = client.before ++ client.page.map MessageOut.id)
    (remembers : Remembers first world.table client) :
    Live slot first world list (Broadcast.Receiver.fresh sender) := by
  have only : list ++ waiting slot.student (Broadcast.Receiver.fresh sender).unread =
      client.before ++ client.page.map MessageOut.id := by
    rw [same]
    exact List.append_nil _
  refine ⟨rfl, seamless.bound, seamless.calm, ?_, ?_, ?_⟩
  · rw [only]
    exact remembers.pageOnce
  · intro row member wanted pending
    rw [only]
    exact fun listed => (seamless.accounted row member wanted).mp listed pending
  · intro steady row member wanted sent
    rw [only]
    exact (seamless.accounted row member wanted).mpr sent

/-- The editor's socket starts to listen. -/
theorem Kept.advance (kept : Kept slot first ⟨world, client⟩)
    (moves : MessageWorld.Moves jwt world (.advance sock) next)
    (stepped : MessageWorld.step jwt world (.advance sock) = some next)
    (reading : client.socket = some sock)
    (timely : ∀ sender, (world.sockets sock).phase = .handed sender →
      Seamless slot first ⟨world, client⟩ sender) :
    Kept slot first ⟨next, client⟩ := by
  have connected := kept.connected sock reading
  dsimp only at connected
  have along := connected.along
  unfold Along at along
  cases moves with
  | channel _ arriving =>
      simp only [arriving] at along
      exact kept.own stepped reading rfl kept.remembers (Function.update_self _ _ _)
        ⟨connected.course, connected.student, connected.wire, connected.once, along⟩
  | listen _ sender handed =>
      simp only [handed] at along
      have live := (timely sender handed).live along kept.remembers
      refine kept.own stepped reading rfl kept.remembers (Function.update_self _ _ _)
        ⟨connected.course, connected.student, connected.wire, connected.once, ?_⟩
      exact along_of_receiver (receiver_afterListen _ _)
        ⟨Broadcast.Receiver.fresh sender, by simp [Hub.listen],
          live.frame rfl live.bound live.calm fun _ => rfl⟩
  | channelControl _ messages student arriving belongs =>
      simp only [arriving] at along
      obtain ⟨listening, found, live⟩ := along
      exact kept.own stepped reading rfl kept.remembers (Function.update_self _ _ _)
        ⟨connected.course, connected.student, connected.wire, connected.once,
          listening, found, live.frame rfl live.bound live.calm fun _ => rfl⟩
  | listenControl _ messages sender handed =>
      simp only [handed] at along
      obtain ⟨listening, found, live⟩ := along
      exact kept.own stepped reading rfl kept.remembers (Function.update_self _ _ _)
        ⟨connected.course, connected.student, connected.wire, connected.once,
          listening, found, live.frame rfl live.bound live.calm fun _ => rfl⟩

/-- The editor's socket is handed a message its receiver read. -/
theorem Kept.relay (kept : Kept slot first ⟨world, client⟩)
    (moves : MessageWorld.Moves jwt world (.relay sock) next)
    (stepped : MessageWorld.step jwt world (.relay sock) = some next)
    (reading : client.socket = some sock) : Kept slot first ⟨next, client⟩ := by
  have connected := kept.connected sock reading
  dsimp only at connected
  cases moves with
  | relay _ messages control message hub tailing received meant =>
      have holds : (world.sockets sock).phase.receiver = some messages := by rw [tailing]; rfl
      obtain ⟨listening, found, live⟩ := connected.along.receiver holds
      obtain ⟨unread, queued, channels, read⟩ := Hub.of_recv found received
      rw [connected.student] at meant
      have order : client.received ++
            messageIds ((world.sockets sock).wire ++ [.message message]) ++
              waiting slot.student unread =
          got client (world.sockets sock) ++ waiting slot.student listening.unread := by
        rw [got, messageIds_message, queued, waiting_cons, if_pos meant]
        simp
      have fits : Fits world.table slot.course message := by
        have hears := kept.routed.made holds
        rw [connected.course] at hears
        exact (kept.routed.messages.recv hears received).1
      have moved : Live slot first world
          (client.received ++ messageIds ((world.sockets sock).wire ++ [.message message]))
          { listening with unread } := live.relist ⟨rfl, rfl, rfl⟩ order
      refine kept.own stepped reading rfl kept.remembers (Function.update_self _ _ _)
        ⟨connected.course, connected.student, ?_, ?_, along_of_receiver holds
          ⟨_, read, moved.frame rfl ((congrFun channels _).trans moved.bound) moved.calm
            fun _ => rfl⟩⟩
      · intro other sent
        rcases List.mem_append.mp sent with before | new
        · exact connected.wire other before
        · obtain rfl := SocketFrame.message.inj (List.mem_singleton.mp new)
          exact fits
      · intro id above
        refine Nat.le_trans (List.Sublist.count_le id ?_) (live.once id above)
        rw [← order]
        exact List.sublist_append_left _ _
  | passOver _ messages control message hub tailing received others =>
      have holds : (world.sockets sock).phase.receiver = some messages := by rw [tailing]; rfl
      obtain ⟨listening, found, live⟩ := connected.along.receiver holds
      obtain ⟨unread, queued, channels, read⟩ := Hub.of_recv found received
      rw [connected.student] at others
      have order : got client (world.sockets sock) ++ waiting slot.student unread =
          got client (world.sockets sock) ++ waiting slot.student listening.unread := by
        rw [queued, waiting_cons, others]
        simp
      have moved : Live slot first world (got client (world.sockets sock))
          { listening with unread } := live.relist ⟨rfl, rfl, rfl⟩ order
      exact kept.own stepped reading rfl kept.remembers rfl
        ⟨connected.course, connected.student, connected.wire, connected.once,
          along_of_receiver holds ⟨_, read, moved.frame rfl
            ((congrFun channels _).trans moved.bound) moved.calm fun _ => rfl⟩⟩

theorem Kept.relayControl (kept : Kept slot first ⟨world, client⟩)
    (moves : MessageWorld.Moves jwt world (.relayControl sock) next)
    (stepped : MessageWorld.step jwt world (.relayControl sock) = some next)
    (reading : client.socket = some sock) : Kept slot first ⟨next, client⟩ := by
  have connected := kept.connected sock reading
  dsimp only at connected
  cases moves with
  | relayControl _ messages control asked hub tailing received =>
      have holds : (world.sockets sock).phase.receiver = some messages := by rw [tailing]; rfl
      obtain ⟨listening, found, live⟩ := connected.along.receiver holds
      have same : client.received ++
            messageIds ((world.sockets sock).wire ++ [.control asked]) =
          got client (world.sockets sock) := by
        rw [messageIds_control, got]
      refine kept.own stepped reading rfl kept.remembers (Function.update_self _ _ _)
        ⟨connected.course, connected.student, ?_, ?_, along_of_receiver holds ⟨_, found, ?_⟩⟩
      · intro other sent
        rcases List.mem_append.mp sent with before | new
        · exact connected.wire other before
        · simp at new
      · exact fun id above =>
          (congrArg (List.count id) same).trans_le (connected.once id above)
      · exact (live.relist ⟨rfl, rfl, rfl⟩ (by rw [got, same])).frame rfl live.bound live.calm
          fun _ => rfl

theorem Kept.close (kept : Kept slot first ⟨world, client⟩)
    (moves : MessageWorld.Moves jwt world (.close sock) next)
    (stepped : MessageWorld.step jwt world (.close sock) = some next)
    (reading : client.socket = some sock) : Kept slot first ⟨next, client⟩ := by
  have connected := kept.connected sock reading
  dsimp only at connected
  cases moves with
  | close _ opened there =>
      have table := (hangUp_same world (world.sockets sock).phase).1
      refine kept.own stepped reading rfl ?_ (Function.update_self _ _ _) ?_
      · exact kept.remembers.grow (by
          intro row member
          dsimp only [withSocket]
          rwa [table])
      · refine ⟨connected.course, connected.student, ?_, connected.once, trivial⟩
        intro message sent
        dsimp only [withSocket]
        rw [table]
        exact connected.wire message sent

/-- The server goes on. -/
theorem Kept.server (kept : Kept slot first ⟨world, client⟩)
    (stepped : MessageWorld.step jwt world event = some next)
    (others : client.owns event = false)
    (timely : Timely slot first ⟨world, client⟩ (.server event)) :
    Kept slot first ⟨next, client.record slot world.table event⟩ := by
  have moves := MessageWorld.moves_of_step stepped
  have onward (beside : Beside slot first world next client) :
      Kept slot first ⟨next, client⟩ :=
    kept.beside (kept.routed.step stepped) (kept.told.step stepped)
      (kept.apart.step kept.routed stepped) beside
  have away (sock : Nat) (about : event.sock = some sock) (not : client.socket ≠ some sock) :
      Kept slot first ⟨next, client.record slot world.table event⟩ := by
    have same : client.record slot world.table event = client := by
      unfold Client.record
      split
      · obtain rfl := Option.some.inj about
        exact if_neg not
      · rfl
    rw [same]
    exact onward (kept.another moves sock not about)
  cases event with
  | query sock | queryFailed sock | pass sock =>
      by_cases reading : client.socket = some sock
      · exact kept.catchUp moves stepped reading (by simp)
      · exact away sock rfl reading
  | advance sock =>
      by_cases reading : client.socket = some sock
      · exact kept.advance moves stepped reading (timely reading)
      · exact away sock rfl reading
  | relay sock =>
      by_cases reading : client.socket = some sock
      · exact kept.relay moves stepped reading
      · exact away sock rfl reading
  | relayControl sock =>
      by_cases reading : client.socket = some sock
      · exact kept.relayControl moves stepped reading
      · exact away sock rfl reading
  | take sock =>
      by_cases reading : client.socket = some sock
      · simp [Client.owns, reading] at others
      · exact away sock rfl reading
  | close sock =>
      by_cases reading : client.socket = some sock
      · exact kept.close moves stepped reading
      · exact away sock rfl reading
  | insert task => exact onward (kept.broadcast moves task (.inl rfl))
  | commit task => exact onward (kept.broadcast moves task (.inr (.inl rfl)))
  | rollBack task => exact onward (kept.broadcast moves task (.inr (.inr (.inl rfl))))
  | publish task => exact onward (kept.broadcast moves task (.inr (.inr (.inr rfl))))
  | connect sock now request headers =>
      cases moves with
      | connect _ _ _ _ course student unopened accepted =>
          have not : client.socket ≠ some sock := by
            intro reading
            have along := (kept.connected sock reading).along
            simp only [Along, unopened] at along
          exact onward (beside_of_hub rfl rfl (sockets_of_update not rfl)
            (fun _ bound => bound) fun _ _ _ _ _ found => found)
  | configure | ask | publishAsk | poll =>
      cases moves
      exact onward (beside_of_hub rfl rfl (fun _ _ => rfl) (fun _ bound => bound)
        fun _ _ _ _ _ found => found)
  | post task request ctx now =>
      cases moves with
      | post _ _ _ _ idle =>
          refine onward ⟨fun _ member => member, fun _ _ => rfl, ?_⟩
          intro sock receiver listening reading holds found live
          have silent : (MessageWorld.post world.access request ctx now).pending slot.course = [] ∧
              (MessageWorld.post world.access request ctx now).stage slot.course = none := by
            unfold MessageWorld.post
            split
            · exact ⟨rfl, rfl⟩
            · split <;> exact ⟨rfl, rfl⟩
          refine ⟨listening, found, live.frame rfl live.bound
            (calm_update live.calm rfl fun publish staged => ?_) (pending_update rfl ?_)⟩
          · rw [silent.2] at staged
            simp at staged
          · rw [silent.1, idle]
            rfl

/-- A frame is taken off the wire and shown. -/
theorem got_take (client : Client) {message : MessageOut} {wire : List SocketFrame}
    (written : message.body ≠ [])
    (sent : socket.wire = .message message :: wire) :
    got (client.take (.message message)) { socket with wire } = got client socket := by
  have present : message.body.isEmpty = false := by simpa using written
  simp [got, Client.take, present, sent, messageIds]

/-- The editor reads a frame. -/
theorem Kept.take {frame : SocketFrame} {wire : List SocketFrame}
    (kept : Kept slot first ⟨world, client⟩) (reading : client.socket = some sock)
    (sent : (world.sockets sock).wire = frame :: wire)
    (stepped : MessageWorld.step jwt world (.take sock) =
      some (world.withSocket sock { world.sockets sock with wire })) :
    Kept slot first
      ⟨world.withSocket sock { world.sockets sock with wire }, client.take frame⟩ := by
  have connected := kept.connected sock reading
  dsimp only at connected
  have left (message : MessageOut) (more : .message message ∈ wire) :
      Fits world.table slot.course message :=
    connected.wire message (sent ▸ List.mem_cons_of_mem _ more)
  -- Whether it is a message or not, what the editor has or is on the wire stays.
  have shown (after : Client) (same : after.before = client.before ∧ after.page = client.page)
      (all : got after { world.sockets sock with wire } = got client (world.sockets sock)) :
      Connected slot first (world.withSocket sock { world.sockets sock with wire }) after
        { world.sockets sock with wire } := by
    refine ⟨connected.course, connected.student, left, ?_, ?_⟩
    · rw [all]
      exact connected.once
    · have along := connected.along
      unfold Along at along ⊢
      dsimp only
      rw [all, same.1, same.2]
      cases phase : (world.sockets sock).phase with
      | querying => simp [phase, sent] at along
      | arrivingControl receiver | handedControl receiver sender | tailing receiver control =>
          simp only [phase] at along ⊢
          obtain ⟨listening, found, live⟩ := along
          exact ⟨listening, found, live.frame rfl live.bound live.calm fun _ => rfl⟩
      | unopened => simp [phase] at along
      | gone => trivial
      | catchingUp | arriving | handed => simpa only [phase] using along
  cases frame with
  | control asked =>
      refine kept.own stepped reading rfl kept.remembers (Function.update_self _ _ _)
        (shown client ⟨rfl, rfl⟩ ?_)
      simp [got, sent, messageIds]
  | message message =>
      obtain ⟨row, stored, belongs, made⟩ := connected.wire message (sent ▸ List.mem_cons_self)
      have fields := tryFrom_eq_ok_iff.mp made
      have written : message.body ≠ [] := fields.2.2.1 ▸ kept.told.table.texts row stored
      have present : message.body.isEmpty = false := by simpa using written
      have all := got_take client written sent
      have record : client.take (.message message) =
          { client with
            received := client.received ++ [message.id]
            lastMessageId :=
              if client.lastMessageId < message.id then message.id
              else client.lastMessageId } := by
        simp [Client.take, present]
      have highest : client.lastMessageId ≤ (client.take (.message message)).lastMessageId ∧
          message.id ≤ (client.take (.message message)).lastMessageId := by
        rw [record]
        dsimp only
        split <;> omega
      have once (id : Int) (above : first < id) :
          (client.take (.message message)).received.count id ≤ 1 := by
        refine Nat.le_trans (List.Sublist.count_le id ?_) (connected.once id above)
        rw [← all]
        exact List.sublist_append_left _ _
      refine ⟨kept.routed.step stepped, kept.told.step stepped,
        kept.apart.step kept.routed stepped, ⟨?_, ?_, ?_, ?_, ?_⟩, once, ?_⟩
      · exact Int.le_trans kept.remembers.floor highest.1
      · intro id member
        rw [record] at member
        rcases List.mem_append.mp member with before | new
        · exact Int.le_trans (kept.remembers.last id before) highest.1
        · rw [List.mem_singleton.mp new]
          exact highest.2
      · intro id member
        rw [record] at member
        rcases List.mem_append.mp member with before | new
        · exact kept.remembers.stored id before
        · rw [List.mem_singleton.mp new]
          exact ⟨row, stored, fields.2.1⟩
      · rw [record]
        exact kept.remembers.selected
      · rw [record]
        exact kept.remembers.pageOnce
      · intro other same
        obtain rfl : sock = other := by
          rw [record] at same
          exact Option.some.inj (reading.symm.trans same)
        dsimp only [withSocket]
        rw [Function.update_self]
        exact shown _ (by rw [record]; exact ⟨rfl, rfl⟩) all

/-- Whatever the server or the editor does next. -/
theorem Kept.step {state after : MessageSocket} {event : Event} (kept : Kept slot first state)
    (timely : Timely slot first state event)
    (stepped : MessageSocket.step jwt slot state event = some after) :
    Kept slot first after := by
  obtain ⟨world, client⟩ := state
  cases MessageSocket.moves_of_step stepped with
  | server event next others moved => exact kept.server moved others timely
  | take sock frame wire connected waiting moved => exact kept.take connected waiting moved
  | hangUp sock connected =>
      exact ⟨kept.routed, kept.told, kept.apart,
        ⟨kept.remembers.floor, kept.remembers.last, kept.remembers.stored,
          kept.remembers.selected, kept.remembers.pageOnce⟩,
        kept.once, fun other same => by simp at same⟩
  | connect sock now request headers away resumes unopened moved =>
      refine ⟨kept.routed.step moved, kept.told.step moved,
        kept.apart.step kept.routed moved, ⟨kept.remembers.floor, kept.remembers.last,
          kept.remembers.stored, ?_, ?_⟩, kept.once, ?_⟩
      · intro id member
        exact kept.remembers.stored id (by simpa [Client.connect] using member)
      · intro id above
        have := kept.once id above
        simpa [Client.connect] using this
      · intro other same
        obtain rfl := Option.some.inj same
        dsimp only [withSocket]
        rw [Function.update_self]
        refine ⟨rfl, rfl, fun message sent => by simp at sent, ?_, rfl, rfl, rfl, rfl⟩
        intro id above
        have := kept.once id above
        simpa [got, Client.connect, messageIds] using this

end Kept

theorem kept_initial (slot : Slot) (access : Access) {table : List MessageRow}
    {nextId first : Int} (numbered : Sequenced table nextId) :
    Kept slot first (initial access table nextId first) :=
  ⟨routed_initial access table nextId, told_initial access numbered,
    apart_initial access table nextId,
    ⟨Int.le_refl first, by simp [initial, Client.initial], by simp [initial, Client.initial],
      by simp [initial, Client.initial], by simp [initial, Client.initial]⟩,
    by simp [initial, Client.initial], fun sock same => by simp [initial, Client.initial] at same⟩

/-- The editor is connected long enough for a message: it tails without having
lagged, and the message is no longer on its way. -/
def Settled (slot : Slot) (state : MessageSocket) (id : Int) : Prop :=
  ∃ sock receiver control listening,
    state.client.socket = some sock ∧
    (state.world.sockets sock).phase = .tailing receiver control ∧
    state.world.msgHub.receivers[receiver]? = some listening ∧ listening.lagged = false ∧
    ¬ Pending slot.course state.world id ∧
    id ∉ messageIds (state.world.sockets sock).wire ∧
    ∀ message ∈ listening.unread, message.id ≠ id

open EventRuns

/-- In every run whose connections are all seamless the editor shows every message
for its student once, as soon as it is connected long enough, and never twice. -/
theorem received_once (jwt : JsonWebToken) (slot : Slot) (first : Int) (access : Access)
    (table : List MessageRow) (nextId : Int) (events : List Event) (state : MessageSocket)
    (numbered : Sequenced table nextId)
    (timely : Guarded (step jwt slot) (Timely slot first) (initial access table nextId first)
      events)
    (ran : run (step jwt slot) (initial access table nextId first) events = some state) :
    ∀ row ∈ state.world.table, Wanted slot first row →
      state.client.received.count row.id ≤ 1 ∧
        (Settled slot state row.id → state.client.received.count row.id = 1) := by
  have kept := invariant_of_guarded
    (fun _ _ _ (kept : Kept slot first _) timely stepped => kept.step timely stepped)
    (kept_initial slot access numbered) timely ran
  intro row member wanted
  have once := kept.once row.id wanted.2.2
  refine ⟨once, ?_⟩
  rintro ⟨sock, receiver, control, listening, reading, tailing, found, steady, sent, passed,
    read⟩
  have holds : (state.world.sockets sock).phase.receiver = some receiver := by
    rw [tailing]
    rfl
  obtain ⟨other, also, live⟩ := (kept.connected sock reading).along.receiver holds
  obtain rfl : listening = other := Option.some.inj (found.symm.trans also)
  have listed := live.all steady row member wanted sent
  have unqueued : row.id ∉ waiting slot.student listening.unread := by
    intro queued
    obtain ⟨message, waits, same⟩ := List.mem_map.mp queued
    exact read message (List.mem_filter.mp waits).1 same
  have received : row.id ∈ state.client.received := by
    rcases List.mem_append.mp listed with here | queued
    · exact (List.mem_append.mp here).resolve_right passed
    · exact absurd queued unqueued
  exact Nat.le_antisymm once (List.count_pos_iff.mpr received)

/-- A message that was there when alice's editor connects. -/
def missedRow : MessageRow :=
  ⟨1, 1, "hi".toList, none, 3⟩

/-- She is caught up on it, -/
def arrival : List Event :=
  [.connect 0 0 ⟨none, none, some 0, none⟩ (enrolled alice.name), .server (.query 0),
    .server (.pass 0), .server (.pass 0)]

/-- and after another one was sent to her she has both. -/
def attendance : List Event :=
  [.take, .server (.post 0 ⟨none, "hello".toList, some [alice]⟩ .openDev 5),
    .server (.insert 0), .server (.commit 0), .server (.publish 0), .server (.publish 0),
    .server (.relay 0), .take]

/-- The four steps of listening between the two. -/
def listens : Event :=
  .server (.advance 0)

def visit : List Event :=
  arrival ++ [listens] ++ [listens] ++ [listens] ++ [listens] ++ attendance

theorem timely_of_phase {slot : Slot} {first : Int} {state : MessageSocket}
    (phase : SocketPhase) (here : (state.world.sockets 0).phase = phase)
    (not : ∀ sender, phase ≠ .handed sender) : Timely slot first state listens :=
  fun _ sender handed => absurd (here.symm.trans handed) (not sender)

/-- How far alice's socket is after some of the steps. -/
theorem phase_of_run {events : List Event} {middle : MessageSocket}
    (ran : run (step named ⟨1, alice⟩) (initial classroom [missedRow] 2 0) events = some middle)
    {phase : SocketPhase}
    (reached : (run (step named ⟨1, alice⟩) (initial classroom [missedRow] 2 0) events).map
      (fun state => (state.world.sockets 0).phase) = some phase) :
    (middle.world.sockets 0).phase = phase := by
  rw [ran] at reached
  exact Option.some.inj reached

theorem seamless_arrival {middle : MessageSocket}
    (ran : run (step named ⟨1, alice⟩) (initial classroom [missedRow] 2 0)
      (arrival ++ [listens]) = some middle) :
    Seamless ⟨1, alice⟩ 0 middle 0 := by
  have known : (run (step named ⟨1, alice⟩) (initial classroom [missedRow] 2 0)
      (arrival ++ [listens])).map (fun state =>
        (state.world.table, state.client.before ++ state.client.page.map MessageOut.id,
          state.world.postings, state.world.msgHub.channels 1)) =
      some ([missedRow], [1], fun _ => .idle, some 0) := rfl
  rw [ran, Option.map_some, Option.some.injEq] at known
  simp only [Prod.mk.injEq] at known
  obtain ⟨table, caught, postings, bound⟩ := known
  refine ⟨?_, bound, ?_⟩
  · intro row member _
    rw [table, List.mem_singleton] at member
    subst member
    rw [caught]
    apply iff_of_true (by decide)
    rintro ⟨task, listed⟩
    rw [postings] at listed
    exact nomatch listed
  · intro task publish staged
    rw [postings] at staged
    exact nomatch staged

theorem received_once_attended :
    ∃ state,
      run (step named ⟨1, alice⟩) (initial classroom [missedRow] 2 0) visit = some state ∧
      state.client.received = [1, 2] ∧
      ∀ row ∈ state.world.table, Wanted ⟨1, alice⟩ 0 row →
        state.client.received.count row.id ≤ 1 ∧
          (Settled ⟨1, alice⟩ state row.id → state.client.received.count row.id = 1) := by
  have single {state : MessageSocket} (met : Timely ⟨1, alice⟩ 0 state listens) :
      Guarded (step named ⟨1, alice⟩) (Timely ⟨1, alice⟩ 0) state [listens] :=
    ⟨met, fun _ _ => trivial⟩
  refine ⟨_, rfl, rfl, received_once named ⟨1, alice⟩ 0 classroom [missedRow] 2 visit _
    ⟨by decide, by decide, by decide⟩ ?_ rfl⟩
  refine .append (.append (.append (.append (.append (guarded_of_forall ?_) ?_) ?_) ?_) ?_)
    fun _ _ => guarded_of_forall ?_
  · simp [arrival, Timely]
  · exact fun middle ran => single (timely_of_phase .arriving (phase_of_run ran rfl) (by simp))
  · intro middle ran
    refine single fun _ sender handed => ?_
    obtain rfl := SocketPhase.handed.inj ((phase_of_run ran rfl).symm.trans handed)
    exact seamless_arrival ran
  · exact fun middle ran =>
      single (timely_of_phase (.arrivingControl 0) (phase_of_run ran rfl) (by simp))
  · exact fun middle ran =>
      single (timely_of_phase (.handedControl 0 0) (phase_of_run ran rfl) (by simp))
  · simp [attendance, Timely]

/-- A message is committed and published between the query for what was missed and
the subscription. -/
def overlooked : List Event :=
  [.connect 0 0 ⟨none, none, some 0, none⟩ (enrolled alice.name), .server (.query 0),
    .server (.post 0 ⟨none, "hello".toList, some [alice]⟩ .openDev 5), .server (.insert 0),
    .server (.commit 0), .server (.publish 0), .server (.pass 0), .server (.advance 0),
    .server (.advance 0), .server (.advance 0), .server (.advance 0)]

theorem not_received_once_overlooked :
    ∃ state, run (step named ⟨1, alice⟩) (initial classroom [] 1 0) overlooked = some state ∧
      ∃ row ∈ state.world.table, Wanted ⟨1, alice⟩ 0 row ∧ Settled ⟨1, alice⟩ state row.id ∧
        state.client.received.count row.id = 0 := by
  refine ⟨_, rfl, ⟨1, 1, "hello".toList, some alice.name, 5⟩, List.mem_singleton_self _,
    ⟨rfl, by decide, by decide⟩, ⟨0, 0, some 0, _, rfl, rfl, rfl, rfl, ?_, ?_, ?_⟩, rfl⟩
  · rintro ⟨task, listed⟩
    cases task <;> exact nomatch listed
  · exact List.not_mem_nil
  · exact fun message queued => nomatch queued

end MessageSocket

end Hermione
