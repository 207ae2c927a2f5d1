import Hermione.MessageNumbers

/-!
# An editor's message socket

The editor at the other end of message sockets, one after the other.  It connects
with the highest identifier it was sent so far, reads frames as they come and may
lose or drop the connection at any moment.  Everything else happens in the message
server as before.
-/

namespace Hermione

/-- The editor's end. -/
structure Client where
  /-- The socket it reads, while it is connected. -/
  socket : Option Nat
  lastMessageId : Int
  /-- The messages it showed, in order. -/
  received : List Int
  /-- For the record: what it had received when it last connected, and what the
  query for what it missed then answered. -/
  before : List Int
  page : List MessageOut

namespace Client

/-- An editor that was never connected, or that remembers a message from before. -/
def initial (first : Int) : Client :=
  { socket := none, lastMessageId := first, received := [], before := [], page := [] }

/-- A frame arrives.  A control frame asks for the file; a message without a body
is none. -/
def take (client : Client) : SocketFrame → Client
  | .control _ => client
  | .message message =>
      if message.body.isEmpty then client
      else
        { client with
          received := client.received ++ [message.id]
          lastMessageId :=
            if client.lastMessageId < message.id then message.id else client.lastMessageId }

def connect (client : Client) (sock : Nat) : Client :=
  { client with socket := some sock, before := client.received, page := [] }

/-- Only the editor itself reads its socket. -/
def owns (client : Client) : MessageWorld.Event → Bool
  | .take sock => client.socket == some sock
  | _ => false

/-- What a step of the server puts on record. -/
def record (client : Client) (slot : Slot) (table : List MessageRow) :
    MessageWorld.Event → Client
  | .query sock =>
      if client.socket = some sock then
        { client with
          page := shown (missed table slot.course client.lastMessageId (some slot.student)) }
      else client
  | _ => client

end Client

/-- The server and one student's editor. -/
structure MessageSocket where
  world : MessageWorld
  client : Client

namespace MessageSocket

inductive Event where
  | server (event : MessageWorld.Event)
  | connect (sock : Nat) (now : Int) (request : WsQuery) (headers : Headers)
  | take
  /-- The editor notices that the connection is gone, or drops it. -/
  | hangUp

def initial (access : Access) (table : List MessageRow) (nextId first : Int) : MessageSocket :=
  ⟨.initial access table nextId, .initial first⟩

variable (jwt : JsonWebToken) (slot : Slot)

def step (state : MessageSocket) : Event → Option MessageSocket
  | .server event =>
      if state.client.owns event then none
      else
        (state.world.step jwt event).map fun world =>
          ⟨world, state.client.record slot state.world.table event⟩
  | .connect sock now request headers =>
      if state.client.socket = none ∧ request.since = some state.client.lastMessageId then
        (state.world.step jwt (.connect sock now request headers)).bind fun world =>
          if (world.sockets sock).course = slot.course ∧
              (world.sockets sock).student = some slot.student then
            some ⟨world, state.client.connect sock⟩
          else none
      else none
  | .take =>
      state.client.socket.bind fun sock =>
        ((state.world.sockets sock).wire.head?).bind fun frame =>
          (state.world.step jwt (.take sock)).map fun world => ⟨world, state.client.take frame⟩
  | .hangUp =>
      state.client.socket.map fun _ =>
        ⟨state.world, { state.client with socket := none }⟩

/-- What a step can do. -/
inductive Moves (state : MessageSocket) : Event → MessageSocket → Prop where
  | server (event : MessageWorld.Event) (world : MessageWorld)
      (others : state.client.owns event = false)
      (stepped : state.world.step jwt event = some world) :
      Moves state (.server event) ⟨world, state.client.record slot state.world.table event⟩
  | connect (sock : Nat) (now : Int) (request : WsQuery) (headers : Headers)
      (away : state.client.socket = none)
      (resumes : request.since = some state.client.lastMessageId)
      (unopened : (state.world.sockets sock).phase = .unopened)
      (stepped : state.world.step jwt (.connect sock now request headers) =
        some (state.world.withSocket sock
          { course := slot.course, student := some slot.student
            since := some state.client.lastMessageId, phase := .querying, wire := [] })) :
      Moves state (.connect sock now request headers)
        ⟨state.world.withSocket sock
          { course := slot.course, student := some slot.student
            since := some state.client.lastMessageId, phase := .querying, wire := [] },
          state.client.connect sock⟩
  | take (sock : Nat) (frame : SocketFrame) (wire : List SocketFrame)
      (connected : state.client.socket = some sock)
      (waiting : (state.world.sockets sock).wire = frame :: wire)
      (stepped : state.world.step jwt (.take sock) =
        some (state.world.withSocket sock { state.world.sockets sock with wire })) :
      Moves state .take
        ⟨state.world.withSocket sock { state.world.sockets sock with wire },
          state.client.take frame⟩
  | hangUp (sock : Nat) (connected : state.client.socket = some sock) :
      Moves state .hangUp ⟨state.world, { state.client with socket := none }⟩

variable {jwt slot} {state next : MessageSocket} {event : Event}

theorem moves_of_connect {sock : Nat} {now : Int} {request : WsQuery} {headers : Headers}
    (stepped : step jwt slot state (.connect sock now request headers) = some next) :
    Moves jwt slot state (.connect sock now request headers) next := by
  simp only [step, Option.ite_none_right_eq_some, Option.bind_eq_some_iff, Option.some.injEq]
    at stepped
  obtain ⟨⟨away, resumes⟩, world, moved, ⟨course, student⟩, rfl⟩ := stepped
  cases MessageWorld.moves_of_step moved with
  | connect sock now request headers owner listener unopened accepted =>
      simp only [MessageWorld.withSocket, Function.update_self] at course student
      subst course student
      simp only [resumes, Option.isSome_some, if_true] at moved ⊢
      exact .connect sock now request headers away resumes unopened moved

theorem moves_of_step (stepped : step jwt slot state event = some next) :
    Moves jwt slot state event next := by
  cases event with
  | connect sock now request headers => exact moves_of_connect stepped
  | server event =>
      simp only [step] at stepped
      split at stepped
      · simp at stepped
      · rename_i others
        obtain ⟨world, moved, rfl⟩ := Option.map_eq_some_iff.mp stepped
        exact .server event world (Bool.not_eq_true _ ▸ others) moved
  | take =>
      simp only [step, Option.bind_eq_some_iff] at stepped
      obtain ⟨sock, connected, frame, first, stepped⟩ := stepped
      obtain ⟨world, moved, rfl⟩ := Option.map_eq_some_iff.mp stepped
      cases MessageWorld.moves_of_step moved with
      | take sock head wire waiting =>
          rw [waiting, List.head?_cons, Option.some.injEq] at first
          subst first
          exact .take sock head wire connected waiting moved
  | hangUp =>
      obtain ⟨sock, connected, rfl⟩ := Option.map_eq_some_iff.mp stepped
      exact .hangUp sock connected

end MessageSocket

end Hermione
