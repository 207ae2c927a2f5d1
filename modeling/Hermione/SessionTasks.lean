import Hermione.EventRuns
import Hermione.SessionWatch

/-!
# The recorders and watchers of a server

Any number of recorders' streams and of watchers share the tables and the session
hub.  A stream may fail or be dropped at any of its waits; a watcher may come
before a session has begun, while it runs or when it is over, over gRPC for any
identifier and over the web for any session in the table.
-/

namespace Hermione

open Broadcast

/-- A recorder's stream, without what it shares with others. -/
structure Ingest where
  call : SessionIngest.Call
  record : SessionIngest.Record

/-- How far a watcher is. -/
inductive Watcher where
  /-- `subscribe` has taken the sender and not made a receiver of it. -/
  | handed (key : Uuid) (sender : Nat)
  /-- It passes the history on. -/
  | reading (key : Uuid) (receiver : Nat)
  | relaying (key : Uuid) (receiver : Nat)
  | gone
  deriving DecidableEq

/-- Whether a watcher has a sender of a channel, until it listens. -/
def Watcher.holds (watcher : Watcher) (channel : Nat) : Bool :=
  match watcher with
  | .handed _ sender => sender = channel
  | _ => false

structure SessionWorld where
  backend : Backend
  /-- The streams, those that nobody polls any more left out. -/
  calls : List (Option Ingest)
  watchers : List Watcher

namespace SessionIngest

/-- What a stream itself meets with, and not other tasks. -/
def Event.own : Event → Bool
  | .watch _ | .unwatch _ => false
  | _ => true

/-- Whether a stream has a sender of a channel.  A call that returned has nothing. -/
def Call.holds (call : Call) (channel : Nat) : Bool :=
  match call.phase with
  | .returned _ => false
  | _ => call.bcast = some channel

/-- A stream is under way and its session is this one: it holds the session's
channel or is about to open it. -/
def Call.Concerns (call : Call) (key : Uuid) : Prop :=
  ¬ call.phase.Done ∧ (call.sessionId = some key ∨ call.phase = .opening key)

/-- What ends a stream without its last steps, or turns it to another session. -/
def Call.GivesUp (call : Call) : Event → Prop
  | .broken _ => True
  | .refused _ =>
      match call.phase with
      | .inserting _ | .flushing _ _ => True
      | _ => False
  | .locked =>
      match call.phase with
      | .opening _ => True
      | _ => False
  | _ => False

end SessionIngest

namespace SessionWorld

/-- A server that has just come up, with the tables it finds. -/
def start (sessions : Uuid → Option SessionRow) (events : List TerminalRow) : SessionWorld :=
  { backend := { sessions, events, hub := .empty }, calls := [], watchers := [] }

inductive Event where
  /-- A recorder's call, its credentials judged. -/
  | stream (admitted : Except Status (Uuid × Option Str))
  | ingest (index : Nat) (event : SessionIngest.Event)
  /-- The call's client is gone and the call is dropped where it stands. -/
  | drop (index : Nat)
  /-- The hub hands a watcher the session's sender. -/
  | watch (viewer : Viewer) (key : Uuid)
  | listen (index : Nat)
  /-- The history is passed on. -/
  | tail (index : Nat)
  | relay (index : Nat)
  /-- The channel is found to be closed. -/
  | close (index : Nat)
  /-- The watcher's client is gone, or its history cannot be read. -/
  | hangUp (index : Nat)

/-- Whether the map binds its key to a channel. -/
def isBound (hub : Hub Uuid Fanned) (channel : Nat) : Bool :=
  match hub.keys[channel]? with
  | some key => hub.channels key = some channel
  | none => false

/-- Whether anybody has a sender of a channel. -/
def isOpen (world : SessionWorld) (channel : Nat) : Bool :=
  isBound world.backend.hub channel ||
    (world.calls.any fun
      | some ingest => ingest.call.holds channel
      | none => false) ||
    world.watchers.any fun watcher => watcher.holds channel

/-- Whom a viewer's service lets listen: the web looks the session up first. -/
def admits (backend : Backend) (key : Uuid) : Viewer → Bool
  | .grpc => true
  | .web => (backend.sessions key).isSome

def withHub (world : SessionWorld) (hub : Hub Uuid Fanned) : SessionWorld :=
  { world with backend := { world.backend with hub } }

def put (world : SessionWorld) (index : Nat) (watcher : Watcher) : SessionWorld :=
  { world with watchers := world.watchers.set index watcher }

def step (codecs : Codecs) (world : SessionWorld) : Event → Option SessionWorld
  | .stream admitted =>
      let begun := SessionIngest.start world.backend admitted
      some { world with calls := world.calls ++ [some ⟨begun.call, begun.record⟩] }
  | .ingest index event =>
      match world.calls[index]?, event.own with
      | some (some ingest), true =>
          (SessionIngest.step codecs ⟨world.backend, ingest.call, ingest.record⟩ event).map
            fun next =>
              { world with
                backend := next.backend
                calls := world.calls.set index (some ⟨next.call, next.record⟩) }
      | _, _ => none
  | .drop index =>
      match world.calls[index]? with
      | some (some _) => some { world with calls := world.calls.set index none }
      | _ => none
  | .watch viewer key =>
      if admits world.backend key viewer then
        let (hub, sender) := world.backend.hub.channel key
        some { world.withHub hub with watchers := world.watchers ++ [.handed key sender] }
      else none
  | .listen index =>
      match world.watchers[index]? with
      | some (.handed key sender) =>
          let (hub, receiver) := world.backend.hub.listen sender
          some ((world.withHub hub).put index (.reading key receiver))
      | _ => none
  | .tail index =>
      match world.watchers[index]? with
      | some (.reading key receiver) => some (world.put index (.relaying key receiver))
      | _ => none
  | .relay index =>
      match world.watchers[index]? with
      | some (.relaying _ receiver) =>
          (world.backend.hub.recv receiver).map fun received => world.withHub received.2
      | _ => none
  | .close index =>
      match world.watchers[index]? with
      | some (.relaying _ receiver) =>
          match world.backend.hub.receivers[receiver]? with
          | some listening =>
              if listening.unread.isEmpty && !(world.isOpen listening.channel) then
                some ((world.withHub (world.backend.hub.dropReceiver receiver)).put index .gone)
              else none
          | none => none
      | _ => none
  | .hangUp index =>
      match world.watchers[index]? with
      | some (.handed _ _) => some (world.put index .gone)
      | some (.reading _ receiver) | some (.relaying _ receiver) =>
          some ((world.withHub (world.backend.hub.dropReceiver receiver)).put index .gone)
      | _ => none

/-! ### What is claimed of the session hub -/

variable (world : SessionWorld)

/-- The stream at a place in the list. -/
def Has (index : Nat) (ingest : Ingest) : Prop :=
  world.calls[index]? = some (some ingest)

def InProgress (key : Uuid) : Prop :=
  ∃ index ingest, world.Has index ingest ∧ ingest.call.Concerns key

/-- The map binds the session of a stream under way to a channel, and the stream has
the channel's sender or is about to be given it. -/
def Served (channel : Nat) : Prop :=
  ∃ index ingest key, world.Has index ingest ∧ ingest.call.Concerns key ∧
    world.backend.hub.channels key = some channel ∧
    (ingest.call.sessionId = some key → ingest.call.bcast = some channel)

/-- Nobody has a sender of a channel, but for watchers that are about to drop theirs. -/
def Closing (channel : Nat) : Prop :=
  (∀ key, world.backend.hub.channels key ≠ some channel) ∧
    ∀ index ingest, world.Has index ingest → ingest.call.holds channel = false

/-- The session hub holds only what is live. -/
structure HoldsLive (codecs : Codecs) : Prop where
  bound : ∀ key sender, world.backend.hub.channels key = some sender →
    world.InProgress key ∨
      ∃ receiver ∈ world.backend.hub.receivers, receiver.alive = true ∧
        receiver.channel = sender
  waits : ∀ receiver ∈ world.backend.hub.receivers, receiver.alive = true →
    world.Served receiver.channel ∨ world.Closing receiver.channel
  /-- A watcher of a session that is over gets the end of its stream. -/
  ends : ∀ (index receiver : Nat) (key : Uuid) (listening : Receiver Fanned),
    world.watchers[index]? = some (.relaying key receiver) →
      world.backend.hub.receivers[receiver]? = some listening →
      ¬ world.InProgress key → listening.unread = [] →
      (∀ watcher ∈ world.watchers, watcher.holds listening.channel = false) →
      (step codecs world (.close index)).isSome

/-- Watchers ask only for sessions whose stream is under way; and no stream leaves a
session but by its last steps. -/
def Orderly : Event → Prop
  | .watch _ key => world.InProgress key
  | .ingest index event =>
      ∀ ingest, world.Has index ingest → ingest.call.GivesUp event →
        ingest.call.sessionId = none
  | .drop index =>
      ∀ ingest key, world.Has index ingest → ingest.call.Concerns key →
        world.backend.hub.channels key = none
  | _ => True

end SessionWorld

end Hermione
