import Mathlib.Data.List.Sort
import Hermione.Paging
import Hermione.SessionIngest

/-!
# Watching a session

A watcher listens on the session's channel, then reads the stored history a page
at a time and then relays what it has been hearing since.  The gRPC service and
the web's event stream do this alike, up to what they send for a chunk and what
they make of a page that cannot be read.
-/

namespace Hermione

open SessionIngest

/-- Rows read per page when replaying history. -/
def HISTORY_PAGE : Nat :=
  500

/-- One event of the web's stream. -/
structure ChunkDto where
  stream : StreamLabel
  offsetMs : Int64
  data : Str
  text : Str
  deriving DecidableEq

/-- Which of the two services a watcher uses. -/
inductive Viewer where
  | grpc
  | web
  deriving DecidableEq, Repr

/-- What a watcher is sent for a chunk. -/
inductive Frame where
  | chunk (chunk : TerminalChunk)
  | event (dto : ChunkDto)
  deriving DecidableEq

/-- A frame, with its chunk's number for the record. -/
structure Sent where
  seq : Nat
  frame : Frame
  deriving DecidableEq

namespace SessionWatch

section Frames

variable (codecs : Codecs)

def decodeChunk (row : TerminalRow) : TerminalChunk :=
  { stream :=
      match row.stream with
      | .stdin => StreamKind.stdin.number
      | .stdout => StreamKind.stdout.number
    data := (codecs.decode row.data).getD []
    offsetMs := row.offsetMs }

def sseFromRow (row : TerminalRow) : ChunkDto :=
  { stream := row.stream
    offsetMs := row.offsetMs
    data := row.data
    text := row.text.getD (codecs.plain ((codecs.decode row.data).getD [])) }

def sseFromChunk (chunk : TerminalChunk) : ChunkDto :=
  { stream := streamLabel chunk.stream
    offsetMs := chunk.offsetMs
    data := codecs.encode chunk.data
    text := codecs.plain chunk.data }

def stored (viewer : Viewer) (row : TerminalRow) : Sent :=
  { seq := row.seq
    frame :=
      match viewer with
      | .grpc => .chunk (decodeChunk codecs row)
      | .web => .event (sseFromRow codecs row) }

def live (viewer : Viewer) (fanned : Fanned) : Sent :=
  { seq := fanned.seq
    frame :=
      match viewer with
      | .grpc => .chunk fanned.chunk
      | .web => .event (sseFromChunk codecs fanned.chunk) }

end Frames

/-- The session's history, as the query orders it. -/
def history (id : Uuid) (events : List TerminalRow) : List TerminalRow :=
  (rowsOf id events).insertionSort fun first second => first.seq ≤ second.seq

/-- How far a watcher is. -/
inductive Phase where
  | away
  /-- It was handed the sender and has yet to listen. -/
  | handed (sender : Nat)
  | reading (receiver page : Nat)
  | relaying (receiver : Nat)
  | gone
  deriving DecidableEq

/-- The recorder's call, one watcher of its session and what the watcher was sent.
How much had been fanned out when the watcher's receiver was made is kept for the
record. -/
structure State where
  ingest : SessionIngest.State
  phase : Phase
  sent : List Sent
  since : Nat

def start (backend : Backend) (admitted : Except Status (Uuid × Option Str)) : State :=
  { ingest := SessionIngest.start backend admitted, phase := .away, sent := [], since := 0 }

inductive Event where
  | ingest (event : SessionIngest.Event)
  /-- The hub hands out the session's sender. -/
  | channel
  /-- A receiver is made of it. -/
  | subscribe
  /-- The next page of the history is read and passed on. -/
  | page
  | pageFailed
  /-- A chunk that was heard is passed on. -/
  | relay
  /-- The watcher hangs up. -/
  | hangUp

/-- The receiver a watcher holds. -/
def Phase.receiver : Phase → Option Nat
  | .reading receiver _ | .relaying receiver => some receiver
  | _ => none

/-- The recorder's stream starts one session, the one watched; and nobody else has
the watcher's receiver. -/
def allowed (id : Uuid) (state : State) : SessionIngest.Event → Bool
  | .start drawn _ => drawn = id && state.ingest.call.sessionId.isNone
  | .unwatch receiver => state.phase.receiver ≠ some receiver
  | _ => true

variable (codecs : Codecs) (viewer : Viewer) (id : Uuid)

def withHub (state : State) (hub : Hub Uuid Fanned) : State :=
  { state with
    ingest := { state.ingest with backend := { state.ingest.backend with hub } } }

def step (state : State) (event : Event) : Option State :=
  match event, state.phase with
  | .ingest event, _ =>
      if allowed id state event then
        (SessionIngest.step codecs state.ingest event).map fun ingest => { state with ingest }
      else none
  | .channel, .away =>
      let (hub, sender) := state.ingest.backend.hub.channel id
      some { withHub state hub with phase := .handed sender }
  | .subscribe, .handed sender =>
      let (hub, receiver) := state.ingest.backend.hub.listen sender
      some
        { withHub state hub with
          phase := .reading receiver 0
          since := state.ingest.call.seq }
  | .page, .reading receiver number =>
      match Paging.page HISTORY_PAGE number (history id state.ingest.backend.events) with
      | [] => some { state with phase := .relaying receiver }
      | rows =>
          some { state with
            phase := .reading receiver (number + 1)
            sent := state.sent ++ rows.map (stored codecs viewer) }
  | .pageFailed, .reading receiver _ =>
      match viewer with
      | .grpc =>
          some
            { withHub state (state.ingest.backend.hub.dropReceiver receiver) with
              phase := .gone }
      -- The web's stream takes a failure for the end of the history.
      | .web => some { state with phase := .relaying receiver }
  | .relay, .relaying receiver =>
      (state.ingest.backend.hub.recv receiver).map fun received =>
        { withHub state received.2 with
          sent := state.sent ++ [live codecs viewer received.1] }
  | .hangUp, .reading receiver _ | .hangUp, .relaying receiver =>
      some
        { withHub state (state.ingest.backend.hub.dropReceiver receiver) with
          phase := .gone }
  | _, _ => none

end SessionWatch

end Hermione
