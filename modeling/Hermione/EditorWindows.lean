import Hermione.SnapshotIngest

/-!
# Editor windows and the servers they outlive

A window remembers the number its last whole file was given and names it in
caret-only reports.  A restart empties the store and starts the numbers again,
while windows keep what they remember.  For the record every number carries the
snapshot it was handed out for and the process that did: this history is read by
no step.
-/

namespace Hermione

open SnapshotStore

/-- What a number was handed out for: history, which no code keeps. -/
structure Issue where
  process : Nat
  rev : Nat
  snapshot : Snapshot

/-- The last whole file the server took from a window. -/
structure LastFile where
  key : Str
  rev : Nat
  issue : Option Issue

/-- The upload a window has in flight; there is never more than one. -/
inductive Sending where
  | idle
  | cursorOnly (id : Nat)
  | whole (id : Nat) (key : Option Str)

structure Window where
  lastFile : Option LastFile
  sending : Sending

/-- The running server process, what its requests' numbers were handed out for,
and the windows. -/
structure World where
  process : Nat
  server : Ingest.State
  issued : Nat → Option Issue
  windows : Nat → Window

namespace World

def initial : World :=
  { process := 0
    server := Ingest.initial
    issued := fun _ => none
    windows := fun _ => ⟨none, .idle⟩ }

inductive Event where
  /-- The server process is replaced; what it had not answered is lost. -/
  | restart
  | server (event : Ingest.Event)
  | postCursor (window id now : Nat) (course : Uuid) (verified : Option Str)
      (student : Student) (key : Str) (cursor : Cursor)
  | postWhole (window id now : Nat) (course : Uuid) (verified : Option Str)
      (report : Report) (key : Option Str)
  /-- A window takes the answer to its upload. -/
  | deliver (window : Nat)
  /-- A window's upload fails without an answer. -/
  | lose (window : Nat)
  /-- A window stops reporting or reads its configuration again. -/
  | forget (window : Nat)

/-- The process's memory is gone, and its connections with it. -/
def restarted (server : Ingest.State) : Ingest.State :=
  { store := SnapshotStore.empty
    requests := fun id =>
      match server.requests id with
      | .building _ _ _ | .confirming _ _ => .answered (.error .internal)
      | request => request }

/-- What the slot's entry is, for the record. -/
def issueOf (process : Nat) (store : SnapshotStore) (slot : Slot) : Option Issue :=
  (store.latestOf.lookup slot).map fun stored => ⟨process, stored.rev, stored.snapshot⟩

def isCursor : Report.State → Bool
  | .cursor _ _ => true
  | _ => false

variable (words : WordDiff) (syntect : Syntect)

/-- The server's own steps, which are not a window's. -/
def serverStep (world : World) (event : Ingest.Event) : Option World :=
  match event with
  | .receive _ _ _ _ _ => none
  | .store id _ =>
      (Ingest.step words syntect world.server event).map fun server =>
        match world.server.requests id with
        | .building slot _ _ =>
            { world with
              server
              issued := Function.update world.issued id
                (issueOf world.process server.store slot) }
        | _ => { world with server }
  | .confirm _ _ | .abandon _ =>
      (Ingest.step words syntect world.server event).map fun server => { world with server }

/-- The server takes a report.  A number about to be confirmed is handed out for
the entry it was found on. -/
def receive (world : World) (id now : Nat) (course : Uuid) (verified : Option Str)
    (report : Report) : Option World :=
  (Ingest.step words syntect world.server
      (.receive id now course verified report)).map fun server =>
    match server.requests id with
    | .confirming slot _ =>
        { world with
          server
          issued := Function.update world.issued id
            (issueOf world.process server.store slot) }
    | _ => { world with server }

def setWindow (world : World) (window : Nat) (value : Window) : World :=
  { world with windows := Function.update world.windows window value }

/-- What a window remembers once an upload is answered. -/
def remember (world : World) (lastFile : Option LastFile) : Sending → Option (Option LastFile)
  | .idle => none
  | .cursorOnly id =>
      match world.server.requests id with
      | .answered (.ok rev) =>
          some (lastFile.map fun last => { last with rev, issue := world.issued id })
      | .answered (.error _) => some none
      | _ => none
  | .whole id key =>
      match world.server.requests id with
      | .answered (.ok rev) =>
          some (key.map fun key => { key, rev, issue := world.issued id })
      | .answered (.error _) => some none
      | _ => none

def step (world : World) : Event → Option World
  | .restart =>
      some { world with process := world.process + 1, server := restarted world.server }
  | .server event => serverStep words syntect world event
  | .postCursor window id now course verified student key cursor =>
      match (world.windows window).sending, (world.windows window).lastFile with
      | .idle, some last =>
          -- While the key still matches, only the caret can have changed.
          if last.key = key then
            (receive words syntect world id now course verified
              ⟨student, .cursor last.rev cursor⟩).map fun world =>
                world.setWindow window ⟨some last, .cursorOnly id⟩
          else none
      | _, _ => none
  | .postWhole window id now course verified report key =>
      match (world.windows window).sending with
      | .idle =>
          if isCursor report.state then none
          else
            (receive words syntect world id now course verified report).map fun world =>
              world.setWindow window ⟨none, .whole id key⟩
      | _ => none
  | .deliver window =>
      let value := world.windows window
      (remember world value.lastFile value.sending).map fun lastFile =>
        world.setWindow window ⟨lastFile, .idle⟩
  | .lose window =>
      match (world.windows window).sending with
      | .idle => none
      | _ => some (world.setWindow window ⟨none, .idle⟩)
  | .forget window =>
      some (world.setWindow window ⟨none, (world.windows window).sending⟩)

end World

end Hermione
