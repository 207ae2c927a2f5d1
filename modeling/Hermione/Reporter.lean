import Hermione.EventQueue
import Hermione.RustStrings

/-!
# The editor's reporter, from start to stop

What the editor reports is driven by timers, by what happens in the editor and
by the backend asking.  Requests are made by `flush` and by `sendSnapshot`, and
both await things first: the credentials, and for a snapshot what git and the
buffer say.

The state holds which timers are set and how far each of these calls is.  Beside
it is counted how many requests were made and how often one of the timers that
lead to a request was set.
-/

namespace Hermione

open EventRuns

/-- How far a call of `sendSnapshot` is. -/
inductive SnapshotCall where
  /-- It awaits the key of what is on screen, to see if the caret alone will do. -/
  | comparing
  /-- The caret awaits its credentials. -/
  | cursorSigning
  | cursorSent
  /-- It awaits the whole report. -/
  | building
  /-- The whole report awaits its credentials. -/
  | signing (keyed : Bool)
  | sent (keyed : Bool)
  deriving DecidableEq

/-- The call has more to do than await the answer of the whole report. -/
def SnapshotCall.unsent : SnapshotCall → Bool
  | .comparing | .cursorSigning | .building | .signing _ => true
  | .cursorSent | .sent _ => false

structure Reporter where
  enabled : Bool
  starting : Bool
  /-- The editor's listeners are registered. -/
  listening : Bool
  events : EventQueue
  focusedPath : Option Str
  /-- The files typed in since edits were last reported. -/
  pendingEdits : List Str
  windowFocused : Bool
  heartbeatTimer : Bool
  editTimer : Bool
  /-- Set while a teacher is known to be looking. -/
  watchTimer : Bool
  snapshotTimer : Bool
  shareFileContents : Bool
  sending : Option SnapshotCall
  /-- The number the server gave the last whole file it accepted. -/
  lastFile : Option Nat
  /-- `stop` was called, and `start` was not called since. -/
  off : Bool
  /-- Requests made for file events and snapshots. -/
  requests : Nat
  /-- How often a timer was set that may lead to one. -/
  settings : Nat

namespace Reporter

def fresh : Reporter :=
  { enabled := false
    starting := false
    listening := false
    events := .empty
    focusedPath := none
    pendingEdits := []
    windowFocused := true
    heartbeatTimer := false
    editTimer := false
    watchTimer := false
    snapshotTimer := false
    shareFileContents := true
    sending := none
    lastFile := none
    off := false
    requests := 0
    settings := 0 }

/-- What happens to the queue; its timer may be set on the way. -/
def withEvents (state : Reporter) (events : EventQueue) : Reporter :=
  { state with
    events
    settings := if events.timer && !state.events.timer then state.settings + 1
      else state.settings }

def enqueue (state : Reporter) : Reporter :=
  state.withEvents state.events.enqueue

/-- Reports a focus, unless it is on the file last reported. -/
def reportFocus (state : Reporter) (target : Option Str) : Reporter :=
  match target with
  | none => state
  | some path =>
      if state.focusedPath = some path then state
      else { state with focusedPath := some path }.enqueue

def reportHeartbeat (state : Reporter) (target : Option Str) : Reporter :=
  match target with
  | none => state
  | some _ => state.enqueue

/-- Pushes a fresh snapshot, but only while someone is looking. -/
def pushSnapshot (state : Reporter) : Reporter :=
  if state.watchTimer && !state.snapshotTimer then
    { state with snapshotTimer := true, settings := state.settings + 1 }
  else state

def onFocus (state : Reporter) (target : Option Str) : Reporter :=
  if state.enabled then (state.reportFocus target).pushSnapshot else state

def restartHeartbeat (state : Reporter) : Reporter :=
  { state with heartbeatTimer := true, settings := state.settings + 1 }

/-- Counts a typing burst. -/
def onEdit (state : Reporter) (path : Str) (changes : Nat) : Reporter :=
  if state.enabled && changes != 0 then
    let noted :=
      if path ∈ state.pendingEdits then state
      else { state with pendingEdits := state.pendingEdits ++ [path] }
    let timed :=
      if noted.editTimer then noted
      else { noted with editTimer := true, settings := noted.settings + 1 }
    timed.pushSnapshot
  else state

def flushEdits (state : Reporter) : Reporter :=
  let reported := state.pendingEdits.foldl (fun current _ => current.enqueue)
    { state with editTimer := false }
  { reported with pendingEdits := [] }

/-- A file was closed. -/
def closeFile (state : Reporter) (path : Str) : Reporter :=
  if state.enabled then
    let flushed := state.flushEdits
    let cleared :=
      if flushed.focusedPath = some path then { flushed with focusedPath := none } else flushed
    cleared.enqueue
  else state

/-- Sends one snapshot, unless one is being sent; `caret` says that a document is
open with a caret in it. -/
def sendSnapshot (state : Reporter) (caret : Bool) : Reporter :=
  match state.sending with
  | some _ => state
  | none =>
      if state.lastFile.isSome && state.shareFileContents && caret then
        { state with sending := some .comparing }
      else { state with sending := some .building }

def onSnapshotRequest (state : Reporter) (caret : Bool) : Reporter :=
  if state.enabled then { state with watchTimer := true }.sendSnapshot caret else state

/-- A call of `start`; one that is not ignored awaits the course files and the
settings. -/
def start (state : Reporter) : Reporter :=
  if state.enabled || state.starting then { state with off := false }
  else { state with starting := true, lastFile := none, off := false }

/-- What `start` does when it has them. -/
def begin (state : Reporter) (shareFileContents : Bool) (target : Option Str) : Reporter :=
  let started :=
    { state with starting := false, shareFileContents, enabled := true, listening := true }
  started.restartHeartbeat.onFocus target

def stop (state : Reporter) : Reporter :=
  { state with
    enabled := false
    heartbeatTimer := false
    editTimer := false
    snapshotTimer := false
    watchTimer := false
    events := { state.events with timer := false, queue := [], flushFailures := 0 }
    lastFile := none
    pendingEdits := []
    focusedPath := none
    listening := false
    off := true }

/-- A reload comes to its end: settings were edited, a folder was added, the
workspace was trusted or the student renamed. -/
def reloaded (state : Reporter) (shareFileContents : Bool) : Reporter :=
  let applied := { state with lastFile := none, shareFileContents }
  if applied.enabled then applied.restartHeartbeat else applied

/-- A request is made. -/
def request (state : Reporter) : Reporter :=
  { state with requests := state.requests + 1 }

inductive Event where
  | start
  | started (shareFileContents : Bool) (target : Option Str)
  | startFailed
  | stop
  | reloaded (shareFileContents : Bool)
  | heartbeat (target : Option Str)
  | focused (target : Option Str)
  | windowState (focused : Bool)
  | edited (path : Str) (changes : Nat)
  | selected
  | closed (path : Str)
  | editsDue
  | watchLapsed
  | snapshotDue (caret : Bool)
  /-- The backend asks for what is on screen. -/
  | asked (caret : Bool)
  /-- What becomes of the queue's timer and batches. -/
  | queue (event : EventQueue.Event)
  /-- The key of what is on screen is had, and is that of the last file or not. -/
  | compared (same : Bool)
  | cursorRequested
  | cursorAccepted (rev : Nat)
  /-- Also when comparing fails, or the request does. -/
  | cursorFailed
  | built (keyed : Bool)
  | fileRequested
  /-- The whole report is over, with the number the server gave it if it did. -/
  | fileOver (rev : Option Nat)

def step (state : Reporter) : Event → Option Reporter
  | .start => some state.start
  | .started shareFileContents target =>
      if state.starting then some (state.begin shareFileContents target) else none
  | .startFailed => if state.starting then some { state with starting := false } else none
  | .stop => some state.stop
  | .reloaded shareFileContents => some (state.reloaded shareFileContents)
  | .heartbeat target =>
      if state.heartbeatTimer then
        if state.enabled && state.windowFocused then some (state.reportHeartbeat target)
        else some state
      else none
  | .focused target => if state.listening then some (state.onFocus target) else none
  | .windowState focused =>
      if state.listening then some { state with windowFocused := focused } else none
  | .edited path changes => if state.listening then some (state.onEdit path changes) else none
  | .selected => if state.listening then some state.pushSnapshot else none
  | .closed path => if state.listening then some (state.closeFile path) else none
  | .editsDue => if state.editTimer then some state.flushEdits else none
  | .watchLapsed => if state.watchTimer then some { state with watchTimer := false } else none
  | .snapshotDue caret =>
      if state.snapshotTimer then
        let due := { state with snapshotTimer := false }
        if due.watchTimer then some (due.sendSnapshot caret) else some due
      else none
  | .asked caret => some (state.onSnapshotRequest caret)
  | .queue event =>
      match event with
      | .enqueue => none
      | .send _ => (EventQueue.step state.events event).map fun events =>
          (state.withEvents events).request
      | _ => (EventQueue.step state.events event).map state.withEvents
  | .compared same =>
      match state.sending with
      | some .comparing =>
          some { state with sending := some (if same then .cursorSigning else .building) }
      | _ => none
  | .cursorRequested =>
      match state.sending with
      | some .cursorSigning => some { state with sending := some .cursorSent }.request
      | _ => none
  | .cursorAccepted rev =>
      match state.sending with
      | some .cursorSent =>
          some { state with sending := none, lastFile := state.lastFile.map fun _ => rev }
      | _ => none
  | .cursorFailed =>
      match state.sending with
      | some .comparing | some .cursorSent =>
          some { state with sending := some .building, lastFile := none }
      | _ => none
  | .built keyed =>
      match state.sending with
      | some .building => some { state with sending := some (.signing keyed), lastFile := none }
      | _ => none
  | .fileRequested =>
      match state.sending with
      | some (.signing keyed) => some { state with sending := some (.sent keyed) }.request
      | _ => none
  | .fileOver rev =>
      match state.sending with
      | some (.sent keyed) =>
          some { state with
            sending := none
            lastFile := if keyed then rev else state.lastFile }
      | _ => none

/-- A step taken while reporting is off makes no request and sets no timer that
leads to one. -/
def Silent (state : Reporter) (event : Event) : Prop :=
  state.off = true → ∀ next, step state event = some next →
    next.requests = state.requests ∧ next.settings = state.settings

end Reporter

end Hermione
