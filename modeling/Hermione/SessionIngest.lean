import Hermione.EventRuns
import Hermione.Hub
import Hermione.Student
import Hermione.Text

/-!
# A recorder's stream of one session

The gRPC call that takes a recorder's events, from its start to its return.  The
call waits for the next event or the flush timer, and in handling either for the
database and for the hub's lock; every wait is a phase, and what ends it is an
event.  Other tasks may listen on the hub in between.
-/

namespace Hermione

/-- The statuses a gRPC call can end with. -/
inductive GrpcCode where
  | invalidArgument
  | unauthenticated
  | internal
  /-- The transport's own. -/
  | other (code : Nat)
  deriving DecidableEq, Repr

structure Status where
  code : GrpcCode
  message : Str
  deriving DecidableEq

/-- A failure of the database, as callers are told of it. -/
def Status.internal (error : Str) : Status :=
  ⟨.internal, error⟩

/-- A piece of terminal activity.  The stream it belongs to is an open enumeration
on the wire. -/
structure TerminalChunk where
  stream : Int32
  data : List UInt8
  offsetMs : Int64
  deriving DecidableEq

inductive StreamKind where
  | unspecified
  | stdout
  | stdin
  deriving DecidableEq, Repr

def StreamKind.number : StreamKind → Int32
  | .unspecified => 0
  | .stdout => 1
  | .stdin => 2

/-- The two labels a stored chunk can carry. -/
inductive StreamLabel where
  | stdout
  | stdin
  deriving DecidableEq, Repr

def streamLabel (stream : Int32) : StreamLabel :=
  if stream = StreamKind.stdin.number then .stdin else .stdout

structure SessionStart where
  student : Str
  command : Str
  cols : UInt32
  rows : UInt32
  hostname : Str
  deriving DecidableEq

structure Resize where
  cols : UInt32
  rows : UInt32
  deriving DecidableEq

structure SessionEnd where
  exitCode : Int32
  deriving DecidableEq

inductive SessionStatus where
  | active
  | ended
  deriving DecidableEq, Repr

/-- A row of `sessions`. -/
structure SessionRow where
  id : Uuid
  courseId : Option Uuid
  student : Str
  command : Str
  hostname : Option Str
  cols : Int32
  rows : Int32
  status : SessionStatus
  exitCode : Option Int32
  errorCount : Int32
  deriving DecidableEq

/-- A row of `terminal_events`.  Only rows older than the column have no text. -/
structure TerminalRow where
  sessionId : Uuid
  seq : Nat
  offsetMs : Int64
  stream : StreamLabel
  data : Str
  text : Option Str
  deriving DecidableEq

/-- A chunk on its way to the watchers, with its number for the record. -/
structure Fanned where
  seq : Nat
  chunk : TerminalChunk
  deriving DecidableEq

/-- What the calls of one server share. -/
structure Backend where
  sessions : Uuid → Option SessionRow
  events : List TerminalRow
  hub : Hub Uuid Fanned

/-- A server that has just been set up. -/
def Backend.empty : Backend :=
  { sessions := fun _ => none, events := [], hub := Hub.empty }

/-- Max terminal events written in a single insert. -/
def BATCH_SIZE : Nat :=
  128

/-- The live channel's capacity. -/
def SESSION_HUB_CAP : Nat :=
  4096

/-- A session's rows in the table. -/
def rowsOf (id : Uuid) (events : List TerminalRow) : List TerminalRow :=
  events.filter fun row => row.sessionId = id

/-- What a call answers when it is done. -/
structure IngestSummary where
  sessionId : Option Uuid
  chunksReceived : Nat
  deriving DecidableEq

namespace SessionIngest

/-- What a flush is followed by. -/
inductive Resume where
  /-- The buffer was full. -/
  | chunk
  | tick
  /-- The recorded process exited. -/
  | finish (exitCode : Int32)
  /-- The stream is over. -/
  | drain
  deriving DecidableEq

/-- What the call waits for. -/
inductive Phase where
  | selecting
  | inserting (row : SessionRow)
  | opening (id : Uuid)
  | flushing (batch : List TerminalRow) (resume : Resume)
  | counting (resume : Resume)
  | resizing (resize : Resize)
  | finalizing (resume : Resume)
  | removing
  | returned (result : Except Status IngestSummary)

def Phase.Done : Phase → Prop
  | .returned _ => True
  | _ => False

/-- The call's variables, and where it is.  `seq` is an `i64` in the code, which no
call lives long enough to exhaust. -/
structure Call where
  courseId : Uuid
  verifiedStudent : Option Str
  sessionId : Option Uuid
  bcast : Option Nat
  seq : Nat
  errorCount : Int32
  persistedErrorCount : Int32
  ended : Bool
  buffer : List TerminalRow
  phase : Phase

/-- What the call has done so far: history, which no code keeps. -/
structure Record where
  /-- The session rows it inserted. -/
  created : List Uuid
  /-- The senders the hub gave it. -/
  opened : List (Uuid × Nat)
  /-- The chunks it took, as rows. -/
  accepted : List TerminalRow
  /-- The rows it gave to a flush. -/
  handed : List TerminalRow
  /-- The sessions it called `finalize` for. -/
  finalized : List Uuid

structure State where
  backend : Backend
  call : Call
  record : Record

/-- The call once its credentials were judged: refused, or reading the stream of
a course's recorder. -/
def start (backend : Backend) (admitted : Except Status (Uuid × Option Str)) : State :=
  { backend
    call :=
      { courseId := match admitted with | .ok (course, _) => course | .error _ => 0
        verifiedStudent := match admitted with | .ok (_, student) => student | .error _ => none
        sessionId := none
        bcast := none
        seq := 0
        errorCount := 0
        persistedErrorCount := 0
        ended := false
        buffer := []
        phase :=
          match admitted with
          | .ok _ => .selecting
          | .error status => .returned (.error status) }
    record := ⟨[], [], [], [], []⟩ }

inductive Event where
  /-- A session starts; `id` is the identifier drawn for it. -/
  | start (id : Uuid) (start : SessionStart)
  | chunk (chunk : TerminalChunk)
  | resize (resize : Resize)
  | finish (finish : SessionEnd)
  /-- An event with nothing set. -/
  | blank
  /-- The transport fails. -/
  | broken (status : Status)
  /-- The client closes its side. -/
  | closed
  | tick
  /-- The database did what was asked of it. -/
  | stored
  /-- The database failed. -/
  | refused (error : Str)
  /-- The hub's lock was granted. -/
  | locked
  /-- Another task listens on a key of the hub, or stops listening. -/
  | watch (key : Uuid)
  | unwatch (receiver : Nat)

/-- `Some` unless empty. -/
def nonEmpty (text : Str) : Option Str :=
  if text.isEmpty then none else some text

def newSession (call : Call) (id : Uuid) (start : SessionStart) : SessionRow :=
  { id
    courseId := some call.courseId
    student := call.verifiedStudent.getD start.student
    command := start.command
    hostname := nonEmpty start.hostname
    cols := start.cols.toInt32
    rows := start.rows.toInt32
    status := .active
    exitCode := none
    errorCount := 0 }

/-- The session named by the call, changed in the database. -/
def updateSession (backend : Backend) (id : Uuid) (change : SessionRow → SessionRow) :
    Backend :=
  { backend with
    sessions := Function.update backend.sessions id ((backend.sessions id).map change) }

def Call.summary (call : Call) : IngestSummary :=
  { sessionId := call.sessionId, chunksReceived := call.seq }

def Call.returning (call : Call) (result : Except Status IngestSummary) : Call :=
  { call with phase := .returned result }

/-- After a count that is up to date. -/
def afterCount (call : Call) : Resume → Call
  | .chunk | .tick => { call with phase := .selecting }
  | .finish exitCode => { call with phase := .finalizing (.finish exitCode) }
  | .drain => { call with phase := if call.ended then .removing else .finalizing .drain }

/-- Persists the running error count, but only when it has changed since the last
write. -/
def persistErrorCount (call : Call) (resume : Resume) : Call :=
  if call.errorCount = call.persistedErrorCount then afterCount call resume
  else { call with phase := .counting resume }

/-- After a flush that succeeded.  A full buffer alone does not persist the count. -/
def afterFlush (call : Call) (resume : Resume) : Call :=
  match resume, call.sessionId with
  | .chunk, _ => { call with phase := .selecting }
  | resume, some _ => persistErrorCount call resume
  | .drain, none => call.returning (.ok call.summary)
  | _, none => { call with phase := .selecting }

/-- Writes any buffered rows as a single insert.  The buffer is emptied before the
insert is known to succeed. -/
def flush (state : State) (resume : Resume) : State :=
  if state.call.buffer.isEmpty then
    { state with call := afterFlush state.call resume }
  else
    { state with
      call := { state.call with buffer := [], phase := .flushing state.call.buffer resume }
      record :=
        { state.record with handed := state.record.handed ++ state.call.buffer } }

variable (codecs : Codecs)

def chunkRow (id : Uuid) (seq : Nat) (chunk : TerminalChunk) : TerminalRow :=
  { sessionId := id
    seq
    offsetMs := chunk.offsetMs
    stream := streamLabel chunk.stream
    data := codecs.encode chunk.data
    text := some (codecs.plain chunk.data) }

def flagsError (chunk : TerminalChunk) : Bool :=
  streamLabel chunk.stream = .stdout && looksLikeError (codecs.plain chunk.data)

/-- Buffers a chunk and fans it out. -/
def accept (state : State) (id : Uuid) (chunk : TerminalChunk) : State :=
  let row := chunkRow codecs id state.call.seq chunk
  { backend :=
      match state.call.bcast with
      | some sender =>
          { state.backend with
            hub := (state.backend.hub.send SESSION_HUB_CAP sender ⟨state.call.seq, chunk⟩).1 }
      | none => state.backend
    call :=
      { state.call with
        errorCount := state.call.errorCount + if flagsError codecs chunk then 1 else 0
        buffer := state.call.buffer ++ [row]
        seq := state.call.seq + 1 }
    record := { state.record with accepted := state.record.accepted ++ [row] } }

/-- An event of the recorder's, or the timer's. -/
def select (state : State) : Event → Option State
  | .start id start =>
      some { state with
        call := { state.call with phase := .inserting (newSession state.call id start) } }
  | .chunk chunk =>
      match state.call.sessionId with
      | none => some state
      | some id =>
          let next := accept codecs state id chunk
          some (if BATCH_SIZE ≤ next.call.buffer.length then flush next .chunk else next)
  | .resize resize =>
      match state.call.sessionId with
      | none => some state
      | some _ => some { state with call := { state.call with phase := .resizing resize } }
  | .finish finish =>
      match state.call.sessionId with
      | none => some state
      | some _ => some (flush state (.finish finish.exitCode))
  | .blank => some state
  | .broken status => some { state with call := state.call.returning (.error status) }
  | .closed => some (flush state .drain)
  | .tick => some (flush state .tick)
  | _ => none

/-- The exit code a session is finalized with. -/
def Resume.exitCode : Resume → Option Int32
  | .finish exitCode => some exitCode
  | _ => none

/-- After `finalize`, whether or not the database took it. -/
def afterFinalize (state : State) (id : Uuid) (resume : Resume) : State :=
  { state with
    call :=
      match resume with
      | .drain => { state.call with phase := .removing }
      | _ => { state.call with ended := true, phase := .selecting }
    record := { state.record with finalized := state.record.finalized ++ [id] } }

/-- The database did what the call waited for. -/
def answer (state : State) : Option State :=
  match state.call.phase, state.call.sessionId with
  | .inserting row, _ =>
      -- The identifier is the table's primary key.
      match state.backend.sessions row.id with
      | some _ => none
      | none =>
          some
            { backend :=
                { state.backend with
                  sessions := Function.update state.backend.sessions row.id (some row) }
              call := { state.call with phase := .opening row.id }
              record := { state.record with created := state.record.created ++ [row.id] } }
  | .flushing batch resume, _ =>
      some { state with
        backend := { state.backend with events := state.backend.events ++ batch }
        call := afterFlush state.call resume }
  | .counting resume, some id =>
      some { state with
        backend := updateSession state.backend id fun row =>
          { row with errorCount := state.call.errorCount }
        call :=
          afterCount { state.call with persistedErrorCount := state.call.errorCount } resume }
  | .resizing resize, some id =>
      some { state with
        backend := updateSession state.backend id fun row =>
          { row with cols := resize.cols.toInt32, rows := resize.rows.toInt32 }
        call := { state.call with phase := .selecting } }
  | .finalizing resume, some id =>
      some (afterFinalize
        { state with
          backend := updateSession state.backend id fun row =>
            { row with status := .ended, exitCode := resume.exitCode } } id resume)
  | _, _ => none

/-- The database failed.  Only an insert takes the call with it. -/
def fail (state : State) (error : Str) : Option State :=
  match state.call.phase, state.call.sessionId with
  | .inserting _, _ | .flushing _ _, _ =>
      some { state with call := state.call.returning (.error (.internal error)) }
  | .counting resume, some _ => some { state with call := afterCount state.call resume }
  | .resizing _, some _ => some { state with call := { state.call with phase := .selecting } }
  | .finalizing resume, some id => some (afterFinalize state id resume)
  | _, _ => none

/-- The hub's lock was granted. -/
def lock (state : State) : Option State :=
  match state.call.phase, state.call.sessionId with
  | .opening id, _ =>
      let (hub, sender) := state.backend.hub.channel id
      some
        { backend := { state.backend with hub }
          call :=
            { state.call with bcast := some sender, sessionId := some id, phase := .selecting }
          record := { state.record with opened := state.record.opened ++ [(id, sender)] } }
  | .removing, some id =>
      some { state with
        backend := { state.backend with hub := state.backend.hub.remove id }
        call := state.call.returning (.ok state.call.summary) }
  | _, _ => none

/-- Another task subscribes. -/
def watch (state : State) (key : Uuid) : State :=
  let (hub, sender) := state.backend.hub.channel key
  { state with backend := { state.backend with hub := (hub.listen sender).1 } }

def step (state : State) (event : Event) : Option State :=
  match event with
  | .stored => answer state
  | .refused error => fail state error
  | .locked => lock state
  | .watch key => some (watch state key)
  | .unwatch receiver =>
      some { state with
        backend := { state.backend with hub := state.backend.hub.dropReceiver receiver } }
  | event =>
      match state.call.phase with
      | .selecting => select codecs state event
      | _ => none

/-- What a step can do, guards included. -/
inductive Moves (state : State) : Event → State → Prop where
  | begin (id : Uuid) (start : SessionStart) (selecting : state.call.phase = .selecting) :
      Moves state (.start id start)
        { state with
          call := { state.call with phase := .inserting (newSession state.call id start) } }
  /-- What is about a session is passed over while there is none. -/
  | early (event : Event) (selecting : state.call.phase = .selecting)
      (none : state.call.sessionId = none) :
      Moves state event state
  | blank (selecting : state.call.phase = .selecting) : Moves state .blank state
  | chunk (id : Uuid) (chunk : TerminalChunk) (selecting : state.call.phase = .selecting)
      (opened : state.call.sessionId = some id) :
      Moves state (.chunk chunk) (accept codecs state id chunk)
  | full (id : Uuid) (chunk : TerminalChunk) (selecting : state.call.phase = .selecting)
      (opened : state.call.sessionId = some id)
      (full : BATCH_SIZE ≤ state.call.buffer.length + 1) :
      Moves state (.chunk chunk) (flush (accept codecs state id chunk) .chunk)
  | resize (id : Uuid) (resize : Resize) (selecting : state.call.phase = .selecting)
      (opened : state.call.sessionId = some id) :
      Moves state (.resize resize)
        { state with call := { state.call with phase := .resizing resize } }
  | finish (id : Uuid) (finish : SessionEnd) (selecting : state.call.phase = .selecting)
      (opened : state.call.sessionId = some id) :
      Moves state (.finish finish) (flush state (.finish finish.exitCode))
  | broken (status : Status) (selecting : state.call.phase = .selecting) :
      Moves state (.broken status)
        { state with call := state.call.returning (.error status) }
  | closed (selecting : state.call.phase = .selecting) :
      Moves state .closed (flush state .drain)
  | tick (selecting : state.call.phase = .selecting) : Moves state .tick (flush state .tick)
  | inserted (row : SessionRow) (inserting : state.call.phase = .inserting row)
      (absent : state.backend.sessions row.id = none) :
      Moves state .stored
        { backend :=
            { state.backend with
              sessions := Function.update state.backend.sessions row.id (some row) }
          call := { state.call with phase := .opening row.id }
          record := { state.record with created := state.record.created ++ [row.id] } }
  | flushed (batch : List TerminalRow) (resume : Resume)
      (flushing : state.call.phase = .flushing batch resume) :
      Moves state .stored
        { state with
          backend := { state.backend with events := state.backend.events ++ batch }
          call := afterFlush state.call resume }
  | counted (id : Uuid) (resume : Resume) (counting : state.call.phase = .counting resume)
      (opened : state.call.sessionId = some id) :
      Moves state .stored
        { state with
          backend := updateSession state.backend id fun row =>
            { row with errorCount := state.call.errorCount }
          call :=
            afterCount { state.call with persistedErrorCount := state.call.errorCount } resume }
  | resized (id : Uuid) (resize : Resize) (resizing : state.call.phase = .resizing resize)
      (opened : state.call.sessionId = some id) :
      Moves state .stored
        { state with
          backend := updateSession state.backend id fun row =>
            { row with cols := resize.cols.toInt32, rows := resize.rows.toInt32 }
          call := { state.call with phase := .selecting } }
  | finalized (id : Uuid) (resume : Resume)
      (finalizing : state.call.phase = .finalizing resume)
      (opened : state.call.sessionId = some id) :
      Moves state .stored
        (afterFinalize
          { state with
            backend := updateSession state.backend id fun row =>
              { row with status := .ended, exitCode := resume.exitCode } } id resume)
  | insertFailed (row : SessionRow) (error : Str)
      (inserting : state.call.phase = .inserting row) :
      Moves state (.refused error)
        { state with call := state.call.returning (.error (.internal error)) }
  | flushFailed (batch : List TerminalRow) (resume : Resume) (error : Str)
      (flushing : state.call.phase = .flushing batch resume) :
      Moves state (.refused error)
        { state with call := state.call.returning (.error (.internal error)) }
  | countFailed (id : Uuid) (resume : Resume) (error : Str)
      (counting : state.call.phase = .counting resume)
      (opened : state.call.sessionId = some id) :
      Moves state (.refused error) { state with call := afterCount state.call resume }
  | resizeFailed (id : Uuid) (resize : Resize) (error : Str)
      (resizing : state.call.phase = .resizing resize)
      (opened : state.call.sessionId = some id) :
      Moves state (.refused error)
        { state with call := { state.call with phase := .selecting } }
  | finalizeFailed (id : Uuid) (resume : Resume) (error : Str)
      (finalizing : state.call.phase = .finalizing resume)
      (opened : state.call.sessionId = some id) :
      Moves state (.refused error) (afterFinalize state id resume)
  | opened (id : Uuid) (opening : state.call.phase = .opening id) :
      Moves state .locked
        { backend := { state.backend with hub := (state.backend.hub.channel id).1 }
          call :=
            { state.call with
              bcast := some (state.backend.hub.channel id).2
              sessionId := some id
              phase := .selecting }
          record :=
            { state.record with
              opened := state.record.opened ++ [(id, (state.backend.hub.channel id).2)] } }
  | removed (id : Uuid) (removing : state.call.phase = .removing)
      (opened : state.call.sessionId = some id) :
      Moves state .locked
        { state with
          backend := { state.backend with hub := state.backend.hub.remove id }
          call := state.call.returning (.ok state.call.summary) }
  | watch (key : Uuid) : Moves state (.watch key) (SessionIngest.watch state key)
  | unwatch (receiver : Nat) :
      Moves state (.unwatch receiver)
        { state with
          backend := { state.backend with hub := state.backend.hub.dropReceiver receiver } }

variable {codecs : Codecs} {state next : State} {event : Event}

theorem accept_buffer_length (id : Uuid) (chunk : TerminalChunk) :
    (accept codecs state id chunk).call.buffer.length = state.call.buffer.length + 1 := by
  simp [accept]

theorem moves_of_select (selecting : state.call.phase = .selecting)
    (selected : select codecs state event = some next) :
    Moves codecs state event next := by
  unfold select at selected
  split at selected
  · exact Option.some.inj selected ▸ .begin _ _ selecting
  · rename_i chunk
    split at selected
    · rename_i none
      exact Option.some.inj selected ▸ .early _ selecting none
    · rename_i id opened
      simp only [accept_buffer_length, Option.some.injEq] at selected
      split at selected
      · rename_i full
        exact selected ▸ .full id chunk selecting opened full
      · exact selected ▸ .chunk id chunk selecting opened
  · split at selected
    · rename_i none
      exact Option.some.inj selected ▸ .early _ selecting none
    · rename_i id opened
      exact Option.some.inj selected ▸ .resize id _ selecting opened
  · split at selected
    · rename_i none
      exact Option.some.inj selected ▸ .early _ selecting none
    · rename_i id opened
      exact Option.some.inj selected ▸ .finish id _ selecting opened
  · exact Option.some.inj selected ▸ .blank selecting
  · exact Option.some.inj selected ▸ .broken _ selecting
  · exact Option.some.inj selected ▸ .closed selecting
  · exact Option.some.inj selected ▸ .tick selecting
  · simp at selected

theorem moves_of_answer (answered : answer state = some next) :
    Moves codecs state .stored next := by
  unfold answer at answered
  split at answered
  · rename_i inserting
    split at answered
    · simp at answered
    · rename_i absent
      exact Option.some.inj answered ▸ .inserted _ inserting absent
  · rename_i flushing
    exact Option.some.inj answered ▸ .flushed _ _ flushing
  · rename_i counting opened
    exact Option.some.inj answered ▸ .counted _ _ counting opened
  · rename_i resizing opened
    exact Option.some.inj answered ▸ .resized _ _ resizing opened
  · rename_i finalizing opened
    exact Option.some.inj answered ▸ .finalized _ _ finalizing opened
  · simp at answered

theorem moves_of_fail {error : Str} (failed : fail state error = some next) :
    Moves codecs state (.refused error) next := by
  unfold fail at failed
  split at failed
  · rename_i inserting
    exact Option.some.inj failed ▸ .insertFailed _ _ inserting
  · rename_i flushing
    exact Option.some.inj failed ▸ .flushFailed _ _ _ flushing
  · rename_i counting opened
    exact Option.some.inj failed ▸ .countFailed _ _ _ counting opened
  · rename_i resizing opened
    exact Option.some.inj failed ▸ .resizeFailed _ _ _ resizing opened
  · rename_i finalizing opened
    exact Option.some.inj failed ▸ .finalizeFailed _ _ _ finalizing opened
  · simp at failed

theorem moves_of_lock (locked : lock state = some next) :
    Moves codecs state .locked next := by
  unfold lock at locked
  split at locked
  · rename_i opening
    exact Option.some.inj locked ▸ .opened _ opening
  · rename_i removing opened
    exact Option.some.inj locked ▸ .removed _ removing opened
  · simp at locked

theorem moves_of_step (stepped : step codecs state event = some next) :
    Moves codecs state event next := by
  unfold step at stepped
  split at stepped
  · exact moves_of_answer stepped
  · exact moves_of_fail stepped
  · exact moves_of_lock stepped
  · exact Option.some.inj stepped ▸ .watch _
  · exact Option.some.inj stepped ▸ .unwatch _
  · split at stepped
    · rename_i selecting
      exact moves_of_select selecting stepped
    · simp at stepped

/-- A full buffer alone does not persist the error count. -/
theorem afterFlush_chunk (call : Call) :
    afterFlush call .chunk = { call with phase := .selecting } :=
  rfl

theorem afterFlush_of_some {call : Call} {id : Uuid} (opened : call.sessionId = some id)
    {resume : Resume} (later : resume ≠ .chunk) :
    afterFlush call resume = persistErrorCount call resume := by
  unfold afterFlush
  rw [opened]
  cases resume <;> first | rfl | exact (later rfl).elim

theorem afterFlush_of_none {call : Call} (none : call.sessionId = none) (resume : Resume) :
    afterFlush call resume =
      { call with
        phase := if resume = .drain then .returned (.ok call.summary) else .selecting } := by
  obtain ⟨courseId, verifiedStudent, sessionId, bcast, seq, errorCount, persistedErrorCount,
    ended, buffer, phase⟩ := call
  cases none
  cases resume <;> rfl

/-! ## What a flush leaves alone -/

section Flush

variable (call : Call) (resume : Resume)

/-- The rows that are on their way to the table. -/
def Call.pending (call : Call) : List TerminalRow :=
  match call.phase with
  | .flushing batch _ => batch ++ call.buffer
  | _ => call.buffer

theorem afterCount_cases :
    ∃ phase, afterCount call resume = { call with phase } ∧
      (phase = .selecting ∨ phase = .removing ∨ ∃ resume, phase = .finalizing resume) := by
  cases resume with
  | chunk | tick => exact ⟨_, rfl, .inl rfl⟩
  | finish exitCode => exact ⟨_, rfl, .inr (.inr ⟨_, rfl⟩)⟩
  | drain =>
      refine ⟨_, rfl, ?_⟩
      cases call.ended with
      | true => exact .inr (.inl rfl)
      | false => exact .inr (.inr ⟨_, rfl⟩)

/-- After a flush the call is on its way: only where it is has changed. -/
theorem afterFlush_cases :
    ∃ phase, afterFlush call resume = { call with phase } ∧
      ((∃ summary, phase = .returned (.ok summary)) ∨ phase = .selecting ∨
        phase = .removing ∨ (∃ resume, phase = .counting resume) ∨
        ∃ resume, phase = .finalizing resume) := by
  by_cases chunk : resume = .chunk
  · subst chunk
    exact ⟨_, rfl, .inr (.inl rfl)⟩
  · rcases Option.eq_none_or_eq_some call.sessionId with opened | ⟨id, opened⟩
    · refine ⟨_, afterFlush_of_none opened resume, ?_⟩
      by_cases drain : resume = .drain
      · exact .inl ⟨_, if_pos drain⟩
      · exact .inr (.inl (if_neg drain))
    · rw [afterFlush_of_some opened chunk]
      unfold persistErrorCount
      split
      · obtain ⟨phase, same, reached⟩ := afterCount_cases call resume
        exact ⟨phase, same, by tauto⟩
      · exact ⟨_, rfl, .inr (.inr (.inr (.inl ⟨_, rfl⟩)))⟩

@[simp]
theorem afterCount_buffer : (afterCount call resume).buffer = call.buffer := by
  obtain ⟨phase, same, -⟩ := afterCount_cases call resume
  rw [same]

@[simp]
theorem afterCount_seq : (afterCount call resume).seq = call.seq := by
  obtain ⟨phase, same, -⟩ := afterCount_cases call resume
  rw [same]

@[simp]
theorem afterCount_bcast : (afterCount call resume).bcast = call.bcast := by
  obtain ⟨phase, same, -⟩ := afterCount_cases call resume
  rw [same]

@[simp]
theorem afterCount_sessionId : (afterCount call resume).sessionId = call.sessionId := by
  obtain ⟨phase, same, -⟩ := afterCount_cases call resume
  rw [same]

@[simp]
theorem afterCount_pending : (afterCount call resume).pending = call.buffer := by
  obtain ⟨phase, same, rfl | rfl | ⟨resume, rfl⟩⟩ := afterCount_cases call resume <;>
    simp [same, Call.pending]

@[simp]
theorem afterFlush_seq : (afterFlush call resume).seq = call.seq := by
  obtain ⟨phase, same, -⟩ := afterFlush_cases call resume
  rw [same]

@[simp]
theorem afterFlush_bcast : (afterFlush call resume).bcast = call.bcast := by
  obtain ⟨phase, same, -⟩ := afterFlush_cases call resume
  rw [same]

@[simp]
theorem afterFlush_sessionId : (afterFlush call resume).sessionId = call.sessionId := by
  obtain ⟨phase, same, -⟩ := afterFlush_cases call resume
  rw [same]

@[simp]
theorem afterFlush_pending : (afterFlush call resume).pending = call.buffer := by
  obtain ⟨phase, same, ⟨summary, rfl⟩ | rfl | rfl | ⟨resume, rfl⟩ | ⟨resume, rfl⟩⟩ :=
    afterFlush_cases call resume <;> simp [same, Call.pending]

variable (state : State)

@[simp]
theorem flush_backend : (flush state resume).backend = state.backend := by
  unfold flush
  split <;> rfl

@[simp]
theorem flush_opened : (flush state resume).record.opened = state.record.opened := by
  unfold flush
  split <;> rfl

@[simp]
theorem flush_accepted : (flush state resume).record.accepted = state.record.accepted := by
  unfold flush
  split <;> rfl

@[simp]
theorem flush_seq : (flush state resume).call.seq = state.call.seq := by
  unfold flush
  split <;> simp

@[simp]
theorem flush_bcast : (flush state resume).call.bcast = state.call.bcast := by
  unfold flush
  split <;> simp

@[simp]
theorem flush_sessionId : (flush state resume).call.sessionId = state.call.sessionId := by
  unfold flush
  split <;> simp

/-- A flush takes the rows out of the buffer but not off their way. -/
@[simp]
theorem flush_pending : (flush state resume).call.pending = state.call.buffer := by
  unfold flush
  split
  · simp
  · simp [Call.pending]

end Flush

/-! ### Where a flush leaves the call -/

/-- No session is being started. -/
def Phase.Quiet : Phase → Prop
  | .inserting _ | .opening _ => False
  | _ => True

theorem Phase.Quiet.not_opening {phase : Phase} (quiet : phase.Quiet) (id : Uuid) :
    phase ≠ .opening id := by
  rintro rfl
  exact quiet

theorem quiet_afterCount (call : Call) (resume : Resume) :
    (afterCount call resume).phase.Quiet := by
  obtain ⟨phase, same, rfl | rfl | ⟨resume, rfl⟩⟩ := afterCount_cases call resume
  all_goals
    rw [same]
    trivial

theorem quiet_afterFlush (call : Call) (resume : Resume) :
    (afterFlush call resume).phase.Quiet := by
  obtain ⟨phase, same, ⟨summary, rfl⟩ | rfl | rfl | ⟨resume, rfl⟩ | ⟨resume, rfl⟩⟩ :=
    afterFlush_cases call resume
  all_goals
    rw [same]
    trivial

theorem quiet_flush (state : State) (resume : Resume) : (flush state resume).call.phase.Quiet := by
  unfold flush
  split
  · exact quiet_afterFlush state.call resume
  · trivial

/-- A flush returns only where there is no session. -/
theorem sessionId_of_done_afterFlush {call : Call} {resume : Resume}
    (done : (afterFlush call resume).phase.Done) : call.sessionId = none := by
  rcases Option.eq_none_or_eq_some call.sessionId with none | ⟨id, opened⟩
  · exact none
  · by_cases chunk : resume = .chunk
    · rw [chunk, afterFlush_chunk] at done
      exact done.elim
    · rw [afterFlush_of_some opened chunk, persistErrorCount] at done
      split at done
      · obtain ⟨phase, same, rfl | rfl | ⟨resume, rfl⟩⟩ := afterCount_cases call resume
        all_goals
          rw [same] at done
          exact done.elim
      · exact done.elim

theorem sessionId_of_done_flush {state : State} {resume : Resume}
    (done : (flush state resume).call.phase.Done) : state.call.sessionId = none := by
  unfold flush at done
  split at done
  · exact sessionId_of_done_afterFlush done
  · exact done.elim

section Accept

variable (codecs : Codecs) (state : State) (id : Uuid) (chunk : TerminalChunk)

@[simp]
theorem accept_channels :
    (accept codecs state id chunk).backend.hub.channels = state.backend.hub.channels := by
  unfold accept
  split <;> rfl

@[simp]
theorem accept_events :
    (accept codecs state id chunk).backend.events = state.backend.events := by
  unfold accept
  split <;> rfl

@[simp]
theorem accept_sessions :
    (accept codecs state id chunk).backend.sessions = state.backend.sessions := by
  unfold accept
  split <;> rfl

end Accept

theorem updateSession_isSome {backend : Backend} {id key : Uuid}
    {change : SessionRow → SessionRow} :
    ((updateSession backend id change).sessions key).isSome =
      (backend.sessions key).isSome := by
  by_cases same : key = id
  · subst same
    simp [updateSession]
  · simp [updateSession, same]

end SessionIngest

end Hermione
