import Mathlib.Data.List.Forall2
import Mathlib.Data.List.Sort
import Hermione.Gates
import Hermione.JsonStrings
import Hermione.SessionWatch

/-!
# Who is shown a recorded session

Two servers show what was recorded.  The web's routes ask for a teacher's session
and for membership of the course; the gRPC service for viewers has one guard, which
compares a secret if one was configured and lets everybody in if none was.
-/

namespace Hermione

/-! ### Comparing secrets -/

/-- Compares in a time that depends on the lengths only: the differences of all the
bytes are gathered. -/
def constantTimeEq (first second : List UInt8) : Bool :=
  if first.length ≠ second.length then false
  else (first.zip second).foldl (fun diff pair => diff ||| (pair.1 ^^^ pair.2)) 0 == 0

theorem foldl_or_eq_zero_iff {pairs : List (UInt8 × UInt8)} {diff : UInt8} :
    pairs.foldl (fun diff pair => diff ||| (pair.1 ^^^ pair.2)) diff = 0 ↔
      diff = 0 ∧ ∀ pair ∈ pairs, pair.1 = pair.2 := by
  induction pairs generalizing diff with
  | nil => simp
  | cons pair pairs ih =>
      rw [List.foldl_cons, ih, List.forall_mem_cons, UInt8.or_eq_zero_iff, UInt8.xor_eq_zero_iff,
        and_assoc]

theorem constantTimeEq_iff {first second : List UInt8} :
    constantTimeEq first second = true ↔ first = second := by
  rw [← List.forall₂_eq_eq_eq, List.forall₂_iff_zip]
  unfold constantTimeEq
  split
  · next different => simp [different]
  · next same =>
      rw [beq_iff_eq, foldl_or_eq_zero_iff]
      simp [not_ne_iff.mp same]

/-! ### The tables and the server -/

/-- A session's row with its times, in milliseconds. -/
structure StoredSession where
  row : SessionRow
  startedAt : Int
  endedAt : Option Int
  deriving DecidableEq

/-- The table of sessions, keyed by identifier. -/
structure SessionTable where
  sessions : List StoredSession
  distinct : (sessions.map fun session => session.row.id).Nodup

/-- A server as its viewers meet it: its secret, what its gates read, what was
recorded, and the time in seconds. -/
structure Server where
  adminToken : Option Str
  access : Access
  table : SessionTable
  events : List TerminalRow
  now : Int
  /-- What the database says for itself when it does not answer. -/
  failure : Str

/-- The course of a session. -/
def StoredSession.course (session : StoredSession) : Uuid :=
  session.row.courseId.getD DEFAULT_COURSE_ID

def SessionTable.findById (table : SessionTable) (id : Uuid) : Option StoredSession :=
  table.sessions.find? fun session => session.row.id = id

def newestFirst (sessions : List StoredSession) : List StoredSession :=
  sessions.insertionSort fun first second => second.startedAt ≤ first.startedAt

/-- What both servers tell of a session.  The web says it in camel case, and the
identifier is written as text. -/
structure SessionInfo where
  sessionId : Uuid
  student : Str
  command : Str
  status : SessionStatus
  startedAtUnixMs : Int
  endedAtUnixMs : Option Int
  exitCode : Option Int32
  deriving DecidableEq

def sessionInfo (session : StoredSession) : SessionInfo :=
  { sessionId := session.row.id
    student := session.row.student
    command := session.row.command
    status := session.row.status
    startedAtUnixMs := session.startedAt
    endedAtUnixMs := session.endedAt
    exitCode := session.row.exitCode }

/-- The web's listing adds the terminal's size. -/
structure SessionDto where
  info : SessionInfo
  cols : Int32
  rows : Int32
  deriving DecidableEq

def sessionDto (session : StoredSession) : SessionDto :=
  { info := sessionInfo session, cols := session.row.cols, rows := session.row.rows }

/-- What is shown, and of which session: a stream is what a watcher of the session
is then sent. -/
inductive Shown (Listed : Type) where
  | sessions (list : List Listed)
  | stream (id : Uuid) (includeHistory : Bool)
  | transcript (id : Uuid) (body : Str)

/-! ### The web's routes -/

inductive SessionRoute where
  | listSessions (course : Option Str)
  | streamSession (id : Str) (history : Option Bool)
  | transcript (id : Str) (stream : Option Str)

/-- `Uuid::parse_str` of the `uuid` crate: every identifier can be written. -/
structure UuidCrate where
  parseStr : Str → Option Uuid
  reads : ∀ id, ∃ text, parseStr text = some id

section Web

variable (codecs : Codecs) (uuids : UuidCrate) (server : Server)

def parseSessionId (raw : Str) : Except ApiError Uuid :=
  match uuids.parseStr raw with
  | some id => .ok id
  | none => .error (.refused .badRequest "invalid session id")

/-- A session, once the caller is known to be allowed its course. -/
def authorizedSession (ctx : AuthCtx) (id : Uuid) : Except ApiError StoredSession := do
  match ← query server.access (server.table.findById id) with
  | some session =>
      ensureMember server.access ctx session.course
      return session
  | none => throw (.refused .notFound "no such session")

/-- The streams a transcript is made of. -/
def transcribes (stream : Option Str) (label : StreamLabel) : Bool :=
  if stream = some "stdin".toList then label = .stdin
  else if stream = some "all".toList then true
  else label = .stdout

def transcriptText (id : Uuid) (stream : Option Str) : Str :=
  ((SessionWatch.history id server.events).filter fun row => transcribes stream row.stream).flatMap
    fun row => row.text.getD (codecs.plain ((codecs.decode row.data).getD []))

def handleSessions (ctx : AuthCtx) : SessionRoute → Except ApiError (Shown SessionDto)
  | .listSessions course => do
      let course ← resolveCourse server.access ctx course
      let rows ← query server.access <| newestFirst <|
        server.table.sessions.filter fun session => session.row.courseId = some course
      return .sessions (rows.map sessionDto)
  | .streamSession id history => do
      let id ← parseSessionId uuids id
      let _ ← authorizedSession server ctx id
      return .stream id (history.getD true)
  | .transcript id stream => do
      let id ← parseSessionId uuids id
      let _ ← authorizedSession server ctx id
      let body ← query server.access (transcriptText codecs server id stream)
      return .transcript id body

/-- The routes behind the gate for teachers.  All of them are under `/api/`. -/
def webSessions (headers : Headers) (route : SessionRoute) :
    Except ApiError (Shown SessionDto) :=
  match teacherCtx server.access server.now headers with
  | some ctx => handleSessions codecs uuids server ctx route
  | none => .error (.refused .unauthorized "login required")

end Web

/-! ### The service for viewers -/

inductive ViewerRequest where
  | listSessions
  | watchSession (sessionId : Str) (includeHistory : Bool)

section Grpc

variable (uuids : UuidCrate) (server : Server)

/-- The interceptor of the service. -/
def viewerGuard (adminToken : Option Str) (headers : Headers) : Except Status Unit :=
  match adminToken with
  | none => .ok ()
  | some expected =>
      let ok := match bearerToken headers with
        | some token => constantTimeEq token.asBytes expected.asBytes
        | none => false
      if ok then .ok () else .error ⟨.unauthenticated, "invalid or missing token".toList⟩

def handleViewer : ViewerRequest → Except Status (Shown SessionInfo)
  | .listSessions =>
      if server.access.reachable then
        .ok (.sessions ((newestFirst server.table.sessions).map sessionInfo))
      else .error (.internal server.failure)
  | .watchSession sessionId includeHistory =>
      match uuids.parseStr sessionId with
      | some id => .ok (.stream id includeHistory)
      | none => .error ⟨.invalidArgument, "invalid session_id".toList⟩

def viewer (headers : Headers) (request : ViewerRequest) :
    Except Status (Shown SessionInfo) := do
  viewerGuard server.adminToken headers
  handleViewer uuids server request

end Grpc

/-! ### What is claimed -/

/-- An answer tells of a session. -/
def Shown.Tells {Listed : Type} (named : Listed → Uuid) (shown : Shown Listed) (id : Uuid) : Prop :=
  match shown with
  | .sessions list => ∃ listed ∈ list, named listed = id
  | .stream other _ => other = id
  | .transcript other _ => other = id

/-- A request comes from an admin whose session token is unexpired and who is a
member of the course. -/
def Teaches (server : Server) (headers : Headers) (course : Uuid) : Prop :=
  ∃ token admin expiry, sessionCookie headers = some token ∧
    server.access.sessions token = some (admin, expiry) ∧ server.now < expiry ∧
      (admin, course) ∈ server.access.members

/-- Recorded sessions are served only to who shows a credential. -/
structure ServesCredentialed (codecs : Codecs) (uuids : UuidCrate) (server : Server) : Prop where
  web : ∀ (headers : Headers) (route : SessionRoute) (shown : Shown SessionDto),
    ∀ session ∈ server.table.sessions, webSessions codecs uuids server headers route = .ok shown →
      shown.Tells (fun dto => dto.info.sessionId) session.row.id →
      Teaches server headers session.course
  grpc : ∀ (headers : Headers) (request : ViewerRequest) (shown : Shown SessionInfo),
    ∀ session ∈ server.table.sessions, viewer uuids server headers request = .ok shown →
      shown.Tells SessionInfo.sessionId session.row.id →
      ∃ secret, server.adminToken = some secret ∧ bearerToken headers = some secret

section Web

variable {codecs : Codecs} {uuids : UuidCrate} {server : Server} {headers : Headers}

theorem query_eq_ok_iff {Answer : Type} {access : Access} {answer given : Answer} :
    query access answer = .ok given ↔ access.reachable = true ∧ answer = given := by
  unfold query
  split
  · next reachable => simp [reachable]
  · next unreachable => simp [unreachable]

theorem ensureMember_admin {access : Access} {admin course : Uuid}
    (allowed : ensureMember access (.admin admin) course = .ok ()) :
    (admin, course) ∈ access.members := by
  obtain ⟨member, asked, allowed⟩ := bind_eq_ok_iff.mp allowed
  obtain ⟨-, rfl⟩ := query_eq_ok_iff.mp asked
  split at allowed
  · next here => simpa using here
  · cases allowed

/-- Without open dev mode a teacher is an admin with an unexpired token. -/
theorem teacherCtx_locked (locked : server.access.openDev = false) {ctx : AuthCtx}
    (teacher : teacherCtx server.access server.now headers = some ctx) :
    ∃ admin, ctx = .admin admin ∧
      ∀ course, (admin, course) ∈ server.access.members → Teaches server headers course := by
  unfold teacherCtx at teacher
  split at teacher
  · next admin found =>
      refine ⟨admin, (Option.some.inj teacher).symm, fun course member => ?_⟩
      obtain ⟨⟨owner, expiry⟩, looked, current⟩ := Option.bind_eq_some_iff.mp found
      obtain ⟨token, shown, stored⟩ := Option.bind_eq_some_iff.mp looked
      dsimp only at current
      split at current
      · next unexpired =>
          obtain rfl := Option.some.inj current
          exact ⟨token, owner, expiry, shown, stored, unexpired, member⟩
      · cases current
  · rw [locked] at teacher
    cases teacher

theorem resolveCourse_admin {access : Access} {admin course : Uuid} {slug : Option Str}
    (resolved : resolveCourse access (.admin admin) slug = .ok course) :
    (admin, course) ∈ access.members := by
  obtain ⟨found, -, resolved⟩ := bind_eq_ok_iff.mp resolved
  split at resolved
  · obtain ⟨_, allowed, same⟩ := bind_eq_ok_iff.mp resolved
    obtain rfl := Except.ok.inj same
    exact ensureMember_admin allowed
  · cases resolved

theorem authorizedSession_admin {admin id : Uuid} {session : StoredSession}
    (authorized : authorizedSession server (.admin admin) id = .ok session) :
    session ∈ server.table.sessions ∧ session.row.id = id ∧
      (admin, session.course) ∈ server.access.members := by
  obtain ⟨found, asked, authorized⟩ := bind_eq_ok_iff.mp authorized
  obtain ⟨-, rfl⟩ := query_eq_ok_iff.mp asked
  split at authorized
  · next other found =>
      obtain ⟨_, allowed, same⟩ := bind_eq_ok_iff.mp authorized
      obtain rfl := Except.ok.inj same
      refine ⟨List.mem_of_find?_eq_some found, ?_, ensureMember_admin allowed⟩
      simpa using List.find?_some found
  · cases authorized

/-- The identifier is the table's key. -/
theorem SessionTable.eq_of_id {table : SessionTable} {one other : StoredSession}
    (listed : one ∈ table.sessions) (also : other ∈ table.sessions)
    (same : one.row.id = other.row.id) : one = other :=
  List.inj_on_of_nodup_map table.distinct listed also same

theorem mem_newestFirst {sessions : List StoredSession} {session : StoredSession} :
    session ∈ newestFirst sessions ↔ session ∈ sessions :=
  (List.perm_insertionSort _ sessions).mem_iff

/-- The web's routes tell of a session only to the teachers of its course. -/
theorem web_credentialed (locked : server.access.openDev = false) (route : SessionRoute)
    (shown : Shown SessionDto) (session : StoredSession)
    (listed : session ∈ server.table.sessions)
    (answered : webSessions codecs uuids server headers route = .ok shown)
    (tells : shown.Tells (fun dto => dto.info.sessionId) session.row.id) :
    Teaches server headers session.course := by
  unfold webSessions at answered
  split at answered
  · next ctx teacher =>
      obtain ⟨admin, rfl, teaches⟩ := teacherCtx_locked locked teacher
      apply teaches
      cases route with
      | listSessions slug =>
          obtain ⟨course, resolved, answered⟩ := bind_eq_ok_iff.mp answered
          obtain ⟨rows, asked, same⟩ := bind_eq_ok_iff.mp answered
          obtain ⟨-, rfl⟩ := query_eq_ok_iff.mp asked
          obtain rfl := Except.ok.inj same
          obtain ⟨dto, given, named⟩ := tells
          obtain ⟨other, chosen, rfl⟩ := List.mem_map.mp given
          obtain ⟨also, mine⟩ := List.mem_filter.mp (mem_newestFirst.mp chosen)
          obtain rfl := server.table.eq_of_id also listed named
          rw [StoredSession.course, of_decide_eq_true mine]
          exact resolveCourse_admin resolved
      | streamSession raw history =>
          obtain ⟨id, -, answered⟩ := bind_eq_ok_iff.mp answered
          obtain ⟨other, authorized, same⟩ := bind_eq_ok_iff.mp answered
          obtain rfl := Except.ok.inj same
          obtain ⟨also, named, member⟩ := authorizedSession_admin authorized
          exact server.table.eq_of_id also listed (named.trans tells) ▸ member
      | transcript raw stream =>
          obtain ⟨id, -, answered⟩ := bind_eq_ok_iff.mp answered
          obtain ⟨other, authorized, answered⟩ := bind_eq_ok_iff.mp answered
          obtain ⟨body, -, same⟩ := bind_eq_ok_iff.mp answered
          obtain rfl := Except.ok.inj same
          obtain ⟨also, named, member⟩ := authorizedSession_admin authorized
          exact server.table.eq_of_id also listed (named.trans tells) ▸ member
  · cases answered

end Web

section Grpc

variable {uuids : UuidCrate} {server : Server} {headers : Headers}

/-- The guard lets in whoever shows the secret, and everybody when there is none. -/
theorem viewerGuard_eq_ok_iff {adminToken : Option Str} :
    viewerGuard adminToken headers = .ok () ↔
      ∀ secret, adminToken = some secret → bearerToken headers = some secret := by
  cases adminToken with
  | none => simp [viewerGuard]
  | some expected =>
      unfold viewerGuard
      cases shown : bearerToken headers with
      | none =>
          apply iff_of_false nofun
          exact fun all => Option.some_ne_none _ (all expected rfl).symm
      | some token =>
          cases same : constantTimeEq token.asBytes expected.asBytes with
          | true =>
              obtain rfl := Str.asBytes_inj.mp (constantTimeEq_iff.mp same)
              simp only [same, if_true, true_iff]
              exact fun secret configured => configured
          | false =>
              simp only [same, Bool.false_eq_true, if_false]
              apply iff_of_false nofun
              intro all
              obtain rfl := Option.some.inj (all expected rfl)
              rw [constantTimeEq_iff.mpr rfl] at same
              cases same

theorem viewer_eq_ok_iff {request : ViewerRequest} {shown : Shown SessionInfo} :
    viewer uuids server headers request = .ok shown ↔
      viewerGuard server.adminToken headers = .ok () ∧
        handleViewer uuids server request = .ok shown := by
  unfold viewer
  cases viewerGuard server.adminToken headers with
  | error status => simp [bind, Except.bind]
  | ok _ => simp [bind, Except.bind]

end Grpc

/-- A server that is not in open dev mode shows its sessions only to who shows a
credential, exactly when it has a secret, or nothing to show.  An empty secret, which
`docker-compose` passes unless one is set, counts as one: whoever sends an empty bearer
token shows it. -/
theorem servesCredentialed_iff (codecs : Codecs) (uuids : UuidCrate) (server : Server)
    (locked : server.access.openDev = false) :
    ServesCredentialed codecs uuids server ↔
      server.adminToken.isSome = true ∨ server.table.sessions = [] := by
  constructor
  · intro serves
    by_contra unguarded
    rw [not_or, Option.not_isSome_iff_eq_none] at unguarded
    obtain ⟨session, listed⟩ := List.exists_mem_of_ne_nil _ unguarded.2
    obtain ⟨text, read⟩ := uuids.reads session.row.id
    have watched : viewer uuids server ⟨none, none, none⟩ (.watchSession text true) =
        .ok (.stream session.row.id true) := by
      rw [viewer_eq_ok_iff, viewerGuard_eq_ok_iff, handleViewer, read]
      simp [unguarded.1]
    obtain ⟨secret, configured, -⟩ := serves.grpc _ _ _ session listed watched rfl
    rw [unguarded.1] at configured
    cases configured
  · intro guarded
    constructor
    · intro headers route shown session listed
      exact web_credentialed locked route shown session listed
    · intro headers request shown session listed answered tells
      rcases guarded with configured | empty
      · obtain ⟨secret, same⟩ := Option.isSome_iff_exists.mp configured
        have let_in := (viewer_eq_ok_iff.mp answered).1
        exact ⟨secret, same, viewerGuard_eq_ok_iff.mp let_in secret same⟩
      · rw [empty] at listed
        cases listed

/-- An identifier written as 32 hexadecimal digits, one of the forms the crate reads. -/
def readSimple (text : Str) : Option Uuid :=
  if text.length = 32 then
    (text.foldlM (fun value char => (Json.hexValue char).map (value * 16 + ·)) 0).map
      (BitVec.ofNat 128)
  else none

theorem digits_read (width : Nat) (value : Nat) (small : value < 16 ^ width) :
    ∃ text : Str, text.length = width ∧ ∀ start,
      text.foldlM (fun value char => (Json.hexValue char).map (value * 16 + ·)) start =
        some (start * 16 ^ width + value) := by
  induction width generalizing value with
  | zero =>
      obtain rfl : value = 0 := by omega
      exact ⟨[], rfl, fun start => by simp⟩
  | succ width ih =>
      have shorter : value / 16 < 16 ^ width := by
        rw [pow_succ] at small
        omega
      obtain ⟨text, length, reads⟩ := ih (value / 16) shorter
      refine ⟨text ++ [Nat.digitChar (value % 16)], by simp [length], fun start => ?_⟩
      have digit : value % 16 < 16 := Nat.mod_lt _ (by decide)
      have whole : (start * 16 ^ width + value / 16) * 16 + value % 16 =
          start * 16 ^ (width + 1) + value := by
        rw [pow_succ, Nat.add_mul, Nat.mul_assoc]
        omega
      rw [List.foldlM_append, reads, ← whole]
      simp [Json.hexValue_digitChar digit]

/-- The crate, on that form. -/
def simpleUuids : UuidCrate :=
  { parseStr := readSimple
    reads := by
      intro id
      obtain ⟨text, length, reads⟩ := digits_read 32 id.toNat (by simpa using id.isLt)
      exact ⟨text, by simp [readSimple, length, reads]⟩ }

/-- A server that has an admin and a session, and was given this secret. -/
def withSecret (adminToken : Option Str) : Server :=
  { adminToken
    access := ⟨[], [], fun _ => none, false, ⟨none, []⟩, true⟩
    table :=
      ⟨[⟨⟨7, none, "alice".toList, "bash".toList, none, 80, 24, .ended, none, 0⟩, 0, none⟩],
        List.nodup_singleton _⟩
    events := []
    now := 0
    failure := [] }

theorem servesCredentialed_iff_withSecret :
    (ServesCredentialed Codecs.hello simpleUuids (withSecret (some "s3cret".toList)) ↔
      (withSecret (some "s3cret".toList)).adminToken.isSome = true ∨
        (withSecret (some "s3cret".toList)).table.sessions = []) :=
  servesCredentialed_iff Codecs.hello simpleUuids (withSecret (some "s3cret".toList)) rfl

/-- Without a secret the listing is given to anybody. -/
theorem not_servesCredentialed_unset :
    (withSecret none).access.openDev = false ∧
      ¬ ServesCredentialed Codecs.hello simpleUuids (withSecret none) := by
  refine ⟨rfl, fun serves => ?_⟩
  obtain ⟨secret, configured, -⟩ := serves.grpc ⟨none, none, none⟩ .listSessions _ _
    (List.mem_singleton_self _) rfl ⟨_, List.mem_singleton_self _, rfl⟩
  cases configured

end Hermione
