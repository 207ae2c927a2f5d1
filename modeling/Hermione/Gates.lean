import Hermione.Student

/-!
# Who is calling

Editors show a course's enrollment token and, where students are verified, an
identity token; teachers show the cookie of a session.  The gates here turn a
request's headers and query into a course and a student, or a refusal.
-/

namespace Hermione

/-- A row of `courses`, as far as the gates read it. -/
structure Course where
  id : Uuid
  slug : Str
  enrollmentToken : Str
  deriving DecidableEq

def DEFAULT_COURSE_ID : Uuid :=
  1

/-- The `jsonwebtoken` crate: whom a token signed with a secret names, while it is
valid. -/
abbrev JsonWebToken := (secret token : Str) → (now : Int) → Option Str

/-- The signing secret, and the names of the identity providers. -/
structure Identity where
  secret : Option Str
  providers : List Str

/-- Verified identity is enforced once a signing secret and a provider exist. -/
def Identity.enforced (identity : Identity) : Bool :=
  identity.secret.isSome && !identity.providers.isEmpty

/-- The verified student of an identity token. -/
def Identity.verify (jwt : JsonWebToken) (now : Int) (identity : Identity) (token : Str) :
    Option Str :=
  identity.secret.bind fun secret => jwt secret token now

/-- What the gates look things up in. -/
structure Access where
  courses : List Course
  /-- Which admins teach which courses. -/
  members : List (Uuid × Uuid)
  /-- Teachers' sessions: whose, and until when. -/
  sessions : Str → Option (Uuid × Int)
  openDev : Bool
  identity : Identity
  /-- Whether the database answers. -/
  reachable : Bool

/-- The first values of the headers the gates read. -/
structure Headers where
  authorization : Option (List UInt8)
  hermioneIdentity : Option (List UInt8)
  cookie : Option (List UInt8)

/-- `HeaderValue::to_str`: only visible characters, blanks and tabs. -/
def headerText (value : List UInt8) : Option Str :=
  if value.all fun byte => (32 ≤ byte && byte < 127) || byte == 9 then
    some (value.map fun byte => Char.ofNat byte.toNat)
  else none

/-- The enrollment token of an `Authorization: Bearer` header. -/
def bearerToken (headers : Headers) : Option Str :=
  (headers.authorization.bind headerText).bind (Str.stripPrefix "Bearer ".toList)

/-- `str::split_once` -/
def Str.splitOnce (separator : Char) (text : Str) : Option (Str × Str) :=
  match text.dropWhile (· != separator) with
  | [] => none
  | _ :: rest => some (text.takeWhile (· != separator), rest)

def SESSION_COOKIE : Str :=
  "hermione_session".toList

def sessionCookie (headers : Headers) : Option Str :=
  (headers.cookie.bind headerText).bind fun cookies =>
    (Str.split ';' cookies).findSome? fun cookie =>
      match Str.splitOnce '=' cookie.trim with
      | some (name, value) => if name = SESSION_COOKIE then some value else none
      | none => none

inductive AuthCtx where
  | admin (id : Uuid)
  /-- No admins exist yet: full access to all courses. -/
  | openDev
  deriving DecidableEq, Repr

section Gates

variable (access : Access) (jwt : JsonWebToken) (now : Int)

/-- A session token's admin, if still valid. -/
def adminFor (token : Option Str) : Option Uuid :=
  (token.bind access.sessions).bind fun (admin, expiry) =>
    if now < expiry then some admin else none

def teacherCtx (headers : Headers) : Option AuthCtx :=
  match adminFor access now (sessionCookie headers) with
  | some admin => some (.admin admin)
  | none => if access.openDev then some .openDev else none

/-- A query of the database. -/
def query {Answer : Type} (answer : Answer) : Except ApiError Answer :=
  if access.reachable then .ok answer else .error .internal

/-- The course an enrollment token belongs to. -/
def enrolledCourse (token : Str) : Except ApiError Uuid := do
  match ← query access (access.courses.find? fun course => course.enrollmentToken = token) with
  | some course => return course.id
  | none => throw (.refused .unauthorized "invalid enrollment token")

def ensureMember (ctx : AuthCtx) (course : Uuid) : Except ApiError Unit :=
  match ctx with
  | .openDev => .ok ()
  | .admin admin => do
      if ← query access (access.members.contains (admin, course)) then
        return ()
      else
        throw (.refused .forbidden "not a member of this course")

/-- The selected course, once the caller is known to be allowed it. -/
def resolveCourse (ctx : AuthCtx) (slug : Option Str) : Except ApiError Uuid := do
  let slug := slug.getD "default".toList
  match ← query access (access.courses.find? fun course => course.slug = slug) with
  | some course =>
      ensureMember access ctx course.id
      return course.id
  | none => throw (.refused .notFound "no such course")

/-- Whom a request's identity token says the student is. -/
def identified (headers : Headers) : Option Str :=
  (headers.hermioneIdentity.bind headerText).bind (access.identity.verify jwt now)

def verifiedStudent (headers : Headers) : Except ApiError (Option Str) :=
  let verified := identified access jwt now headers
  if access.identity.enforced && verified.isNone then
    .error (.refused .unauthorized "verified identity required")
  else .ok verified

/-- The course an agent's data lands in.  Without a token it is the default one, in
open dev mode only. -/
def ingestCourse (headers : Headers) : Except ApiError Uuid :=
  match bearerToken headers with
  | some token => enrolledCourse access token
  | none =>
      if access.openDev then .ok DEFAULT_COURSE_ID
      else .error (.refused .unauthorized "enrollment token required")

/-- The gate for agent ingest: the course, and the verified student. -/
def requireIngest (headers : Headers) : Except ApiError (Uuid × Option Str) := do
  let course ← ingestCourse access headers
  let verified ← verifiedStudent access jwt now headers
  return (course, verified)

/-- Which student a listener is routed as.  A verified identity wins. -/
def routingStudent (verified : Option Str) (claimed : Option Student) :
    Except BlankName (Option Student) :=
  match verified with
  | some name => (Student.tryFrom name).map some
  | none => .ok claimed

/-- A name that cannot be used is a refusal. -/
def routed (verified : Option Str) (claimed : Option Student) :
    Except ApiError (Option Student) :=
  (routingStudent verified claimed).mapError fun error =>
    .refused .unauthorized error.message

structure WsQuery where
  /-- Older editors send their enrollment token here. -/
  token : Option Str
  course : Option Str
  since : Option Int
  student : Option Student

/-- Who is connecting, and to which course: an editor, routed by student, or a
teacher, routed by nobody. -/
def listener (request : WsQuery) (headers : Headers) :
    Except ApiError (Uuid × Option Student) :=
  match (bearerToken headers).or request.token with
  | some token => do
      let course ← enrolledCourse access token
      let verified ← verifiedStudent access jwt now headers
      let student ← routed verified request.student
      return (course, student)
  | none => do
      match teacherCtx access now headers with
      | some ctx =>
          let course ← resolveCourse access ctx request.course
          return (course, none)
      | none => throw (.refused .unauthorized "login required")

structure PollQuery where
  since : Option Int
  student : Option Student

/-- Who is asking for an inbox. -/
def inboxListener (request : PollQuery) (headers : Headers) :
    Except ApiError (Uuid × Option Student) := do
  let (course, verified) ← requireIngest access jwt now headers
  let student ← routed verified request.student
  return (course, student)

end Gates

/-! ## Where identity is enforced -/

section Enforced

variable {access : Access} {jwt : JsonWebToken} {now : Int} {headers : Headers}

theorem bind_eq_ok_iff {α β : Type} {first : Except ApiError α} {rest : α → Except ApiError β}
    {result : β} :
    first >>= rest = .ok result ↔ ∃ value, first = .ok value ∧ rest value = .ok result := by
  cases first <;> simp [bind, Except.bind]

theorem routed_eq_ok_iff {verified : Option Str} {claimed student : Option Student} :
    routed verified claimed = .ok student ↔
      match verified with
      | some name => ∃ only, student = some only ∧ only.name = name
      | none => student = claimed := by
  unfold routed routingStudent
  cases verified with
  | none => simp [Except.mapError, eq_comm]
  | some name =>
      cases tried : Student.tryFrom name with
      | ok only =>
          have named := Student.tryFrom_eq_ok_iff.mp tried
          simp only [tried, Except.map, Except.mapError, Except.ok.injEq]
          constructor
          · rintro rfl
            exact ⟨only, rfl, named⟩
          · rintro ⟨other, rfl, same⟩
            rw [Student.ext_name (named.trans same.symm)]
      | error error =>
          simp only [tried, Except.map, Except.mapError, reduceCtorEq, false_iff, not_exists,
            not_and]
          rintro only - named
          rw [Student.tryFrom_eq_ok_iff.mpr named] at tried
          simp at tried

/-- Where identity is enforced, a request without one is refused. -/
theorem verifiedStudent_of_enforced (enforced : access.identity.enforced = true)
    {verified : Option Str} (accepted : verifiedStudent access jwt now headers = .ok verified) :
    ∃ name, identified access jwt now headers = some name ∧ verified = some name := by
  unfold verifiedStudent at accepted
  cases found : identified access jwt now headers with
  | none => simp [enforced, found] at accepted
  | some name => exact ⟨name, rfl, by simpa [enforced, found, eq_comm] using accepted⟩

/-- Where identity is enforced, what a request claims counts for nothing. -/
theorem routed_of_enforced (enforced : access.identity.enforced = true)
    {verified : Option Str} (accepted : verifiedStudent access jwt now headers = .ok verified)
    (claimed other : Option Student) :
    routed verified claimed = routed verified other := by
  obtain ⟨name, -, rfl⟩ := verifiedStudent_of_enforced enforced accepted
  rfl

theorem listener_claimed_of_enforced (enforced : access.identity.enforced = true)
    (request : WsQuery) (claimed : Option Student) :
    listener access jwt now { request with student := claimed } headers =
      listener access jwt now request headers := by
  unfold listener
  dsimp only
  split
  · cases enrolledCourse access _ with
    | error error => rfl
    | ok course =>
        cases judged : verifiedStudent access jwt now headers with
        | error error => rfl
        | ok verified =>
            simp only [bind, Except.bind,
              routed_of_enforced enforced judged claimed request.student]
  · rfl

theorem inboxListener_claimed_of_enforced (enforced : access.identity.enforced = true)
    (request : PollQuery) (claimed : Option Student) :
    inboxListener access jwt now { request with student := claimed } headers =
      inboxListener access jwt now request headers := by
  unfold inboxListener requireIngest
  cases ingestCourse access headers with
  | error error => rfl
  | ok course =>
      cases judged : verifiedStudent access jwt now headers with
      | error error => rfl
      | ok verified =>
          simp only [bind, Except.bind, pure, Except.pure,
            routed_of_enforced enforced judged claimed request.student]

/-- An editor's listener is then routed as the verified student, and a teacher's as
nobody. -/
theorem listener_of_enforced (enforced : access.identity.enforced = true)
    {request : WsQuery} {course : Uuid} {student : Option Student}
    (accepted : listener access jwt now request headers = .ok (course, student)) :
    (∃ only, student = some only ∧ identified access jwt now headers = some only.name) ∨
      (bearerToken headers).or request.token = none ∧ student = none := by
  unfold listener at accepted
  split at accepted
  · obtain ⟨enrolled, _, accepted⟩ := bind_eq_ok_iff.mp accepted
    obtain ⟨verified, judged, accepted⟩ := bind_eq_ok_iff.mp accepted
    obtain ⟨student', decided, same⟩ := bind_eq_ok_iff.mp accepted
    obtain ⟨name, identified, rfl⟩ := verifiedStudent_of_enforced enforced judged
    obtain ⟨only, rfl, rfl⟩ := routed_eq_ok_iff.mp decided
    have here := congrArg Prod.snd (Except.ok.inj same)
    exact .inl ⟨only, here.symm, identified⟩
  · rename_i missing
    split at accepted
    · obtain ⟨resolved, _, same⟩ := bind_eq_ok_iff.mp accepted
      exact .inr ⟨missing, (congrArg Prod.snd (Except.ok.inj same)).symm⟩
    · simp [throw, throwThe, MonadExceptOf.throw] at accepted

theorem inboxListener_of_enforced (enforced : access.identity.enforced = true)
    {request : PollQuery} {course : Uuid} {student : Option Student}
    (accepted : inboxListener access jwt now request headers = .ok (course, student)) :
    ∃ only, student = some only ∧ identified access jwt now headers = some only.name := by
  unfold inboxListener requireIngest at accepted
  obtain ⟨⟨course', verified⟩, gated, accepted⟩ := bind_eq_ok_iff.mp accepted
  obtain ⟨student', decided, same⟩ := bind_eq_ok_iff.mp accepted
  obtain ⟨enrolled, _, gated⟩ := bind_eq_ok_iff.mp gated
  obtain ⟨verified', judged, sameGate⟩ := bind_eq_ok_iff.mp gated
  obtain ⟨name, identified, rfl⟩ := verifiedStudent_of_enforced enforced judged
  obtain rfl : some name = verified := congrArg Prod.snd (Except.ok.inj sameGate)
  obtain ⟨only, rfl, rfl⟩ := routed_eq_ok_iff.mp decided
  have here := congrArg Prod.snd (Except.ok.inj same)
  exact ⟨only, here.symm, identified⟩

end Enforced

end Hermione
