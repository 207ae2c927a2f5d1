import Hermione.RustStrings

/-!
# Who a piece of live, per-student state belongs to
-/

namespace Hermione

/-- Identifiers of courses, sessions and admins. -/
abbrev Uuid := BitVec 128

/-- A student name that was empty or only whitespace. -/
inductive BlankName where
  | blankName
  deriving DecidableEq, Repr

def BlankName.message : BlankName → String
  | .blankName => "student name is blank"

/-- A student's name.  Never blank. -/
structure Student where
  name : Str
  notBlank : name.trim ≠ []
  deriving DecidableEq

def Student.tryFrom (name : Str) : Except BlankName Student :=
  if notBlank : name.trim ≠ [] then .ok ⟨name, notBlank⟩ else .error .blankName

theorem Student.tryFrom_eq_ok_iff {name : Str} {student : Student} :
    Student.tryFrom name = .ok student ↔ student.name = name := by
  unfold Student.tryFrom
  split
  · rename_i notBlank
    rw [Except.ok.injEq]
    constructor
    · rintro rfl
      rfl
    · rintro rfl
      rfl
  · rename_i blank
    simp only [reduceCtorEq, false_iff]
    rintro rfl
    exact blank student.notBlank

theorem Student.ext_name {first second : Student} (equal : first.name = second.name) :
    first = second := by
  cases first
  cases second
  cases equal
  rfl

def alice : Student :=
  ⟨"alice".toList, by decide⟩

def bob : Student :=
  ⟨"bob".toList, by decide⟩

/-- Who a message is for: every student of the course and the teachers'
dashboard, or one student's editor and nobody else's. -/
inductive Audience where
  | everyone
  | student (only : Student)
  deriving DecidableEq

/-- Whether a socket belonging to `listener` should be sent the message.  No
listener is the dashboard. -/
def Audience.reaches (audience : Audience) (listener : Option Student) : Bool :=
  match audience with
  | .everyone => true
  | .student only => listener == some only

/-- One student in one course: the unit live state is kept per. -/
structure Slot where
  course : Uuid
  student : Student
  deriving DecidableEq

/-- The statuses a refusal can carry. -/
inductive StatusCode where
  | badRequest
  | unauthorized
  | forbidden
  | notFound
  | conflict
  | badGateway
  | unavailable
  deriving DecidableEq, Repr

/-- What a handler can fail with: a refusal whose message is meant for the
caller, or a failure of the server's own, of which the caller is told nothing. -/
inductive ApiError where
  | refused (status : StatusCode) (message : String)
  | internal
  deriving DecidableEq, Repr

end Hermione
