import Hermione.RustStrings

/-!
# What the editor makes of its settings

The committed course file, the student's own settings and the environment say where
to connect, who the student is and whether contents may be shared.
-/

namespace Hermione

/-- What the committed course file may set. -/
structure CourseSettings where
  backend : Option Str
  token : Option Str
  identity : Option Str
  authProvider : Option Str
  shareFileContents : Option Bool

/-- What the student's own settings provide. -/
structure UserSettings where
  serverUrl : Option Str
  token : Option Str
  shareFileContents : Option Bool

structure Connection where
  serverUrl : Str
  token : Str
  authProvider : Str
  shareFileContents : Bool
  deriving DecidableEq

/-- The first value that is set to something. -/
def firstNonEmpty (values : List (Option Str)) : Str :=
  ((values.filterMap id).find? fun value => !value.isEmpty).getD []

/-- Where to connect and how.  The course file wins for the backend and its token; to
withhold file contents only one side needs to ask. -/
def resolveConnection (course : CourseSettings) (user : UserSettings) (envToken : Option Str) :
    Connection :=
  let url := firstNonEmpty [course.backend, user.serverUrl, some "http://localhost:8080".toList]
  { serverUrl := if url.getLast? = some '/' then url.dropLast else url
    token := firstNonEmpty [course.token, user.token, envToken]
    authProvider := firstNonEmpty [course.authProvider, some "github".toList]
    shareFileContents :=
      course.shareFileContents ≠ some false && user.shareFileContents.getD true }

/-- Where a student's name may come from. -/
inductive StudentSource where
  | github
  | config
  | gitEmail
  | os
  | unknown
  deriving DecidableEq

structure StudentInputs where
  /-- Which source the teacher wants used. -/
  preference : Option Str
  explicit : Str
  githubUser : Str
  osUser : Str

def studentOrder (preference : Option Str) : List StudentSource :=
  if preference = some "github".toList then [.github, .config]
  else if preference = some "git-email".toList then [.gitEmail, .config]
  else if preference = some "env".toList then [.config]
  else if preference = some "os".toList then [.os]
  else [.config, .github, .gitEmail]

/-- The student's name and what it comes from. -/
def resolveStudent (inputs : StudentInputs) (gitEmail : Str) : Str × StudentSource :=
  let value : StudentSource → Str
    | .github => inputs.githubUser
    | .config => inputs.explicit
    | .gitEmail => gitEmail
    | .os => inputs.osUser
    | .unknown => []
  match (studentOrder inputs.preference).find? fun source => !(value source).isEmpty with
  | some source => (value source, source)
  | none => ("unknown".toList, .unknown)

/-- What is at hand when the course file has been read: its settings, the student's, and
the environment. -/
structure ConfigInputs where
  course : CourseSettings
  /-- Until the student trusts the workspace it may not choose where anything goes. -/
  trusted : Bool
  user : UserSettings
  envToken : Option Str
  student : Option Str
  envStudent : Option Str
  githubUser : Option Str
  osUser : Str

namespace ConfigInputs

def connection (inputs : ConfigInputs) : Connection :=
  resolveConnection
    (if inputs.trusted then inputs.course
      else { inputs.course with backend := none, token := none })
    inputs.user inputs.envToken

def studentInputs (inputs : ConfigInputs) : StudentInputs :=
  { preference := inputs.course.identity
    explicit := firstNonEmpty [inputs.student, inputs.envStudent]
    githubUser := inputs.githubUser.getD []
    osUser := inputs.osUser }

end ConfigInputs

end Hermione
