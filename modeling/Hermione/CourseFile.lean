import Hermione.JsonText
import Hermione.Slugs

/-!
# The course file

A course commits a `.hermione.json` that lists its exercises.  The editor reads
it to tell which exercise a file belongs to; server and recorder read it to
define the course's exercises.
-/

namespace Hermione

/-! ### Server and recorder -/

structure DiscoveredExercise where
  slug : Str
  title : Str

/-- One entry of the file, after those before it. -/
def discover (out : List DiscoveredExercise) (ex : Json Str) : List DiscoveredExercise :=
  match ex.get "name".toList with
  | some (.string name) =>
      match normalizeSlug name with
      | some slug =>
          if out.any fun other => other.slug = slug then out
          else out ++ [{ slug, title := titleFromSlug slug }]
      | none => out
  | _ => out

/-- Extracts exercises from a parsed `.hermione.json`, preserving its order. -/
def exercisesFromConfig (cfg : Json Str) : List DiscoveredExercise :=
  match cfg.get "exercises".toList with
  | some (.array arr) => arr.foldl discover []
  | _ => []

namespace Recorder

/-- The recorder's copy of the same function. -/
def exercisesFromConfig (cfg : Json Str) : List DiscoveredExercise :=
  Hermione.exercisesFromConfig cfg

end Recorder

/-! ### The editor -/

/-- One part of the regular expression a glob becomes. -/
inductive Piece where
  /-- The unit itself. -/
  | literal (unit : UInt16)
  /-- `[^/]` -/
  | one
  /-- `[^/]*` -/
  | segment
  /-- `.*` -/
  | anything
  deriving DecidableEq

/-- Minimal glob → RegExp supporting `**`, `*`, and `?`. -/
def globToRegExp : Str → List Piece
  | '*' :: '*' :: '/' :: glob => .anything :: globToRegExp glob
  | '*' :: '*' :: glob => .anything :: globToRegExp glob
  | '*' :: glob => .segment :: globToRegExp glob
  | '?' :: glob => .one :: globToRegExp glob
  | char :: glob => (Utf16.encodeChar char).map .literal ++ globToRegExp glob
  | [] => []

namespace RegExp

def isSlash (unit : UInt16) : Bool :=
  unit == 0x2F

/-- What `.` does not match. -/
def isLineTerminator (unit : UInt16) : Bool :=
  unit == 0x0A || unit == 0x0D || unit == 0x2028 || unit == 0x2029

/-- What can be left when some units were passed over. -/
def passing (pass : UInt16 → Bool) : List UInt16 → List (List UInt16)
  | [] => [[]]
  | unit :: units => (unit :: units) :: if pass unit then passing pass units else []

/-- Whether the whole string matches. -/
def test : List Piece → List UInt16 → Bool
  | [], units => units.isEmpty
  | .literal unit :: pieces, first :: units => first == unit && test pieces units
  | .literal _ :: _, [] => false
  | .one :: pieces, first :: units => !isSlash first && test pieces units
  | .one :: _, [] => false
  | .segment :: pieces, units => (passing (!isSlash ·) units).any (test pieces)
  | .anything :: pieces, units => (passing (!isLineTerminator ·) units).any (test pieces)

end RegExp

structure ExerciseRule where
  /-- As the file has it: nothing makes sure that it is a string. -/
  name : Option (Json Str)
  patterns : List (List UInt16 → Bool)

/-- The rule applies to a path, given by its units. -/
def ExerciseRule.covers (rule : ExerciseRule) (path : List UInt16) : Bool :=
  rule.patterns.any fun pattern => pattern path

namespace ExerciseMap

section Load

-- What becomes of a pattern that is of no declared type, neither a string nor
-- missing: JavaScript skips it, makes some expression of it, or throws.
variable (foreign : Json Str → Option (List (List UInt16 → Bool)))

def patternsOf (raw : Json Str) : Option (List (List UInt16 → Bool)) :=
  match raw with
  | .string [] => some []
  | .string glob => some [RegExp.test (globToRegExp glob)]
  | .null => some []
  | other => foreign other

/-- One entry of the list; `none` if it cannot be read, and throws. -/
def ruleOf (ex : Json Str) : Option ExerciseRule :=
  match ex with
  | .null => none
  | .object members =>
      let raw :=
        match (Json.object members).get "match".toList with
        | none => []
        | some (.array patterns) => patterns
        | some pattern => [pattern]
      (raw.mapM (patternsOf foreign)).map fun patterns =>
        { name := (Json.object members).get "name".toList, patterns := patterns.flatten }
  -- A string's `match` is a method, and becomes the expression `^undefined$`.
  | .string _ => some { name := none, patterns := [RegExp.test (globToRegExp "undefined".toList)] }
  | _ => some { name := none, patterns := [] }

/-- The rules of a list of entries, and whether reading them threw: the rules
before that remain. -/
def loadRules : List (Json Str) → List ExerciseRule × Bool
  | [] => ([], false)
  | ex :: rest =>
      match ruleOf foreign ex with
      | none => ([], true)
      | some rule =>
          let (rules, threw) := loadRules rest
          (rule :: rules, threw)

/-- `file.exercises ?? []`, as far as it can be iterated. -/
def exercisesOf (file : Json Str) : Option (List (Json Str)) :=
  match file.get "exercises".toList with
  | none => some []
  | some .null => some []
  | some (.array exercises) => some exercises
  | some (.string text) => some (text.map fun char => .string [char])
  | some _ => none

/-- Replaces the rules with those declared by the given course files. -/
def load : List (Json Str) → List ExerciseRule × Bool
  | [] => ([], false)
  | file :: files =>
      match exercisesOf file with
      | none => ([], true)
      | some exercises =>
          match loadRules foreign exercises with
          | (rules, true) => (rules, true)
          | (rules, false) =>
              let (more, threw) := load files
              (rules ++ more, threw)

end Load

def normalized (relativePath : Str) : List UInt16 :=
  Utf16.encode (relativePath.map fun char => if char = '\\' then '/' else char)

def resolve (rules : List ExerciseRule) (relativePath : Str) : Option (Json Str) :=
  (rules.find? fun rule => rule.covers (normalized relativePath)).bind ExerciseRule.name

end ExerciseMap

/-- Of the files that parse, those that are used: JSON objects. -/
def readCourseFiles (parsed : List (Json Str)) : List (Json Str) :=
  parsed.filter fun file =>
    match file with
    | .object _ => true
    | _ => false

end Hermione
