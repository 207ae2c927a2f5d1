import Hermione.JsonText
import Hermione.OpenFile
import Hermione.Report

/-!
# Reports as text

The editor writes its report as JSON, and the server's deserializer makes one of
its own types of it.  A member that is undefined is not written; a field that is
there twice, or is missing and has no default, is refused.
-/

namespace Hermione

/-! ### The deserializer -/

namespace Deserialize

/-- A field of a struct, if it is there; it must not be there twice. -/
def field (name : String) : Json Str → Option (Option (Json Str))
  | .object members =>
      match members.filter fun member => member.1 = name.toList with
      | [] => some none
      | [member] => some (some member.2)
      | _ => none
  | _ => none

section Fields

variable {Value : Type} (name : String) (read : Json Str → Option Value) (value : Json Str)

def required : Option Value :=
  match field name value with
  | some (some value) => read value
  | _ => none

/-- An `Option`: it can be missing or null. -/
def optional : Option (Option Value) :=
  match field name value with
  | some (some .null) => some none
  | some (some value) => (read value).map some
  | some none => some none
  | none => none

/-- A field that has a default. -/
def orElse (default : Value) : Option Value :=
  match field name value with
  | some (some value) => read value
  | some none => some default
  | none => none

end Fields

def string : Json Str → Option Str
  | .string text => some text
  | _ => none

def bool : Json Str → Option Bool
  | .bool value => some value
  | _ => none

/-- `u32` and `u64`. -/
def unsigned (bits : Nat) : Json Str → Option Nat
  | .number numeral => numeral.toNat?.filter fun number => number < 2 ^ bits
  | _ => none

def nonZeroU32 (value : Json Str) : Option NonZeroU32 :=
  (unsigned 32 value).bind fun number =>
    if bounds : 0 < number ∧ number < 2 ^ 32 then some ⟨number, bounds⟩ else none

/-- A `Vec`. -/
def vec {Value : Type} (read : Json Str → Option Value) : Json Str → Option (List Value)
  | .array elements => elements.mapM read
  | _ => none

def student (value : Json Str) : Option Student :=
  (string value).bind fun name => (Student.tryFrom name).toOption

def cursor (value : Json Str) : Option Cursor := do
  let line ← required "line" nonZeroU32 value
  let column ← required "column" nonZeroU32 value
  return { line, column }

def diffLine (value : Json Str) : Option Report.DiffLine :=
  (string value).bind fun line => (Report.DiffLine.tryFrom line).toOption

def hunk (value : Json Str) : Option Report.Hunk := do
  let oldStart ← required "oldStart" (unsigned 32) value
  let newStart ← required "newStart" (unsigned 32) value
  let lines ← required "lines" (vec diffLine) value
  return { oldStart, newStart, lines }

def baseline (value : Json Str) : Option Report.Baseline := do
  let kind ← required "kind" string value
  if kind = "head".toList then (required "hunks" (vec hunk) value).map .head
  else if kind = "untracked".toList then some .untracked
  else if kind = "none".toList then some .unavailable
  else none

def file (value : Json Str) : Option Report.File := do
  let path ← required "path" string value
  let relativePath ← required "relativePath" string value
  let language ← required "language" string value
  let exercise ← optional "exercise" string value
  let cursor ← optional "cursor" cursor value
  let dirty ← orElse "dirty" bool value false
  let content ← required "content" string value
  let truncated ← orElse "truncated" bool value false
  let baseline ← required "baseline" baseline value
  return { path, relativePath, language, exercise, cursor, dirty, content, truncated, baseline }

def state (value : Json Str) : Option Report.State := do
  let state ← required "state" string value
  if state = "declined".toList then some .declined
  else if state = "empty".toList then some .empty
  else if state = "cursor".toList then do
    let basis ← required "basis" (unsigned 64) value
    let cursor ← required "cursor" cursor value
    return .cursor basis cursor
  else if state = "file".toList then (file value).map .file
  else none

def report (value : Json Str) : Option Report := do
  let student ← required "student" student value
  let state ← state value
  return { student, state }

end Deserialize

/-- What the server makes of a posted text. -/
def Report.fromText (text : Str) : Option Report :=
  (Json.parse text).bind Deserialize.report

/-! ### What the editor writes -/

namespace Editor

section Json

variable {Text : Type} (key : String → Text)

def jsonPosition (line character : String) (position : Position) : Json Text :=
  .object
    [(key line, .number (.ofNat position.line)),
      (key character, .number (.ofNat position.character))]

def jsonHunk (oldStart newStart : Nat) (lines : List Text) : Json Text :=
  .object
    [(key "oldStart", .number (.ofNat oldStart)), (key "newStart", .number (.ofNat newStart)),
      (key "lines", .array (lines.map .string))]

def jsonHead (hunks : List (Json Text)) : Json Text :=
  .object [(key "kind", .string (key "head")), (key "hunks", .array hunks)]

def jsonKind (kind : String) : Json Text :=
  .object [(key "kind", .string (key kind))]

/-- The members of a report; those that are undefined are left out. -/
def jsonFile (student path relativePath language : Text) (exercise : Option Text)
    (cursor : Option Position) (dirty : Bool) (content : Text) (truncated : Bool)
    (baseline : Json Text) : Json Text :=
  .object
    ([(key "student", .string student), (key "state", .string (key "file")),
        (key "path", .string path), (key "relativePath", .string relativePath),
        (key "language", .string language)] ++
      (exercise.toList.map fun exercise => (key "exercise", .string exercise)) ++
      (cursor.toList.map fun cursor => (key "cursor", jsonPosition key "line" "column" cursor)) ++
      [(key "dirty", .bool dirty), (key "content", .string content)] ++
      (if truncated then [(key "truncated", .bool true)] else []) ++
      [(key "baseline", baseline)])

end Json

def jsonBaseline : Baseline → Json JsString
  | .head hunks =>
      jsonHead js (hunks.map fun hunk => jsonHunk js hunk.oldStart hunk.newStart hunk.lines)
  | .untracked => jsonKind js "untracked"
  | .none => jsonKind js "none"

/-- The report as it is posted: `JSON.stringify({ student, ...file })`. -/
def reportText (student : JsString) (file : OpenFile) : Str :=
  Json.stringify (jsonFile js student file.path file.relativePath file.language file.exercise
    file.cursor file.dirty file.content file.truncated (jsonBaseline file.baseline))

end Editor

end Hermione
