import Hermione.EditScripts
import Hermione.Student

/-!
# What a student's editor posts

These types only ever come out of a deserializer, and only carry what an editor
can truthfully know; anything derivable is worked out by the server.
-/

namespace Hermione

/-- A 1-based line or column. -/
abbrev NonZeroU32 := { number : Nat // 0 < number ∧ number < 2 ^ 32 }

/-- Where the caret is. -/
structure Cursor where
  line : NonZeroU32
  column : NonZeroU32
  deriving DecidableEq

def Cursor.start : Cursor :=
  { line := ⟨1, by decide⟩, column := ⟨1, by decide⟩ }

namespace Report

/-- One line of a hunk, with its sign taken off. -/
inductive DiffLine where
  | context (text : Str)
  | added (text : Str)
  | removed (text : Str)
  deriving DecidableEq

/-- A diff line whose first character wasn't a space, a plus or a minus. -/
structure BadSign where
  sign : Option Char
  deriving DecidableEq

namespace DiffLine

def tryFrom : Str → Except BadSign DiffLine
  | ' ' :: text => .ok (context text)
  | '+' :: text => .ok (added text)
  | '-' :: text => .ok (removed text)
  | line => .error ⟨line.head?⟩

def text : DiffLine → Str
  | context text | added text | removed text => text

/-- The line's text in the committed file, or none if it isn't there. -/
def oldText : DiffLine → Option Str
  | context text | removed text => some text
  | added _ => none

def newText : DiffLine → Option Str
  | context text | added text => some text
  | removed _ => none

def isContext : DiffLine → Bool
  | context _ => true
  | _ => false

def isAdded : DiffLine → Bool
  | added _ => true
  | _ => false

def isRemoved : DiffLine → Bool
  | removed _ => true
  | _ => false

def toChange : DiffLine → EditScripts.Change Str
  | context text => .context text
  | added text => .added text
  | removed text => .removed text

def ofChange : EditScripts.Change Str → DiffLine
  | .context text => context text
  | .added text => added text
  | .removed text => removed text

@[simp]
theorem toChange_ofChange (change : EditScripts.Change Str) :
    (ofChange change).toChange = change := by
  cases change <;> rfl

end DiffLine

/-- One run of changes.  Both starts are 1-based lines, of the committed file
and of the buffer. -/
structure Hunk where
  oldStart : Nat
  newStart : Nat
  lines : List DiffLine
  deriving DecidableEq

def Hunk.toPatch (hunk : Hunk) : EditScripts.Hunk Str :=
  { oldStart := hunk.oldStart, newStart := hunk.newStart,
    changes := hunk.lines.map DiffLine.toChange }

/-- What the buffer is compared against. -/
inductive Baseline where
  | head (hunks : List Hunk)
  | untracked
  | unavailable
  deriving DecidableEq

structure File where
  path : Str
  relativePath : Str
  language : Str
  exercise : Option Str
  cursor : Option Cursor
  dirty : Bool
  content : Str
  truncated : Bool
  baseline : Baseline
  deriving DecidableEq

/-- An unsaved file in no known language, as an editor reports it. -/
def plainFile (content : Str) : File :=
  { path := "/w/notes.zzz".toList
    relativePath := "notes.zzz".toList
    language := "zzz".toList
    exercise := none
    cursor := none
    dirty := true
    content
    truncated := false
    baseline := .untracked }

/-- One editor's answer to a snapshot request. -/
inductive State where
  | declined
  | empty
  /-- Only the caret has moved since the snapshot the server numbered `basis`. -/
  | cursor (basis : Nat) (cursor : Cursor)
  | file (file : File)
  deriving DecidableEq

end Report

/-- A report and who says they are sending it. -/
structure Report where
  student : Student
  state : Report.State
  deriving DecidableEq

end Hermione
