import Hermione.Highlight
import Hermione.Intraline
import Hermione.Report

/-!
# A student's working changes, ready to draw

The dashboard is sent rows, not raw diff lines: each knows its sign, its line
numbers and its own spans.  Context and added lines read their spans out of the
buffer's highlight by number; removed lines exist in no buffer, so a hunk's old
side is highlighted as one fragment and walked in step with its lines.

Numbers are unbounded here.  Indexing past the end of a list, or cutting a
character, panics in the source and has no value in these functions.
-/

namespace Hermione

open Utf8

/-- Most rows one snapshot carries. -/
def maxRows : Nat := 2000

/-- How the buffer was coloured, and the grammar its spans came from. -/
structure Colour (syntect : Syntect) where
  buffer : Highlighted
  grammar : Grammar syntect

/-- One line of a hunk.  A row's shape follows from its sign. -/
inductive Row where
  | context (old new : Nat) (spans : Line)
  | added (new : Nat) (spans : Line)
  | removed (old : Nat) (spans : Line)
  deriving DecidableEq

namespace Row

def spans : Row → Line
  | context _ _ spans | added _ spans | removed _ spans => spans

def withSpans : Row → Line → Row
  | context old new _, spans => context old new spans
  | added new _, spans => added new spans
  | removed old _, spans => removed old spans

def mark (row : Row) (ranges : List ByteRange) : Option Row :=
  (row.spans.marked ranges).map row.withSpans

def isAdded : Row → Bool
  | added _ _ => true
  | _ => false

def isRemoved : Row → Bool
  | removed _ _ => true
  | _ => false

/-- The row's line number in the committed file. -/
def oldNumber : Row → Option Nat
  | context old _ _ | removed old _ => some old
  | added _ _ => none

/-- The row's line number in the buffer. -/
def newNumber : Row → Option Nat
  | context _ new _ | added new _ => some new
  | removed _ _ => none

end Row

namespace Diff

/-- `candidate` if it really is the text's spans, otherwise the text plain. -/
def spans (candidate : Option Line) (text : Str) : Line :=
  (candidate.filter fun line => line.rebuilds text).getD (Line.plain text)

section Words

variable (words : WordDiff)

/-- How many lines from `position` on pass a test before one does not. -/
def run (lines : List Report.DiffLine) (position : Nat)
    (is : Report.DiffLine → Bool) : Nat :=
  ((lines.drop position).takeWhile is).length

def markRow (rows : List Row) (index : Nat) (ranges : List ByteRange) :
    Option (List Row) :=
  rows[index]?.bind fun row => (row.mark ranges).map fun marked => rows.set index marked

/-- Marks a removed line and the added one it is paired with. -/
def markPair (lines : List Report.DiffLine) (rows : List Row) (gone came : Nat) :
    Option (List Row) :=
  match lines[gone]?, lines[came]? with
  | some (.removed old), some (.added new) =>
      (Intraline.changes words old new).bind fun answer =>
        match answer with
        | some changes =>
            (markRow rows gone changes.old).bind fun rows => markRow rows came changes.new
        | none => some rows
  | some _, some _ => some rows
  | _, _ => none

def markWordsFrom (lines : List Report.DiffLine) (position : Nat) (rows : List Row) :
    Option (List Row) :=
  if position < lines.length then
    let removed := run lines position Report.DiffLine.isRemoved
    let added := run lines (position + removed) Report.DiffLine.isAdded
    ((List.range (min removed added)).foldlM
        (fun rows k => markPair words lines rows (position + k) (position + removed + k))
        rows).bind fun rows =>
      markWordsFrom lines (position + max (removed + added) 1) rows
  else some rows
  termination_by lines.length - position

/-- Marks the words that differ between each removed line and the added line
that replaced it. -/
def markWords (lines : List Report.DiffLine) (rows : List Row) : Option (List Row) :=
  markWordsFrom words lines 0 rows

end Words

variable {syntect : Syntect}

def bufferLine (colour : Option (Colour syntect)) (number : Nat) (text : Str) : Line :=
  spans (colour.bind fun colour => colour.buffer.line number) text

/-- The loop over a hunk's lines.  `oldSide` is what is left of the old side's
highlight, when there is one. -/
def rowsFrom (colour : Option (Colour syntect)) :
    Option (List Line) → Nat → Nat → List Report.DiffLine → List Row
  | _, _, _, [] => []
  | oldSide, old, new, .context text :: lines =>
      -- The old-side cursor is kept level with the buffer's.
      .context old new (bufferLine colour new text) ::
        rowsFrom colour (oldSide.map List.tail) (old + 1) (new + 1) lines
  | oldSide, old, new, .added text :: lines =>
      .added new (bufferLine colour new text) ::
        rowsFrom colour oldSide old (new + 1) lines
  | oldSide, old, new, .removed text :: lines =>
      .removed old (spans (oldSide.bind List.head?) text) ::
        rowsFrom colour (oldSide.map List.tail) (old + 1) new lines

end Diff

/-- A run of changes with the context around it. -/
structure Hunk where
  oldStart : Nat
  oldLines : Nat
  newStart : Nat
  newLines : Nat
  rows : List Row
  deriving DecidableEq

namespace Hunk

/-- The hunk's old side, highlighted as one fragment when it has removed lines. -/
def oldSide (colour : Option (Colour syntect)) (hunk : Report.Hunk) :
    Option (List Line) :=
  (colour.filter fun _ => hunk.lines.any Report.DiffLine.isRemoved).bind fun colour =>
    (colour.grammar.highlight 0
      (hunk.lines.filterMap Report.DiffLine.oldText)).toOption.map Highlighted.lines

def new (words : WordDiff) (hunk : Report.Hunk) (colour : Option (Colour syntect)) :
    Option Hunk :=
  (Diff.markWords words hunk.lines
      (Diff.rowsFrom colour (oldSide colour hunk) hunk.oldStart hunk.newStart
        hunk.lines)).map fun rows =>
    { oldStart := hunk.oldStart
      oldLines := rows.countP fun row => !row.isAdded
      newStart := hunk.newStart
      newLines := rows.countP fun row => !row.isRemoved
      rows }

end Hunk

/-- The buffer's differences from the last commit. -/
structure Diff where
  added : Nat
  removed : Nat
  hunks : List Hunk
  truncated : Bool
  deriving DecidableEq

namespace Diff

/-- The loop over the hunks: once the budget runs out, everything after it goes
too. -/
def keep (words : WordDiff) (colour : Option (Colour syntect)) :
    Nat → Bool → List Hunk → List Report.Hunk → Option (List Hunk × Bool)
  | _, truncated, kept, [] => some (kept, truncated)
  | budget, truncated, kept, hunk :: hunks =>
      if truncated = true ∨ budget < hunk.lines.length then
        keep words colour budget true kept hunks
      else
        (Hunk.new words hunk colour).bind fun drawn =>
          keep words colour (budget - hunk.lines.length) truncated (kept ++ [drawn]) hunks

def new (words : WordDiff) (hunks : List Report.Hunk)
    (colour : Option (Colour syntect)) : Option Diff :=
  (keep words colour maxRows false [] hunks).map fun outcome =>
    { added := (hunks.flatMap Report.Hunk.lines).countP Report.DiffLine.isAdded
      removed := (hunks.flatMap Report.Hunk.lines).countP Report.DiffLine.isRemoved
      hunks := outcome.1
      truncated := outcome.2 }

end Diff

end Hermione
