import Hermione.EditScripts
import Hermione.RustStrings

/-!
# Which words changed inside a line that was edited

The answer is byte ranges into each line, at word granularity.  The diff of the
two token lists is the `similar` crate's, and which characters are letters or
digits is Unicode's; both are parameters.  A slice that would panic has no
value here, so that the functions are partial exactly where the code can panic.
-/

namespace Hermione

open Utf8 EditScripts

/-- What the comparison of two lines rests on. -/
structure WordDiff where
  isAlphanumeric : Char → Bool
  /-- `capture_diff_slices` with Myers' algorithm, on the words of two lines. -/
  captureDiffSlices : List Str → List Str → List Op

/-- `capture_diff_slices` answers an ordered edit script over the two lists. -/
def WordDiff.Valid (words : WordDiff) : Prop :=
  ∀ old new, ValidScript old new (words.captureDiffSlices old new)

namespace Intraline

/-- Lines longer than this many bytes aren't compared. -/
def maxLine : Nat := 400

/-- What changed between an old line and the line that replaced it. -/
structure Changes where
  old : List ByteRange
  new : List ByteRange
  deriving DecidableEq, Repr

inductive Kind where
  | word
  | space
  | symbol
  deriving DecidableEq, Repr

variable (words : WordDiff)

def kind (char : Char) : Kind :=
  if words.isAlphanumeric char || char == '_' then .word
  else if Str.isWhitespace char then .space
  else .symbol

/-- Add the character at byte `offset` to the tokens so far. -/
def pushToken (out : List ByteRange) (last : Option Kind) (offset : Nat)
    (char : Char) : List ByteRange :=
  let stop := offset + char.utf8Size
  match out.getLast? with
  | some run =>
      -- Symbols never merge.
      if last = some (kind words char) ∧ kind words char ≠ .symbol then
        out.dropLast ++ [{ run with stop }]
      else out ++ [⟨offset, stop⟩]
  | none => out ++ [⟨offset, stop⟩]

def tokensFrom : List ByteRange → Option Kind → Nat → Str → List ByteRange
  | out, _, _, [] => out
  | out, last, offset, char :: line =>
      tokensFrom (pushToken words out last offset char) (some (kind words char))
        (offset + char.utf8Size) line

/-- Splits a line into words, whitespace runs and single symbols. -/
def tokens (line : Str) : List ByteRange :=
  tokensFrom words [] none 0 line

/-- The byte range a run of tokens occupies. -/
def span (tokens : List ByteRange) (start stop : Nat) : Option ByteRange :=
  tokens[start]?.bind fun first =>
    if stop = 0 then none
    else tokens[stop - 1]?.map fun last => ⟨first.start, last.stop⟩

/-- How much of a line is text rather than spacing, in bytes. -/
def weight (text : Str) : Nat :=
  String.utf8Len (text.filter fun char => !Str.isWhitespace char)

/-- Joins a range to the ranges so far, when nothing but whitespace lies between
it and the last of them. -/
def joinRange (line : Str) (out : List ByteRange) (range : ByteRange) :
    Option (List ByteRange) :=
  match out.getLast? with
  | some last =>
      (slice line ⟨last.stop, range.start⟩).map fun between =>
        if between.all Str.isWhitespace then
          out.dropLast ++ [{ last with stop := range.stop }]
        else out ++ [range]
  | none => some (out ++ [range])

def joinFrom (line : Str) : List ByteRange → List ByteRange → Option (List ByteRange)
  | out, [] => some out
  | out, range :: ranges =>
      (joinRange line out range).bind fun out => joinFrom line out ranges

def join (ranges : List ByteRange) (line : Str) : Option (List ByteRange) :=
  joinFrom line [] ranges

/-- Whether the ranges leave nothing of the line unmarked. -/
def covers (ranges : List ByteRange) (line : Str) : Bool :=
  let trimmed := Str.trim line
  if trimmed = [] then true
  else
    let start := Str.len line - Str.len (Str.trimStart line)
    let stop := start + Str.len trimmed
    ranges.any fun range => range.start ≤ start && stop ≤ range.stop

/-- What the loop over the operations has gathered. -/
structure Gathered where
  gone : List ByteRange
  added : List ByteRange
  shared : Nat

def gather (old : Str) (oldTokens newTokens : List ByteRange) :
    Gathered → List Op → Option Gathered
  | gathered, [] => some gathered
  | gathered, op :: ops =>
      let oldSpan := span oldTokens op.oldIndex (op.oldIndex + op.oldLen)
      let newSpan := span newTokens op.newIndex (op.newIndex + op.newLen)
      match op with
      | .equal _ _ _ =>
          match oldSpan with
          | none => gather old oldTokens newTokens gathered ops
          | some range =>
              (slice old range).bind fun text =>
                gather old oldTokens newTokens
                  { gathered with shared := gathered.shared + weight text } ops
      | _ =>
          gather old oldTokens newTokens
            { gathered with
              gone := gathered.gone ++ oldSpan.toList
              added := gathered.added ++ newSpan.toList } ops

/-- The words that differ between two versions of a line.  The outer option is
whether every slice on the way exists; the inner one whether marking says
anything. -/
def changes (old new : Str) : Option (Option Changes) :=
  if old = new ∨ maxLine < Str.len old ∨ maxLine < Str.len new then some none
  else do
    let oldTokens := tokens words old
    let newTokens := tokens words new
    let oldWords ← oldTokens.mapM (slice old)
    let newWords ← newTokens.mapM (slice new)
    let gathered ← gather old oldTokens newTokens ⟨[], [], 0⟩
      (words.captureDiffSlices oldWords newWords)
    if gathered.shared * 2 < min (weight old) (weight new) then some none
    else do
      let oldMarks ← join gathered.gone old
      let newMarks ← join gathered.added new
      if covers oldMarks old || covers newMarks new then some none
      else some (some ⟨oldMarks, newMarks⟩)

end Intraline

end Hermione
