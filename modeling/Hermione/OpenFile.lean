import Hermione.Utf16

/-!
# What the editor sends of an open file

The student's editor reports the buffer, where the caret is and how the buffer
differs from the last commit.  Git is asked about a file once per commit, and the
last comparison is kept, so that most reports need neither.

Strings of the editor are lists of UTF-16 units, and lengths are numbers of units.
-/

namespace Hermione

abbrev JsString := List UInt16

instance : LawfulBEq JsString :=
  inferInstance

/-- A string literal. -/
def js (text : String) : JsString :=
  Utf16.encode text.toList

namespace Editor

/-- Past this the buffer is cut short, and flagged. -/
def MAX_CONTENT_CHARS : Nat :=
  200000

/-- Lines of unchanged context kept around each change. -/
def DIFF_CONTEXT : Nat :=
  3

/-- How long "git has no such file" is believed for, in milliseconds. -/
def ABSENT_TTL_MS : Int :=
  10000

/-- Files whose committed text is kept. -/
def CACHE_LIMIT : Nat :=
  32

/-- One run of changes.  Each line starts with its sign. -/
structure Hunk where
  oldStart : Nat
  newStart : Nat
  lines : List JsString
  deriving DecidableEq

/-- What the buffer is compared against. -/
inductive Baseline where
  | head (hunks : List Hunk)
  | untracked
  | none
  deriving DecidableEq

/-- A place in a document, counted from 0. -/
structure Position where
  line : Nat
  character : Nat
  deriving DecidableEq

/-- Where a file belongs. -/
@[ext]
structure Where where
  relativePath : JsString
  exercise : Option JsString
  deriving DecidableEq

/-- A whole-file report, as far as the editor builds it.  The cursor is 1-based. -/
structure OpenFile where
  path : JsString
  relativePath : JsString
  language : JsString
  exercise : Option JsString
  cursor : Option Position
  dirty : Bool
  content : JsString
  truncated : Bool
  baseline : Baseline
  deriving DecidableEq

/-- A buffer, as it is at some moment. -/
structure Document where
  /-- Which opening of a document it is.  One that is closed and opened again counts its
  versions anew. -/
  opened : Nat
  text : JsString
  version : Nat
  isDirty : Bool
  languageId : JsString

/-- The document the student is looking at, and the editor showing it. -/
structure Target (Uri : Type) where
  doc : Document
  /-- The active end of the selection, if an editor has the document focused. -/
  active : Option Position
  /-- The `file:` URI the document belongs to. -/
  uri : Uri
  /-- True for a notebook cell, whose buffer is not the file on disk. -/
  cell : Bool

/-- What is the same at all moments between two reloads of the settings: how URIs
are located, what commits hold, and how jsdiff compares two texts. -/
structure Surroundings (Uri : Type) where
  fsPath : Uri → JsString
  locate : Uri → Where
  /-- A file's text at a commit, if the commit has such a file. -/
  textAt : JsString → JsString → Option JsString
  /-- The hunks of `structuredPatch`, with so many lines of context.  The names it
  is given as well only label the patch. -/
  structuredPatch : Nat → JsString → JsString → List Hunk

/-- One moment at which a report is built, or its key. -/
structure Moment (Uri : Type) where
  target : Target Uri
  /-- The repository of the target, if git is there and knows one; on an unborn
  branch it has no commit. -/
  repository : Option (Option JsString)
  /-- Git does not get to answer, because of a lock or a race. -/
  fails : Bool
  /-- When it is asked, and when it has answered, in milliseconds. -/
  asked : Int
  answered : Int

/-! ### The committed text -/

structure Entry where
  commit : JsString
  /-- `none` when the commit has no such file. -/
  committed : Option JsString
  time : Int

/-- The committed text of each file, in the order in which they were inserted. -/
abbrev BaselineCache := List (JsString × Entry)

namespace BaselineCache

def believed (now : Int) (entry : Entry) : Bool :=
  entry.committed.isSome || now - entry.time < ABSENT_TTL_MS

def delete (cache : BaselineCache) (file : JsString) : BaselineCache :=
  cache.filter fun entry => entry.1 ≠ file

/-- `Map.set` of a key that is not there: it comes last. -/
def set (cache : BaselineCache) (file : JsString) (entry : Entry) : BaselineCache :=
  cache.delete file ++ [(file, entry)]

/-- The file's text at the commit, or `none` if that commit has none. -/
def get (cache : BaselineCache) (asked answered : Int) (file : JsString)
    (commit : Option JsString) (load : Option JsString) : Option JsString × BaselineCache :=
  match commit with
  | none => (load, cache)
  | some commit =>
      match (cache.lookup file).filter fun hit => hit.commit = commit ∧ believed asked hit with
      | some hit => (hit.committed, cache.set file hit)
      | none =>
          let stored := cache.set file { commit, committed := load, time := answered }
          (load, if CACHE_LIMIT < stored.length then stored.tail else stored)

end BaselineCache

/-! ### The last comparison -/

structure Comparison where
  file : JsString
  commit : JsString
  buffer : JsString
  hunks : List Hunk

/-- The last comparison, reused while it is still the answer. -/
abbrev DiffMemo := Option Comparison

def DiffMemo.get (memo : DiffMemo) (file commit buffer : JsString) (compute : List Hunk) :
    List Hunk × DiffMemo :=
  match memo with
  | some last =>
      if last.file = file ∧ last.commit = commit ∧ last.buffer = buffer then (last.hunks, memo)
      else (compute, some { file, commit, buffer, hunks := compute })
  | none => (compute, some { file, commit, buffer, hunks := compute })

/-! ### The report -/

/-- What the last commit says about a file. -/
inductive Committed where
  | noRepo
  | absent
  | text (text commit : JsString)

structure Caches where
  baselines : BaselineCache
  diffs : DiffMemo

def Caches.empty : Caches :=
  { baselines := [], diffs := none }

section Reports

variable {Uri : Type} (around : Surroundings Uri)

/-- Diffs a buffer against a committed file. -/
def diffHunks (committed buffer : JsString) : List Hunk :=
  (around.structuredPatch DIFF_CONTEXT committed buffer).map fun h =>
    { h with lines := h.lines.filter fun line => line.head? ≠ some 0x5C }

/-- What `show` answers about the target, or `none` where it rejects. -/
def shown (moment : Moment Uri) : Option JsString :=
  if moment.fails then none
  else
    match moment.repository with
    | some (some commit) => around.textAt commit (around.fsPath moment.target.uri)
    | _ => none

/-- What is found of the target's commit, by asking git or without. -/
def found (cache : BaselineCache) (moment : Moment Uri) (commit : Option JsString) :
    Option JsString × BaselineCache :=
  cache.get moment.asked moment.answered (around.fsPath moment.target.uri) commit
    (shown around moment)

def committed (cache : BaselineCache) (moment : Moment Uri) : Committed × BaselineCache :=
  match moment.repository with
  | none => (.noRepo, cache)
  | some commit =>
      let (text, cache) := found around cache moment commit
      match text, commit with
      | some text, some commit => (.text text commit, cache)
      -- No commit at all means nothing can have been committed.
      | _, _ => (.absent, cache)

def baselineFor (caches : Caches) (moment : Moment Uri) : Baseline × Caches :=
  if moment.target.cell then (.none, caches)
  else
    match committed around caches.baselines moment with
    | (.noRepo, baselines) => (.none, { caches with baselines })
    | (.absent, baselines) => (.untracked, { caches with baselines })
    | (.text old commit, baselines) =>
        let text := moment.target.doc.text
        let (hunks, diffs) := caches.diffs.get (around.fsPath moment.target.uri) commit text
          (diffHunks around old text)
        (.head hunks, { baselines, diffs })

/-- Builds the report for a file the student has open. -/
def buildOpenFile (caches : Caches) (moment : Moment Uri) : OpenFile × Caches :=
  let target := moment.target
  let text := target.doc.text
  let truncated := MAX_CONTENT_CHARS < text.length
  let (baseline, caches) :=
    if truncated then (.none, caches) else baselineFor around caches moment
  ({ path := around.fsPath target.uri
     relativePath := (around.locate target.uri).relativePath
     language := target.doc.languageId
     exercise := (around.locate target.uri).exercise
     cursor := target.active.map fun caret =>
       { line := caret.line + 1, character := caret.character + 1 }
     dirty := target.doc.isDirty
     content := if truncated then text.take MAX_CONTENT_CHARS else text
     truncated
     baseline }, caches)

/-- What a whole-file report was built from, in one string. -/
def snapshotKey (moment : Moment Uri) : JsString :=
  let commit := (moment.repository.bind id).getD []
  let doc := moment.target.doc
  (js "|").intercalate
    [around.fsPath moment.target.uri, js (toString doc.version),
      js (if doc.isDirty then "true" else "false"), doc.languageId, commit]

/-- The caches after some reports. -/
def run (caches : Caches) (moments : List (Moment Uri)) : Caches :=
  moments.foldl (fun caches moment => (buildOpenFile around caches moment).2) caches

end Reports

end Editor

end Hermione
