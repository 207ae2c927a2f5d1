import Hermione.EventRuns
import Hermione.FaithfulDiff

/-!
# One student's editor at one moment

What an editor sends is a report; a snapshot is what the server made of it:
clamped to size, highlighted, its diff turned into rows.  A report is turned
into a snapshot on top of a previous one, whose highlight is kept when the text,
the language and the path are the same.
-/

namespace Hermione

open Utf8

/-- Most buffer text the server will hold, whatever the editor sent. -/
def maxContentBytes : Nat := 256 * 1024

/-- The buffer's text, never over the size cap. -/
structure Text where
  content : Str
  truncated : Bool
  capped : Str.len content ≤ maxContentBytes
  deriving DecidableEq

namespace Text

/-- The last character boundary up to a byte. -/
def boundaryUpTo (content : Str) : Nat → Nat
  | 0 => 0
  | stop + 1 =>
      if isCharBoundary content (stop + 1) = true then stop + 1
      else boundaryUpTo content stop

theorem boundaryUpTo_le (content : Str) (stop : Nat) :
    boundaryUpTo content stop ≤ stop := by
  induction stop with
  | zero => exact Nat.le_refl _
  | succ stop ih =>
      unfold boundaryUpTo
      split
      · exact Nat.le_refl _
      · omega

theorem isCharBoundary_boundaryUpTo (content : Str) (stop : Nat) :
    isCharBoundary content (boundaryUpTo content stop) = true := by
  induction stop with
  | zero => exact isCharBoundary_zero content
  | succ stop ih =>
      unfold boundaryUpTo
      split
      · assumption
      · exact ih

/-- A text of the size cap at most, cut on a character boundary. -/
def new (content : Str) (cutByEditor : Bool) : Option Text :=
  if small : Str.len content ≤ maxContentBytes then
    some { content, truncated := cutByEditor, capped := small }
  else
    match cut : splitAt content (boundaryUpTo content maxContentBytes) with
    | some halves =>
        some
          { content := halves.1
            truncated := true
            capped := by
              obtain ⟨_, width⟩ := splitAt_eq_some_iff.mp cut
              have bound := boundaryUpTo_le content maxContentBytes
              unfold Str.len
              omega }
    | none => none

/-- The cut never falls inside a character. -/
theorem exists_new (content : Str) (cutByEditor : Bool) :
    ∃ text, new content cutByEditor = some text := by
  unfold new
  split
  · exact ⟨_, rfl⟩
  · split
    · exact ⟨_, rfl⟩
    · rename_i missing
      have boundary := isCharBoundary_boundaryUpTo content maxContentBytes
      simp [isCharBoundary, missing] at boundary

/-- Split exactly as the browser splits it. -/
def lines (text : Text) : List Str :=
  Str.split '\n' text.content

end Text

/-- What the buffer is compared against. -/
inductive Baseline where
  | head (diff : Diff)
  | untracked
  | unavailable
  deriving DecidableEq

/-- The file a student has open. -/
structure File where
  path : Str
  relativePath : Str
  language : Str
  exercise : Option Str
  cursor : Option Cursor
  dirty : Bool
  text : Text
  highlight : Option Highlighted
  baseline : Baseline
  deriving DecidableEq

/-- What a student's editor answered with. -/
inductive Snapshot where
  | declined
  | empty
  | file (file : File)
  deriving DecidableEq

/-- A text detected and highlighted from nothing. -/
def freshHighlight (syntect : Syntect) (text : Text) (language relativePath : Str) :
    Option Highlighted :=
  (Grammar.detect syntect language relativePath).bind fun grammar =>
    (grammar.highlight text.lines.length text.lines).toOption

namespace File

/-- Whether this file's highlight is also the right one for another text. -/
def coloursLike (file : File) (text : Text) (language relativePath : Str) : Bool :=
  file.text.content == text.content && file.language == language &&
    file.relativePath == relativePath

def fromReport (words : WordDiff) (syntect : Syntect) (report : Report.File)
    (previous : Option File) : Option File := do
  let text ← Text.new report.content report.truncated
  let grammar := Grammar.detect syntect report.language report.relativePath
  let highlight :=
    match previous.filter fun file =>
        file.coloursLike text report.language report.relativePath with
    | some file => file.highlight
    | none =>
        grammar.bind fun grammar =>
          (grammar.highlight text.lines.length text.lines).toOption
  let colour := grammar.bind fun grammar =>
    highlight.map fun buffer => ({ buffer, grammar } : Colour syntect)
  let baseline ←
    match report.baseline with
    | .head hunks => (Diff.new words hunks colour).map Baseline.head
    | .untracked => some Baseline.untracked
    | .unavailable => some Baseline.unavailable
  some
    { path := report.path
      relativePath := report.relativePath
      language := report.language
      exercise := report.exercise
      cursor := report.cursor
      dirty := report.dirty
      text
      highlight
      baseline }

/-- This file with the caret somewhere else. -/
def withCursor (file : File) (cursor : Cursor) : File :=
  { file with cursor := some cursor }

/-- A file's highlight is what its own text, language and path give. -/
def Fresh (syntect : Syntect) (file : File) : Prop :=
  file.highlight = freshHighlight syntect file.text file.language file.relativePath

end File

namespace Snapshot

def cursor : Snapshot → Option Cursor
  | .file shown => shown.cursor
  | _ => none

/-- Turns a report into something to show, on top of the student's last
snapshot. -/
def fromReport (words : WordDiff) (syntect : Syntect) (state : Report.State)
    (previous : Option Snapshot) : Option Snapshot :=
  match state with
  | .declined => some declined
  | .empty => some empty
  | .cursor _ cursor =>
      match previous with
      | some (.file last) => some (.file (last.withCursor cursor))
      | _ => some empty
  | .file report =>
      let previous :=
        match previous with
        | some (.file last) => some last
        | _ => none
      (File.fromReport words syntect report previous).map .file

/-- The file in a snapshot, if there is one, is freshly highlighted. -/
def Fresh (syntect : Syntect) (snapshot : Snapshot) : Prop :=
  ∀ file, snapshot = .file file → file.Fresh syntect

end Snapshot

/-! ### One report -/

variable {words : WordDiff} {syntect : Syntect}

theorem lines_eq_of_coloursLike {file : File} {text : Text}
    {language relativePath : Str}
    (like : file.coloursLike text language relativePath = true) :
    freshHighlight syntect file.text file.language file.relativePath =
      freshHighlight syntect text language relativePath := by
  unfold File.coloursLike at like
  simp only [Bool.and_eq_true, beq_iff_eq] at like
  obtain ⟨⟨contentEq, rfl⟩, rfl⟩ := like
  unfold freshHighlight Text.lines
  rw [contentEq]

/-- A reported file never fails to become one, and is freshly highlighted
whenever the previous one was. -/
theorem File.exists_fromReport (valid : words.Valid) (report : Report.File)
    {previous : Option File} (fresh : ∀ last, previous = some last → last.Fresh syntect) :
    ∃ file, File.fromReport words syntect report previous = some file ∧
      file.Fresh syntect := by
  obtain ⟨text, textEq⟩ := Text.exists_new report.content report.truncated
  have highlighted :
      (match previous.filter fun file =>
          file.coloursLike text report.language report.relativePath with
        | some file => file.highlight
        | none =>
            (Grammar.detect syntect report.language report.relativePath).bind fun grammar =>
              (grammar.highlight text.lines.length text.lines).toOption) =
        freshHighlight syntect text report.language report.relativePath := by
    split
    · rename_i last kept
      obtain ⟨isLast, like⟩ := Option.filter_eq_some_iff.mp kept
      rw [fresh last isLast]
      exact lines_eq_of_coloursLike like
    · rfl
  unfold File.fromReport
  simp only [textEq, Option.bind_eq_bind, Option.bind_some, highlighted]
  split
  · rename_i hunks _
    obtain ⟨diff, diffEq, _⟩ := Diff.new_shows valid hunks
      ((Grammar.detect syntect report.language report.relativePath).bind fun grammar =>
        (freshHighlight syntect text report.language report.relativePath).map
          fun buffer => ({ buffer, grammar } : Colour syntect))
    rw [diffEq, Option.map_some, Option.bind_some]
    exact ⟨_, rfl, rfl⟩
  · exact ⟨_, rfl, rfl⟩
  · exact ⟨_, rfl, rfl⟩

theorem Snapshot.exists_fromReport (valid : words.Valid) (state : Report.State)
    {previous : Option Snapshot}
    (fresh : ∀ last, previous = some last → last.Fresh syntect) :
    ∃ snapshot, Snapshot.fromReport words syntect state previous = some snapshot ∧
      snapshot.Fresh syntect := by
  cases state with
  | declined => exact ⟨.declined, rfl, by intro last equal; simp at equal⟩
  | empty => exact ⟨.empty, rfl, by intro last equal; simp at equal⟩
  | cursor basis cursor =>
      unfold Snapshot.fromReport
      dsimp only
      split
      · rename_i last
        refine ⟨_, rfl, ?_⟩
        intro moved equal
        rw [← Snapshot.file.inj equal]
        exact fresh _ rfl last rfl
      · exact ⟨.empty, rfl, by intro last equal; simp at equal⟩
  | file report =>
      unfold Snapshot.fromReport
      dsimp only
      have freshFile : ∀ last,
          (match previous with
            | some (.file last) => some last
            | _ => none) = some last → last.Fresh syntect := by
        intro last isLast
        split at isLast
        · rename_i file
          rw [← Option.some.inj isLast]
          exact fresh _ rfl file rfl
        · simp at isLast
      obtain ⟨file, fileEq, fileFresh⟩ := File.exists_fromReport valid report freshFile
      refine ⟨.file file, by rw [fileEq, Option.map_some], ?_⟩
      intro last equal
      rw [← Snapshot.file.inj equal]
      exact fileFresh

/-! ### A history of reports -/

open EventRuns

/-- A report, and which snapshot of the history so far it is taken on top of. -/
structure ReportEvent where
  previous : Option Nat
  state : Report.State

/-- The snapshot an event names among those of a history. -/
def ReportEvent.previousIn (event : ReportEvent) (history : List Snapshot) :
    Option Snapshot :=
  event.previous.bind fun index => history[index]?

/-- One more report, added to the history of snapshots. -/
def foldReport (words : WordDiff) (syntect : Syntect) (history : List Snapshot)
    (event : ReportEvent) : Option (List Snapshot) :=
  (Snapshot.fromReport words syntect event.state (event.previousIn history)).map
    fun snapshot => history ++ [snapshot]

/-- From a history of fresh snapshots every run of reports goes through, adds
one snapshot for each, made from the history before it, and stays fresh. -/
theorem run_foldReport (valid : words.Valid) (events : List ReportEvent)
    (history : List Snapshot) (fresh : ∀ snapshot ∈ history, snapshot.Fresh syntect) :
    ∃ added, run (foldReport words syntect) history events = some (history ++ added) ∧
      added.length = events.length ∧
      (∀ snapshot ∈ added, snapshot.Fresh syntect) ∧
      ∀ (n : Nat) event, events[n]? = some event →
        ∃ snapshot, added[n]? = some snapshot ∧
          Snapshot.fromReport words syntect event.state
            (event.previousIn (history ++ added.take n)) = some snapshot := by
  induction events generalizing history with
  | nil => exact ⟨[], by simp, rfl, by simp, by simp⟩
  | cons event events ih =>
      have freshPrevious : ∀ last, event.previousIn history = some last →
          last.Fresh syntect := by
        intro last found
        obtain ⟨index, _, foundAt⟩ := Option.bind_eq_some_iff.mp found
        exact fresh last (List.mem_of_getElem? foundAt)
      obtain ⟨snapshot, snapshotEq, snapshotFresh⟩ :=
        Snapshot.exists_fromReport valid event.state freshPrevious
      have freshNext : ∀ candidate ∈ history ++ [snapshot], candidate.Fresh syntect := by
        intro candidate member
        rcases List.mem_append.mp member with old | new
        · exact fresh candidate old
        · rw [List.mem_singleton.mp new]
          exact snapshotFresh
      obtain ⟨added, ran, sameLength, addedFresh, made⟩ := ih _ freshNext
      have stepped : foldReport words syntect history event = some (history ++ [snapshot]) := by
        rw [foldReport, snapshotEq, Option.map_some]
      refine ⟨snapshot :: added, ?_, by simp [sameLength], ?_, ?_⟩
      · rw [run_cons, stepped, Option.bind_some, ran]
        simp
      · intro candidate member
        rcases List.mem_cons.mp member with rfl | later
        · exact snapshotFresh
        · exact addedFresh candidate later
      · intro n other found
        cases n with
        | zero =>
            simp only [List.getElem?_cons_zero, Option.some.injEq] at found
            subst found
            exact ⟨snapshot, rfl, by simpa using snapshotEq⟩
        | succ n =>
            simp only [List.getElem?_cons_succ] at found
            simpa using made n other found

/-- Over every history, each file is highlighted as its own text, language and
path say, and a caret report on a file moves its caret only. -/
theorem run_foldReport_fresh (valid : words.Valid) (events : List ReportEvent) :
    ∃ history, run (foldReport words syntect) [] events = some history ∧
      history.length = events.length ∧
      (∀ file, .file file ∈ history → file.highlight =
        freshHighlight syntect file.text file.language file.relativePath) ∧
      ∀ (n index basis : Nat) cursor file,
        events[n]? = some ⟨some index, .cursor basis cursor⟩ → index < n →
          history[index]? = some (.file file) →
          history[n]? = some (.file { file with cursor := some cursor }) := by
  obtain ⟨history, ran, sameLength, fresh, made⟩ :=
    run_foldReport valid events [] (by simp)
  refine ⟨history, ran, sameLength, fun file member => fresh _ member file rfl, ?_⟩
  intro n index basis cursor file found earlier isFile
  obtain ⟨snapshot, snapshotAt, snapshotEq⟩ := made n _ found
  have named : ReportEvent.previousIn ⟨some index, .cursor basis cursor⟩
      ([] ++ history.take n) = some (.file file) := by
    simpa [ReportEvent.previousIn, List.getElem?_take, earlier] using isFile
  rw [named] at snapshotEq
  rw [snapshotAt, ← snapshotEq]
  rfl

/-- A parser with a grammar for `zzz`, that cuts the first character off a line. -/
def zzzGrammar : Syntect where
  SyntaxReference := Unit
  ParseState := Unit
  Ops := Unit
  ScopeStack := Bool
  ScopeStackOp := Bool
  Scope := Bool
  findSyntaxByName _ := none
  findSyntaxByToken token := if token = "zzz".toList then some () else none
  findSyntaxByExtension _ := none
  newParseState _ := ()
  parseLine _ _ := some ((), ())
  newScopeStack := false
  scopeRegions _ buf := [(buf.take 1, true), (buf.drop 1, false)]
  apply _ op := some op
  scopes stack := [stack]
  newScope name := some (name == "keyword")
  isPrefixOf rule scope := rule && scope

/-- A file, then the caret on its second line, and then the file again. -/
def caretMove : List ReportEvent :=
  [⟨none, .file (Report.plainFile "x = 1\n".toList)⟩,
    ⟨some 0, .cursor 1 ⟨⟨2, by decide⟩, Cursor.start.column⟩⟩,
    ⟨some 1, .file (Report.plainFile "x = 1\n".toList)⟩]

/-- The snapshot is of a file, in colours. -/
def Snapshot.coloured : Snapshot → Bool
  | .file shown => shown.highlight.isSome
  | _ => false

theorem run_foldReport_fresh_caretMove :
    ∃ history, run (foldReport leadingWords zzzGrammar) [] caretMove = some history ∧
      history.all Snapshot.coloured ∧
      history.length = caretMove.length ∧
      (∀ file, .file file ∈ history → file.highlight =
        freshHighlight zzzGrammar file.text file.language file.relativePath) ∧
      ∀ (n index basis : Nat) cursor file,
        caretMove[n]? = some ⟨some index, .cursor basis cursor⟩ → index < n →
          history[index]? = some (.file file) →
          history[n]? = some (.file { file with cursor := some cursor }) := by
  obtain ⟨history, ran, told⟩ := @run_foldReport_fresh _ zzzGrammar leadingWords_valid caretMove
  have coloured :
      (run (foldReport leadingWords zzzGrammar) [] caretMove).all (·.all Snapshot.coloured) =
        true := by
    decide +kernel
  rw [ran] at coloured
  exact ⟨history, ran, coloured, told⟩

end Hermione
