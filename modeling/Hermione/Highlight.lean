import Hermione.RustStrings

/-!
# Syntax highlighting

What comes out of the highlighter is spans, not colours: each line of a buffer
is a list of `(class, text)` pairs over a small vocabulary.  The grammars and
the parser are `syntect`'s, a parameter here; the loop that turns its regions
into lines, the marking of byte ranges and the check that spans rebuild a line
are the server's own.
-/

namespace Hermione

open Utf8

inductive Class where
  | plain
  | comment
  | string
  | number
  | keyword
  | function
  | type
  | operator
  deriving DecidableEq, Repr

/-- A run of characters sharing a class. -/
structure Span where
  cls : Class
  text : Str
  changed : Bool
  deriving DecidableEq

def Span.new (cls : Class) (text : Str) : Span :=
  { cls, text, changed := false }

/-- The part of a span at a range of bytes, keeping its class.  Slicing off a
character boundary panics. -/
def Span.piece (span : Span) (range : ByteRange) (changed : Bool) : Option Span :=
  (slice span.text range).map fun text => { cls := span.cls, text, changed }

/-- The spans of one line. -/
structure Line where
  spans : List Span
  deriving DecidableEq

namespace Line

def plain (text : Str) : Line :=
  if text = [] then ⟨[]⟩ else ⟨[Span.new .plain text]⟩

/-- What the spans of a line spell. -/
def text (line : Line) : Str :=
  line.spans.flatMap Span.text

/-- What lies between two bytes of a line, from a span starting at byte `start`,
unless it is empty. -/
def unmarkedPiece (span : Span) (start done stop : Nat) : Option (List Span) :=
  if done < stop then
    (span.piece ⟨done - start, stop - start⟩ false).map ([·])
  else some []

/-- The pieces of one span, which starts at byte `start` of its line: the inner
loop of `marked`, with everything before byte `done` already emitted. -/
def markSpan (span : Span) (start done : Nat) : List ByteRange → Option (List Span)
  | [] => unmarkedPiece span start done (start + Str.len span.text)
  | range :: ranges =>
      let stop := start + Str.len span.text
      let first := max range.start start
      let last := min range.stop stop
      if last ≤ first then
        markSpan span start done ranges
      else do
        let before ← unmarkedPiece span start done first
        let marked ← span.piece ⟨first - start, last - start⟩ true
        let rest ← markSpan span start last ranges
        some (before ++ marked :: rest)

/-- The outer loop of `marked`, over the spans from byte `start` on. -/
def markSpans (ranges : List ByteRange) : Nat → List Span → Option (List Span)
  | _, [] => some []
  | start, span :: spans => do
      let pieces ← markSpan span start start ranges
      let rest ← markSpans ranges (start + Str.len span.text) spans
      some (pieces ++ rest)

/-- The same line with byte ranges of its text marked as changed, splitting
spans where a range starts or ends. -/
def marked (line : Line) (ranges : List ByteRange) : Option Line :=
  (markSpans ranges 0 line.spans).map Line.mk

/-- Whether spans are exactly a text. -/
def rebuildsFrom : List Span → Str → Bool
  | [], rest => rest.isEmpty
  | span :: spans, rest =>
      match Str.stripPrefix span.text rest with
      | some after => rebuildsFrom spans after
      | none => false

def rebuilds (line : Line) (text : Str) : Bool :=
  rebuildsFrom line.spans text

end Line

/-- Every line of a highlighted buffer, in order.  Highlighting never marks
anything as changed. -/
structure Highlighted where
  lines : List Line
  unmarked : ∀ line ∈ lines, ∀ span ∈ line.spans, span.changed = false
  deriving DecidableEq

/-- The line at a 1-based screen line number. -/
def Highlighted.line (highlighted : Highlighted) (number : Nat) : Option Line :=
  if number = 0 then none else highlighted.lines[number - 1]?

/-- Why a buffer came back plain rather than coloured. -/
inductive HighlightError where
  | tooLong
  | badSyntax
  deriving DecidableEq, Repr

/-- What the highlighter uses of the `syntect` crate. -/
structure Syntect where
  SyntaxReference : Type
  ParseState : Type
  Ops : Type
  ScopeStack : Type
  ScopeStackOp : Type
  Scope : Type
  findSyntaxByName : Str → Option SyntaxReference
  findSyntaxByToken : Str → Option SyntaxReference
  findSyntaxByExtension : Str → Option SyntaxReference
  newParseState : SyntaxReference → ParseState
  /-- The operations a line makes on the scope stack and the state after it. -/
  parseLine : ParseState → Str → Option (Ops × ParseState)
  newScopeStack : ScopeStack
  /-- `ScopeRegionIterator`: the pieces of a line, each with the operation made
  before it. -/
  scopeRegions : Ops → Str → List (Str × ScopeStackOp)
  apply : ScopeStack → ScopeStackOp → Option ScopeStack
  scopes : ScopeStack → List Scope
  newScope : String → Option Scope
  isPrefixOf : Scope → Scope → Bool

def maxLines : Nat := 4000

/-- Language ids that name no syntax, and the nearest one that exists. -/
def languageAlias (language : Str) : Option String :=
  if language = "typescript".toList ∨ language = "typescriptreact".toList ∨
      language = "javascriptreact".toList then
    some "JavaScript"
  else if language = "shellscript".toList then some "Bourne Again Shell (bash)"
  else if language = "objective-cpp".toList then some "Objective-C++"
  else if language = "jsonc".toList ∨ language = "json5".toList then some "JSON"
  else none

/-- The highlighter's vocabulary, most specific first. -/
def scopeClasses : List (String × Class) :=
  [("comment", .comment), ("string", .string), ("constant", .number),
    ("keyword.operator", .operator), ("keyword", .keyword), ("storage", .keyword),
    ("entity.name.function", .function), ("support.function", .function),
    ("variable.function", .function), ("entity.name.type", .type),
    ("entity.name.class", .type), ("entity.name.struct", .type),
    ("support.type", .type), ("support.class", .type), ("entity.name.tag", .type)]

namespace Syntect

variable (syntect : Syntect)

def rules : List (syntect.Scope × Class) :=
  scopeClasses.filterMap fun rule =>
    (syntect.newScope rule.1).map fun scope => (scope, rule.2)

/-- The class for a scope stack: the innermost scope some rule covers. -/
def classify (stack : syntect.ScopeStack) : Class :=
  ((syntect.scopes stack).reverse.findSome? fun scope =>
    (syntect.rules.find? fun rule => syntect.isPrefixOf rule.1 scope).map
      Prod.snd).getD .plain

end Syntect

/-- A language to highlight in.  Holding one is proof a language was found. -/
structure Grammar (syntect : Syntect) where
  reference : syntect.SyntaxReference

/-- Append a run of text to the spans of a line, merging it into the last one
when they share a class. -/
def pushText (spans : List Span) (cls : Class) (text : Str) : List Span :=
  match spans.getLast? with
  | some last =>
      if last.cls = cls then
        spans.dropLast ++ [{ last with text := last.text ++ text }]
      else spans ++ [Span.new cls text]
  | none => [Span.new cls text]

namespace Grammar

variable {syntect : Syntect}

def detect (syntect : Syntect) (language path : Str) : Option (Grammar syntect) :=
  (((languageAlias language).bind fun name => syntect.findSyntaxByName name.toList)
    <|> syntect.findSyntaxByToken language
    <|> ((Str.split '.' path).getLast?.bind syntect.findSyntaxByExtension)).map
      Grammar.mk

/-- The loop over the regions of one line. -/
def highlightRegions :
    syntect.ScopeStack → List Span → List (Str × syntect.ScopeStackOp) →
      Option (List Span × syntect.ScopeStack)
  | stack, spans, [] => some (spans, stack)
  | stack, spans, (text, op) :: regions =>
      (syntect.apply stack op).bind fun stack =>
        let text := Str.trimEndMatches '\n' text
        if text = [] then highlightRegions stack spans regions
        else highlightRegions stack (pushText spans (syntect.classify stack) text) regions

/-- The loop over the lines, with `out` the lines done so far. -/
def highlightLines :
    syntect.ParseState → syntect.ScopeStack → List Line → List Str →
      Except HighlightError (List Line)
  | _, _, out, [] => .ok out
  | state, stack, out, line :: lines =>
      if out.length = maxLines then .error .tooLong
      else
        -- The parser wants the newline, but it must not reach the page.
        let buf := line ++ ['\n']
        match syntect.parseLine state buf with
        | none => .error .badSyntax
        | some (ops, state) =>
            match highlightRegions stack [] (syntect.scopeRegions ops buf) with
            | none => .error .badSyntax
            | some (spans, stack) => highlightLines state stack (out ++ [⟨spans⟩]) lines

end Grammar

/-! ### Highlighting marks nothing -/

def Unmarked (spans : List Span) : Prop :=
  ∀ span ∈ spans, span.changed = false

theorem unmarked_pushText {spans : List Span} (unmarked : Unmarked spans)
    (cls : Class) (text : Str) : Unmarked (pushText spans cls text) := by
  have appended : Unmarked (spans ++ [Span.new cls text]) := by
    intro span member
    rcases List.mem_append.mp member with old | new
    · exact unmarked span old
    · rw [List.mem_singleton.mp new]
      rfl
  unfold pushText
  split
  · rename_i last isLast
    split
    · intro span member
      rcases List.mem_append.mp member with old | new
      · exact unmarked span (List.dropLast_subset spans old)
      · rw [List.mem_singleton.mp new]
        exact unmarked last (List.mem_of_getLast? isLast)
    · exact appended
  · rename_i noLast
    rw [List.getLast?_eq_none_iff] at noLast
    subst noLast
    exact appended

namespace Grammar

variable {syntect : Syntect}

theorem unmarked_highlightRegions {stack final : syntect.ScopeStack}
    {spans result : List Span} {regions : List (Str × syntect.ScopeStackOp)}
    (unmarked : Unmarked spans)
    (highlighted : highlightRegions stack spans regions = some (result, final)) :
    Unmarked result := by
  induction regions generalizing stack spans with
  | nil =>
      simp only [highlightRegions, Option.some.injEq, Prod.mk.injEq] at highlighted
      exact highlighted.1 ▸ unmarked
  | cons region regions ih =>
      obtain ⟨text, op⟩ := region
      rw [highlightRegions] at highlighted
      obtain ⟨next, _, rest⟩ := Option.bind_eq_some_iff.mp highlighted
      dsimp only at rest
      split at rest
      · exact ih unmarked rest
      · exact ih (unmarked_pushText unmarked _ _) rest

theorem unmarked_highlightLines {state : syntect.ParseState}
    {stack : syntect.ScopeStack} {out result : List Line} {lines : List Str}
    (unmarked : ∀ line ∈ out, Unmarked line.spans)
    (highlighted : highlightLines state stack out lines = .ok result) :
    ∀ line ∈ result, Unmarked line.spans := by
  induction lines generalizing state stack out with
  | nil =>
      rw [highlightLines, Except.ok.injEq] at highlighted
      exact highlighted ▸ unmarked
  | cons line lines ih =>
      rw [highlightLines] at highlighted
      split at highlighted
      · simp at highlighted
      · dsimp only at highlighted
        split at highlighted
        · simp at highlighted
        · split at highlighted
          · simp at highlighted
          · rename_i spans next regions
            refine ih ?_ highlighted
            intro candidate member
            rcases List.mem_append.mp member with old | new
            · exact unmarked candidate old
            · rw [List.mem_singleton.mp new]
              exact unmarked_highlightRegions (by simp [Unmarked]) regions

/-- Highlight lines into one `Line` each.  `sizeHint` is the lower bound of the
iterator's own size hint. -/
def highlight (grammar : Grammar syntect) (sizeHint : Nat) (lines : List Str) :
    Except HighlightError Highlighted :=
  if maxLines < sizeHint then .error .tooLong
  else
    match result : highlightLines (syntect.newParseState grammar.reference)
        syntect.newScopeStack [] lines with
    | .error error => .error error
    | .ok lines => .ok ⟨lines, unmarked_highlightLines (by simp) result⟩

end Grammar

end Hermione
