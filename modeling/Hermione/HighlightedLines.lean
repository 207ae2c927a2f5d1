import Mathlib.Data.List.Chain
import Hermione.LineMarking

/-!
# The lines that highlighting makes

The parser is given each line with a newline after it, and cuts that into regions.  Only
one region has the newline, at its end, and after it there is nothing; so the regions
without it spell the line.  Runs of one class are merged as they come.
-/

namespace Hermione

/-- Spans that spell a text, none of them empty and no two neighbours of one class. -/
structure Merged (spans : List Span) (text : Str) : Prop where
  spells : spans.flatMap Span.text = text
  nonempty : ∀ span ∈ spans, span.text ≠ []
  apart : spans.IsChain fun first second => first.cls ≠ second.cls

theorem merged_nil : Merged [] [] :=
  ⟨rfl, List.forall_mem_nil _, List.IsChain.nil⟩

theorem merged_pushText {spans : List Span} {before text : Str} (merged : Merged spans before)
    (cls : Class) (nonempty : text ≠ []) : Merged (pushText spans cls text) (before ++ text) := by
  unfold pushText
  split
  · next last isLast =>
      obtain ⟨front, rfl⟩ := List.getLast?_eq_some_iff.mp isLast
      obtain ⟨spells, filled, apart⟩ := merged
      rw [List.forall_mem_append, List.forall_mem_singleton] at filled
      rw [List.flatMap_append, List.flatMap_singleton] at spells
      split
      · -- The run goes on: only the text of the last span changes.
        rw [List.dropLast_concat]
        constructor
        · rw [List.flatMap_append, List.flatMap_singleton, ← spells, List.append_assoc]
        · rw [List.forall_mem_append, List.forall_mem_singleton]
          exact ⟨filled.1, List.append_ne_nil_of_right_ne_nil _ nonempty⟩
        · rw [List.isChain_append] at apart ⊢
          refine ⟨apart.1, List.isChain_singleton _, ?_⟩
          intro previous isPrevious span isSpan
          cases isSpan
          exact apart.2.2 previous isPrevious last rfl
      · next differs =>
          constructor
          · rw [List.flatMap_append, List.flatMap_append, List.flatMap_singleton,
              List.flatMap_singleton, spells]
            rfl
          · simp only [List.forall_mem_append, List.forall_mem_singleton]
            exact ⟨filled, nonempty⟩
          · rw [List.isChain_append]
            refine ⟨apart, List.isChain_singleton _, ?_⟩
            intro previous isPrevious span isSpan
            rw [List.getLast?_concat] at isPrevious
            cases isPrevious
            cases isSpan
            exact differs
  · next none =>
      rw [List.getLast?_eq_none_iff] at none
      subst none
      obtain rfl : [] = before := merged.spells
      exact ⟨List.append_nil _, List.forall_mem_singleton.mpr nonempty, List.isChain_singleton _⟩

/-- Pieces of a line with its newline spell the line if newlines are trimmed off their ends. -/
theorem flatMap_trimmed {line : Str} {pieces : List Str} (unbroken : '\n' ∉ line)
    (whole : pieces.flatten = line ++ ['\n']) :
    pieces.flatMap (Str.trimEndMatches '\n') = line := by
  induction pieces generalizing line with
  | nil => exact absurd whole.symm (List.append_ne_nil_of_right_ne_nil _ (List.cons_ne_nil _ _))
  | cons piece pieces ih =>
      rw [List.flatten_cons] at whole
      rw [List.flatMap_cons]
      rcases List.append_eq_append_iff.mp whole with ⟨rest, rfl, later⟩ | ⟨newline, rfl, ended⟩
      · -- The newline is yet to come.
        rw [List.mem_append, not_or] at unbroken
        rw [Str.trimEndMatches_of_not_mem unbroken.1, ih unbroken.2 later]
      · rcases List.singleton_eq_append_iff.mp ended with ⟨rfl, others⟩ | ⟨rfl, others⟩
        · rw [List.append_nil, Str.trimEndMatches_of_not_mem unbroken,
            ih List.not_mem_nil others, List.append_nil]
        · have nothing : pieces.flatMap (Str.trimEndMatches '\n') = [] := by
            rw [List.flatMap_eq_nil_iff]
            intro later listed
            rw [List.flatten_eq_nil_iff.mp others later listed]
            rfl
          rw [Str.trimEndMatches_concat, Str.trimEndMatches_of_not_mem unbroken, nothing,
            List.append_nil]

namespace Grammar

variable {syntect : Syntect}

theorem merged_highlightRegions {stack final : syntect.ScopeStack}
    {spans result : List Span} {regions : List (Str × syntect.ScopeStackOp)} {before : Str}
    (merged : Merged spans before)
    (highlighted : highlightRegions stack spans regions = some (result, final)) :
    Merged result (before ++ (regions.map Prod.fst).flatMap (Str.trimEndMatches '\n')) := by
  induction regions generalizing stack spans before with
  | nil =>
      cases highlighted
      rwa [List.map_nil, List.flatMap_nil, List.append_nil]
  | cons region regions ih =>
      obtain ⟨text, op⟩ := region
      rw [highlightRegions] at highlighted
      obtain ⟨next, _, rest⟩ := Option.bind_eq_some_iff.mp highlighted
      rw [List.map_cons, List.flatMap_cons, ← List.append_assoc]
      dsimp only at rest ⊢
      split at rest
      · next empty =>
          rw [empty, List.append_nil]
          exact ih merged rest
      · next nonempty => exact ih (merged_pushText merged _ nonempty) rest

/-- What the source relies on of `ScopeRegionIterator`: it yields consecutive pieces of the
buffer. -/
def Consecutive (syntect : Syntect) : Prop :=
  ∀ ops buf, ((syntect.scopeRegions ops buf).map Prod.fst).flatten = buf

/-- The lines so far, and one more for each line that is left. -/
theorem highlightLines_ok (consecutive : Consecutive syntect) {state : syntect.ParseState}
    {stack : syntect.ScopeStack} {out result : List Line} {lines : List Str}
    (unbroken : ∀ line ∈ lines, '\n' ∉ line)
    (highlighted : highlightLines state stack out lines = .ok result) :
    ∃ made, result = out ++ made ∧
      List.Forall₂ (fun line text => Merged line.spans text) made lines := by
  induction lines generalizing state stack out with
  | nil =>
      cases highlighted
      exact ⟨[], (List.append_nil _).symm, .nil⟩
  | cons line lines ih =>
      rw [List.forall_mem_cons] at unbroken
      rw [highlightLines] at highlighted
      dsimp only at highlighted
      split at highlighted
      · cases highlighted
      split at highlighted
      · cases highlighted
      split at highlighted
      · cases highlighted
      next ops next parsed spans scopes regions =>
        obtain ⟨made, rfl, others⟩ := ih unbroken.2 highlighted
        have own := merged_highlightRegions merged_nil regions
        rw [List.nil_append, flatMap_trimmed unbroken.1 (consecutive _ _)] at own
        exact ⟨⟨spans⟩ :: made, List.append_assoc _ _ _, .cons own others⟩

/-- Lines are counted as they are made, and there is none beyond the limit. -/
theorem highlightLines_le {state : syntect.ParseState} {stack : syntect.ScopeStack}
    {out result : List Line} {lines : List Str} (within : out.length ≤ maxLines)
    (highlighted : highlightLines state stack out lines = .ok result) :
    out.length + lines.length ≤ maxLines := by
  induction lines generalizing state stack out with
  | nil => exact within
  | cons line lines ih =>
      rw [highlightLines] at highlighted
      dsimp only at highlighted
      split at highlighted
      · cases highlighted
      next room =>
        split at highlighted
        · cases highlighted
        split at highlighted
        · cases highlighted
        have later := ih (by rw [List.length_append, List.length_singleton]; omega) highlighted
        rw [List.length_append, List.length_singleton] at later
        rw [List.length_cons]
        omega

theorem highlight_eq_ok {grammar : Grammar syntect} {sizeHint : Nat} {lines : List Str}
    {highlighted : Highlighted} (succeeds : grammar.highlight sizeHint lines = .ok highlighted) :
    highlightLines (syntect.newParseState grammar.reference) syntect.newScopeStack [] lines =
      .ok highlighted.lines := by
  unfold highlight at succeeds
  split at succeeds
  · cases succeeds
  split at succeeds
  · cases succeeds
  · next lines made =>
      cases succeeds
      exact made

/-- Highlighting lines makes one line of each, in order, that rebuilds it of runs which are
not empty and differ in class from the next, unless it fails; and it fails on more lines
than the limit, whatever is known of their number beforehand. -/
theorem highlight_rebuilds (consecutive : Consecutive syntect) (grammar : Grammar syntect)
    (sizeHint : Nat) (lines : List Str) (unbroken : ∀ line ∈ lines, '\n' ∉ line) :
    (∀ highlighted, grammar.highlight sizeHint lines = .ok highlighted →
      List.Forall₂ (fun line text => line.rebuilds text = true ∧
        (∀ span ∈ line.spans, span.text ≠ []) ∧
        line.spans.IsChain fun first second => first.cls ≠ second.cls)
        highlighted.lines lines) ∧
    (maxLines < lines.length → ∃ error, grammar.highlight sizeHint lines = .error error) := by
  constructor
  · intro highlighted succeeds
    obtain ⟨made, whole, merged⟩ :=
      highlightLines_ok consecutive unbroken (highlight_eq_ok succeeds)
    rw [whole, List.nil_append]
    exact merged.imp fun line text own =>
      ⟨Line.rebuilds_iff.mpr own.spells, own.nonempty, own.apart⟩
  · intro long
    cases answer : grammar.highlight sizeHint lines with
    | error error => exact ⟨error, rfl⟩
    | ok highlighted =>
        have short := highlightLines_le (Nat.zero_le _) (highlight_eq_ok answer)
        rw [List.length_nil] at short
        omega

/-- A parser that cuts the first character off a line. -/
def firstCharacter : Syntect where
  SyntaxReference := Unit
  ParseState := Unit
  Ops := Unit
  ScopeStack := Bool
  ScopeStackOp := Bool
  Scope := Bool
  findSyntaxByName _ := none
  findSyntaxByToken _ := none
  findSyntaxByExtension _ := none
  newParseState _ := ()
  parseLine _ _ := some ((), ())
  newScopeStack := false
  scopeRegions _ buf := [(buf.take 1, true), (buf.drop 1, false)]
  apply _ op := some op
  scopes stack := [stack]
  newScope name := some (name == "keyword")
  isPrefixOf rule scope := rule && scope

theorem highlight_rebuilds_two :
    ∃ highlighted, (⟨()⟩ : Grammar firstCharacter).highlight 0
        [['a', 'b'], []] = .ok highlighted ∧
      List.Forall₂ (fun line text => line.rebuilds text = true ∧
        (∀ span ∈ line.spans, span.text ≠ []) ∧
        line.spans.IsChain fun first second => first.cls ≠ second.cls)
        highlighted.lines [['a', 'b'], []] := by
  have consecutive : Consecutive firstCharacter := by
    intro ops buf
    calc ([buf.take 1, buf.drop 1] : List Str).flatten
      _ = buf.take 1 ++ buf.drop 1 := congrArg (buf.take 1 ++ ·) (List.append_nil _)
      _ = buf := List.take_append_drop 1 buf
  exact ⟨_, rfl, (highlight_rebuilds consecutive ⟨()⟩ 0 [['a', 'b'], []] (by decide)).1 _ rfl⟩

end Grammar

end Hermione
