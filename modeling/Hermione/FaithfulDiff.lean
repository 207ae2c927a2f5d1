import Hermione.DiffRows

/-!
# Diffs as they reach the dashboard

Here the rows of one hunk are put together, and the hunks under the row budget.
A drawn hunk shows the reported lines: their signs, texts and numbers, with the
buffer's colours where they belong and the old side's elsewhere.
-/

namespace Hermione

open Utf8 Diff

variable {syntect : Syntect}

/-- The line of a hunk's old-side highlight that belongs to one of its lines. -/
def Hunk.ownLine (colour : Option (Colour syntect)) (hunk : Report.Hunk)
    (index : Nat) : Option Line :=
  colour.bind fun colour =>
    (colour.grammar.highlight 0
      (hunk.lines.filterMap Report.DiffLine.oldText)).toOption.bind fun highlighted =>
        highlighted.lines[oldBefore hunk.lines index]?

/-- A row shows a line of a hunk, after the rows before it. -/
structure Row.Shows (colour : Option (Colour syntect)) (hunk : Report.Hunk)
    (before : List Row) (line : Report.DiffLine) (row : Row) : Prop where
  added : row.isAdded = line.isAdded
  removed : row.isRemoved = line.isRemoved
  text : row.spans.text = line.text
  oldNumber : row.oldNumber = line.oldText.map fun _ =>
    hunk.oldStart + before.countP fun row => !row.isAdded
  newNumber : row.newNumber = line.newText.map fun _ =>
    hunk.newStart + before.countP fun row => !row.isRemoved
  context : line.isContext = true → Unmarked row.spans.spans
  coloured : line.isRemoved = true → ∀ own,
    Hunk.ownLine colour hunk before.length = some own → own.rebuilds line.text = true →
      row.spans.classes = own.classes
  plain : line.isRemoved = true →
    (∀ own, Hunk.ownLine colour hunk before.length = some own →
      own.rebuilds line.text = false) →
    row.spans.classes = List.replicate line.text.length .plain

/-- A drawn hunk shows a reported one. -/
structure Hunk.Shows (colour : Option (Colour syntect)) (hunk : Report.Hunk)
    (drawn : Hunk) : Prop where
  oldStart : drawn.oldStart = hunk.oldStart
  newStart : drawn.newStart = hunk.newStart
  length : drawn.rows.length = hunk.lines.length
  row : ∀ (index : Nat) line, hunk.lines[index]? = some line →
    ∃ row, drawn.rows[index]? = some row ∧
      Row.Shows colour hunk (drawn.rows.take index) line row
  oldLines : drawn.oldLines = drawn.rows.countP fun row => !row.isAdded
  newLines : drawn.newLines = drawn.rows.countP fun row => !row.isRemoved

def rowCount (hunks : List Report.Hunk) : Nat :=
  (hunks.map fun hunk => hunk.lines.length).sum

/-- A drawn diff shows as many of the reported hunks as the row budget holds,
and counts all of them. -/
structure Diff.Shows (colour : Option (Colour syntect)) (hunks : List Report.Hunk)
    (diff : Diff) : Prop where
  kept : ∃ front back, hunks = front ++ back ∧
    List.Forall₂ (Hunk.Shows colour) front diff.hunks ∧
    rowCount front ≤ maxRows ∧
    (diff.truncated = true ↔ back ≠ []) ∧
    ∀ first rest, back = first :: rest → maxRows < rowCount front + first.lines.length
  added : diff.added = (hunks.flatMap Report.Hunk.lines).countP Report.DiffLine.isAdded
  removed :
    diff.removed = (hunks.flatMap Report.Hunk.lines).countP Report.DiffLine.isRemoved

/-! ### One row -/

theorem classes_plain (text : Str) :
    (Line.plain text).classes = List.replicate text.length .plain := by
  unfold Line.plain
  split
  · rename_i empty
    simp [empty, Line.classes, Line.glyphs]
  · simp [Line.classes, Line.glyphs, Line.spanGlyphs, Span.new, Function.comp_def,
      List.map_const']

theorem isAdded_rowOf (colour : Option (Colour syntect)) (own : Option Line)
    (old new : Nat) (line : Report.DiffLine) :
    (rowOf colour own old new line).isAdded = line.isAdded := by
  cases line <;> rfl

theorem isRemoved_rowOf (colour : Option (Colour syntect)) (own : Option Line)
    (old new : Nat) (line : Report.DiffLine) :
    (rowOf colour own old new line).isRemoved = line.isRemoved := by
  cases line <;> rfl

theorem unmarked_rowOf (colour : Option (Colour syntect)) {own : Option Line}
    {old new : Nat} {line : Report.DiffLine} (context : line.isContext = true) :
    Unmarked (rowOf colour own old new line).spans.spans := by
  cases line with
  | context text => exact unmarked_bufferLine colour new text
  | added text | removed text => simp [Report.DiffLine.isContext] at context

/-- Marking changes neither a row's sign nor its numbers. -/
theorem Diff.Remarked.same {line : Report.DiffLine} {row marked : Row}
    (remarked : Remarked line row marked) :
    marked.isAdded = row.isAdded ∧ marked.isRemoved = row.isRemoved ∧
      marked.oldNumber = row.oldNumber ∧ marked.newNumber = row.newNumber := by
  rw [remarked.shape]
  cases row <;> exact ⟨rfl, rfl, rfl, rfl⟩

/-- A removed line takes its colours from its place in the old side's highlight,
or none. -/
theorem Hunk.oldSide_ownLine (colour : Option (Colour syntect)) {hunk : Report.Hunk}
    {index : Nat} {line : Report.DiffLine} (found : hunk.lines[index]? = some line)
    (removed : line.isRemoved = true) :
    ((Hunk.oldSide colour hunk).bind fun lines => lines[oldBefore hunk.lines index]?) =
      Hunk.ownLine colour hunk index := by
  have hasRemoved : hunk.lines.any Report.DiffLine.isRemoved = true :=
    List.any_eq_true.mpr ⟨line, List.mem_of_getElem? found, removed⟩
  unfold Hunk.oldSide Hunk.ownLine
  cases colour with
  | none => rfl
  | some colour =>
      simp only [hasRemoved, Option.filter_some, if_true, Option.bind_some]
      cases (colour.grammar.highlight 0
        (hunk.lines.filterMap Report.DiffLine.oldText)).toOption <;> rfl

/-- A removed line has the colours of its own line where that is the same text. -/
theorem classes_rowOf (colour : Option (Colour syntect)) {own : Option Line} (old new : Nat)
    {line : Report.DiffLine} (removed : line.isRemoved = true) {side : Line}
    (ownEq : own = some side) (rebuilt : side.rebuilds line.text = true) :
    (rowOf colour own old new line).spans.classes = side.classes := by
  cases line with
  | removed text =>
      have kept : own.filter (fun own => own.rebuilds text) = some side := by
        rw [ownEq, Option.filter_some, if_pos]
        exact rebuilt
      simp only [rowOf, Row.spans, Diff.spans, kept, Option.getD_some]
  | context text | added text => simp [Report.DiffLine.isRemoved] at removed

theorem classes_rowOf_plain (colour : Option (Colour syntect)) {own : Option Line} (old new : Nat)
    {line : Report.DiffLine} (removed : line.isRemoved = true)
    (notRebuilt : ∀ side, own = some side → side.rebuilds line.text = false) :
    (rowOf colour own old new line).spans.classes = List.replicate line.text.length .plain := by
  cases line with
  | removed text =>
      have dropped : own.filter (fun own => own.rebuilds text) = none := by
        rw [Option.filter_eq_none_iff]
        intro side ownEq
        have kept : side.rebuilds text = false := notRebuilt side ownEq
        simp [kept]
      simp only [rowOf, Row.spans, Diff.spans, dropped, Option.getD_none, classes_plain,
        Report.DiffLine.text]
  | context text | added text => simp [Report.DiffLine.isRemoved] at removed

/-- Where every row has the sign of its line, so has every marked one. -/
theorem signs_of_allRemarked {lines : List Report.DiffLine} {rows marked : List Row}
    (remarked : AllRemarked lines rows marked) (sameLength : rows.length = lines.length)
    (signs : ∀ (index : Nat) line row, lines[index]? = some line → rows[index]? = some row →
      row.isAdded = line.isAdded ∧ row.isRemoved = line.isRemoved) :
    marked.map Row.isAdded = lines.map Report.DiffLine.isAdded ∧
      marked.map Row.isRemoved = lines.map Report.DiffLine.isRemoved := by
  have each : ∀ (index : Nat), (marked[index]?).map Row.isAdded =
        (lines[index]?).map Report.DiffLine.isAdded ∧
      (marked[index]?).map Row.isRemoved = (lines[index]?).map Report.DiffLine.isRemoved := by
    intro index
    cases found : lines[index]? with
    | none =>
        have outside : marked[index]? = none := by
          rw [List.getElem?_eq_none_iff, remarked.length]
          exact List.getElem?_eq_none_iff.mp found
        simp [outside]
    | some line =>
        have inside := (List.getElem?_eq_some_iff.mp found).1
        obtain ⟨row, rowFound⟩ : ∃ row, rows[index]? = some row :=
          ⟨rows[index], List.getElem?_eq_getElem (sameLength ▸ inside)⟩
        obtain ⟨again, againFound, same⟩ := remarked.row index line row found rowFound
        obtain ⟨addedEq, removedEq, -, -⟩ := same.same
        obtain ⟨added, removed⟩ := signs index line row found rowFound
        simp [againFound, addedEq, removedEq, added, removed]
  constructor
  · apply List.ext_getElem?
    intro index
    rw [List.getElem?_map, List.getElem?_map]
    exact (each index).1
  · apply List.ext_getElem?
    intro index
    rw [List.getElem?_map, List.getElem?_map]
    exact (each index).2

/-- Lists with the same signs have as many elements without it at their starts. -/
theorem countP_not_take_eq {α β : Type*} {first : List α} {second : List β}
    {p : α → Bool} {q : β → Bool} (same : first.map p = second.map q) (index : Nat) :
    ((first.take index).countP fun value => !p value) =
      (second.take index).countP fun value => !q value := by
  have taken : (first.take index).map p = (second.take index).map q := by
    rw [List.map_take, List.map_take, same]
  calc ((first.take index).countP fun value => !p value)
      = ((first.take index).map p).countP not := by rw [List.countP_map]; rfl
    _ = ((second.take index).map q).countP not := by rw [taken]
    _ = (second.take index).countP fun value => !q value := by rw [List.countP_map]; rfl

/-! ### One hunk -/

/-- Drawing a hunk succeeds and shows it. -/
theorem Hunk.exists_new {words : WordDiff} (valid : words.Valid) (hunk : Report.Hunk)
    (colour : Option (Colour syntect)) :
    ∃ drawn, Hunk.new words hunk colour = some drawn ∧ Hunk.Shows colour hunk drawn := by
  let rows := rowsFrom colour (Hunk.oldSide colour hunk) hunk.oldStart hunk.newStart
    hunk.lines
  have sameLength : rows.length = hunk.lines.length := length_rowsFrom _ _ _ _ _
  have rowAt : ∀ (index : Nat) line, hunk.lines[index]? = some line →
      rows[index]? = some (rowOf colour
        ((Hunk.oldSide colour hunk).bind fun lines => lines[oldBefore hunk.lines index]?)
        (hunk.oldStart + oldBefore hunk.lines index)
        (hunk.newStart + newBefore hunk.lines index) line) :=
    fun index line found => rowsFrom_getElem? colour found
  have unmarkedStart : AllRemarked hunk.lines rows rows := by
    refine ⟨sameLength, fun index line row found rowFound => ⟨row, rowFound, ?_⟩⟩
    have rowEq := Option.some.inj ((rowAt index line found).symm.trans rowFound)
    refine ⟨(withSpans_spans row).symm, ?_, rfl, fun _ => rfl⟩
    rw [← rowEq]
    exact text_rowOf _ _ _ _ _
  obtain ⟨marked, markedEq, remarked⟩ :=
    allRemarked_markWordsFrom valid sameLength 0 unmarkedStart
  have markedAt := fun (index : Nat) line found =>
    remarked.row index line _ found (rowAt index line found)
  obtain ⟨added, removed⟩ := signs_of_allRemarked remarked sameLength (by
    intro index line row found rowFound
    rw [rowAt index line found] at rowFound
    rw [← Option.some.inj rowFound]
    exact ⟨isAdded_rowOf _ _ _ _ _, isRemoved_rowOf _ _ _ _ _⟩)
  refine ⟨{ oldStart := hunk.oldStart, oldLines := marked.countP fun row => !row.isAdded,
            newStart := hunk.newStart,
            newLines := marked.countP fun row => !row.isRemoved, rows := marked },
    ?_, rfl, rfl, remarked.length, ?_, rfl, rfl⟩
  · unfold Hunk.new markWords
    rw [markedEq, Option.map_some]
  · intro index line found
    obtain ⟨row, rowFound, rowRemarked⟩ := markedAt index line found
    obtain ⟨addedEq, removedEq, oldEq, newEq⟩ := rowRemarked.same
    have inside : index < marked.length := (List.getElem?_eq_some_iff.mp rowFound).1
    have beforeLength : (marked.take index).length = index := by
      rw [List.length_take]
      omega
    refine ⟨row, rowFound, ?_, ?_, rowRemarked.text, ?_, ?_, ?_, ?_, ?_⟩
    · rw [addedEq, isAdded_rowOf]
    · rw [removedEq, isRemoved_rowOf]
    · rw [oldEq, countP_not_take_eq added index]
      cases line <;> rfl
    · rw [newEq, countP_not_take_eq removed index]
      cases line <;> rfl
    · intro context
      rw [rowRemarked.context context]
      exact unmarked_rowOf colour context
    · intro removed own ownEq rebuilt
      rw [beforeLength] at ownEq
      rw [rowRemarked.classes]
      exact classes_rowOf colour _ _ removed
        ((Hunk.oldSide_ownLine colour found removed).trans ownEq) rebuilt
    · intro removed notRebuilt
      rw [beforeLength] at notRebuilt
      rw [rowRemarked.classes]
      apply classes_rowOf_plain colour _ _ removed
      rw [Hunk.oldSide_ownLine colour found removed]
      exact notRebuilt

/-! ### The whole diff -/

theorem Diff.keep_truncated (words : WordDiff) (colour : Option (Colour syntect))
    (budget : Nat) (kept : List Hunk) (hunks : List Report.Hunk) :
    keep words colour budget true kept hunks = some (kept, true) := by
  induction hunks with
  | nil => rfl
  | cons hunk hunks ih => simp [keep, ih]

/-- The loop over the hunks keeps those that fit and drops the rest. -/
theorem Diff.keep_spec {words : WordDiff} (valid : words.Valid)
    (colour : Option (Colour syntect)) (budget : Nat) (kept : List Hunk)
    (hunks : List Report.Hunk) :
    ∃ front back drawn, hunks = front ++ back ∧
      keep words colour budget false kept hunks = some (kept ++ drawn, !back.isEmpty) ∧
      List.Forall₂ (Hunk.Shows colour) front drawn ∧ rowCount front ≤ budget ∧
      ∀ first rest, back = first :: rest → budget < rowCount front + first.lines.length := by
  induction hunks generalizing budget kept with
  | nil => exact ⟨[], [], [], rfl, by simp [keep], .nil, by simp [rowCount], by simp⟩
  | cons hunk hunks ih =>
      by_cases tooMany : budget < hunk.lines.length
      · refine ⟨[], hunk :: hunks, [], rfl, ?_, .nil, by simp [rowCount], ?_⟩
        · simp [keep, tooMany, keep_truncated]
        · intro first rest equal
          obtain ⟨rfl, rfl⟩ := List.cons.inj equal
          simpa [rowCount] using tooMany
      · obtain ⟨drawnHunk, drawnEq, shows⟩ := Hunk.exists_new valid hunk colour
        obtain ⟨front, back, drawn, whole, keptEq, showsAll, fits, overflow⟩ :=
          ih (budget - hunk.lines.length) (kept ++ [drawnHunk])
        have counted : rowCount (hunk :: front) = hunk.lines.length + rowCount front := by
          simp [rowCount]
        refine ⟨hunk :: front, back, drawnHunk :: drawn, by rw [whole]; rfl, ?_,
          .cons shows showsAll, by omega, ?_⟩
        · rw [keep, if_neg (by simpa using tooMany), drawnEq, Option.bind_some, keptEq]
          simp
        · intro first rest equal
          have beyond := overflow first rest equal
          omega

/-- Drawing a diff never fails, and shows what was reported. -/
theorem Diff.new_shows {words : WordDiff} (valid : words.Valid)
    (hunks : List Report.Hunk) (colour : Option (Colour syntect)) :
    ∃ diff, Diff.new words hunks colour = some diff ∧ Diff.Shows colour hunks diff := by
  obtain ⟨front, back, drawn, whole, keptEq, shows, fits, overflow⟩ :=
    Diff.keep_spec valid colour maxRows [] hunks
  refine ⟨_, by rw [Diff.new, keptEq, Option.map_some], ?_, rfl, rfl⟩
  refine ⟨front, back, whole, by simpa using shows, fits, ?_, overflow⟩
  simp

/-- Comparing words with the plainest script. -/
def leadingWords : WordDiff :=
  { isAlphanumeric := Char.isAlphanum, captureDiffSlices := EditScripts.leadingDiff }

theorem leadingWords_valid : leadingWords.Valid :=
  EditScripts.validScript_leadingDiff

/-- A highlighter without grammars. -/
def noGrammars : Syntect where
  SyntaxReference := Empty
  ParseState := Empty
  Ops := Empty
  ScopeStack := Unit
  ScopeStackOp := Empty
  Scope := Empty
  findSyntaxByName _ := none
  findSyntaxByToken _ := none
  findSyntaxByExtension _ := none
  newParseState := Empty.elim
  parseLine state _ := state.elim
  newScopeStack := ()
  scopeRegions ops _ := ops.elim
  apply stack _ := some stack
  scopes _ := []
  newScope _ := none
  isPrefixOf scope _ := scope.elim

theorem Diff.new_shows_edit :
    ∃ diff,
      Diff.new leadingWords
        [⟨1, 1, [.context "a".toList, .removed "x = 1".toList, .added "x = 2".toList]⟩]
        (none : Option (Colour noGrammars)) = some diff ∧
      Diff.Shows (none : Option (Colour noGrammars))
        [⟨1, 1, [.context "a".toList, .removed "x = 1".toList, .added "x = 2".toList]⟩]
        diff :=
  Diff.new_shows leadingWords_valid _ none

end Hermione
