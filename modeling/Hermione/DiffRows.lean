import Hermione.Diff
import Hermione.IntralineRanges
import Hermione.LineMarking

/-!
# The drawn diff is faithful

The loop over a hunk's lines keeps three cursors: the two line numbers and the
place in the old side's highlight.  After any number of lines each has moved by
the lines of its side, which is all the invariant says.  Marking words then
changes no more than the `changed` flags of removed and added rows.
-/

namespace Hermione

open Utf8

namespace Diff

/-- How many of the first `index` lines are in the committed file. -/
def oldBefore (lines : List Report.DiffLine) (index : Nat) : Nat :=
  (lines.take index).countP fun line => !line.isAdded

/-- How many of the first `index` lines are in the buffer. -/
def newBefore (lines : List Report.DiffLine) (index : Nat) : Nat :=
  (lines.take index).countP fun line => !line.isRemoved

variable {syntect : Syntect}

/-- The row of one line, before words are marked.  `own` is the line's place in
the old side's highlight. -/
def rowOf (colour : Option (Colour syntect)) (own : Option Line) (old new : Nat) :
    Report.DiffLine → Row
  | .context text => .context old new (bufferLine colour new text)
  | .added text => .added new (bufferLine colour new text)
  | .removed text => .removed old (spans own text)

theorem length_rowsFrom (colour : Option (Colour syntect)) (oldSide : Option (List Line))
    (old new : Nat) (lines : List Report.DiffLine) :
    (rowsFrom colour oldSide old new lines).length = lines.length := by
  induction lines generalizing oldSide old new with
  | nil => rfl
  | cons line lines ih => cases line <;> simp [rowsFrom, ih]

private theorem bind_tail (oldSide : Option (List Line)) (index : Nat) :
    ((oldSide.map List.tail).bind fun lines => lines[index]?) =
      oldSide.bind fun lines => lines[index + 1]? := by
  cases oldSide with
  | none => rfl
  | some lines => simp

/-- Every row is its line's, at the numbers and the old-side place the earlier
lines leave. -/
theorem rowsFrom_getElem? (colour : Option (Colour syntect))
    {oldSide : Option (List Line)} {old new index : Nat}
    {lines : List Report.DiffLine} {line : Report.DiffLine}
    (found : lines[index]? = some line) :
    (rowsFrom colour oldSide old new lines)[index]? =
      some (rowOf colour (oldSide.bind fun highlighted => highlighted[oldBefore lines index]?)
        (old + oldBefore lines index) (new + newBefore lines index) line) := by
  induction lines generalizing oldSide old new index with
  | nil => simp at found
  | cons first lines ih =>
      cases index with
      | zero =>
          simp only [List.getElem?_cons_zero, Option.some.injEq] at found
          subst found
          cases first <;> cases oldSide <;>
            simp [rowsFrom, rowOf, oldBefore, newBefore, List.head?_eq_getElem?]
      | succ index =>
          have rest := fun oldSide old new =>
            @ih oldSide old new index (by simpa using found)
          have oldCount : oldBefore (first :: lines) (index + 1) =
              oldBefore lines index + if first.isAdded then 0 else 1 := by
            cases first <;> simp [oldBefore, Report.DiffLine.isAdded]
          have newCount : newBefore (first :: lines) (index + 1) =
              newBefore lines index + if first.isRemoved then 0 else 1 := by
            cases first <;> simp [newBefore, Report.DiffLine.isRemoved]
          rw [oldCount, newCount]
          cases first with
          | context text =>
              simp only [rowsFrom, List.getElem?_cons_succ, rest, bind_tail,
                Report.DiffLine.isAdded, Report.DiffLine.isRemoved]
              simp [Nat.add_assoc, Nat.add_comm 1]
          | added text =>
              simp only [rowsFrom, List.getElem?_cons_succ, rest,
                Report.DiffLine.isAdded, Report.DiffLine.isRemoved]
              simp [Nat.add_assoc, Nat.add_comm 1]
          | removed text =>
              simp only [rowsFrom, List.getElem?_cons_succ, rest, bind_tail,
                Report.DiffLine.isAdded, Report.DiffLine.isRemoved]
              simp [Nat.add_assoc, Nat.add_comm 1]

@[simp]
theorem text_spans (candidate : Option Line) (text : Str) :
    (spans candidate text).text = text := by
  unfold spans
  cases kept : candidate.filter fun line => line.rebuilds text with
  | none => simp
  | some line =>
      have rebuilt := (Option.filter_eq_some_iff.mp kept).2
      simpa using Line.rebuilds_iff.mp rebuilt

theorem text_rowOf (colour : Option (Colour syntect)) (own : Option Line)
    (old new : Nat) (line : Report.DiffLine) :
    (rowOf colour own old new line).spans.text = line.text := by
  cases line <;> simp [rowOf, Row.spans, bufferLine, Report.DiffLine.text]

/-- Nothing read out of the buffer's highlight is marked as changed. -/
theorem unmarked_bufferLine (colour : Option (Colour syntect)) (number : Nat)
    (text : Str) : Unmarked (bufferLine colour number text).spans := by
  unfold bufferLine spans
  cases kept : (colour.bind fun colour => colour.buffer.line number).filter
      fun line => line.rebuilds text with
  | none =>
      unfold Line.plain
      intro span member
      split at member
      · simp at member
      · rw [List.mem_singleton.mp member]
        rfl
  | some line =>
      obtain ⟨candidate, _⟩ := Option.filter_eq_some_iff.mp kept
      obtain ⟨coloured, _, found⟩ := Option.bind_eq_some_iff.mp candidate
      have member : line ∈ coloured.buffer.lines := by
        unfold Highlighted.line at found
        split at found
        · simp at found
        · exact List.mem_of_getElem? found
      exact coloured.buffer.unmarked line member

/-! ### Marking words -/

/-- A row whose spans may have been marked: its text and classes are kept, and
a context row is kept whole. -/
structure Remarked (line : Report.DiffLine) (row marked : Row) : Prop where
  shape : marked = row.withSpans marked.spans
  text : marked.spans.text = line.text
  classes : marked.spans.classes = row.spans.classes
  context : line.isContext = true → marked = row

/-- Rows in step with their lines, each of them marked at most. -/
structure AllRemarked (lines : List Report.DiffLine) (rows marked : List Row) : Prop where
  length : marked.length = lines.length
  row : ∀ (index : Nat) line row, lines[index]? = some line → rows[index]? = some row →
    ∃ result, marked[index]? = some result ∧ Remarked line row result

@[simp]
theorem withSpans_spans (row : Row) : row.withSpans row.spans = row := by
  cases row <;> rfl

@[simp]
theorem spans_withSpans (row : Row) (line : Line) : (row.withSpans line).spans = line := by
  cases row <;> rfl

@[simp]
theorem withSpans_withSpans (row : Row) (first second : Line) :
    (row.withSpans first).withSpans second = row.withSpans second := by
  cases row <;> rfl

variable {lines : List Report.DiffLine} {rows current : List Row}

theorem allRemarked_markRow {index : Nat} {line : Report.DiffLine}
    {ranges : List ByteRange} (remarked : AllRemarked lines rows current)
    (sameLength : rows.length = lines.length)
    (found : lines[index]? = some line) (notContext : line.isContext = false)
    (ordered : OrderedRanges line.text ranges) :
    ∃ marked, markRow current index ranges = some marked ∧
      AllRemarked lines rows marked := by
  obtain ⟨inside, _⟩ := List.getElem?_eq_some_iff.mp found
  have rowInside : index < rows.length := by omega
  have rowFound := List.getElem?_eq_getElem rowInside
  obtain ⟨present, presentFound, presentRemarked⟩ :=
    remarked.row index line _ found rowFound
  rw [← presentRemarked.text] at ordered
  obtain ⟨out, outEq, _⟩ := Line.marked_spec ordered
  obtain ⟨textEq, classesEq⟩ := Line.marked_keeps ordered outEq
  refine ⟨current.set index (present.withSpans out), ?_, ?_, ?_⟩
  · simp [markRow, presentFound, Row.mark, outEq]
  · rw [List.length_set]
    exact remarked.length
  · intro other otherLine row otherFound rowAt
    by_cases same : other = index
    · subst same
      have lineEq : otherLine = line := Option.some.inj (otherFound.symm.trans found)
      have rowEq : row = _ := Option.some.inj (rowAt.symm.trans rowFound)
      subst lineEq
      refine ⟨present.withSpans out, ?_, ?_, ?_, ?_, ?_⟩
      · rw [List.getElem?_set_self]
        rw [remarked.length]
        exact inside
      · rw [presentRemarked.shape, rowEq]
        simp
      · rw [spans_withSpans, textEq, presentRemarked.text]
      · rw [spans_withSpans, classesEq, presentRemarked.classes, rowEq]
      · simp [notContext]
    · rw [List.getElem?_set_ne (Ne.symm same)]
      exact remarked.row other otherLine row otherFound rowAt

theorem allRemarked_markPair {words : WordDiff} {gone came : Nat} (valid : words.Valid)
    (remarked : AllRemarked lines rows current) (sameLength : rows.length = lines.length)
    (goneInside : gone < lines.length) (cameInside : came < lines.length) :
    ∃ marked, markPair words lines current gone came = some marked ∧
      AllRemarked lines rows marked := by
  have goneFound := List.getElem?_eq_getElem goneInside
  have cameFound := List.getElem?_eq_getElem cameInside
  generalize lines[gone] = goneLine at goneFound
  generalize lines[came] = cameLine at cameFound
  unfold markPair
  rw [goneFound, cameFound]
  split
  · rename_i old new goneEq cameEq
    rw [Option.some.injEq] at goneEq cameEq
    subst goneEq cameEq
    obtain ⟨answer, answerEq, orderedOf⟩ := Intraline.changes_ordered valid old new
    rw [answerEq, Option.bind_some]
    cases answer with
    | none => exact ⟨current, rfl, remarked⟩
    | some changes =>
        obtain ⟨oldOrdered, newOrdered⟩ := orderedOf changes rfl
        obtain ⟨first, firstEq, firstRemarked⟩ :=
          allRemarked_markRow remarked sameLength goneFound rfl oldOrdered
        obtain ⟨second, secondEq, secondRemarked⟩ :=
          allRemarked_markRow firstRemarked sameLength cameFound rfl newOrdered
        refine ⟨second, ?_, secondRemarked⟩
        dsimp only
        rw [firstEq, Option.bind_some, secondEq]
  · exact ⟨current, rfl, remarked⟩
  · rename_i notBoth
    exact absurd rfl (notBoth _ _ rfl)

private theorem exists_foldlM {α β : Type*} {step : β → α → Option β}
    {holds : β → Prop} {list : List α} {start : β}
    (stepHolds : ∀ value ∈ list, ∀ state, holds state →
      ∃ next, step state value = some next ∧ holds next)
    (startHolds : holds start) :
    ∃ final, list.foldlM step start = some final ∧ holds final := by
  induction list generalizing start with
  | nil => exact ⟨start, rfl, startHolds⟩
  | cons value list ih =>
      obtain ⟨next, nextEq, nextHolds⟩ := stepHolds value List.mem_cons_self start startHolds
      obtain ⟨final, finalEq, finalHolds⟩ :=
        ih (fun other member => stepHolds other (List.mem_cons_of_mem _ member)) nextHolds
      exact ⟨final, by simp [List.foldlM_cons, nextEq, finalEq], finalHolds⟩

theorem run_le (lines : List Report.DiffLine) (position : Nat)
    (is : Report.DiffLine → Bool) : run lines position is ≤ lines.length - position := by
  unfold run
  have bound := (List.takeWhile_sublist (l := lines.drop position) is).length_le
  rwa [List.length_drop] at bound

/-- The loop of `mark_words`, from any position. -/
theorem allRemarked_markWordsFrom {words : WordDiff} (valid : words.Valid)
    (sameLength : rows.length = lines.length) (position : Nat)
    (remarked : AllRemarked lines rows current) :
    ∃ marked, markWordsFrom words lines position current = some marked ∧
      AllRemarked lines rows marked := by
  fun_induction markWordsFrom words lines position current with
  | case1 position current inside removed added ih =>
      have pairs : ∃ marked,
          (List.range (min removed added)).foldlM
            (fun rows k =>
              markPair words lines rows (position + k) (position + removed + k))
            current = some marked ∧ AllRemarked lines rows marked := by
        apply exists_foldlM _ remarked
        intro k member state stateRemarked
        have small := List.mem_range.mp member
        have removedBound : removed ≤ lines.length - position := run_le _ _ _
        have addedBound : added ≤ lines.length - (position + removed) := run_le _ _ _
        exact allRemarked_markPair valid stateRemarked sameLength (by omega) (by omega)
      obtain ⟨marked, markedEq, markedRemarked⟩ := pairs
      rw [markedEq, Option.bind_some]
      exact ih marked markedRemarked
  | case2 position current outside => exact ⟨current, rfl, remarked⟩

end Diff

end Hermione
