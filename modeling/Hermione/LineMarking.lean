import Hermione.Highlight

/-!
# What marking a line does

`Line.marked` walks the spans and, within each, the ranges, cutting a span at
every end of a range.  Read character by character it does nothing but set the
`changed` flag inside the ranges: text and classes stay.  The walk over one
span is an induction on the ranges, with the text before byte `done` already
emitted and every remaining range starting at `done` or later.
-/

namespace Hermione

open Utf8
open String (utf8Len)

namespace Line

/-- One character of a line as it is drawn. -/
structure Glyph where
  char : Char
  cls : Class
  changed : Bool
  deriving DecidableEq

def spanGlyphs (span : Span) : List Glyph :=
  span.text.map fun char => ⟨char, span.cls, span.changed⟩

def glyphs (line : Line) : List Glyph :=
  line.spans.flatMap spanGlyphs

/-- The characters of a text of one class from byte `offset` on, flagged by
their offsets. -/
def flagText (flag : Nat → Bool) (cls : Class) : Nat → Str → List Glyph
  | _, [] => []
  | offset, char :: text =>
      ⟨char, cls, flag offset⟩ :: flagText flag cls (offset + char.utf8Size) text

def flagSpans (flag : Nat → Bool) : Nat → List Span → List Glyph
  | _, [] => []
  | start, span :: spans =>
      flagText flag span.cls start span.text ++
        flagSpans flag (start + utf8Len span.text) spans

theorem flagText_append (flag : Nat → Bool) (cls : Class) (offset : Nat)
    (first second : Str) :
    flagText flag cls offset (first ++ second) =
      flagText flag cls offset first ++
        flagText flag cls (offset + utf8Len first) second := by
  induction first generalizing offset with
  | nil => simp [flagText]
  | cons char first ih =>
      simp only [List.cons_append, flagText, String.utf8Len_cons, ih]
      rw [Nat.add_assoc offset, Nat.add_comm char.utf8Size]

theorem flagText_congr {first second : Nat → Bool} {cls : Class} {offset : Nat}
    {text : Str}
    (same : ∀ position, offset ≤ position → position < offset + utf8Len text →
      first position = second position) :
    flagText first cls offset text = flagText second cls offset text := by
  induction text generalizing offset with
  | nil => rfl
  | cons char text ih =>
      have positive := Char.utf8Size_pos char
      simp only [String.utf8Len_cons] at same
      rw [flagText, flagText, same offset (by omega) (by omega)]
      congr 1
      exact ih fun position lower upper => same position (by omega) (by omega)

theorem flagText_const (value : Bool) (cls : Class) (offset : Nat) (text : Str) :
    flagText (fun _ => value) cls offset text = spanGlyphs ⟨cls, text, value⟩ := by
  induction text generalizing offset with
  | nil => rfl
  | cons char text ih =>
      rw [flagText, ih]
      rfl

theorem flagText_eq_piece {flag : Nat → Bool} {cls : Class} {offset : Nat}
    {text : Str} (value : Bool)
    (constant : ∀ position, offset ≤ position → position < offset + utf8Len text →
      flag position = value) :
    flagText flag cls offset text = spanGlyphs ⟨cls, text, value⟩ := by
  rw [← flagText_const value cls offset text]
  exact flagText_congr constant

theorem flagText_map_char (flag : Nat → Bool) (cls : Class) (offset : Nat) (text : Str) :
    (flagText flag cls offset text).map Glyph.char = text := by
  induction text generalizing offset with
  | nil => rfl
  | cons char text ih => simp [flagText, ih]

theorem flagText_map_cls (flag : Nat → Bool) (cls : Class) (offset : Nat) (text : Str) :
    (flagText flag cls offset text).map Glyph.cls =
      (spanGlyphs ⟨cls, text, false⟩).map Glyph.cls := by
  induction text generalizing offset with
  | nil => rfl
  | cons char text ih =>
      rw [flagText, List.map_cons, ih]
      rfl

private theorem unmarkedPiece_spec (span : Span) (emitted between rest : Str)
    {start done first : Nat} (whole : span.text = emitted ++ between ++ rest)
    (doneEq : start + utf8Len emitted = done) (firstEq : done + utf8Len between = first) :
    ∃ pieces : List Span,
      unmarkedPiece span start done first = some pieces ∧
      pieces.flatMap spanGlyphs = spanGlyphs ⟨span.cls, between, false⟩ := by
  by_cases nonempty : done < first
  · have sliced : slice span.text ⟨done - start, first - start⟩ = some between :=
      slice_eq_some_iff.mpr ⟨emitted, rest, whole, by dsimp only; omega, by dsimp only; omega⟩
    refine ⟨[⟨span.cls, between, false⟩], ?_, by simp⟩
    simp [unmarkedPiece, nonempty, Span.piece, sliced]
  · have betweenEmpty : between = [] :=
      String.utf8Len_eq_zero.mp (by omega)
    refine ⟨[], by simp [unmarkedPiece, nonempty], ?_⟩
    simp [betweenEmpty, spanGlyphs]

/-- Flagging a text that a range cuts in three. -/
private theorem flagText_covers_cons {range : ByteRange} {ranges : List ByteRange} (cls : Class)
    {between inside rest : Str} {done first last : Nat}
    (betweenStop : done + utf8Len between = first) (insideStop : first + utf8Len inside = last)
    (early : ∀ position, done ≤ position → position < first → position < range.start)
    (within : ∀ position, first ≤ position → position < last →
      range.start ≤ position ∧ position < range.stop)
    (past : ∀ position, last ≤ position → position < last + utf8Len rest → range.stop ≤ position)
    (proper : range.start ≤ range.stop) (later : ∀ other ∈ ranges, range.stop ≤ other.start) :
    flagText (covers (range :: ranges)) cls done (between ++ inside ++ rest) =
      spanGlyphs ⟨cls, between, false⟩ ++ spanGlyphs ⟨cls, inside, true⟩ ++
        flagText (covers ranges) cls last rest := by
  rw [flagText_append, flagText_append, String.utf8Len_append, betweenStop, ← Nat.add_assoc,
    betweenStop, insideStop]
  congr 1
  · congr 1
    · apply flagText_eq_piece false
      intro position lower upper
      have before := early position lower (by omega)
      simp only [covers, List.any_eq_false, decide_eq_true_eq, List.mem_cons]
      rintro candidate (rfl | member)
      · omega
      · have after := later candidate member
        omega
    · apply flagText_eq_piece true
      intro position lower upper
      have inHead := within position lower (by omega)
      simp [covers, inHead]
  · apply flagText_congr
    intro position lower upper
    have after := past position lower upper
    have notHead : ¬ (range.start ≤ position ∧ position < range.stop) := by omega
    simp [covers, notHead]

/-- The inner loop flags what is left of its span by the ranges still to come. -/
theorem markSpan_spec {span : Span} {left right : Str} (emitted remaining : Str)
    {start done : Nat} {ranges : List ByteRange}
    (whole : span.text = emitted ++ remaining) (startEq : utf8Len left = start)
    (doneEq : start + utf8Len emitted = done)
    (ordered : OrderedRanges (left ++ span.text ++ right) ranges)
    (ahead : ∀ range ∈ ranges, done ≤ max range.start start) :
    ∃ pieces, markSpan span start done ranges = some pieces ∧
      pieces.flatMap spanGlyphs = flagText (covers ranges) span.cls done remaining := by
  have stopEq : start + Str.len span.text = done + utf8Len remaining := by
    rw [Str.len, whole, String.utf8Len_append]
    omega
  induction ranges generalizing emitted remaining done with
  | nil =>
      obtain ⟨pieces, emittedEq, glyphsEq⟩ :=
        unmarkedPiece_spec span emitted remaining [] (by simpa using whole) doneEq rfl
      refine ⟨pieces, ?_, ?_⟩
      · simpa only [markSpan, stopEq] using emittedEq
      · rw [glyphsEq]
        exact (flagText_eq_piece false fun position _ _ => rfl).symm
  | cons range ranges ih =>
      have later := ordered.stop_le_start
      have proper := ordered.proper range List.mem_cons_self
      have headAhead := ahead range List.mem_cons_self
      rw [markSpan, stopEq]
      split
      · -- The range does not meet this span, so it flags nothing in it.
        obtain ⟨pieces, marked, glyphsEq⟩ :=
          ih emitted remaining whole doneEq ordered.tail
            (fun candidate member => ahead candidate (List.mem_cons_of_mem _ member)) stopEq
        refine ⟨pieces, marked, ?_⟩
        rw [glyphsEq]
        apply flagText_congr
        intro position lower upper
        have outside : ¬ (range.start ≤ position ∧ position < range.stop) := by omega
        simp [covers, outside]
      · rename_i meets
        -- Cut what remains where the range starts and stops within the span.
        have firstBoundary := isCharBoundary_max
          (ordered.startBoundary range List.mem_cons_self)
          (isCharBoundary_iff.mpr ⟨left, span.text ++ right, by simp, startEq⟩)
        have lastBoundary := isCharBoundary_min
          (ordered.stopBoundary range List.mem_cons_self)
          (isCharBoundary_iff.mpr ⟨left ++ span.text, right, rfl,
            by rw [String.utf8Len_append, startEq, ← Str.len, stopEq]⟩)
        generalize firstEq : max range.start start = first at *
        generalize lastEq : min range.stop (done + utf8Len remaining) = last at *
        have regroup : left ++ span.text ++ right = (left ++ emitted) ++ remaining ++ right := by
          rw [whole]
          simp
        have emittedLen : utf8Len (left ++ emitted) = done := by
          rw [String.utf8Len_append, startEq, doneEq]
        rw [regroup] at firstBoundary lastBoundary
        obtain ⟨between, inside, rest, rfl, betweenStop, insideStop⟩ :=
          exists_cuts_of_isCharBoundary firstBoundary lastBoundary
            (by omega) (by omega) (by omega)
        rw [emittedLen] at betweenStop
        rw [String.utf8Len_append, String.utf8Len_append] at stopEq lastEq
        obtain ⟨before, beforeEq, beforeGlyphs⟩ :=
          unmarkedPiece_spec span emitted between (inside ++ rest)
            (by rw [whole]; simp) doneEq betweenStop
        have insideSlice : slice span.text ⟨first - start, last - start⟩ = some inside := by
          apply slice_eq_some_iff.mpr
          refine ⟨emitted ++ between, rest, by rw [whole]; simp, ?_, ?_⟩
          · rw [String.utf8Len_append]
            dsimp only
            omega
          · rw [String.utf8Len_append]
            dsimp only
            omega
        have emittedStop : start + utf8Len (emitted ++ between ++ inside) = last := by
          simp only [String.utf8Len_append]
          omega
        obtain ⟨pieces, marked, piecesGlyphs⟩ :=
          ih (emitted ++ between ++ inside) rest (by rw [whole]; simp) emittedStop ordered.tail
            (fun candidate member => by
              have after := later candidate member
              omega)
            (by omega)
        refine ⟨before ++ ⟨span.cls, inside, true⟩ :: pieces, ?_, ?_⟩
        · simp [beforeEq, Span.piece, insideSlice, marked]
        · rw [List.flatMap_append, List.flatMap_cons, beforeGlyphs, piecesGlyphs,
            flagText_covers_cons span.cls betweenStop insideStop (by omega) (by omega) (by omega)
              proper later, List.append_assoc]

theorem markSpans_spec {ranges : List ByteRange} (left : Str) {start : Nat}
    {spans : List Span} (startEq : utf8Len left = start)
    (ordered : OrderedRanges (left ++ spans.flatMap Span.text) ranges) :
    ∃ pieces, markSpans ranges start spans = some pieces ∧
      pieces.flatMap spanGlyphs = flagSpans (covers ranges) start spans := by
  induction spans generalizing left start with
  | nil => exact ⟨[], rfl, rfl⟩
  | cons span spans ih =>
      rw [List.flatMap_cons, ← List.append_assoc] at ordered
      have nothingEmitted : start + utf8Len [] = start := rfl
      obtain ⟨pieces, marked, piecesGlyphs⟩ :=
        markSpan_spec [] span.text rfl startEq nothingEmitted ordered
          (fun range _ => Nat.le_max_right _ _)
      have nextStart : utf8Len (left ++ span.text) = start + Str.len span.text := by
        rw [String.utf8Len_append, startEq, Str.len]
      obtain ⟨rest, restMarked, restGlyphs⟩ := ih (left ++ span.text) nextStart ordered
      refine ⟨pieces ++ rest, by simp [markSpans, marked, restMarked], ?_⟩
      rw [List.flatMap_append, piecesGlyphs, restGlyphs]
      rfl

/-- Marking ordered ranges succeeds, and flags exactly the bytes they hold. -/
theorem marked_spec {line : Line} {ranges : List ByteRange}
    (ordered : OrderedRanges line.text ranges) :
    ∃ out, line.marked ranges = some out ∧
      out.glyphs = flagSpans (covers ranges) 0 line.spans := by
  obtain ⟨pieces, marked, piecesGlyphs⟩ :=
    markSpans_spec [] String.utf8Len_nil ordered
  exact ⟨⟨pieces⟩, by simp [Line.marked, marked], piecesGlyphs⟩

theorem text_eq_map_glyphs (line : Line) :
    line.text = line.glyphs.map Glyph.char := by
  simp [text, glyphs, spanGlyphs, List.map_flatMap, Function.comp_def]

/-- The class of each character of a line. -/
def classes (line : Line) : List Class :=
  line.glyphs.map Glyph.cls

theorem flagSpans_map_char (flag : Nat → Bool) (start : Nat) (spans : List Span) :
    (flagSpans flag start spans).map Glyph.char = spans.flatMap Span.text := by
  induction spans generalizing start with
  | nil => rfl
  | cons span spans ih =>
      rw [flagSpans, List.map_append, flagText_map_char, ih, List.flatMap_cons]

theorem flagSpans_map_cls (flag : Nat → Bool) (start : Nat) (spans : List Span) :
    (flagSpans flag start spans).map Glyph.cls = (Line.mk spans).classes := by
  induction spans generalizing start with
  | nil => rfl
  | cons span spans ih =>
      rw [flagSpans, List.map_append, flagText_map_cls, ih]
      simp [classes, glyphs, spanGlyphs]

/-- Marking keeps the text and the class of every character. -/
theorem marked_keeps {line out : Line} {ranges : List ByteRange}
    (ordered : OrderedRanges line.text ranges) (marked : line.marked ranges = some out) :
    out.text = line.text ∧ out.classes = line.classes := by
  obtain ⟨result, resultMarked, resultGlyphs⟩ := marked_spec ordered
  have same : result = out := Option.some.inj (resultMarked.symm.trans marked)
  subst same
  constructor
  · rw [text_eq_map_glyphs, resultGlyphs, flagSpans_map_char]
    rfl
  · rw [classes, resultGlyphs, flagSpans_map_cls]

theorem rebuildsFrom_iff {spans : List Span} {text : Str} :
    rebuildsFrom spans text = true ↔ spans.flatMap Span.text = text := by
  induction spans generalizing text with
  | nil =>
      rw [rebuildsFrom, List.isEmpty_iff, List.flatMap_nil]
      exact eq_comm
  | cons span spans ih =>
      rw [rebuildsFrom, List.flatMap_cons]
      cases stripped : Str.stripPrefix span.text text with
      | none =>
          simp only [Bool.false_eq_true, false_iff]
          intro whole
          have found : Str.stripPrefix span.text text =
              some (spans.flatMap Span.text) :=
            Str.stripPrefix_eq_some_iff.mpr whole.symm
          simp [stripped] at found
      | some after =>
          have whole := Str.stripPrefix_eq_some_iff.mp stripped
          simp only [ih, whole, List.append_cancel_left_eq]

theorem rebuilds_iff {line : Line} {text : Str} :
    line.rebuilds text = true ↔ line.text = text :=
  rebuildsFrom_iff

@[simp]
theorem text_plain (text : Str) : (plain text).text = text := by
  unfold plain
  split
  · simp_all [Line.text]
  · simp [Line.text, Span.new]

end Line

end Hermione
