import Hermione.LineMarking

/-!
# Marking a line, byte by byte

The ranges that are marked count bytes, and some of them may hold none.  Those are passed
over, and the others lie one after the other.  No end of a range is within a character, so
all bytes of one are marked or none.
-/

namespace Hermione

open Utf8
open String (utf8Len)

/-- Ranges of bytes in the order they start, of which no two hold the same byte, each
between two character boundaries of a text. -/
structure SortedDisjoint (text : Str) (ranges : List ByteRange) : Prop where
  sorted : ranges.Pairwise fun first second => first.start ≤ second.start
  disjoint : ranges.Pairwise fun first second =>
    ∀ byte, ¬ ((first.start ≤ byte ∧ byte < first.stop) ∧
      (second.start ≤ byte ∧ byte < second.stop))
  startBoundary : ∀ range ∈ ranges, isCharBoundary text range.start = true
  stopBoundary : ∀ range ∈ ranges, isCharBoundary text range.stop = true

/-- The ranges that hold a byte. -/
def heldRanges (ranges : List ByteRange) : List ByteRange :=
  ranges.filter fun range => range.start < range.stop

theorem heldRanges_of_holds {range : ByteRange} {ranges : List ByteRange}
    (holds : range.start < range.stop) :
    heldRanges (range :: ranges) = range :: heldRanges ranges := by
  simp [heldRanges, holds]

theorem heldRanges_of_empty {range : ByteRange} {ranges : List ByteRange}
    (empty : ¬ range.start < range.stop) :
    heldRanges (range :: ranges) = heldRanges ranges := by
  simp [heldRanges, empty]

namespace SortedDisjoint

variable {text : Str} {ranges : List ByteRange}

/-- Ranges that hold bytes, but none in common, do not overlap. -/
theorem held (fit : SortedDisjoint text ranges) : OrderedRanges text (heldRanges ranges) where
  sorted := by
    have both := (fit.sorted.and fit.disjoint).filter fun range =>
      decide (range.start < range.stop)
    apply both.imp_of_mem
    intro first second _ within together
    have holds : second.start < second.stop := of_decide_eq_true (List.mem_filter.mp within).2
    by_contra overlap
    exact together.2 second.start ⟨⟨together.1, by omega⟩, ⟨le_refl _, holds⟩⟩
  proper range member := (of_decide_eq_true (List.mem_filter.mp member).2 : _ < _).le
  startBoundary range member := fit.startBoundary range (List.mem_filter.mp member).1
  stopBoundary range member := fit.stopBoundary range (List.mem_filter.mp member).1

end SortedDisjoint

theorem covers_heldRanges (ranges : List ByteRange) :
    covers (heldRanges ranges) = covers ranges := by
  funext byte
  rw [Bool.eq_iff_iff]
  simp only [covers, heldRanges, List.any_eq_true, List.mem_filter, decide_eq_true_eq]
  constructor
  · rintro ⟨range, ⟨member, _⟩, holds⟩
    exact ⟨range, member, holds⟩
  · rintro ⟨range, member, holds⟩
    exact ⟨range, ⟨member, by omega⟩, holds⟩

/-- No end of a range is between the bytes of one character. -/
theorem boundary_outside {before after : Str} {char : Char} {offset : Nat}
    (boundary : isCharBoundary (before ++ char :: after) offset = true) :
    offset ≤ utf8Len before ∨ utf8Len before + char.utf8Size ≤ offset := by
  by_contra inside
  rw [not_or, not_le, not_le] at inside
  have whole : before ++ char :: after = before ++ [char] ++ after := by simp
  have width : utf8Len [char] = char.utf8Size := by simp
  rw [whole] at boundary
  obtain ⟨front, back, parts, reached⟩ :=
    exists_cut_of_isCharBoundary boundary inside.1.le (by omega)
  cases front with
  | nil =>
      rw [String.utf8Len_nil] at reached
      omega
  | cons first front =>
      have all := congrArg utf8Len parts
      simp only [width, String.utf8Len_append, String.utf8Len_cons] at all reached
      have same : char = first := (List.cons.inj parts).1
      subst same
      omega

/-- A flag is the same for all bytes of a character. -/
def Steady (flag : Nat → Bool) (offset : Nat) (text : Str) : Prop :=
  ∀ before char after, text = before ++ char :: after →
    ∀ byte, offset + utf8Len before ≤ byte →
      byte < offset + utf8Len before + char.utf8Size →
        flag byte = flag (offset + utf8Len before)

namespace Steady

variable {flag : Nat → Bool} {offset : Nat}

theorem left {first second : Str} (steady : Steady flag offset (first ++ second)) :
    Steady flag offset first := by
  rintro before char after rfl
  exact steady before char (after ++ second) (by simp)

theorem right {first second : Str} (steady : Steady flag offset (first ++ second)) :
    Steady flag (offset + utf8Len first) second := by
  rintro before char after rfl byte lower upper
  have later := steady (first ++ before) char after (by simp) byte
  rw [String.utf8Len_append, ← Nat.add_assoc] at later
  exact later lower upper

end Steady

/-- Ranges with their ends at character boundaries hold characters whole. -/
theorem steady_covers {text : Str} {ranges : List ByteRange}
    (startBoundary : ∀ range ∈ ranges, isCharBoundary text range.start = true)
    (stopBoundary : ∀ range ∈ ranges, isCharBoundary text range.stop = true) :
    Steady (covers ranges) 0 text := by
  rintro before char after rfl byte lower upper
  rw [Nat.zero_add] at lower upper ⊢
  have positive := Char.utf8Size_pos char
  rw [Bool.eq_iff_iff]
  simp only [covers, List.any_eq_true, decide_eq_true_eq]
  constructor
  · rintro ⟨range, member, holds⟩
    have start := boundary_outside (startBoundary range member)
    have stop := boundary_outside (stopBoundary range member)
    exact ⟨range, member, by omega⟩
  · rintro ⟨range, member, holds⟩
    have start := boundary_outside (startBoundary range member)
    have stop := boundary_outside (stopBoundary range member)
    exact ⟨range, member, by omega⟩

namespace Line

/-! ### The bytes of a line -/

/-- The class of each byte. -/
def byteClasses (line : Line) : List Class :=
  line.spans.flatMap fun span => List.replicate (Str.len span.text) span.cls

/-- Whether each byte is flagged as changed. -/
def byteFlags (line : Line) : List Bool :=
  line.spans.flatMap fun span => List.replicate (Str.len span.text) span.changed

/-- What characters have, once for each of their bytes. -/
def perByte {α : Type} (value : Glyph → α) (glyphs : List Glyph) : List α :=
  glyphs.flatMap fun glyph => List.replicate glyph.char.utf8Size (value glyph)

theorem perByte_spanGlyphs {α : Type} (value : Glyph → α) {span : Span} {own : α}
    (constant : ∀ char, value ⟨char, span.cls, span.changed⟩ = own) :
    perByte value (spanGlyphs span) = List.replicate (Str.len span.text) own := by
  unfold perByte spanGlyphs Str.len
  induction span.text with
  | nil => rfl
  | cons char text ih =>
      rw [List.map_cons, List.flatMap_cons, ih, constant, List.replicate_append_replicate,
        String.utf8Len_cons, Nat.add_comm]

theorem byteFlags_eq (line : Line) : line.byteFlags = perByte Glyph.changed line.glyphs := by
  unfold byteFlags glyphs perByte
  rw [List.flatMap_assoc]
  exact congrArg (List.flatMap · line.spans)
    (funext fun span => (perByte_spanGlyphs Glyph.changed fun _ => rfl).symm)

theorem byteClasses_eq (line : Line) : line.byteClasses = perByte Glyph.cls line.glyphs := by
  unfold byteClasses glyphs perByte
  rw [List.flatMap_assoc]
  exact congrArg (List.flatMap · line.spans)
    (funext fun span => (perByte_spanGlyphs Glyph.cls fun _ => rfl).symm)

/-- The classes of the bytes, from the characters and the class of each. -/
theorem byteClasses_eq_zipWith (line : Line) :
    line.byteClasses = (List.zipWith (fun char cls => List.replicate char.utf8Size cls)
      line.text line.classes).flatten := by
  rw [byteClasses_eq, text_eq_map_glyphs, classes, List.zipWith_map, List.zipWith_self]
  exact List.flatMap_def

theorem perByte_flagText {flag : Nat → Bool} {cls : Class} {offset : Nat} {text : Str}
    (steady : Steady flag offset text) :
    perByte Glyph.changed (flagText flag cls offset text) =
      (List.range' offset (utf8Len text)).map flag := by
  induction text generalizing offset with
  | nil => rfl
  | cons char text ih =>
      have first : List.replicate char.utf8Size (flag offset) =
          (List.range' offset char.utf8Size).map flag := by
        symm
        rw [List.eq_replicate_iff]
        refine ⟨by simp, ?_⟩
        intro value listed
        obtain ⟨byte, within, rfl⟩ := List.mem_map.mp listed
        rw [List.mem_range'_1] at within
        exact steady [] char text rfl byte within.1 within.2
      have rest : Steady flag (offset + char.utf8Size) text := by
        have later := @Steady.right flag offset [char] text steady
        rwa [show utf8Len [char] = char.utf8Size by simp] at later
      rw [flagText, perByte, List.flatMap_cons, ← perByte, ih rest, first, ← List.map_append,
        List.range'_append_1, String.utf8Len_cons, Nat.add_comm char.utf8Size]

theorem perByte_flagSpans {flag : Nat → Bool} {start : Nat} {spans : List Span}
    (steady : Steady flag start (spans.flatMap Span.text)) :
    perByte Glyph.changed (flagSpans flag start spans) =
      (List.range' start (utf8Len (spans.flatMap Span.text))).map flag := by
  induction spans generalizing start with
  | nil => rfl
  | cons span spans ih =>
      rw [List.flatMap_cons] at steady ⊢
      rw [flagSpans, perByte, List.flatMap_append, ← perByte, ← perByte,
        perByte_flagText steady.left, ih steady.right, ← List.map_append,
        List.range'_append_1, String.utf8Len_append]

/-! ### Ranges that hold nothing -/

theorem markSpan_heldRanges (span : Span) (start done : Nat) (ranges : List ByteRange) :
    markSpan span start done (heldRanges ranges) = markSpan span start done ranges := by
  induction ranges generalizing done with
  | nil => rfl
  | cons range ranges ih =>
      by_cases holds : range.start < range.stop
      · rw [heldRanges_of_holds holds, markSpan, markSpan]
        simp only [ih]
      · have skipped : min range.stop (start + Str.len span.text) ≤ max range.start start := by
          omega
        rw [heldRanges_of_empty holds, ih, markSpan.eq_def span start done (range :: ranges)]
        simp only [skipped, if_true]

theorem marked_heldRanges (line : Line) (ranges : List ByteRange) :
    line.marked (heldRanges ranges) = line.marked ranges := by
  have loop (start : Nat) (spans : List Span) :
      markSpans (heldRanges ranges) start spans = markSpans ranges start spans := by
    induction spans generalizing start with
    | nil => rfl
    | cons span spans ih => rw [markSpans, markSpans, markSpan_heldRanges, ih]
  rw [marked, marked, loop]

/-! ### Empty spans -/

theorem piece_ne_nil {span piece : Span} {range : ByteRange} {changed : Bool}
    (cut : span.piece range changed = some piece) (holds : range.start < range.stop) :
    piece.text ≠ [] := by
  obtain ⟨text, sliced, rfl⟩ := Option.map_eq_some_iff.mp cut
  obtain ⟨before, after, _, first, last⟩ := slice_eq_some_iff.mp sliced
  rintro rfl
  rw [String.utf8Len_nil] at last
  omega

theorem unmarkedPiece_ne_nil {span : Span} {start done stop : Nat} {pieces : List Span}
    (cut : unmarkedPiece span start done stop = some pieces) (begun : start ≤ done) :
    ∀ piece ∈ pieces, piece.text ≠ [] := by
  unfold unmarkedPiece at cut
  split at cut
  · obtain ⟨piece, own, rfl⟩ := Option.map_eq_some_iff.mp cut
    rw [List.forall_mem_singleton]
    exact piece_ne_nil own (by dsimp only; omega)
  · cases cut
    exact List.forall_mem_nil _

theorem markSpan_ne_nil {span : Span} {start done : Nat} {ranges : List ByteRange}
    {pieces : List Span} (cut : markSpan span start done ranges = some pieces)
    (begun : start ≤ done) : ∀ piece ∈ pieces, piece.text ≠ [] := by
  induction ranges generalizing done pieces with
  | nil => exact unmarkedPiece_ne_nil cut begun
  | cons range ranges ih =>
      rw [markSpan] at cut
      split at cut
      · exact ih cut begun
      · rename_i meets
        simp only [Option.bind_eq_bind, Option.bind_eq_some_iff, Option.some.injEq] at cut
        obtain ⟨before, early, marked, own, rest, late, rfl⟩ := cut
        rw [List.forall_mem_append, List.forall_mem_cons]
        exact ⟨unmarkedPiece_ne_nil early begun, piece_ne_nil own (by dsimp only; omega),
          ih late (by omega)⟩

/-- Nothing that is cut out of a line is empty. -/
theorem marked_ne_nil {line out : Line} {ranges : List ByteRange}
    (marked : line.marked ranges = some out) : ∀ span ∈ out.spans, span.text ≠ [] := by
  have loop {start : Nat} {spans pieces : List Span}
      (cut : markSpans ranges start spans = some pieces) :
      ∀ piece ∈ pieces, piece.text ≠ [] := by
    induction spans generalizing start pieces with
    | nil =>
        cases cut
        exact List.forall_mem_nil _
    | cons span spans ih =>
        simp only [markSpans, Option.bind_eq_bind, Option.bind_eq_some_iff,
          Option.some.injEq] at cut
        obtain ⟨first, own, rest, others, rfl⟩ := cut
        rw [List.forall_mem_append]
        exact ⟨markSpan_ne_nil own (le_refl _), ih others⟩
  obtain ⟨pieces, cut, rfl⟩ := Option.map_eq_some_iff.mp marked
  exact loop cut

/-! ### Marking -/

/-- Marking ranges of a line that do not overlap keeps its text and the classes of its
bytes, flags the bytes in the ranges and no others, and leaves no span empty; and a line
rebuilds the text that its spans spell, and no other. -/
theorem marked_exact (line : Line) :
    (∀ ranges, SortedDisjoint line.text ranges →
      ∃ out, line.marked ranges = some out ∧ out.text = line.text ∧
        out.byteClasses = line.byteClasses ∧
        out.byteFlags = (List.range (Str.len line.text)).map
          (fun byte => decide (∃ range ∈ ranges, range.start ≤ byte ∧ byte < range.stop)) ∧
        ((∀ span ∈ line.spans, span.text ≠ []) → ∀ span ∈ out.spans, span.text ≠ [])) ∧
    ∀ text, line.rebuilds text = true ↔ line.spans.flatMap Span.text = text := by
  refine ⟨fun ranges fit => ?_, fun text => rebuilds_iff⟩
  obtain ⟨out, marked, glyphs⟩ := marked_spec fit.held
  obtain ⟨sameText, sameClasses⟩ := marked_keeps fit.held marked
  rw [marked_heldRanges] at marked
  refine ⟨out, marked, sameText, ?_, ?_, fun _ => marked_ne_nil marked⟩
  · rw [byteClasses_eq_zipWith, byteClasses_eq_zipWith, sameText, sameClasses]
  · have steady : Steady (covers ranges) 0 (line.spans.flatMap Span.text) :=
      steady_covers fit.startBoundary fit.stopBoundary
    rw [byteFlags_eq, glyphs, covers_heldRanges, perByte_flagSpans steady,
      ← List.range_eq_range']
    apply List.map_congr_left
    intro byte _
    rw [covers, Bool.eq_iff_iff]
    simp only [List.any_eq_true, decide_eq_true_eq]

/-- Two spans, the second of a character of two bytes; an empty range, and one over the
border of the spans. -/
theorem marked_exact_border :
    ∃ out, (Line.mk [Span.new .keyword ['a', 'b'], Span.new .plain ['é']]).marked
        [⟨1, 1⟩, ⟨1, 4⟩] = some out ∧
      out.byteFlags = [false, true, true, true] := by
  have fit : SortedDisjoint (Line.mk [Span.new .keyword ['a', 'b'], Span.new .plain ['é']]).text
      [⟨1, 1⟩, ⟨1, 4⟩] :=
    ⟨by decide, List.pairwise_pair.mpr (by dsimp only; omega), by decide, by decide⟩
  obtain ⟨out, marked, -, -, flags, -⟩ := (marked_exact _).1 _ fit
  exact ⟨out, marked, flags.trans (by decide)⟩

end Line

end Hermione
