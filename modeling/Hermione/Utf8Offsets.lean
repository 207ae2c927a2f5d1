import Mathlib.Data.String.Basic

/-!
# Byte offsets into Unicode text

A UTF-8 string is a sequence of Unicode scalar values, but its positions are
counted in bytes and a range of bytes names a piece of it only when both ends
fall on character boundaries.  This file works with the scalar values as a
list and computes byte positions from their encoded widths; an operation that
would cut a character, or run past the end, has no value.
-/

namespace Utf8

open String (utf8Len)

/-- Cut a text in two at a byte offset, when the offset is a character
boundary of it. -/
def splitAt : List Char → Nat → Option (List Char × List Char)
  | text, 0 => some ([], text)
  | [], _ + 1 => none
  | char :: text, offset + 1 =>
      if char.utf8Size ≤ offset + 1 then
        (splitAt text (offset + 1 - char.utf8Size)).map fun halves =>
          (char :: halves.1, halves.2)
      else none

/-- A cut succeeds exactly at the byte length of a leading part. -/
theorem splitAt_eq_some_iff {text before after : List Char} {offset : Nat} :
    splitAt text offset = some (before, after) ↔
      text = before ++ after ∧ utf8Len before = offset := by
  induction text generalizing offset before after with
  | nil =>
      cases offset with
      | zero =>
          simp only [splitAt, Option.some.injEq, Prod.mk.injEq]
          constructor
          · rintro ⟨rfl, rfl⟩
            simp
          · rintro ⟨whole, width⟩
            have nil_before := String.utf8Len_eq_zero.mp width
            simp_all
      | succ offset =>
          simp only [splitAt, reduceCtorEq, false_iff, not_and]
          intro whole width
          have nil_before : before = [] := by simp_all
          simp [nil_before] at width
  | cons char text ih =>
      have positive := Char.utf8Size_pos char
      cases offset with
      | zero =>
          simp only [splitAt, Option.some.injEq, Prod.mk.injEq]
          constructor
          · rintro ⟨rfl, rfl⟩
            simp
          · rintro ⟨whole, width⟩
            have nil_before := String.utf8Len_eq_zero.mp width
            simp_all
      | succ offset =>
          rw [splitAt]
          constructor
          · intro cut
            split at cut
            · obtain ⟨⟨front, back⟩, halves, equal⟩ := Option.map_eq_some_iff.mp cut
              obtain ⟨rest, width⟩ := ih.mp halves
              simp only [Prod.mk.injEq] at equal
              obtain ⟨rfl, rfl⟩ := equal
              refine ⟨by simp [rest], ?_⟩
              simp only [String.utf8Len_cons]
              omega
            · simp at cut
          · rintro ⟨whole, width⟩
            cases before with
            | nil => simp at width
            | cons front before =>
                simp only [List.cons_append, List.cons.injEq] at whole
                obtain ⟨rfl, rest⟩ := whole
                simp only [String.utf8Len_cons] at width
                rw [if_pos (by omega)]
                have tail : splitAt text (offset + 1 - char.utf8Size) =
                    some (before, after) :=
                  ih.mpr ⟨rest, by omega⟩
                simp [tail]

/-- Whether a byte offset falls between two characters of a text (or at one of
its ends). -/
def isCharBoundary (text : List Char) (offset : Nat) : Bool :=
  (splitAt text offset).isSome

theorem isCharBoundary_iff {text : List Char} {offset : Nat} :
    isCharBoundary text offset = true ↔
      ∃ before after, text = before ++ after ∧ utf8Len before = offset := by
  rw [isCharBoundary, Option.isSome_iff_exists]
  constructor
  · rintro ⟨⟨before, after⟩, cut⟩
    exact ⟨before, after, splitAt_eq_some_iff.mp cut⟩
  · rintro ⟨before, after, whole⟩
    exact ⟨(before, after), splitAt_eq_some_iff.mpr whole⟩

@[simp]
theorem isCharBoundary_zero (text : List Char) :
    isCharBoundary text 0 = true :=
  isCharBoundary_iff.mpr ⟨[], text, rfl, rfl⟩

/-- A half-open range of byte offsets. -/
structure ByteRange where
  start : Nat
  stop : Nat
  deriving DecidableEq, Repr

/-- The piece of a text at a range of bytes.  There is none when the range is
reversed, runs past the end or cuts a character. -/
def slice (text : List Char) (range : ByteRange) : Option (List Char) :=
  if range.start ≤ range.stop then
    (splitAt text range.start).bind fun halves =>
      (splitAt halves.2 (range.stop - range.start)).map Prod.fst
  else none

/-- A slice is the middle of a decomposition of the text whose first two parts
end at the two offsets. -/
theorem slice_eq_some_iff {text piece : List Char} {range : ByteRange} :
    slice text range = some piece ↔
      ∃ before after, text = before ++ piece ++ after ∧
        utf8Len before = range.start ∧
        utf8Len before + utf8Len piece = range.stop := by
  constructor
  · intro sliced
    rw [slice] at sliced
    split at sliced
    · obtain ⟨⟨before, rest⟩, firstCut, inner⟩ := Option.bind_eq_some_iff.mp sliced
      obtain ⟨⟨middle, after⟩, secondCut, equal⟩ := Option.map_eq_some_iff.mp inner
      obtain ⟨whole, startEq⟩ := splitAt_eq_some_iff.mp firstCut
      obtain ⟨restEq, widthEq⟩ := splitAt_eq_some_iff.mp secondCut
      simp only at equal restEq
      subst equal
      refine ⟨before, after, ?_, startEq, by omega⟩
      rw [whole, restEq, List.append_assoc]
    · simp at sliced
  · rintro ⟨before, after, whole, startEq, stopEq⟩
    have firstCut : splitAt text range.start = some (before, piece ++ after) :=
      splitAt_eq_some_iff.mpr ⟨by rw [whole, List.append_assoc], startEq⟩
    have secondCut : splitAt (piece ++ after) (range.stop - range.start) =
        some (piece, after) :=
      splitAt_eq_some_iff.mpr ⟨rfl, by omega⟩
    rw [slice, if_pos (by omega), firstCut]
    simp [secondCut]

/-- Two boundaries of a text in order always have a piece between them. -/
theorem exists_slice {text : List Char} {range : ByteRange}
    (ordered : range.start ≤ range.stop)
    (startBoundary : isCharBoundary text range.start = true)
    (stopBoundary : isCharBoundary text range.stop = true) :
    ∃ piece, slice text range = some piece := by
  obtain ⟨before, rest, whole, startEq⟩ := isCharBoundary_iff.mp startBoundary
  obtain ⟨front, back, whole', stopEq⟩ := isCharBoundary_iff.mp stopBoundary
  have joined : before ++ rest = front ++ back := whole.symm.trans whole'
  rcases List.append_eq_append_iff.mp joined with
    ⟨middle, frontEq, restEq⟩ | ⟨middle, beforeEq, backEq⟩
  · refine ⟨middle, slice_eq_some_iff.mpr ⟨before, back, ?_, startEq, ?_⟩⟩
    · rw [whole, restEq, List.append_assoc]
    · rw [← stopEq, frontEq, String.utf8Len_append]
  · have middleEmpty : middle = [] := by
      apply String.utf8Len_eq_zero.mp
      rw [beforeEq, String.utf8Len_append] at startEq
      omega
    subst middleEmpty
    simp only [List.append_nil] at beforeEq
    refine ⟨[], slice_eq_some_iff.mpr ⟨before, rest, ?_, startEq, ?_⟩⟩
    · simpa using whole
    · rw [← stopEq, beforeEq]
      simp

/-- A boundary of a whole text that lies within its middle part cuts that part. -/
theorem exists_cut_of_isCharBoundary {before middle after : List Char} {offset : Nat}
    (boundary : isCharBoundary (before ++ middle ++ after) offset = true)
    (lower : utf8Len before ≤ offset) (upper : offset ≤ utf8Len before + utf8Len middle) :
    ∃ front back, middle = front ++ back ∧ utf8Len before + utf8Len front = offset := by
  obtain ⟨left, right, whole, leftLen⟩ := isCharBoundary_iff.mp boundary
  rw [List.append_assoc] at whole
  rcases List.append_eq_append_iff.mp whole with
    ⟨front, leftEq, restEq⟩ | ⟨extra, beforeEq, _⟩
  · have frontLen : utf8Len before + utf8Len front = offset := by
      rw [← leftLen, leftEq, String.utf8Len_append]
    rcases List.append_eq_append_iff.mp restEq with
      ⟨extra, frontEq, _⟩ | ⟨back, middleEq, _⟩
    · have extraEmpty : extra = [] := by
        apply String.utf8Len_eq_zero.mp
        rw [frontEq, String.utf8Len_append] at frontLen
        omega
      exact ⟨middle, [], by simp, by simpa [frontEq, extraEmpty] using frontLen⟩
    · exact ⟨front, back, middleEq, frontLen⟩
  · have extraEmpty : extra = [] := by
      apply String.utf8Len_eq_zero.mp
      rw [beforeEq, String.utf8Len_append] at lower
      omega
    refine ⟨[], middle, rfl, ?_⟩
    simp [← leftLen, beforeEq, extraEmpty]

/-- Two boundaries of a whole text that lie within its middle part cut it in three. -/
theorem exists_cuts_of_isCharBoundary {before middle after : List Char} {first last : Nat}
    (firstBoundary : isCharBoundary (before ++ middle ++ after) first = true)
    (lastBoundary : isCharBoundary (before ++ middle ++ after) last = true)
    (lower : utf8Len before ≤ first) (proper : first ≤ last)
    (upper : last ≤ utf8Len before + utf8Len middle) :
    ∃ front inside back, middle = front ++ inside ++ back ∧
      utf8Len before + utf8Len front = first ∧ first + utf8Len inside = last := by
  obtain ⟨front, tail, rfl, frontLen⟩ :=
    exists_cut_of_isCharBoundary firstBoundary lower (by omega)
  rw [String.utf8Len_append] at upper
  rw [← List.append_assoc before] at lastBoundary
  obtain ⟨inside, back, rfl, insideLen⟩ := exists_cut_of_isCharBoundary lastBoundary
    (by rw [String.utf8Len_append]; omega) (by rw [String.utf8Len_append]; omega)
  rw [String.utf8Len_append, frontLen] at insideLen
  exact ⟨front, inside, back, (List.append_assoc _ _ _).symm, frontLen, insideLen⟩

theorem isCharBoundary_max {text : List Char} {first second : Nat}
    (one : isCharBoundary text first = true) (two : isCharBoundary text second = true) :
    isCharBoundary text (max first second) = true := by
  rcases max_choice first second with same | same
  · rwa [same]
  · rwa [same]

theorem isCharBoundary_min {text : List Char} {first second : Nat}
    (one : isCharBoundary text first = true) (two : isCharBoundary text second = true) :
    isCharBoundary text (min first second) = true := by
  rcases min_choice first second with same | same
  · rwa [same]
  · rwa [same]

/-- Ranges in increasing order that do not overlap, each between two character
boundaries of a text. -/
structure OrderedRanges (text : List Char) (ranges : List ByteRange) : Prop where
  sorted : ranges.Pairwise fun first second => first.stop ≤ second.start
  proper : ∀ range ∈ ranges, range.start ≤ range.stop
  startBoundary : ∀ range ∈ ranges, isCharBoundary text range.start = true
  stopBoundary : ∀ range ∈ ranges, isCharBoundary text range.stop = true

/-- Whether some range holds the byte at an offset. -/
def covers (ranges : List ByteRange) (offset : Nat) : Bool :=
  ranges.any fun range => decide (range.start ≤ offset ∧ offset < range.stop)

namespace OrderedRanges

variable {text : List Char} {range : ByteRange} {ranges : List ByteRange}

theorem tail (ordered : OrderedRanges text (range :: ranges)) :
    OrderedRanges text ranges where
  sorted := (List.pairwise_cons.mp ordered.sorted).2
  proper candidate member := ordered.proper candidate (List.mem_cons_of_mem _ member)
  startBoundary candidate member :=
    ordered.startBoundary candidate (List.mem_cons_of_mem _ member)
  stopBoundary candidate member :=
    ordered.stopBoundary candidate (List.mem_cons_of_mem _ member)

theorem stop_le_start (ordered : OrderedRanges text (range :: ranges)) :
    ∀ later ∈ ranges, range.stop ≤ later.start :=
  (List.pairwise_cons.mp ordered.sorted).1

/-- A range that starts where the earlier ones have stopped may follow them. -/
theorem snoc (ordered : OrderedRanges text ranges)
    (after : ∀ earlier ∈ ranges, earlier.stop ≤ range.start)
    (proper : range.start ≤ range.stop)
    (startBoundary : isCharBoundary text range.start = true)
    (stopBoundary : isCharBoundary text range.stop = true) :
    OrderedRanges text (ranges ++ [range]) where
  sorted := by
    refine List.pairwise_append.mpr ⟨ordered.sorted, List.pairwise_singleton _ _, ?_⟩
    intro earlier member last isLast
    rw [List.mem_singleton.mp isLast]
    exact after earlier member
  proper := by
    simpa [or_imp, forall_and] using And.intro ordered.proper proper
  startBoundary := by
    simpa [or_imp, forall_and] using And.intro ordered.startBoundary startBoundary
  stopBoundary := by
    simpa [or_imp, forall_and] using And.intro ordered.stopBoundary stopBoundary

theorem nil (text : List Char) : OrderedRanges text [] where
  sorted := List.Pairwise.nil
  proper := by simp
  startBoundary := by simp
  stopBoundary := by simp

/-- Two neighbouring ranges may be replaced by the one that spans them. -/
theorem merge {front back : List ByteRange} {first second : ByteRange}
    (ordered : OrderedRanges text (front ++ first :: second :: back)) :
    OrderedRanges text (front ++ ⟨first.start, second.stop⟩ :: back) := by
  have firstMem : first ∈ front ++ first :: second :: back := by simp
  have secondMem : second ∈ front ++ first :: second :: back := by simp
  obtain ⟨frontSorted, restSorted, across⟩ := List.pairwise_append.mp ordered.sorted
  obtain ⟨firstSorted, tailSorted⟩ := List.pairwise_cons.mp restSorted
  obtain ⟨secondSorted, backSorted⟩ := List.pairwise_cons.mp tailSorted
  have firstProper := ordered.proper first firstMem
  have secondProper := ordered.proper second secondMem
  have apart := firstSorted second List.mem_cons_self
  refine ⟨?_, ?_, ?_, ?_⟩
  · refine List.pairwise_append.mpr
      ⟨frontSorted, List.pairwise_cons.mpr ⟨secondSorted, backSorted⟩, ?_⟩
    intro earlier earlierMem later laterMem
    rcases List.mem_cons.mp laterMem with rfl | laterMem
    · exact across earlier earlierMem first List.mem_cons_self
    · exact across earlier earlierMem later (by simp [laterMem])
  all_goals
    intro range member
    rcases List.mem_append.mp member with inFront | inRest
    · first
        | exact ordered.proper range (by simp [inFront])
        | exact ordered.startBoundary range (by simp [inFront])
        | exact ordered.stopBoundary range (by simp [inFront])
    rcases List.mem_cons.mp inRest with rfl | inBack
  · exact firstProper.trans (apart.trans secondProper)
  · exact ordered.proper range (by simp [inBack])
  · exact ordered.startBoundary first firstMem
  · exact ordered.startBoundary range (by simp [inBack])
  · exact ordered.stopBoundary second secondMem
  · exact ordered.stopBoundary range (by simp [inBack])

end OrderedRanges

/-! ### Tilings -/

/-- Nonempty ranges that follow each other without a gap. -/
def Tiles : Nat → List ByteRange → Nat → Prop
  | start, [], stop => start = stop
  | start, range :: ranges, stop =>
      range.start = start ∧ range.start < range.stop ∧ Tiles range.stop ranges stop

/-- Where the first `count` ranges of a tiling stop. -/
def edge : Nat → List ByteRange → Nat → Nat
  | start, _, 0 => start
  | start, [], _ + 1 => start
  | _, range :: ranges, count + 1 => edge range.stop ranges count

theorem tiles_append_iff {start stop : Nat} {first second : List ByteRange} :
    Tiles start (first ++ second) stop ↔
      ∃ middle, Tiles start first middle ∧ Tiles middle second stop := by
  induction first generalizing start with
  | nil =>
      constructor
      · intro tiles
        exact ⟨start, rfl, tiles⟩
      · rintro ⟨middle, rfl, tiles⟩
        exact tiles
  | cons range first ih =>
      constructor
      · rintro ⟨startEq, proper, rest⟩
        obtain ⟨middle, front, back⟩ := ih.mp rest
        exact ⟨middle, ⟨startEq, proper, front⟩, back⟩
      · rintro ⟨middle, ⟨startEq, proper, front⟩, back⟩
        exact ⟨startEq, proper, ih.mpr ⟨middle, front, back⟩⟩

namespace Tiles

variable {start stop : Nat} {ranges : List ByteRange}

theorem getElem? {index : Nat} {range : ByteRange} (tiles : Tiles start ranges stop)
    (found : ranges[index]? = some range) :
    range.start = edge start ranges index ∧ range.stop = edge start ranges (index + 1) := by
  induction ranges generalizing start index with
  | nil => simp at found
  | cons first ranges ih =>
      cases index with
      | zero =>
          simp only [List.getElem?_cons_zero, Option.some.injEq] at found
          subst found
          exact ⟨tiles.1, by cases ranges <;> rfl⟩
      | succ index => exact ih tiles.2.2 (by simpa using found)

theorem edge_le_succ (tiles : Tiles start ranges stop) (count : Nat) :
    edge start ranges count ≤ edge start ranges (count + 1) := by
  induction ranges generalizing start count with
  | nil => cases count <;> exact Nat.le_refl _
  | cons range ranges ih =>
      obtain ⟨startEq, proper, rest⟩ := tiles
      cases count with
      | zero =>
          have reached : edge start (range :: ranges) (0 + 1) = range.stop := by
            cases ranges <;> rfl
          rw [reached]
          change start ≤ range.stop
          omega
      | succ count => exact ih rest count

theorem edge_mono (tiles : Tiles start ranges stop) {first second : Nat}
    (ordered : first ≤ second) : edge start ranges first ≤ edge start ranges second := by
  induction ordered with
  | refl => exact Nat.le_refl _
  | step _ ih => exact ih.trans (edge_le_succ tiles _)

/-- Every edge is a place some range stops at, or the start. -/
theorem edge_mem (start : Nat) (ranges : List ByteRange) (count : Nat) :
    edge start ranges count = start ∨
      ∃ range ∈ ranges, range.stop = edge start ranges count := by
  induction ranges generalizing start count with
  | nil =>
      left
      cases count <;> rfl
  | cons range ranges ih =>
      cases count with
      | zero => exact Or.inl rfl
      | succ count =>
          right
          rcases ih range.stop count with same | ⟨found, member, stopEq⟩
          · exact ⟨range, List.mem_cons_self, same.symm⟩
          · exact ⟨found, List.mem_cons_of_mem _ member, stopEq⟩

end Tiles

end Utf8
