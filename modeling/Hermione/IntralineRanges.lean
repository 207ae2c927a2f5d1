import Hermione.Intraline
import Hermione.OptionTraversal

/-!
# The changed words are ordered ranges

Tokens tile a line: they are nonempty, follow each other without a gap and end
on character boundaries.  An operation of a valid script names a run of tokens,
so its bytes lie between two edges of the tiling, and later operations name
later edges.  Joining ranges across whitespace keeps them ordered.  Hence every
slice the comparison takes exists, and what it answers can be marked.
-/

namespace Hermione

namespace Intraline

open Utf8 EditScripts
open String (utf8Len)

/-- Tokens that tile the first `stop` bytes of a line. -/
structure Tokenized (line : Str) (tokens : List ByteRange) (stop : Nat) : Prop where
  tiles : Tiles 0 tokens stop
  boundary : ∀ token ∈ tokens, isCharBoundary line token.stop = true

variable (words : WordDiff)

private theorem tiles_concat {start stop : Nat} {front : List ByteRange}
    {last : ByteRange} (tiles : Tiles start (front ++ [last]) stop) :
    Tiles start front last.start ∧ last.start < last.stop ∧ last.stop = stop := by
  obtain ⟨middle, frontTiles, lastTiles⟩ := tiles_append_iff.mp tiles
  obtain ⟨startEq, proper, stopEq⟩ := lastTiles
  subst startEq
  exact ⟨frontTiles, proper, stopEq⟩

/-- One more character either lengthens the last token or starts a new one. -/
theorem tokenized_pushToken {line : Str} {out : List ByteRange} {offset : Nat}
    {char : Char} (last : Option Kind) (tokenized : Tokenized line out offset)
    (boundary : isCharBoundary line (offset + char.utf8Size) = true) :
    Tokenized line (pushToken words out last offset char)
      (offset + char.utf8Size) := by
  have positive := Char.utf8Size_pos char
  have appended : Tokenized line (out ++ [⟨offset, offset + char.utf8Size⟩])
      (offset + char.utf8Size) := by
    refine ⟨tiles_append_iff.mpr ⟨offset, tokenized.tiles, rfl, ?_, rfl⟩, ?_⟩
    · dsimp only
      omega
    · intro token member
      rcases List.mem_append.mp member with old | new
      · exact tokenized.boundary token old
      · rw [List.mem_singleton.mp new]
        exact boundary
  unfold pushToken
  cases found : out.getLast? with
  | none => exact appended
  | some run =>
      dsimp only
      split
      · obtain ⟨front, rfl⟩ := List.getLast?_eq_some_iff.mp found
        obtain ⟨frontTiles, proper, stopEq⟩ := tiles_concat tokenized.tiles
        rw [List.dropLast_concat]
        refine ⟨tiles_append_iff.mpr ⟨run.start, frontTiles, rfl, ?_, rfl⟩, ?_⟩
        · dsimp only
          omega
        · intro token member
          rcases List.mem_append.mp member with old | new
          · exact tokenized.boundary token (List.mem_append_left _ old)
          · rw [List.mem_singleton.mp new]
            exact boundary
      · exact appended

/-- The loop over the characters, with those of `left` done. -/
theorem tokenized_tokensFrom (left : Str) {rest : Str} {out : List ByteRange}
    {last : Option Kind} (tokenized : Tokenized (left ++ rest) out (utf8Len left)) :
    Tokenized (left ++ rest) (tokensFrom words out last (utf8Len left) rest)
      (utf8Len (left ++ rest)) := by
  induction rest generalizing left out last with
  | nil => simpa [tokensFrom] using tokenized
  | cons char rest ih =>
      have stopEq : utf8Len (left ++ [char]) = utf8Len left + char.utf8Size := by
        rw [String.utf8Len_append, String.utf8Len_cons]
        simp
      have whole : left ++ char :: rest = (left ++ [char]) ++ rest := by simp
      rw [whole] at tokenized ⊢
      have boundary : isCharBoundary (left ++ [char] ++ rest)
          (utf8Len left + char.utf8Size) = true :=
        isCharBoundary_iff.mpr ⟨left ++ [char], rest, rfl, stopEq⟩
      have pushed := tokenized_pushToken words last tokenized boundary
      rw [tokensFrom, ← stopEq]
      rw [← stopEq] at pushed
      exact ih _ pushed

theorem tokenized_tokens (line : Str) :
    Tokenized line (tokens words line) (utf8Len line) := by
  have start : Tokenized ([] ++ line) [] (utf8Len []) :=
    ⟨rfl, by simp⟩
  exact tokenized_tokensFrom words [] start

namespace Tokenized

variable {words} {line : Str} {tokens : List ByteRange} {stop : Nat}

theorem edge_boundary (tokenized : Tokenized line tokens stop) (count : Nat) :
    isCharBoundary line (edge 0 tokens count) = true := by
  rcases Tiles.edge_mem 0 tokens count with atStart | ⟨token, member, stopEq⟩
  · rw [atStart]
    exact isCharBoundary_zero line
  · rw [← stopEq]
    exact tokenized.boundary token member

theorem token_slice (tokenized : Tokenized line tokens stop) :
    ∀ token ∈ tokens, ∃ piece, slice line token = some piece := by
  intro token member
  obtain ⟨index, inside, tokenEq⟩ := List.getElem_of_mem member
  have found : tokens[index]? = some token := by
    rw [List.getElem?_eq_getElem inside, tokenEq]
  obtain ⟨startEq, stopEq⟩ := tokenized.tiles.getElem? found
  apply exists_slice
  · rw [startEq, stopEq]
    exact tokenized.tiles.edge_le_succ index
  · rw [startEq]
    exact tokenized.edge_boundary index
  · exact tokenized.boundary token member

/-- A run of tokens occupies the bytes between two edges. -/
theorem span_eq (tokenized : Tokenized line tokens stop) {first last : Nat}
    {range : ByteRange} (found : span tokens first last = some range) :
    range = ⟨edge 0 tokens first, edge 0 tokens last⟩ := by
  unfold span at found
  obtain ⟨firstToken, firstFound, rest⟩ := Option.bind_eq_some_iff.mp found
  split at rest
  · simp at rest
  · rename_i nonempty
    obtain ⟨lastToken, lastFound, equal⟩ := Option.map_eq_some_iff.mp rest
    have firstEdges := tokenized.tiles.getElem? firstFound
    have lastEdges := tokenized.tiles.getElem? lastFound
    have lastIndex : last - 1 + 1 = last := by omega
    rw [lastIndex] at lastEdges
    rw [← equal, firstEdges.1, lastEdges.2]

/-- The tokens' ranges may be extended by a later run of them. -/
theorem ordered_span (tokenized : Tokenized line tokens stop) {gathered : List ByteRange}
    {first : Nat} (count : Nat) (ordered : OrderedRanges line gathered)
    (before : ∀ range ∈ gathered, range.stop ≤ edge 0 tokens first) :
    OrderedRanges line (gathered ++ (span tokens first (first + count)).toList) ∧
      ∀ range ∈ gathered ++ (span tokens first (first + count)).toList,
        range.stop ≤ edge 0 tokens (first + count) := by
  have increasing : edge 0 tokens first ≤ edge 0 tokens (first + count) :=
    tokenized.tiles.edge_mono (Nat.le_add_right _ _)
  cases found : span tokens first (first + count) with
  | none =>
      simp only [Option.toList_none, List.append_nil]
      exact ⟨ordered, fun range member => (before range member).trans increasing⟩
  | some range =>
      have rangeEq := tokenized.span_eq found
      subst rangeEq
      constructor
      · exact ordered.snoc before increasing (tokenized.edge_boundary _)
          (tokenized.edge_boundary _)
      · intro candidate member
        rcases List.mem_append.mp member with old | new
        · exact (before candidate old).trans increasing
        · have same : candidate = ⟨edge 0 tokens first, edge 0 tokens (first + count)⟩ := by
            simpa using new
          rw [same]

end Tokenized

/-- The loop over the operations, standing before token `i` of the old line and
`j` of the new one. -/
theorem gather_ordered {old new : Str} {oldTokens newTokens : List ByteRange}
    {oldStop newStop : Nat} {oldWords newWords : List Str} {i j m n : Nat}
    {ops : List Op} (gathered : Gathered)
    (oldTokenized : Tokenized old oldTokens oldStop)
    (newTokenized : Tokenized new newTokens newStop)
    (leads : Leads oldWords newWords i j ops m n)
    (goneOrdered : OrderedRanges old gathered.gone)
    (goneBefore : ∀ range ∈ gathered.gone, range.stop ≤ edge 0 oldTokens i)
    (addedOrdered : OrderedRanges new gathered.added)
    (addedBefore : ∀ range ∈ gathered.added, range.stop ≤ edge 0 newTokens j) :
    ∃ result, gather old oldTokens newTokens gathered ops = some result ∧
      OrderedRanges old result.gone ∧ OrderedRanges new result.added := by
  induction ops generalizing i j gathered with
  | nil => exact ⟨gathered, rfl, goneOrdered, addedOrdered⟩
  | cons op ops ih =>
      obtain ⟨rfl, rfl, _, rest⟩ := leads
      have goneExtended :=
        oldTokenized.ordered_span op.oldLen goneOrdered goneBefore
      have addedExtended :=
        newTokenized.ordered_span op.newLen addedOrdered addedBefore
      have oldIncreasing : edge 0 oldTokens op.oldIndex ≤
          edge 0 oldTokens (op.oldIndex + op.oldLen) :=
        oldTokenized.tiles.edge_mono (Nat.le_add_right _ _)
      have newIncreasing : edge 0 newTokens op.newIndex ≤
          edge 0 newTokens (op.newIndex + op.newLen) :=
        newTokenized.tiles.edge_mono (Nat.le_add_right _ _)
      cases op with
      | equal oldIndex newIndex len =>
          have skipped := fun shared => ih { gathered with shared } rest goneOrdered
            (fun range member => (goneBefore range member).trans oldIncreasing) addedOrdered
            (fun range member => (addedBefore range member).trans newIncreasing)
          rw [gather]
          split
          · exact skipped gathered.shared
          · rename_i range found
            have rangeEq := oldTokenized.span_eq found
            obtain ⟨text, sliced⟩ : ∃ text, slice old range = some text := by
              rw [rangeEq]
              exact exists_slice oldIncreasing (oldTokenized.edge_boundary _)
                (oldTokenized.edge_boundary _)
            rw [sliced, Option.bind_some]
            exact skipped _
      | delete | insert | replace =>
          exact ih _ rest goneExtended.1 goneExtended.2 addedExtended.1 addedExtended.2

/-- Joining keeps ranges ordered; `out` is what is joined already. -/
theorem joinFrom_ordered {line : Str} (out : List ByteRange) {ranges : List ByteRange}
    (ordered : OrderedRanges line (out ++ ranges)) :
    ∃ marks, joinFrom line out ranges = some marks ∧ OrderedRanges line marks := by
  induction ranges generalizing out with
  | nil => exact ⟨out, rfl, by simpa using ordered⟩
  | cons range ranges ih =>
      have appended : OrderedRanges line ((out ++ [range]) ++ ranges) := by
        simpa using ordered
      rw [joinFrom, joinRange]
      cases found : out.getLast? with
      | none =>
          rw [Option.bind_some]
          exact ih _ appended
      | some last =>
          obtain ⟨front, rfl⟩ := List.getLast?_eq_some_iff.mp found
          have lastMem : last ∈ front ++ [last] ++ range :: ranges := by simp
          have rangeMem : range ∈ front ++ [last] ++ range :: ranges := by simp
          have apart : last.stop ≤ range.start :=
            (List.pairwise_append.mp ordered.sorted).2.2 last (by simp) range (by simp)
          obtain ⟨between, sliced⟩ :
              ∃ between, slice line ⟨last.stop, range.start⟩ = some between :=
            exists_slice apart (ordered.stopBoundary last lastMem)
              (ordered.startBoundary range rangeMem)
          dsimp only
          rw [sliced, Option.map_some, Option.bind_some]
          split
          · rw [List.dropLast_concat]
            apply ih
            have neighbours : OrderedRanges line (front ++ last :: range :: ranges) := by
              simpa using ordered
            simpa using neighbours.merge
          · exact ih _ appended

/-- Comparing two lines never cuts a character, and what it answers are ordered
ranges of the two. -/
theorem changes_ordered {words : WordDiff} (valid : words.Valid) (old new : Str) :
    ∃ answer, changes words old new = some answer ∧
      ∀ marks, answer = some marks →
        OrderedRanges old marks.old ∧ OrderedRanges new marks.new := by
  unfold changes
  split
  · exact ⟨none, rfl, by simp⟩
  · have oldTokenized := tokenized_tokens words old
    have newTokenized := tokenized_tokens words new
    obtain ⟨oldWords, oldWordsEq⟩ := OptionTraversal.exists_mapM_iff.mpr oldTokenized.token_slice
    obtain ⟨newWords, newWordsEq⟩ := OptionTraversal.exists_mapM_iff.mpr newTokenized.token_slice
    obtain ⟨gathered, gatheredEq, goneOrdered, addedOrdered⟩ :=
      gather_ordered ⟨[], [], 0⟩ oldTokenized newTokenized
        (valid oldWords newWords) (.nil old) (by simp) (.nil new) (by simp)
    obtain ⟨oldMarks, oldMarksEq, oldOrdered⟩ :=
      joinFrom_ordered [] (by simpa using goneOrdered)
    obtain ⟨newMarks, newMarksEq, newOrdered⟩ :=
      joinFrom_ordered [] (by simpa using addedOrdered)
    simp only [oldWordsEq, newWordsEq, gatheredEq, join, oldMarksEq, newMarksEq,
      Option.bind_eq_bind, Option.bind_some]
    split
    · exact ⟨none, rfl, by simp⟩
    · split
      · exact ⟨none, rfl, by simp⟩
      · refine ⟨_, rfl, ?_⟩
        rintro marks ⟨⟩
        exact ⟨oldOrdered, newOrdered⟩

end Intraline

end Hermione
