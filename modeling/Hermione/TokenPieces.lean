import Mathlib.Data.List.Chain
import Hermione.IntralineRanges

/-!
# Tokens as the words they stand for

A line is its words one after another, and its tokens are the bytes each of them
takes.  No word mixes kinds of characters, and no two neighbours are both
whitespace.
-/

namespace Hermione

namespace Intraline

open Utf8 EditScripts
open String (utf8Len)

/-- The bytes that pieces of a text take, the first of them from `start` on. -/
def pieceRanges : Nat → List Str → List ByteRange
  | _, [] => []
  | start, piece :: pieces =>
      ⟨start, start + utf8Len piece⟩ :: pieceRanges (start + utf8Len piece) pieces

/-- Where the first `count` pieces of a text stop. -/
def pieceEdge (pieces : List Str) (count : Nat) : Nat :=
  utf8Len (pieces.take count).flatten

theorem utf8Len_flatten_cons (piece : Str) (pieces : List Str) :
    utf8Len (piece :: pieces).flatten = utf8Len piece + utf8Len pieces.flatten := by
  rw [List.flatten_cons, String.utf8Len_append]

theorem length_pieceRanges (start : Nat) (pieces : List Str) :
    (pieceRanges start pieces).length = pieces.length := by
  induction pieces generalizing start with
  | nil => rfl
  | cons piece pieces ih => simp [pieceRanges, ih]

theorem pieceRanges_append (start : Nat) (front back : List Str) :
    pieceRanges start (front ++ back) =
      pieceRanges start front ++ pieceRanges (start + utf8Len front.flatten) back := by
  induction front generalizing start with
  | nil => simp [pieceRanges]
  | cons piece front ih =>
      rw [List.cons_append, pieceRanges, pieceRanges, ih, utf8Len_flatten_cons,
        List.cons_append, Nat.add_assoc]

theorem getElem?_pieceRanges (start : Nat) {pieces : List Str} {index : Nat}
    (inside : index < pieces.length) :
    (pieceRanges start pieces)[index]? =
      some ⟨start + pieceEdge pieces index, start + pieceEdge pieces (index + 1)⟩ := by
  induction pieces generalizing start index with
  | nil => exact absurd inside (Nat.not_lt_zero _)
  | cons piece pieces ih =>
      cases index with
      | zero => simp [pieceRanges, pieceEdge]
      | succ index =>
          have step := ih (start + utf8Len piece) (Nat.lt_of_succ_lt_succ inside)
          simp only [pieceEdge] at step
          simp [pieceRanges, pieceEdge, step, Nat.add_assoc]

/-- The pieces from one to another are what lies between their edges. -/
theorem slice_pieces (pieces : List Str) {first last : Nat} (ordered : first ≤ last) :
    slice pieces.flatten ⟨pieceEdge pieces first, pieceEdge pieces last⟩ =
      some ((pieces.take last).drop first).flatten := by
  have front : pieces.take first ++ (pieces.take last).drop first = pieces.take last := by
    have taken : (pieces.take last).take first = pieces.take first := by
      rw [List.take_take, Nat.min_eq_left ordered]
    rw [← taken, List.take_append_drop]
  rw [slice_eq_some_iff]
  refine ⟨(pieces.take first).flatten, (pieces.drop last).flatten, ?_, rfl, ?_⟩
  · rw [← List.flatten_append, ← List.flatten_append, front, List.take_append_drop]
  · rw [← String.utf8Len_append, ← List.flatten_append, front]
    rfl

/-- Reading every range of pieces gives them back. -/
theorem mapM_slice_pieceRanges (front : Str) (pieces : List Str) (back : Str) :
    (pieceRanges (utf8Len front) pieces).mapM (slice (front ++ pieces.flatten ++ back)) =
      some pieces := by
  induction pieces generalizing front with
  | nil => rfl
  | cons piece pieces ih =>
      have here : slice (front ++ (piece :: pieces).flatten ++ back)
          ⟨utf8Len front, utf8Len front + utf8Len piece⟩ = some piece := by
        rw [slice_eq_some_iff]
        exact ⟨front, pieces.flatten ++ back, by simp, rfl, rfl⟩
      have rest := ih (front ++ piece)
      have whole : front ++ piece ++ pieces.flatten ++ back =
          front ++ (piece :: pieces).flatten ++ back := by simp
      rw [whole, String.utf8Len_append] at rest
      rw [pieceRanges, List.mapM_cons, here, rest]
      rfl

theorem pieceEdge_mono (pieces : List Str) {first last : Nat} (ordered : first ≤ last) :
    pieceEdge pieces first ≤ pieceEdge pieces last := by
  have taken : (pieces.take last).take first = pieces.take first := by
    rw [List.take_take, Nat.min_eq_left ordered]
  unfold pieceEdge
  rw [← taken, ← List.take_append_drop first (pieces.take last), List.flatten_append,
    String.utf8Len_append, List.take_append_drop]
  exact Nat.le_add_right _ _

/-- A piece takes the bytes between its edge and the next. -/
theorem pieceEdge_succ {pieces : List Str} {index : Nat} {piece : Str}
    (found : pieces[index]? = some piece) :
    pieceEdge pieces (index + 1) = pieceEdge pieces index + utf8Len piece := by
  unfold pieceEdge
  rw [List.take_add_one, found, Option.toList_some, List.flatten_append,
    List.flatten_singleton, String.utf8Len_append]

theorem utf8Len_pos {piece : Str} (filled : piece ≠ []) : 0 < utf8Len piece :=
  Nat.pos_of_ne_zero fun none => filled (String.utf8Len_eq_zero.mp none)

/-- Pieces that are not empty stop at different places. -/
theorem pieceEdge_lt {pieces : List Str} (filled : ∀ piece ∈ pieces, piece ≠ [])
    {first last : Nat} (ordered : first < last) (inside : last ≤ pieces.length) :
    pieceEdge pieces first < pieceEdge pieces last := by
  obtain ⟨piece, found⟩ : ∃ piece, pieces[first]? = some piece :=
    ⟨_, List.getElem?_eq_getElem (ordered.trans_le inside)⟩
  have wide := utf8Len_pos (filled piece (List.mem_of_getElem? found))
  have next := pieceEdge_succ found
  have later := pieceEdge_mono pieces (Nat.succ_le_of_lt ordered)
  have same : pieceEdge pieces (first + 1) = pieceEdge pieces first.succ := rfl
  omega

/-! ### The words of a line -/

variable (words : WordDiff)

/-- The words that the loop over the characters has cut `left` into, with the kind of
the last character. -/
structure Cut (left : Str) (out : List ByteRange) (last : Option Kind)
    (pieces : List Str) : Prop where
  ranges : out = pieceRanges 0 pieces
  whole : pieces.flatten = left
  filled : ∀ piece ∈ pieces, piece ≠ []
  pure : ∀ piece ∈ pieces, ∀ one ∈ piece, ∀ other ∈ piece, kind words one = kind words other
  apart : pieces.IsChain fun one next => ∀ char ∈ one, ∀ other ∈ next,
    kind words char = kind words other → kind words char = .symbol
  kindLast : last = left.getLast?.map (kind words)

variable {words}

/-- One more character starts a word of its own, unless it is of the kind of the one
before it. -/
theorem Cut.snoc {left : Str} {out : List ByteRange} {last : Option Kind}
    {pieces : List Str} (cut : Cut words left out last pieces) (char : Char)
    (other : last = some (kind words char) → kind words char = .symbol) :
    Cut words (left ++ [char]) (out ++ [⟨utf8Len left, utf8Len left + char.utf8Size⟩])
      (some (kind words char)) (pieces ++ [[char]]) where
  ranges := by
    rw [pieceRanges_append, cut.ranges, cut.whole]
    simp [pieceRanges]
  whole := by simp [cut.whole]
  filled := by
    intro piece member
    rcases List.mem_append.mp member with old | new
    · exact cut.filled piece old
    · rw [List.mem_singleton.mp new]
      exact List.cons_ne_nil _ _
  pure := by
    intro piece member one oneMember two twoMember
    rcases List.mem_append.mp member with old | new
    · exact cut.pure piece old one oneMember two twoMember
    · rw [List.mem_singleton.mp new] at oneMember twoMember
      rw [List.mem_singleton.mp oneMember, List.mem_singleton.mp twoMember]
  apart := by
    rw [List.isChain_append]
    refine ⟨cut.apart, List.isChain_singleton _, ?_⟩
    intro piece ends next starts one oneMember two twoMember same
    have nextEq : [char] = next := by simpa using starts
    rw [← nextEq, List.mem_singleton] at twoMember
    rw [twoMember] at same
    rw [same]
    apply other
    have piece_mem := List.mem_of_getLast? ends
    obtain ⟨final, closes⟩ : ∃ final, piece.getLast? = some final :=
      ⟨_, List.getLast?_eq_some_getLast (List.ne_nil_of_mem oneMember)⟩
    have leftLast : left.getLast? = some final := by
      obtain ⟨front, rfl⟩ := List.getLast?_eq_some_iff.mp ends
      rw [← cut.whole, List.flatten_append, List.flatten_singleton, List.getLast?_append, closes]
      rfl
    rw [cut.kindLast, leftLast, Option.map_some, ← same,
      cut.pure piece piece_mem final (List.mem_of_getLast? closes) one oneMember]
  kindLast := by simp

/-- A character of the kind of the one before it lengthens the last word. -/
theorem Cut.lengthen {left : Str} {out : List ByteRange} {front : List Str} {piece : Str}
    (char : Char) (cut : Cut words left out (some (kind words char)) (front ++ [piece])) :
    Cut words (left ++ [char])
      (out.dropLast ++ [⟨utf8Len front.flatten, utf8Len left + char.utf8Size⟩])
      (some (kind words char)) (front ++ [piece ++ [char]]) := by
  have last_mem : piece ∈ front ++ [piece] := List.mem_append_right _ (List.mem_singleton_self _)
  have filled := cut.filled piece last_mem
  obtain ⟨final, closes⟩ : ∃ final, piece.getLast? = some final :=
    ⟨_, List.getLast?_eq_some_getLast filled⟩
  have sameKind (one : Char) (member : one ∈ piece) : kind words one = kind words char := by
    have leftLast : left.getLast? = some final := by
      rw [← cut.whole, List.flatten_append, List.flatten_singleton, List.getLast?_append, closes]
      rfl
    have kinds := cut.kindLast
    rw [leftLast, Option.map_some, Option.some.injEq] at kinds
    rw [kinds, cut.pure piece last_mem one member final (List.mem_of_getLast? closes)]
  have among (one : Char) (member : one ∈ piece ++ [char]) :
      kind words one = kind words char := by
    rcases List.mem_append.mp member with old | new
    · exact sameKind one old
    · rw [List.mem_singleton.mp new]
  have leftLen : utf8Len left = utf8Len front.flatten + utf8Len piece := by
    rw [← cut.whole, List.flatten_append, List.flatten_singleton, String.utf8Len_append]
  refine ⟨?_, ?_, ?_, ?_, ?_, ?_⟩
  · rw [cut.ranges, pieceRanges_append, pieceRanges_append, pieceRanges, pieceRanges,
      List.dropLast_concat, leftLen, pieceRanges, pieceRanges, String.utf8Len_append]
    simp [Nat.add_assoc]
  · rw [← cut.whole]
    simp
  · intro other member
    rcases List.mem_append.mp member with old | new
    · exact cut.filled other (List.mem_append_left _ old)
    · rw [List.mem_singleton.mp new]
      simp
  · intro other member one oneMember two twoMember
    rcases List.mem_append.mp member with old | new
    · exact cut.pure other (List.mem_append_left _ old) one oneMember two twoMember
    · rw [List.mem_singleton.mp new] at oneMember twoMember
      rw [among one oneMember, among two twoMember]
  · obtain ⟨early, _, joint⟩ := List.isChain_append.mp cut.apart
    rw [List.isChain_append]
    refine ⟨early, List.isChain_singleton _, ?_⟩
    intro before ends next starts one oneMember two twoMember same
    have nextEq : piece ++ [char] = next := by simpa using starts
    rw [← nextEq] at twoMember
    have finalMember := List.mem_of_getLast? closes
    apply joint before ends piece rfl one oneMember final finalMember
    rw [same, among two twoMember, sameKind final finalMember]
  · simp

theorem cut_pushToken {left : Str} {out : List ByteRange} {last : Option Kind}
    {pieces : List Str} (cut : Cut words left out last pieces) (char : Char) :
    ∃ pieces, Cut words (left ++ [char]) (pushToken words out last (utf8Len left) char)
      (some (kind words char)) pieces := by
  unfold pushToken
  rcases List.eq_nil_or_concat pieces with rfl | ⟨front, piece, rfl⟩
  · have nothing : left = [] := cut.whole.symm
    have empty : out = [] := cut.ranges
    have unkept : last = none := by rw [cut.kindLast, nothing]; rfl
    rw [empty]
    rw [empty] at cut
    exact ⟨_, cut.snoc char (by rw [unkept]; simp)⟩
  · rw [List.concat_eq_append] at cut
    have ends : out.getLast? =
        some ⟨utf8Len front.flatten, utf8Len front.flatten + utf8Len piece⟩ := by
      rw [cut.ranges, pieceRanges_append]
      simp [pieceRanges]
    rw [ends]
    dsimp only
    split
    · next same =>
        rw [same.1] at cut
        exact ⟨_, cut.lengthen char⟩
    · next other =>
        apply Exists.intro
        apply cut.snoc char
        intro same
        by_contra merges
        exact other ⟨same, merges⟩

theorem cut_tokensFrom {left : Str} {out : List ByteRange} {last : Option Kind}
    {pieces : List Str} (cut : Cut words left out last pieces) (rest : Str) :
    ∃ final all, Cut words (left ++ rest) (tokensFrom words out last (utf8Len left) rest)
      final all := by
  induction rest generalizing left out last pieces with
  | nil => exact ⟨last, pieces, by simpa [tokensFrom] using cut⟩
  | cons char rest ih =>
      obtain ⟨_, pushed⟩ := cut_pushToken cut char
      have step := ih pushed
      have stop : utf8Len (left ++ [char]) = utf8Len left + char.utf8Size := by
        rw [String.utf8Len_append, String.utf8Len_cons, String.utf8Len_nil, Nat.zero_add]
      rwa [stop, List.append_assoc, List.singleton_append] at step

variable (words)

/-- A line is its words. -/
theorem cut_tokens (line : Str) :
    ∃ last pieces, Cut words line (tokens words line) last pieces := by
  have start : Cut words [] [] none [] := by
    constructor <;> simp [pieceRanges]
  exact cut_tokensFrom start line

variable {words}

namespace Cut

variable {line : Str} {tokens : List ByteRange} {last : Option Kind} {pieces : List Str}
variable (cut : Cut words line tokens last pieces)

include cut

theorem length_eq : tokens.length = pieces.length := by
  rw [cut.ranges, length_pieceRanges]

theorem mapM_slice : tokens.mapM (slice line) = some pieces := by
  have sliced := mapM_slice_pieceRanges [] pieces []
  rw [String.utf8Len_nil, List.nil_append, List.append_nil, cut.whole] at sliced
  rwa [cut.ranges]

theorem token_eq {index : Nat} (inside : index < pieces.length) :
    tokens[index]? = some ⟨pieceEdge pieces index, pieceEdge pieces (index + 1)⟩ := by
  rw [cut.ranges, getElem?_pieceRanges 0 inside, Nat.zero_add, Nat.zero_add]

end Cut

end Intraline

end Hermione
