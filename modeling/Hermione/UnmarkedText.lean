import Hermione.MarkedRuns
import Hermione.FaithfulDiff

/-!
# What the marks leave

The words that a script takes are marked and those it keeps are the same on both
sides, so apart from whitespace the unmarked text is too.  Marks with nothing but
whitespace between them are one mark, so that marks which leave nothing of a line are
a single one, and those are not shown.
-/

namespace Hermione

namespace Intraline

open Utf8 EditScripts JoinedRuns
open String (utf8Len)

/-- The characters of a text, which starts at byte `start` of its line, that no mark
holds. -/
def unmarkedFrom (marks : List ByteRange) : Nat → Str → Str
  | _, [] => []
  | start, char :: text =>
      if Utf8.covers marks start then unmarkedFrom marks (start + char.utf8Size) text
      else char :: unmarkedFrom marks (start + char.utf8Size) text

def unmarked (marks : List ByteRange) (line : Str) : Str :=
  unmarkedFrom marks 0 line

/-- A text without its whitespace. -/
def solid (text : Str) : Str :=
  text.filter fun char => !Str.isWhitespace char

/-- What the marks leave of a line, leaving aside the whitespace around it. -/
def unmarkedTrimmed (marks : List ByteRange) (line : Str) : Str :=
  unmarkedFrom marks (Str.len line - Str.len (Str.trimStart line)) (Str.trim line)

theorem unmarkedFrom_append (marks : List ByteRange) (start : Nat) (front back : Str) :
    unmarkedFrom marks start (front ++ back) =
      unmarkedFrom marks start front ++ unmarkedFrom marks (start + utf8Len front) back := by
  induction front generalizing start with
  | nil => rfl
  | cons char front ih =>
      have next : start + char.utf8Size + utf8Len front = start + utf8Len (char :: front) := by
        rw [String.utf8Len_cons]
        omega
      simp only [List.cons_append, unmarkedFrom, ih, next]
      split <;> rfl

/-- A text whose bytes are all marked, or all not. -/
theorem unmarkedFrom_eq {marks : List ByteRange} {start : Nat} {text : Str} {marked : Bool}
    (same : ∀ offset, start ≤ offset → offset < start + utf8Len text →
      Utf8.covers marks offset = marked) :
    unmarkedFrom marks start text = if marked then [] else text := by
  induction text generalizing start with
  | nil => simp [unmarkedFrom]
  | cons char text ih =>
      have wide := Char.utf8Size_pos char
      rw [String.utf8Len_cons] at same
      have rest := @ih (start + char.utf8Size)
        fun offset late early => same offset (by omega) (by omega)
      rw [unmarkedFrom, same start (le_refl _) (by omega), rest]
      cases marked <;> rfl

/-- A mark made of words holds the bytes of its words. -/
theorem covers_bytesOf {pieces : List Str} {runs : List Run} {index offset : Nat}
    (late : pieceEdge pieces index ≤ offset) (early : offset < pieceEdge pieces (index + 1)) :
    Utf8.covers (runs.map (bytesOf pieces)) offset = decide (Held runs index) := by
  rw [Bool.eq_iff_iff, Utf8.covers, List.any_eq_true, decide_eq_true_iff]
  constructor
  · rintro ⟨_, member, inside⟩
    obtain ⟨run, among, rfl⟩ := List.mem_map.mp member
    obtain ⟨first, last⟩ := of_decide_eq_true inside
    refine ⟨run, among, ?_, ?_⟩
    · by_contra beyond
      have := pieceEdge_mono pieces (Nat.succ_le_of_lt (not_le.mp beyond))
      exact absurd first (not_le.mpr (early.trans_le this))
    · by_contra beyond
      have := pieceEdge_mono pieces (not_lt.mp beyond)
      exact absurd last (not_lt.mpr (this.trans late))
  · rintro ⟨run, among, first, last⟩
    refine ⟨bytesOf pieces run, List.mem_map_of_mem among, decide_eq_true ⟨?_, ?_⟩⟩
    · exact (pieceEdge_mono pieces first).trans late
    · exact early.trans_le (pieceEdge_mono pieces (Nat.succ_le_of_lt last))

/-- The text left unmarked is the words that no run has. -/
theorem unmarkedFrom_bytesOf (runs : List Run) (front back : List Str) :
    unmarkedFrom (runs.map (bytesOf (front ++ back))) (utf8Len front.flatten) back.flatten =
      (spare runs front.length back).flatten := by
  induction back generalizing front with
  | nil => rfl
  | cons piece back ih =>
      have edge : pieceEdge (front ++ piece :: back) front.length = utf8Len front.flatten := by
        simp [pieceEdge]
      have found : (front ++ piece :: back)[front.length]? = some piece := by simp
      have next := pieceEdge_succ found
      have here := @unmarkedFrom_eq (runs.map (bytesOf (front ++ piece :: back)))
        (utf8Len front.flatten) piece (decide (Held runs front.length))
        fun offset late early => covers_bytesOf (edge ▸ late) (by omega)
      have rest := ih (front ++ [piece])
      rw [List.append_assoc, List.singleton_append, List.flatten_append, List.flatten_singleton,
        String.utf8Len_append, List.length_append, List.length_singleton] at rest
      rw [List.flatten_cons, unmarkedFrom_append, here, rest, spare]
      by_cases held : Held runs front.length
      · simp [held]
      · simp [held]

theorem unmarked_bytesOf (runs : List Run) (pieces : List Str) :
    unmarked (runs.map (bytesOf pieces)) pieces.flatten = (spare runs 0 pieces).flatten :=
  unmarkedFrom_bytesOf runs [] pieces

theorem solid_append (front back : Str) : solid (front ++ back) = solid front ++ solid back :=
  List.filter_append ..

/-- Holding some blank words besides leaves the same text apart from whitespace. -/
theorem solid_spare {runs others : List Run} (front back : List Str)
    (more : ∀ index, Held runs index → Held others index)
    (blanks : ∀ index, Held others index →
      Held runs index ∨ blankAt (front ++ back) index = true) :
    solid (spare others front.length back).flatten =
      solid (spare runs front.length back).flatten := by
  induction back generalizing front with
  | nil => rfl
  | cons piece back ih =>
      have rest := ih (front ++ [piece]) (by simpa using blanks)
      rw [List.length_append, List.length_singleton] at rest
      rw [spare, spare]
      by_cases held : Held runs front.length
      · rw [if_pos held, if_pos (more _ held)]
        exact rest
      · rw [if_neg held, List.flatten_cons, solid_append, ← rest]
        by_cases other : Held others front.length
        · have blank := (blanks _ other).resolve_left held
          have found : (front ++ piece :: back)[front.length]? = some piece := by simp
          rw [blankAt, found] at blank
          have nothing : solid piece = [] := by
            rw [solid, List.filter_eq_nil_iff]
            intro char member
            rw [List.all_eq_true.mp blank char member]
            decide
          rw [if_pos other, nothing, List.nil_append]
        · rw [if_neg other, List.flatten_cons, solid_append]

/-! ### The words that the script keeps -/

/-- The words that a script keeps, on one side of it. -/
def keptWords (index len : Op → Nat) (pieces : List Str) (script : List Op) : List Str :=
  script.flatMap fun op => if edits op then [] else EditScripts.segment pieces (index op) (len op)

theorem spare_runsOf {index len : Op → Nat} {pieces : List Str} {start : Nat} {script : List Op}
    (walks : Walks index len start script pieces.length) :
    spare (runsOf index len script) start (pieces.drop start) =
      keptWords index len pieces script := by
  induction script generalizing start with
  | nil =>
      rw [show start = pieces.length from walks, List.drop_length]
      rfl
  | cons op script ih =>
      obtain ⟨rfl, rest⟩ := walks
      obtain ⟨within, later⟩ := bounds_of_walks rest
      have split : pieces.drop (index op) =
          EditScripts.segment pieces (index op) (len op) ++ pieces.drop (index op + len op) := by
        rw [EditScripts.segment, ← List.drop_drop, List.take_append_drop]
      have length : (EditScripts.segment pieces (index op) (len op)).length = len op :=
        length_segment within
      rw [split, spare_append, length, runsOf_cons, keptWords, List.flatMap_cons]
      change _ = _ ++ keptWords index len pieces script
      rw [← ih rest]
      split
      · rw [List.nil_append, spare_eq_nil, List.nil_append]
        · apply spare_congr
          intro other late _
          rw [held_cons_iff, or_iff_right]
          exact fun has => absurd has.2 (not_lt.mpr late)
        · intro other late early
          rw [length] at early
          exact ⟨_, List.mem_cons_self, late, early⟩
      · rw [spare_eq_self]
        intro other _ early
        rw [length] at early
        rintro ⟨run, member, has⟩
        have := (later run member).1
        have := has.1
        omega

theorem keptWords_eq {oldPieces newPieces : List Str} {i j m n : Nat} {script : List Op}
    (leads : Leads oldPieces newPieces i j script m n) :
    keptWords Op.oldIndex Op.oldLen oldPieces script =
      keptWords Op.newIndex Op.newLen newPieces script := by
  induction script generalizing i j with
  | nil => rfl
  | cons op script ih =>
      obtain ⟨_, _, fits, rest⟩ := leads
      unfold keptWords at ih ⊢
      rw [List.flatMap_cons, List.flatMap_cons, ih rest]
      cases op with
      | equal oldIndex newIndex len =>
          have same : EditScripts.segment oldPieces oldIndex len =
              EditScripts.segment newPieces newIndex len := fits.2.2
          simp [edits, Op.oldIndex, Op.newIndex, Op.oldLen, Op.newLen, same]
      | delete | insert | replace => rfl

/-- Runs that hold a word stand next to one. -/
theorem held_gatheredRuns {pieces : List Str} {runs : List Run}
    (within : ∀ run ∈ runs, run.stop ≤ pieces.length) {index : Nat} :
    Held (gatheredRuns pieces runs) index ↔ Held runs index := by
  constructor
  · rintro ⟨run, member, has⟩
    exact ⟨run, List.mem_of_mem_filter member, has⟩
  · rintro ⟨run, member, has⟩
    have inside := within run member
    have ⟨first, last⟩ := has
    refine ⟨run, List.mem_filter.mpr ⟨member, ?_⟩, has⟩
    simp only [placed, Bool.and_eq_true, decide_eq_true_eq]
    omega

/-- The text that the marks of a side leave, apart from whitespace, is that of the words
the script keeps. -/
theorem solid_unmarked {index len : Op → Nat} {pieces : List Str} {script : List Op}
    (walks : Walks index len 0 script pieces.length) :
    solid (unmarked (marksOf pieces (runsOf index len script)) pieces.flatten) =
      solid (keptWords index len pieces script).flatten := by
  have ordered : Ordered (gatheredRuns pieces (runsOf index len script)) :=
    ordered_gatheredRuns (ordered_of_walks walks)
  have within (run : Run) (member : run ∈ runsOf index len script) :
      run.stop ≤ pieces.length := ((bounds_of_walks walks).2 run member).2.2
  have kept := spare_runsOf walks
  rw [List.drop_zero] at kept
  rw [marksOf, unmarked_bytesOf, ← kept]
  have joins := @solid_spare (gatheredRuns pieces (runsOf index len script))
    (joined (blankAt pieces) (gatheredRuns pieces (runsOf index len script))) [] pieces
    (fun _ held => held_joined ordered held) fun _ held => held_of_joined ordered held
  rw [List.length_nil] at joins
  rw [joins, spare_congr fun _ _ _ => held_gatheredRuns within]

/-! ### Never a whole line -/

/-- Between two marks there is some of the line. -/
theorem separated_marksOf {pieces : List Str} {runs : List Run}
    (filled : ∀ piece ∈ pieces, piece ≠ []) (ordered : Ordered runs) :
    (marksOf pieces runs).Pairwise fun first second => first.stop < second.start := by
  unfold marksOf
  rw [List.pairwise_map]
  have gathered : Ordered (gatheredRuns pieces runs) := ordered_gatheredRuns ordered
  have apart := @joined_separated (blankAt pieces) _ gathered
  apply List.Pairwise.imp_of_mem _ apart
  rintro first second _ member ⟨index, late, early, _⟩
  apply pieceEdge_lt filled (late.trans_lt early)
  obtain ⟨group, among, rfl⟩ := mem_joined member
  have part := sublist_of_mem_splitBy among
  have own := List.head_mem (List.ne_nil_of_mem_splitBy among)
  have stands := (List.mem_filter.mp (part.subset own)).2
  simp only [placed, Bool.and_eq_true, decide_eq_true_eq] at stands
  have start := hull_start_le (gathered.sublist part) own
  omega

/-- What starts a text that is all marked lies in a mark. -/
theorem exists_mark_of_unmarkedFrom {marks : List ByteRange} {start : Nat} {char : Char}
    {text : Str} (nothing : unmarkedFrom marks start (char :: text) = []) :
    ∃ mark ∈ marks, mark.start ≤ start ∧ start < mark.stop := by
  rw [unmarkedFrom] at nothing
  split at nothing
  · next covered =>
      obtain ⟨mark, member, inside⟩ := List.any_eq_true.mp covered
      exact ⟨mark, member, of_decide_eq_true inside⟩
  · cases nothing

/-- Where a mark stops no other one is. -/
theorem not_inside_of_separated {marks : List ByteRange}
    (separated : marks.Pairwise fun first second => first.stop < second.start)
    {mark other : ByteRange} (member : mark ∈ marks) (proper : mark.start < mark.stop)
    (among : other ∈ marks) : ¬ (other.start ≤ mark.stop ∧ mark.stop < other.stop) := by
  rintro ⟨start, stop⟩
  obtain ⟨i, iLt, rfl⟩ := List.getElem_of_mem member
  obtain ⟨j, jLt, rfl⟩ := List.getElem_of_mem among
  rcases Nat.lt_trichotomy i j with less | rfl | more
  · exact absurd (List.pairwise_iff_getElem.mp separated i j iLt jLt less) (not_lt.mpr start)
  · exact lt_irrefl _ stop
  · have := List.pairwise_iff_getElem.mp separated j i jLt iLt more
    omega

/-- A text between two others that is all marked lies in one mark. -/
theorem exists_whole_mark {lead text trail : Str} {marks : List ByteRange}
    (ordered : OrderedRanges (lead ++ text ++ trail) marks)
    (separated : marks.Pairwise fun first second => first.stop < second.start)
    (filled : text ≠ []) (nothing : unmarkedFrom marks (utf8Len lead) text = []) :
    ∃ mark ∈ marks, mark.start ≤ utf8Len lead ∧ utf8Len lead + utf8Len text ≤ mark.stop := by
  obtain ⟨char, rest, rfl⟩ := List.exists_cons_of_ne_nil filled
  obtain ⟨mark, member, before, inside⟩ := exists_mark_of_unmarkedFrom nothing
  refine ⟨mark, member, before, ?_⟩
  by_contra short
  -- the mark stops inside the text, and what follows it there is marked too
  obtain ⟨front, back, textEq, stopEq⟩ := exists_cut_of_isCharBoundary
    (ordered.stopBoundary mark member) inside.le (not_le.mp short).le
  cases back with
  | nil =>
      rw [List.append_nil] at textEq
      rw [textEq] at short
      exact short stopEq.le
  | cons next back =>
      rw [textEq, unmarkedFrom_append, stopEq] at nothing
      obtain ⟨other, among, holds⟩ :=
        exists_mark_of_unmarkedFrom (List.append_eq_nil_iff.mp nothing).2
      exact not_inside_of_separated separated member (before.trans_lt inside) among holds

/-- Marks that leave nothing of a line, leaving aside the whitespace around it, cover
it. -/
theorem covers_of_unmarkedTrimmed {line : Str} {marks : List ByteRange}
    (ordered : OrderedRanges line marks)
    (separated : marks.Pairwise fun first second => first.stop < second.start)
    (nothing : unmarkedTrimmed marks line = []) : covers marks line = true := by
  obtain ⟨lead, leadEq⟩ : ∃ lead, line = lead ++ Str.trimStart line :=
    ⟨line.takeWhile Str.isWhitespace, (List.takeWhile_append_dropWhile ..).symm⟩
  obtain ⟨trail, trailEq⟩ : ∃ trail, Str.trimStart line = Str.trim line ++ trail := by
    obtain ⟨trail, whole⟩ := List.rdropWhile_prefix Str.isWhitespace (Str.trimStart line)
    exact ⟨trail, whole.symm⟩
  have start : Str.len line - Str.len (Str.trimStart line) = utf8Len lead := by
    have := congrArg utf8Len leadEq
    rw [String.utf8Len_append] at this
    unfold Str.len
    omega
  have whole : line = lead ++ Str.trim line ++ trail := by
    rw [List.append_assoc, ← trailEq, ← leadEq]
  unfold unmarkedTrimmed at nothing
  unfold covers
  dsimp only
  rw [start] at nothing ⊢
  split
  · rfl
  · next filled =>
      rw [whole] at ordered
      obtain ⟨mark, member, early, late⟩ := exists_whole_mark ordered separated filled nothing
      rw [List.any_eq_true]
      exact ⟨mark, member, by simpa using ⟨early, late⟩⟩

/-- The marks are ordered ranges of either line, leave the same text of both apart
from whitespace, and some of each. -/
theorem changes_sound {words : WordDiff} (valid : words.Valid) (old new : Str) :
    ∃ answer, changes words old new = some answer ∧ ∀ marks, answer = some marks →
      OrderedRanges old marks.old ∧ OrderedRanges new marks.new ∧
        solid (unmarked marks.old old) = solid (unmarked marks.new new) ∧
        unmarkedTrimmed marks.old old ≠ [] ∧ unmarkedTrimmed marks.new new ≠ [] := by
  obtain ⟨answer, found, ranges⟩ := changes_ordered valid old new
  refine ⟨answer, found, ?_⟩
  rintro marks rfl
  obtain ⟨oldOrdered, newOrdered⟩ := ranges marks rfl
  obtain ⟨oldEq, newEq, oldShows, newShows⟩ := marks_eq valid found
  obtain ⟨_, oldCut⟩ := cut_lineWords words old
  obtain ⟨_, newCut⟩ := cut_lineWords words new
  have leads := leads_script valid old new
  obtain ⟨oldWalks, newWalks⟩ := walks_of_leads leads
  refine ⟨oldOrdered, newOrdered, ?_, ?_, ?_⟩
  · have oldText := solid_unmarked oldWalks
    have newText := solid_unmarked newWalks
    rw [oldCut.whole] at oldText
    rw [newCut.whole] at newText
    rw [oldEq, newEq]
    exact oldText.trans
      ((congrArg (fun kept => solid (List.flatten kept)) (keptWords_eq leads)).trans
      newText.symm)
  · intro nothing
    have separated := separated_marksOf oldCut.filled (ordered_of_walks oldWalks)
    have covered := covers_of_unmarkedTrimmed oldOrdered (by rw [oldEq]; exact separated) nothing
    rw [covered] at oldShows
    cases oldShows
  · intro nothing
    have separated := separated_marksOf newCut.filled (ordered_of_walks newWalks)
    have covered := covers_of_unmarkedTrimmed newOrdered (by rw [newEq]; exact separated) nothing
    rw [covered] at newShows
    cases newShows

theorem changes_sound_number :
    changes leadingWords "x = 1".toList "x = 2".toList = some (some ⟨[⟨4, 5⟩], [⟨4, 5⟩]⟩) ∧
      ∃ answer, changes leadingWords "x = 1".toList "x = 2".toList = some answer ∧
        ∀ marks, answer = some marks →
          OrderedRanges "x = 1".toList marks.old ∧ OrderedRanges "x = 2".toList marks.new ∧
            solid (unmarked marks.old "x = 1".toList) =
              solid (unmarked marks.new "x = 2".toList) ∧
            unmarkedTrimmed marks.old "x = 1".toList ≠ [] ∧
            unmarkedTrimmed marks.new "x = 2".toList ≠ [] :=
  ⟨by decide +kernel, changes_sound leadingWords_valid _ _⟩

end Intraline

end Hermione
