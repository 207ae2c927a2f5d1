import Mathlib.Algebra.Order.BigOperators.Group.List
import Hermione.ComparisonPatch
import Hermione.Snapshot

/-!
# How a buffer stands against the solution

A file is identical to the reference when the comparison has no hunks.  That is so
for texts that are the same after normalising, which treats the empty text apart
from the one that is a final newline alone.
-/

namespace Hermione

open EditScripts

/-- What comparing a file with a reference answers. -/
inductive Comparison where
  /-- The student's file was cut short. -/
  | uncomparable
  /-- The same text as the solution. -/
  | identical
  /-- It differs; removed rows are the solution's, added rows the student's. -/
  | differs (diff : Diff)

/-- How a file is coloured. -/
def File.colour (syntect : Syntect) (file : File) : Option (Colour syntect) :=
  (Grammar.detect syntect file.language file.relativePath).bind fun grammar =>
    file.highlight.map fun buffer => { buffer, grammar }

/-- This buffer against a reference solution's text. -/
def File.comparedWith (similar : Similar) (words : WordDiff) (syntect : Syntect) (file : File)
    (reference : Str) : Option Comparison :=
  -- A buffer that was cut short has fewer lines than the file.
  if file.text.truncated then some .uncomparable
  else
    let hunks := Compare.hunks similar reference file.text.content
    if hunks = [] then some .identical
    else (Diff.new words hunks (file.colour syntect)).map .differs

namespace Compare

/-! ### Normalising -/

theorem replaceCrlf_eq_nil_iff {text : Str} : replaceCrlf text = [] ↔ text = [] := by
  fun_cases replaceCrlf text <;> simp

theorem replaceCrlf_eq_newline_iff {text : Str} :
    replaceCrlf text = ['\n'] ↔ text = ['\n'] ∨ text = ['\r', '\n'] := by
  fun_cases replaceCrlf text with
  | case1 => simp
  | case2 text => simp [replaceCrlf_eq_nil_iff]
  | case3 char text other =>
      simp only [List.cons.injEq, replaceCrlf_eq_nil_iff]
      constructor
      · exact .inl
      · rintro (same | ⟨rfl, rfl⟩)
        · exact same
        · exact absurd rfl (other [] rfl)

theorem normalize_eq (text : Str) :
    normalize text =
      if replaceCrlf text = [] then [] else withoutNewline (replaceCrlf text) ++ ['\n'] := by
  unfold normalize withoutNewline
  dsimp only
  by_cases empty : replaceCrlf text = []
  · simp [empty]
  · by_cases ends : (replaceCrlf text).getLast? = some '\n'
    · rw [if_neg (by simp [ends]), if_neg empty, if_pos ends]
      exact (List.dropLast_append_getLast? '\n' ends).symm
    · rw [if_pos ⟨empty, ends⟩, if_neg empty, if_neg ends]

/-- Texts are normalised alike if they differ at most in their line ends and a final
newline, and both are empty or none. -/
theorem normalize_eq_iff {first second : Str} :
    normalize first = normalize second ↔
      withoutNewline (replaceCrlf first) = withoutNewline (replaceCrlf second) ∧
        (replaceCrlf first = [] ↔ replaceCrlf second = []) := by
  rw [normalize_eq, normalize_eq]
  by_cases empty : replaceCrlf first = [] <;> by_cases empty' : replaceCrlf second = []
  · simp [empty, empty']
  · simp [empty, empty']
  · simp [empty, empty']
  · simp [empty, empty']

/-! ### Few lines -/

theorem ne_nil_of_mem_splitLines {text line : Str} (member : line ∈ splitLines text) :
    line ≠ [] := by
  fun_induction splitLines text generalizing line with
  | case1 => cases member
  | case2 text ih =>
      rcases List.mem_cons.mp member with rfl | later
      · exact List.cons_ne_nil _ _
      · exact ih later
  | case3 char text _ _ ih =>
      rcases List.mem_cons.mp member with rfl | later
      · exact List.cons_ne_nil _ _
      · exact ih later
  | case4 char text _ _ _ ih =>
      rw [List.mem_singleton.mp member]
      exact List.cons_ne_nil _ _
  | case5 char text _ _ first lines equal ih =>
      rcases List.mem_cons.mp member with rfl | later
      · exact List.cons_ne_nil _ _
      · exact ih (by rw [equal]; exact List.mem_cons_of_mem _ later)

theorem length_splitLines_le (text : Str) : (splitLines text).length ≤ text.length := by
  have long : ∀ line ∈ splitLines text, 1 ≤ line.length := fun line member =>
    List.length_pos_iff.mpr (ne_nil_of_mem_splitLines member)
  calc (splitLines text).length
    _ ≤ ((splitLines text).map List.length).sum := by
        have bound := List.card_nsmul_le_sum ((splitLines text).map List.length) 1
          (List.forall_mem_map.mpr long)
        simpa using bound
    _ = text.length := by rw [← List.length_flatten, flatten_splitLines]

theorem length_replaceCrlf_le (text : Str) : (replaceCrlf text).length ≤ text.length := by
  fun_induction replaceCrlf text with
  | case1 => exact le_refl _
  | case2 text ih =>
      simp only [List.length_cons]
      omega
  | case3 char text _ ih =>
      simp only [List.length_cons]
      omega

theorem length_normalize_le (text : Str) : (normalize text).length ≤ text.length + 1 := by
  have shorter := length_replaceCrlf_le text
  unfold normalize
  dsimp only
  split
  · rw [List.length_append, List.length_singleton]
    omega
  · omega

theorem length_le_len (text : Str) : text.length ≤ Str.len text := by
  induction text with
  | nil => exact le_refl _
  | cons char text ih =>
      have wide := Char.utf8Size_pos char
      unfold Str.len at ih ⊢
      rw [List.length_cons, String.utf8Len_cons]
      omega

/-- A buffer has no more lines than can be numbered. -/
theorem lines_lt (text : Text) :
    (splitLines (normalize text.content)).length + 1 < 2 ^ 32 := by
  have lines := length_splitLines_le (normalize text.content)
  have shorter := length_normalize_le text.content
  have bytes := length_le_len text.content
  have capped := text.capped
  unfold maxContentBytes at capped
  omega

/-! ### The hunks of different texts -/

theorem exists_mem_segment {list : List Str} {start len : Nat}
    (within : start + len ≤ list.length) (some : len ≠ 0) :
    ∃ value, value ∈ segment list start len := by
  apply List.exists_mem_of_length_pos
  rw [length_segment within]
  omega

/-- Operations of some cost change an element. -/
theorem exists_change_of_cost {old new : List Str} {i j oldStop newStop : Nat} {ops : List Op}
    (leads : Leads old new i j ops oldStop newStop) (costly : 0 < scriptCost ops) :
    ∃ change ∈ ops.flatMap (changesOf old new), change.oldSide = none ∨ change.newSide = none := by
  induction ops generalizing i j with
  | nil => simp [scriptCost] at costly
  | cons op ops ih =>
      obtain ⟨-, -, fits, rest⟩ := leads
      by_cases free : op.cost = 0
      · have later : 0 < scriptCost ops := by simpa [scriptCost, free] using costly
        obtain ⟨change, member, changed⟩ := ih rest later
        exact ⟨change, List.mem_append_right _ member, changed⟩
      · have some : ∃ change ∈ changesOf old new op,
            change.oldSide = none ∨ change.newSide = none := by
          obtain ⟨oldWithin, newWithin, -⟩ := fits
          cases op with
          | equal => exact absurd rfl free
          | delete oldIndex oldLen newIndex =>
              obtain ⟨value, member⟩ := exists_mem_segment oldWithin free
              exact ⟨.removed value, List.mem_map_of_mem member, .inr rfl⟩
          | insert oldIndex newIndex newLen =>
              obtain ⟨value, member⟩ := exists_mem_segment newWithin free
              exact ⟨.added value, List.mem_map_of_mem member, .inl rfl⟩
          | replace oldIndex oldLen newIndex newLen =>
              by_cases kept : oldLen = 0
              · have added : newLen ≠ 0 := fun none => free (by simp [Op.cost, kept, none])
                obtain ⟨value, member⟩ := exists_mem_segment newWithin added
                exact ⟨.added value, List.mem_append_right _ (List.mem_map_of_mem member), .inl rfl⟩
              · obtain ⟨value, member⟩ := exists_mem_segment oldWithin kept
                exact ⟨.removed value, List.mem_append_left _ (List.mem_map_of_mem member),
                  .inr rfl⟩
        obtain ⟨change, member, changed⟩ := some
        exact ⟨change, List.mem_append_left _ member, changed⟩

variable {similar : Similar} {words : WordDiff} {syntect : Syntect}

/-- The first group starts on a line of the buffer, whatever the reference. -/
theorem hunks_ne_nil (documented : similar.Documented) {reference buffer : Str}
    (bounded : (splitLines (normalize buffer)).length + 1 < 2 ^ 32)
    (differ : normalize reference ≠ normalize buffer) :
    ∃ hunk ∈ hunks similar reference buffer,
      ∃ line ∈ hunk.lines, line.isAdded = true ∨ line.isRemoved = true := by
  have grouped := documented.grouped (splitLines (normalize reference))
    (splitLines (normalize buffer))
  have costly := documented.changes (splitLines (normalize reference))
    (splitLines (normalize buffer))
  unfold hunks
  simp only [documented.tokens]
  cases groups : similar.groupedOps context (splitLines (normalize reference))
      (splitLines (normalize buffer)) with
  | nil =>
      rw [groups] at grouped
      have same : splitLines (normalize reference) = splitLines (normalize buffer) := grouped
      rw [← flatten_splitLines (normalize reference), same, flatten_splitLines] at differ
      exact absurd rfl differ
  | cons group rest =>
      rw [groups] at grouped costly
      obtain ⟨gap, oldStop, newStop, -, within, -, some, leads, -⟩ := grouped
      cases group with
      | nil => exact absurd rfl some
      | cons first ops =>
          have changed := exists_change_of_cost leads (costly _ List.mem_cons_self)
          obtain ⟨oldFirst, newFirst, -, -⟩ := leads
          rw [Nat.zero_add] at oldFirst newFirst within
          have oldFits : u32TryFrom (first.oldIndex + 1) = .some (first.oldIndex + 1) :=
            if_pos (by omega)
          have newFits : u32TryFrom (first.newIndex + 1) = .some (first.newIndex + 1) :=
            if_pos (by omega)
          refine ⟨_, List.mem_filterMap.mpr ⟨_, List.mem_cons_self, by
            rw [List.head?_cons, Option.bind_some, oldFits, newFits, Option.bind_some,
              Option.map_some]⟩, ?_⟩
          obtain ⟨change, member, changed⟩ := changed
          refine ⟨_, List.mem_map_of_mem member, ?_⟩
          cases change with
          | context value => simp [Change.oldSide, Change.newSide] at changed
          | added value => exact .inl rfl
          | removed value => exact .inr rfl

/-- There are no hunks exactly between texts that are normalised alike. -/
theorem hunks_eq_nil_iff (documented : similar.Documented) {reference buffer : Str}
    (bounded : (splitLines (normalize buffer)).length + 1 < 2 ^ 32) :
    hunks similar reference buffer = [] ↔ normalize reference = normalize buffer := by
  constructor
  · intro empty
    by_contra differ
    obtain ⟨hunk, member, -⟩ := hunks_ne_nil documented bounded differ
    rw [empty] at member
    cases member
  · intro same
    unfold hunks
    rw [same]
    dsimp only
    rw [groups_nil_of_eq documented, List.filterMap_nil]

end Compare

/-! ### What the comparison answers -/

/-- Texts that differ at most in their line ends and one final newline. -/
def SameText (reference buffer : Str) : Prop :=
  withoutNewline (Compare.replaceCrlf reference) = withoutNewline (Compare.replaceCrlf buffer)

/-- A text that is one line end and nothing else. -/
def LineEnd (text : Str) : Prop :=
  text = ['\n'] ∨ text = ['\r', '\n']

/-- Same texts are told from different ones, whose differences are counted. -/
structure ToldApart (similar : Similar) (words : WordDiff) (syntect : Syntect) (file : File)
    (reference : Str) : Prop where
  identical : file.comparedWith similar words syntect reference = some .identical ↔
    SameText reference file.text.content
  differs : ¬ SameText reference file.text.content →
    ∃ diff, file.comparedWith similar words syntect reference = some (.differs diff) ∧
      0 < diff.added + diff.removed

theorem normalize_eq_iff_sameText {reference buffer : Str} :
    Compare.normalize reference = Compare.normalize buffer ↔ SameText reference buffer ∧
      ¬ (reference = [] ∧ LineEnd buffer ∨ LineEnd reference ∧ buffer = []) := by
  unfold SameText LineEnd
  rw [Compare.normalize_eq_iff]
  apply and_congr_right
  intro same
  rw [← Compare.replaceCrlf_eq_newline_iff, ← Compare.replaceCrlf_eq_newline_iff,
    ← @Compare.replaceCrlf_eq_nil_iff reference, ← @Compare.replaceCrlf_eq_nil_iff buffer]
  have alone {text : Str} (bare : withoutNewline text = []) : text = [] ∨ text = ['\n'] := by
    unfold withoutNewline at bare
    split at bare
    · next ends =>
        rw [← List.dropLast_append_getLast? '\n' ends, bare]
        exact .inr rfl
    · exact .inl bare
  constructor
  · rintro both (⟨empty, newline⟩ | ⟨newline, empty⟩)
    · rw [both.mp empty] at newline
      cases newline
    · rw [both.mpr empty] at newline
      cases newline
  · intro apart
    constructor
    · intro empty
      rw [empty] at same
      exact (alone same.symm).resolve_right fun newline => apart (.inl ⟨empty, newline⟩)
    · intro empty
      rw [empty] at same
      exact (alone same).resolve_right fun newline => apart (.inr ⟨newline, empty⟩)

section Untruncated

variable {similar : Similar} {words : WordDiff} {syntect : Syntect} {file : File}
  (documented : similar.Documented) (valid : words.Valid) (whole : file.text.truncated = false)

include documented whole in
theorem comparedWith_eq_identical_iff (reference : Str) :
    file.comparedWith similar words syntect reference = some .identical ↔
      Compare.normalize reference = Compare.normalize file.text.content := by
  unfold File.comparedWith
  rw [if_neg (by simp [whole])]
  dsimp only
  rw [← Compare.hunks_eq_nil_iff documented (Compare.lines_lt file.text)]
  split
  · next empty => simp [empty]
  · next some => simp [some]

include documented valid whole in
/-- Of texts that are not normalised alike, the differences are drawn. -/
theorem exists_differs {reference : Str}
    (differ : Compare.normalize reference ≠ Compare.normalize file.text.content) :
    ∃ diff, file.comparedWith similar words syntect reference = some (.differs diff) ∧
      Diff.Shows (file.colour syntect) (Compare.hunks similar reference file.text.content)
        diff := by
  obtain ⟨diff, made, shows⟩ := Diff.new_shows valid
    (Compare.hunks similar reference file.text.content) (file.colour syntect)
  refine ⟨diff, ?_, shows⟩
  unfold File.comparedWith
  rw [if_neg (by simp [whole])]
  dsimp only
  rw [if_neg, made]
  · rfl
  · rwa [Compare.hunks_eq_nil_iff documented (Compare.lines_lt file.text)]

include documented in
/-- At least one row is counted. -/
theorem exists_counted {reference : Str}
    (differ : Compare.normalize reference ≠ Compare.normalize file.text.content)
    {colour : Option (Colour syntect)} {diff : Diff}
    (shows : Diff.Shows colour (Compare.hunks similar reference file.text.content) diff) :
    0 < diff.added + diff.removed := by
  obtain ⟨hunk, member, line, listed, changed⟩ :=
    Compare.hunks_ne_nil documented (Compare.lines_lt file.text) differ
  have among : line ∈ (Compare.hunks similar reference file.text.content).flatMap
      Report.Hunk.lines := List.mem_flatMap.mpr ⟨hunk, member, listed⟩
  rw [shows.added, shows.removed]
  rcases changed with added | removed
  · have := List.countP_pos_iff.mpr ⟨line, among, added⟩
    omega
  · have := List.countP_pos_iff.mpr ⟨line, among, removed⟩
    omega

end Untruncated

/-- The answer is right unless one text is empty and the other a line end alone. -/
theorem toldApart_iff {similar : Similar} (documented : similar.Documented) {words : WordDiff}
    (valid : words.Valid) (syntect : Syntect) (file : File)
    (whole : file.text.truncated = false) (reference : Str) :
    ToldApart similar words syntect file reference ↔
      ¬ (reference = [] ∧ LineEnd file.text.content ∨
        LineEnd reference ∧ file.text.content = []) := by
  have answer := @comparedWith_eq_identical_iff similar words syntect file documented whole
    reference
  rw [normalize_eq_iff_sameText] at answer
  constructor
  · rintro told (⟨empty, ends⟩ | ⟨ends, empty⟩)
    · have same : SameText reference file.text.content := by
        rw [empty]
        rcases ends with ends | ends <;> rw [ends] <;> rfl
      exact (answer.mp (told.identical.mpr same)).2 (.inl ⟨empty, ends⟩)
    · have same : SameText reference file.text.content := by
        rw [empty]
        rcases ends with ends | ends <;> rw [ends] <;> rfl
      exact (answer.mp (told.identical.mpr same)).2 (.inr ⟨ends, empty⟩)
  · intro apart
    constructor
    · rw [answer]
      exact and_iff_left apart
    · intro same
      have differ : Compare.normalize reference ≠ Compare.normalize file.text.content := by
        rw [ne_eq, normalize_eq_iff_sameText]
        exact fun both => same both.1
      obtain ⟨diff, made, shows⟩ := exists_differs documented valid whole differ
      exact ⟨diff, made, exists_counted documented differ shows⟩

/-- A file that is as its editor has it. -/
def wholeFile (text : Text) : File :=
  { path := "/w/a.txt".toList
    relativePath := "a.txt".toList
    language := "plaintext".toList
    exercise := none
    cursor := none
    dirty := false
    text
    highlight := none
    baseline := .untracked }

def blankText : Text :=
  { content := ['\n'], truncated := false, capped := by decide }

/-- Three lines, one of which ends as Windows ends it. -/
def programText : Text :=
  { content := "a = 1\r\nb = 2\nc = 3\n".toList, truncated := false, capped := by decide }

/-- It is told from a text with another second line, and not from one that only lacks
the carriage return. -/
theorem toldApart_iff_program :
    ToldApart Compare.leadingSimilar leadingWords noGrammars (wholeFile programText)
        "a = 1\nb = 4\nc = 3".toList ∧
      ¬ SameText "a = 1\nb = 4\nc = 3".toList programText.content ∧
      ToldApart Compare.leadingSimilar leadingWords noGrammars (wholeFile programText)
        "a = 1\nb = 2\nc = 3".toList ∧
      SameText "a = 1\nb = 2\nc = 3".toList programText.content := by
  have told (reference : Str) (some : reference ≠ []) :=
    (toldApart_iff Compare.leadingSimilar_documented leadingWords_valid noGrammars
      (wholeFile programText) rfl reference).mpr
        (by rintro (⟨empty, -⟩ | ⟨-, empty⟩)
            · exact some empty
            · cases empty)
  refine ⟨told _ (by decide), ?_, told _ (by decide), ?_⟩
  · rw [SameText]
    decide
  · rw [SameText]
    decide

/-- A final newline makes a blank file differ from an empty one. -/
theorem not_toldApart_empty :
    ¬ ToldApart Compare.leadingSimilar leadingWords noGrammars (wholeFile blankText) [] := by
  intro told
  have same : Compare.normalize [] = Compare.normalize ['\n'] :=
    (comparedWith_eq_identical_iff Compare.leadingSimilar_documented rfl []).mp
      (told.identical.mpr rfl)
  exact absurd same (by decide)

end Hermione
