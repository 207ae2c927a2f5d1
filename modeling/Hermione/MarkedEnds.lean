import Hermione.UnmarkedText

/-!
# Whether marks begin and end with what changed

An operation that gives words and takes none still names a place in the old line.  At
either end of the line no words stand there and nothing is marked.  Inside it `span`
answers a range all the same, from the token after the place to the one before it, and
unless one of the two is taken too, that range is marked.
-/

namespace Hermione

open EditScripts

/-- Myers' algorithm finds a script of the least cost. -/
def WordDiff.Minimal (words : WordDiff) : Prop :=
  ∀ old new, Shortest old new (words.captureDiffSlices old new)

namespace Intraline

open Utf8 JoinedRuns
open String (utf8Len)

/-- The script changes the token of this index, on one side of it. -/
def Edited (index len : Op → Nat) (script : List Op) (token : Nat) : Prop :=
  ∃ op ∈ script, edits op = true ∧ index op ≤ token ∧ token < index op + len op

/-- A mark that isn't empty, begins with a token that was changed and ends with one. -/
structure EndsEdited (tokens : List ByteRange) (edited : Nat → Prop) (mark : ByteRange) :
    Prop where
  proper : mark.start < mark.stop
  first : ∃ index token, tokens[index]? = some token ∧ token.start = mark.start ∧ edited index
  last : ∃ index token, tokens[index]? = some token ∧ token.stop = mark.stop ∧ edited index

/-- Either line's marks begin and end with what the script changes there, and a line
that was only added to has none. -/
structure MarksEdits (words : WordDiff) (old new : Str) (marks : Changes) : Prop where
  gone : ∀ mark ∈ marks.old, EndsEdited (tokens words old)
    (Edited Op.oldIndex Op.oldLen (scriptOf words old new)) mark
  came : ∀ mark ∈ marks.new, EndsEdited (tokens words new)
    (Edited Op.newIndex Op.newLen (scriptOf words old new)) mark
  grown : (lineWords words old).Sublist (lineWords words new) → marks.old = []

/-- An operation that changes nothing on one side stands there at an end of the line or
next to a token that is changed. -/
def GapsEdited (index len : Op → Nat) (count : Nat) (script : List Op) : Prop :=
  ∀ op ∈ script, edits op = true → len op = 0 → 0 < index op → index op < count →
    Edited index len script (index op) ∨ Edited index len script (index op - 1)

section Side

variable {index len : Op → Nat} {script : List Op} {pieces : List Str}

theorem held_runsOf_iff {token : Nat} :
    Held (runsOf index len script) token ↔ Edited index len script token := by
  constructor
  · rintro ⟨run, member, has⟩
    obtain ⟨op, among, rfl⟩ := List.mem_map.mp member
    obtain ⟨listed, edit⟩ := List.mem_filter.mp among
    exact ⟨op, listed, edit, has⟩
  · rintro ⟨op, listed, edit, has⟩
    exact ⟨_, List.mem_map_of_mem (List.mem_filter.mpr ⟨listed, edit⟩), has⟩

variable (walks : Walks index len 0 script pieces.length)

include walks

theorem held_gatheredRuns_iff {token : Nat} :
    Held (gatheredRuns pieces (runsOf index len script)) token ↔
      Edited index len script token := by
  rw [held_gatheredRuns fun run member => ((bounds_of_walks walks).2 run member).2.2,
    held_runsOf_iff]

/-- The empty runs that are gathered. -/
theorem gapsEdited_iff :
    (∀ run ∈ gatheredRuns pieces (runsOf index len script), run.start = run.stop →
        Held (gatheredRuns pieces (runsOf index len script)) run.start ∨
          (0 < run.start ∧
            Held (gatheredRuns pieces (runsOf index len script)) (run.start - 1))) ↔
      GapsEdited index len pieces.length script := by
  constructor
  · intro next op listed edit empty late early
    have member : (⟨index op, index op + len op⟩ : Run) ∈
        gatheredRuns pieces (runsOf index len script) := by
      apply List.mem_filter.mpr
      refine ⟨List.mem_map_of_mem (List.mem_filter.mpr ⟨listed, edit⟩), ?_⟩
      simp only [placed, Bool.and_eq_true, decide_eq_true_eq]
      omega
    rcases next _ member (by dsimp only; omega) with here | ⟨_, before⟩
    · exact .inl ((held_gatheredRuns_iff walks).mp here)
    · exact .inr ((held_gatheredRuns_iff walks).mp before)
  · intro gaps run member empty
    obtain ⟨among, stands⟩ := List.mem_filter.mp member
    obtain ⟨op, filtered, rfl⟩ := List.mem_map.mp among
    obtain ⟨listed, edit⟩ := List.mem_filter.mp filtered
    simp only [placed, Bool.and_eq_true, decide_eq_true_eq] at stands empty
    have late : 0 < index op := by omega
    rcases gaps op listed edit (by omega) late stands.1 with here | before
    · exact .inl ((held_gatheredRuns_iff walks).mpr here)
    · exact .inr ⟨late, (held_gatheredRuns_iff walks).mpr before⟩

end Side

variable {words : WordDiff}

theorem kind_of_isWhitespace
    (letters : ∀ char, words.isAlphanumeric char = true → Str.isWhitespace char = false)
    {char : Char} (white : Str.isWhitespace char = true) : kind words char = .space := by
  have notLetter : words.isAlphanumeric char = false := by
    rw [← Bool.not_eq_true]
    intro letter
    rw [letters char letter] at white
    cases white
  have notLine : (char == '_') = false := by
    rw [beq_eq_false_iff_ne]
    rintro rfl
    revert white
    decide
  simp [kind, notLetter, notLine, white]

/-- Of two neighbouring words at most one is whitespace. -/
theorem Cut.lone {line : Str} {tokens : List ByteRange} {last : Option Kind} {pieces : List Str}
    (cut : Cut words line tokens last pieces)
    (letters : ∀ char, words.isAlphanumeric char = true → Str.isWhitespace char = false)
    (index : Nat) (blank : blankAt pieces index = true) : blankAt pieces (index + 1) = false := by
  unfold blankAt at blank ⊢
  cases next : pieces[index + 1]? with
  | none => rfl
  | some second =>
      cases here : pieces[index]? with
      | none =>
          rw [here] at blank
          cases blank
      | some first =>
          rw [here] at blank
          dsimp only at blank ⊢
          rw [← Bool.not_eq_true]
          intro white
          obtain ⟨one, oneMember⟩ :=
            List.exists_mem_of_ne_nil _ (cut.filled _ (List.mem_of_getElem? here))
          obtain ⟨two, twoMember⟩ :=
            List.exists_mem_of_ne_nil _ (cut.filled _ (List.mem_of_getElem? next))
          have oneKind := kind_of_isWhitespace letters (List.all_eq_true.mp blank one oneMember)
          have twoKind := kind_of_isWhitespace letters (List.all_eq_true.mp white two twoMember)
          obtain ⟨inside, nextEq⟩ := List.getElem?_eq_some_iff.mp next
          obtain ⟨_, hereEq⟩ := List.getElem?_eq_some_iff.mp here
          have apart := List.isChain_iff_getElem.mp cut.apart index inside
          rw [hereEq, nextEq] at apart
          have symbol := apart one oneMember two twoMember (oneKind.trans twoKind.symm)
          rw [oneKind] at symbol
          cases symbol

theorem pieceEdge_injective {pieces : List Str} (filled : ∀ piece ∈ pieces, piece ≠ [])
    {first last : Nat} (firstIn : first ≤ pieces.length) (lastIn : last ≤ pieces.length)
    (same : pieceEdge pieces first = pieceEdge pieces last) : first = last := by
  rcases Nat.lt_trichotomy first last with less | equal | more
  · exact absurd same (pieceEdge_lt filled less lastIn).ne
  · exact equal
  · exact absurd same (pieceEdge_lt filled more firstIn).ne'

/-- A mark made of words, by the indices of its first and last one. -/
theorem endsEdited_iff {line : Str} {tokens : List ByteRange} {last : Option Kind}
    {pieces : List Str} (cut : Cut words line tokens last pieces) {run : Run}
    (proper : run.start ≤ run.stop) (within : run.stop ≤ pieces.length) (edited : Nat → Prop) :
    EndsEdited tokens edited (bytesOf pieces run) ↔
      run.start < run.stop ∧ edited run.start ∧ edited (run.stop - 1) := by
  have inside {index : Nat} {token : ByteRange} (found : tokens[index]? = some token) :
      index < pieces.length := by
    rw [← cut.length_eq]
    exact (List.getElem?_eq_some_iff.mp found).1
  constructor
  · rintro ⟨wide, ⟨first, begins, found, start, firstEdited⟩, ⟨final, ends, foundLast, stop,
      lastEdited⟩⟩
    have firstIn := inside found
    have lastIn := inside foundLast
    rw [cut.token_eq firstIn, Option.some.injEq] at found
    rw [cut.token_eq lastIn, Option.some.injEq] at foundLast
    rw [← found] at start
    rw [← foundLast] at stop
    have firstEq := pieceEdge_injective cut.filled firstIn.le (proper.trans within) start
    have lastEq := pieceEdge_injective cut.filled lastIn within stop
    refine ⟨?_, firstEq ▸ firstEdited, by rw [← lastEq]; exact lastEdited⟩
    by_contra narrow
    exact absurd (pieceEdge_mono pieces (not_lt.mp narrow)) (not_le.mpr wide)
  · rintro ⟨wide, first, final⟩
    have lastIn : run.stop - 1 < pieces.length := by omega
    have lastFound := cut.token_eq lastIn
    rw [Nat.sub_add_cancel (by omega)] at lastFound
    exact ⟨pieceEdge_lt cut.filled wide within,
      ⟨_, _, cut.token_eq (wide.trans_le within), rfl, first⟩, ⟨_, _, lastFound, rfl, final⟩⟩

/-- Which marks of one side begin and end with a changed token. -/
theorem marks_endsEdited_iff {index len : Op → Nat} {script : List Op} {line : Str}
    {tokens : List ByteRange} {last : Option Kind} {pieces : List Str}
    (cut : Cut words line tokens last pieces)
    (letters : ∀ char, words.isAlphanumeric char = true → Str.isWhitespace char = false)
    (walks : Walks index len 0 script pieces.length) :
    (∀ mark ∈ marksOf pieces (runsOf index len script),
        EndsEdited tokens (Edited index len script) mark) ↔
      GapsEdited index len pieces.length script := by
  have ordered : Ordered (gatheredRuns pieces (runsOf index len script)) :=
    ordered_gatheredRuns (ordered_of_walks walks)
  rw [← gapsEdited_iff walks, ← ends_held_iff ordered (cut.lone letters), marksOf,
    List.forall_mem_map]
  apply forall₂_congr
  intro run member
  obtain ⟨group, among, rfl⟩ := mem_joined member
  have part := sublist_of_mem_splitBy among
  have filled := List.ne_nil_of_mem_splitBy among
  have own := ordered.sublist part
  have first_mem := List.head_mem filled
  have final_mem := List.getLast_mem filled
  have start := hull_start_le own final_mem
  have stop := le_hull_stop own final_mem
  have proper := own.proper _ final_mem
  have stopEq : (hull group).stop = (group.getLast filled).stop := by
    simp [hull, List.getLast?_eq_some_getLast filled]
  have within := ((bounds_of_walks walks).2 _
    (List.mem_of_mem_filter (part.subset final_mem))).2.2
  rw [endsEdited_iff cut (by omega) (by omega), held_gatheredRuns_iff walks,
    held_gatheredRuns_iff walks]

/-- The marks show what changed and nothing else exactly if every place where the other
line alone changes lies at an end of the line or next to a token that was changed. -/
theorem marksEdits_iff (valid : words.Valid) (minimal : words.Minimal)
    (letters : ∀ char, words.isAlphanumeric char = true → Str.isWhitespace char = false)
    {old new : Str} {marks : Changes} (found : changes words old new = some (some marks)) :
    MarksEdits words old new marks ↔
      GapsEdited Op.oldIndex Op.oldLen (lineWords words old).length (scriptOf words old new) ∧
        GapsEdited Op.newIndex Op.newLen (lineWords words new).length
          (scriptOf words old new) := by
  obtain ⟨oldEq, newEq, _, _⟩ := marks_eq valid found
  obtain ⟨_, oldCut⟩ := cut_lineWords words old
  obtain ⟨_, newCut⟩ := cut_lineWords words new
  obtain ⟨oldWalks, newWalks⟩ := walks_of_leads (leads_script valid old new)
  have oldSide := marks_endsEdited_iff oldCut letters oldWalks
  have newSide := marks_endsEdited_iff newCut letters newWalks
  constructor
  · intro edits
    exact ⟨oldSide.mp (oldEq ▸ edits.gone), newSide.mp (newEq ▸ edits.came)⟩
  · rintro ⟨oldGaps, newGaps⟩
    have gone : ∀ mark ∈ marks.old, EndsEdited (tokens words old)
        (Edited Op.oldIndex Op.oldLen (scriptOf words old new)) mark := by
      rw [oldEq]
      exact oldSide.mpr oldGaps
    refine ⟨gone, by rw [newEq]; exact newSide.mpr newGaps, ?_⟩
    intro part
    rw [List.eq_nil_iff_forall_not_mem]
    intro mark member
    obtain ⟨_, ⟨index, _, _, _, op, listed, edit, late, early⟩, _⟩ := gone mark member
    have none := (minimal _ _).removed_eq_zero (valid _ _) part op listed
    cases op with
    | equal => cases edit
    | delete | insert | replace =>
        simp only [Op.removed, Op.oldIndex, Op.oldLen] at none late early
        omega

/-! ### A word put inside a line -/

/-- A word before the last one. -/
def insertedScript : List Op :=
  [.equal 0 0 2, .insert 2 2 2, .equal 2 4 1]

/-- Comparing words with a shortest script. -/
noncomputable def shortestWords : WordDiff where
  isAlphanumeric := Char.isAlphanum
  captureDiffSlices old new :=
    open scoped Classical in
    if ValidScript old new insertedScript ∧ Shortest old new insertedScript then insertedScript
    else shortestScript old new

theorem shortestWords_valid : shortestWords.Valid := by
  intro old new
  unfold shortestWords
  dsimp only
  split
  · next least => exact least.1
  · exact (shortestScript_spec old new).1

theorem shortestWords_minimal : shortestWords.Minimal := by
  intro old new
  unfold shortestWords
  dsimp only
  split
  · next least => exact least.2
  · exact (shortestScript_spec old new).2

theorem shortestWords_letters (char : Char) (letter : shortestWords.isAlphanumeric char = true) :
    Str.isWhitespace char = false :=
  Str.isWhitespace_of_isAlphanum letter

theorem scriptOf_shortestWords :
    scriptOf shortestWords "foo bar".toList "foo baz bar".toList = insertedScript := by
  have oldWords : lineWords shortestWords "foo bar".toList =
      ["foo".toList, " ".toList, "bar".toList] := by decide +kernel
  have newWords : lineWords shortestWords "foo baz bar".toList =
      ["foo".toList, " ".toList, "baz".toList, " ".toList, "bar".toList] := by decide +kernel
  rw [scriptOf, oldWords, newWords]
  apply if_pos
  have valid : ValidScript ["foo".toList, " ".toList, "bar".toList]
      ["foo".toList, " ".toList, "baz".toList, " ".toList, "bar".toList] insertedScript := by
    simp [ValidScript, insertedScript, Leads, Fits, Op.oldIndex, Op.newIndex, Op.oldLen,
      Op.newLen, EditScripts.segment]
  refine ⟨valid, ?_⟩
  intro other otherValid
  have balance := Leads.balance otherValid
  have cost : scriptCost insertedScript = 2 := rfl
  simp only [List.length_cons, List.length_nil] at balance
  omega

/-- The word is put in between two that stay, and yet the old line has a mark. -/
theorem changes_inserted :
    changes shortestWords "foo bar".toList "foo baz bar".toList =
      some (some ⟨[⟨4, 4⟩], [⟨4, 8⟩]⟩) := by
  unfold changes
  rw [if_neg (by decide)]
  simp only [mapM_lineWords, Option.bind_eq_bind, Option.bind_some]
  have script : shortestWords.captureDiffSlices (lineWords shortestWords "foo bar".toList)
      (lineWords shortestWords "foo baz bar".toList) = insertedScript := scriptOf_shortestWords
  rw [script]
  decide +kernel

theorem marksEdits_iff_inserted :
    MarksEdits shortestWords "foo bar".toList "foo baz bar".toList ⟨[⟨4, 4⟩], [⟨4, 8⟩]⟩ ↔
      GapsEdited Op.oldIndex Op.oldLen (lineWords shortestWords "foo bar".toList).length
          (scriptOf shortestWords "foo bar".toList "foo baz bar".toList) ∧
        GapsEdited Op.newIndex Op.newLen (lineWords shortestWords "foo baz bar".toList).length
          (scriptOf shortestWords "foo bar".toList "foo baz bar".toList) :=
  marksEdits_iff shortestWords_valid shortestWords_minimal shortestWords_letters changes_inserted

theorem not_marksEdits_inserted :
    ∃ words : WordDiff, words.Valid ∧ words.Minimal ∧
      (∀ char, words.isAlphanumeric char = true → Str.isWhitespace char = false) ∧
      ∃ old new marks, changes words old new = some (some marks) ∧
        ¬ MarksEdits words old new marks :=
  ⟨shortestWords, shortestWords_valid, shortestWords_minimal, shortestWords_letters,
    "foo bar".toList, "foo baz bar".toList, _, changes_inserted,
    fun edits => absurd (edits.gone ⟨4, 4⟩ List.mem_cons_self).proper (lt_irrefl 4)⟩

end Intraline

end Hermione
