import Hermione.Compare

/-!
# The comparison is a patch

The crate's groups describe the buffer's tokens in terms of the reference's.
Taking the terminators off is a map of the elements, under which a description
stays one, and a description applied as a patch rebuilds the new side.
-/

namespace Hermione

open EditScripts

namespace Compare

/-- The lines of a normalised text, without their newlines. -/
def lineTexts (text : Str) : List Str :=
  (splitLines (normalize text)).map withoutNewline

variable {similar : Similar}

private theorem head_le_of_grouped {old new : List Str} {i j : Nat}
    {groups : List (List Op)} (grouped : Grouped old new i j groups) :
    ∀ group ∈ groups, ∀ first, group.head? = some first →
      first.oldIndex ≤ old.length ∧ first.newIndex ≤ new.length := by
  induction groups generalizing i j with
  | nil => simp
  | cons group groups ih =>
      obtain ⟨gap, oldStop, newStop, _, _, _, _, leads, rest⟩ := grouped
      intro candidate member first isFirst
      rcases List.mem_cons.mp member with rfl | later
      · cases candidate with
        | nil => simp at isFirst
        | cons op ops =>
            rw [List.head?_cons, Option.some.injEq] at isFirst
            subst isFirst
            obtain ⟨_, _, fits, _⟩ := leads
            have oldFits := fits.1
            have newFits := fits.2.1
            omega
      · exact ih rest candidate later first isFirst

private theorem u32TryFrom_of_lt {number : Nat} (small : number < 2 ^ 32) :
    u32TryFrom number = some number :=
  if_pos small

/-- While the line numbers fit, a hunk is the group's, newlines off. -/
theorem map_toPatch_hunks (documented : similar.Documented) {reference buffer : Str}
    (referenceBound : (splitLines (normalize reference)).length + 1 < 2 ^ 32)
    (bufferBound : (splitLines (normalize buffer)).length + 1 < 2 ^ 32) :
    let old := splitLines (normalize reference)
    let new := splitLines (normalize buffer)
    (hunks similar reference buffer).map Report.Hunk.toPatch =
      ((similar.groupedOps context old new).filterMap (hunkOf old new)).map
        (Hunk.map (Str.trimEndMatches '\n')) := by
  intro old new
  unfold hunks
  simp only [documented.tokens]
  rw [List.map_filterMap, List.map_filterMap]
  apply List.filterMap_congr
  intro group member
  cases isFirst : group.head? with
  | none => simp [hunkOf, isFirst]
  | some first =>
      have bounds := head_le_of_grouped (documented.grouped old new) group member first isFirst
      have oldBound : old.length + 1 < 2 ^ 32 := referenceBound
      have newBound : new.length + 1 < 2 ^ 32 := bufferBound
      have oldFits : u32TryFrom (first.oldIndex + 1) = some (first.oldIndex + 1) :=
        u32TryFrom_of_lt (by omega)
      have newFits : u32TryFrom (first.newIndex + 1) = some (first.newIndex + 1) :=
        u32TryFrom_of_lt (by omega)
      simp [hunkOf, isFirst, oldFits, newFits, Report.Hunk.toPatch, EditScripts.Hunk.map,
        Function.comp_def]
      rfl

/-- A script of no cost that leads through two lists leaves them equal. -/
theorem groups_nil_of_eq (documented : similar.Documented) (text : List Str) :
    similar.groupedOps context text text = [] := by
  have identity : ValidScript text text [.equal 0 0 text.length] := by
    simp [ValidScript, Leads, Fits, Op.oldIndex, Op.newIndex, Op.oldLen, Op.newLen]
  have free : groupsCost (similar.groupedOps context text text) = 0 := by
    have bound := documented.shortest text text _ identity
    simpa [scriptCost, Op.cost] using bound
  cases groupsEq : similar.groupedOps context text text with
  | nil => rfl
  | cons group groups =>
      have positive := documented.changes text text group (by rw [groupsEq]; simp)
      rw [groupsEq, groupsCost, List.map_cons, List.sum_cons] at free
      omega

theorem map_trimEndMatches (text : Str) :
    (splitLines (normalize text)).map (Str.trimEndMatches '\n') = lineTexts text :=
  List.map_congr_left fun _ member => trimEndMatches_of_mem member

/-- The hunks describe the buffer's lines in terms of the reference's. -/
theorem describes_hunks (documented : similar.Documented) (reference buffer : Str)
    (referenceBound : (splitLines (normalize reference)).length + 1 < 2 ^ 32)
    (bufferBound : (splitLines (normalize buffer)).length + 1 < 2 ^ 32) :
    Describes (lineTexts reference) (lineTexts buffer) 0 0
      ((hunks similar reference buffer).map Report.Hunk.toPatch) := by
  have mapped := (documented.grouped (splitLines (normalize reference))
    (splitLines (normalize buffer))).describes.map (Str.trimEndMatches '\n')
  rw [map_trimEndMatches, map_trimEndMatches] at mapped
  rw [map_toPatch_hunks documented referenceBound bufferBound]
  exact mapped

/-- The hunks are a correct patch from the reference's lines to the buffer's. -/
theorem hunks_correct (documented : similar.Documented) (reference buffer : Str)
    (referenceBound : (splitLines (normalize reference)).length + 1 < 2 ^ 32)
    (bufferBound : (splitLines (normalize buffer)).length + 1 < 2 ^ 32) :
    IsPatch (lineTexts reference) (lineTexts buffer)
        ((hunks similar reference buffer).map Report.Hunk.toPatch) ∧
      (hunks similar reference buffer = [] ↔ normalize reference = normalize buffer) := by
  have groups := documented.grouped (splitLines (normalize reference))
    (splitLines (normalize buffer))
  have described := describes_hunks documented reference buffer referenceBound bufferBound
  refine ⟨described.isPatch, ?_⟩
  constructor
  · intro empty
    have noGroups : (similar.groupedOps context (splitLines (normalize reference))
        (splitLines (normalize buffer))).filterMap
          (hunkOf (splitLines (normalize reference)) (splitLines (normalize buffer))) = [] := by
      have mapped := map_toPatch_hunks documented referenceBound bufferBound
      rw [empty] at mapped
      simpa using mapped.symm
    have untouched := groups.describes
    rw [noGroups] at untouched
    have same : splitLines (normalize reference) = splitLines (normalize buffer) := untouched
    rw [← flatten_splitLines (normalize reference), same, flatten_splitLines]
  · intro same
    unfold hunks
    rw [same]
    dsimp only
    rw [groups_nil_of_eq documented, List.filterMap_nil]

/-- A crate that keeps the common start of two texts when that is shortest. -/
noncomputable def leadingSimilar : Similar where
  tokenizeLines := splitLines
  groupedOps _ old new :=
    open Classical in
    let script :=
      if Shortest old new (leadingDiff old new) then leadingDiff old new
      else shortestScript old new
    if scriptCost script = 0 then [] else [script]

private theorem exists_leadingSimilar_script (old new : List Str) :
    ∃ script, ValidScript old new script ∧ Shortest old new script ∧
      leadingSimilar.groupedOps context old new =
        if scriptCost script = 0 then [] else [script] := by
  refine ⟨_, ?_, ?_, rfl⟩
  · split
    · exact validScript_leadingDiff old new
    · exact (shortestScript_spec old new).1
  · split
    · assumption
    · exact (shortestScript_spec old new).2

theorem leadingSimilar_documented : leadingSimilar.Documented := by
  refine ⟨fun _ => rfl, ?_, ?_, ?_⟩
  · intro old new
    obtain ⟨script, valid, _, groupsEq⟩ := exists_leadingSimilar_script old new
    rw [groupsEq]
    split
    · rename_i free
      exact congrArg (List.drop 0) (valid.eq_of_free free)
    · rename_i costly
      refine ⟨0, old.length, new.length, by omega, by omega, by simp, ?_, valid, ?_⟩
      · rintro rfl
        exact costly rfl
      · simp [Grouped]
  · intro old new group member
    obtain ⟨script, _, _, groupsEq⟩ := exists_leadingSimilar_script old new
    rw [groupsEq] at member
    split at member
    · simp at member
    · rw [List.mem_singleton.mp member]
      omega
  · intro old new other otherValid
    obtain ⟨script, _, shortest, groupsEq⟩ := exists_leadingSimilar_script old new
    rw [groupsEq]
    split
    · simp [groupsCost]
    · simpa [groupsCost] using shortest other otherValid

theorem hunks_correct_added :
    IsPatch (lineTexts "a".toList) (lineTexts "a\r\nb".toList)
        ((hunks leadingSimilar "a".toList "a\r\nb".toList).map Report.Hunk.toPatch) ∧
      (hunks leadingSimilar "a".toList "a\r\nb".toList = [] ↔
        normalize "a".toList = normalize "a\r\nb".toList) :=
  hunks_correct leadingSimilar_documented _ _ (by decide) (by decide)

end Compare

end Hermione
