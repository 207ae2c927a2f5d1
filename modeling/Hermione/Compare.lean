import Hermione.Report

/-!
# A student's buffer against a teacher's reference solution

The comparison normalises both texts, takes them apart into lines and asks the
`similar` crate for a grouped diff.  The crate is a parameter: what is assumed
of it is that it splits lines as documented and groups the operations of a
shortest edit script.
-/

namespace Hermione

open EditScripts

/-- What the comparison uses of the `similar` crate. -/
structure Similar where
  /-- The line tokens `diff_lines` compares. -/
  tokenizeLines : Str → List Str
  /-- `grouped_ops` of the Myers diff, with so many lines of context. -/
  groupedOps : Nat → List Str → List Str → List (List Op)

namespace Compare

/-- Lines of unchanged context kept around each difference. -/
def context : Nat := 3

/-- `text.replace("\r\n", "\n")`. -/
def replaceCrlf : Str → Str
  | [] => []
  | '\r' :: '\n' :: text => '\n' :: replaceCrlf text
  | char :: text => char :: replaceCrlf text

/-- Line endings and a final newline shouldn't make two files differ. -/
def normalize (text : Str) : Str :=
  let text := replaceCrlf text
  if text ≠ [] ∧ text.getLast? ≠ some '\n' then text ++ ['\n'] else text

def u32TryFrom (number : Nat) : Option Nat :=
  if number < 2 ^ 32 then some number else none

/-- The differences between the reference and the buffer, as unified-diff hunks
with the reference as the old side. -/
def hunks (similar : Similar) (reference buffer : Str) : List Report.Hunk :=
  let old := similar.tokenizeLines (normalize reference)
  let new := similar.tokenizeLines (normalize buffer)
  (similar.groupedOps context old new).filterMap fun group =>
    group.head?.bind fun first =>
      let lines := (group.flatMap (changesOf old new)).map fun change =>
        Report.DiffLine.ofChange (change.map (Str.trimEndMatches '\n'))
      -- Unified diffs number lines from 1; the operations count from 0.
      (u32TryFrom (first.oldIndex + 1)).bind fun oldStart =>
        (u32TryFrom (first.newIndex + 1)).map fun newStart =>
          { oldStart, newStart, lines }

end Compare

/-! ### What is documented of the crate -/

/-- A text taken apart after every `\n`, `\r\n` and lone `\r`. -/
def splitLines : Str → List Str
  | [] => []
  | '\r' :: '\n' :: text => ['\r', '\n'] :: splitLines text
  | char :: text =>
      if char = '\n' ∨ char = '\r' then [char] :: splitLines text
      else
        match splitLines text with
        | [] => [[char]]
        | line :: lines => (char :: line) :: lines

/-- How many elements the changes of all groups take away or add. -/
def groupsCost (groups : List (List Op)) : Nat :=
  (groups.map scriptCost).sum

structure Similar.Documented (similar : Similar) : Prop where
  tokens : ∀ text, similar.tokenizeLines text = splitLines text
  /-- The groups are parts of one ordered edit script and hold all its changes. -/
  grouped : ∀ old new, Grouped old new 0 0 (similar.groupedOps Compare.context old new)
  /-- Ranges without changes are not made into groups. -/
  changes : ∀ old new, ∀ group ∈ similar.groupedOps Compare.context old new,
    0 < scriptCost group
  /-- Myers' script is a shortest one. -/
  shortest : ∀ old new script, ValidScript old new script →
    groupsCost (similar.groupedOps Compare.context old new) ≤ scriptCost script

theorem flatten_splitLines (text : Str) : (splitLines text).flatten = text := by
  fun_induction splitLines text with
  | case1 => rfl
  | case2 text ih => simp [ih]
  | case3 char text _ _ ih => simp [ih]
  | case4 char text _ _ empty ih =>
      rw [empty] at ih
      simpa using congrArg (char :: ·) ih
  | case5 char text _ _ line lines equal ih =>
      rw [equal] at ih
      simpa using congrArg (char :: ·) ih

/-- A line holds a newline only as its last character. -/
theorem mem_splitLines {text line : Str} (member : line ∈ splitLines text) :
    ∃ body, '\n' ∉ body ∧ (line = body ∨ line = body ++ ['\n']) := by
  fun_induction splitLines text generalizing line with
  | case1 => simp at member
  | case2 text ih =>
      rcases List.mem_cons.mp member with rfl | later
      · exact ⟨['\r'], by decide, Or.inr rfl⟩
      · exact ih later
  | case3 char text _ terminator ih =>
      rcases List.mem_cons.mp member with rfl | later
      · rcases terminator with rfl | rfl
        · exact ⟨[], by simp, Or.inr rfl⟩
        · exact ⟨['\r'], by decide, Or.inl rfl⟩
      · exact ih later
  | case4 char text _ inner empty ih =>
      have ordinary : '\n' ≠ char := fun same => inner (Or.inl same.symm)
      rw [List.mem_singleton.mp member]
      exact ⟨[char], by simpa using ordinary, Or.inl rfl⟩
  | case5 char text _ inner first lines equal ih =>
      have ordinary : '\n' ≠ char := fun same => inner (Or.inl same.symm)
      rcases List.mem_cons.mp member with rfl | later
      · obtain ⟨body, bodyFree, firstEq⟩ := ih (by rw [equal]; exact List.mem_cons_self)
        refine ⟨char :: body, by simp [ordinary, bodyFree], ?_⟩
        rcases firstEq with rfl | rfl
        · exact Or.inl rfl
        · exact Or.inr rfl
      · exact ih (by rw [equal]; exact List.mem_cons_of_mem _ later)

/-- A line without its trailing newline. -/
def withoutNewline (line : Str) : Str :=
  if line.getLast? = some '\n' then line.dropLast else line

/-- Trimming newlines off a line takes its terminator and no more. -/
theorem trimEndMatches_of_mem {text line : Str} (member : line ∈ splitLines text) :
    Str.trimEndMatches '\n' line = withoutNewline line := by
  obtain ⟨body, bodyFree, rfl | rfl⟩ := mem_splitLines member
  · have noNewline : line.getLast? ≠ some '\n' := fun last =>
      bodyFree (List.mem_of_getLast? last)
    rw [Str.trimEndMatches_of_not_mem bodyFree, withoutNewline, if_neg noNewline]
  · rw [Str.trimEndMatches_concat, Str.trimEndMatches_of_not_mem bodyFree]
    simp [withoutNewline]

end Hermione
