import Hermione.FaithfulDiff
import Hermione.MachineSums
import Hermione.OptionTraversal
import Hermione.ReportText

/-!
# Row numbers in machine words

The numbers of a diff are `u32`s, and the starts that they are counted up from come
with the report.  Where additions are checked, one that does not fit panics; where
they are not, it wraps.
-/

namespace Hermione

/-- One added to a `u32`; none where the build panics. -/
def Build.plusOne (build : Build) (number : Nat) : Option Nat :=
  if number + 1 < 2 ^ 32 then some (number + 1)
  else match build with
    | checked => none
    | wrapping => some ((number + 1) % 2 ^ 32)

variable {syntect : Syntect}

namespace Diff

/-- The loop that counts the added and the removed lines. -/
def countIn (build : Build) : Nat → Nat → List Report.DiffLine → Option (Nat × Nat)
  | added, removed, [] => some (added, removed)
  | added, removed, .added _ :: lines =>
      (build.plusOne added).bind fun added => countIn build added removed lines
  | added, removed, .removed _ :: lines =>
      (build.plusOne removed).bind fun removed => countIn build added removed lines
  | added, removed, .context _ :: lines => countIn build added removed lines

/-- `rowsFrom`, with its cursors advanced as in the build. -/
def rowsIn (build : Build) (colour : Option (Colour syntect)) :
    Option (List Line) → Nat → Nat → List Report.DiffLine → Option (List Row)
  | _, _, _, [] => some []
  | oldSide, old, new, .context text :: lines =>
      (build.plusOne old).bind fun nextOld =>
        (build.plusOne new).bind fun nextNew =>
          (rowsIn build colour (oldSide.map List.tail) nextOld nextNew lines).map fun rows =>
            .context old new (bufferLine colour new text) :: rows
  | oldSide, old, new, .added text :: lines =>
      (build.plusOne new).bind fun nextNew =>
        (rowsIn build colour oldSide old nextNew lines).map fun rows =>
          .added new (bufferLine colour new text) :: rows
  | oldSide, old, new, .removed text :: lines =>
      (build.plusOne old).bind fun nextOld =>
        (rowsIn build colour (oldSide.map List.tail) nextOld new lines).map fun rows =>
          .removed old (spans (oldSide.bind List.head?) text) :: rows

end Diff

/-- `Hunk.new` in a build; the counts of its rows are cut to 32 bits in either. -/
def Hunk.newIn (build : Build) (words : WordDiff) (hunk : Report.Hunk)
    (colour : Option (Colour syntect)) : Option Hunk :=
  (Diff.rowsIn build colour (oldSide colour hunk) hunk.oldStart hunk.newStart
      hunk.lines).bind fun rows =>
    (Diff.markWords words hunk.lines rows).map fun rows =>
      { oldStart := hunk.oldStart
        oldLines := (rows.countP fun row => !row.isAdded) % 2 ^ 32
        newStart := hunk.newStart
        newLines := (rows.countP fun row => !row.isRemoved) % 2 ^ 32
        rows }

namespace Diff

def keepIn (build : Build) (words : WordDiff) (colour : Option (Colour syntect)) :
    Nat → Bool → List Hunk → List Report.Hunk → Option (List Hunk × Bool)
  | _, truncated, kept, [] => some (kept, truncated)
  | budget, truncated, kept, hunk :: hunks =>
      if truncated = true ∨ budget < hunk.lines.length then
        keepIn build words colour budget true kept hunks
      else
        (Hunk.newIn build words hunk colour).bind fun drawn =>
          keepIn build words colour (budget - hunk.lines.length) truncated (kept ++ [drawn]) hunks

/-- `Diff.new` in a build. -/
def newIn (build : Build) (words : WordDiff) (hunks : List Report.Hunk)
    (colour : Option (Colour syntect)) : Option Diff :=
  (countIn build 0 0 (hunks.flatMap Report.Hunk.lines)).bind fun counts =>
    (keepIn build words colour maxRows false [] hunks).map fun outcome =>
      { added := counts.1, removed := counts.2, hunks := outcome.1, truncated := outcome.2 }

/-! ### Numbers that fit -/

/-- The numbers of a hunk, and those that the cursors end with, fit. -/
structure HunkFits (oldStart newStart : Nat) (lines : List Report.DiffLine) : Prop where
  old : oldStart + (lines.countP fun line => !line.isAdded) < 2 ^ 32
  new : newStart + (lines.countP fun line => !line.isRemoved) < 2 ^ 32

/-- The hunks that are drawn within the budget. -/
def drawn : Nat → List Report.Hunk → List Report.Hunk
  | _, [] => []
  | budget, hunk :: hunks =>
      if budget < hunk.lines.length then []
      else hunk :: drawn (budget - hunk.lines.length) hunks

/-- Every number of a diff fits a `u32`, and one more row's would. -/
structure NumbersFit (hunks : List Report.Hunk) : Prop where
  added : (hunks.flatMap Report.Hunk.lines).countP Report.DiffLine.isAdded < 2 ^ 32
  removed : (hunks.flatMap Report.Hunk.lines).countP Report.DiffLine.isRemoved < 2 ^ 32
  rows : ∀ hunk ∈ drawn maxRows hunks, HunkFits hunk.oldStart hunk.newStart hunk.lines

/-- A diff is made without a panic where additions are checked, and without a number
that wrapped where they are not. -/
structure NumbersSafe (words : WordDiff) (colour : Option (Colour syntect))
    (hunks : List Report.Hunk) : Prop where
  checked : ∃ diff, newIn .checked words hunks colour = some diff
  unwrapped : newIn .wrapping words hunks colour = new words hunks colour

theorem plusOne_of_lt (build : Build) {number : Nat} (fits : number + 1 < 2 ^ 32) :
    build.plusOne number = some (number + 1) :=
  if_pos fits

theorem lt_of_plusOne {number next : Nat} (added : Build.checked.plusOne number = some next) :
    number + 1 < 2 ^ 32 ∧ next = number + 1 := by
  unfold Build.plusOne at added
  split at added
  · next fits => exact ⟨fits, (Option.some.inj added).symm⟩
  · cases added

/-! ### Counting -/

theorem countIn_of_fits (build : Build) {lines : List Report.DiffLine} {added removed : Nat}
    (more : added + lines.countP Report.DiffLine.isAdded < 2 ^ 32)
    (fewer : removed + lines.countP Report.DiffLine.isRemoved < 2 ^ 32) :
    countIn build added removed lines =
      some (added + lines.countP Report.DiffLine.isAdded,
        removed + lines.countP Report.DiffLine.isRemoved) := by
  induction lines generalizing added removed with
  | nil => rfl
  | cons line lines ih =>
      cases line with
      | context text => exact ih more fewer
      | added text =>
          simp only [List.countP_cons, Report.DiffLine.isAdded, Report.DiffLine.isRemoved,
            Bool.false_eq_true, if_false, if_true, Nat.add_zero] at more fewer ⊢
          rw [countIn, plusOne_of_lt build (by omega), Option.bind_some, ih (by omega) fewer,
            Nat.add_assoc, Nat.add_comm 1]
      | removed text =>
          simp only [List.countP_cons, Report.DiffLine.isAdded, Report.DiffLine.isRemoved,
            Bool.false_eq_true, if_false, if_true, Nat.add_zero] at more fewer ⊢
          rw [countIn, plusOne_of_lt build (by omega), Option.bind_some, ih more (by omega),
            Nat.add_assoc, Nat.add_comm 1]

theorem fits_of_countIn {lines : List Report.DiffLine} {added removed : Nat}
    {counts : Nat × Nat} (before : added < 2 ^ 32) (before' : removed < 2 ^ 32)
    (counted : countIn .checked added removed lines = some counts) :
    added + lines.countP Report.DiffLine.isAdded < 2 ^ 32 ∧
      removed + lines.countP Report.DiffLine.isRemoved < 2 ^ 32 := by
  induction lines generalizing added removed with
  | nil => exact ⟨before, before'⟩
  | cons line lines ih =>
      cases line with
      | context text =>
          obtain ⟨more, fewer⟩ := ih before before' counted
          simpa [Report.DiffLine.isAdded, Report.DiffLine.isRemoved] using ⟨more, fewer⟩
      | added text =>
          obtain ⟨next, bumped, counted⟩ := Option.bind_eq_some_iff.mp counted
          obtain ⟨fits, rfl⟩ := lt_of_plusOne bumped
          obtain ⟨more, fewer⟩ := ih fits before' counted
          simp only [List.countP_cons, Report.DiffLine.isAdded, Report.DiffLine.isRemoved,
            Bool.false_eq_true, if_true, if_false]
          omega
      | removed text =>
          obtain ⟨next, bumped, counted⟩ := Option.bind_eq_some_iff.mp counted
          obtain ⟨fits, rfl⟩ := lt_of_plusOne bumped
          obtain ⟨more, fewer⟩ := ih before fits counted
          simp only [List.countP_cons, Report.DiffLine.isAdded, Report.DiffLine.isRemoved,
            Bool.false_eq_true, if_true, if_false]
          omega

/-! ### One hunk -/

/-- Where a hunk's numbers fit, so do those after its first line. -/
theorem hunkFits_cons_iff {old new : Nat} {line : Report.DiffLine}
    {lines : List Report.DiffLine} :
    HunkFits old new (line :: lines) ↔
      HunkFits (old + if line.isAdded then 0 else 1) (new + if line.isRemoved then 0 else 1)
        lines := by
  have parts {old new : Nat} {lines : List Report.DiffLine} : HunkFits old new lines ↔
      old + (lines.countP fun line => !line.isAdded) < 2 ^ 32 ∧
        new + (lines.countP fun line => !line.isRemoved) < 2 ^ 32 :=
    ⟨fun fits => ⟨fits.old, fits.new⟩, fun fits => ⟨fits.1, fits.2⟩⟩
  rw [parts, parts, List.countP_cons, List.countP_cons]
  cases line <;> simp [Report.DiffLine.isAdded, Report.DiffLine.isRemoved] <;> omega

theorem rowsIn_of_fits (build : Build) (colour : Option (Colour syntect))
    {lines : List Report.DiffLine} {oldSide : Option (List Line)} {old new : Nat}
    (fits : HunkFits old new lines) :
    rowsIn build colour oldSide old new lines = some (rowsFrom colour oldSide old new lines) := by
  induction lines generalizing oldSide old new with
  | nil => rfl
  | cons line lines ih =>
      have rest := hunkFits_cons_iff.mp fits
      have bounds := rest.old
      have bounds' := rest.new
      cases line with
      | context text =>
          simp only [Report.DiffLine.isAdded, Report.DiffLine.isRemoved, Bool.false_eq_true,
            if_false] at rest bounds bounds'
          rw [rowsIn, plusOne_of_lt build (by omega), Option.bind_some,
            plusOne_of_lt build (by omega), Option.bind_some, ih rest]
          rfl
      | added text =>
          simp only [Report.DiffLine.isAdded, Report.DiffLine.isRemoved, Bool.false_eq_true,
            if_false, if_true, Nat.add_zero] at rest bounds bounds'
          rw [rowsIn, plusOne_of_lt build (by omega), Option.bind_some, ih rest]
          rfl
      | removed text =>
          simp only [Report.DiffLine.isAdded, Report.DiffLine.isRemoved, Bool.false_eq_true,
            if_false, if_true, Nat.add_zero] at rest bounds bounds'
          rw [rowsIn, plusOne_of_lt build (by omega), Option.bind_some, ih rest]
          rfl

theorem fits_of_rowsIn {colour : Option (Colour syntect)} {lines : List Report.DiffLine}
    {oldSide : Option (List Line)} {old new : Nat} {rows : List Row} (before : old < 2 ^ 32)
    (before' : new < 2 ^ 32)
    (numbered : rowsIn .checked colour oldSide old new lines = some rows) :
    HunkFits old new lines := by
  induction lines generalizing oldSide old new rows with
  | nil => exact ⟨before, before'⟩
  | cons line lines ih =>
      rw [hunkFits_cons_iff]
      cases line with
      | context text =>
          obtain ⟨nextOld, bumped, numbered⟩ := Option.bind_eq_some_iff.mp numbered
          obtain ⟨nextNew, bumped', numbered⟩ := Option.bind_eq_some_iff.mp numbered
          obtain ⟨rest, numbered, -⟩ := Option.map_eq_some_iff.mp numbered
          obtain ⟨fits, rfl⟩ := lt_of_plusOne bumped
          obtain ⟨fits', rfl⟩ := lt_of_plusOne bumped'
          exact ih fits fits' numbered
      | added text =>
          obtain ⟨nextNew, bumped, numbered⟩ := Option.bind_eq_some_iff.mp numbered
          obtain ⟨rest, numbered, -⟩ := Option.map_eq_some_iff.mp numbered
          obtain ⟨fits, rfl⟩ := lt_of_plusOne bumped
          exact ih before fits numbered
      | removed text =>
          obtain ⟨nextOld, bumped, numbered⟩ := Option.bind_eq_some_iff.mp numbered
          obtain ⟨rest, numbered, -⟩ := Option.map_eq_some_iff.mp numbered
          obtain ⟨fits, rfl⟩ := lt_of_plusOne bumped
          exact ih fits before' numbered

theorem hunk_newIn_of_fits (build : Build) {words : WordDiff} (valid : words.Valid)
    (colour : Option (Colour syntect)) {hunk : Report.Hunk}
    (fits : HunkFits hunk.oldStart hunk.newStart hunk.lines)
    (short : hunk.lines.length < 2 ^ 32) :
    Hunk.newIn build words hunk colour = Hunk.new words hunk colour := by
  obtain ⟨shown, made, shows⟩ := Hunk.exists_new valid hunk colour
  unfold Hunk.newIn
  rw [rowsIn_of_fits build colour fits, Option.bind_some, made]
  unfold Hunk.new at made
  obtain ⟨rows, marked, rfl⟩ := Option.map_eq_some_iff.mp made
  have long : rows.length = hunk.lines.length := shows.length
  have few (keep : Row → Bool) : rows.countP keep < 2 ^ 32 :=
    lt_of_le_of_lt List.countP_le_length (long ▸ short)
  rw [marked, Option.map_some, Nat.mod_eq_of_lt (few _), Nat.mod_eq_of_lt (few _)]

/-! ### The whole diff -/

theorem keepIn_truncated (build : Build) (words : WordDiff) (colour : Option (Colour syntect))
    (budget : Nat) (kept : List Hunk) (hunks : List Report.Hunk) :
    keepIn build words colour budget true kept hunks = some (kept, true) := by
  induction hunks with
  | nil => rfl
  | cons hunk hunks ih => simp [keepIn, ih]

theorem keepIn_of_fits (build : Build) {words : WordDiff} (valid : words.Valid)
    (colour : Option (Colour syntect)) {hunks : List Report.Hunk} {budget : Nat}
    (kept : List Hunk) (bounded : budget < 2 ^ 32)
    (fits : ∀ hunk ∈ drawn budget hunks, HunkFits hunk.oldStart hunk.newStart hunk.lines) :
    keepIn build words colour budget false kept hunks =
      keep words colour budget false kept hunks := by
  induction hunks generalizing budget kept with
  | nil => rfl
  | cons hunk hunks ih =>
      rw [drawn] at fits
      rw [keepIn, keep]
      by_cases tooMany : budget < hunk.lines.length
      · rw [if_pos (.inr tooMany), if_pos (.inr tooMany), keepIn_truncated, keep_truncated]
      · rw [if_neg tooMany, List.forall_mem_cons] at fits
        rw [if_neg (by simpa using tooMany), if_neg (by simpa using tooMany),
          hunk_newIn_of_fits build valid colour fits.1 (by omega)]
        congr 1
        funext shown
        exact ih _ (by omega) fits.2

theorem fits_of_keepIn {words : WordDiff} {colour : Option (Colour syntect)}
    {hunks : List Report.Hunk} {budget : Nat} {kept : List Hunk} {outcome : List Hunk × Bool}
    (starts : ∀ hunk ∈ hunks, hunk.oldStart < 2 ^ 32 ∧ hunk.newStart < 2 ^ 32)
    (made : keepIn .checked words colour budget false kept hunks = some outcome) :
    ∀ hunk ∈ drawn budget hunks, HunkFits hunk.oldStart hunk.newStart hunk.lines := by
  induction hunks generalizing budget kept with
  | nil =>
      intro hunk none
      cases none
  | cons hunk hunks ih =>
      rw [List.forall_mem_cons] at starts
      rw [keepIn] at made
      rw [drawn]
      by_cases tooMany : budget < hunk.lines.length
      · rw [if_pos tooMany]
        intro hunk none
        cases none
      · rw [if_neg (by simpa using tooMany)] at made
        rw [if_neg tooMany, List.forall_mem_cons]
        obtain ⟨shown, drawing, made⟩ := Option.bind_eq_some_iff.mp made
        obtain ⟨rows, numbered, -⟩ := Option.bind_eq_some_iff.mp drawing
        exact ⟨fits_of_rowsIn starts.1.1 starts.1.2 numbered, ih starts.2 made⟩

theorem numbersSafe_iff {words : WordDiff} (valid : words.Valid)
    (colour : Option (Colour syntect)) {hunks : List Report.Hunk}
    (starts : ∀ hunk ∈ hunks, hunk.oldStart < 2 ^ 32 ∧ hunk.newStart < 2 ^ 32) :
    NumbersSafe words colour hunks ↔ NumbersFit hunks := by
  constructor
  · rintro ⟨⟨diff, made⟩, -⟩
    obtain ⟨counts, counted, made⟩ := Option.bind_eq_some_iff.mp made
    obtain ⟨outcome, made, -⟩ := Option.map_eq_some_iff.mp made
    obtain ⟨added, removed⟩ := fits_of_countIn (by decide) (by decide) counted
    rw [Nat.zero_add] at added removed
    exact ⟨added, removed, fits_of_keepIn starts made⟩
  · intro fits
    have exact (build : Build) : newIn build words hunks colour = new words hunks colour := by
      unfold newIn new
      rw [countIn_of_fits build (by simpa using fits.added) (by simpa using fits.removed),
        Option.bind_some, keepIn_of_fits build valid colour [] (by decide) fits.rows]
      simp
    obtain ⟨diff, made, -⟩ := new_shows valid hunks colour
    exact ⟨⟨diff, (exact .checked).trans made⟩, exact .wrapping⟩

end Diff

/-! ### What a report can carry -/

theorem lt_of_unsigned {bits number : Nat} {value : Json Str}
    (read : Deserialize.unsigned bits value = some number) : number < 2 ^ bits := by
  cases value with
  | number numeral => exact of_decide_eq_true (Option.filter_eq_some_iff.mp read).2
  | _ => cases read

theorem lt_of_required {name : String} {number : Nat} {value : Json Str}
    (read : Deserialize.required name (Deserialize.unsigned 32) value = some number) :
    number < 2 ^ 32 := by
  unfold Deserialize.required at read
  split at read
  · exact lt_of_unsigned read
  · cases read

theorem starts_of_hunk {value : Json Str} {hunk : Report.Hunk}
    (read : Deserialize.hunk value = some hunk) :
    hunk.oldStart < 2 ^ 32 ∧ hunk.newStart < 2 ^ 32 := by
  obtain ⟨oldStart, old, read⟩ := Option.bind_eq_some_iff.mp read
  obtain ⟨newStart, new, read⟩ := Option.bind_eq_some_iff.mp read
  obtain ⟨lines, -, read⟩ := Option.bind_eq_some_iff.mp read
  cases read
  exact ⟨lt_of_required old, lt_of_required new⟩

theorem starts_of_baseline {value : Json Str} {hunks : List Report.Hunk}
    (read : Deserialize.baseline value = some (.head hunks)) :
    ∀ hunk ∈ hunks, hunk.oldStart < 2 ^ 32 ∧ hunk.newStart < 2 ^ 32 := by
  obtain ⟨kind, -, read⟩ := Option.bind_eq_some_iff.mp read
  split at read
  · obtain ⟨hunks', listed, same⟩ := Option.map_eq_some_iff.mp read
    cases same
    unfold Deserialize.required at listed
    split at listed
    · next value _ =>
        cases value with
        | array elements =>
            intro hunk member
            obtain ⟨element, -, own⟩ := OptionTraversal.exists_of_mem_results listed member
            exact starts_of_hunk own
        | _ => cases listed
    · cases listed
  · split at read
    · cases read
    · split at read <;> cases read

theorem baseline_of_file {value : Json Str} {file : Report.File}
    (read : Deserialize.file value = some file) :
    ∃ value, Deserialize.baseline value = some file.baseline := by
  obtain ⟨path, -, read⟩ := Option.bind_eq_some_iff.mp read
  obtain ⟨relativePath, -, read⟩ := Option.bind_eq_some_iff.mp read
  obtain ⟨language, -, read⟩ := Option.bind_eq_some_iff.mp read
  obtain ⟨exercise, -, read⟩ := Option.bind_eq_some_iff.mp read
  obtain ⟨cursor, -, read⟩ := Option.bind_eq_some_iff.mp read
  obtain ⟨dirty, -, read⟩ := Option.bind_eq_some_iff.mp read
  obtain ⟨content, -, read⟩ := Option.bind_eq_some_iff.mp read
  obtain ⟨truncated, -, read⟩ := Option.bind_eq_some_iff.mp read
  obtain ⟨baseline, made, read⟩ := Option.bind_eq_some_iff.mp read
  cases read
  unfold Deserialize.required at made
  split at made
  · exact ⟨_, made⟩
  · cases made

theorem file_of_state {value : Json Str} {file : Report.File}
    (read : Deserialize.state value = some (.file file)) :
    Deserialize.file value = some file := by
  obtain ⟨state, -, read⟩ := Option.bind_eq_some_iff.mp read
  split at read
  · cases read
  · split at read
    · cases read
    · split at read
      · obtain ⟨basis, -, read⟩ := Option.bind_eq_some_iff.mp read
        obtain ⟨cursor, -, read⟩ := Option.bind_eq_some_iff.mp read
        cases read
      · split at read
        · obtain ⟨_, made, same⟩ := Option.map_eq_some_iff.mp read
          cases same
          exact made
        · cases read

/-- A report that the server can read, of a file with changes. -/
def Posted (value : Json Str) (hunks : List Report.Hunk) : Prop :=
  ∃ student file, Deserialize.report value = some { student, state := .file file } ∧
    file.baseline = .head hunks

theorem Posted.starts {value : Json Str} {hunks : List Report.Hunk}
    (posted : Posted value hunks) :
    ∀ hunk ∈ hunks, hunk.oldStart < 2 ^ 32 ∧ hunk.newStart < 2 ^ 32 := by
  obtain ⟨student, file, read, head⟩ := posted
  obtain ⟨_, -, read⟩ := Option.bind_eq_some_iff.mp read
  obtain ⟨_, stated, same⟩ := Option.bind_eq_some_iff.mp read
  cases same
  obtain ⟨_, made⟩ := baseline_of_file (file_of_state stated)
  rw [head] at made
  exact starts_of_baseline made

/-- The numbers of a report's diff neither panic nor wrap exactly if they all fit, and
one more of each hunk's would. -/
theorem numbersSafe_iff_fit {words : WordDiff} (valid : words.Valid)
    (colour : Option (Colour syntect)) {value : Json Str} {hunks : List Report.Hunk}
    (posted : Posted value hunks) :
    Diff.NumbersSafe words colour hunks ↔ Diff.NumbersFit hunks :=
  Diff.numbersSafe_iff valid colour posted.starts

/-- Two lines of context, from `start` on in both files. -/
def contextAt (start : Nat) : Report.Hunk :=
  { oldStart := start, newStart := start, lines := [.context "x".toList, .context "y".toList] }

/-- What an editor posts with them. -/
def contextPost (start : Nat) : Json Str :=
  Editor.jsonFile String.toList "anna".toList "/w/a.txt".toList "a.txt".toList
    "plaintext".toList none none false [] false
    (Editor.jsonHead String.toList [Editor.jsonHunk String.toList start start
      [" x".toList, " y".toList]])

theorem numbersSafe_iff_fit_first :
    Diff.NumbersSafe leadingWords (none : Option (Colour noGrammars)) [contextAt 1] ↔
      Diff.NumbersFit [contextAt 1] :=
  @numbersSafe_iff_fit noGrammars leadingWords leadingWords_valid none (contextPost 1) _
    ⟨_, _, rfl, rfl⟩

/-- The greatest line number there is leaves no room for the next. -/
theorem not_numbersSafe_last :
    ¬ ∀ (value : Json Str) (hunks : List Report.Hunk), Posted value hunks →
      Diff.NumbersSafe leadingWords (none : Option (Colour noGrammars)) hunks := by
  intro safe
  obtain ⟨⟨diff, made⟩, -⟩ :=
    safe (contextPost 4294967295) [contextAt 4294967295] ⟨_, _, rfl, rfl⟩
  have panics : Diff.newIn .checked leadingWords [contextAt 4294967295]
      (none : Option (Colour noGrammars)) = none := rfl
  rw [panics] at made
  cases made

end Hermione
