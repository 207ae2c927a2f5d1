import Hermione.SinceHunks

/-!
# The dashboard's hunks are a patch

From a script taken apart into rows and what is between them: the hunks come in order with
unchanged lines between them, each stands where it says, they hold every change, and they
turn the old lines into the new ones.
-/

namespace Hermione

namespace Since

open EditScripts (Describes patch)
open ContextWindows (part marks windows Cut Surrounded)

variable {old new : List JsString} {ops : List (Op JsString)} {rows : List (List (Op JsString))}
  {least i j : Nat}

/-- What a list of rows needs to know of where it stands. -/
structure Stands (old new : List JsString) (least i j : Nat) (ops : List (Op JsString))
    (rows : List (List (Op JsString))) : Prop where
  cut : Cut isChange CONTEXT least ops rows
  reads : Reads i j ops (old.drop i) (new.drop j)
  below : i ≤ old.length ∧ j ≤ new.length
  some_line : least = 0 → old.drop i ≠ [] ∧ new.drop j ≠ []

/-- The first rows are placed, and the others stand after them. -/
theorem Stands.step {first : List (Op JsString)}
    (stands : Stands old new least i j ops (first :: rows)) :
    ∃ gap rest, least ≤ gap ∧ Placed old new i j gap first rest ∧
      Stands old new 1 (i + gap + (hunkOf first).oldLines) (j + gap + (hunkOf first).newLines)
        rest rows := by
  obtain ⟨gap, rest, room, placed, others⟩ :=
    placed_of_cut stands.cut stands.reads stands.below stands.some_line
  refine ⟨gap, rest, room, placed, others, placed.rest, ?_, nofun⟩
  have within := placed.fits.within
  rw [placed.oldStart, placed.newStart] at within
  omega

theorem length_sides {hunk : Hunk} (fits : hunk.Fits old new) :
    hunk.toPatch.oldSide = EditScripts.segment old (hunk.oldStart - 1) hunk.oldLines ∧
      hunk.toPatch.newSide = EditScripts.segment new (hunk.newStart - 1) hunk.newLines := by
  have sides := filterMap_change hunk.rows
  have texts := fits.reads.texts
  exact ⟨sides.1.trans texts.1, sides.2.trans texts.2⟩

theorem Stands.describes (stands : Stands old new least i j ops rows) :
    Describes old new i j (rows.map fun rows => (hunkOf rows).toPatch) := by
  induction rows generalizing least i j ops with
  | nil => exact stands.reads.eq_of_quiet stands.cut
  | cons first rows ih =>
      obtain ⟨gap, rest, -, placed, others⟩ := stands.step
      obtain ⟨oldSide, newSide⟩ := length_sides placed.fits
      have within := placed.fits.within
      have oldLength : (hunkOf first).toPatch.oldSide.length = (hunkOf first).oldLines := by
        rw [oldSide, EditScripts.length_segment within.1]
      have newLength : (hunkOf first).toPatch.newSide.length = (hunkOf first).newLines := by
        rw [newSide, EditScripts.length_segment within.2]
      refine ⟨gap, placed.oldStart, placed.newStart, placed.within, placed.same, ?_, ?_, ?_⟩
      · rw [oldLength, oldSide, placed.oldStart, Nat.add_sub_cancel]
      · rw [newLength, newSide, placed.newStart, Nat.add_sub_cancel]
      · rw [oldLength, newLength]
        exact ih others

theorem Stands.starts_after (stands : Stands old new least i j ops rows) :
    ∀ first ∈ rows, i + least + 1 ≤ (hunkOf first).oldStart ∧
      j + least + 1 ≤ (hunkOf first).newStart := by
  induction rows generalizing least i j ops with
  | nil => exact List.forall_mem_nil _
  | cons first rows ih =>
      obtain ⟨gap, rest, room, placed, others⟩ := stands.step
      rw [List.forall_mem_cons, placed.oldStart, placed.newStart]
      refine ⟨by omega, fun later member => ?_⟩
      have bounds := ih others later member
      omega

/-- One hunk ends before the next begins, with some line between them. -/
def Apart (first second : Hunk) : Prop :=
  first.oldStart + first.oldLines < second.oldStart ∧
    first.newStart + first.newLines < second.newStart

theorem Stands.apart (stands : Stands old new least i j ops rows) :
    (rows.map hunkOf).Pairwise Apart := by
  induction rows generalizing least i j ops with
  | nil => exact List.Pairwise.nil
  | cons first rows ih =>
      obtain ⟨gap, rest, -, placed, others⟩ := stands.step
      rw [List.map_cons, List.pairwise_cons]
      refine ⟨fun later member => ?_, ih others⟩
      obtain ⟨second, listed, rfl⟩ := List.mem_map.mp member
      have bounds := others.starts_after second listed
      rw [Apart, placed.oldStart, placed.newStart]
      omega

theorem Stands.fits (stands : Stands old new least i j ops rows) :
    ∀ hunk ∈ rows.map hunkOf, hunk.Fits old new := by
  induction rows generalizing least i j ops with
  | nil => exact List.forall_mem_nil _
  | cons first rows ih =>
      obtain ⟨gap, rest, -, placed, others⟩ := stands.step
      rw [List.map_cons, List.forall_mem_cons]
      exact ⟨placed.fits, ih others⟩

/-- Rows with no more unchanged lines than so many before the first change and after the
last. -/
def InContext (rows : List (Op JsString)) : Prop :=
  ∃ before middle after, rows = before ++ middle ++ after ∧
    (∀ op ∈ before, isChange op = false) ∧ (∀ op ∈ after, isChange op = false) ∧
    before.length ≤ 3 ∧ after.length ≤ 3 ∧
    (∃ op ∈ middle.head?, isChange op = true) ∧ ∃ op ∈ middle.getLast?, isChange op = true

theorem inContext_of_cut (cut : Cut isChange CONTEXT least ops rows) :
    ∀ hunk ∈ rows.map hunkOf, InContext hunk.rows := by
  induction rows generalizing least ops with
  | nil => exact List.forall_mem_nil _
  | cons first rows ih =>
      obtain ⟨gap, before, middle, after, rest, -, whole, -, -, surrounded, others⟩ := cut
      rw [List.map_cons, List.forall_mem_cons]
      exact ⟨⟨before, middle, after, whole, surrounded.quietBefore, surrounded.quietAfter,
        surrounded.before_le, surrounded.after_le, surrounded.first, surrounded.last⟩, ih others⟩

theorem filter_change_of_cut (cut : Cut isChange CONTEXT least ops rows) :
    ((rows.map hunkOf).flatMap Hunk.rows).filter isChange = ops.filter isChange := by
  induction rows generalizing least ops with
  | nil =>
      have nothing : ops.filter isChange = [] := by
        rw [List.filter_eq_nil_iff]
        intro op listed
        rw [cut op listed]
        exact Bool.false_ne_true
      exact nothing.symm
  | cons first rows ih =>
      obtain ⟨gap, before, middle, after, rest, rfl, -, -, quiet, -, others⟩ := cut
      have nothing : gap.filter isChange = [] := by
        rw [List.filter_eq_nil_iff]
        intro op listed
        rw [quiet op listed]
        exact Bool.false_ne_true
      rw [List.map_cons, List.flatMap_cons, List.filter_append, List.filter_append,
        List.filter_append, ih others, nothing, List.nil_append]
      rfl

theorem countP_of_filter_eq {first second : List (Op JsString)} {sign : Sign}
    (changes : sign ≠ .context) (same : first.filter isChange = second.filter isChange) :
    (first.countP fun op => op.sign = sign) = second.countP fun op => op.sign = sign := by
  have among (list : List (Op JsString)) : (list.countP fun op => op.sign = sign) =
      (list.filter isChange).countP fun op => op.sign = sign := by
    rw [List.countP_filter]
    apply List.countP_congr
    intro op _
    simp only [isChange, Bool.and_eq_true, decide_eq_true_eq]
    exact ⟨fun own => ⟨own, own ▸ changes⟩, And.left⟩
  rw [among, among second, same]

/-! ### Comparing texts -/

theorem lines_ne_nil (text : JsString) : lines text ≠ [] :=
  List.splitOn_ne_nil _ _

theorem lines_injective : Function.Injective lines := by
  intro first second same
  have joined := congrArg ([0x0A].intercalate ·) same
  simpa only [lines, List.intercalate_splitOn] using joined

/-- What hunks have to be, for the texts they tell apart. -/
structure IsDiff (old new : List JsString) (added removed : Nat) (hunks : List Hunk) : Prop where
  /-- In order, disjoint, and with some line between them. -/
  ordered : hunks.Pairwise Apart
  context : ∀ hunk ∈ hunks, InContext hunk.rows
  fits : ∀ hunk ∈ hunks, hunk.Fits old new
  applies : patch (hunks.map Hunk.toPatch) old = some new
  added : added = (hunks.flatMap Hunk.rows).countP fun op => op.sign = .added
  removed : removed = (hunks.flatMap Hunk.rows).countP fun op => op.sign = .removed

theorem stands_of_script {oldText newText : JsString}
    (made : script (lines oldText) (lines newText) = some ops) :
    Stands (lines oldText) (lines newText) 0 0 0 ops
      ((windows CONTEXT ops.length none (marks isChange ops)).map fun window =>
        part ops window.1 (window.2 + 1)) :=
  ⟨ContextWindows.cut_windows isChange CONTEXT ops, (script_spec made).1,
    ⟨Nat.zero_le _, Nat.zero_le _⟩, fun _ => ⟨lines_ne_nil oldText, lines_ne_nil newText⟩⟩

/-- Texts are the same exactly if nothing differs; where they are compared, the hunks are
in order and apart, hold every change with at most three lines around, stand where they say,
count what they hold, and turn the old lines into the new ones. -/
theorem diff_patches (oldText newText : JsString) :
    (diff oldText newText = .same ↔ oldText = newText) ∧
    (diff oldText newText = .uncomparable ↔
      oldText ≠ newText ∧ script (lines oldText) (lines newText) = none) ∧
    ∀ added removed hunks, diff oldText newText = .differs added removed hunks →
      IsDiff (lines oldText) (lines newText) added removed hunks ∧
      ∃ ops, script (lines oldText) (lines newText) = some ops ∧
        (hunks.flatMap Hunk.rows).filter isChange = ops.filter isChange ∧
        added = (ops.countP fun op => op.sign = .added) ∧
        removed = ops.countP fun op => op.sign = .removed := by
  unfold diff
  by_cases equal : oldText = newText
  · rw [if_pos equal]
    exact ⟨iff_of_true rfl equal, iff_of_false nofun fun both => both.1 equal, nofun⟩
  rw [if_neg equal]
  cases made : script (lines oldText) (lines newText) with
  | none => exact ⟨iff_of_false nofun equal, iff_of_true rfl ⟨equal, rfl⟩, nofun⟩
  | some ops =>
      have stands := stands_of_script made
      dsimp only
      by_cases none : marks isChange ops = []
      · exfalso
        rw [none] at stands
        exact equal (lines_injective (stands.reads.eq_of_quiet stands.cut))
      · rw [if_neg none]
        refine ⟨iff_of_false nofun equal, iff_of_false nofun nofun, ?_⟩
        intro added removed hunks differs
        cases differs
        rw [close_foldl, List.nil_append]
        have all := filter_change_of_cut stands.cut
        refine ⟨⟨stands.apart, inContext_of_cut stands.cut, stands.fits, ?_, ?_, ?_⟩, ops, rfl,
          all, rfl, rfl⟩
        · rw [List.map_map]
          exact EditScripts.patch_of_describes stands.describes
        · exact (@countP_of_filter_eq _ _ .added nofun all).symm
        · exact (@countP_of_filter_eq _ _ .removed nofun all).symm

/-- One line changes in the middle of three. -/
theorem diff_patches_line : ∃ added removed hunks,
    diff (js "a\nb\nc") (js "a\nx\nc") = .differs added removed hunks ∧
      IsDiff (lines (js "a\nb\nc")) (lines (js "a\nx\nc")) added removed hunks :=
  ⟨_, _, _, rfl, ((diff_patches (js "a\nb\nc") (js "a\nx\nc")).2.2 _ _ _ rfl).1⟩

end Since

end Hermione
