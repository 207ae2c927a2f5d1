import Hermione.ContextWindows
import Hermione.LeastChanges
import Hermione.OpenFile

/-!
# The dashboard's hunks

The changes of a script are shown with a few unchanged lines around each, and those that are
near are shown together.  What is shown reads off a part of either side, and applied to the
old lines it makes the new ones.
-/

namespace Hermione

namespace Since

open EditScripts (Describes patch)
open ContextWindows (part marks windows Cut Surrounded)

/-- Unchanged lines shown around a change. -/
def CONTEXT : Nat := 3

structure Hunk where
  oldStart : Nat
  oldLines : Nat
  newStart : Nat
  newLines : Nat
  rows : List (Op JsString)

inductive Comparison where
  | same
  | uncomparable
  | differs (added removed : Nat) (hunks : List Hunk)

def hunkOf (rows : List (Op JsString)) : Hunk :=
  let olds := rows.filter fun r => r.old ≠ none
  let news := rows.filter fun r => r.new ≠ none
  { oldStart := (olds.head?.bind Op.old).getD 0
    oldLines := olds.length
    newStart := (news.head?.bind Op.new).getD 0
    newLines := news.length
    rows }

/-- The hunks so far, and from where to where the one that is open goes. -/
structure Scan where
  hunks : List Hunk
  range : Option (Nat × Nat)

section Scanning

variable (ops : List (Op JsString))

def close (scan : Scan) : List Hunk :=
  match scan.range with
  | none => scan.hunks
  | some (from', to') => scan.hunks ++ [hunkOf (part ops from' (to' + 1))]

def visit (scan : Scan) (idx : Nat) : Scan :=
  let lo := idx - CONTEXT
  let hi := min (ops.length - 1) (idx + CONTEXT)
  match scan.range with
  | some (from', to') =>
      if lo ≤ to' + 1 then { scan with range := some (from', hi) }
      else { hunks := close ops scan, range := some (lo, hi) }
  | none => { hunks := close ops scan, range := some (lo, hi) }

end Scanning

def isChange (op : Op JsString) : Bool :=
  op.sign ≠ .context

def lines (text : JsString) : List JsString :=
  text.splitOn 0x0A

/-- Changes with some lines around each, nearby ones merged into one hunk. -/
def diff (oldText newText : JsString) : Comparison :=
  if oldText = newText then .same
  else
    match script (lines oldText) (lines newText) with
    | none => .uncomparable
    | some ops =>
        let changed := marks isChange ops
        if changed = [] then .same
        else
          .differs (ops.countP fun o => o.sign = .added) (ops.countP fun o => o.sign = .removed)
            (close ops (changed.foldl (visit ops) { hunks := [], range := none }))

/-! ### Hunks as parts of the script -/

theorem close_foldl (ops : List (Op JsString)) (changed : List Nat) (scan : Scan) :
    close ops (changed.foldl (visit ops) scan) =
      scan.hunks ++ ((windows CONTEXT ops.length scan.range changed).map fun window =>
        part ops window.1 (window.2 + 1)).map hunkOf := by
  induction changed generalizing scan with
  | nil =>
      obtain ⟨hunks, _ | ⟨from', to'⟩⟩ := scan
      · exact (List.append_nil _).symm
      · rfl
  | cons idx changed ih =>
      rw [List.foldl_cons, ih]
      obtain ⟨hunks, _ | ⟨from', to'⟩⟩ := scan
      · rfl
      · rw [windows, visit]
        dsimp only
        split
        · rfl
        · rw [close, List.map_cons, List.map_cons]
          exact List.append_assoc _ _ _

/-! ### One side of some rows -/

section Sides

variable {number : Op JsString → Option Nat} {absent : Sign} {start : Nat}
  {rows : List (Op JsString)} {lines : List JsString}

/-- The entries of a side are those with a number on it. -/
theorem filter_number
    (side : (rows.filter fun op => op.sign ≠ absent).map (fun op => (number op, op.text)) =
      numbered start lines)
    (nulls : ∀ op ∈ rows, op.sign = absent → number op = none) :
    (rows.filter fun r => number r ≠ none) = rows.filter fun op => op.sign ≠ absent := by
  apply List.filter_congr
  intro op listed
  rw [decide_eq_decide, not_iff_not]
  refine ⟨fun none => ?_, nulls op listed⟩
  by_contra kept
  have among : (number op, op.text) ∈ numbered start lines := by
    rw [← side]
    exact List.mem_map.mpr ⟨op, List.mem_filter.mpr ⟨listed, decide_eq_true kept⟩, rfl⟩
  obtain ⟨line, -, same⟩ := List.mem_map.mp among
  rw [none] at same
  cases same

theorem length_numbered (start : Nat) (lines : List JsString) :
    (numbered start lines).length = lines.length := by
  rw [numbered, List.length_map, List.length_zipIdx]

theorem map_numbered (start : Nat) (lines : List JsString) :
    (numbered start lines).map Prod.snd = lines := by
  rw [numbered, List.map_map]
  exact List.zipIdx_map_fst _ _

/-- Where a side begins, and how long it is. -/
theorem side_numbers
    (side : (rows.filter fun op => op.sign ≠ absent).map (fun op => (number op, op.text)) =
      numbered start lines)
    (nulls : ∀ op ∈ rows, op.sign = absent → number op = none) (some_line : lines ≠ []) :
    (((rows.filter fun r => number r ≠ none).head?.bind number).getD 0 = start + 1) ∧
      (rows.filter fun r => number r ≠ none).length = lines.length := by
  rw [filter_number side nulls]
  have long := congrArg List.length side
  rw [List.length_map, length_numbered] at long
  refine ⟨?_, long⟩
  obtain ⟨line, rest, rfl⟩ := List.exists_cons_of_ne_nil some_line
  cases entries : rows.filter fun op => op.sign ≠ absent with
  | nil =>
      rw [entries] at long
      cases long
  | cons op others =>
      rw [entries] at side
      exact congrArg (Option.getD · 0) (Prod.mk.inj (List.cons.inj side).1).1

end Sides

theorem numbered_cut {start : Nat} {lines : List JsString}
    {first second : List (Option Nat × JsString)} (whole : first ++ second = numbered start lines) :
    ∃ front back, lines = front ++ back ∧ first = numbered start front ∧
      second = numbered (start + front.length) back := by
  have long := congrArg List.length whole
  rw [List.length_append, length_numbered] at long
  rw [← List.take_append_drop first.length lines, numbered_append] at whole
  obtain ⟨one, two⟩ := List.append_inj whole (by rw [length_numbered, List.length_take]; omega)
  exact ⟨lines.take first.length, lines.drop first.length, (List.take_append_drop _ _).symm,
    one, two⟩

namespace Reads

variable {old new : Nat} {ops rest : List (Op JsString)} {a b : List JsString}

theorem split (reads : Reads old new (ops ++ rest) a b) :
    ∃ frontA backA frontB backB, a = frontA ++ backA ∧ b = frontB ++ backB ∧
      Reads old new ops frontA frontB ∧
      Reads (old + frontA.length) (new + frontB.length) rest backA backB := by
  obtain ⟨oldSide, newSide, nulls⟩ := reads
  rw [Since.oldSide, List.filter_append, List.map_append] at oldSide
  rw [Since.newSide, List.filter_append, List.map_append] at newSide
  obtain ⟨frontA, backA, rfl, oldFront, oldBack⟩ := numbered_cut oldSide
  obtain ⟨frontB, backB, rfl, newFront, newBack⟩ := numbered_cut newSide
  obtain ⟨first, second⟩ := List.forall_mem_append.mp nulls
  exact ⟨frontA, backA, frontB, backB, rfl, rfl, ⟨oldFront, newFront, first⟩,
    ⟨oldBack, newBack, second⟩⟩

theorem texts (reads : Reads old new ops a b) :
    (ops.filter fun op => op.sign ≠ .added).map Op.text = a ∧
      (ops.filter fun op => op.sign ≠ .removed).map Op.text = b := by
  have olds := congrArg (List.map Prod.snd) reads.oldSide
  have news := congrArg (List.map Prod.snd) reads.newSide
  rw [Since.oldSide, List.map_map, map_numbered] at olds
  rw [Since.newSide, List.map_map, map_numbered] at news
  exact ⟨olds, news⟩

/-- Where nothing is changed both sides are the same. -/
theorem eq_of_quiet (reads : Reads old new ops a b) (quiet : ∀ op ∈ ops, isChange op = false) :
    a = b := by
  have context (op : Op JsString) (listed : op ∈ ops) : op.sign = .context := by
    simpa [isChange] using quiet op listed
  obtain ⟨olds, news⟩ := reads.texts
  rw [← olds, ← news]
  congr 1
  apply List.filter_congr
  intro op listed
  rw [context op listed]
  rfl

theorem length_of_quiet (reads : Reads old new ops a b)
    (quiet : ∀ op ∈ ops, isChange op = false) : a.length = ops.length := by
  have all : (ops.filter fun op => op.sign ≠ .added) = ops := by
    rw [List.filter_eq_self]
    intro op listed
    have context : op.sign = .context := by simpa [isChange] using quiet op listed
    rw [context]
    rfl
  rw [← reads.texts.1, all, List.length_map]

/-- An unchanged line is on both sides. -/
theorem ne_nil_of_quiet (reads : Reads old new ops a b) {op : Op JsString} (listed : op ∈ ops)
    (quiet : isChange op = false) : a ≠ [] ∧ b ≠ [] := by
  have context : op.sign = .context := by simpa [isChange] using quiet
  obtain ⟨rfl, rfl⟩ := reads.texts
  constructor
  · refine List.ne_nil_of_mem (List.mem_map_of_mem (List.mem_filter.mpr ⟨listed, ?_⟩))
    rw [context]
    rfl
  · refine List.ne_nil_of_mem (List.mem_map_of_mem (List.mem_filter.mpr ⟨listed, ?_⟩))
    rw [context]
    rfl

end Reads

/-! ### Hunks as a patch -/

def change (op : Op JsString) : EditScripts.Change JsString :=
  match op.sign with
  | .context => .context op.text
  | .removed => .removed op.text
  | .added => .added op.text

/-- A hunk as a patch has it. -/
def Hunk.toPatch (hunk : Hunk) : EditScripts.Hunk JsString :=
  { oldStart := hunk.oldStart, newStart := hunk.newStart, changes := hunk.rows.map change }

theorem filterMap_change (rows : List (Op JsString)) :
    (rows.map change).filterMap EditScripts.Change.oldSide =
        (rows.filter fun op => op.sign ≠ .added).map Op.text ∧
      (rows.map change).filterMap EditScripts.Change.newSide =
        (rows.filter fun op => op.sign ≠ .removed).map Op.text := by
  induction rows with
  | nil => exact ⟨rfl, rfl⟩
  | cons op rows ih =>
      obtain ⟨sign, old, new, text⟩ := op
      cases sign with
      | context => exact ⟨congrArg _ ih.1, congrArg _ ih.2⟩
      | removed => exact ⟨congrArg _ ih.1, ih.2⟩
      | added => exact ⟨ih.1, congrArg _ ih.2⟩

/-- The rows of a hunk read off the lines it counts, from those it starts with. -/
structure Hunk.Fits (hunk : Hunk) (old new : List JsString) : Prop where
  starts : 1 ≤ hunk.oldStart ∧ 1 ≤ hunk.newStart
  counts : 1 ≤ hunk.oldLines ∧ 1 ≤ hunk.newLines
  within : hunk.oldStart - 1 + hunk.oldLines ≤ old.length ∧
    hunk.newStart - 1 + hunk.newLines ≤ new.length
  reads : Reads (hunk.oldStart - 1) (hunk.newStart - 1) hunk.rows
    (EditScripts.segment old (hunk.oldStart - 1) hunk.oldLines)
    (EditScripts.segment new (hunk.newStart - 1) hunk.newLines)

/-- A hunk's rows after a gap, as they stand between both sides. -/
structure Placed (old new : List JsString) (i j gap : Nat) (rows : List (Op JsString))
    (rest : List (Op JsString)) : Prop where
  oldStart : (hunkOf rows).oldStart = i + gap + 1
  newStart : (hunkOf rows).newStart = j + gap + 1
  within : i + gap ≤ old.length
  same : EditScripts.segment old i gap = EditScripts.segment new j gap
  fits : (hunkOf rows).Fits old new
  rest : Reads (i + gap + (hunkOf rows).oldLines) (j + gap + (hunkOf rows).newLines) rest
    (old.drop (i + gap + (hunkOf rows).oldLines)) (new.drop (j + gap + (hunkOf rows).newLines))

theorem segment_of_drop_eq {old front back : List JsString} {i : Nat}
    (whole : old.drop i = front ++ back) :
    EditScripts.segment old i front.length = front ∧ old.drop (i + front.length) = back := by
  constructor
  · rw [EditScripts.segment, whole, List.take_left]
  · rw [← List.drop_drop, whole, List.drop_left]

/-- Rows with a change and the lines around it are never without a line on either side, unless
one side has none at all. -/
theorem rows_ne_nil {i j least : Nat} {gap before middle after rest : List (Op JsString)}
    {front ownA ownB restA restB : List JsString}
    (surrounded : Surrounded isChange CONTEXT gap before middle after rest)
    (readsGap : Reads i j gap front front)
    (readsRows : Reads (i + front.length) (j + front.length) (before ++ middle ++ after) ownA ownB)
    (readsRest : Reads (i + (front ++ ownA).length) (j + (front ++ ownB).length) rest restA restB)
    (room : least ≤ gap.length)
    (some_line : least = 0 → front ++ ownA ++ restA ≠ [] ∧ front ++ ownB ++ restB ≠ []) :
    ownA ≠ [] ∧ ownB ≠ [] := by
  by_cases edges : before = [] ∧ after = []
  · -- Without context the rows are all there is.
    have noGap : gap = [] := by
      rcases surrounded.before_eq with long | none
      · rw [edges.1] at long
        cases long
      · exact none
    have noRest : rest = [] := by
      rcases surrounded.after_eq with long | none
      · rw [edges.2] at long
        cases long
      · exact none
    subst noGap noRest
    have nothing := readsGap.texts.1
    have nothingA := readsRest.texts.1
    have nothingB := readsRest.texts.2
    rw [List.filter_nil, List.map_nil] at nothing nothingA nothingB
    rw [← nothing, ← nothingA, ← nothingB, List.append_nil, List.append_nil, List.nil_append,
      List.nil_append] at some_line
    exact some_line (Nat.le_zero.mp room)
  · rw [not_and_or] at edges
    rcases edges with some_before | some_after
    · obtain ⟨op, listed⟩ := List.exists_mem_of_ne_nil _ some_before
      exact readsRows.ne_nil_of_quiet (by simp [listed]) (surrounded.quietBefore op listed)
    · obtain ⟨op, listed⟩ := List.exists_mem_of_ne_nil _ some_after
      exact readsRows.ne_nil_of_quiet (by simp [listed]) (surrounded.quietAfter op listed)

theorem placed_of_cut {least i j : Nat} {old new : List JsString}
    {ops rows : List (Op JsString)} {more : List (List (Op JsString))}
    (cut : Cut isChange CONTEXT least ops (rows :: more))
    (reads : Reads i j ops (old.drop i) (new.drop j)) (below : i ≤ old.length ∧ j ≤ new.length)
    (some_line : least = 0 → old.drop i ≠ [] ∧ new.drop j ≠ []) :
    ∃ gap rest, least ≤ gap ∧ Placed old new i j gap rows rest ∧
      Cut isChange CONTEXT 1 rest more := by
  obtain ⟨gap, before, middle, after, rest, whole, rowsEq, room, quiet, surrounded, others⟩ := cut
  subst whole
  obtain ⟨frontA, restA, frontB, restB, wholeA, wholeB, front, readsRest⟩ := reads.split
  obtain ⟨gapA, ownA, gapB, ownB, rfl, rfl, readsGap, readsRows⟩ := front.split
  have sameGap := readsGap.eq_of_quiet quiet
  subst sameGap
  rw [wholeA, wholeB] at some_line
  have filled : ownA ≠ [] ∧ ownB ≠ [] :=
    rows_ne_nil surrounded readsGap (rowsEq ▸ readsRows) readsRest room some_line
  have lengthGap := readsGap.length_of_quiet quiet
  rw [List.append_assoc] at wholeA wholeB
  obtain ⟨segmentA, afterA⟩ := segment_of_drop_eq wholeA
  obtain ⟨segmentB, afterB⟩ := segment_of_drop_eq wholeB
  obtain ⟨rowsA, remainingA⟩ := segment_of_drop_eq afterA
  obtain ⟨rowsB, remainingB⟩ := segment_of_drop_eq afterB
  obtain ⟨oldStart, oldLines⟩ := side_numbers readsRows.oldSide
    (fun op listed => (readsRows.nulls op listed).1) filled.1
  obtain ⟨newStart, newLines⟩ := side_numbers readsRows.newSide
    (fun op listed => (readsRows.nulls op listed).2) filled.2
  have longA := congrArg List.length wholeA
  have longB := congrArg List.length wholeB
  simp only [List.length_drop, List.length_append] at longA longB
  have someA := List.length_pos_of_ne_nil filled.1
  have someB := List.length_pos_of_ne_nil filled.2
  change (hunkOf rows).oldStart = _ at oldStart
  change (hunkOf rows).oldLines = _ at oldLines
  change (hunkOf rows).newStart = _ at newStart
  change (hunkOf rows).newLines = _ at newLines
  refine ⟨gapA.length, rest, by omega, ⟨oldStart, newStart, by omega, segmentA.trans segmentB.symm,
    ⟨by omega, by omega, by omega, ?_⟩, ?_⟩, others⟩
  · rw [oldStart, newStart, oldLines, newLines, Nat.add_sub_cancel, Nat.add_sub_cancel, rowsA,
      rowsB]
    exact readsRows
  · rw [oldLines, newLines, remainingA, remainingB]
    rw [List.length_append, List.length_append, ← Nat.add_assoc, ← Nat.add_assoc] at readsRest
    exact readsRest

end Since

end Hermione
