import Mathlib.Data.List.Basic
import Mathlib.Algebra.BigOperators.Group.List.Basic
import Mathlib.Algebra.GroupWithZero.Nat
import Mathlib.Data.Nat.Find

/-!
# Edit scripts and patches

A diff of two lists is a list of operations, each naming by position the run of
the old list it takes and the run of the new list it gives.  A unified diff
keeps only the groups of operations around the changes; each group becomes a
hunk, and applying the hunks to the old list rebuilds the new one.
-/

namespace EditScripts

/-- One operation of an edit script. -/
inductive Op where
  | equal (oldIndex newIndex len : Nat)
  | delete (oldIndex oldLen newIndex : Nat)
  | insert (oldIndex newIndex newLen : Nat)
  | replace (oldIndex oldLen newIndex newLen : Nat)
  deriving DecidableEq, Repr

namespace Op

def oldIndex : Op → Nat
  | equal oldIndex _ _ | delete oldIndex _ _ | insert oldIndex _ _
  | replace oldIndex _ _ _ => oldIndex

def newIndex : Op → Nat
  | equal _ newIndex _ | delete _ _ newIndex | insert _ newIndex _
  | replace _ _ newIndex _ => newIndex

def oldLen : Op → Nat
  | equal _ _ len => len
  | delete _ oldLen _ => oldLen
  | insert _ _ _ => 0
  | replace _ oldLen _ _ => oldLen

def newLen : Op → Nat
  | equal _ _ len => len
  | delete _ _ _ => 0
  | insert _ _ newLen => newLen
  | replace _ _ _ newLen => newLen

/-- How many elements an operation takes away or adds. -/
def cost : Op → Nat
  | equal _ _ _ => 0
  | delete _ oldLen _ => oldLen
  | insert _ _ newLen => newLen
  | replace _ oldLen _ newLen => oldLen + newLen

/-- How many elements an operation takes away. -/
def removed : Op → Nat
  | equal _ _ _ => 0
  | delete _ oldLen _ => oldLen
  | insert _ _ _ => 0
  | replace _ oldLen _ _ => oldLen

end Op

variable {α β : Type*}

/-- The run of a list at a position. -/
def segment (list : List α) (start len : Nat) : List α :=
  (list.drop start).take len

/-- An operation lies within both lists, and what it calls equal is. -/
def Fits (old new : List α) (op : Op) : Prop :=
  op.oldIndex + op.oldLen ≤ old.length ∧ op.newIndex + op.newLen ≤ new.length ∧
    match op with
    | .equal oldIndex newIndex len => segment old oldIndex len = segment new newIndex len
    | _ => True

/-- The operations lead from one pair of positions to another, each starting
where the one before it stopped. -/
def Leads (old new : List α) : Nat → Nat → List Op → Nat → Nat → Prop
  | i, j, [], oldStop, newStop => i = oldStop ∧ j = newStop
  | i, j, op :: ops, oldStop, newStop =>
      op.oldIndex = i ∧ op.newIndex = j ∧ Fits old new op ∧
        Leads old new (i + op.oldLen) (j + op.newLen) ops oldStop newStop

/-- An ordered edit script that turns the whole of one list into another. -/
def ValidScript (old new : List α) (ops : List Op) : Prop :=
  Leads old new 0 0 ops old.length new.length

def scriptCost (ops : List Op) : Nat :=
  (ops.map Op.cost).sum

/-- Groups of operations, in order, with nothing but equal runs between, before
and after them. -/
def Grouped (old new : List α) : Nat → Nat → List (List Op) → Prop
  | i, j, [] => old.drop i = new.drop j
  | i, j, group :: groups =>
      ∃ gap oldStop newStop, i + gap ≤ old.length ∧ j + gap ≤ new.length ∧
        segment old i gap = segment new j gap ∧ group ≠ [] ∧
        Leads old new (i + gap) (j + gap) group oldStop newStop ∧
        Grouped old new oldStop newStop groups

/-- One line of a unified diff. -/
inductive Change (α : Type*) where
  | context (value : α)
  | added (value : α)
  | removed (value : α)
  deriving DecidableEq, Repr

namespace Change

def map (f : α → β) : Change α → Change β
  | context value => context (f value)
  | added value => added (f value)
  | removed value => removed (f value)

def oldSide : Change α → Option α
  | context value | removed value => some value
  | added _ => none

def newSide : Change α → Option α
  | context value | added value => some value
  | removed _ => none

@[simp]
theorem oldSide_map (f : α → β) (change : Change α) :
    (change.map f).oldSide = change.oldSide.map f := by
  cases change <;> rfl

@[simp]
theorem newSide_map (f : α → β) (change : Change α) :
    (change.map f).newSide = change.newSide.map f := by
  cases change <;> rfl

end Change

/-- The changes an operation stands for: what it removes before what it adds. -/
def changesOf (old new : List α) : Op → List (Change α)
  | .equal oldIndex _ len => (segment old oldIndex len).map .context
  | .delete oldIndex oldLen _ => (segment old oldIndex oldLen).map .removed
  | .insert _ newIndex newLen => (segment new newIndex newLen).map .added
  | .replace oldIndex oldLen newIndex newLen =>
      (segment old oldIndex oldLen).map .removed ++
        (segment new newIndex newLen).map .added

/-- A run of changes and where it starts on each side, counted from 1. -/
structure Hunk (α : Type*) where
  oldStart : Nat
  newStart : Nat
  changes : List (Change α)

namespace Hunk

def oldSide (hunk : Hunk α) : List α :=
  hunk.changes.filterMap Change.oldSide

def newSide (hunk : Hunk α) : List α :=
  hunk.changes.filterMap Change.newSide

def map (f : α → β) (hunk : Hunk α) : Hunk β :=
  { oldStart := hunk.oldStart, newStart := hunk.newStart,
    changes := hunk.changes.map (Change.map f) }

@[simp]
theorem oldSide_map (f : α → β) (hunk : Hunk α) :
    (hunk.map f).oldSide = hunk.oldSide.map f := by
  simp [oldSide, map, List.filterMap_map, List.map_filterMap]

@[simp]
theorem newSide_map (f : α → β) (hunk : Hunk α) :
    (hunk.map f).newSide = hunk.newSide.map f := by
  simp [newSide, map, List.filterMap_map, List.map_filterMap]

end Hunk

/-- The hunk of a group: it starts where its first operation does. -/
def hunkOf (old new : List α) (group : List Op) : Option (Hunk α) :=
  group.head?.map fun first =>
    { oldStart := first.oldIndex + 1, newStart := first.newIndex + 1,
      changes := group.flatMap (changesOf old new) }

/-- Hunks that describe the new list in terms of the old one from a pair of
positions on: equal runs lie between them, and each holds what stands at its
start on either side. -/
def Describes (old new : List α) : Nat → Nat → List (Hunk α) → Prop
  | i, j, [] => old.drop i = new.drop j
  | i, j, hunk :: hunks =>
      ∃ gap, hunk.oldStart = i + gap + 1 ∧ hunk.newStart = j + gap + 1 ∧
        i + gap ≤ old.length ∧ segment old i gap = segment new j gap ∧
        segment old (i + gap) hunk.oldSide.length = hunk.oldSide ∧
        segment new (j + gap) hunk.newSide.length = hunk.newSide ∧
        Describes old new (i + gap + hunk.oldSide.length)
          (j + gap + hunk.newSide.length) hunks

/-- Apply changes at the front of a list: what they produce, and what is left.
A context or removed element must be the one that stands there. -/
def applyChanges [DecidableEq α] :
    List (Change α) → List α → Option (List α × List α)
  | [], rest => some ([], rest)
  | .added value :: changes, rest =>
      (applyChanges changes rest).map fun result => (value :: result.1, result.2)
  | .context _ :: _, [] | .removed _ :: _, [] => none
  | .context value :: changes, front :: rest =>
      if front = value then
        (applyChanges changes rest).map fun result => (value :: result.1, result.2)
      else none
  | .removed value :: changes, front :: rest =>
      if front = value then applyChanges changes rest else none

/-- Apply hunks to what remains of a list from 0-based position `i` on, copying
what lies before each hunk's start. -/
def applyHunks [DecidableEq α] : Nat → List (Hunk α) → List α → Option (List α)
  | _, [], rest => some rest
  | i, hunk :: hunks, rest =>
      if i + 1 ≤ hunk.oldStart ∧ hunk.oldStart ≤ i + 1 + rest.length then
        let gap := hunk.oldStart - (i + 1)
        (applyChanges hunk.changes (rest.drop gap)).bind fun result =>
          (applyHunks (i + gap + hunk.oldSide.length) hunks result.2).map fun tail =>
            rest.take gap ++ result.1 ++ tail
      else none

/-- Apply hunks to a whole list. -/
def patch [DecidableEq α] (hunks : List (Hunk α)) (old : List α) : Option (List α) :=
  applyHunks 0 hunks old

/-! ### Segments -/

@[simp]
theorem segment_zero (list : List α) (start : Nat) : segment list start 0 = [] := by
  simp [segment]

theorem segment_append_drop (list : List α) (start len : Nat) :
    segment list start len ++ list.drop (start + len) = list.drop start := by
  rw [segment, ← List.drop_drop, List.take_append_drop]

theorem length_segment {list : List α} {start len : Nat}
    (within : start + len ≤ list.length) : (segment list start len).length = len := by
  simp [segment]
  omega

theorem segment_add (list : List α) (start first second : Nat) :
    segment list start (first + second) =
      segment list start first ++ segment list (start + first) second := by
  rw [segment, segment, segment, List.take_add, List.drop_drop]

@[simp]
theorem segment_map (f : α → β) (list : List α) (start len : Nat) :
    segment (list.map f) start len = (segment list start len).map f := by
  simp [segment, List.map_take, List.map_drop]

/-! ### Operations and their changes -/

theorem oldSide_changesOf {old new : List α} {op : Op} :
    (changesOf old new op).filterMap Change.oldSide =
      segment old op.oldIndex op.oldLen := by
  cases op <;>
    simp [changesOf, List.filterMap_map, Function.comp_def, Change.oldSide,
      Op.oldIndex, Op.oldLen]

theorem newSide_changesOf {old new : List α} {op : Op} (fits : Fits old new op) :
    (changesOf old new op).filterMap Change.newSide =
      segment new op.newIndex op.newLen := by
  cases op with
  | equal oldIndex newIndex len =>
      simpa [changesOf, List.filterMap_map, Function.comp_def, Change.newSide,
        Op.newIndex, Op.newLen] using fits.2.2
  | delete oldIndex oldLen newIndex =>
      simp [changesOf, List.filterMap_map, Function.comp_def, Change.newSide,
        Op.newIndex, Op.newLen]
  | insert oldIndex newIndex newLen =>
      simp [changesOf, List.filterMap_map, Function.comp_def, Change.newSide,
        Op.newIndex, Op.newLen]
  | replace oldIndex oldLen newIndex newLen =>
      simp [changesOf, List.filterMap_map, Function.comp_def, Change.newSide,
        Op.newIndex, Op.newLen]

theorem Leads.le {old new : List α} {i j oldStop newStop : Nat} {ops : List Op}
    (leads : Leads old new i j ops oldStop newStop) : i ≤ oldStop ∧ j ≤ newStop := by
  induction ops generalizing i j with
  | nil =>
      obtain ⟨rfl, rfl⟩ := leads
      exact ⟨Nat.le_refl _, Nat.le_refl _⟩
  | cons op ops ih =>
      obtain ⟨_, _, _, rest⟩ := leads
      have bounds := ih rest
      omega

/-- The changes of a run of operations spell the stretch of either list it
covers. -/
theorem Leads.sides {old new : List α} {i j oldStop newStop : Nat} {ops : List Op}
    (leads : Leads old new i j ops oldStop newStop) :
    (ops.flatMap (changesOf old new)).filterMap Change.oldSide =
        segment old i (oldStop - i) ∧
      (ops.flatMap (changesOf old new)).filterMap Change.newSide =
        segment new j (newStop - j) := by
  induction ops generalizing i j with
  | nil =>
      obtain ⟨rfl, rfl⟩ := leads
      simp
  | cons op ops ih =>
      obtain ⟨rfl, rfl, fits, rest⟩ := leads
      obtain ⟨oldRest, newRest⟩ := ih rest
      have bounds := Leads.le rest
      rw [List.flatMap_cons, List.filterMap_append, List.filterMap_append,
        oldSide_changesOf, newSide_changesOf fits, oldRest, newRest]
      rw [← segment_add, ← segment_add]
      constructor <;> congr 1 <;> omega

/-- A stretch of operations that starts inside both lists stops inside them. -/
theorem Leads.within {old new : List α} {i j oldStop newStop : Nat} {ops : List Op}
    (leads : Leads old new i j ops oldStop newStop)
    (oldStart : i ≤ old.length) (newStart : j ≤ new.length) :
    oldStop ≤ old.length ∧ newStop ≤ new.length := by
  induction ops generalizing i j with
  | nil =>
      obtain ⟨rfl, rfl⟩ := leads
      exact ⟨oldStart, newStart⟩
  | cons op ops ih =>
      obtain ⟨rfl, rfl, fits, rest⟩ := leads
      exact ih rest fits.1 fits.2.1

theorem Leads.append {old new : List α} {i j m n oldStop newStop : Nat}
    {first second : List Op} (front : Leads old new i j first m n)
    (back : Leads old new m n second oldStop newStop) :
    Leads old new i j (first ++ second) oldStop newStop := by
  induction first generalizing i j with
  | nil =>
      obtain ⟨rfl, rfl⟩ := front
      exact back
  | cons op first ih =>
      obtain ⟨oldEq, newEq, fits, rest⟩ := front
      exact ⟨oldEq, newEq, fits, ih rest⟩

/-- Groups give hunks that describe the new list. -/
theorem Grouped.describes {old new : List α} {i j : Nat} {groups : List (List Op)}
    (grouped : Grouped old new i j groups) :
    Describes old new i j (groups.filterMap (hunkOf old new)) := by
  induction groups generalizing i j with
  | nil => exact grouped
  | cons group groups ih =>
      obtain ⟨gap, oldStop, newStop, oldWithin, newWithin, same, nonempty, leads, rest⟩ :=
        grouped
      cases group with
      | nil => exact absurd rfl nonempty
      | cons first ops =>
          obtain ⟨oldSide, newSide⟩ := Leads.sides leads
          have bounds := Leads.le leads
          have within := Leads.within leads oldWithin newWithin
          obtain ⟨oldFirst, newFirst, _, _⟩ := leads
          have oldLength : (segment old (i + gap) (oldStop - (i + gap))).length =
              oldStop - (i + gap) :=
            length_segment (by omega)
          have newLength : (segment new (j + gap) (newStop - (j + gap))).length =
              newStop - (j + gap) :=
            length_segment (by omega)
          refine ⟨gap, ?_, ?_, oldWithin, same, ?_, ?_, ?_⟩
          · simp [oldFirst]
          · simp [newFirst]
          · rw [Hunk.oldSide, oldSide, oldLength]
          · rw [Hunk.newSide, newSide, newLength]
          · rw [Hunk.oldSide, Hunk.newSide, oldSide, newSide, oldLength, newLength]
            have oldEq : i + gap + (oldStop - (i + gap)) = oldStop := by omega
            have newEq : j + gap + (newStop - (j + gap)) = newStop := by omega
            rw [oldEq, newEq]
            exact ih rest

/-- A description stays one under a map of the elements. -/
theorem Describes.map {old new : List α} {i j : Nat} {hunks : List (Hunk α)}
    (f : α → β) (describes : Describes old new i j hunks) :
    Describes (old.map f) (new.map f) i j (hunks.map (Hunk.map f)) := by
  induction hunks generalizing i j with
  | nil =>
      change (old.map f).drop i = (new.map f).drop j
      rw [← List.map_drop, ← List.map_drop]
      exact congrArg (List.map f) describes
  | cons hunk hunks ih =>
      obtain ⟨gap, oldStart, newStart, within, same, oldSide, newSide, rest⟩ := describes
      refine ⟨gap, oldStart, newStart, by simpa using within, ?_, ?_, ?_, ?_⟩
      · rw [segment_map, segment_map, same]
      · rw [segment_map, Hunk.oldSide_map, List.length_map, oldSide]
      · rw [segment_map, Hunk.newSide_map, List.length_map, newSide]
      · rw [Hunk.oldSide_map, Hunk.newSide_map, List.length_map, List.length_map]
        exact ih rest

/-! ### Shortest scripts -/

/-- No other script of the two lists costs less. -/
def Shortest (old new : List α) (script : List Op) : Prop :=
  ∀ other, ValidScript old new other → scriptCost script ≤ scriptCost other

/-- Operations of no cost cover equal stretches. -/
theorem Leads.eq_of_free {old new : List α} {i j oldStop newStop : Nat} {ops : List Op}
    (leads : Leads old new i j ops oldStop newStop) (free : scriptCost ops = 0) :
    segment old i (oldStop - i) = segment new j (newStop - j) := by
  induction ops generalizing i j with
  | nil =>
      obtain ⟨rfl, rfl⟩ := leads
      simp
  | cons op ops ih =>
      obtain ⟨rfl, rfl, fits, rest⟩ := leads
      simp only [scriptCost, List.map_cons, List.sum_cons, Nat.add_eq_zero_iff] at free
      have bounds := Leads.le rest
      have oldSplit : oldStop - op.oldIndex =
          op.oldLen + (oldStop - (op.oldIndex + op.oldLen)) := by omega
      have newSplit : newStop - op.newIndex =
          op.newLen + (newStop - (op.newIndex + op.newLen)) := by omega
      have same : segment old op.oldIndex op.oldLen = segment new op.newIndex op.newLen := by
        cases op with
        | equal oldIndex newIndex len => exact fits.2.2
        | delete | insert | replace =>
            simp_all [Op.cost, Op.oldLen, Op.newLen]
      rw [oldSplit, newSplit, segment_add, segment_add, same, ih rest free.2]

theorem ValidScript.eq_of_free {old new : List α} {script : List Op}
    (valid : ValidScript old new script) (free : scriptCost script = 0) : old = new := by
  simpa [segment] using Leads.eq_of_free valid free

/-- A list can be grown to one it is part of by insertions alone. -/
theorem exists_growth {old new : List α} (part : old.Sublist new) (oldFront newFront : List α) :
    ∃ script, Leads (oldFront ++ old) (newFront ++ new) oldFront.length newFront.length script
      (oldFront ++ old).length (newFront ++ new).length ∧
        scriptCost script + old.length = new.length := by
  induction part generalizing oldFront newFront with
  | slnil => exact ⟨[], ⟨by simp, by simp⟩, rfl⟩
  | @cons old new value _ ih =>
      obtain ⟨script, leads, cost⟩ := ih oldFront (newFront ++ [value])
      rw [List.append_assoc, List.singleton_append, List.length_append,
        List.length_singleton] at leads
      refine ⟨.insert oldFront.length newFront.length 1 :: script,
        ⟨rfl, rfl, ⟨?_, ?_, trivial⟩, leads⟩, ?_⟩
      · simp [Op.oldIndex, Op.oldLen]
      · simp [Op.newIndex, Op.newLen]
      · simp only [scriptCost, List.map_cons, List.sum_cons, Op.cost, List.length_cons] at cost ⊢
        omega
  | @cons_cons old new value _ ih =>
      obtain ⟨script, leads, cost⟩ := ih (oldFront ++ [value]) (newFront ++ [value])
      rw [List.append_assoc, List.singleton_append, List.length_append, List.length_singleton,
        List.append_assoc, List.singleton_append, List.length_append,
        List.length_singleton] at leads
      refine ⟨.equal oldFront.length newFront.length 1 :: script,
        ⟨rfl, rfl, ⟨?_, ?_, ?_⟩, leads⟩, ?_⟩
      · simp [Op.oldIndex, Op.oldLen]
      · simp [Op.newIndex, Op.newLen]
      · simp [segment]
      · simp only [scriptCost, List.map_cons, List.sum_cons, Op.cost, List.length_cons] at cost ⊢
        omega

/-- What a script takes away it has to give again. -/
theorem Leads.balance {old new : List α} {i j oldStop newStop : Nat} {ops : List Op}
    (leads : Leads old new i j ops oldStop newStop) :
    newStop + i + 2 * (ops.map Op.removed).sum = scriptCost ops + oldStop + j := by
  induction ops generalizing i j with
  | nil =>
      obtain ⟨rfl, rfl⟩ := leads
      simp [scriptCost]
      omega
  | cons op ops ih =>
      obtain ⟨_, _, _, rest⟩ := leads
      have later := ih rest
      simp only [scriptCost, List.map_cons, List.sum_cons] at later ⊢
      cases op <;> simp only [Op.cost, Op.removed, Op.oldLen, Op.newLen] at later ⊢ <;> omega

/-- A shortest script to a list that the old one is part of takes nothing away. -/
theorem Shortest.removed_eq_zero {old new : List α} {script : List Op}
    (shortest : Shortest old new script) (valid : ValidScript old new script)
    (part : old.Sublist new) : ∀ op ∈ script, op.removed = 0 := by
  obtain ⟨growth, leads, cost⟩ := exists_growth part [] []
  have least := shortest growth leads
  have balance := Leads.balance valid
  have none : (script.map Op.removed).sum = 0 := by omega
  intro op member
  exact List.sum_eq_zero_iff_forall_eq_nat.mp none _ (List.mem_map_of_mem member)

/-! ### The plainest script -/

section Leading

variable [DecidableEq α]

/-- How many elements two lists start with in common. -/
def leadingLen : List α → List α → Nat
  | front :: old, first :: new => if front = first then leadingLen old new + 1 else 0
  | _, _ => 0

/-- Keep the common start and replace all that follows it. -/
def leadingDiff (old new : List α) : List Op :=
  let len := leadingLen old new
  (if len = 0 then [] else [.equal 0 0 len]) ++
    match old.length - len, new.length - len with
    | 0, 0 => []
    | 0, added + 1 => [.insert len len (added + 1)]
    | removed + 1, 0 => [.delete len (removed + 1) len]
    | removed + 1, added + 1 => [.replace len (removed + 1) len (added + 1)]

theorem take_leadingLen (old new : List α) :
    leadingLen old new ≤ old.length ∧ leadingLen old new ≤ new.length ∧
      old.take (leadingLen old new) = new.take (leadingLen old new) := by
  induction old generalizing new with
  | nil => simp [leadingLen]
  | cons front old ih =>
      cases new with
      | nil => simp [leadingLen]
      | cons first new =>
          rw [leadingLen]
          split
          · rename_i same
            obtain ⟨oldBound, newBound, takeEq⟩ := ih new
            simp only [List.length_cons, List.take_succ_cons, same, takeEq, and_true]
            omega
          · simp

theorem validScript_leadingDiff (old new : List α) :
    ValidScript old new (leadingDiff old new) := by
  obtain ⟨oldBound, newBound, takeEq⟩ := take_leadingLen old new
  unfold leadingDiff ValidScript
  generalize leadingLen old new = len at *
  apply Leads.append
  · show Leads old new 0 0 _ len len
    split
    · rename_i zero
      simp [Leads, zero]
    · simp [Leads, Fits, Op.oldIndex, Op.newIndex, Op.oldLen, Op.newLen, segment,
        oldBound, newBound, takeEq]
  · split <;>
      simp only [Leads, Fits, Op.oldIndex, Op.newIndex, Op.oldLen, Op.newLen, and_true,
        true_and] <;>
      omega

theorem exists_shortest (old new : List α) :
    ∃ script, ValidScript old new script ∧ Shortest old new script := by
  let Cost (cost : Nat) := ∃ script, ValidScript old new script ∧ scriptCost script = cost
  have some_cost : ∃ cost, Cost cost :=
    ⟨_, leadingDiff old new, validScript_leadingDiff old new, rfl⟩
  classical
  obtain ⟨script, valid, costEq⟩ := Nat.find_spec some_cost
  refine ⟨script, valid, fun other otherValid => ?_⟩
  rw [costEq]
  exact Nat.find_min' some_cost ⟨other, otherValid, rfl⟩

/-- Some shortest script. -/
noncomputable def shortestScript (old new : List α) : List Op :=
  Classical.choose (exists_shortest old new)

theorem shortestScript_spec (old new : List α) :
    ValidScript old new (shortestScript old new) ∧ Shortest old new (shortestScript old new) :=
  Classical.choose_spec (exists_shortest old new)

end Leading

/-! ### Patching -/

variable [DecidableEq α]

/-- Changes apply to a list that starts with their old side, and give their new
side. -/
theorem applyChanges_of_oldSide (changes : List (Change α)) (rest : List α) :
    applyChanges changes (changes.filterMap Change.oldSide ++ rest) =
      some (changes.filterMap Change.newSide, rest) := by
  induction changes with
  | nil => rfl
  | cons change changes ih =>
      cases change with
      | context value => simp [applyChanges, Change.oldSide, Change.newSide, ih]
      | added value =>
          simp [applyChanges, List.filterMap_cons, Change.oldSide, Change.newSide, ih]
      | removed value =>
          simp [applyChanges, List.filterMap_cons, Change.oldSide, Change.newSide, ih]

/-- Hunks that describe the new list rebuild it from the old one. -/
theorem Describes.applyHunks {old new : List α} {i j : Nat} {hunks : List (Hunk α)}
    (describes : Describes old new i j hunks) :
    applyHunks i hunks (old.drop i) = some (new.drop j) := by
  induction hunks generalizing i j with
  | nil => exact congrArg some describes
  | cons hunk hunks ih =>
      obtain ⟨gap, oldStart, newStart, within, same, oldSide, newSide, rest⟩ := describes
      have startBound : i + 1 ≤ hunk.oldStart ∧
          hunk.oldStart ≤ i + 1 + (old.drop i).length := by
        simp only [List.length_drop]
        omega
      have gapEq : hunk.oldStart - (i + 1) = gap := by omega
      have restEq : (old.drop i).drop gap =
          hunk.oldSide ++ old.drop (i + gap + hunk.oldSide.length) := by
        rw [List.drop_drop, ← segment_append_drop old (i + gap) hunk.oldSide.length, oldSide]
      have applied : applyChanges hunk.changes ((old.drop i).drop gap) =
          some (hunk.newSide, old.drop (i + gap + hunk.oldSide.length)) := by
        rw [restEq]
        exact applyChanges_of_oldSide hunk.changes _
      rw [EditScripts.applyHunks, if_pos startBound, gapEq]
      dsimp only
      rw [applied]
      simp only [Option.bind_some, ih rest, Option.map_some, Option.some.injEq]
      have copied : (old.drop i).take gap = segment new j gap := same
      have produced : hunk.newSide ++ new.drop (j + gap + hunk.newSide.length) =
          new.drop (j + gap) := by
        rw [← segment_append_drop new (j + gap) hunk.newSide.length, newSide]
      rw [copied, List.append_assoc, produced, segment_append_drop]

theorem patch_of_describes {old new : List α} {hunks : List (Hunk α)}
    (describes : Describes old new 0 0 hunks) : patch hunks old = some new := by
  simpa [patch] using Describes.applyHunks describes

/-! ### Order and positions -/

omit [DecidableEq α]

theorem Describes.starts_after {old new : List α} {i j : Nat} {hunks : List (Hunk α)}
    (describes : Describes old new i j hunks) :
    ∀ hunk ∈ hunks, i + 1 ≤ hunk.oldStart ∧ j + 1 ≤ hunk.newStart := by
  induction hunks generalizing i j with
  | nil => simp
  | cons hunk hunks ih =>
      obtain ⟨gap, oldStart, newStart, _, _, _, _, rest⟩ := describes
      intro candidate member
      rcases List.mem_cons.mp member with rfl | later
      · omega
      · have bounds := ih rest candidate later
        omega

/-- Described hunks come in order and do not overlap on either side. -/
theorem Describes.ordered {old new : List α} {i j : Nat} {hunks : List (Hunk α)}
    (describes : Describes old new i j hunks) :
    hunks.Pairwise fun first second =>
      first.oldStart + first.oldSide.length ≤ second.oldStart ∧
        first.newStart + first.newSide.length ≤ second.newStart := by
  induction hunks generalizing i j with
  | nil => simp
  | cons hunk hunks ih =>
      obtain ⟨gap, oldStart, newStart, _, _, _, _, rest⟩ := describes
      refine List.pairwise_cons.mpr ⟨?_, ih rest⟩
      intro later member
      have bounds := Describes.starts_after rest later member
      omega

/-- A hunk's starts are the 1-based positions at which its lines stand. -/
theorem Describes.positions {old new : List α} {i j : Nat} {hunks : List (Hunk α)}
    (describes : Describes old new i j hunks) :
    ∀ hunk ∈ hunks, 1 ≤ hunk.oldStart ∧ 1 ≤ hunk.newStart ∧
      segment old (hunk.oldStart - 1) hunk.oldSide.length = hunk.oldSide ∧
      segment new (hunk.newStart - 1) hunk.newSide.length = hunk.newSide := by
  induction hunks generalizing i j with
  | nil => simp
  | cons hunk hunks ih =>
      obtain ⟨gap, oldStart, newStart, _, _, oldSide, newSide, rest⟩ := describes
      intro candidate member
      rcases List.mem_cons.mp member with rfl | later
      · refine ⟨by omega, by omega, ?_, ?_⟩
        · rw [oldStart]
          exact oldSide
        · rw [newStart]
          exact newSide
      · exact ih rest candidate later

/-- What a list of hunks has to do and to say to be a patch of one list into
another: it applies, its starts are the 1-based positions of its first lines on
either side, and its hunks come in order without overlapping. -/
structure IsPatch [DecidableEq α] (old new : List α) (hunks : List (Hunk α)) : Prop where
  applies : patch hunks old = some new
  positions : ∀ hunk ∈ hunks, 1 ≤ hunk.oldStart ∧ 1 ≤ hunk.newStart ∧
    segment old (hunk.oldStart - 1) hunk.oldSide.length = hunk.oldSide ∧
    segment new (hunk.newStart - 1) hunk.newSide.length = hunk.newSide
  ordered : hunks.Pairwise fun first second =>
    first.oldStart + first.oldSide.length ≤ second.oldStart ∧
      first.newStart + first.newSide.length ≤ second.newStart

theorem Describes.isPatch [DecidableEq α] {old new : List α} {hunks : List (Hunk α)}
    (describes : Describes old new 0 0 hunks) : IsPatch old new hunks :=
  ⟨patch_of_describes describes, describes.positions, describes.ordered⟩

end EditScripts
