import Mathlib.Data.List.Induction
import Hermione.CommonSubsequences
import Hermione.EditScripts

/-!
# What changed since the teacher last looked

The dashboard compares a file with what it was when the teacher closed it.  Lines that both
begin or end with are peeled off; for the middles it fills a table with the lengths of the
longest common subsequences of what follows each pair of lines, and then walks through it
from the start.
-/

namespace Hermione

namespace Since

open EditScripts (leadingLen take_leadingLen)
open CommonSubsequences (Longest)

/-- Beyond this the comparison is too costly. -/
def MAX_CELLS : Nat := 4000000

inductive Sign where
  | context
  | removed
  | added
  deriving DecidableEq, Repr

/-- A line of an edit script, with its 1-based numbers on either side. -/
structure Op (α : Type*) where
  sign : Sign
  old : Option Nat
  new : Option Nat
  text : α
  deriving DecidableEq, Repr

variable {α : Type*} [DecidableEq α]

/-! ### Peeling -/

section Peel

variable (a b : List α)

def head : Nat :=
  leadingLen a b

def tail : Nat :=
  leadingLen (a.drop (head a b)).reverse (b.drop (head a b)).reverse

/-- What is left of the first list, and of the second. -/
def ma : List α :=
  (a.take (a.length - tail a b)).drop (head a b)

def mb : List α :=
  (b.take (b.length - tail a b)).drop (head a b)

end Peel

/-! ### The table -/

section Table

variable (ma mb : List α)

/-- The place of a cell in the flat table. -/
def cellIndex (i j : Nat) : Nat :=
  i * (mb.length + 1) + j

/-- What is read of a cell. -/
def entry (t : Array UInt16) (i j : Nat) : Nat :=
  (t[cellIndex mb i j]?.getD 0).toNat

/-- What is written to a cell, before it is cut to 16 bits. -/
def cell (t : Array UInt16) (i j : Nat) : Nat :=
  if ma[i]? = mb[j]? then entry mb t (i + 1) (j + 1) + 1
  else max (entry mb t (i + 1) j) (entry mb t i (j + 1))

def fillCell (i : Nat) (t : Array UInt16) (j : Nat) : Array UInt16 :=
  t.setIfInBounds (cellIndex mb i j) (UInt16.ofNat (cell ma mb t i j))

def fillRow (t : Array UInt16) (i : Nat) : Array UInt16 :=
  (List.range mb.length).reverse.foldl (fillCell ma mb i) t

def table : Array UInt16 :=
  (List.range ma.length).reverse.foldl (fillRow ma mb)
    (Array.replicate ((ma.length + 1) * (mb.length + 1)) 0)

end Table

/-! ### The script -/

/-- Lines that both sides have, after so many on each. -/
def common (old new : Nat) (lines : List α) : List (Op α) :=
  lines.zipIdx.map fun line =>
    ⟨.context, some (old + line.2 + 1), some (new + line.2 + 1), line.1⟩

section Trace

variable (head : Nat) (ma mb : List α) (t : Array UInt16)

/-- The walk through the table, of at most so many steps. -/
def trace : Nat → Nat → Nat → List (Op α)
  | 0, _, _ => []
  | steps + 1, i, j =>
      match ma[i]?, mb[j]? with
      | some x, some y =>
          if x = y then
            ⟨.context, some (head + i + 1), some (head + j + 1), x⟩ :: trace steps (i + 1) (j + 1)
          else if entry mb t i (j + 1) ≤ entry mb t (i + 1) j then
            -- Where either would do, the removal comes first, as in any diff.
            ⟨.removed, some (head + i + 1), none, x⟩ :: trace steps (i + 1) j
          else ⟨.added, none, some (head + j + 1), y⟩ :: trace steps i (j + 1)
      | some x, none => ⟨.removed, some (head + i + 1), none, x⟩ :: trace steps (i + 1) j
      | none, some y => ⟨.added, none, some (head + j + 1), y⟩ :: trace steps i (j + 1)
      | none, none => []

end Trace

/-- The lines that differ, as an edit script; `none` is `null`. -/
def script (a b : List α) : Option (List (Op α)) :=
  let ma := ma a b
  let mb := mb a b
  if MAX_CELLS < (ma.length + 1) * (mb.length + 1) then none
  else
    some (common 0 0 (a.take (head a b)) ++
      trace (head a b) ma mb (table ma mb) (ma.length + mb.length) 0 0 ++
        common (a.length - tail a b) (b.length - tail a b) (a.drop (a.length - tail a b)))

/-! ### What a script says -/

omit [DecidableEq α]

/-- The entries of the old side, with their numbers. -/
def oldSide (ops : List (Op α)) : List (Option Nat × α) :=
  (ops.filter fun op => op.sign ≠ .added).map fun op => (op.old, op.text)

def newSide (ops : List (Op α)) : List (Option Nat × α) :=
  (ops.filter fun op => op.sign ≠ .removed).map fun op => (op.new, op.text)

def kept (ops : List (Op α)) : Nat :=
  ops.countP fun op => op.sign = .context

/-- Lines with the numbers they have after so many others. -/
def numbered (start : Nat) (lines : List α) : List (Option Nat × α) :=
  (lines.zipIdx start).map fun line => (some (line.2 + 1), line.1)

/-- Entries that read off lines of both sides in order, after so many on each, and have no
number on a side they are not on. -/
structure Reads (old new : Nat) (ops : List (Op α)) (a b : List α) : Prop where
  oldSide : oldSide ops = numbered old a
  newSide : newSide ops = numbered new b
  nulls : ∀ op ∈ ops, (op.sign = .added → op.old = none) ∧ (op.sign = .removed → op.new = none)

theorem numbered_append (start : Nat) (first second : List α) :
    numbered start (first ++ second) =
      numbered start first ++ numbered (start + first.length) second := by
  rw [numbered, List.zipIdx_append, List.map_append]
  rfl

namespace Reads

variable {old new : Nat} {ops rest : List (Op α)} {a b : List α}

theorem nil (old new : Nat) : Reads old new ([] : List (Op α)) [] [] :=
  ⟨rfl, rfl, List.forall_mem_nil _⟩

theorem append {c d : List α} (first : Reads old new ops a b)
    (second : Reads (old + a.length) (new + b.length) rest c d) :
    Reads old new (ops ++ rest) (a ++ c) (b ++ d) where
  oldSide := by
    rw [Since.oldSide, List.filter_append, List.map_append, numbered_append, ← first.oldSide,
      ← second.oldSide]
    rfl
  newSide := by
    rw [Since.newSide, List.filter_append, List.map_append, numbered_append, ← first.newSide,
      ← second.newSide]
    rfl
  nulls := List.forall_mem_append.mpr ⟨first.nulls, second.nulls⟩

theorem context (old new : Nat) (x : α) :
    Reads old new [⟨.context, some (old + 1), some (new + 1), x⟩] [x] [x] :=
  ⟨rfl, rfl, List.forall_mem_singleton.mpr ⟨nofun, nofun⟩⟩

theorem removed (old new : Nat) (x : α) :
    Reads old new [⟨.removed, some (old + 1), none, x⟩] [x] [] :=
  ⟨rfl, rfl, List.forall_mem_singleton.mpr ⟨nofun, fun _ => rfl⟩⟩

theorem added (old new : Nat) (x : α) :
    Reads old new [⟨.added, none, some (new + 1), x⟩] [] [x] :=
  ⟨rfl, rfl, List.forall_mem_singleton.mpr ⟨fun _ => rfl, nofun⟩⟩

theorem common (old new : Nat) (lines : List α) :
    Reads old new (common old new lines) lines lines := by
  induction lines using List.reverseRecOn with
  | nil => exact nil old new
  | append_singleton lines x ih =>
      have whole : Since.common old new (lines ++ [x]) = Since.common old new lines ++
          [⟨.context, some (old + lines.length + 1), some (new + lines.length + 1), x⟩] := by
        simp [Since.common, List.zipIdx_append]
      rw [whole]
      exact ih.append (context _ _ x)

end Reads

theorem kept_append (ops rest : List (Op α)) : kept (ops ++ rest) = kept ops + kept rest :=
  List.countP_append

theorem kept_common (old new : Nat) (lines : List α) :
    kept (common old new lines) = lines.length := by
  rw [kept, List.countP_eq_length.mpr, common, List.length_map, List.length_zipIdx]
  intro op listed
  obtain ⟨line, -, rfl⟩ := List.mem_map.mp listed
  rfl

end Since

end Hermione
