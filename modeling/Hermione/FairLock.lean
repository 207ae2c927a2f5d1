import Mathlib.Data.List.Basic

/-!
# Fair locks

The parties that want a fair lock stand in line for it, and whoever is first in
line holds it.  A party joins at the end and can leave from anywhere.
-/

namespace FairLock

/-- Where a party is with respect to a lock. -/
inductive Stance where
  | away
  | waiting
  | holding
  deriving DecidableEq, Repr

variable {Party : Type*}

/-- What its stance says about a party's place in the line. -/
def Stands (line : List Party) (party : Party) : Stance → Prop
  | .away => True
  | .waiting => party ∈ line
  | .holding => line.head? = some party

/-- Joining behind the others disturbs nobody. -/
theorem Stands.append {line : List Party} {party : Party} {stance : Stance}
    (stands : Stands line party stance) (later : List Party) :
    Stands (line ++ later) party stance := by
  cases stance with
  | away => trivial
  | waiting => exact List.mem_append_left later stands
  | holding =>
      change (line ++ later).head? = some party
      rw [List.head?_append, show line.head? = some party from stands]
      rfl

/-- Nor does it if somebody else leaves. -/
theorem Stands.erase [DecidableEq Party] {line : List Party} {party other : Party}
    {stance : Stance} (stands : Stands line party stance) (different : party ≠ other) :
    Stands (line.erase other) party stance := by
  cases stance with
  | away => trivial
  | waiting => exact (List.mem_erase_of_ne different).mpr stands
  | holding =>
      cases line with
      | nil => cases stands
      | cons head rest =>
          cases stands
          change ((party :: rest).erase other).head? = some party
          rw [List.erase_cons_tail (by simpa using different)]
          rfl

/-- One party holds a lock. -/
theorem holder_unique {line : List Party} {party other : Party}
    (holds : Stands line party .holding) (also : Stands line other .holding) : party = other :=
  Option.some.inj ((show line.head? = some party from holds).symm.trans also)

end FairLock
