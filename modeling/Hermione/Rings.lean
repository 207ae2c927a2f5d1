import Mathlib.Data.List.Rotate

/-!
# Walking round a list

After the last entry comes the first.  A step forth and a step back undo each other, and as
many steps as there are entries go round once, whichever entry they begin at.
-/

namespace Rings

variable {α κ : Type*}

theorem back_forth {place count : Nat} (within : place < count) :
    ((place + 1) % count + (count - 1)) % count = place := by
  rw [Nat.mod_add_mod, Nat.add_assoc, Nat.add_sub_cancel' (by omega), Nat.add_mod_right,
    Nat.mod_eq_of_lt within]

theorem forth_back {place count : Nat} (within : place < count) :
    ((place + (count - 1)) % count + 1) % count = place := by
  rw [Nat.mod_add_mod, Nat.add_assoc, Nat.sub_add_cancel (by omega), Nat.add_mod_right,
    Nat.mod_eq_of_lt within]

/-- An entry's place is found by what tells the entries apart. -/
theorem findIdx?_of_getElem? [DecidableEq κ] {name : α → κ} {ring : List α} {entry : α}
    {place : Nat} (distinct : (ring.map name).Nodup) (stands : ring[place]? = some entry) :
    (ring.findIdx? fun other => name other = name entry) = some place := by
  obtain ⟨within, rfl⟩ := List.getElem?_eq_some_iff.mp stands
  rw [List.findIdx?_eq_some_iff_getElem]
  refine ⟨within, decide_eq_true rfl, ?_⟩
  intro earlier before same
  have alike : (ring.map name)[earlier]? = (ring.map name)[place]? := by
    rw [List.getElem?_map, List.getElem?_map, List.getElem?_eq_getElem (before.trans within),
      List.getElem?_eq_getElem within]
    exact congrArg some (of_decide_eq_true same)
  have short : earlier < (ring.map name).length := by
    rw [List.length_map]
    exact before.trans within
  exact before.ne ((List.getElem?_inj short distinct).mp alike)

/-- The entries met on a walk from a place, once round, end with the one there. -/
theorem walk_eq_rotate (ring : List α) (place : Nat) :
    ((List.range ring.length).map fun steps => ring[(place + (steps + 1)) % ring.length]?) =
      (ring.rotate (place + 1)).map some := by
  apply List.ext_getElem?
  intro steps
  by_cases round : steps < ring.length
  · have same : steps + (place + 1) = place + (steps + 1) := by omega
    have reached : (place + (steps + 1)) % ring.length < ring.length :=
      Nat.mod_lt _ (by omega)
    rw [List.getElem?_map, List.getElem?_map, List.getElem?_range round, Option.map_some,
      List.getElem?_rotate round, same, List.getElem?_eq_getElem reached, Option.map_some]
  · rw [List.getElem?_eq_none (by simpa using round),
      List.getElem?_eq_none (by simpa using round)]

theorem getLast?_rotate {ring : List α} {place : Nat} (within : place < ring.length) :
    (ring.rotate (place + 1)).getLast? = ring[place]? := by
  rw [List.getLast?_eq_getElem?, List.length_rotate, List.getElem?_rotate (by omega)]
  congr 1
  rw [Nat.add_comm place, ← Nat.add_assoc, Nat.sub_add_cancel (by omega), Nat.add_comm,
    Nat.add_mod_right, Nat.mod_eq_of_lt within]

end Rings
