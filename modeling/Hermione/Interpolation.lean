import Mathlib.Algebra.Order.Floor.Semiring
import Mathlib.Algebra.Order.Field.Basic
import Mathlib.Data.Set.Monotone
import Mathlib.Order.Interval.Set.Defs
import Mathlib.Tactic.Linarith
import Mathlib.Tactic.Ring

/-!
# Linear interpolation of a sequence

Between two neighbouring indices the value moves linearly from one to the other.  On
the stretch where the sequence is monotone, so is its interpolation.
-/

namespace Interpolation

variable {K : Type*} [Field K] [LinearOrder K] [IsStrictOrderedRing K] [FloorSemiring K]

/-- The value of the sequence at a position between its indices. -/
def interpolated (f : ℕ → K) (pos : K) : K :=
  f ⌊pos⌋₊ + (f ⌈pos⌉₊ - f ⌊pos⌋₊) * (pos - ⌊pos⌋₊)

variable {f : ℕ → K} {last : ℕ}

theorem interpolated_natCast (f : ℕ → K) (index : ℕ) : interpolated f index = f index := by
  simp [interpolated]

omit [IsStrictOrderedRing K] in
theorem ceil_le_last {pos : K} (inside : pos ≤ last) : ⌈pos⌉₊ ≤ last :=
  Nat.ceil_le.mpr inside

theorem floor_le_last {pos : K} (inside : pos ≤ last) : ⌊pos⌋₊ ≤ last :=
  (Nat.floor_le_ceil pos).trans (ceil_le_last inside)

theorem floor_le_interpolated (mono : MonotoneOn f (Set.Iic last)) {pos : K} (nonneg : 0 ≤ pos)
    (inside : pos ≤ last) : f ⌊pos⌋₊ ≤ interpolated f pos := by
  have rises : 0 ≤ f ⌈pos⌉₊ - f ⌊pos⌋₊ :=
    sub_nonneg.mpr (mono (floor_le_last inside) (ceil_le_last inside) (Nat.floor_le_ceil pos))
  have along : 0 ≤ pos - ⌊pos⌋₊ := sub_nonneg.mpr (Nat.floor_le nonneg)
  exact le_add_of_nonneg_right (mul_nonneg rises along)

theorem interpolated_le_ceil (mono : MonotoneOn f (Set.Iic last)) {pos : K}
    (inside : pos ≤ last) : interpolated f pos ≤ f ⌈pos⌉₊ := by
  have rises : 0 ≤ f ⌈pos⌉₊ - f ⌊pos⌋₊ :=
    sub_nonneg.mpr (mono (floor_le_last inside) (ceil_le_last inside) (Nat.floor_le_ceil pos))
  have along : pos - ⌊pos⌋₊ ≤ 1 := by
    have := Nat.lt_floor_add_one pos
    linarith
  calc interpolated f pos
    _ ≤ f ⌊pos⌋₊ + (f ⌈pos⌉₊ - f ⌊pos⌋₊) * 1 := by
        unfold interpolated
        gcongr
    _ = f ⌈pos⌉₊ := by ring

/-- A monotone sequence is interpolated monotonically. -/
theorem interpolated_mono (mono : MonotoneOn f (Set.Iic last)) {pos next : K}
    (nonneg : 0 ≤ pos) (le : pos ≤ next) (inside : next ≤ last) :
    interpolated f pos ≤ interpolated f next := by
  rcases (Nat.floor_mono le).lt_or_eq with apart | same
  · -- an index lies between the two positions
    have between : ⌈pos⌉₊ ≤ ⌊next⌋₊ := (Nat.ceil_le_floor_add_one pos).trans apart
    calc interpolated f pos
      _ ≤ f ⌈pos⌉₊ := interpolated_le_ceil mono (le.trans inside)
      _ ≤ f ⌊next⌋₊ :=
          mono (ceil_le_last (le.trans inside)) (floor_le_last inside) between
      _ ≤ interpolated f next := floor_le_interpolated mono (nonneg.trans le) inside
  · rcases (Nat.floor_le nonneg).eq_or_lt with whole | inner
    · rw [← whole, interpolated_natCast, same]
      exact floor_le_interpolated mono (nonneg.trans le) inside
    · -- both lie inside of one step
      have upper : ⌈pos⌉₊ = ⌈next⌉₊ := by
        apply le_antisymm (Nat.ceil_mono le)
        calc ⌈next⌉₊
          _ ≤ ⌊next⌋₊ + 1 := Nat.ceil_le_floor_add_one next
          _ = ⌊pos⌋₊ + 1 := by rw [same]
          _ ≤ ⌈pos⌉₊ := Nat.lt_ceil.mpr inner
      have rises : 0 ≤ f ⌈next⌉₊ - f ⌊next⌋₊ :=
        sub_nonneg.mpr (mono (floor_le_last inside) (ceil_le_last inside) (Nat.floor_le_ceil next))
      unfold interpolated
      rw [same, upper]
      gcongr

end Interpolation
