import Mathlib.Algebra.BigOperators.Group.List.Basic
import Mathlib.Algebra.Order.Ring.Int
import Mathlib.Tactic.Common

/-!
# Sums in machine words

Counts are added up one by one in an `i32`.  Where additions are checked, one that does
not fit panics; where they are not, it wraps.  Neither shows exactly if every sum on the
way fits.
-/

namespace Hermione

/-- How the server was built. -/
inductive Build where
  | checked
  | wrapping
  deriving DecidableEq

/-- It is an `i32`. -/
def FitsWord (number : Int) : Prop :=
  -2 ^ 31 ≤ number ∧ number < 2 ^ 31

instance (number : Int) : Decidable (FitsWord number) :=
  inferInstanceAs (Decidable (_ ∧ _))

namespace Build

/-- `total + value` of two `i32`s; none where the build panics. -/
def add (build : Build) (total value : Int32) : Option Int32 :=
  if FitsWord (total.toInt + value.toInt) then some (total + value)
  else match build with
    | checked => none
    | wrapping => some (total + value)

/-- `total += value`, for each value. -/
def addAll (build : Build) : Int32 → List Int32 → Option Int32
  | total, [] => some total
  | total, value :: values => (build.add total value).bind fun total => build.addAll total values

end Build

theorem Build.addAll_singleton (build : Build) (total value : Int32) :
    build.addAll total [value] = build.add total value :=
  Option.bind_fun_some _

theorem Build.addAll_append (build : Build) (total : Int32) (front back : List Int32) :
    build.addAll total (front ++ back) =
      (build.addAll total front).bind fun total => build.addAll total back := by
  induction front generalizing total with
  | nil => rfl
  | cons value front ih =>
      rw [List.cons_append, addAll, addAll, Option.bind_assoc]
      exact congrArg _ (funext ih)

theorem fitsWord_toInt (number : Int32) : FitsWord number.toInt :=
  ⟨number.le_toInt, number.toInt_lt⟩

theorem toInt_add_of_fits {total value : Int32} (fits : FitsWord (total.toInt + value.toInt)) :
    (total + value).toInt = total.toInt + value.toInt := by
  rw [Int32.toInt_add]
  exact Int.bmod_eq_of_le (by have := fits.1; omega) (by have := fits.2; omega)

theorem Build.add_of_fits (build : Build) {total value : Int32}
    (fits : FitsWord (total.toInt + value.toInt)) : build.add total value = some (total + value) :=
  if_pos fits

theorem Build.fits_of_checked {total value sum : Int32}
    (added : Build.checked.add total value = some sum) : FitsWord (total.toInt + value.toInt) := by
  by_contra wide
  rw [Build.add, if_neg wide] at added
  cases added

/-- The sums of the numbers, one more each time, fit. -/
def FitFrom (start : Int) (numbers : List Int) : Prop :=
  ∀ front, front <+: numbers → FitsWord (start + front.sum)

/-- The sums on the way to the sum of the numbers fit. -/
def Fit (numbers : List Int) : Prop :=
  ∀ front, front <+: numbers → FitsWord front.sum

theorem fitFrom_zero (numbers : List Int) : FitFrom 0 numbers ↔ Fit numbers := by
  simp only [FitFrom, Fit, zero_add]

theorem fitFrom_cons (start number : Int) (numbers : List Int) :
    FitFrom start (number :: numbers) ↔ FitsWord start ∧ FitFrom (start + number) numbers := by
  constructor
  · intro fit
    constructor
    · simpa using fit [] List.nil_prefix
    · intro front part
      have longer := fit (number :: front) (List.cons_prefix_cons.mpr ⟨rfl, part⟩)
      rwa [List.sum_cons, ← add_assoc] at longer
  · rintro ⟨here, later⟩ front part
    cases front with
    | nil => simpa using here
    | cons first front =>
        obtain ⟨rfl, rest⟩ := List.cons_prefix_cons.mp part
        rw [List.sum_cons, ← add_assoc]
        exact later front rest

/-- Where every sum fits, the sum is exact, in either build. -/
theorem Build.addAll_of_fit (build : Build) {total : Int32} {values : List Int32}
    (fit : FitFrom total.toInt (values.map Int32.toInt)) :
    ∃ sum, build.addAll total values = some sum ∧
      sum.toInt = total.toInt + (values.map Int32.toInt).sum := by
  induction values generalizing total with
  | nil => exact ⟨total, rfl, by simp⟩
  | cons value values ih =>
      rw [List.map_cons, fitFrom_cons] at fit
      have fits : FitsWord (total.toInt + value.toInt) := by
        simpa using fit.2 [] List.nil_prefix
      rw [← toInt_add_of_fits fits] at fit
      obtain ⟨sum, added, exact⟩ := ih fit.2
      refine ⟨sum, ?_, ?_⟩
      · rw [addAll, build.add_of_fits fits, Option.bind_some, added]
      · rw [exact, toInt_add_of_fits fits, List.map_cons, List.sum_cons, add_assoc]

/-- Where additions are checked and none panics, every sum fits. -/
theorem fitFrom_of_checked {total sum : Int32} {values : List Int32}
    (added : Build.checked.addAll total values = some sum) :
    FitFrom total.toInt (values.map Int32.toInt) := by
  induction values generalizing total with
  | nil =>
      intro front part
      rw [List.prefix_nil.mp part, List.sum_nil, add_zero]
      exact fitsWord_toInt total
  | cons value values ih =>
      obtain ⟨next, first, later⟩ := Option.bind_eq_some_iff.mp added
      have fits := Build.fits_of_checked first
      rw [Build.add_of_fits _ fits, Option.some_inj] at first
      rw [List.map_cons, fitFrom_cons, ← toInt_add_of_fits fits, first]
      exact ⟨fitsWord_toInt total, ih later⟩

/-- From nothing, the sums fit exactly if none panics where additions are checked. -/
theorem fit_iff_checked (values : List Int32) :
    Fit (values.map Int32.toInt) ↔ ∃ sum, Build.checked.addAll 0 values = some sum := by
  rw [← fitFrom_zero]
  constructor
  · intro fit
    obtain ⟨sum, added, -⟩ := @Build.addAll_of_fit .checked 0 values fit
    exact ⟨sum, added⟩
  · rintro ⟨sum, added⟩
    exact fitFrom_of_checked added

theorem Build.addAll_zero (build : Build) {values : List Int32}
    (fit : Fit (values.map Int32.toInt)) :
    ∃ sum, build.addAll 0 values = some sum ∧ sum.toInt = (values.map Int32.toInt).sum := by
  rw [← fitFrom_zero] at fit
  obtain ⟨sum, added, exact⟩ := @Build.addAll_of_fit build 0 values fit
  exact ⟨sum, added, exact.trans (zero_add _)⟩

theorem sum_ones (count : Nat) : (List.replicate count (1 : Int)).sum = count := by
  rw [List.sum_replicate, nsmul_one]

/-- Ones fit if they are fewer than `2 ^ 31`. -/
theorem fit_ones (count : Nat) : Fit (List.replicate count 1) ↔ count < 2 ^ 31 := by
  constructor
  · intro fit
    have whole := (fit _ List.prefix_rfl).2
    rw [sum_ones] at whole
    omega
  · intro few front part
    obtain ⟨length, rfl⟩ : ∃ length, front = List.replicate length 1 :=
      ⟨front.length, List.eq_replicate_of_mem fun one member =>
        List.eq_of_mem_replicate (part.subset member)⟩
    have shorter := part.length_le
    rw [List.length_replicate, List.length_replicate] at shorter
    rw [sum_ones]
    exact ⟨by omega, by omega⟩

end Hermione
