import Mathlib.Algebra.Order.Floor.Semifield
import Mathlib.Data.List.GetD
import Hermione.Assessment
import Hermione.Interpolation

/-!
# What the fences of a class are worth

In a class that is large enough to be trusted, the fence to watch from lies strictly
above the third quartile, so that at most a quarter of the class, rounded up, can
reach it.
-/

namespace Hermione

open Interpolation

/-! ### Rounding -/

theorem roundAway_eq_floor {value : ℚ} (nonneg : 0 ≤ value) :
    roundAway value = ⌊value + 1 / 2⌋ :=
  if_pos nonneg

theorem roundAway_mono {value next : ℚ} (nonneg : 0 ≤ value) (le : value ≤ next) :
    roundAway value ≤ roundAway next := by
  rw [roundAway_eq_floor nonneg, roundAway_eq_floor (nonneg.trans le)]
  exact Int.floor_mono (by linarith)

theorem roundAway_nonneg {value : ℚ} (nonneg : 0 ≤ value) : 0 ≤ roundAway value := by
  rw [roundAway_eq_floor nonneg]
  exact Int.floor_nonneg.mpr (by linarith)

theorem lt_roundAway_add_one {value : ℚ} (nonneg : 0 ≤ value) :
    value < roundAway value + 1 := by
  rw [roundAway_eq_floor nonneg]
  have := Int.lt_floor_add_one (value + 1 / 2)
  linarith

/-! ### Quantiles -/

/-- The times of a sorted list, by their index. -/
def timeAt (sorted : List Int) (index : ℕ) : ℚ :=
  (sorted.getD index 0 : Int)

theorem quantile_eq (sorted : List Int) {q : ℚ} :
    quantile sorted q =
      roundAway (interpolated (timeAt sorted) (q * ((sorted.length - 1 : Nat) : ℚ))) := by
  unfold quantile interpolated timeAt
  dsimp only
  rw [Int.floor_toNat, Int.ceil_toNat]

section Sorted

variable {sorted : List Int} (ascending : sorted.Pairwise (· ≤ ·))

include ascending

theorem timeAt_monotoneOn : MonotoneOn (timeAt sorted) (Set.Iic (sorted.length - 1)) := by
  intro index _ next inside le
  rcases le.lt_or_eq with before | rfl
  · have late : next < sorted.length := by
      have : next ≤ sorted.length - 1 := inside
      omega
    unfold timeAt
    rw [List.getD_eq_getElem _ _ (before.trans late), List.getD_eq_getElem _ _ late]
    exact_mod_cast List.pairwise_iff_getElem.mp ascending index next _ late before
  · exact le_refl _

omit ascending in
variable (sorted) in
theorem position_le {q : ℚ} (proper : q ≤ 1) :
    q * ((sorted.length - 1 : Nat) : ℚ) ≤ (sorted.length - 1 : Nat) :=
  mul_le_of_le_one_left (Nat.cast_nonneg _) proper

variable (nonneg : ∀ time ∈ sorted, 0 ≤ time)

include nonneg

theorem interpolated_nonneg {pos : ℚ} (first : 0 ≤ pos)
    (inside : pos ≤ (sorted.length - 1 : Nat)) : 0 ≤ interpolated (timeAt sorted) pos := by
  have low : 0 ≤ timeAt sorted ⌊pos⌋₊ := by
    unfold timeAt
    rw [List.getD_eq_getElem?_getD]
    cases found : sorted[⌊pos⌋₊]? with
    | none => simp
    | some time => exact_mod_cast nonneg time (List.mem_of_getElem? found)
  exact low.trans (floor_le_interpolated (timeAt_monotoneOn ascending) first inside)

theorem quantile_nonneg {q : ℚ} (positive : 0 ≤ q) (proper : q ≤ 1) :
    0 ≤ quantile sorted q := by
  rw [quantile_eq]
  apply roundAway_nonneg
  exact interpolated_nonneg ascending nonneg (by positivity) (position_le sorted proper)

theorem quantile_mono {q r : ℚ} (positive : 0 ≤ q) (le : q ≤ r) (proper : r ≤ 1) :
    quantile sorted q ≤ quantile sorted r := by
  have further : q * ((sorted.length - 1 : Nat) : ℚ) ≤ r * ((sorted.length - 1 : Nat) : ℚ) := by
    gcongr
  have inside := position_le sorted proper
  rw [quantile_eq, quantile_eq]
  apply roundAway_mono
  · exact interpolated_nonneg ascending nonneg (by positivity) (further.trans inside)
  · exact interpolated_mono (timeAt_monotoneOn ascending) (by positivity) further inside

theorem quantile_le {bound : Int} (some : sorted ≠ []) (most : ∀ time ∈ sorted, time ≤ bound)
    {q : ℚ} (positive : 0 ≤ q) (proper : q ≤ 1) : quantile sorted q ≤ bound := by
  have first : 0 ≤ q * ((sorted.length - 1 : Nat) : ℚ) := by positivity
  have inside := position_le sorted proper
  have high : interpolated (timeAt sorted) (q * ((sorted.length - 1 : Nat) : ℚ)) ≤ bound := by
    apply (interpolated_le_ceil (timeAt_monotoneOn ascending) inside).trans
    have early : ⌈q * ((sorted.length - 1 : Nat) : ℚ)⌉₊ < sorted.length := by
      have := ceil_le_last inside
      have := List.length_pos_iff.mpr some
      omega
    unfold timeAt
    rw [List.getD_eq_getElem _ _ early]
    exact_mod_cast most _ (List.getElem_mem early)
  rw [quantile_eq, roundAway_eq_floor (interpolated_nonneg ascending nonneg first inside)]
  apply Int.lt_add_one_iff.mp
  rw [Int.floor_lt]
  push_cast
  linarith

/-- Whoever takes longer than the rounded quantile is behind its position. -/
theorem lt_of_quantile_lt {q : ℚ} (positive : 0 ≤ q) (proper : q ≤ 1) {index : ℕ} {time : Int}
    (found : sorted[index]? = some time) (longer : quantile sorted q < time) :
    ⌊q * ((sorted.length - 1 : Nat) : ℚ)⌋₊ < index := by
  have first : 0 ≤ q * ((sorted.length - 1 : Nat) : ℚ) := by positivity
  have inside := position_le sorted proper
  by_contra early
  have ordered : timeAt sorted index ≤ timeAt sorted ⌊q * ((sorted.length - 1 : Nat) : ℚ)⌋₊ :=
    timeAt_monotoneOn ascending ((not_lt.mp early).trans (floor_le_last inside))
      (floor_le_last inside) (not_lt.mp early)
  have exact : timeAt sorted index = time := by
    unfold timeAt
    rw [List.getD_eq_getElem?_getD, found, Option.getD_some]
  have below : (time : ℚ) < time := by
    calc (time : ℚ)
      _ = timeAt sorted index := exact.symm
      _ ≤ timeAt sorted ⌊q * ((sorted.length - 1 : Nat) : ℚ)⌋₊ := ordered
      _ ≤ interpolated (timeAt sorted) (q * ((sorted.length - 1 : Nat) : ℚ)) :=
          floor_le_interpolated (timeAt_monotoneOn ascending) first inside
      _ < quantile sorted q + 1 := by
          rw [quantile_eq]
          exact lt_roundAway_add_one (interpolated_nonneg ascending nonneg first inside)
      _ ≤ time := by exact_mod_cast Int.add_one_le_of_lt longer
  exact lt_irrefl _ below

/-- At most the times behind the quantile's position take longer than it. -/
theorem countP_quantile_lt {q : ℚ} (positive : 0 ≤ q) (proper : q ≤ 1) {fence : Int}
    (above : quantile sorted q < fence) :
    sorted.countP (fun time => decide (fence ≤ time)) ≤
      sorted.length - (⌊q * ((sorted.length - 1 : Nat) : ℚ)⌋₊ + 1) := by
  have none : (sorted.take (⌊q * ((sorted.length - 1 : Nat) : ℚ)⌋₊ + 1)).countP
      (fun time => decide (fence ≤ time)) = 0 := by
    rw [List.countP_eq_zero]
    intro time listed reaches
    obtain ⟨index, early, found⟩ := List.getElem_of_mem listed
    rw [List.length_take] at early
    rw [List.getElem_take] at found
    have behind := lt_of_quantile_lt ascending nonneg positive proper
      (List.getElem?_eq_some_iff.mpr ⟨_, found⟩)
      (above.trans_le (of_decide_eq_true reaches))
    omega
  calc sorted.countP (fun time => decide (fence ≤ time))
    _ = (sorted.drop (⌊q * ((sorted.length - 1 : Nat) : ℚ)⌋₊ + 1)).countP
          (fun time => decide (fence ≤ time)) := by
        rw [← Nat.zero_add (List.countP _ (sorted.drop _)), ← none, ← List.countP_append,
          List.take_append_drop]
    _ ≤ (sorted.drop (⌊q * ((sorted.length - 1 : Nat) : ℚ)⌋₊ + 1)).length :=
        List.countP_le_length
    _ = _ := List.length_drop

end Sorted

/-! ### The fences -/

namespace Fences

/-- What the fences of a class are to be. -/
structure Sound (times : List Int) (fences : Fences) : Prop where
  unordered : ∀ others : List Int, others.Perm times → forCohort others = fences
  median : fences.median = quantile times.mergeSort (1 / 2)
  lower : quantile times.mergeSort (1 / 4) ≤ fences.median
  upper : fences.median ≤ quantile times.mergeSort (3 / 4)
  patient : 300 ≤ fences.watch
  ordered : fences.watch ≤ fences.help
  above : quantile times.mergeSort (3 / 4) < fences.watch
  few : times.countP (fun time => decide (fences.watch ≤ time)) ≤ (times.length - 1) ⌈/⌉ 4

theorem forCohort_eq {times : List Int} (cohort : 5 ≤ times.length) :
    forCohort times =
      let (q1, med, q3) := (quantile times.mergeSort (1 / 4), quantile times.mergeSort (1 / 2),
        quantile times.mergeSort (3 / 4))
      { watch := max (max (q3 + ((q3 - q1) * 3).tdiv 2) ((med * 3).tdiv 2)) MIN_WATCH_SECS
        help := max (max (q3 + (q3 - q1) * 3) (med * 2)) MIN_HELP_SECS
        cohort := times.length
        median := med } := by
  unfold forCohort MIN_COHORT
  rw [if_neg (not_lt.mpr cohort)]
  simp only [List.length_mergeSort]

theorem forCohort_sound (times : List Int) (cohort : 5 ≤ times.length)
    (nonneg : ∀ time ∈ times, 0 ≤ time) : Sound times (forCohort times) := by
  have ascending : times.mergeSort.Pairwise (· ≤ ·) :=
    List.pairwise_mergeSort' (· ≤ ·) times
  have same : times.mergeSort.Perm times := times.mergeSort_perm _
  have positive : ∀ time ∈ times.mergeSort, 0 ≤ time :=
    fun time listed => nonneg time (same.mem_iff.mp listed)
  have low := quantile_mono ascending positive (q := 1 / 4) (r := 1 / 2)
    (by norm_num) (by norm_num) (by norm_num)
  have high := quantile_mono ascending positive (q := 1 / 2) (r := 3 / 4)
    (by norm_num) (by norm_num) (by norm_num)
  have first := quantile_nonneg ascending positive (q := 1 / 4) (by norm_num) (by norm_num)
  have above : quantile times.mergeSort (3 / 4) < (forCohort times).watch := by
    rw [forCohort_eq cohort]
    unfold MIN_WATCH_SECS
    dsimp only
    -- in a class without spread, the median or the floor keeps the fence away
    rw [Int.tdiv_eq_ediv_of_nonneg (by omega), Int.tdiv_eq_ediv_of_nonneg (by omega)]
    omega
  constructor
  · intro others perm
    exact forCohort_perm perm
  · rw [forCohort_eq cohort]
  · rw [forCohort_eq cohort]
    exact low
  · rw [forCohort_eq cohort]
    exact high
  · rw [forCohort_eq cohort]
    exact le_max_right _ _
  · rw [forCohort_eq cohort]
    unfold MIN_WATCH_SECS MIN_HELP_SECS
    dsimp only
    rw [Int.tdiv_eq_ediv_of_nonneg (by omega), Int.tdiv_eq_ediv_of_nonneg (by omega)]
    omega
  · exact above
  · have position : ⌊(3 / 4 : ℚ) * ((times.mergeSort.length - 1 : Nat) : ℚ)⌋₊ =
        3 * (times.length - 1) / 4 := by
      rw [List.length_mergeSort, ← Nat.floor_div_eq_div (K := ℚ)]
      push_cast
      ring_nf
    have few := countP_quantile_lt ascending positive (by norm_num) (by norm_num) above
    rw [same.countP_eq, position, List.length_mergeSort] at few
    rw [Nat.ceilDiv_eq_add_pred_div]
    omega

/-- A class of which one takes much longer. -/
theorem forCohort_sound_late :
    Sound [60, 3600, 60, 120, 90] (forCohort [60, 3600, 60, 120, 90]) :=
  forCohort_sound [60, 3600, 60, 120, 90] (by decide) (by decide)

end Fences

end Hermione
