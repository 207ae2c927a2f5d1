import Mathlib.Data.List.Sort

/-!
# Stable sorts

Sorting by a key keeps the entries of one key in the order they came in.  So a
sorted list is known from its keys and, for each of them, the entries that have
it: what stands at a place is settled unless several entries share its key.
-/

namespace StableSorts

/-- Entries that a comparison tells apart are sorted alike in whatever order they come. -/
theorem mergeSort_eq_of_apart {α : Type*} {le : α → α → Bool}
    (trans : ∀ first second third, le first second = true → le second third = true →
      le first third = true)
    (total : ∀ first second, (le first second || le second first) = true) {entries others : List α}
    (same : entries.Perm others)
    (apart : ∀ first ∈ others, ∀ second ∈ others, le first second = true →
      le second first = true → first = second) :
    entries.mergeSort le = others.mergeSort le := by
  apply List.Perm.eq_of_pairwise _ (List.pairwise_mergeSort trans total entries)
    (List.pairwise_mergeSort trans total others)
    ((entries.mergeSort_perm le).trans (same.trans (others.mergeSort_perm le).symm))
  intro first second one two
  exact apart first (same.mem_iff.mp (List.mem_mergeSort.mp one)) second (List.mem_mergeSort.mp two)

section StableSorts

variable {α κ : Type*} [LinearOrder κ] (key : α → κ)

def sortBy (entries : List α) : List α :=
  entries.mergeSort fun first second => key first ≤ key second

theorem sortBy_perm (entries : List α) : (sortBy key entries).Perm entries :=
  entries.mergeSort_perm _

/-- Equal keys are in order whichever way round they stand. -/
theorem pairwise_sortBy (entries : List α) :
    (sortBy key entries).Pairwise fun first second => key first ≤ key second := by
  have sorted := @List.pairwise_mergeSort α (fun first second => key first ≤ key second)
    (by
      intro first second third
      simpa only [decide_eq_true_eq] using le_trans)
    (by
      intro first second
      simpa only [Bool.or_eq_true, decide_eq_true_eq] using le_total _ _)
    entries
  exact sorted.imp of_decide_eq_true

/-- Lists in order with the same entries are one list. -/
theorem mergeSort_eq_of_perm {keys others : List κ} (same : keys.Perm others) :
    keys.mergeSort = others.mergeSort :=
  ((keys.mergeSort_perm _).trans (same.trans (others.mergeSort_perm _).symm)).eq_of_pairwise'
    (List.pairwise_mergeSort' (· ≤ ·) keys) (List.pairwise_mergeSort' (· ≤ ·) others)

variable [DecidableEq κ]

/-- Entries of one key keep their order. -/
theorem filter_sortBy (entries : List α) (one : κ) :
    ((sortBy key entries).filter fun entry => key entry = one) =
      entries.filter fun entry => key entry = one := by
  have level : (entries.filter fun entry => key entry = one).Pairwise
      fun first second => decide (key first ≤ key second) = true := by
    apply List.pairwise_of_forall_mem_list
    intro first among second within
    have left : key first = one := of_decide_eq_true (List.mem_filter.mp among).2
    have right : key second = one := of_decide_eq_true (List.mem_filter.mp within).2
    rw [left, right]
    exact decide_eq_true (le_refl one)
  have kept : (entries.filter fun entry => key entry = one).Sublist (sortBy key entries) := by
    apply List.sublist_mergeSort _ _ level List.filter_sublist
    · intro first second third
      simpa only [decide_eq_true_eq] using le_trans
    · intro first second
      simpa only [Bool.or_eq_true, decide_eq_true_eq] using le_total _ _
  have within := kept.filter fun entry => decide (key entry = one)
  rw [List.filter_filter] at within
  simp only [Bool.and_self] at within
  exact (within.eq_of_length ((sortBy_perm key entries).filter _).length_eq.symm).symm

/-- A list in order: what is below a key, what has it, and what is above. -/
theorem eq_append_of_pairwise {entries : List α}
    (sorted : entries.Pairwise fun first second => key first ≤ key second) (one : κ) :
    entries = (entries.filter fun entry => key entry < one) ++
      (entries.filter fun entry => key entry = one) ++
        entries.filter fun entry => one < key entry := by
  induction entries with
  | nil => rfl
  | cons entry entries ih =>
      have rest := ih sorted.of_cons
      have after := (List.pairwise_cons.mp sorted).1
      have none_below (above : one ≤ key entry) :
          (entries.filter fun entry => key entry < one) = [] := by
        rw [List.filter_eq_nil_iff]
        intro other among
        simpa using le_trans above (after other among)
      have none_here (above : one < key entry) :
          (entries.filter fun entry => key entry = one) = [] := by
        rw [List.filter_eq_nil_iff]
        intro other among
        simpa using (lt_of_lt_of_le above (after other among)).ne'
      rcases lt_trichotomy (key entry) one with below | here | above
      · simp only [List.filter_cons, below, below.ne, below.not_gt, decide_true, decide_false,
          if_true, Bool.false_eq_true, if_false, List.cons_append]
        rw [← rest]
      · have nothing := none_below here.ge
        rw [nothing, List.nil_append] at rest
        simp only [List.filter_cons, here, lt_irrefl, decide_true, decide_false, if_true,
          Bool.false_eq_true, if_false, nothing, List.nil_append, List.cons_append]
        rw [← rest]
      · have nothing := none_below above.le
        rw [nothing, none_here above, List.nil_append, List.nil_append] at rest
        simp only [List.filter_cons, above, above.ne', above.not_gt, decide_true, decide_false,
          if_true, Bool.false_eq_true, if_false, nothing, none_here above, List.nil_append]
        rw [← rest]

/-- The entries of a key stand together, after all that are below it. -/
theorem getElem?_sortBy (entries : List α) (one : κ) {place : Nat}
    (within : place < (entries.filter fun entry => key entry = one).length) :
    (sortBy key entries)[(entries.countP fun entry => key entry < one) + place]? =
      (entries.filter fun entry => key entry = one)[place]? := by
  have split := eq_append_of_pairwise key (pairwise_sortBy key entries) one
  rw [filter_sortBy] at split
  have before : ((sortBy key entries).filter fun entry => key entry < one).length =
      entries.countP fun entry => key entry < one := by
    rw [← List.countP_eq_length_filter, (sortBy_perm key entries).countP_eq]
  rw [split, List.getElem?_append_left (by rw [List.length_append, before]; omega),
    List.getElem?_append_right (by rw [before]; omega), before, Nat.add_sub_cancel_left]

/-- Every place of a sorted list is a place among the entries of its key. -/
theorem exists_place {entries : List α} {number : Nat} {entry : α}
    (stands : (sortBy key entries)[number]? = some entry) :
    ∃ place < (entries.filter fun other => key other = key entry).length,
      number = (entries.countP fun other => key other < key entry) + place := by
  have split := eq_append_of_pairwise key (pairwise_sortBy key entries) (key entry)
  rw [filter_sortBy] at split
  have before : ((sortBy key entries).filter fun other => key other < key entry).length =
      entries.countP fun other => key other < key entry := by
    rw [← List.countP_eq_length_filter, (sortBy_perm key entries).countP_eq]
  rw [split] at stands
  have early : ¬ number < entries.countP fun other => key other < key entry := by
    intro early
    rw [List.append_assoc, List.getElem?_append_left (by omega)] at stands
    have below := (List.mem_filter.mp (List.mem_of_getElem? stands)).2
    simp at below
  have late : ¬ (entries.countP fun other => key other < key entry) +
      (entries.filter fun other => key other = key entry).length ≤ number := by
    intro late
    rw [List.getElem?_append_right (by rw [List.length_append]; omega)] at stands
    have above := (List.mem_filter.mp (List.mem_of_getElem? stands)).2
    simp at above
  exact ⟨number - entries.countP fun other => key other < key entry, by omega, by omega⟩

/-- Lists with the same keys are sorted alike up to a place if they hold the same
entries, in the same order, of every key that begins before it. -/
theorem take_sortBy_eq {entries others : List α} (keys : (entries.map key).Perm (others.map key))
    (count : Nat)
    (same : ∀ one, (entries.countP fun entry => key entry < one) < count →
      (entries.filter fun entry => key entry = one) =
        others.filter fun entry => key entry = one) :
    (sortBy key entries).take count = (sortBy key others).take count := by
  have below (one : κ) : (entries.countP fun entry => key entry < one) =
      others.countP fun entry => key entry < one := by
    have counts := keys.countP_eq fun other => decide (other < one)
    rwa [List.countP_map, List.countP_map] at counts
  have long : (sortBy key entries).length = (sortBy key others).length := by
    rw [(sortBy_perm key entries).length_eq, (sortBy_perm key others).length_eq]
    simpa using keys.length_eq
  apply List.ext_getElem?
  intro number
  rw [List.getElem?_take, List.getElem?_take]
  split
  · next early =>
      cases stands : (sortBy key entries)[number]? with
      | none =>
          rw [List.getElem?_eq_none_iff] at stands
          exact (List.getElem?_eq_none_iff.mpr (long ▸ stands)).symm
      | some entry =>
          obtain ⟨place, within, rfl⟩ := exists_place key stands
          have alike := same (key entry) (by omega)
          rw [getElem?_sortBy key entries _ within] at stands
          rw [below, getElem?_sortBy key others _ (alike ▸ within), ← alike, stands]
  · rfl

/-- A list in order that keeps the entries of each key is the sort. -/
theorem sortBy_eq_of_pairwise {entries sorted : List α} (keys : (entries.map key).Perm
      (sorted.map key))
    (ordered : sorted.Pairwise fun first second => key first ≤ key second)
    (kept : ∀ one, (entries.filter fun entry => key entry = one) =
      sorted.filter fun entry => key entry = one) : sortBy key entries = sorted := by
  have itself : sortBy key sorted = sorted :=
    List.mergeSort_of_pairwise (ordered.imp decide_eq_true)
  have alike := take_sortBy_eq key keys (entries.length + sorted.length) fun one _ => kept one
  have long : (sortBy key entries).length = entries.length :=
    (sortBy_perm key entries).length_eq
  rw [itself, List.take_of_length_le (by omega), List.take_of_length_le (by omega)] at alike
  exact alike

/-- Leaving entries out before sorting or after is the same. -/
theorem filter_sortBy_comm (keep : α → Bool) (entries : List α) :
    (sortBy key entries).filter keep = sortBy key (entries.filter keep) := by
  apply Eq.symm
  apply sortBy_eq_of_pairwise
  · exact (((sortBy_perm key entries).filter keep).map key).symm
  · exact (pairwise_sortBy key entries).filter keep
  · intro one
    rw [List.filter_comm, ← filter_sortBy key entries one, List.filter_comm]

/-- Keys that order the entries alike sort them alike. -/
theorem sortBy_congr {μ : Type*} [LinearOrder μ] [DecidableEq μ] {other : α → μ}
    {entries : List α} (alike : ∀ first ∈ entries, ∀ second ∈ entries,
      (key first ≤ key second ↔ other first ≤ other second)) :
    sortBy key entries = sortBy other entries := by
  have listed {entry : α} (among : entry ∈ sortBy other entries) : entry ∈ entries :=
    (sortBy_perm other entries).mem_iff.mp among
  have same {first second : α} (one : first ∈ entries) (two : second ∈ entries) :
      key first = key second ↔ other first = other second := by
    rw [le_antisymm_iff, le_antisymm_iff, alike first one second two, alike second two first one]
  apply sortBy_eq_of_pairwise
  · exact ((sortBy_perm other entries).map key).symm
  · apply (pairwise_sortBy other entries).imp_of_mem
    intro first second one two before
    exact (alike first (listed one) second (listed two)).mpr before
  · intro one
    by_cases found : ∃ entry ∈ entries, key entry = one
    · obtain ⟨entry, among, rfl⟩ := found
      calc (entries.filter fun second => key second = key entry)
        _ = entries.filter fun second => other second = other entry :=
            List.filter_congr fun second two => decide_eq_decide.mpr (same two among)
        _ = (sortBy other entries).filter fun second => other second = other entry :=
            (filter_sortBy other entries (other entry)).symm
        _ = (sortBy other entries).filter fun second => key second = key entry :=
            List.filter_congr fun second two =>
              decide_eq_decide.mpr (same (listed two) among).symm
    · have nobody (second : α) (two : second ∈ entries) : ¬ decide (key second = one) = true :=
        fun has => found ⟨second, two, of_decide_eq_true has⟩
      rw [List.filter_eq_nil_iff.mpr nobody,
        List.filter_eq_nil_iff.mpr fun second two => nobody second (listed two)]

end StableSorts

end StableSorts
