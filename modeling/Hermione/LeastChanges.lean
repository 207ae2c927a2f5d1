import Hermione.SinceScript

/-!
# The script keeps as much as can be kept

Row by row and from the end, every cell of the table gets the length of a longest common
subsequence of what is left; such a length is below the smaller of two numbers of lines,
whose product is bounded, and fits 16 bits.  The walk keeps as many lines as the cell says
that it stands at.
-/

namespace Hermione

namespace Since

open EditScripts (leadingLen take_leadingLen)
open CommonSubsequences (Longest longest_nil_left longest_nil_right)

variable {α : Type*}

/-! ### Cells -/

/-- What holds before a loop that counts down and is kept by its steps holds after it. -/
theorem countdown {State : Type*} {holds : Nat → State → Prop} {step : State → Nat → State}
    (count : Nat) (kept : ∀ k < count, ∀ state, holds (k + 1) state → holds k (step state k))
    {state : State} (start : holds count state) :
    holds 0 ((List.range count).reverse.foldl step state) := by
  induction count generalizing state with
  | zero => exact start
  | succ count ih =>
      rw [List.range_succ, List.reverse_concat, List.foldl_cons]
      exact ih (fun k below => kept k (by omega)) (kept count (by omega) state start)

section Cells

variable {ma mb : List α} {t : Array UInt16} {i j : Nat}

theorem cellIndex_inj {r c : Nat} (within : c ≤ mb.length) (inside : j ≤ mb.length)
    (same : cellIndex mb r c = cellIndex mb i j) : r = i ∧ c = j := by
  unfold cellIndex at same
  have rows : (r * (mb.length + 1) + c) / (mb.length + 1) =
      (i * (mb.length + 1) + j) / (mb.length + 1) := by rw [same]
  rw [Nat.mul_comm r, Nat.mul_comm i, Nat.mul_add_div (by omega), Nat.mul_add_div (by omega),
    Nat.div_eq_of_lt (by omega), Nat.div_eq_of_lt (by omega)] at rows
  obtain rfl : r = i := by omega
  exact ⟨rfl, by omega⟩

theorem cellIndex_lt (row : i ≤ ma.length) (column : j ≤ mb.length) :
    cellIndex mb i j < (ma.length + 1) * (mb.length + 1) := by
  have rows := Nat.mul_le_mul_right (mb.length + 1) row
  rw [cellIndex, Nat.add_mul, Nat.one_mul]
  omega

/-- Writing a cell leaves the others as they are. -/
theorem entry_set {value : UInt16} {r c : Nat} (within : c ≤ mb.length)
    (inside : j ≤ mb.length) (bound : cellIndex mb i j < t.size) :
    entry mb (t.setIfInBounds (cellIndex mb i j) value) r c =
      if r = i ∧ c = j then value.toNat else entry mb t r c := by
  unfold entry
  rw [Array.getElem?_setIfInBounds]
  by_cases here : r = i ∧ c = j
  · rw [if_pos here, here.1, here.2, if_pos rfl, if_pos bound]
    rfl
  · rw [if_neg here, if_neg]
    exact fun same => here (cellIndex_inj within inside same.symm)

/-- The cells that are filled once the loops have come to a cell: those after it, and the
border. -/
structure Filled (ma mb : List α) (t : Array UInt16) (i j : Nat) : Prop where
  size : t.size = (ma.length + 1) * (mb.length + 1)
  exact : ∀ r ≤ ma.length, ∀ c ≤ mb.length, (i < r ∨ r = i ∧ j ≤ c ∨ c = mb.length) →
    Longest (ma.drop r) (mb.drop c) (entry mb t r c)

/-- Every cell has the length of a longest common subsequence of what is left. -/
def Exact (ma mb : List α) (t : Array UInt16) : Prop :=
  ∀ i ≤ ma.length, ∀ j ≤ mb.length, Longest (ma.drop i) (mb.drop j) (entry mb t i j)

/-- The length of a common subsequence is below both numbers of lines, and fits 16 bits. -/
theorem lt_size_of_le {n : Nat} (small : (ma.length + 1) * (mb.length + 1) ≤ MAX_CELLS)
    (first : n ≤ ma.length) (second : n ≤ mb.length) : n < UInt16.size := by
  by_contra large
  have large : 65536 ≤ n := not_lt.mp large
  have many : (65536 + 1) * (65536 + 1) ≤ (ma.length + 1) * (mb.length + 1) :=
    Nat.mul_le_mul (by omega) (by omega)
  unfold MAX_CELLS at small
  omega

theorem filled_start (ma mb : List α) :
    Filled ma mb (Array.replicate ((ma.length + 1) * (mb.length + 1)) 0) ma.length 0 := by
  constructor
  · rw [Array.size_replicate]
  · intro r rows c columns done
    have zero : entry mb (Array.replicate ((ma.length + 1) * (mb.length + 1)) 0) r c = 0 := by
      rw [entry, Array.getElem?_replicate, if_pos (cellIndex_lt rows columns)]
      rfl
    rw [zero]
    by_cases border : c = mb.length
    · rw [border, List.drop_length]
      exact longest_nil_right _
    · obtain rfl : r = ma.length := by omega
      rw [List.drop_length]
      exact longest_nil_left _

end Cells

variable [DecidableEq α]

/-! ### Peeling -/

/-- Lists taken apart into what both begin with, what is between, and what both end with. -/
structure Peeled (a b ma mb : List α) (head tail : Nat) : Prop where
  old : a.take head ++ ma ++ a.drop (a.length - tail) = a
  new : a.take head ++ mb ++ a.drop (a.length - tail) = b
  bounds : head + tail ≤ a.length ∧ head + tail ≤ b.length
  /-- Nothing is left to peel off the middles. -/
  heads : ∀ x ∈ ma.head?, ∀ y ∈ mb.head?, x ≠ y
  lasts : ∀ x ∈ ma.getLast?, ∀ y ∈ mb.getLast?, x ≠ y

/-- What two lists begin with, and that they go on differently. -/
theorem exists_leading (a b : List α) : ∃ front restA restB, a = front ++ restA ∧
    b = front ++ restB ∧ front.length = leadingLen a b ∧
    ∀ x ∈ restA.head?, ∀ y ∈ restB.head?, x ≠ y := by
  induction a generalizing b with
  | nil => exact ⟨[], [], b, rfl, rfl, rfl, nofun⟩
  | cons first a ih =>
      cases b with
      | nil => exact ⟨[], first :: a, [], rfl, rfl, rfl, nofun⟩
      | cons other b =>
          rw [leadingLen]
          split
          · next same =>
              obtain ⟨front, restA, restB, rfl, rfl, length, differ⟩ := ih b
              refine ⟨first :: front, restA, restB, rfl, ?_, ?_, differ⟩
              · rw [same, List.cons_append]
              · rw [List.length_cons, length]
          · next differ =>
              refine ⟨[], first :: a, other :: b, rfl, rfl, rfl, ?_⟩
              rintro _ ⟨⟩ _ ⟨⟩
              exact differ

theorem peeled (a b : List α) : Peeled a b (ma a b) (mb a b) (head a b) (tail a b) := by
  obtain ⟨front, restA, restB, wholeA, wholeB, headEq, heads⟩ := exists_leading a b
  obtain ⟨back, leftA, leftB, reverseA, reverseB, tailEq, lasts⟩ :=
    exists_leading restA.reverse restB.reverse
  have backA : restA = leftA.reverse ++ back.reverse := by
    rw [← List.reverse_append, ← reverseA, List.reverse_reverse]
  have backB : restB = leftB.reverse ++ back.reverse := by
    rw [← List.reverse_append, ← reverseB, List.reverse_reverse]
  subst backA backB
  have headOf : head a b = front.length := headEq.symm
  have tailOf : tail a b = back.reverse.length := by
    rw [tail, headOf, wholeA, wholeB, List.drop_left, List.drop_left, ← tailEq,
      List.length_reverse]
  have middleA : ma a b = leftA.reverse := by
    rw [ma, headOf, tailOf, wholeA, ← List.append_assoc, List.length_append,
      Nat.add_sub_cancel, List.take_left, List.drop_left]
  have middleB : mb a b = leftB.reverse := by
    rw [mb, headOf, tailOf, wholeB, ← List.append_assoc, List.length_append,
      Nat.add_sub_cancel, List.take_left, List.drop_left]
  have start : a.take (head a b) = front := by
    rw [headOf, wholeA, List.take_left]
  have stop : a.drop (a.length - tail a b) = back.reverse := by
    rw [tailOf, wholeA, ← List.append_assoc, List.length_append, Nat.add_sub_cancel,
      List.drop_left]
  constructor
  · rw [start, stop, middleA, List.append_assoc, ← wholeA]
  · rw [start, stop, middleB, List.append_assoc, ← wholeB]
  · rw [headOf, tailOf, wholeA, wholeB]
    simp only [List.length_append]
    omega
  · rw [middleA, middleB]
    intro x isX y isY
    apply heads x _ y _
    · exact List.mem_head?_append_of_mem_head? isX
    · exact List.mem_head?_append_of_mem_head? isY
  · rw [middleA, middleB, List.getLast?_reverse, List.getLast?_reverse]
    exact lasts

/-! ### The table -/

section Table

variable {ma mb : List α} {t : Array UInt16} {i j : Nat}

/-- What is written to a cell, from the cells after it. -/
theorem longest_cell (row : i < ma.length) (column : j < mb.length)
    (both : Longest (ma.drop (i + 1)) (mb.drop (j + 1)) (entry mb t (i + 1) (j + 1)))
    (below : Longest (ma.drop (i + 1)) (mb.drop j) (entry mb t (i + 1) j))
    (right : Longest (ma.drop i) (mb.drop (j + 1)) (entry mb t i (j + 1))) :
    Longest (ma.drop i) (mb.drop j) (cell ma mb t i j) := by
  rw [List.drop_eq_getElem_cons row] at right ⊢
  rw [List.drop_eq_getElem_cons column] at below ⊢
  rw [cell, List.getElem?_eq_getElem row, List.getElem?_eq_getElem column]
  split
  · next same =>
      rw [Option.some.inj same]
      exact both.cons_self _
  · next differ =>
      exact below.cons_ne (fun same => differ (congrArg some same)) right

theorem Filled.fillCell (small : (ma.length + 1) * (mb.length + 1) ≤ MAX_CELLS)
    (row : i < ma.length) (column : j < mb.length) (filled : Filled ma mb t i (j + 1)) :
    Filled ma mb (fillCell ma mb i t j) i j := by
  have longest := longest_cell row column
    (filled.exact (i + 1) (by omega) (j + 1) (by omega) (by omega))
    (filled.exact (i + 1) (by omega) j (by omega) (by omega))
    (filled.exact i (by omega) (j + 1) (by omega) (by omega))
  have first := longest.le_length_left
  have second := longest.le_length_right
  rw [List.length_drop] at first second
  have fits : cell ma mb t i j < UInt16.size := lt_size_of_le small (by omega) (by omega)
  have bound : cellIndex mb i j < t.size := by
    rw [filled.size]
    exact cellIndex_lt row.le column.le
  constructor
  · rw [Since.fillCell, Array.size_setIfInBounds, filled.size]
  · intro r rows c columns done
    rw [Since.fillCell, entry_set columns column.le bound]
    split
    · next here =>
        rw [here.1, here.2, UInt16.toNat_ofNat_of_lt' fits]
        exact longest
    · exact filled.exact r rows c columns (by omega)

theorem Filled.fillRow (small : (ma.length + 1) * (mb.length + 1) ≤ MAX_CELLS)
    (row : i < ma.length) (filled : Filled ma mb t (i + 1) 0) :
    Filled ma mb (fillRow ma mb t i) i 0 := by
  have begun : Filled ma mb t i mb.length :=
    ⟨filled.size, fun r rows c columns done => filled.exact r rows c columns (by omega)⟩
  exact @countdown _ (fun j t => Filled ma mb t i j) (Since.fillCell ma mb i) _
    (fun j column t => Filled.fillCell small row column) t begun

theorem exact_table (small : (ma.length + 1) * (mb.length + 1) ≤ MAX_CELLS) :
    Exact ma mb (table ma mb) := by
  have filled : Filled ma mb (table ma mb) 0 0 :=
    @countdown _ (fun i t => Filled ma mb t i 0) (fillRow ma mb) _
      (fun i row t => Filled.fillRow small row) _ (filled_start ma mb)
  exact fun i rows j columns => filled.exact i rows j columns (by omega)

/-- Nothing of what is written to a cell is cut off. -/
theorem entry_eq_cell (exact : Exact ma mb t) (row : i < ma.length) (column : j < mb.length) :
    entry mb t i j = cell ma mb t i j :=
  (exact i row.le j column.le).unique (longest_cell row column
    (exact (i + 1) row (j + 1) column) (exact (i + 1) row j column.le)
    (exact i row.le (j + 1) column))

end Table

/-! ### The walk -/

section Walk

variable {head : Nat} {ma mb : List α} {t : Array UInt16}

/-- A walk from some lines of both middles on reads off the rest of them, and keeps as many
lines as can be kept. -/
structure Walked (head : Nat) (ma mb : List α) (t : Array UInt16) (i j : Nat)
    (ops : List (Op α)) : Prop where
  reads : Reads (head + i) (head + j) ops (ma.drop i) (mb.drop j)
  count : kept ops = entry mb t i j

section Step

omit [DecidableEq α]

variable {i j : Nat} {ops : List (Op α)}

theorem Walked.done (exact : Exact ma mb t) : Walked head ma mb t ma.length mb.length [] := by
  have nothing := exact _ (le_refl _) _ (le_refl _)
  refine ⟨?_, ?_⟩
  · rw [List.drop_length, List.drop_length]
    exact Reads.nil _ _
  · rw [List.drop_length, List.drop_length] at nothing
    exact (longest_nil_left []).unique nothing

theorem Walked.context (left : i < ma.length) (right : j < mb.length) (same : ma[i] = mb[j])
    (value : entry mb t i j = entry mb t (i + 1) (j + 1) + 1)
    (walked : Walked head ma mb t (i + 1) (j + 1) ops) :
    Walked head ma mb t i j
      (⟨.context, some (head + i + 1), some (head + j + 1), ma[i]⟩ :: ops) := by
  refine ⟨?_, ?_⟩
  · rw [List.drop_eq_getElem_cons left, List.drop_eq_getElem_cons right, ← same]
    exact (Reads.context _ _ _).append walked.reads
  · rw [value, ← walked.count]
    exact (kept_append [_] _).trans (Nat.add_comm _ _)

theorem Walked.removed (left : i < ma.length) (value : entry mb t i j = entry mb t (i + 1) j)
    (walked : Walked head ma mb t (i + 1) j ops) :
    Walked head ma mb t i j (⟨.removed, some (head + i + 1), none, ma[i]⟩ :: ops) := by
  refine ⟨?_, ?_⟩
  · rw [List.drop_eq_getElem_cons left]
    exact (Reads.removed _ (head + j) _).append walked.reads
  · rw [value, ← walked.count]
    exact (kept_append [_] _).trans (Nat.zero_add _)

theorem Walked.added (right : j < mb.length) (value : entry mb t i j = entry mb t i (j + 1))
    (walked : Walked head ma mb t i (j + 1) ops) :
    Walked head ma mb t i j (⟨.added, none, some (head + j + 1), mb[j]⟩ :: ops) := by
  refine ⟨?_, ?_⟩
  · rw [List.drop_eq_getElem_cons right]
    exact (Reads.added (head + i) _ _).append walked.reads
  · rw [value, ← walked.count]
    exact (kept_append [_] _).trans (Nat.zero_add _)

/-- With nothing left of the new middle, nothing can be kept. -/
theorem entry_last_column (exact : Exact ma mb t) (row : i ≤ ma.length) :
    entry mb t i mb.length = 0 := by
  have here := exact i row _ (le_refl _)
  rw [List.drop_length] at here
  exact here.unique (longest_nil_right _)

theorem entry_last_row (exact : Exact ma mb t) (column : j ≤ mb.length) :
    entry mb t ma.length j = 0 := by
  have here := exact _ (le_refl _) j column
  rw [List.drop_length] at here
  exact here.unique (longest_nil_left _)

end Step

/-- The walk reads off the rest of both middles, and keeps as many lines as can be kept. -/
theorem trace_spec (exact : Exact ma mb t) (steps i j : Nat) (row : i ≤ ma.length)
    (column : j ≤ mb.length) (enough : (ma.length - i) + (mb.length - j) ≤ steps) :
    Walked head ma mb t i j (trace head ma mb t steps i j) := by
  induction steps generalizing i j with
  | zero =>
      obtain rfl : i = ma.length := by omega
      obtain rfl : j = mb.length := by omega
      exact Walked.done exact
  | succ steps ih =>
      rw [trace]
      by_cases left : i < ma.length
      · by_cases right : j < mb.length
        · have value := entry_eq_cell exact left right
          rw [cell, List.getElem?_eq_getElem left, List.getElem?_eq_getElem right] at value
          rw [List.getElem?_eq_getElem left, List.getElem?_eq_getElem right]
          dsimp only
          split
          · next same =>
              rw [if_pos (congrArg some same)] at value
              exact (ih (i + 1) (j + 1) left right (by omega)).context left right same value
          · next differ =>
              rw [if_neg fun same => differ (Option.some.inj same)] at value
              split
              · next more =>
                  rw [max_eq_left more] at value
                  exact (ih (i + 1) j left column (by omega)).removed left value
              · next less =>
                  rw [max_eq_right (not_le.mp less).le] at value
                  exact (ih i (j + 1) row right (by omega)).added right value
        · obtain rfl : j = mb.length := by omega
          rw [List.getElem?_eq_getElem left, List.getElem?_eq_none (le_refl _)]
          refine (ih (i + 1) mb.length left (le_refl _) (by omega)).removed left ?_
          rw [entry_last_column exact row, entry_last_column exact left]
      · obtain rfl : i = ma.length := by omega
        rw [List.getElem?_eq_none (le_refl _)]
        by_cases right : j < mb.length
        · rw [List.getElem?_eq_getElem right]
          refine (ih ma.length (j + 1) (le_refl _) right (by omega)).added right ?_
          rw [entry_last_row exact column, entry_last_row exact right]
        · obtain rfl : j = mb.length := by omega
          rw [List.getElem?_eq_none (le_refl _)]
          exact Walked.done exact

end Walk

/-! ### The script -/

/-- A script reads off both lists, and keeps as many lines as can be kept. -/
theorem script_spec {a b : List α} {ops : List (Op α)} (made : script a b = some ops) :
    Reads 0 0 ops a b ∧ Longest a b (kept ops) := by
  unfold script at made
  dsimp only at made
  split at made
  · cases made
  next small =>
    cases made
    have exact := exact_table (not_lt.mp small)
    obtain ⟨old, new, bounds, -, -⟩ := peeled a b
    have headLength : (a.take (head a b)).length = head a b := by
      rw [List.length_take]
      omega
    have tailLength : (a.drop (a.length - tail a b)).length = tail a b := by
      rw [List.length_drop]
      omega
    have frontA : a.length - tail a b = (a.take (head a b) ++ ma a b).length := by
      have whole := congrArg List.length old
      rw [List.length_append, tailLength] at whole
      omega
    have frontB : b.length - tail a b = (a.take (head a b) ++ mb a b).length := by
      have whole := congrArg List.length new
      rw [List.length_append, tailLength] at whole
      omega
    obtain ⟨walk, count⟩ := @trace_spec _ _ (head a b) _ _ _ exact
      ((ma a b).length + (mb a b).length) 0 0 (Nat.zero_le _) (Nat.zero_le _) (by omega)
    have longest := exact 0 (Nat.zero_le _) 0 (Nat.zero_le _)
    rw [List.drop_zero, List.drop_zero] at walk longest
    rw [← count] at longest
    constructor
    · have first := Reads.common 0 0 (a.take (head a b))
      have middle : Reads (0 + (a.take (head a b)).length) (0 + (a.take (head a b)).length)
          (trace (head a b) (ma a b) (mb a b) (table (ma a b) (mb a b))
            ((ma a b).length + (mb a b).length) 0 0) (ma a b) (mb a b) := by
        rw [headLength, Nat.zero_add]
        exact walk
      have last : Reads (0 + (a.take (head a b) ++ ma a b).length)
          (0 + (a.take (head a b) ++ mb a b).length)
          (common (a.length - tail a b) (b.length - tail a b) (a.drop (a.length - tail a b)))
          (a.drop (a.length - tail a b)) (a.drop (a.length - tail a b)) := by
        rw [Nat.zero_add, Nat.zero_add, ← frontA, ← frontB]
        exact Reads.common _ _ _
      have whole := (first.append middle).append last
      rwa [old, new] at whole
    · have between := longest.between (a.take (head a b)) (a.drop (a.length - tail a b))
      rw [old, new] at between
      rw [kept_append, kept_append, kept_common, kept_common]
      exact between

/-- There is no script exactly if the table would be too large. -/
theorem script_eq_none_iff (a b : List α) :
    script a b = none ↔ MAX_CELLS < ((ma a b).length + 1) * ((mb a b).length + 1) := by
  unfold script
  dsimp only
  split
  · next large => exact iff_of_true rfl large
  · next small => exact iff_of_false nofun small

/-- There is a script unless the table for the middles, with what both lists begin and end
with peeled off, would have too many cells; it reads off both lists in order and keeps as
many lines as can be kept, and every cell of the table has the number that was computed for
it. -/
theorem script_correct (a b : List α) :
    Peeled a b (ma a b) (mb a b) (head a b) (tail a b) ∧
    (script a b = none ↔ 4000000 < ((ma a b).length + 1) * ((mb a b).length + 1)) ∧
    ∀ ops, script a b = some ops →
      Reads 0 0 ops a b ∧ Longest a b (kept ops) ∧
      ∀ i < (ma a b).length, ∀ j < (mb a b).length,
        entry (mb a b) (table (ma a b) (mb a b)) i j =
          cell (ma a b) (mb a b) (table (ma a b) (mb a b)) i j := by
  refine ⟨peeled a b, script_eq_none_iff a b, fun ops made => ?_⟩
  obtain ⟨reads, longest⟩ := script_spec made
  refine ⟨reads, longest, fun i row j column => ?_⟩
  have small : ¬ MAX_CELLS < ((ma a b).length + 1) * ((mb a b).length + 1) := by
    rw [← script_eq_none_iff, made]
    nofun
  exact entry_eq_cell (exact_table (not_lt.mp small)) row column

/-- Two lines change places: one of them is kept. -/
theorem script_correct_swap : ∃ ops, script [1, 2, 3] [2, 1, 3] = some ops ∧
    Reads 0 0 ops [1, 2, 3] [2, 1, 3] ∧ Longest [1, 2, 3] [2, 1, 3] 2 :=
  ⟨_, rfl, ((script_correct [1, 2, 3] [2, 1, 3]).2.2 _ rfl).1,
    ((script_correct [1, 2, 3] [2, 1, 3]).2.2 _ rfl).2.1⟩

end Since

end Hermione
