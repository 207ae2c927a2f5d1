import Mathlib.Data.List.Range
import Mathlib.Data.List.Basic

/-!
# Reading a list a page at a time

A reader that asks for one page after another of something that grows meanwhile
sees each page as it is when it is asked for.
-/

namespace Paging

variable {α : Type*}

/-- A page of a list, by its number. -/
def page (size number : Nat) (items : List α) : List α :=
  (items.drop (number * size)).take size

@[simp]
theorem map_page {β : Type*} (f : α → β) (size number : Nat) (items : List α) :
    (page size number items).map f = page size number (items.map f) := by
  simp [page, List.map_take, List.map_drop]

theorem page_range (size number count : Nat) :
    page size number (List.range count) =
      List.range' (number * size) (min size (count - number * size)) := by
  rw [page, List.range_eq_range', List.drop_range']
  simp only [Nat.zero_add, Nat.mul_one]
  rcases Nat.le_total (count - number * size) size with short | long
  · rw [List.take_range'_of_length_le short, min_eq_right short]
  · rw [List.take_range'_of_length_ge long, min_eq_left long]

theorem mem_page_range {size number count index : Nat} :
    index ∈ page size number (List.range count) ↔
      number * size ≤ index ∧ index < number * size + size ∧ index < count := by
  rw [page_range, List.mem_range'_1]
  omega

/-- Leading numbers from before a page, and that page of the numbers there are,
make up the numbers wanted up to the page's end exactly when the leading ones are
right and the page's numbers that are there are those that are wanted. -/
theorem append_page_range_iff {seen : List Nat} {size number there wanted : Nat}
    (positive : 0 < size) (before : ∀ index ∈ seen, index < number * size) :
    seen ++ page size number (List.range there) =
        List.range (min wanted (number * size + size)) ↔
      seen = List.range (min wanted (number * size)) ∧
        ∀ index, number * size ≤ index → index < number * size + size →
          (index < there ↔ index < wanted) := by
  rw [page_range]
  generalize number * size = start at *
  constructor
  · intro whole
    rw [List.range_eq_range'] at whole
    obtain ⟨count, within, leading, rest⟩ := List.range'_eq_append_iff.mp whole.symm
    have lengths := congrArg List.length rest
    simp only [List.length_range', Nat.zero_add, Nat.mul_one] at lengths rest
    -- A page that holds anything begins at its own first number.
    have boundary : count = min wanted start := by
      rcases Nat.eq_zero_or_pos (min size (there - start)) with none | some
      · have all_before : count ≤ start := by
          by_contra past
          have := before start (by rw [leading, List.mem_range'_1]; omega)
          omega
        omega
      · have first := congrArg List.head? rest
        rw [List.head?_range', List.head?_range', if_neg (by omega), if_neg (by omega)] at first
        have := Option.some.inj first
        omega
    refine ⟨?_, ?_⟩
    · rw [leading, boundary, List.range_eq_range']
    · intro index after inside
      omega
  · rintro ⟨rfl, window⟩
    rw [List.range_eq_range', List.range_eq_range']
    by_cases past : wanted ≤ start
    · have none : there ≤ start := by
        have := window start (Nat.le_refl _) (by omega)
        omega
      rw [min_eq_left past, show there - start = 0 by omega,
        show min wanted (start + size) = wanted by omega]
      simp
    · rw [min_eq_right (by omega : start ≤ wanted)]
      have upto : start + min size (there - start) = min wanted (start + size) := by
        have last := window (start + size - 1) (by omega) (by omega)
        by_cases full : start + size ≤ wanted
        · omega
        · have edge := window wanted (by omega) (by omega)
          have inner := window (wanted - 1) (by omega) (by omega)
          omega
      rw [← upto]
      have joined := @List.range'_append_1 0 start (min size (there - start))
      rw [Nat.zero_add] at joined
      exact joined

end Paging
