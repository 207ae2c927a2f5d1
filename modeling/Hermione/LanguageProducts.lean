import Mathlib.Computability.Language

/-!
# Products of languages

A pattern is a list of languages, one after the other.  Two patterns are told apart by a
measure of words that grows by at most one with every part that one of them reads, and
without bound in some part of the other.
-/

namespace LanguageProducts

variable {α : Type*}

theorem exists_mem_prod {languages : List (Language α)}
    (inhabited : ∀ language ∈ languages, ∃ word, word ∈ language) :
    ∃ word, word ∈ languages.prod := by
  induction languages with
  | nil => exact ⟨[], Language.nil_mem_one⟩
  | cons language languages ih =>
      obtain ⟨⟨part, here⟩, there⟩ := List.forall_mem_cons.mp inhabited
      obtain ⟨rest, others⟩ := ih there
      exact ⟨part ++ rest, Language.append_mem_mul here others⟩

/-- Some word has a given word of one of the languages in it. -/
theorem exists_append_mem_prod {languages : List (Language α)}
    (inhabited : ∀ language ∈ languages, ∃ word, word ∈ language) {language : Language α}
    (member : language ∈ languages) {part : List α} (word : part ∈ language) :
    ∃ front back, front ++ part ++ back ∈ languages.prod := by
  obtain ⟨before, after, rfl⟩ := List.append_of_mem member
  obtain ⟨first, rest⟩ := List.forall_mem_append.mp inhabited
  obtain ⟨front, here⟩ := exists_mem_prod first
  obtain ⟨back, there⟩ := exists_mem_prod (List.forall_mem_cons.mp rest).2
  refine ⟨front, back, ?_⟩
  rw [List.prod_append, List.prod_cons, List.append_assoc]
  exact Language.append_mem_mul here (Language.append_mem_mul word there)

section Measure

variable (measure : List α → ℕ)

/-- The measure is at most the number of the languages. -/
theorem measure_le_length (zero : measure [] = 0) {languages : List (Language α)}
    (bounded : ∀ language ∈ languages, ∀ part ∈ language, ∀ rest,
      measure (part ++ rest) ≤ measure rest + 1) {word : List α}
    (member : word ∈ languages.prod) : measure word ≤ languages.length := by
  induction languages generalizing word with
  | nil =>
      rw [List.prod_nil, Language.mem_one] at member
      rw [member, zero]
      exact Nat.zero_le _
  | cons language languages ih =>
      obtain ⟨here, there⟩ := List.forall_mem_cons.mp bounded
      rw [List.prod_cons, Language.mem_mul] at member
      obtain ⟨part, first, rest, others, rfl⟩ := member
      calc measure (part ++ rest)
          ≤ measure rest + 1 := here part first rest
        _ ≤ languages.length + 1 := Nat.succ_le_succ (ih there others)

/-- A product with unbounded words has one that a bounded product does not have. -/
theorem exists_mem_not_mem (zero : measure [] = 0)
    (inner : ∀ front part back, measure part ≤ measure (front ++ part ++ back))
    {bounds others : List (Language α)}
    (bounded : ∀ language ∈ bounds, ∀ part ∈ language, ∀ rest,
      measure (part ++ rest) ≤ measure rest + 1)
    (inhabited : ∀ language ∈ others, ∃ word, word ∈ language) {language : Language α}
    (member : language ∈ others) (unbounded : ∀ n, ∃ part ∈ language, n ≤ measure part) :
    ∃ word ∈ others.prod, word ∉ bounds.prod := by
  obtain ⟨part, word, long⟩ := unbounded (bounds.length + 1)
  obtain ⟨front, back, whole⟩ := exists_append_mem_prod inhabited member word
  refine ⟨_, whole, fun bound => ?_⟩
  have most := measure_le_length measure zero bounded bound
  have least := inner front part back
  omega

end Measure

end LanguageProducts
