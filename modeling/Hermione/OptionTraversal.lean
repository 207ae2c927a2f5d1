import Mathlib.Data.List.Basic

/-!
# Lists of fallible results

What is computed for each value of a list, if it is for all of them.
-/

namespace OptionTraversal

variable {α β : Type*} {f : α → Option β} {values : List α}

theorem mapM_cons_eq_some_iff {value : α} {results : List β} :
    (value :: values).mapM f = some results ↔
      ∃ first rest, f value = some first ∧ values.mapM f = some rest ∧ first :: rest = results := by
  rw [List.mapM_cons]
  constructor
  · intro made
    obtain ⟨first, one, made⟩ := Option.bind_eq_some_iff.mp made
    obtain ⟨rest, more, made⟩ := Option.bind_eq_some_iff.mp made
    exact ⟨first, rest, one, more, Option.some.inj made⟩
  · rintro ⟨first, rest, one, more, rfl⟩
    rw [one, more]
    rfl

/-- There is a result for each value exactly if there are results for the list. -/
theorem exists_mapM_iff :
    (∃ results, values.mapM f = some results) ↔
      ∀ value ∈ values, ∃ result, f value = some result := by
  induction values with
  | nil => exact ⟨fun _ => List.forall_mem_nil _, fun _ => ⟨[], rfl⟩⟩
  | cons value values ih =>
      rw [List.forall_mem_cons, ← ih]
      constructor
      · rintro ⟨results, made⟩
        obtain ⟨first, rest, one, more, -⟩ := mapM_cons_eq_some_iff.mp made
        exact ⟨⟨first, one⟩, rest, more⟩
      · rintro ⟨⟨first, one⟩, rest, more⟩
        exact ⟨first :: rest, mapM_cons_eq_some_iff.mpr ⟨first, rest, one, more, rfl⟩⟩

/-- Every result is the one of some value. -/
theorem exists_of_mem_results {results : List β} (made : values.mapM f = some results) {result : β}
    (member : result ∈ results) : ∃ value ∈ values, f value = some result := by
  induction values generalizing results with
  | nil =>
      cases made
      cases member
  | cons value values ih =>
      obtain ⟨first, rest, one, more, rfl⟩ := mapM_cons_eq_some_iff.mp made
      rw [List.exists_mem_cons_iff]
      obtain rfl | later := List.mem_cons.mp member
      · exact .inl one
      · exact .inr (ih more later)

end OptionTraversal
