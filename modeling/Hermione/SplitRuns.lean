import Mathlib.Data.List.SplitBy

/-!
# Runs of related neighbours

`List.splitBy` takes a list apart into runs in which each element is related to the
next.  A list that grows at its end either lengthens its last run or begins another,
and where two runs meet, the elements are not related.
-/

namespace SplitRuns

variable {α : Type*} {related : α → α → Bool} {entries run : List α} {closed : List (List α)}
  {last entry : α}

/-- An element that is related to the last one joins its run. -/
theorem splitBy_concat_related (runs : entries.splitBy related = closed ++ [run])
    (ends : run.getLast? = some last) (close : related last entry = true) :
    (entries ++ [entry]).splitBy related = closed ++ [run ++ [entry]] := by
  rw [List.splitBy_eq_iff] at runs ⊢
  obtain ⟨all, filled, chains, breaks⟩ := runs
  refine ⟨by simp [all], ?_, ?_, ?_⟩
  · simp only [List.mem_append, List.mem_singleton, not_or] at filled ⊢
    exact ⟨filled.1, by simp⟩
  · intro one member
    rcases List.mem_append.mp member with before | here
    · exact chains one (List.mem_append_left _ before)
    · rw [List.mem_singleton.mp here, List.isChain_append]
      refine ⟨chains run (by simp), List.isChain_singleton _, ?_⟩
      intro left found right same
      rw [ends] at found
      cases found
      cases same
      exact close
  · have filledRun : run ≠ [] := by
      rintro rfl
      cases ends
    rw [List.isChain_append] at breaks ⊢
    refine ⟨breaks.1, List.isChain_singleton _, ?_⟩
    intro left found right same
    cases same
    obtain ⟨filledLeft, _, apart⟩ := breaks.2.2 left found run rfl
    refine ⟨filledLeft, by simp, ?_⟩
    rwa [List.head_append_of_ne_nil filledRun]

/-- Another one begins a run. -/
theorem splitBy_concat_unrelated (ends : entries.getLast? = some last)
    (apart : related last entry = false) :
    (entries ++ [entry]).splitBy related = entries.splitBy related ++ [[entry]] := by
  apply List.splitBy_append_cons
  intro other found
  rw [ends] at found
  cases found
  exact apart

variable {before after : List (List α)} {first : α}

/-- No run begins with an element that the one before it is related to. -/
theorem unrelated_before (runs : entries.splitBy related = before ++ run :: after)
    (ends : before.flatten.getLast? = some last) (begins : run.head? = some first) :
    related last first = false := by
  rcases List.eq_nil_or_concat before with rfl | ⟨front, previous, rfl⟩
  · cases ends
  · rw [List.concat_eq_append] at runs ends
    have filled : previous ≠ [] :=
      List.ne_nil_of_mem_splitBy (r := related) (l := entries) (by rw [runs]; simp)
    have breaks := List.isChain_getLast_head_splitBy related entries
    rw [runs, List.append_assoc, List.singleton_append, List.isChain_append] at breaks
    obtain ⟨_, _, apart⟩ := (List.isChain_cons_cons.mp breaks.2.1).1
    rw [List.flatten_append, List.flatten_singleton,
      List.getLast?_append_of_ne_nil _ filled, List.getLast?_eq_some_getLast filled] at ends
    have begins' := List.head_eq_iff_head?_eq_some (by assumption) |>.mpr begins
    rw [← Option.some.inj ends, ← begins']
    exact apart

/-- No run ends with an element that is related to the one after it. -/
theorem unrelated_after (runs : entries.splitBy related = before ++ run :: after)
    (ends : run.getLast? = some last) (begins : after.flatten.head? = some first) :
    related last first = false := by
  cases after with
  | nil => cases begins
  | cons next rest =>
      have filled : next ≠ [] :=
        List.ne_nil_of_mem_splitBy (r := related) (l := entries) (by rw [runs]; simp)
      rw [List.flatten_cons, List.head?_append_of_ne_nil _ filled] at begins
      have shifted : entries.splitBy related = (before ++ [run]) ++ next :: rest := by
        rw [runs, List.append_assoc, List.singleton_append]
      apply unrelated_before shifted _ begins
      rw [List.flatten_append, List.flatten_singleton, List.getLast?_append, ends]
      rfl

end SplitRuns
