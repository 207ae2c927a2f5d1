import Mathlib.Data.List.AList

/-!
# Filtering association lists

Mathlib's association lists have lookup, insertion and erasure.  A cache that
drops its stale entries also needs to keep only the entries passing a test.
-/

namespace AList

variable {α : Type*} {β : α → Type*}

/-- The number of keys bound. -/
def size (map : AList β) : Nat :=
  map.entries.length

/-- Keep only the entries that pass a test. -/
def retain (keep : ∀ key, β key → Bool) (map : AList β) : AList β :=
  ⟨map.entries.filter fun entry => keep entry.1 entry.2,
    map.nodupKeys.sublist List.filter_sublist⟩

variable [DecidableEq α]

theorem lookup_retain (keep : ∀ key, β key → Bool) (map : AList β) (key : α) :
    (map.retain keep).lookup key = (map.lookup key).filter (keep key) := by
  apply Option.ext
  intro value
  rw [Option.filter_eq_some_iff, ← Option.mem_def, ← Option.mem_def,
    mem_lookup_iff, mem_lookup_iff]
  simp [retain]

end AList
