import Mathlib.Algebra.BigOperators.Group.List.Basic
import Mathlib.Algebra.Order.Group.Int
import Mathlib.Data.List.AList
import Mathlib.Tactic.Abel

/-!
# Tallies

Hash maps whose entries are counted up: an amount is credited to a key, whose
entry is made when it is first needed.  The sum of all entries follows the
amounts credited, and so does each entry.
-/

namespace Tally

section Weights

variable {Key Value : Type*} [DecidableEq Key] (weight : Value → Int)

/-- The weights of all entries together. -/
def weigh (map : AList fun _ : Key => Value) : Int :=
  (map.entries.map fun entry => weight entry.2).sum

theorem sum_kerase (key : Key) (entries : List (Sigma fun _ : Key => Value)) :
    (entries.map fun entry => weight entry.2).sum =
      ((entries.kerase key).map fun entry => weight entry.2).sum +
        ((entries.dlookup key).map weight).getD 0 := by
  induction entries with
  | nil => rfl
  | cons entry entries ih =>
      obtain ⟨other, value⟩ := entry
      by_cases same : key = other
      · subst same
        simp [add_comm]
      · have kept : (⟨other, value⟩ :: entries : List (Sigma fun _ : Key => Value)).kerase key =
            ⟨other, value⟩ :: entries.kerase key := List.kerase_cons_ne same
        rw [kept, List.dlookup_cons_ne _ _ same, List.map_cons, List.map_cons,
          List.sum_cons, List.sum_cons, ih, add_assoc]

theorem weigh_insert (map : AList fun _ : Key => Value) (key : Key) (value : Value) :
    weigh weight (map.insert key value) =
      weigh weight map + (weight value - ((map.lookup key).map weight).getD 0) := by
  unfold weigh
  rw [AList.entries_insert, List.map_cons, List.sum_cons, sum_kerase weight key map.entries,
    AList.lookup]
  abel

end Weights

variable {Key : Type*} [DecidableEq Key]

/-- What a key was credited with. -/
def count (tally : AList fun _ : Key => Int) (key : Key) : Int :=
  (tally.lookup key).getD 0

/-- Credit a key with an amount. -/
def credit (tally : AList fun _ : Key => Int) (key : Key) (amount : Int) :
    AList fun _ : Key => Int :=
  tally.insert key (count tally key + amount)

@[simp]
theorem count_empty (key : Key) : count (∅ : AList fun _ : Key => Int) key = 0 :=
  rfl

theorem count_credit (tally : AList fun _ : Key => Int) (key other : Key) (amount : Int) :
    count (credit tally key amount) other =
      count tally other + if other = key then amount else 0 := by
  unfold credit
  by_cases same : other = key
  · subst same
    rw [if_pos rfl, count, AList.lookup_insert]
    rfl
  · rw [if_neg same, add_zero, count, AList.lookup_insert_ne same, count]

theorem weigh_credit (tally : AList fun _ : Key => Int) (key : Key) (amount : Int) :
    weigh id (credit tally key amount) = weigh id tally + amount := by
  unfold credit
  rw [weigh_insert, Option.map_id, id_eq, count, id_eq]
  abel

/-- Every entry is positive. -/
def Positive (tally : AList fun _ : Key => Int) : Prop :=
  ∀ key amount, tally.lookup key = some amount → 0 < amount

theorem positive_credit {tally : AList fun _ : Key => Int} (positive : Positive tally)
    (key : Key) {amount : Int} (more : 0 < amount) :
    Positive (credit tally key amount) := by
  intro other total found
  unfold credit at found
  by_cases same : other = key
  · subst same
    rw [AList.lookup_insert, Option.some.injEq] at found
    have before : 0 ≤ count tally other := by
      unfold count
      cases bound : tally.lookup other with
      | none => rfl
      | some amount => exact (positive other amount bound).le
    omega
  · rw [AList.lookup_insert_ne same] at found
    exact positive other total found

/-- An amount, if it is more than nothing. -/
def some? (amount : Int) : Option Int :=
  (some amount).filter fun amount => 0 < amount

/-- What a tally holds of a key that was credited with more than nothing. -/
theorem filter_lookup (tally : AList fun _ : Key => Int) (key : Key) :
    ((tally.lookup key).filter fun amount => 0 < amount) = some? (count tally key) := by
  unfold count some?
  cases tally.lookup key with
  | none => rfl
  | some amount => rfl

theorem lookup_of_positive {tally : AList fun _ : Key => Int} (only : Positive tally)
    (key : Key) : tally.lookup key = some? (count tally key) := by
  rw [← filter_lookup]
  cases bound : tally.lookup key with
  | none => rfl
  | some amount => simp [Option.filter, only key amount bound]

/-! ### Grouping -/

section Groups

variable {Value : Type*} (keyOf : Value → Key)

/-- The next value joins the others of its key. -/
def join (groups : AList fun _ : Key => List Value) (value : Value) :
    AList fun _ : Key => List Value :=
  groups.insert (keyOf value) ((groups.lookup (keyOf value)).getD [] ++ [value])

/-- The values of each key, in their order. -/
def group (values : List Value) : AList fun _ : Key => List Value :=
  values.foldl (join keyOf) ∅

theorem lookup_join (groups : AList fun _ : Key => List Value) (value : Value) (key : Key) :
    (join keyOf groups value).lookup key =
      if keyOf value = key then some ((groups.lookup key).getD [] ++ [value])
      else groups.lookup key := by
  unfold join
  by_cases same : keyOf value = key
  · subst same
    rw [if_pos rfl, AList.lookup_insert]
  · rw [if_neg same, AList.lookup_insert_ne (Ne.symm same)]

/-- A key that has values is bound to them, and no other key is bound. -/
theorem lookup_group (values : List Value) (key : Key) :
    (group keyOf values).lookup key =
      match values.filter fun value => keyOf value = key with
      | [] => none
      | first :: rest => some (first :: rest) := by
  have loop (groups : AList fun _ : Key => List Value) (values : List Value) :
      (values.foldl (join keyOf) groups).lookup key =
        match values.filter fun value => keyOf value = key with
        | [] => groups.lookup key
        | first :: rest => some ((groups.lookup key).getD [] ++ first :: rest) := by
    induction values generalizing groups with
    | nil => rfl
    | cons value values ih =>
        rw [List.foldl_cons, ih, lookup_join, List.filter_cons]
        by_cases same : keyOf value = key
        · simp only [same, if_true, decide_true]
          cases values.filter fun value => keyOf value = key with
          | nil => rfl
          | cons first rest => simp
        · simp only [same, if_false, decide_false, Bool.false_eq_true]
  rw [group, loop]
  rfl

theorem lookup_group_eq_some_iff {values : List Value} {key : Key} {members : List Value} :
    (group keyOf values).lookup key = some members ↔
      members ≠ [] ∧ values.filter (fun value => keyOf value = key) = members := by
  rw [lookup_group]
  constructor
  · intro found
    split at found
    · cases found
    · next first rest whole =>
        cases found
        exact ⟨List.cons_ne_nil _ _, whole⟩
  · rintro ⟨some, rfl⟩
    split
    · next none => exact absurd none some
    · next first rest whole => rw [whole]

end Groups

end Tally
