import Mathlib.Data.List.Basic
import Mathlib.Order.Bounds.Basic
import Mathlib.Order.MinMax

/-!
# Longest common subsequences

The length of a longest common subsequence, from those of shorter lists: an element that
both lists begin with may be taken, and of two that differ one is passed over.  What both
lists begin or end with counts in full.
-/

namespace CommonSubsequences

variable {α : Type*} {a b front back : List α} {m n : Nat}

def commonLengths (a b : List α) : Set Nat :=
  {length | ∃ common : List α, common.Sublist a ∧ common.Sublist b ∧ common.length = length}

/-- The length of a longest common subsequence. -/
def Longest (a b : List α) (n : Nat) : Prop :=
  IsGreatest (commonLengths a b) n

theorem longest_nil_left (b : List α) : Longest [] b 0 := by
  refine ⟨⟨[], List.Sublist.refl [], List.nil_sublist b, rfl⟩, ?_⟩
  rintro _ ⟨common, left, -, rfl⟩
  rw [List.sublist_nil.mp left, List.length_nil]

theorem commonLengths_comm (a b : List α) : commonLengths a b = commonLengths b a :=
  Set.ext fun _ => exists_congr fun _ => and_left_comm

theorem Longest.symm (longest : Longest a b n) : Longest b a n := by
  rw [Longest, commonLengths_comm]
  exact longest

theorem longest_nil_right (a : List α) : Longest a [] 0 :=
  (longest_nil_left a).symm

/-- What both lists begin with is taken. -/
theorem Longest.cons_self (longest : Longest a b n) (x : α) :
    Longest (x :: a) (x :: b) (n + 1) := by
  obtain ⟨⟨common, left, right, length⟩, greatest⟩ := longest
  refine ⟨⟨x :: common, left.cons_cons x, right.cons_cons x, by rw [List.length_cons, length]⟩, ?_⟩
  rintro _ ⟨other, otherLeft, otherRight, rfl⟩
  have rest : other.tail.length ≤ n := greatest ⟨_, otherLeft.tail, otherRight.tail, rfl⟩
  rw [List.length_tail] at rest
  omega

/-- Of two elements that differ, one is passed over. -/
theorem Longest.cons_ne {x y : α} (differ : x ≠ y) (left : Longest a (y :: b) m)
    (right : Longest (x :: a) b n) : Longest (x :: a) (y :: b) (max m n) := by
  constructor
  · obtain ⟨⟨one, oneLeft, oneRight, oneLength⟩, -⟩ := left
    obtain ⟨⟨two, twoLeft, twoRight, twoLength⟩, -⟩ := right
    rcases max_choice m n with larger | larger
    · exact ⟨one, oneLeft.cons x, oneRight, oneLength.trans larger.symm⟩
    · exact ⟨two, twoLeft, twoRight.cons y, twoLength.trans larger.symm⟩
  · rintro _ ⟨common, commonLeft, commonRight, rfl⟩
    rcases List.sublist_cons_iff.mp commonLeft with without | ⟨rest, rfl, -⟩
    · exact le_max_of_le_left (left.2 ⟨common, without, commonRight, rfl⟩)
    · rcases List.sublist_cons_iff.mp commonRight with without | ⟨_, same, -⟩
      · exact le_max_of_le_right (right.2 ⟨_, commonLeft, without, rfl⟩)
      · exact absurd (List.cons.inj same).1 differ

theorem Longest.append_left (longest : Longest a b n) (front : List α) :
    Longest (front ++ a) (front ++ b) (front.length + n) := by
  induction front with
  | nil => rwa [List.nil_append, List.nil_append, List.length_nil, Nat.zero_add]
  | cons x front ih =>
      rw [List.length_cons, Nat.add_right_comm]
      exact ih.cons_self x

theorem Longest.reverse (longest : Longest a b n) : Longest a.reverse b.reverse n := by
  obtain ⟨⟨common, left, right, length⟩, greatest⟩ := longest
  refine ⟨⟨common.reverse, left.reverse, right.reverse, by rw [List.length_reverse, length]⟩, ?_⟩
  rintro _ ⟨other, otherLeft, otherRight, rfl⟩
  exact greatest ⟨other.reverse, List.sublist_reverse_iff.mp otherLeft,
    List.sublist_reverse_iff.mp otherRight, List.length_reverse⟩

/-- What both lists begin and end with counts in full. -/
theorem Longest.between (longest : Longest a b n) (front back : List α) :
    Longest (front ++ a ++ back) (front ++ b ++ back) (front.length + n + back.length) := by
  have peeled := (longest.append_left front).reverse.append_left back.reverse
  have whole := peeled.reverse
  rw [← List.reverse_append, ← List.reverse_append, List.reverse_reverse, List.reverse_reverse,
    List.length_reverse, Nat.add_comm back.length] at whole
  exact whole

theorem Longest.le_length_left (longest : Longest a b n) : n ≤ a.length := by
  obtain ⟨common, left, -, rfl⟩ := longest.1
  exact left.length_le

theorem Longest.le_length_right (longest : Longest a b n) : n ≤ b.length :=
  longest.symm.le_length_left

end CommonSubsequences
