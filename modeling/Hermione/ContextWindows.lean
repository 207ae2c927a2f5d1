import Mathlib.Data.List.Basic
import Mathlib.Order.MinMax

/-!
# Changes with some context

Around each element of a list that is changed a window is opened, so many elements wide to
either side, and windows that touch are made one.  The list is then taken apart into the
windows and what is between them: there nothing is changed, and it is never empty.
-/

namespace ContextWindows

variable {α : Type*}

/-- The elements from one place up to another. -/
def part (list : List α) (start stop : Nat) : List α :=
  (list.take stop).drop start

section Parts

variable {list : List α} {start stop : Nat}

theorem length_part (within : stop ≤ list.length) :
    (part list start stop).length = stop - start := by
  rw [part, List.length_drop, List.length_take, min_eq_left within]

theorem getElem?_part (index : Nat) : (part list start stop)[index]? =
    if start + index < stop then list[start + index]? else none := by
  rw [part, List.getElem?_drop, List.getElem?_take]

theorem exists_of_mem_part {x : α} (member : x ∈ part list start stop) :
    ∃ index, start ≤ index ∧ index < stop ∧ list[index]? = some x := by
  obtain ⟨index, found⟩ := List.mem_iff_getElem?.mp member
  rw [getElem?_part] at found
  split at found
  · next within => exact ⟨start + index, by omega, within, found⟩
  · cases found

theorem part_append {middle : Nat} (first : start ≤ middle) (second : middle ≤ stop) :
    part list start middle ++ part list middle stop = part list start stop := by
  apply List.ext_getElem?
  intro index
  by_cases within : middle ≤ list.length
  · rw [List.getElem?_append, length_part within, getElem?_part, getElem?_part, getElem?_part]
    split
    · next early => rw [if_pos (by omega), if_pos (by omega)]
    · next late =>
        have place : middle + (index - (middle - start)) = start + index := by omega
        rw [place]
  · have whole : part list start middle = part list start stop := by
      rw [part, part, List.take_of_length_le (by omega), List.take_of_length_le (by omega)]
    have nothing : part list middle stop = [] := by
      rw [part, List.drop_eq_nil_iff, List.length_take]
      omega
    rw [whole, nothing, List.append_nil]

theorem drop_eq_part_append (order : start ≤ stop) :
    list.drop start = part list start stop ++ list.drop stop := by
  have later : list.drop stop = (list.drop start).drop (stop - start) := by
    rw [List.drop_drop, Nat.add_sub_cancel' order]
  rw [later, part, List.drop_take, List.take_append_drop]

end Parts

/-! ### Windows -/

/-- The windows around marks in order; one may be open. -/
def windows (context count : Nat) : Option (Nat × Nat) → List Nat → List (Nat × Nat)
  | none, [] => []
  | some window, [] => [window]
  | none, mark :: marks =>
      windows context count (some (mark - context, min (count - 1) (mark + context))) marks
  | some (first, last), mark :: marks =>
      if mark - context ≤ last + 1 then
        windows context count (some (first, min (count - 1) (mark + context))) marks
      else
        (first, last) ::
          windows context count (some (mark - context, min (count - 1) (mark + context))) marks

section Cuts

variable (changed : α → Bool) (context : Nat)

/-- The places that are changed. -/
def marks (list : List α) : List Nat :=
  (list.zipIdx.filter fun entry => changed entry.1).map Prod.snd

/-- Rows that begin and end with so much context around changes, or with less where nothing
precedes or follows. -/
structure Surrounded (gap before middle after rest : List α) : Prop where
  quietBefore : ∀ x ∈ before, changed x = false
  quietAfter : ∀ x ∈ after, changed x = false
  before_le : before.length ≤ context
  before_eq : before.length = context ∨ gap = []
  after_le : after.length ≤ context
  after_eq : after.length = context ∨ rest = []
  first : ∃ x ∈ middle.head?, changed x = true
  last : ∃ x ∈ middle.getLast?, changed x = true

/-- A list taken apart into rows, with nothing changed between them, and at least so many
elements before the first and one before each of the others. -/
def Cut : Nat → List α → List (List α) → Prop
  | _, list, [] => ∀ x ∈ list, changed x = false
  | least, list, rows :: more =>
      ∃ gap before middle after rest, list = gap ++ rows ++ rest ∧
        rows = before ++ middle ++ after ∧ least ≤ gap.length ∧
        (∀ x ∈ gap, changed x = false) ∧
        Surrounded changed context gap before middle after rest ∧ Cut 1 rest more

variable {changed context} {list : List α}

def Marked (changed : α → Bool) (list : List α) (index : Nat) : Prop :=
  ∃ x, list[index]? = some x ∧ changed x = true

theorem mem_marks (index : Nat) : index ∈ marks changed list ↔ Marked changed list index := by
  simp only [marks, List.mem_map, List.mem_filter, Prod.exists, exists_eq_right, Marked,
    List.mem_zipIdx_iff_getElem?]

theorem pairwise_marks : (marks changed list).Pairwise (· < ·) := by
  have numbers : (list.zipIdx.map Prod.snd).Pairwise (· < ·) := by
    rw [List.zipIdx_map_snd]
    exact List.pairwise_lt_range'
  exact numbers.sublist (List.filter_sublist.map Prod.snd)

theorem quiet_part {start stop : Nat}
    (quiet : ∀ index, start ≤ index → index < stop → ¬ Marked changed list index) :
    ∀ x ∈ part list start stop, changed x = false := by
  intro x member
  obtain ⟨index, lower, upper, found⟩ := exists_of_mem_part member
  rw [← Bool.not_eq_true]
  exact fun marked => quiet index lower upper ⟨x, found, marked⟩

/-- A window around marks, of which the first and the last are known. -/
structure Opened (changed : α → Bool) (context : Nat) (list : List α)
    (first last firstMark lastMark : Nat) : Prop where
  first : first = firstMark - context
  last : last = min (list.length - 1) (lastMark + context)
  order : firstMark ≤ lastMark
  firstMarked : Marked changed list firstMark
  lastMarked : Marked changed list lastMark

theorem Marked.lt {index : Nat} (marked : Marked changed list index) : index < list.length := by
  obtain ⟨x, found, -⟩ := marked
  exact (List.getElem?_eq_some_iff.mp found).1

theorem Opened.cut {first last firstMark lastMark start least : Nat} {more : List (List α)}
    (opened : Opened changed context list first last firstMark lastMark)
    (room : start + least ≤ first)
    (before : ∀ index, start ≤ index → index < firstMark → ¬ Marked changed list index)
    (after : ∀ index, lastMark < index → index ≤ last → ¬ Marked changed list index)
    (rest : Cut changed context 1 (list.drop (last + 1)) more) :
    Cut changed context least (list.drop start) (part list first (last + 1) :: more) := by
  obtain ⟨rfl, rfl, order, firstMarked, lastMarked⟩ := opened
  have within := lastMarked.lt
  refine ⟨part list start (firstMark - context), part list (firstMark - context) firstMark,
    part list firstMark (lastMark + 1),
    part list (lastMark + 1) (min (list.length - 1) (lastMark + context) + 1), _, ?_, ?_, ?_,
    quiet_part fun index lower upper => before index lower (by omega), ?_, rest⟩
  · rw [part_append (by omega) (by omega), ← drop_eq_part_append (by omega)]
  · rw [part_append (by omega) (by omega), part_append (by omega) (by omega)]
  · rw [length_part (by omega)]
    omega
  · constructor
    · exact quiet_part fun index lower upper => before index (by omega) upper
    · exact quiet_part fun index lower upper => after index (by omega) (by omega)
    · rw [length_part (by omega)]
      omega
    · by_cases enough : context ≤ firstMark
      · left
        rw [length_part (by omega)]
        omega
      · right
        rw [← List.length_eq_zero_iff, length_part (by omega)]
        omega
    · rw [length_part (by omega)]
      omega
    · by_cases enough : lastMark + context ≤ list.length - 1
      · left
        rw [length_part (by omega)]
        omega
      · right
        rw [List.drop_eq_nil_iff]
        omega
    · obtain ⟨x, found, marked⟩ := firstMarked
      refine ⟨x, ?_, marked⟩
      rw [List.head?_eq_getElem?, getElem?_part, if_pos (by omega), Nat.add_zero]
      exact found
    · obtain ⟨x, found, marked⟩ := lastMarked
      refine ⟨x, ?_, marked⟩
      have place : firstMark + (lastMark + 1 - firstMark - 1) = lastMark := by omega
      rw [List.getLast?_eq_getElem?, length_part (by omega), getElem?_part, place,
        if_pos (by omega)]
      exact found

/-- With a window open, the rest of the list is taken apart too. -/
theorem cut_windows_some {first last firstMark lastMark start least : Nat} {rest : List Nat}
    (opened : Opened changed context list first last firstMark lastMark)
    (room : start + least ≤ first)
    (before : ∀ index, start ≤ index → index < firstMark → ¬ Marked changed list index)
    (marked : ∀ index, lastMark < index → (Marked changed list index ↔ index ∈ rest))
    (sorted : (lastMark :: rest).Pairwise (· < ·)) :
    Cut changed context least (list.drop start)
      ((windows context list.length (some (first, last)) rest).map fun window =>
        part list window.1 (window.2 + 1)) := by
  induction rest generalizing first last firstMark lastMark start least with
  | nil =>
      apply opened.cut room before
      · intro index later _ is
        exact absurd ((marked index later).mp is) List.not_mem_nil
      · intro x member
        obtain ⟨index, found⟩ := List.mem_iff_getElem?.mp member
        rw [List.getElem?_drop] at found
        rw [← Bool.not_eq_true]
        intro is
        have own : Marked changed list (last + 1 + index) := ⟨x, found, is⟩
        have later : lastMark < last + 1 + index := by
          have within := opened.lastMarked.lt
          have reach := opened.last
          omega
        exact List.not_mem_nil ((marked _ later).mp own)
  | cons mark rest ih =>
      obtain ⟨below, others⟩ := List.pairwise_cons.mp sorted
      have later : lastMark < mark := below mark List.mem_cons_self
      have markMarked : Marked changed list mark :=
        (marked mark later).mpr List.mem_cons_self
      have markedAfter (index : Nat) (past : mark < index) :
          Marked changed list index ↔ index ∈ rest := by
        rw [marked index (later.trans past), List.mem_cons, or_iff_right past.ne']
      have quiet (index : Nat) (past : lastMark < index) (early : index < mark) :
          ¬ Marked changed list index := by
        rw [marked index past, List.mem_cons, not_or]
        refine ⟨early.ne, fun among => ?_⟩
        have order := (List.pairwise_cons.mp others).1 index among
        omega
      rw [windows]
      split
      · exact ih ⟨opened.first, rfl, opened.order.trans later.le, opened.firstMarked, markMarked⟩
          room before markedAfter others
      · next apart =>
          rw [List.map_cons]
          apply opened.cut room before
          · exact fun index past early => quiet index past (by omega)
          · apply ih ⟨rfl, rfl, le_refl _, markMarked, markMarked⟩ (by omega) _ markedAfter others
            have reach := opened.last
            have within := markMarked.lt
            intro index past early
            exact quiet index (by omega) early

/-- The windows take the list apart. -/
theorem cut_windows (changed : α → Bool) (context : Nat) (list : List α) :
    Cut changed context 0 list
      ((windows context list.length none (marks changed list)).map fun window =>
        part list window.1 (window.2 + 1)) := by
  have listed := @mem_marks α changed list
  have sorted := @pairwise_marks α changed list
  generalize marks changed list = places at listed sorted
  cases places with
  | nil =>
      intro x member
      obtain ⟨index, found⟩ := List.mem_iff_getElem?.mp member
      rw [← Bool.not_eq_true]
      exact fun is => List.not_mem_nil ((listed index).mpr ⟨x, found, is⟩)
  | cons mark rest =>
      have below := (List.pairwise_cons.mp sorted).1
      have markMarked := (listed mark).mp List.mem_cons_self
      have whole := @cut_windows_some α changed context list _ _ mark mark 0 0 rest
        ⟨rfl, rfl, le_refl _, markMarked, markMarked⟩ (Nat.zero_le _)
      rw [List.drop_zero] at whole
      apply whole _ _ sorted
      · intro index _ early is
        rcases List.mem_cons.mp ((listed index).mpr is) with rfl | among
        · omega
        · have order := below index among
          omega
      · intro index past
        rw [← listed, List.mem_cons, or_iff_right past.ne']

end Cuts

end ContextWindows
