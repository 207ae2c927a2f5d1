import Mathlib.Data.List.Basic
import Hermione.SplitRuns

/-!
# Runs joined over blanks

Of a sequence, some elements are held by runs of indices, in order.  Runs with
nothing but blanks between them are joined.  That holds no more than blanks besides,
leaves something else between any two joined runs, and makes the runs begin and end
with elements that were held before, unless an empty run stands between two that were
not.
-/

namespace JoinedRuns

/-- The elements from one index up to another. -/
structure Run where
  start : Nat
  stop : Nat
  deriving DecidableEq

/-- The element of this index is in the run. -/
def Run.Has (run : Run) (index : Nat) : Prop :=
  run.start ≤ index ∧ index < run.stop

/-- Some run has the element. -/
def Held (runs : List Run) (index : Nat) : Prop :=
  ∃ run ∈ runs, run.Has index

instance (run : Run) (index : Nat) : Decidable (run.Has index) :=
  inferInstanceAs (Decidable (_ ∧ _))

instance (runs : List Run) (index : Nat) : Decidable (Held runs index) :=
  inferInstanceAs (Decidable (∃ run ∈ runs, run.Has index))

theorem held_cons_iff {run : Run} {runs : List Run} {index : Nat} :
    Held (run :: runs) index ↔ run.Has index ∨ Held runs index := by
  simp [Held]

/-- The elements, from index `start` on, that no run has. -/
def spare {α : Type*} (runs : List Run) : Nat → List α → List α
  | _, [] => []
  | start, value :: list =>
      if Held runs start then spare runs (start + 1) list
      else value :: spare runs (start + 1) list

section Spare

variable {α : Type*}

theorem spare_append (runs : List Run) (start : Nat) (front back : List α) :
    spare runs start (front ++ back) =
      spare runs start front ++ spare runs (start + front.length) back := by
  induction front generalizing start with
  | nil => rfl
  | cons value front ih =>
      have next := ih (start + 1)
      rw [Nat.add_right_comm, Nat.add_assoc] at next
      simp only [List.cons_append, spare, List.length_cons, next]
      split <;> rfl

theorem spare_congr {runs others : List Run} {start : Nat} {list : List α}
    (same : ∀ index, start ≤ index → index < start + list.length →
      (Held runs index ↔ Held others index)) :
    spare runs start list = spare others start list := by
  induction list generalizing start with
  | nil => rfl
  | cons value list ih =>
      rw [List.length_cons] at same
      have rest := @ih (start + 1) fun index late early => same index (by omega) (by omega)
      simp only [spare, same start (le_refl _) (by omega), rest]

theorem spare_eq_nil {runs : List Run} {start : Nat} {list : List α}
    (all : ∀ index, start ≤ index → index < start + list.length → Held runs index) :
    spare runs start list = [] := by
  induction list generalizing start with
  | nil => rfl
  | cons value list ih =>
      rw [List.length_cons] at all
      rw [spare, if_pos (all start (le_refl _) (by omega))]
      exact ih fun index late early => all index (by omega) (by omega)

theorem spare_eq_self {runs : List Run} {start : Nat} {list : List α}
    (none : ∀ index, start ≤ index → index < start + list.length → ¬ Held runs index) :
    spare runs start list = list := by
  induction list generalizing start with
  | nil => rfl
  | cons value list ih =>
      rw [List.length_cons] at none
      rw [spare, if_neg (none start (le_refl _) (by omega)),
        ih fun index late early => none index (by omega) (by omega)]

end Spare

/-- Runs that follow each other. -/
structure Ordered (runs : List Run) : Prop where
  sorted : runs.Pairwise fun first second => first.stop ≤ second.start
  proper : ∀ run ∈ runs, run.start ≤ run.stop

variable (blank : Nat → Bool)

/-- Nothing but blanks lies between two runs. -/
def blankBetween (first second : Run) : Bool :=
  (List.range' first.stop (second.start - first.stop)).all blank

/-- From the start of the first run to the stop of the last. -/
def hull (group : List Run) : Run :=
  { start := (group.head?.map Run.start).getD 0, stop := (group.getLast?.map Run.stop).getD 0 }

/-- The runs, joined where they can be. -/
def joined (runs : List Run) : List Run :=
  (runs.splitBy (blankBetween blank)).map hull

variable {blank}

theorem hull_start {group : List Run} {first : Run} (starts : group.head? = some first) :
    (hull group).start = first.start := by
  rw [hull, starts]
  rfl

theorem hull_stop {group : List Run} {last : Run} (ends : group.getLast? = some last) :
    (hull group).stop = last.stop := by
  rw [hull, ends]
  rfl

theorem blankBetween_iff {first second : Run} :
    blankBetween blank first second = true ↔
      ∀ index, first.stop ≤ index → index < second.start → blank index = true := by
  unfold blankBetween
  rw [List.all_eq_true]
  constructor
  · intro all index late early
    exact all index (List.mem_range'_1.mpr (by omega))
  · intro all index member
    obtain ⟨late, early⟩ := List.mem_range'_1.mp member
    exact all index late (by omega)

theorem not_blankBetween_iff {first second : Run} :
    blankBetween blank first second = false ↔
      ∃ index, first.stop ≤ index ∧ index < second.start ∧ blank index = false := by
  rw [← Bool.not_eq_true, blankBetween_iff]
  simp

/-- Runs that touch are joined. -/
theorem blankBetween_of_le {first second : Run} (touch : second.start ≤ first.stop) :
    blankBetween blank first second = true := by
  rw [blankBetween_iff]
  intro index late early
  omega

theorem Ordered.of_cons {run : Run} {runs : List Run} (ordered : Ordered (run :: runs)) :
    Ordered runs :=
  ⟨ordered.sorted.of_cons,
    fun other later => ordered.proper other (List.mem_cons_of_mem _ later)⟩

theorem Ordered.sublist {runs others : List Run} (ordered : Ordered runs)
    (part : others.Sublist runs) : Ordered others :=
  ⟨ordered.sorted.sublist part, fun run member => ordered.proper run (part.subset member)⟩

/-! ### One group -/

section Group

variable {group : List Run} (ordered : Ordered group)

include ordered

theorem hull_start_le {run : Run} (member : run ∈ group) :
    (hull group).start ≤ run.start := by
  cases group with
  | nil => cases member
  | cons first group =>
      change first.start ≤ run.start
      rcases List.mem_cons.mp member with rfl | later
      · exact le_refl _
      · exact (ordered.proper first List.mem_cons_self).trans
          ((List.pairwise_cons.mp ordered.sorted).1 run later)

theorem le_hull_stop {run : Run} (member : run ∈ group) : run.stop ≤ (hull group).stop := by
  rcases List.eq_nil_or_concat group with rfl | ⟨front, last, rfl⟩
  · cases member
  · rw [List.concat_eq_append] at member ordered ⊢
    rw [hull_stop List.getLast?_concat]
    rcases List.mem_append.mp member with before | here
    · have apart := (List.pairwise_append.mp ordered.sorted).2.2 run before last
        (List.mem_singleton_self last)
      have own := List.mem_append_right front (List.mem_singleton_self last)
      exact apart.trans (ordered.proper last own)
    · rw [List.mem_singleton.mp here]

/-- What a joined run has is held by one of its own, or a blank. -/
theorem held_or_blank (chain : group.IsChain fun one two => blankBetween blank one two = true)
    {index : Nat} (has : (hull group).Has index) : Held group index ∨ blank index = true := by
  induction group with
  | nil => exact absurd has.2 (Nat.not_lt_zero _)
  | cons first group ih =>
      by_cases early : index < first.stop
      · exact .inl ⟨first, List.mem_cons_self, has.1, early⟩
      · cases group with
        | nil => exact absurd has.2 early
        | cons second group =>
            obtain ⟨joins, chain⟩ := List.isChain_cons_cons.mp chain
            by_cases between : index < second.start
            · exact .inr (blankBetween_iff.mp joins index (not_lt.mp early) between)
            · have stop : (hull (second :: group)).stop =
                  (hull (first :: second :: group)).stop := by
                simp [hull]
              rcases ih ordered.of_cons chain ⟨not_lt.mp between, stop ▸ has.2⟩ with
                ⟨run, member, inside⟩ | bare
              · exact .inl ⟨run, List.mem_cons_of_mem _ member, inside⟩
              · exact .inr bare

end Group

/-! ### All of them -/

section Joined

variable {runs : List Run} (ordered : Ordered runs)

theorem mem_joined {run : Run} (member : run ∈ joined blank runs) :
    ∃ group ∈ runs.splitBy (blankBetween blank), run = hull group := by
  obtain ⟨group, among, rfl⟩ := List.mem_map.mp member
  exact ⟨group, among, rfl⟩

theorem sublist_of_mem_splitBy {group : List Run}
    (among : group ∈ runs.splitBy (blankBetween blank)) : group.Sublist runs := by
  have part := List.sublist_flatten_of_mem among
  rwa [List.flatten_splitBy] at part

/-- Groups that cannot be joined have something else between their hulls. -/
theorem separated_hulls {list : List (List Run)} (whole : Ordered list.flatten)
    (filled : [] ∉ list)
    (breaks : list.IsChain fun one two =>
      ∃ one_ne two_ne, blankBetween blank (one.getLast one_ne) (two.head two_ne) = false) :
    (list.map hull).Pairwise fun first second =>
      ∃ index, first.stop ≤ index ∧ index < second.start ∧ blank index = false := by
  induction list with
  | nil => exact List.Pairwise.nil
  | cons group list ih =>
      rw [List.flatten_cons] at whole
      rw [List.mem_cons, not_or] at filled
      rw [List.map_cons, List.pairwise_cons]
      have rest := whole.sublist (List.sublist_append_right group list.flatten)
      refine ⟨?_, ih rest filled.2 breaks.tail⟩
      cases list with
      | nil =>
          intro second none
          cases none
      | cons next list =>
          obtain ⟨last_ne, next_ne, apart⟩ := (List.isChain_cons_cons.mp breaks).1
          obtain ⟨index, late, early, other⟩ := not_blankBetween_iff.mp apart
          intro second member
          obtain ⟨later, among, rfl⟩ := List.mem_map.mp member
          have stop := hull_stop (List.getLast?_eq_some_getLast last_ne)
          obtain ⟨head, starts⟩ : ∃ head, later.head? = some head := by
            have later_ne : later ≠ [] := by
              rintro rfl
              exact filled.2 among
            exact ⟨later.head later_ne, List.head?_eq_some_head later_ne⟩
          have start := hull_start starts
          have first : (next.head next_ne).start ≤ head.start := by
            have heads : (next :: list).flatten.head? = some (next.head next_ne) := by
              rw [List.flatten_cons, List.head?_append_of_ne_nil _ next_ne,
                List.head?_eq_some_head next_ne]
            rw [← hull_start heads]
            exact hull_start_le rest
              (List.mem_flatten.mpr ⟨later, among, List.mem_of_head? starts⟩)
          exact ⟨index, stop ▸ late, start ▸ early.trans_le first, other⟩

include ordered

/-- Joining loses nothing. -/
theorem held_joined {index : Nat} (held : Held runs index) : Held (joined blank runs) index := by
  obtain ⟨run, member, inside⟩ := held
  rw [← List.flatten_splitBy (blankBetween blank) runs] at member
  obtain ⟨group, among, own⟩ := List.mem_flatten.mp member
  have part := ordered.sublist (sublist_of_mem_splitBy among)
  exact ⟨hull group, List.mem_map_of_mem among, (hull_start_le part own).trans inside.1,
    inside.2.trans_le (le_hull_stop part own)⟩

/-- And adds nothing but blanks. -/
theorem held_of_joined {index : Nat} (held : Held (joined blank runs) index) :
    Held runs index ∨ blank index = true := by
  obtain ⟨_, member, inside⟩ := held
  obtain ⟨group, among, rfl⟩ := mem_joined member
  have part := sublist_of_mem_splitBy among
  rcases held_or_blank (ordered.sublist part) (List.isChain_of_mem_splitBy among) inside with
    ⟨run, own, has⟩ | bare
  · exact .inl ⟨run, part.subset own, has⟩
  · exact .inr bare

/-- Between two joined runs there is something else. -/
theorem joined_separated : (joined blank runs).Pairwise fun first second =>
    ∃ index, first.stop ≤ index ∧ index < second.start ∧ blank index = false := by
  apply separated_hulls
  · rwa [List.flatten_splitBy]
  · exact List.nil_notMem_splitBy _ _
  · exact List.isChain_getLast_head_splitBy _ _

section Ends

variable {group : List Run} (among : group ∈ runs.splitBy (blankBetween blank))

include among

/-- What stands right before a joined run is not held. -/
theorem not_held_before (later : 0 < (hull group).start) :
    ¬ Held runs ((hull group).start - 1) := by
  rintro ⟨run, member, has⟩
  obtain ⟨before, after, parts⟩ := List.append_of_mem among
  have whole : runs = before.flatten ++ (group ++ after.flatten) := by
    rw [← List.flatten_cons, ← List.flatten_append, ← parts, List.flatten_splitBy]
  obtain ⟨first, starts⟩ : ∃ first, group.head? = some first :=
    ⟨_, List.head?_eq_some_head (List.ne_nil_of_mem_splitBy among)⟩
  rw [hull_start starts] at later has
  rw [whole] at member ordered
  obtain ⟨_, rest, across⟩ := List.pairwise_append.mp ordered.sorted
  rcases List.mem_append.mp member with early | late
  · obtain ⟨last, ends⟩ : ∃ last, before.flatten.getLast? = some last :=
      ⟨_, List.getLast?_eq_some_getLast (List.ne_nil_of_mem early)⟩
    have bound := le_hull_stop (ordered.sublist (List.sublist_append_left _ _)) early
    rw [hull_stop ends] at bound
    have apart := SplitRuns.unrelated_before parts ends starts
    rw [blankBetween_of_le (by have := has.2; omega)] at apart
    cases apart
  · have bound := hull_start_le (ordered.sublist (List.sublist_append_right _ _)) late
    rw [hull_start (List.head?_append.trans (by rw [starts]; rfl))] at bound
    have := has.1
    omega

/-- Nor is what stands right after it. -/
theorem not_held_after : ¬ Held runs (hull group).stop := by
  rintro ⟨run, member, has⟩
  obtain ⟨before, after, parts⟩ := List.append_of_mem among
  have whole : runs = (before.flatten ++ group) ++ after.flatten := by
    rw [List.append_assoc, ← List.flatten_cons, ← List.flatten_append, ← parts,
      List.flatten_splitBy]
  obtain ⟨last, ends⟩ : ∃ last, group.getLast? = some last :=
    ⟨_, List.getLast?_eq_some_getLast (List.ne_nil_of_mem_splitBy among)⟩
  rw [hull_stop ends] at has
  rw [whole] at member ordered
  rcases List.mem_append.mp member with early | late
  · have bound := le_hull_stop (ordered.sublist (List.sublist_append_left _ _)) early
    rw [hull_stop (List.getLast?_append.trans (by rw [ends]; rfl))] at bound
    have := has.2
    omega
  · obtain ⟨first, starts⟩ : ∃ first, after.flatten.head? = some first :=
      ⟨_, List.head?_eq_some_head (List.ne_nil_of_mem late)⟩
    have bound := hull_start_le (ordered.sublist (List.sublist_append_right _ _)) late
    rw [hull_start starts] at bound
    have apart := SplitRuns.unrelated_after parts ends starts
    rw [blankBetween_of_le (by have := has.1; omega)] at apart
    cases apart

end Ends

/-- Joined runs that begin and end with held elements leave no empty run away from
one. -/
theorem held_beside_of_ends (lone : ∀ index, blank index = true → blank (index + 1) = false)
    (ends : ∀ run ∈ joined blank runs, run.start < run.stop ∧ Held runs run.start ∧
      Held runs (run.stop - 1)) {run : Run} (member : run ∈ runs) (empty : run.start = run.stop) :
    Held runs run.start ∨ (0 < run.start ∧ Held runs (run.start - 1)) := by
  by_contra none
  rw [not_or, not_and] at none
  rw [← List.flatten_splitBy (blankBetween blank) runs] at member
  obtain ⟨group, among, own⟩ := List.mem_flatten.mp member
  have part := sublist_of_mem_splitBy among
  have whole := ordered.sublist part
  obtain ⟨_, first, last⟩ := ends (hull group) (List.mem_map_of_mem among)
  have start := hull_start_le whole own
  have stop := le_hull_stop whole own
  have start_ne : (hull group).start ≠ run.start := fun same => none.1 (same ▸ first)
  have before : ¬ Held runs (run.start - 1) := none.2 (by omega)
  have start_ne' : (hull group).start ≠ run.start - 1 := fun same => before (same ▸ first)
  have stop_ne : (hull group).stop - 1 ≠ run.start := fun same => none.1 (same ▸ last)
  have stop_ne' : (hull group).stop - 1 ≠ run.start - 1 := fun same => before (same ▸ last)
  have inside {index : Nat} (has : (hull group).Has index) (not : ¬ Held runs index) :
      blank index = true := by
    apply (held_or_blank whole (List.isChain_of_mem_splitBy among) has).resolve_left
    rintro ⟨other, listed, held⟩
    exact not ⟨other, part.subset listed, held⟩
  -- both elements beside the empty run are blank, and neighbours are not
  have left := inside ⟨by omega, by omega⟩ before
  have right := inside ⟨by omega, by omega⟩ none.1
  have apart := lone _ left
  rw [Nat.sub_add_cancel (by omega), right] at apart
  cases apart

section Beside

variable (beside : ∀ run ∈ runs, run.start = run.stop →
  Held runs run.start ∨ (0 < run.start ∧ Held runs (run.start - 1)))
variable {group : List Run} (among : group ∈ runs.splitBy (blankBetween blank))

include beside among

theorem held_hull_start : Held runs (hull group).start := by
  have filled := List.ne_nil_of_mem_splitBy among
  have listed := (sublist_of_mem_splitBy among).subset (List.head_mem filled)
  have start := hull_start (List.head?_eq_some_head filled)
  rcases (ordered.proper _ listed).lt_or_eq with wide | empty
  · exact ⟨_, listed, start.ge, start ▸ wide⟩
  · rw [start]
    apply (beside _ listed empty).resolve_right
    rintro ⟨later, held⟩
    rw [← start] at later held
    exact not_held_before ordered among later held

theorem held_hull_stop : Held runs ((hull group).stop - 1) := by
  have filled := List.ne_nil_of_mem_splitBy among
  have listed := (sublist_of_mem_splitBy among).subset (List.getLast_mem filled)
  have stop := hull_stop (List.getLast?_eq_some_getLast filled)
  rcases (ordered.proper _ listed).lt_or_eq with wide | empty
  · exact ⟨_, listed, by omega, by omega⟩
  · have nothing : ¬ Held runs (group.getLast filled).start := by
      rw [empty, ← stop]
      exact not_held_after ordered among
    have held := ((beside _ listed empty).resolve_left nothing).2
    rwa [empty, ← stop] at held

end Beside

/-- The joined runs begin and end with held elements exactly if every empty run stands
next to one. -/
theorem ends_held_iff (lone : ∀ index, blank index = true → blank (index + 1) = false) :
    (∀ run ∈ joined blank runs, run.start < run.stop ∧ Held runs run.start ∧
        Held runs (run.stop - 1)) ↔
      ∀ run ∈ runs, run.start = run.stop →
        Held runs run.start ∨ (0 < run.start ∧ Held runs (run.start - 1)) := by
  constructor
  · intro ends run member empty
    exact held_beside_of_ends ordered lone ends member empty
  · intro beside run member
    obtain ⟨group, among, rfl⟩ := mem_joined member
    have filled := List.ne_nil_of_mem_splitBy among
    have part := sublist_of_mem_splitBy among
    have last := List.getLast_mem filled
    have first := held_hull_start ordered beside among
    refine ⟨?_, first, held_hull_stop ordered beside among⟩
    have proper : (hull group).start ≤ (hull group).stop :=
      (hull_start_le (ordered.sublist part) last).trans
        ((ordered.proper _ (part.subset last)).trans (le_hull_stop (ordered.sublist part) last))
    rcases proper.lt_or_eq with wide | empty
    · exact wide
    · exact absurd (empty ▸ first) (not_held_after ordered among)

end Joined

/-! ### One run at a time -/

/-- One more run lengthens the last joined one or becomes one. -/
theorem joined_concat (runs : List Run) (run : Run) :
    joined blank (runs ++ [run]) =
      match (joined blank runs).getLast? with
      | none => [run]
      | some last =>
          if blankBetween blank last run then
            (joined blank runs).dropLast ++ [{ last with stop := run.stop }]
          else joined blank runs ++ [run] := by
  unfold joined
  rcases List.eq_nil_or_concat (runs.splitBy (blankBetween blank)) with none | ⟨front, group, parts⟩
  · rw [List.splitBy_eq_nil.mp none]
    rfl
  · rw [List.concat_eq_append] at parts
    have filled : group ≠ [] :=
      List.ne_nil_of_mem_splitBy (r := blankBetween blank) (l := runs) (by rw [parts]; simp)
    obtain ⟨last, ends⟩ : ∃ last, group.getLast? = some last :=
      ⟨_, List.getLast?_eq_some_getLast filled⟩
    have whole : runs.getLast? = some last := by
      rw [← List.flatten_splitBy (blankBetween blank) runs, parts, List.flatten_append,
        List.flatten_singleton, List.getLast?_append, ends]
      rfl
    have same : blankBetween blank (hull group) run = blankBetween blank last run := by
      simp [blankBetween, hull, ends]
    rw [parts, List.map_append, List.map_singleton, List.getLast?_concat, List.dropLast_concat]
    dsimp only
    rw [same]
    split
    · next joins =>
        rw [SplitRuns.splitBy_concat_related parts ends joins, List.map_append,
          List.map_singleton]
        have lengthened : hull (group ++ [run]) = { hull group with stop := run.stop } := by
          unfold hull
          rw [List.head?_append_of_ne_nil _ filled, List.getLast?_concat]
          rfl
        rw [lengthened]
    · next apart =>
        rw [SplitRuns.splitBy_concat_unrelated whole (by simpa using apart), parts,
          List.map_append, List.map_append]
        rfl

end JoinedRuns
