import Hermione.AttentionRuns
import Hermione.Rings

/-!
# Stepping through the flagged students

At every step those who are flagged are sorted by urgency afresh, and the student that the
teacher is at is found among them by name.  Names that the browser's comparison tells apart
make the order of urgency a total one, so that it is the same however the students are
listed.
-/

namespace Hermione

namespace Attention

/-- What the documentation promises of `localeCompare`: names the other way round compare
the other way round, and names are in an order. -/
structure Collates (localeCompare : JsString → JsString → Int) : Prop where
  flip : ∀ a b, localeCompare a b < 0 ↔ 0 < localeCompare b a
  trans : ∀ a b c, localeCompare a b ≤ 0 → localeCompare b c ≤ 0 → localeCompare a c ≤ 0

/-- No two names of the students compare as equal. -/
def ToldApart (localeCompare : JsString → JsString → Int) (students : List Student) : Prop :=
  ∀ a ∈ students, ∀ b ∈ students, localeCompare a.student b.student = 0 → a.student = b.student

namespace Flagged

section Steps

variable (localeCompare : JsString → JsString → Int)

/-- Everyone flagged, most urgent first. -/
def ring (students : List Student) : List Student :=
  (students.filter fun s => rankOf s.struggle ≠ 0).mergeSort fun a b =>
    byUrgency localeCompare a b ≤ 0

/-- An element of an array. -/
def element (ring : List Student) (number : Int) : Option Student :=
  if 0 ≤ number then ring[number.toNat]? else none

/-- From a student, who need not be flagged, one step forwards or backwards; from nobody,
forwards starts at the top and backwards at the bottom. -/
def step (students : List Student) (student : Option JsString) (direction : Int) :
    Option Student :=
  let ring := ring localeCompare students
  if ring = [] then none
  else
    match ring.findIdx? fun s => some s.student = student with
    | none => if 0 < direction then ring.head? else ring.getLast?
    | some at' => element ring ((at' + direction + ring.length).tmod ring.length)

/-- A step forwards from where one has come to. -/
def forward (students : List Student) (from' : Option Student) : Option Student :=
  from'.bind fun s => step localeCompare students (some s.student) 1

end Steps

variable {localeCompare : JsString → JsString → Int} {students others : List Student}

/-! ### The order of urgency -/

theorem byUrgency_le_iff (a b : Student) : byUrgency localeCompare a b ≤ 0 ↔
    rankOf b.struggle < rankOf a.struggle ∨ rankOf b.struggle = rankOf a.struggle ∧
      (b.secondsOnExercise.getD 0 < a.secondsOnExercise.getD 0 ∨
        b.secondsOnExercise.getD 0 = a.secondsOnExercise.getD 0 ∧
          localeCompare a.student b.student ≤ 0) := by
  unfold byUrgency
  dsimp only
  split_ifs with rank seconds
  · omega
  · omega
  · omega

theorem byUrgency_trans (collates : Collates localeCompare) (a b c : Student)
    (first : byUrgency localeCompare a b ≤ 0) (second : byUrgency localeCompare b c ≤ 0) :
    byUrgency localeCompare a c ≤ 0 := by
  have names := collates.trans a.student b.student c.student
  rw [byUrgency_le_iff] at first second ⊢
  omega

theorem byUrgency_total (collates : Collates localeCompare) (a b : Student) :
    byUrgency localeCompare a b ≤ 0 ∨ byUrgency localeCompare b a ≤ 0 := by
  have names := collates.flip b.student a.student
  rw [byUrgency_le_iff, byUrgency_le_iff]
  omega

/-- Two students as urgent as each other are one. -/
theorem byUrgency_antisymm (collates : Collates localeCompare)
    (distinct : (students.map Student.student).Nodup) (apart : ToldApart localeCompare students)
    {a b : Student} (one : a ∈ students) (two : b ∈ students)
    (first : byUrgency localeCompare a b ≤ 0) (second : byUrgency localeCompare b a ≤ 0) :
    a = b := by
  have names := collates.flip a.student b.student
  rw [byUrgency_le_iff] at first second
  exact List.inj_on_of_nodup_map distinct one two (apart a one b two (by omega))

/-- Students who are told apart are sorted alike however they are listed. -/
theorem mergeSort_eq_of_perm (collates : Collates localeCompare)
    (distinct : (students.map Student.student).Nodup) (apart : ToldApart localeCompare students)
    {list other : List Student} (within : list.Sublist students) (same : other.Perm list) :
    (other.mergeSort fun a b => byUrgency localeCompare a b ≤ 0) =
      list.mergeSort fun a b => byUrgency localeCompare a b ≤ 0 := by
  apply StableSorts.mergeSort_eq_of_apart _ _ same
  · intro a one b two first second
    exact byUrgency_antisymm collates distinct apart (within.mem one) (within.mem two)
      (of_decide_eq_true first) (of_decide_eq_true second)
  · intro a b c
    simpa only [decide_eq_true_eq] using byUrgency_trans collates a b c
  · intro a b
    simpa only [Bool.or_eq_true, decide_eq_true_eq] using byUrgency_total collates a b

theorem ring_eq_of_perm (collates : Collates localeCompare)
    (distinct : (students.map Student.student).Nodup) (apart : ToldApart localeCompare students)
    (same : others.Perm students) : ring localeCompare others = ring localeCompare students :=
  mergeSort_eq_of_perm collates distinct apart List.filter_sublist (same.filter _)

theorem step_eq_of_perm (collates : Collates localeCompare)
    (distinct : (students.map Student.student).Nodup) (apart : ToldApart localeCompare students)
    (same : others.Perm students) (student : Option JsString) (direction : Int) :
    step localeCompare others student direction =
      step localeCompare students student direction := by
  unfold step
  rw [ring_eq_of_perm collates distinct apart same]

theorem unseen_eq_of_perm {Time : Type*} [LinearOrder Time] (collates : Collates localeCompare)
    (distinct : (students.map Student.student).Nodup) (apart : ToldApart localeCompare students)
    (same : others.Perm students) (entries : Entries Time) (now : Time) :
    unseen localeCompare entries others now = unseen localeCompare entries students now :=
  mergeSort_eq_of_perm collates distinct apart List.filter_sublist (same.filter _)

/-! ### Going round -/

theorem ring_perm (localeCompare : JsString → JsString → Int) (students : List Student) :
    (ring localeCompare students).Perm (students.filter fun s => rankOf s.struggle ≠ 0) :=
  List.mergeSort_perm _ _

theorem ring_distinct (distinct : (students.map Student.student).Nodup) :
    ((ring localeCompare students).map Student.student).Nodup := by
  rw [((ring_perm localeCompare students).map Student.student).nodup_iff]
  exact distinct.sublist (List.filter_sublist.map Student.student)

/-- Wherever a step leads, it is so many places on, round the ring. -/
theorem step_of_stands (distinct : (students.map Student.student).Nodup) {s : Student}
    {place : Nat} (stands : (ring localeCompare students)[place]? = some s) {direction : Int}
    {ahead : Nat} (reached : (place : Int) + direction + (ring localeCompare students).length =
      ahead) :
    step localeCompare students (some s.student) direction =
      (ring localeCompare students)[ahead % (ring localeCompare students).length]? := by
  have found : ((ring localeCompare students).findIdx? fun other =>
      some other.student = some s.student) = some place := by
    simpa only [Option.some.injEq] using
      Rings.findIdx?_of_getElem? (ring_distinct distinct) stands
  have some_one : ring localeCompare students ≠ [] := by
    intro none
    rw [none] at stands
    cases stands
  unfold step
  dsimp only
  rw [if_neg some_one, found]
  dsimp only
  rw [reached, ← Int.ofNat_tmod, element, if_pos (Int.natCast_nonneg _), Int.toNat_natCast]

theorem step_forwards (distinct : (students.map Student.student).Nodup) {s : Student}
    {place : Nat} (stands : (ring localeCompare students)[place]? = some s) :
    step localeCompare students (some s.student) 1 =
      (ring localeCompare students)[(place + 1) % (ring localeCompare students).length]? := by
  have reached : (place : Int) + 1 + (ring localeCompare students).length =
      (place + 1 + (ring localeCompare students).length : Nat) := by omega
  rw [step_of_stands distinct stands reached, Nat.add_mod_right]

theorem step_backwards (distinct : (students.map Student.student).Nodup) {s : Student}
    {place : Nat} (stands : (ring localeCompare students)[place]? = some s) :
    step localeCompare students (some s.student) (-1) =
      (ring localeCompare students)[(place + ((ring localeCompare students).length - 1)) %
        (ring localeCompare students).length]? := by
  obtain ⟨within, _⟩ := List.getElem?_eq_some_iff.mp stands
  exact step_of_stands distinct stands (by omega)

theorem forward_stands (distinct : (students.map Student.student).Nodup) {place : Nat}
    (within : place < (ring localeCompare students).length) :
    forward localeCompare students (ring localeCompare students)[place]? =
      (ring localeCompare students)[(place + 1) % (ring localeCompare students).length]? := by
  have stands := List.getElem?_eq_getElem within
  rw [stands, forward, Option.bind_some, step_forwards distinct stands]

/-- After some steps forwards one is as many places on. -/
theorem iterate_forward (distinct : (students.map Student.student).Nodup) {place : Nat}
    (within : place < (ring localeCompare students).length) (steps : Nat) :
    (forward localeCompare students)^[steps] (ring localeCompare students)[place]? =
      (ring localeCompare students)[(place + steps) % (ring localeCompare students).length]? := by
  induction steps with
  | zero => rw [Function.iterate_zero_apply, Nat.add_zero, Nat.mod_eq_of_lt within]
  | succ steps ih =>
      rw [Function.iterate_succ_apply', ih,
        forward_stands distinct (Nat.mod_lt _ (by omega)), Nat.mod_add_mod, Nat.add_assoc]

/-- What stepping from a flagged student does. -/
structure GoesRound (localeCompare : JsString → JsString → Int) (students : List Student)
    (s : Student) : Prop where
  back : ((step localeCompare students (some s.student) 1).bind fun other =>
    step localeCompare students (some other.student) (-1)) = some s
  forth : ((step localeCompare students (some s.student) (-1)).bind fun other =>
    step localeCompare students (some other.student) 1) = some s
  /-- Where the steps forwards lead, as many as there are flagged students. -/
  tour : ∃ tour : List Student,
    tour.Perm (students.filter fun s => rankOf s.struggle ≠ 0) ∧
    ((List.range tour.length).map fun steps =>
      (forward localeCompare students)^[steps + 1] (some s)) = tour.map some ∧
    tour.getLast? = some s

theorem goesRound (distinct : (students.map Student.student).Nodup) {s : Student}
    (listed : s ∈ students) (flagged : rankOf s.struggle ≠ 0) :
    GoesRound localeCompare students s := by
  have among : s ∈ ring localeCompare students :=
    (ring_perm localeCompare students).mem_iff.mpr
      (List.mem_filter.mpr ⟨listed, decide_eq_true flagged⟩)
  obtain ⟨place, stands⟩ := List.mem_iff_getElem?.mp among
  obtain ⟨within, _⟩ := List.getElem?_eq_some_iff.mp stands
  have some_place (ahead : Nat) : ahead % (ring localeCompare students).length <
      (ring localeCompare students).length := Nat.mod_lt _ (by omega)
  constructor
  · have next := List.getElem?_eq_getElem (some_place (place + 1))
    rw [step_forwards distinct stands, next, Option.bind_some, step_backwards distinct next,
      Rings.back_forth within, stands]
  · have previous := List.getElem?_eq_getElem
      (some_place (place + ((ring localeCompare students).length - 1)))
    rw [step_backwards distinct stands, previous, Option.bind_some,
      step_forwards distinct previous, Rings.forth_back within, stands]
  · refine ⟨(ring localeCompare students).rotate (place + 1),
      (List.rotate_perm _ _).trans (ring_perm localeCompare students), ?_, ?_⟩
    · rw [List.length_rotate, ← Rings.walk_eq_rotate, ← stands]
      apply List.map_congr_left
      intro steps _
      exact iterate_forward distinct within (steps + 1)
    · rw [Rings.getLast?_rotate within, stands]

/-- From every flagged student a step forwards and one back, or the other way round, lead
back to them, and as many steps forwards as students are flagged visit each of these once
and end where they began; and neither steps nor who waits depend on how the students are
listed. -/
theorem stepping_round {Time : Type*} [LinearOrder Time] (collates : Collates localeCompare)
    (distinct : (students.map Student.student).Nodup)
    (apart : ToldApart localeCompare students) :
    (∀ s ∈ students, rankOf s.struggle ≠ 0 → GoesRound localeCompare students s) ∧
    ∀ others, others.Perm students →
      (∀ student direction, step localeCompare others student direction =
        step localeCompare students student direction) ∧
      ∀ (entries : Entries Time) now, unseen localeCompare entries others now =
        unseen localeCompare entries students now :=
  ⟨fun _ listed flagged => goesRound distinct listed flagged,
    fun _ same => ⟨step_eq_of_perm collates distinct apart same,
      unseen_eq_of_perm collates distinct apart same⟩⟩

/-- A comparison by code units, as the browser's is of names in small letters. -/
def byUnits (a b : JsString) : Int :=
  if a.map UInt16.toNat < b.map UInt16.toNat then -1
  else if b.map UInt16.toNat < a.map UInt16.toNat then 1 else 0

theorem byUnits_neg_iff (a b : JsString) :
    byUnits a b < 0 ↔ a.map UInt16.toNat < b.map UInt16.toNat := by
  unfold byUnits
  split_ifs with less more
  · simp [less]
  · simp [less]
  · simp [less]

theorem byUnits_pos_iff (a b : JsString) :
    0 < byUnits a b ↔ b.map UInt16.toNat < a.map UInt16.toNat := by
  unfold byUnits
  split_ifs with less more
  · simpa using less.le
  · simp [more]
  · simp [more]

theorem collates_byUnits : Collates byUnits where
  flip a b := by rw [byUnits_neg_iff, byUnits_pos_iff]
  trans a b c first second := by
    rw [← not_lt, byUnits_pos_iff, not_lt] at first second ⊢
    exact first.trans second

theorem stepping_round_two :
    GoesRound byUnits [⟨js "bob", .watch, some 5⟩, ⟨js "ada", .watch, some 5⟩]
      ⟨js "bob", .watch, some 5⟩ :=
  (@stepping_round byUnits _ Nat _ collates_byUnits (by decide)
    (by unfold ToldApart; decide)).1 _ List.mem_cons_self (by decide)

end Flagged

end Attention

end Hermione
