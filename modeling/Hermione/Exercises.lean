import Hermione.EventRuns
import Hermione.Student

/-!
# The exercises of a course

A teacher defines a course's exercises in bulk.  One statement saves those that are
listed; where the list is to replace what there was, another deletes the rest.
-/

namespace Hermione

/-- What comes of a statement. -/
inductive Reply where
  | done
  /-- It was not carried out. -/
  | failed
  /-- It was carried out, but its answer did not arrive. -/
  | lost
  deriving DecidableEq

/-- What a statement leaves of the tables, and whether it says so. -/
def Reply.carry {Rows : Type} (reply : Reply) (before after : Rows) :
    Rows × Except ApiError Unit :=
  match reply with
  | .done => (after, .ok ())
  | .failed => (before, .error .internal)
  | .lost => (after, .error .internal)

theorem Reply.carry_eq_ok_iff {Rows : Type} {reply : Reply} {before after rows : Rows} :
    reply.carry before after = (rows, .ok ()) ↔ reply = .done ∧ after = rows := by
  cases reply <;> simp [Reply.carry]

theorem Reply.carry_cases {Rows : Type} (reply : Reply) (before after : Rows) :
    (reply.carry before after).1 = before ∨ (reply.carry before after).1 = after := by
  cases reply
  · exact .inr rfl
  · exact .inl rfl
  · exact .inr rfl

/-- A row of `exercises`. -/
@[ext]
structure ExerciseRow where
  id : Uuid
  courseId : Uuid
  slug : Str
  title : Str
  position : Int
  createdAt : Int
  deriving DecidableEq

/-- An exercise to be saved. -/
structure Item where
  slug : Str
  title : Str
  position : Int
  deriving DecidableEq

structure ExerciseIn where
  slug : Str
  title : Option Str
  position : Option Int

structure DefineRequest where
  course : Option Str
  exercises : List ExerciseIn
  /-- Exercises that are not listed are deleted. -/
  replace : Bool

namespace Exercises

/-- Exercises without a slug are passed over.  An index is a position as far as it
fits. -/
def itemsOf (exercises : List ExerciseIn) : List Item :=
  exercises.zipIdx.filterMap fun (ex, idx) =>
    let slug := ex.slug.trim
    if slug.isEmpty then none
    else
      some
        { slug
          title := ex.title.getD slug
          position := ex.position.getD ((idx : Int).bmod (2 ^ 32)) }

/-- A slug listed twice keeps its last title and position. -/
def lastEntries (items : List Item) : List Item :=
  (items.reverse.foldl
    (fun last item =>
      if last.any fun kept => kept.slug = item.slug then last else last ++ [item]) []).reverse

/-- What becomes of the course's row with the item's slug, and of no other. -/
def updated (course : Uuid) (item : Item) (row : ExerciseRow) : ExerciseRow :=
  if row.courseId = course ∧ row.slug = item.slug then
    { row with title := item.title, position := item.position }
  else row

/-- One row of the statement: on a conflict the row that is there is updated. -/
def upsertRow (course : Uuid) (now : Int) (newId : Item → Uuid) (rows : List ExerciseRow)
    (item : Item) : List ExerciseRow :=
  if rows.any fun row => row.courseId = course ∧ row.slug = item.slug then
    rows.map (updated course item)
  else
    rows ++
      [{ id := newId item
         courseId := course
         slug := item.slug
         title := item.title
         position := item.position
         createdAt := now }]

def upsertRows (course : Uuid) (now : Int) (newId : Item → Uuid) (rows : List ExerciseRow)
    (items : List Item) : List ExerciseRow :=
  (lastEntries items).foldl (upsertRow course now newId) rows

/-- Upserts a course's exercises in one statement, or in none if there are none. -/
def upsert (course : Uuid) (now : Int) (newId : Item → Uuid) (rows : List ExerciseRow)
    (items : List Item) (reply : Reply) : List ExerciseRow × Except ApiError Unit :=
  if (lastEntries items).isEmpty then (rows, .ok ())
  else reply.carry rows (upsertRows course now newId rows items)

def missingDeleted (course : Uuid) (rows : List ExerciseRow) (keep : List Str) :
    List ExerciseRow :=
  rows.filter fun row => !(row.courseId = course && (keep.isEmpty || !keep.contains row.slug))

/-- Deletes a course's exercises whose slug isn't in `keep`. -/
def deleteMissing (course : Uuid) (rows : List ExerciseRow) (keep : List Str) (reply : Reply) :
    List ExerciseRow × Except ApiError Unit :=
  reply.carry rows (missingDeleted course rows keep)

/-- Defines a course's exercises in bulk. -/
def define (resolved : Except ApiError Uuid) (body : DefineRequest) (now : Int)
    (newId : Item → Uuid) (rows : List ExerciseRow) (saving deleting : Reply) :
    List ExerciseRow × Except ApiError Unit :=
  match resolved with
  | .error e => (rows, .error e)
  | .ok course =>
      let items := itemsOf body.exercises
      match upsert course now newId rows items saving with
      | (rows, .error e) => (rows, .error e)
      | (rows, .ok ()) =>
          if body.replace then deleteMissing course rows (items.map Item.slug) deleting
          else (rows, .ok ())

/-! ### The last entries -/

theorem mem_slugs_fold (slug : Str) (items last : List Item) :
    (∃ item ∈ items.foldl (fun last item =>
      if last.any fun kept => kept.slug = item.slug then last else last ++ [item]) last,
        item.slug = slug) ↔
      (∃ item ∈ last, item.slug = slug) ∨ ∃ item ∈ items, item.slug = slug := by
  induction items generalizing last with
  | nil => simp
  | cons item items ih =>
      rw [List.foldl_cons, ih]
      split
      · next listed =>
          obtain ⟨kept, member, same⟩ := List.any_eq_true.mp listed
          rw [decide_eq_true_eq] at same
          constructor
          · rintro (before | ⟨later, found, named⟩)
            · exact .inl before
            · exact .inr ⟨later, List.mem_cons_of_mem _ found, named⟩
          · rintro (before | ⟨later, found, named⟩)
            · exact .inl before
            · rcases List.mem_cons.mp found with rfl | found
              · exact .inl ⟨kept, member, same.trans named⟩
              · exact .inr ⟨later, found, named⟩
      · simp only [List.mem_append, List.mem_cons, List.not_mem_nil, or_and_right, exists_or,
          exists_eq_left, or_assoc, or_false]

theorem mem_slugs_lastEntries {items : List Item} {slug : Str} :
    (∃ item ∈ lastEntries items, item.slug = slug) ↔ ∃ item ∈ items, item.slug = slug := by
  simpa [lastEntries] using mem_slugs_fold slug items.reverse []

/-- No two of the items have one slug. -/
def Distinct (items : List Item) : Prop :=
  items.Pairwise fun first second => first.slug ≠ second.slug

theorem distinct_fold {items last : List Item} (distinct : Distinct last) :
    Distinct (items.foldl (fun last item =>
      if last.any fun kept => kept.slug = item.slug then last else last ++ [item]) last) := by
  induction items generalizing last with
  | nil => exact distinct
  | cons item items ih =>
      rw [List.foldl_cons]
      apply ih
      split
      · exact distinct
      · next fresh =>
          apply List.pairwise_append.mpr
          refine ⟨distinct, List.pairwise_singleton _ _, ?_⟩
          intro kept member other here same
          rw [List.mem_singleton.mp here] at same
          exact fresh (List.any_eq_true.mpr ⟨kept, member, decide_eq_true same⟩)

theorem distinct_lastEntries (items : List Item) : Distinct (lastEntries items) := by
  unfold Distinct lastEntries
  rw [List.pairwise_reverse]
  exact (distinct_fold List.Pairwise.nil).imp fun different => different.symm

/-! ### What the statements do -/

variable {course : Uuid} {now : Int} {newId : Item → Uuid} {rows : List ExerciseRow}

/-- The course has an exercise with the slug. -/
def HasSlug (rows : List ExerciseRow) (course : Uuid) (slug : Str) : Prop :=
  ∃ row ∈ rows, row.courseId = course ∧ row.slug = slug

/-- The item is saved as it was listed. -/
def Stored (rows : List ExerciseRow) (course : Uuid) (item : Item) : Prop :=
  ∃ row ∈ rows, row.courseId = course ∧ row.slug = item.slug ∧ row.title = item.title ∧
    row.position = item.position

/-- The unique key of the table. -/
def Keyed (rows : List ExerciseRow) : Prop :=
  ∀ row ∈ rows, ∀ row' ∈ rows, row.courseId = row'.courseId → row.slug = row'.slug → row = row'

theorem updated_key (course : Uuid) (item : Item) (row : ExerciseRow) :
    (updated course item row).courseId = row.courseId ∧
      (updated course item row).slug = row.slug := by
  unfold updated
  split <;> exact ⟨rfl, rfl⟩

theorem hasSlug_upsertRow {item : Item} {slug : Str} :
    HasSlug (upsertRow course now newId rows item) course slug ↔
      HasSlug rows course slug ∨ slug = item.slug := by
  unfold upsertRow
  split
  · next conflict =>
      obtain ⟨there, member, same⟩ := List.any_eq_true.mp conflict
      rw [decide_eq_true_eq] at same
      constructor
      · rintro ⟨row, found, of, named⟩
        obtain ⟨before, was, rfl⟩ := List.mem_map.mp found
        obtain ⟨courseId, key⟩ := updated_key course item before
        exact .inl ⟨before, was, courseId ▸ of, key ▸ named⟩
      · rintro (⟨row, found, of, named⟩ | rfl)
        · obtain ⟨courseId, key⟩ := updated_key course item row
          exact ⟨_, List.mem_map_of_mem found, courseId.trans of, key.trans named⟩
        · obtain ⟨courseId, key⟩ := updated_key course item there
          exact ⟨_, List.mem_map_of_mem member, courseId.trans same.1, key.trans same.2⟩
  · constructor
    · rintro ⟨row, found, of, named⟩
      rcases List.mem_append.mp found with found | added
      · exact .inl ⟨row, found, of, named⟩
      · obtain rfl := List.mem_singleton.mp added
        exact .inr named.symm
    · rintro (⟨row, found, of, named⟩ | rfl)
      · exact ⟨row, List.mem_append_left _ found, of, named⟩
      · exact ⟨_, List.mem_append_right _ (List.mem_singleton_self _), rfl, rfl⟩

theorem hasSlug_upsertRows {items : List Item} {slug : Str} :
    HasSlug (upsertRows course now newId rows items) course slug ↔
      HasSlug rows course slug ∨ ∃ item ∈ items, item.slug = slug := by
  rw [← mem_slugs_lastEntries]
  unfold upsertRows
  generalize lastEntries items = entries
  induction entries generalizing rows with
  | nil => simp
  | cons entry entries ih =>
      rw [List.foldl_cons, ih, hasSlug_upsertRow]
      simp only [List.mem_cons, or_and_right, exists_or, exists_eq_left, or_assoc,
        eq_comm (a := slug)]

theorem hasSlug_missingDeleted {keep : List Str} {slug : Str} :
    HasSlug (missingDeleted course rows keep) course slug ↔
      HasSlug rows course slug ∧ slug ∈ keep := by
  constructor
  · rintro ⟨row, found, of, rfl⟩
    obtain ⟨member, kept⟩ := List.mem_filter.mp found
    refine ⟨⟨row, member, of, rfl⟩, ?_⟩
    simp [of] at kept
    exact kept.2
  · rintro ⟨⟨row, found, of, rfl⟩, wanted⟩
    refine ⟨row, List.mem_filter.mpr ⟨found, ?_⟩, of, rfl⟩
    have some_left : keep ≠ [] := List.ne_nil_of_mem wanted
    simp [of, wanted, some_left]

theorem stored_upsertRow_self (item : Item) :
    Stored (upsertRow course now newId rows item) course item := by
  unfold upsertRow
  split
  · next conflict =>
      obtain ⟨there, member, same⟩ := List.any_eq_true.mp conflict
      rw [decide_eq_true_eq] at same
      refine ⟨_, List.mem_map_of_mem member, ?_⟩
      rw [updated, if_pos same]
      exact ⟨same.1, same.2, rfl, rfl⟩
  · exact ⟨_, List.mem_append_right _ (List.mem_singleton_self _), rfl, rfl, rfl, rfl⟩

theorem Stored.upsertRow {item other : Item} (stored : Stored rows course item)
    (different : item.slug ≠ other.slug) :
    Stored (upsertRow course now newId rows other) course item := by
  obtain ⟨row, found, of, named, rest⟩ := stored
  unfold Exercises.upsertRow
  split
  · refine ⟨_, List.mem_map_of_mem found, ?_⟩
    have elsewhere : ¬ (row.courseId = course ∧ row.slug = other.slug) :=
      fun same => different (named.symm.trans same.2)
    rw [updated, if_neg elsewhere]
    exact ⟨of, named, rest⟩
  · exact ⟨row, List.mem_append_left _ found, of, named, rest⟩

/-- After the statement every entry is saved as it was listed. -/
theorem stored_upsertRows {items : List Item} :
    ∀ item ∈ lastEntries items, Stored (upsertRows course now newId rows items) course item := by
  unfold upsertRows
  have distinct := distinct_lastEntries items
  generalize lastEntries items = entries at distinct ⊢
  induction entries generalizing rows with
  | nil => simp
  | cons entry entries ih =>
      obtain ⟨others, rest⟩ := List.pairwise_cons.mp distinct
      have keeps : ∀ (later : List Item) (rows : List ExerciseRow), Stored rows course entry →
          (∀ item ∈ later, entry.slug ≠ item.slug) →
          Stored (later.foldl (upsertRow course now newId) rows) course entry := by
        intro later
        induction later with
        | nil => exact fun _ stored _ => stored
        | cons next later keeps =>
            intro rows stored apart
            rw [List.foldl_cons]
            apply keeps _ (stored.upsertRow (apart next List.mem_cons_self))
            exact fun item member => apart item (List.mem_cons_of_mem _ member)
      intro item member
      rw [List.foldl_cons]
      rcases List.mem_cons.mp member with rfl | member
      · exact keeps entries _ (stored_upsertRow_self item) others
      · exact ih rest item member

/-- Saving what is saved already changes nothing. -/
theorem upsertRow_of_stored {item : Item} (keyed : Keyed rows) (stored : Stored rows course item) :
    upsertRow course now newId rows item = rows := by
  obtain ⟨there, found, of, named, title, position⟩ := stored
  unfold upsertRow
  rw [if_pos (List.any_eq_true.mpr ⟨there, found, decide_eq_true ⟨of, named⟩⟩)]
  conv_rhs => rw [← List.map_id rows]
  apply List.map_congr_left
  intro row member
  unfold updated
  split
  · next same =>
      obtain rfl := keyed row member there found (same.1.trans of.symm) (same.2.trans named.symm)
      apply ExerciseRow.ext <;> first | rfl | exact title.symm | exact position.symm
  · rfl

theorem upsertRows_eq_iff {items : List Item} (keyed : Keyed rows) :
    upsertRows course now newId rows items = rows ↔
      ∀ item ∈ lastEntries items, Stored rows course item := by
  constructor
  · intro same item member
    rw [← same]
    exact stored_upsertRows item member
  · unfold upsertRows
    generalize lastEntries items = entries
    intro stored
    induction entries with
    | nil => rfl
    | cons entry entries ih =>
        rw [List.foldl_cons, upsertRow_of_stored keyed (stored entry List.mem_cons_self)]
        exact ih fun item member => stored item (List.mem_cons_of_mem _ member)

theorem Stored.missingDeleted {item : Item} {keep : List Str} (stored : Stored rows course item)
    (wanted : item.slug ∈ keep) : Stored (missingDeleted course rows keep) course item := by
  obtain ⟨row, found, of, named, rest⟩ := stored
  have some_left : keep ≠ [] := List.ne_nil_of_mem wanted
  refine ⟨row, List.mem_filter.mpr ⟨found, ?_⟩, of, named, rest⟩
  simp [of, named, wanted, some_left]

theorem missingDeleted_eq_iff {keep : List Str} :
    missingDeleted course rows keep = rows ↔ ∀ slug, HasSlug rows course slug → slug ∈ keep := by
  unfold missingDeleted
  rw [List.filter_eq_self]
  constructor
  · rintro kept slug ⟨row, found, of, rfl⟩
    have here := kept row found
    simp [of] at here
    exact here.2
  · intro listed row found
    by_cases of : row.courseId = course
    · have wanted := listed row.slug ⟨row, found, of, rfl⟩
      have some_left : keep ≠ [] := List.ne_nil_of_mem wanted
      simp [wanted, some_left]
    · simp [of]

end Exercises

end Hermione
