import Hermione.Exercises

/-!
# What defining exercises leaves

A list of entries stands for a map: every slug in it, trimmed, goes to what its last
entry says.  A course whose exercises are replaced has exactly that map, one whose
exercises are added to has it over what was there, and no other course is touched.
-/

namespace Hermione

namespace Exercises

/-- `idx as i32` -/
def indexAsPosition (idx : Nat) : Int :=
  (idx : Int).bmod (2 ^ 32)

/-- An index is its own position as long as it fits. -/
theorem indexAsPosition_eq {idx : Nat} (fits : idx < 2 ^ 31) : indexAsPosition idx = idx := by
  unfold indexAsPosition
  rw [Int.bmod_eq_of_le] <;> omega

/-- What a list of entries says of a slug: what its last entry for it does.  A title
that is missing is the slug, a position the entry's index. -/
def lastWins (exercises : List ExerciseIn) (slug : Str) : Option (Str × Int) :=
  ((exercises.zipIdx.filter fun (ex, _) => ex.slug.trim = slug ∧ slug ≠ []).getLast?).map
    fun (ex, idx) => (ex.title.getD slug, ex.position.getD (indexAsPosition idx))

/-- What a course's rows say of a slug. -/
def Maps (rows : List ExerciseRow) (course : Uuid) (slug title : Str) (position : Int) : Prop :=
  Stored rows course { slug, title, position }

/-! ### The last entries -/

theorem mem_fold_iff {item : Item} (items last : List Item) :
    item ∈ items.foldl (fun last item =>
      if last.any fun kept => kept.slug = item.slug then last else last ++ [item]) last ↔
      item ∈ last ∨ ((∀ kept ∈ last, kept.slug ≠ item.slug) ∧
        items.find? (fun other => other.slug = item.slug) = some item) := by
  induction items generalizing last with
  | nil => simp
  | cons first items ih =>
      rw [List.foldl_cons, ih, List.find?_cons]
      by_cases listed : last.any fun kept => kept.slug = first.slug
      · rw [if_pos listed]
        by_cases same : first.slug = item.slug
        · obtain ⟨kept, member, own⟩ := List.any_eq_true.mp listed
          rw [decide_eq_true_eq] at own
          have clash : ¬ ∀ kept ∈ last, kept.slug ≠ item.slug :=
            fun apart => apart kept member (own.trans same)
          simp only [clash, false_and]
        · simp only [same, decide_false]
      · rw [if_neg listed]
        have fresh : ∀ kept ∈ last, kept.slug ≠ first.slug := by simpa using listed
        rw [List.mem_append, List.mem_singleton, List.forall_mem_append, List.forall_mem_singleton]
        by_cases same : first.slug = item.slug
        · rw [same] at fresh
          rw [eq_comm (a := item)]
          simp only [same, decide_true, ne_eq, not_true_eq_false, and_false, false_and, or_false,
            Option.some.injEq]
          exact or_congr_right (and_iff_right fresh).symm
        · have other : item ≠ first := fun here => same (here ▸ rfl)
          simp [same, other]

theorem mem_lastEntries_iff {item : Item} {items : List Item} :
    item ∈ lastEntries items ↔
      (items.filter fun other => other.slug = item.slug).getLast? = some item := by
  rw [lastEntries, List.mem_reverse, mem_fold_iff, List.getLast?_eq_head?_reverse,
    ← List.filter_reverse, List.head?_filter]
  simp

theorem itemsOf_eq (exercises : List ExerciseIn) :
    itemsOf exercises = exercises.zipIdx.filterMap fun (ex, idx) =>
      if ex.slug.trim.isEmpty then none
      else
        some
          { slug := ex.slug.trim
            title := ex.title.getD ex.slug.trim
            position := ex.position.getD (indexAsPosition idx) } :=
  rfl

/-- Of the entries with a slug, what is to be saved. -/
theorem filter_itemsOf (exercises : List ExerciseIn) (slug : Str) :
    (itemsOf exercises).filter (fun item => item.slug = slug) =
      (exercises.zipIdx.filter fun (ex, _) => ex.slug.trim = slug ∧ slug ≠ []).map
        fun (ex, idx) =>
          { slug, title := ex.title.getD slug
            position := ex.position.getD (indexAsPosition idx) } := by
  rw [itemsOf_eq]
  induction exercises.zipIdx with
  | nil => rfl
  | cons entry entries ih =>
      obtain ⟨ex, idx⟩ := entry
      rw [List.filterMap_cons, List.filter_cons]
      by_cases blank : ex.slug.trim = []
      · have apart : ¬ (ex.slug.trim = slug ∧ slug ≠ []) := fun both => both.2 (both.1 ▸ blank)
        simpa [blank, apart] using ih
      · by_cases named : ex.slug.trim = slug
        · subst named
          simpa [blank] using ih
        · simpa [blank, named] using ih

theorem mem_lastEntries_itemsOf_iff {exercises : List ExerciseIn} {item : Item} :
    item ∈ lastEntries (itemsOf exercises) ↔
      lastWins exercises item.slug = some (item.title, item.position) := by
  rw [mem_lastEntries_iff, filter_itemsOf, List.getLast?_map, lastWins, Option.map_eq_some_iff,
    Option.map_eq_some_iff]
  constructor
  · rintro ⟨entry, last, made⟩
    exact ⟨entry, last, by rw [← made]⟩
  · rintro ⟨⟨ex, idx⟩, last, made⟩
    obtain ⟨title, position⟩ := Prod.mk.inj made
    refine ⟨(ex, idx), last, ?_⟩
    dsimp only
    rw [title, position]

/-! ### The statements -/

variable {course : Uuid} {now : Int} {newId : Item → Uuid} {rows : List ExerciseRow}

/-- After one row of the statement, the item is saved, and nothing else of its slug. -/
theorem stored_upsertRow_iff {item entry : Item} :
    Stored (upsertRow course now newId rows entry) course item ↔
      item = entry ∨ (item.slug ≠ entry.slug ∧ Stored rows course item) := by
  constructor
  · rintro ⟨row, member, of, named, title, position⟩
    have own (same : item.slug = entry.slug) (titled : entry.title = item.title)
        (placed : entry.position = item.position) : item = entry := by
      cases item
      cases entry
      simp_all
    unfold upsertRow at member
    split at member
    · obtain ⟨before, was, rfl⟩ := List.mem_map.mp member
      unfold updated at of named title position
      split at of
      · next here =>
          rw [if_pos here] at named title position
          exact .inl (own (named.symm.trans here.2) title position)
      · next apart =>
          rw [if_neg apart] at named title position
          refine .inr ⟨fun same => apart ⟨of, named.trans same⟩, before, was, of, named, title,
            position⟩
    · next fresh =>
        rcases List.mem_append.mp member with before | added
        · refine .inr ⟨fun same => fresh ?_, row, before, of, named, title, position⟩
          exact List.any_eq_true.mpr ⟨row, before, decide_eq_true ⟨of, named.trans same⟩⟩
        · obtain rfl := List.mem_singleton.mp added
          exact .inl (own named.symm title position)
  · rintro (rfl | ⟨different, stored⟩)
    · exact stored_upsertRow_self item
    · exact stored.upsertRow different

theorem stored_foldl_iff {entries : List Item} (distinct : Distinct entries) {item : Item} :
    Stored (entries.foldl (upsertRow course now newId) rows) course item ↔
      item ∈ entries ∨ ((∀ entry ∈ entries, item.slug ≠ entry.slug) ∧ Stored rows course item) := by
  induction entries generalizing rows with
  | nil => simp
  | cons entry entries ih =>
      obtain ⟨others, rest⟩ := List.pairwise_cons.mp distinct
      rw [List.foldl_cons, ih rest, stored_upsertRow_iff, List.mem_cons, List.forall_mem_cons]
      constructor
      · rintro (later | ⟨apart, rfl | ⟨different, stored⟩⟩)
        · exact .inl (.inr later)
        · exact .inl (.inl rfl)
        · exact .inr ⟨⟨different, apart⟩, stored⟩
      · rintro ((rfl | later) | ⟨⟨different, apart⟩, stored⟩)
        · exact .inr ⟨others, .inl rfl⟩
        · exact .inl later
        · exact .inr ⟨apart, .inr ⟨different, stored⟩⟩

/-- The rows of all other courses. -/
def ofOthers (course : Uuid) (rows : List ExerciseRow) : List ExerciseRow :=
  rows.filter fun row => row.courseId ≠ course

theorem ofOthers_upsertRow (item : Item) :
    ofOthers course (upsertRow course now newId rows item) = ofOthers course rows := by
  unfold upsertRow ofOthers
  split
  · have key : (fun row : ExerciseRow => decide (row.courseId ≠ course)) ∘ updated course item =
        fun row => decide (row.courseId ≠ course) := by
      funext row
      rw [Function.comp_apply, (updated_key course item row).1]
    rw [List.filter_map, key]
    conv_rhs => rw [← List.map_id (rows.filter _)]
    apply List.map_congr_left
    intro row member
    have elsewhere := of_decide_eq_true (List.mem_filter.mp member).2
    exact if_neg fun here => elsewhere here.1
  · rw [List.filter_append]
    simp

theorem ofOthers_upsertRows (items : List Item) :
    ofOthers course (upsertRows course now newId rows items) = ofOthers course rows := by
  unfold upsertRows
  induction lastEntries items generalizing rows with
  | nil => rfl
  | cons entry entries ih => rw [List.foldl_cons, ih, ofOthers_upsertRow]

theorem ofOthers_missingDeleted (keep : List Str) :
    ofOthers course (missingDeleted course rows keep) = ofOthers course rows := by
  unfold missingDeleted ofOthers
  rw [List.filter_filter]
  apply List.filter_congr
  intro row _
  by_cases of : row.courseId = course <;> simp [of]

theorem stored_missingDeleted_iff {keep : List Str} {item : Item} :
    Stored (missingDeleted course rows keep) course item ↔
      Stored rows course item ∧ item.slug ∈ keep := by
  constructor
  · rintro ⟨row, found, of, named, rest⟩
    have listed := hasSlug_missingDeleted.mp ⟨row, found, of, named⟩
    exact ⟨⟨row, (List.mem_filter.mp found).1, of, named, rest⟩, listed.2⟩
  · rintro ⟨stored, wanted⟩
    exact stored.missingDeleted wanted

theorem keyed_upsertRow (keyed : Keyed rows) (item : Item) :
    Keyed (upsertRow course now newId rows item) := by
  unfold upsertRow
  split
  · intro row member row' member' sameCourse sameSlug
    obtain ⟨before, was, rfl⟩ := List.mem_map.mp member
    obtain ⟨before', was', rfl⟩ := List.mem_map.mp member'
    have key := updated_key course item before
    have key' := updated_key course item before'
    rw [key.1, key'.1] at sameCourse
    rw [key.2, key'.2] at sameSlug
    rw [keyed before was before' was' sameCourse sameSlug]
  · next fresh =>
      have apart : ∀ row ∈ rows, row.courseId = course → row.slug ≠ item.slug := by
        intro row member of named
        exact fresh (List.any_eq_true.mpr ⟨row, member, decide_eq_true ⟨of, named⟩⟩)
      intro row member row' member' sameCourse sameSlug
      rcases List.mem_append.mp member with before | added <;>
        rcases List.mem_append.mp member' with before' | added'
      · exact keyed row before row' before' sameCourse sameSlug
      · obtain rfl := List.mem_singleton.mp added'
        exact absurd sameSlug (apart row before sameCourse)
      · obtain rfl := List.mem_singleton.mp added
        exact absurd sameSlug.symm (apart row' before' sameCourse.symm)
      · rw [List.mem_singleton.mp added, List.mem_singleton.mp added']

theorem keyed_upsertRows (keyed : Keyed rows) (items : List Item) :
    Keyed (upsertRows course now newId rows items) := by
  unfold upsertRows
  induction lastEntries items generalizing rows with
  | nil => exact keyed
  | cons entry entries ih => exact ih (keyed_upsertRow keyed entry)

theorem keyed_missingDeleted (keyed : Keyed rows) (keep : List Str) :
    Keyed (missingDeleted course rows keep) := by
  intro row member row' member'
  exact keyed row (List.mem_filter.mp member).1 row' (List.mem_filter.mp member').1

/-- Every row is still there, at most with another title and position. -/
def Survive (rows after : List ExerciseRow) : Prop :=
  ∀ row ∈ rows, ∃ row' ∈ after, row'.id = row.id ∧ row'.courseId = row.courseId ∧
    row'.slug = row.slug ∧ row'.createdAt = row.createdAt

theorem survive_upsertRow (item : Item) :
    Survive rows (upsertRow course now newId rows item) := by
  intro row member
  unfold upsertRow
  split
  · refine ⟨updated course item row, List.mem_map_of_mem member, ?_⟩
    unfold updated
    split <;> exact ⟨rfl, rfl, rfl, rfl⟩
  · exact ⟨row, List.mem_append_left _ member, rfl, rfl, rfl, rfl⟩

theorem survive_upsertRows (items : List Item) :
    Survive rows (upsertRows course now newId rows items) := by
  unfold upsertRows
  induction lastEntries items generalizing rows with
  | nil =>
      intro row member
      exact ⟨row, member, rfl, rfl, rfl, rfl⟩
  | cons entry entries ih =>
      intro row member
      obtain ⟨next, here, id, courseId, slug, createdAt⟩ := survive_upsertRow entry row member
      obtain ⟨last, there, id', courseId', slug', createdAt'⟩ := ih next here
      exact ⟨last, there, id'.trans id, courseId'.trans courseId, slug'.trans slug,
        createdAt'.trans createdAt⟩

/-! ### Defining -/

/-- A call that succeeds has carried its statements out. -/
theorem define_ok {body : DefineRequest} {after : List ExerciseRow} {saving deleting : Reply}
    (defined : define (.ok course) body now newId rows saving deleting = (after, .ok ())) :
    after =
      if body.replace then
        missingDeleted course (upsertRows course now newId rows (itemsOf body.exercises))
          ((itemsOf body.exercises).map Item.slug)
      else upsertRows course now newId rows (itemsOf body.exercises) := by
  have upserted {saved : List ExerciseRow}
      (done : upsert course now newId rows (itemsOf body.exercises) saving = (saved, .ok ())) :
      saved = upsertRows course now newId rows (itemsOf body.exercises) := by
    unfold upsert at done
    split at done
    · next none =>
        cases done
        rw [upsertRows, List.isEmpty_iff.mp none]
        rfl
    · exact (Reply.carry_eq_ok_iff.mp done).2.symm
  unfold define at defined
  dsimp only at defined
  split at defined
  · cases defined
  · next saved done =>
      obtain rfl := upserted done
      split at defined
      · next replace => rw [if_pos replace, (Reply.carry_eq_ok_iff.mp defined).2]
      · next keep =>
          cases defined
          rw [if_neg keep]

theorem lastWins_eq_none_iff {exercises : List ExerciseIn} {slug : Str} :
    lastWins exercises slug = none ↔
      ∀ entry ∈ lastEntries (itemsOf exercises), slug ≠ entry.slug := by
  constructor
  · rintro none entry member rfl
    rw [mem_lastEntries_itemsOf_iff, none] at member
    cases member
  · intro apart
    cases own : lastWins exercises slug with
    | none => rfl
    | some said =>
        have member : (⟨slug, said.1, said.2⟩ : Item) ∈ lastEntries (itemsOf exercises) :=
          mem_lastEntries_itemsOf_iff.mpr own
        exact absurd rfl (apart _ member)

/-- A course that is replaced has the map its list stands for; one that is added to has
it over its own, with nothing deleted.  Every other course keeps its rows. -/
theorem define_exact {body : DefineRequest} {after : List ExerciseRow} {saving deleting : Reply}
    (defined : define (.ok course) body now newId rows saving deleting = (after, .ok ())) :
    (body.replace = true → ∀ slug title position, Maps after course slug title position ↔
      lastWins body.exercises slug = some (title, position)) ∧
    (body.replace = false → Survive rows after ∧
      ∀ slug title position, Maps after course slug title position ↔
        lastWins body.exercises slug = some (title, position) ∨
          (lastWins body.exercises slug = none ∧ Maps rows course slug title position)) ∧
    ofOthers course after = ofOthers course rows ∧ (Keyed rows → Keyed after) ∧
    ∀ idx < 2 ^ 31, indexAsPosition idx = idx := by
  have whole := define_ok defined
  have mapped (slug title : Str) (position : Int) :
      Maps (upsertRows course now newId rows (itemsOf body.exercises)) course slug title position ↔
        lastWins body.exercises slug = some (title, position) ∨
          (lastWins body.exercises slug = none ∧ Maps rows course slug title position) := by
    rw [Maps, upsertRows, stored_foldl_iff (distinct_lastEntries _), mem_lastEntries_itemsOf_iff,
      lastWins_eq_none_iff]
    rfl
  cases replace : body.replace with
  | true =>
      rw [replace, if_pos rfl] at whole
      subst whole
      refine ⟨fun _ slug title position => ?_, fun keep => (by cases keep), ?_, ?_,
        fun _ => indexAsPosition_eq⟩
      · rw [Maps, stored_missingDeleted_iff, ← Maps, mapped]
        have listed : slug ∈ (itemsOf body.exercises).map Item.slug ↔
            lastWins body.exercises slug ≠ none := by
          rw [ne_eq, lastWins_eq_none_iff, List.mem_map, ← mem_slugs_lastEntries]
          simp [eq_comm]
        rw [listed]
        constructor
        · rintro ⟨own | ⟨none, -⟩, some⟩
          · exact own
          · exact absurd none some
        · intro own
          exact ⟨.inl own, by rw [own]; exact Option.some_ne_none _⟩
      · rw [ofOthers_missingDeleted, ofOthers_upsertRows]
      · exact fun keyed => keyed_missingDeleted (keyed_upsertRows keyed _) _
  | false =>
      rw [replace, if_neg Bool.false_ne_true] at whole
      subst whole
      refine ⟨fun none => (by cases none), fun _ => ⟨survive_upsertRows _, mapped⟩,
        ofOthers_upsertRows _, fun keyed => keyed_upsertRows keyed _, fun _ => indexAsPosition_eq⟩

/-- One exercise listed twice, in a list that replaces what there was. -/
def listedTwice : DefineRequest where
  course := none
  exercises := [⟨" ex1 ".toList, none, none⟩, ⟨"ex1".toList, some "Loops".toList, none⟩]
  replace := true

theorem define_exact_twice :
    Maps (define (.ok 1) listedTwice 0 (fun _ => 7) [⟨3, 1, "old".toList, [], 0, 0⟩] .done .done).1
      1 "ex1".toList "Loops".toList 1 :=
  ((@define_exact 1 0 (fun _ => 7) [⟨3, 1, "old".toList, [], 0, 0⟩] listedTwice _ .done .done
    rfl).1 rfl _ _ _).mpr (by decide +kernel)

end Exercises

end Hermione
