import Hermione.CourseFile

/-!
# Names of exercises

The editor reports the exercise of a file by its name in the course file, while
the exercises are defined under the slugs of those names.  The two agree where
the name is a slug already.
-/

namespace Hermione

/-! ### The slugs -/

theorem mem_discover {out : List DiscoveredExercise} {ex : Json Str} {slug : Str} :
    slug ∈ (discover out ex).map DiscoveredExercise.slug ↔
      slug ∈ out.map DiscoveredExercise.slug ∨
        ∃ name, ex.get "name".toList = some (.string name) ∧ normalizeSlug name = some slug := by
  unfold discover
  split
  · next name own =>
      rw [own]
      cases made : normalizeSlug name with
      | none => simp [made]
      | some other =>
          dsimp only
          split
          · next known =>
              obtain ⟨entry, listed, same⟩ := List.any_eq_true.mp known
              rw [decide_eq_true_eq] at same
              constructor
              · exact .inl
              · rintro (before | ⟨name', ⟨⟩, slugged⟩)
                · exact before
                · rw [made] at slugged
                  cases slugged
                  exact List.mem_map.mpr ⟨entry, listed, same⟩
          · simp [made, eq_comm]
  · next other =>
      constructor
      · exact .inl
      · rintro (before | ⟨name, own, -⟩)
        · exact before
        · exact absurd own (other name)

theorem mem_discover_loop {arr : List (Json Str)} {out : List DiscoveredExercise} {slug : Str} :
    slug ∈ (arr.foldl discover out).map DiscoveredExercise.slug ↔
      slug ∈ out.map DiscoveredExercise.slug ∨
        ∃ ex ∈ arr, ∃ name, ex.get "name".toList = some (.string name) ∧
          normalizeSlug name = some slug := by
  induction arr generalizing out with
  | nil => simp
  | cons ex arr ih =>
      rw [List.foldl_cons, ih, mem_discover, or_assoc, List.exists_mem_cons_iff]

/-- The slugs that exercises are defined under. -/
def slugs (cfg : Json Str) : List Str :=
  (exercisesFromConfig cfg).map DiscoveredExercise.slug

theorem mem_slugs {cfg : Json Str} {slug : Str} :
    slug ∈ slugs cfg ↔
      ∃ arr, cfg.get "exercises".toList = some (.array arr) ∧
        ∃ ex ∈ arr, ∃ name, ex.get "name".toList = some (.string name) ∧
          normalizeSlug name = some slug := by
  unfold slugs exercisesFromConfig
  split
  · next arr own =>
      rw [mem_discover_loop, own]
      simp
  · next other =>
      constructor
      · simp
      · rintro ⟨arr, own, -⟩
        exact absurd own (other arr)

theorem slugForm_of_mem_slugs {cfg : Json Str} {slug : Str} (member : slug ∈ slugs cfg) :
    SlugForm slug := by
  obtain ⟨arr, -, ex, -, name, -, made⟩ := mem_slugs.mp member
  exact slugForm_of_normalizeSlug made

/-! ### The rules -/

namespace ExerciseMap

variable (foreign : Json Str → Option (List (List UInt16 → Bool)))

/-- A rule goes by the name of its entry. -/
theorem name_of_ruleOf {ex : Json Str} {rule : ExerciseRule}
    (read : ruleOf foreign ex = some rule) : rule.name = ex.get "name".toList := by
  cases ex with
  | object members =>
      obtain ⟨patterns, -, rfl⟩ := Option.map_eq_some_iff.mp read
      rfl
  | null => cases read
  | _ =>
      cases read
      rfl

/-- Of the entries, the one that decides about a path: the first whose rule covers
it, if everything before it could be read. -/
inductive Decides (path : List UInt16) : List (Json Str) → Json Str → Prop where
  | here {ex : Json Str} {rest : List (Json Str)} {rule : ExerciseRule}
      (read : ruleOf foreign ex = some rule) (covers : rule.covers path = true) :
      Decides path (ex :: rest) ex
  | later {other ex : Json Str} {rest : List (Json Str)} {rule : ExerciseRule}
      (read : ruleOf foreign other = some rule) (passed : rule.covers path = false)
      (decides : Decides path rest ex) : Decides path (other :: rest) ex

variable {foreign}

theorem Decides.mem {path : List UInt16} {exercises : List (Json Str)} {ex : Json Str}
    (decides : Decides foreign path exercises ex) : ex ∈ exercises := by
  induction decides with
  | here => exact List.mem_cons_self
  | later _ _ _ ih => exact List.mem_cons_of_mem _ ih

theorem Decides.readable {path : List UInt16} {exercises : List (Json Str)} {ex : Json Str}
    (decides : Decides foreign path exercises ex) : ∃ rule, ruleOf foreign ex = some rule := by
  induction decides with
  | here read => exact ⟨_, read⟩
  | later _ _ _ ih => exact ih

/-- The path is resolved by the rule of the entry that decides. -/
theorem find_loadRules_iff {path : List UInt16} {exercises : List (Json Str)}
    {rule : ExerciseRule} :
    (loadRules foreign exercises).1.find? (fun rule => rule.covers path) = some rule ↔
      ∃ ex, Decides foreign path exercises ex ∧ ruleOf foreign ex = some rule := by
  induction exercises with
  | nil =>
      constructor
      · intro found
        cases found
      · rintro ⟨ex, decides, -⟩
        cases decides
  | cons other rest ih =>
      rw [loadRules]
      cases own : ruleOf foreign other with
      | none =>
          constructor
          · intro found
            cases found
          · rintro ⟨ex, decides, -⟩
            cases decides with
            | here read =>
                rw [own] at read
                cases read
            | later read =>
                rw [own] at read
                cases read
      | some first =>
          dsimp only
          by_cases covers : first.covers path = true
          · simp only [List.find?_cons, covers]
            constructor
            · rintro ⟨⟩
              exact ⟨other, .here own covers, own⟩
            · rintro ⟨ex, decides, read⟩
              cases decides with
              | here => rw [← read, own]
              | later read' passed =>
                  rw [own] at read'
                  cases read'
                  rw [covers] at passed
                  cases passed
          · rw [Bool.not_eq_true] at covers
            simp only [List.find?_cons, covers, ih]
            constructor
            · rintro ⟨ex, decides, read⟩
              exact ⟨ex, .later own covers decides, read⟩
            · rintro ⟨ex, decides, read⟩
              cases decides with
              | here read' covers' =>
                  rw [own] at read'
                  cases read'
                  rw [covers] at covers'
                  cases covers'
              | later _ _ decides => exact ⟨ex, decides, read⟩

theorem load_single {file : Json Str} {exercises : List (Json Str)}
    (listed : exercisesOf file = some exercises) :
    (load foreign [file]).1 = (loadRules foreign exercises).1 := by
  rw [load, listed]
  dsimp only
  cases loadRules foreign exercises with
  | mk rules threw => cases threw <;> simp [load]

theorem resolve_loadRules_iff {exercises : List (Json Str)} {name : Json Str} {path : Str} :
    resolve (loadRules foreign exercises).1 path = some name ↔
      ∃ ex, Decides foreign (normalized path) exercises ex ∧ ex.get "name".toList = some name := by
  unfold resolve
  rw [Option.bind_eq_some_iff]
  constructor
  · rintro ⟨rule, found, own⟩
    obtain ⟨ex, decides, read⟩ := find_loadRules_iff.mp found
    exact ⟨ex, decides, (name_of_ruleOf foreign read).symm.trans own⟩
  · rintro ⟨ex, decides, own⟩
    obtain ⟨rule, read⟩ := decides.readable
    exact ⟨rule, find_loadRules_iff.mpr ⟨ex, decides, read⟩,
      (name_of_ruleOf foreign read).trans own⟩

/-- What is reported for a path is the name of the entry that decides about it. -/
theorem resolve_iff {content name : Json Str} {path : Str} :
    resolve (load foreign (readCourseFiles [content])).1 path = some name ↔
      ∃ exercises ex, exercisesOf content = some exercises ∧
        Decides foreign (normalized path) exercises ex ∧
        ex.get "name".toList = some name := by
  cases content with
  | object members =>
      have used : readCourseFiles [.object members] = [.object members] := rfl
      rw [used]
      cases listed : exercisesOf (.object members) with
      | none =>
          rw [load, listed]
          constructor
          · intro reported
            cases reported
          · rintro ⟨exercises, ex, ⟨⟩, -⟩
      | some exercises =>
          rw [load_single listed, resolve_loadRules_iff]
          simp
  | _ =>
      constructor
      · intro reported
        cases reported
      · rintro ⟨exercises, ex, listed, decides, -⟩
        cases listed
        cases decides

/-- Where an entry has a name, the entries are those that server and recorder go
through. -/
theorem array_of_named {content ex name : Json Str} {exercises : List (Json Str)}
    (listed : exercisesOf content = some exercises) (member : ex ∈ exercises)
    (own : ex.get "name".toList = some name) :
    content.get "exercises".toList = some (.array exercises) := by
  unfold exercisesOf at listed
  split at listed
  · cases listed
    cases member
  · cases listed
    cases member
  · next arr found =>
      cases listed
      exact found
  · cases listed
    obtain ⟨char, -, rfl⟩ := List.mem_map.mp member
    cases own
  · cases listed

end ExerciseMap

/-! ### Agreement -/

/-- What the editor reports for a path, if it is anything, is a slug that server
and recorder both define an exercise under. -/
def NamesAgree (foreign : Json Str → Option (List (List UInt16 → Bool))) (content : Json Str)
    (path : Str) : Prop :=
  ∀ name, ExerciseMap.resolve (ExerciseMap.load foreign (readCourseFiles [content])).1 path =
      some name → name ≠ .null →
    ∃ slug, name = .string slug ∧
      slug ∈ (exercisesFromConfig content).map DiscoveredExercise.slug ∧
      slug ∈ (Recorder.exercisesFromConfig content).map DiscoveredExercise.slug

/-- If the entry has a name, it is a string that has the form of a slug. -/
def NamedAsSlug (ex : Json Str) : Prop :=
  ∀ name, ex.get "name".toList = some name → name ≠ .null →
    ∃ slug, name = .string slug ∧ SlugForm slug

/-- The names agree exactly where the entry that decides is named by a slug. -/
theorem namesAgree_iff (foreign : Json Str → Option (List (List UInt16 → Bool)))
    (content : Json Str) (path : Str) :
    NamesAgree foreign content path ↔
      ∀ exercises ex, ExerciseMap.exercisesOf content = some exercises →
        ExerciseMap.Decides foreign (ExerciseMap.normalized path) exercises ex →
          NamedAsSlug ex := by
  constructor
  · intro agree exercises ex listed decides name own some
    obtain ⟨slug, rfl, seeded, -⟩ := agree name
      (ExerciseMap.resolve_iff.mpr ⟨exercises, ex, listed, decides, own⟩) some
    exact ⟨slug, rfl, slugForm_of_mem_slugs seeded⟩
  · intro named name reported some
    obtain ⟨exercises, ex, listed, decides, own⟩ := ExerciseMap.resolve_iff.mp reported
    obtain ⟨slug, rfl, form⟩ := named exercises ex listed decides name own some
    have listedIn := ExerciseMap.array_of_named listed decides.mem own
    have seeded : slug ∈ slugs content :=
      mem_slugs.mpr ⟨exercises, listedIn, ex, decides.mem, slug, own,
        normalizeSlug_eq_self_iff.mpr form⟩
    exact ⟨slug, rfl, seeded, seeded⟩

/-- The one exercise of a course, under some name, that all files belong to. -/
def onlyExerciseNamed (name : String) : Json Str :=
  .object [("exercises".toList, .array [.object
    [("name".toList, .string name.toList), ("match".toList, .string "**".toList)]])]

/-- A name with a capital and a blank is reported as it is. -/
theorem not_namesAgree_capital :
    ExerciseMap.resolve (ExerciseMap.load (fun _ => none)
      (readCourseFiles [onlyExerciseNamed "Exercise 1"])).1 "a.py".toList =
        some (.string "Exercise 1".toList) ∧
    (exercisesFromConfig (onlyExerciseNamed "Exercise 1")).map DiscoveredExercise.slug =
      ["exercise-1".toList] ∧
    ¬ NamesAgree (fun _ => none) (onlyExerciseNamed "Exercise 1") "a.py".toList := by
  have reported : ExerciseMap.resolve (ExerciseMap.load (fun _ => none)
      (readCourseFiles [onlyExerciseNamed "Exercise 1"])).1 "a.py".toList =
        some (.string "Exercise 1".toList) := rfl
  refine ⟨reported, rfl, ?_⟩
  intro agree
  obtain ⟨slug, same, seeded, -⟩ := agree _ reported nofun
  cases same
  revert seeded
  decide

end Hermione
