import Hermione.ExerciseGlobs
import Hermione.StableSorts

/-!
# A course file of folders

The recorder writes a course file with one exercise for each folder, and the editor reads
its globs.  A path belongs to the folder that it begins with, if that was the first folder
with its slug.
-/

namespace Hermione

/-! ### The recorder -/

namespace Recorder

/-- One rule of the course file. -/
structure ExerciseRule where
  name : Str
  pattern : Str
  deriving DecidableEq

/-- One rule per folder, beside those of the slugs that were seen. -/
def rulesBeside (seen : Finset Str) : List Str → List ExerciseRule
  | [] => []
  | folder :: folders =>
      match normalizeSlug folder with
      | none => rulesBeside seen folders
      | some slug =>
          if slug ∈ seen then rulesBeside seen folders
          else
            { name := slug, pattern := folder ++ "/**".toList } ::
              rulesBeside (insert slug seen) folders

def exerciseRulesForFolders (folders : List Str) : List ExerciseRule :=
  rulesBeside ∅ folders

/-- A folder whose name has no glob wildcard. -/
def isUsable (folder : Str) : Bool :=
  !folder.any fun char => char == '*' || char == '?'

def ExerciseRule.entry (rule : ExerciseRule) : Json Str :=
  .object [("name".toList, .string rule.name), ("match".toList, .string rule.pattern)]

def hermioneConfig (rules : List ExerciseRule) : Json Str :=
  .object [("exercises".toList, .array (rules.map ExerciseRule.entry))]

/-- What `course init` does with the folders it found. -/
structure Init where
  skipped : List Str
  /-- Nothing is written if no folder has a rule. -/
  written : Option (Json Str)

def init (folders : List Str) : Init :=
  let (usable, skipped) := (StableSorts.sortBy id folders).partition isUsable
  let rules := StableSorts.sortBy ExerciseRule.name (exerciseRulesForFolders usable)
  { skipped, written := if rules = [] then none else some (hermioneConfig rules) }

/-- The rules that are written. -/
def rulesFor (folders : List Str) : List ExerciseRule :=
  StableSorts.sortBy ExerciseRule.name
    (exerciseRulesForFolders ((StableSorts.sortBy id folders).filter isUsable))

theorem init_written (folders : List Str) : (init folders).written =
    if rulesFor folders = [] then none else some (hermioneConfig (rulesFor folders)) := by
  rw [init, List.partition_eq_filter_filter]
  rfl

/-- What is skipped is what has a wildcard. -/
theorem mem_skipped {folders : List Str} {folder : Str} :
    folder ∈ (init folders).skipped ↔ folder ∈ folders ∧ isUsable folder = false := by
  have skipped : (init folders).skipped =
      (StableSorts.sortBy id folders).filter fun folder => !isUsable folder := by
    rw [init, List.partition_eq_filter_filter]
    rfl
  rw [skipped, List.mem_filter, (StableSorts.sortBy_perm id folders).mem_iff, Bool.not_eq_true']

/-- The folder is the first of those whose names have its slug. -/
structure First (folders : List Str) (folder slug : Str) : Prop where
  listed : folder ∈ folders
  usable : isUsable folder = true
  named : normalizeSlug folder = some slug
  least : ∀ other ∈ folders, isUsable other = true → normalizeSlug other = some slug →
    folder ≤ other

/-- A slug that was not seen has the rule of the first folder with it. -/
theorem mem_rulesBeside {seen : Finset Str} {folders : List Str} {rule : ExerciseRule} :
    rule ∈ rulesBeside seen folders ↔
      rule.name ∉ seen ∧ ∃ folder, rule.pattern = folder ++ "/**".toList ∧
        folders.find? (fun folder => normalizeSlug folder = some rule.name) = some folder := by
  induction folders generalizing seen with
  | nil => simp [rulesBeside]
  | cons folder folders ih =>
      rw [rulesBeside, List.find?_cons]
      cases named : normalizeSlug folder with
      | none => exact ih
      | some slug =>
          dsimp only
          by_cases own : slug = rule.name
          · subst own
            rw [decide_eq_true rfl]
            split
            case isTrue known =>
              exact iff_of_false (fun member => (ih.mp member).1 known) fun new => new.1 known
            case isFalse new =>
              constructor
              · intro member
                rcases List.mem_cons.mp member with rule_eq | later
                · exact ⟨new, folder, congrArg ExerciseRule.pattern rule_eq, rfl⟩
                · exact absurd (Finset.mem_insert_self _ _) (ih.mp later).1
              · rintro ⟨-, first, pattern, found⟩
                cases found
                cases rule
                cases pattern
                exact List.mem_cons_self
          · have other : decide (some slug = some rule.name) = false :=
              decide_eq_false fun same => own (Option.some.inj same)
            rw [other]
            split
            · exact ih
            · have later : rule ≠ { name := slug, pattern := folder ++ "/**".toList } := by
                rintro rfl
                exact own rfl
              rw [List.mem_cons, or_iff_right later, ih, Finset.mem_insert,
                or_iff_right (Ne.symm own)]

theorem pairwise_sorted (folders : List Str) :
    ((StableSorts.sortBy id folders).filter isUsable).Pairwise fun folder other => folder ≤ other :=
  (StableSorts.pairwise_sortBy id folders).filter _

theorem mem_sorted {folders : List Str} {folder : Str} :
    folder ∈ (StableSorts.sortBy id folders).filter isUsable ↔
      folder ∈ folders ∧ isUsable folder = true := by
  rw [List.mem_filter, (StableSorts.sortBy_perm id folders).mem_iff]

theorem First.unique {folders : List Str} {folder other slug : Str}
    (first : First folders folder slug) (second : First folders other slug) : folder = other :=
  le_antisymm (first.least other second.listed second.usable second.named)
    (second.least folder first.listed first.usable first.named)

/-- The first that is found in the order of the names. -/
theorem first_of_find {folders : List Str} {folder slug : Str}
    (found : ((StableSorts.sortBy id folders).filter isUsable).find?
      (fun folder => normalizeSlug folder = some slug) = some folder) :
    First folders folder slug := by
  obtain ⟨member, usable⟩ := mem_sorted.mp (List.mem_of_find?_eq_some found)
  obtain ⟨named, before, after, order, others⟩ := List.find?_eq_some_iff_append.mp found
  have sorted := pairwise_sorted folders
  rw [order] at sorted
  refine ⟨member, usable, of_decide_eq_true named, ?_⟩
  intro other known plain same
  have place := mem_sorted.mpr ⟨known, plain⟩
  rw [order] at place
  rcases List.mem_append.mp place with early | late
  · have differs := others other early
    rw [decide_eq_true same] at differs
    cases differs
  · rcases List.mem_cons.mp late with rfl | later
    · exact le_refl _
    · exact (List.pairwise_cons.mp (List.pairwise_append.mp sorted).2.1).1 other later

/-- The rules are those of the first folders. -/
theorem mem_rulesFor {folders : List Str} {rule : ExerciseRule} :
    rule ∈ rulesFor folders ↔
      ∃ folder, rule.pattern = folder ++ "/**".toList ∧ First folders folder rule.name := by
  rw [rulesFor, (StableSorts.sortBy_perm _ _).mem_iff, exerciseRulesForFolders, mem_rulesBeside,
    and_iff_right (Finset.notMem_empty _)]
  constructor
  · rintro ⟨folder, pattern, found⟩
    exact ⟨folder, pattern, first_of_find found⟩
  · rintro ⟨folder, pattern, first⟩
    refine ⟨folder, pattern, ?_⟩
    cases found : ((StableSorts.sortBy id folders).filter isUsable).find?
        fun folder => normalizeSlug folder = some rule.name with
    | none =>
        have member := mem_sorted.mpr ⟨first.listed, first.usable⟩
        have other := List.find?_eq_none.mp found folder member
        exact absurd (decide_eq_true first.named) other
    | some other => rw [first.unique (first_of_find found)]

/-- What an exercise of the file declares. -/
def ExerciseRule.spec (rule : ExerciseRule) : ExerciseSpec :=
  { name := rule.name, globs := [rule.pattern] }

/-- The file of some rules declares them. -/
theorem declares_hermioneConfig (rules : List ExerciseRule) :
    DeclaresAll (hermioneConfig rules) (rules.map ExerciseRule.spec) := by
  refine ⟨rules.map ExerciseRule.entry, rfl, ?_⟩
  rw [List.forall₂_map_left_iff, List.forall₂_map_right_iff, List.forall₂_same]
  intro rule _
  exact .one rfl rfl

/-- The editor takes the first rule whose pattern matches. -/
theorem resolve_written (foreign : Json Str → Option (List (List UInt16 → Bool)))
    (folders : List Str) (path : Str) :
    ExerciseMap.resolve (ExerciseMap.load foreign (init folders).written.toList).1 path =
      ((rulesFor folders).find? fun rule =>
        rule.spec.covers (ExerciseMap.normalized path)).map fun rule => .string rule.name := by
  rw [init_written]
  split
  case isTrue none =>
    rw [none]
    rfl
  case isFalse some =>
    obtain ⟨rules, loaded, ruled⟩ := ExerciseMap.load_declared foreign
      (.cons (declares_hermioneConfig (rulesFor folders)) .nil)
    rw [Option.toList_some, loaded, ExerciseMap.resolve_ruled ruled, List.flatten_singleton,
      List.find?_map, Option.map_map]
    rfl

end Recorder

/-! ### The editor -/

namespace Glob

/-- What is read as it is written matches itself. -/
theorem test_literals (units : List UInt16) (pieces : List Piece) (path : List UInt16) :
    RegExp.test (units.map .literal ++ pieces) path = true ↔
      ∃ rest, path = units ++ rest ∧ RegExp.test pieces rest = true := by
  induction units generalizing path with
  | nil => simp
  | cons unit units ih =>
      cases path with
      | nil => simp [RegExp.test]
      | cons first path =>
          rw [List.map_cons, List.cons_append, RegExp.test, Bool.and_eq_true, beq_iff_eq, ih]
          constructor
          · rintro ⟨rfl, rest, rfl, later⟩
            exact ⟨rest, rfl, later⟩
          · rintro ⟨rest, whole, later⟩
            obtain ⟨rfl, rfl⟩ := List.cons.inj whole
            exact ⟨rfl, rest, rfl, later⟩

/-- Without wildcards, a glob is read as it is written. -/
theorem globToRegExp_literals {front : Str} (usable : Recorder.isUsable front = true)
    (glob : Str) :
    globToRegExp (front ++ glob) = (Utf16.encode front).map .literal ++ globToRegExp glob := by
  induction front with
  | nil => rfl
  | cons char front ih =>
      simp only [Recorder.isUsable, List.any_cons, Bool.not_or, Bool.and_eq_true,
        Bool.not_eq_true', beq_eq_false_iff_ne] at usable ih
      rw [List.cons_append, globToRegExp_itself usable.1.1 usable.1.2, ih usable.2,
        Utf16.encode_cons, List.map_append, List.append_assoc]

end Glob

namespace ExerciseMap

/-- The path as the editor reads it. -/
def slashes (path : Str) : Str :=
  path.map fun char => if char = '\\' then '/' else char

/-- The path begins with the folder and a slash. -/
def Under (folder path : Str) : Prop :=
  folder ++ ['/'] <+: slashes path

instance (folder path : Str) : Decidable (Under folder path) :=
  inferInstanceAs (Decidable (_ <+: _))

/-- It also goes on in one line. -/
def UnderInLine (folder path : Str) : Prop :=
  ∃ rest, slashes path = folder ++ '/' :: rest ∧
    ∀ unit ∈ Utf16.encode rest, RegExp.isLineTerminator unit = false

theorem UnderInLine.under {folder path : Str} (inLine : UnderInLine folder path) :
    Under folder path := by
  obtain ⟨rest, whole, -⟩ := inLine
  refine ⟨rest, ?_⟩
  rw [whole, List.append_assoc]
  rfl

theorem takeWhile_of_under {folder path : Str} (name : '/' ∉ folder) (under : Under folder path) :
    (slashes path).takeWhile (· ≠ '/') = folder := by
  obtain ⟨rest, whole⟩ := under
  have inside : ∀ char ∈ folder, decide (char ≠ '/') = true := by
    intro char member
    exact decide_eq_true fun same => name (same ▸ member)
  rw [← whole, List.append_assoc, List.takeWhile_append_of_pos inside, List.singleton_append,
    List.takeWhile_cons_of_neg (by simp), List.append_nil]

/-- A path is under one folder at most. -/
theorem Under.unique {folder other path : Str} (name : '/' ∉ folder) (another : '/' ∉ other)
    (first : Under folder path) (second : Under other path) : folder = other :=
  (takeWhile_of_under name first).symm.trans (takeWhile_of_under another second)

/-- The rule of a folder is for the paths under it. -/
theorem covers_iff {folder : Str} (usable : Recorder.isUsable folder = true)
    {rule : Recorder.ExerciseRule} (pattern : rule.pattern = folder ++ "/**".toList) (path : Str) :
    rule.spec.covers (normalized path) = true ↔ UnderInLine folder path := by
  have slash : globToRegExp (folder ++ "/**".toList) =
      (Utf16.encode (folder ++ ['/'])).map .literal ++ [.anything] := by
    have whole := Glob.globToRegExp_literals usable "/**".toList
    rw [whole, Utf16.encode_append, List.map_append, List.append_assoc]
    rfl
  have nonempty : (folder ++ "/**".toList).isEmpty = false := by
    cases folder <;> rfl
  have covers : rule.spec.covers (normalized path) =
      RegExp.test (globToRegExp (folder ++ "/**".toList)) (Utf16.encode (slashes path)) := by
    rw [Recorder.ExerciseRule.spec, ExerciseSpec.covers, List.any_cons, List.any_nil,
      Bool.or_false, pattern, nonempty]
    rfl
  have tail (units : List UInt16) : RegExp.test [.anything] units = true ↔
      ∀ unit ∈ units, RegExp.isLineTerminator unit = false := by
    rw [Glob.test_iff, List.map_singleton, List.prod_singleton, Glob.mem_matchedBy_anything]
  rw [covers, slash, Glob.test_literals]
  constructor
  · rintro ⟨units, whole, line⟩
    obtain ⟨rest, own, rfl⟩ := Utf16.encode_eq_append_iff.mp whole
    rw [List.append_assoc] at own
    exact ⟨rest, own, (tail _).mp line⟩
  · rintro ⟨rest, own, line⟩
    refine ⟨Utf16.encode rest, Utf16.encode_eq_append_iff.mpr ⟨rest, ?_, rfl⟩, (tail _).mpr line⟩
    rw [own, List.append_assoc]
    rfl

section Resolved

variable (foreign : Json Str → Option (List (List UInt16 → Bool))) {folders : List Str}

theorem resolve_of_under (names : ∀ folder ∈ folders, '/' ∉ folder) {folder slug path : Str}
    (first : Recorder.First folders folder slug) (inLine : UnderInLine folder path) :
    resolve (load foreign (Recorder.init folders).written.toList).1 path = some (.string slug) := by
  rw [Recorder.resolve_written]
  cases found : (Recorder.rulesFor folders).find? fun rule =>
      rule.spec.covers (normalized path) with
  | none =>
      have member : ⟨slug, folder ++ "/**".toList⟩ ∈ Recorder.rulesFor folders :=
        Recorder.mem_rulesFor.mpr ⟨folder, rfl, first⟩
      exact absurd ((covers_iff first.usable rfl path).mpr inLine)
        (List.find?_eq_none.mp found _ member)
  | some rule =>
      -- Its folder is the folder of the path, and has one slug.
      obtain ⟨own, pattern, least⟩ :=
        Recorder.mem_rulesFor.mp (List.mem_of_find?_eq_some found)
      have covers := List.find?_some found
      have within := ((covers_iff least.usable pattern path).mp covers).under
      obtain rfl := within.unique (names own least.listed) (names folder first.listed) inLine.under
      have same : some rule.name = some slug := least.named.symm.trans first.named
      cases same
      rfl

theorem resolve_of_not_under {path : Str}
    (others : ∀ folder slug, Recorder.First folders folder slug → ¬Under folder path) :
    resolve (load foreign (Recorder.init folders).written.toList).1 path = none := by
  rw [Recorder.resolve_written, List.find?_eq_none.mpr]
  · rfl
  · intro rule member covers
    obtain ⟨folder, pattern, first⟩ := Recorder.mem_rulesFor.mp member
    exact others folder rule.name first ((covers_iff first.usable pattern path).mp covers).under

/-- Of the files under folders, those under the first folder of each slug have it as their
exercise, and no others have one. -/
theorem init_resolves (folders : List Str) (names : ∀ folder ∈ folders, '/' ∉ folder) :
    (∀ folder slug path, Recorder.First folders folder slug → UnderInLine folder path →
      resolve (load foreign (Recorder.init folders).written.toList).1 path =
        some (.string slug)) ∧
    ∀ path, (∀ folder slug, Recorder.First folders folder slug → ¬Under folder path) →
      resolve (load foreign (Recorder.init folders).written.toList).1 path = none :=
  ⟨fun _ _ _ first inLine => resolve_of_under foreign names first inLine,
    fun _ others => resolve_of_not_under foreign others⟩

end Resolved

theorem underInLine_file {folder path : Str} (whole : slashes path = folder ++ "/a.py".toList) :
    UnderInLine folder path := by
  refine ⟨"a.py".toList, whole, ?_⟩
  have line : (Utf16.encode "a.py".toList).any RegExp.isLineTerminator = false := by decide
  intro unit member
  exact Bool.eq_false_iff.mpr (List.any_eq_false.mp line unit member)

/-- Of `Week (2)` and `week-2` the first has the slug. -/
theorem init_resolves_week :
    let folders := ["Week (2)".toList, "ex".toList, "week-2".toList]
    let written := (Recorder.init folders).written.toList
    resolve (load (fun _ => none) written).1 "Week (2)/a.py".toList =
        some (.string "week-2".toList) ∧
      resolve (load (fun _ => none) written).1 "week-2/a.py".toList = none ∧
      resolve (load (fun _ => none) written).1 "exam/a.py".toList = none := by
  intro folders written
  obtain ⟨own, other⟩ := init_resolves (fun _ => none) folders (by decide)
  refine ⟨own "Week (2)".toList _ _ ⟨List.mem_cons_self, by decide, by decide, by decide⟩
    (underInLine_file (by decide)), other _ ?_, other _ ?_⟩
  · rintro folder slug ⟨listed, -, named, least⟩ under
    simp only [folders, List.mem_cons, List.not_mem_nil, or_false] at listed
    rcases listed with rfl | rfl | rfl
    · exact absurd under (by decide)
    · exact absurd under (by decide)
    · have before := least "Week (2)".toList List.mem_cons_self (by decide) named
      exact absurd before (by decide)
  · rintro folder slug ⟨listed, -⟩ under
    simp only [folders, List.mem_cons, List.not_mem_nil, or_false] at listed
    rcases listed with rfl | rfl | rfl <;> exact absurd under (by decide)

/-- Of two folders with one slug, the second has no rule. -/
theorem not_init_resolves :
    ¬∀ (foreign : Json Str → Option (List (List UInt16 → Bool))) (folders : List Str),
      folders.Nodup → (Recorder.init folders).skipped = [] →
      (∀ folder ∈ folders, '/' ∉ folder) →
      ∀ folder ∈ folders, ∀ slug path, normalizeSlug folder = some slug → UnderInLine folder path →
        resolve (load foreign (Recorder.init folders).written.toList).1 path =
          some (.string slug) := by
  intro resolves
  have usable : (Recorder.init ["Ex 1".toList, "ex-1".toList]).skipped = [] := by
    rw [List.eq_nil_iff_forall_not_mem]
    intro folder skipped
    obtain ⟨listed, wild⟩ := Recorder.mem_skipped.mp skipped
    simp only [List.mem_cons, List.not_mem_nil, or_false] at listed
    rcases listed with rfl | rfl
    · exact absurd wild (by decide)
    · exact absurd wild (by decide)
  have exercise := resolves (fun _ => none) ["Ex 1".toList, "ex-1".toList] (by decide) usable
    (by decide) "ex-1".toList (List.mem_cons_of_mem _ List.mem_cons_self) "ex-1".toList
    "ex-1/a.py".toList (by decide) (underInLine_file (by decide))
  rw [resolve_of_not_under] at exercise
  · cases exercise
  · rintro folder slug ⟨listed, _, named, least⟩ under
    simp only [List.mem_cons, List.not_mem_nil, or_false] at listed
    rcases listed with rfl | rfl
    · exact absurd under (by decide)
    · have before := least "Ex 1".toList List.mem_cons_self (by decide) named
      exact absurd before (by decide)

end ExerciseMap

end Hermione
