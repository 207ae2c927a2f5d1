import Hermione.GlobRules

/-!
# Exercise globs

A file belongs to the first exercise of the course files that has a glob for it.
-/

namespace Hermione

/-! ### The exercise of a path -/

/-- One exercise as `.hermione.json` declares it, with its globs in a list. -/
structure ExerciseSpec where
  name : Str
  globs : List Str

/-- The expression of some glob that is not empty matches the path. -/
def ExerciseSpec.covers (spec : ExerciseSpec) (path : List UInt16) : Bool :=
  spec.globs.any fun glob => !glob.isEmpty && RegExp.test (globToRegExp glob) path

/-- The entry has this name, and a glob, a list of globs or none. -/
inductive Declares : Json Str → ExerciseSpec → Prop where
  | none {members : List (Str × Json Str)} {name : Str}
      (own : (Json.object members).get "name".toList = some (.string name))
      (absent : (Json.object members).get "match".toList = none) :
      Declares (.object members) { name, globs := [] }
  | one {members : List (Str × Json Str)} {name glob : Str}
      (own : (Json.object members).get "name".toList = some (.string name))
      (given : (Json.object members).get "match".toList = some (.string glob)) :
      Declares (.object members) { name, globs := [glob] }
  | many {members : List (Str × Json Str)} {name : Str} {globs : List Str}
      (own : (Json.object members).get "name".toList = some (.string name))
      (given : (Json.object members).get "match".toList = some (.array (globs.map .string))) :
      Declares (.object members) { name, globs }

/-- The file's entries declare these exercises. -/
def DeclaresAll (file : Json Str) (specs : List ExerciseSpec) : Prop :=
  ∃ exercises, ExerciseMap.exercisesOf file = some exercises ∧
    List.Forall₂ Declares exercises specs

namespace ExerciseMap

/-- The rule of an exercise. -/
def Ruled (rule : ExerciseRule) (spec : ExerciseSpec) : Prop :=
  rule.name = some (.string spec.name) ∧ ∀ path, rule.covers path = spec.covers path

variable (foreign : Json Str → Option (List (List UInt16 → Bool)))

theorem patternsOf_string (glob : Str) : patternsOf foreign (.string glob) =
    some (if glob.isEmpty then [] else [RegExp.test (globToRegExp glob)]) := by
  cases glob <;> rfl

/-- The patterns of some globs. -/
theorem mapM_patternsOf (globs : List Str) :
    ∃ patterns, (globs.map .string).mapM (patternsOf foreign) = some patterns ∧
      ∀ path, (patterns.flatten.any fun pattern => pattern path) =
        globs.any fun glob => !glob.isEmpty && RegExp.test (globToRegExp glob) path := by
  induction globs with
  | nil => exact ⟨[], rfl, fun path => rfl⟩
  | cons glob globs ih =>
      obtain ⟨patterns, read, covers⟩ := ih
      refine ⟨(if glob.isEmpty then [] else [RegExp.test (globToRegExp glob)]) :: patterns,
        ?_, fun path => ?_⟩
      · rw [List.map_cons, List.mapM_cons, patternsOf_string, read]
        rfl
      · rw [List.flatten_cons, List.any_append, covers path, List.any_cons]
        cases glob <;> simp

theorem ruleOf_declared {ex : Json Str} {spec : ExerciseSpec} (declares : Declares ex spec) :
    ∃ rule, ruleOf foreign ex = some rule ∧ Ruled rule spec := by
  cases declares with
  | none own absent =>
      refine ⟨{ name := _, patterns := [] }, ?_, own, fun path => rfl⟩
      rw [ruleOf, absent]
      rfl
  | @one members name glob own given =>
      obtain ⟨patterns, read, covers⟩ := mapM_patternsOf foreign [glob]
      refine ⟨{ name := _, patterns := patterns.flatten }, ?_, own, covers⟩
      rw [ruleOf, given]
      exact congrArg (Option.map _) read
  | @many members name globs own given =>
      obtain ⟨patterns, read, covers⟩ := mapM_patternsOf foreign globs
      refine ⟨{ name := _, patterns := patterns.flatten }, ?_, own, covers⟩
      rw [ruleOf, given]
      exact congrArg (Option.map _) read

theorem loadRules_declared {exercises : List (Json Str)} {specs : List ExerciseSpec}
    (declared : List.Forall₂ Declares exercises specs) :
    ∃ rules, loadRules foreign exercises = (rules, false) ∧ List.Forall₂ Ruled rules specs := by
  induction declared with
  | nil => exact ⟨[], rfl, .nil⟩
  | cons declares _ ih =>
      obtain ⟨rule, read, ruled⟩ := ruleOf_declared foreign declares
      obtain ⟨rules, loaded, others⟩ := ih
      refine ⟨rule :: rules, ?_, .cons ruled others⟩
      rw [loadRules, read, loaded]

theorem load_declared {files : List (Json Str)} {specs : List (List ExerciseSpec)}
    (declared : List.Forall₂ DeclaresAll files specs) :
    ∃ rules, load foreign files = (rules, false) ∧ List.Forall₂ Ruled rules specs.flatten := by
  induction declared with
  | nil => exact ⟨[], rfl, .nil⟩
  | cons declares _ ih =>
      obtain ⟨exercises, listed, declared⟩ := declares
      obtain ⟨first, read, ruled⟩ := loadRules_declared foreign declared
      obtain ⟨rules, loaded, others⟩ := ih
      refine ⟨first ++ rules, ?_, List.rel_append ruled others⟩
      rw [load, listed]
      dsimp only
      rw [read, loaded]

theorem resolve_ruled {rules : List ExerciseRule} {specs : List ExerciseSpec}
    (ruled : List.Forall₂ Ruled rules specs) (relativePath : Str) :
    resolve rules relativePath =
      (specs.find? (·.covers (normalized relativePath))).map fun spec => .string spec.name := by
  unfold resolve
  induction ruled with
  | nil => rfl
  | cons first _ ih =>
      rw [List.find?_cons, List.find?_cons, first.2]
      split
      · rw [Option.bind_some, first.1]
        rfl
      · exact ih

end ExerciseMap

/-! ### Globs and exercises -/

/-- The path matches the expression of the glob exactly if it matches the glob as it is read
by its rules. -/
def ReadByRules (glob : Str) (path : List UInt16) : Prop :=
  RegExp.test (globToRegExp glob) path = true ↔ path ∈ Glob.globLanguage glob

/-- A glob is read by its rules exactly if it has no `**`; with one at the end only, it is
for paths on one line.  And a file has the exercise of the first rule with a glob that
matches its path. -/
theorem globs_exact (glob : Str) :
    ((∀ path, ReadByRules glob path) ↔ ¬ Glob.STARS <:+: glob) ∧
    (∀ front path, glob = front ++ Glob.STARS → ¬ Glob.STARS <:+: front ++ ['*'] →
      (∀ unit ∈ path, RegExp.isLineTerminator unit = false) → ReadByRules glob path) ∧
    ∀ foreign files specs, List.Forall₂ DeclaresAll files specs → ∀ relativePath,
      ExerciseMap.resolve (ExerciseMap.load foreign files).1 relativePath =
        (specs.flatten.find? (·.covers (ExerciseMap.normalized relativePath))).map
          fun spec => .string spec.name := by
  refine ⟨⟨fun ruled stars => ?_, Glob.test_iff_of_not_infix⟩, ?_,
    fun foreign files specs declared relativePath => ?_⟩
  · obtain ⟨path, differs⟩ := Glob.exists_not_of_infix stars
    exact differs (ruled path)
  · rintro front path rfl lone line
    exact Glob.test_iff_of_last lone line
  · obtain ⟨rules, loaded, ruled⟩ := ExerciseMap.load_declared foreign declared
    rw [loaded]
    exact ExerciseMap.resolve_ruled ruled relativePath

/-- A course file with one exercise, under a glob. -/
def fileWith (name glob : String) : Json Str :=
  .object [("exercises".toList, .array [.object
    [("name".toList, .string name.toList), ("match".toList, .string glob.toList)]])]

theorem globs_exact_exercise :
    ExerciseMap.resolve (ExerciseMap.load (fun _ => none) [fileWith "ex1" "ex1/*.py"]).1
        "ex1\\a.py".toList = some (.string "ex1".toList) :=
  ((globs_exact "ex1/*.py".toList).2.2 (fun _ => none) [fileWith "ex1" "ex1/*.py"]
    [[{ name := "ex1".toList, globs := ["ex1/*.py".toList] }]]
    (.cons ⟨_, rfl, .cons (.one rfl rfl) .nil⟩ .nil) "ex1\\a.py".toList).trans rfl

/-- The glob `**/b` stands for no name that only ends in `b`. -/
theorem not_globs_exact :
    ¬ ∀ glob path, ReadByRules glob path := by
  intro exact
  have matched : RegExp.test (globToRegExp ['*', '*', '/', 'b']) [0x78, 0x62] = true := by decide
  have listed : [0x78, 0x62] ∈ [Glob.Rule.language .directories, {[0x62]}].prod :=
    (exact _ _).mp matched
  rw [List.prod_cons, List.prod_singleton, Language.mem_mul] at listed
  obtain ⟨front, directories, back, last, whole⟩ := listed
  cases last
  obtain ⟨rfl, -⟩ := List.append_inj' (whole.trans (List.singleton_append.symm)) rfl
  exact absurd (Glob.mem_of_mem_directories directories nofun) (by decide)

end Hermione
