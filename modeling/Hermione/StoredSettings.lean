import Hermione.NewCourse

/-!
# A course's settings, stored and read back

A teacher changes some fields of a course.  The settings of the reference solutions
are parsed and stored as they were understood, and parsed again whenever a file is
compared.  Parsing a folder takes the blanks around it and the slashes after it, once
each and in this order, so that what is stored may be understood differently.
-/

namespace Hermione

namespace Str

theorem trimStart_of_prefix {text whole : Str} (part : text <+: whole)
    (starts : trimStart whole = whole) : trimStart text = text := by
  obtain ⟨rest, rfl⟩ := part
  cases text with
  | nil => rfl
  | cons char text =>
      have first := List.head?_dropWhile_not isWhitespace (char :: text ++ rest)
      rw [← trimStart, starts, List.cons_append, List.head?_cons] at first
      exact List.dropWhile_cons_of_neg (Bool.eq_false_iff.mp first)

theorem trimStart_trim (text : Str) : trimStart (trim text) = trim text :=
  trimStart_of_prefix (List.rdropWhile_prefix _ _) (List.dropWhile_idempotent _ _)

/-- Trimming once is enough. -/
theorem trim_trim (text : Str) : trim (trim text) = trim text := by
  rw [trim, trimStart_trim, trim, List.rdropWhile_idempotent]

end Str

/-! ### Changing a course -/

structure UpdateCourseBody where
  name : Option Str
  /-- Of this and the fields below: absent, to be cleared, or to be set. -/
  repoUrl : Option (Option Str)
  archived : Option Bool
  solutionsRef : Option (Option Str)
  solutionsDir : Option (Option Str)
  description : Option (Option Str)
  term : Option (Option Str)
  institution : Option (Option Str)
  level : Option (Option Str)

/-- What is to be changed; `none` leaves a field alone. -/
structure CoursePatch where
  name : Option Str
  repoUrl : Option (Option Str)
  solutionsRef : Option (Option Str)
  solutionsDir : Option (Option Str)
  description : Option (Option Str)
  term : Option (Option Str)
  institution : Option (Option Str)
  level : Option (Option Str)

namespace CoursePatch

def isEmpty (patch : CoursePatch) : Bool :=
  patch.name.isNone && patch.repoUrl.isNone && patch.solutionsRef.isNone
    && patch.solutionsDir.isNone && patch.description.isNone && patch.term.isNone
    && patch.institution.isNone && patch.level.isNone

/-- The row as the UPDATE leaves it. -/
def applied (patch : CoursePatch) (row : CourseRow) : CourseRow :=
  { row with
    name := patch.name.getD row.name
    repoUrl := patch.repoUrl.getD row.repoUrl
    solutionsRef := patch.solutionsRef.getD row.solutionsRef
    solutionsDir := patch.solutionsDir.getD row.solutionsDir
    description := patch.description.getD row.description
    term := patch.term.getD row.term
    institution := patch.institution.getD row.institution
    level := patch.level.getD row.level }

end CoursePatch

/-- Trims what a field is set to; a blank text clears it. -/
def patchField (field : Option (Option Str)) : Option (Option Str) :=
  field.map nonBlank

/-- A field that must parse; what is stored is the form it is shown in. -/
def validated (field : Option (Option Str)) (parse : Str → Except Invalid Str) :
    Except ApiError (Option (Option Str)) :=
  match patchField field with
  | some (some raw) =>
      match parse raw with
      | .ok canonical => .ok (some (some canonical))
      | .error e => .error (.refused .badRequest (String.ofList e.message))
  | other => .ok other

/-- What a request asks to change, if its settings parse. -/
def coursePatch (body : UpdateCourseBody) : Except ApiError CoursePatch := do
  let solutionsRef ← validated body.solutionsRef fun raw => (GitRef.parse raw).map GitRef.text
  let solutionsDir ← validated body.solutionsDir fun raw => (RepoPath.parse raw).map RepoPath.text
  return {
    name := nonBlank body.name
    repoUrl := patchField body.repoUrl
    solutionsRef
    solutionsDir
    description := patchField body.description
    term := patchField body.term
    institution := patchField body.institution
    level := patchField body.level }

/-- Renames a course, relinks its repository, edits its profile, or (un)archives it.
The course is one the caller may change; either statement may fail. -/
def patchCourse (body : UpdateCourseBody) (now : Int) (row : CourseRow)
    (updating archiving : Reply) : CourseRow × Except ApiError Unit :=
  match coursePatch body with
  | .error e => (row, .error e)
  | .ok patch =>
      let updated :=
        if patch.isEmpty then (row, .ok ()) else updating.carry row (patch.applied row)
      match updated, body.archived with
      | (row, .error e), _ => (row, .error e)
      | (row, .ok ()), some archived =>
          archiving.carry row { row with archivedAt := if archived then some now else none }
      | (row, .ok ()), none => (row, .ok ())

/-- From a course row.  Settings that no longer parse are treated as not configured. -/
def SolutionsSource.fromCourse (row : CourseRow) : Option SolutionsSource :=
  match SolutionsSource.parse row.solutionsRef row.solutionsDir with
  | .ok source => source
  | .error _ => none

/-! ### Parsing what was parsed -/

namespace RepoPath

variable {raw : Str} {path : RepoPath}

theorem parse_congr {other : Str}
    (same : Str.trimEndMatches '/' raw.trim = Str.trimEndMatches '/' other.trim) :
    parse raw = parse other := by
  simp only [parse, same]

theorem parse_trim : parse raw.trim = parse raw :=
  parse_congr (by rw [Str.trim_trim])

/-- The text has a blank before the slashes at its end. -/
def LooseEnd (raw : Str) : Prop :=
  ∃ front blank slashes, raw.trim = front ++ blank :: slashes ∧ Str.isWhitespace blank = true ∧
    ∀ char ∈ slashes, char = '/'

theorem looseEnd_iff :
    LooseEnd raw ↔
      ∃ front blank, Str.trimEndMatches '/' raw.trim = front ++ [blank] ∧
        Str.isWhitespace blank = true := by
  constructor
  · rintro ⟨front, blank, slashes, whole, white, all⟩
    have slashed : ∀ char ∈ slashes.reverse, (char == '/') = true := by
      intro char member
      exact beq_iff_eq.mpr (all char (List.mem_reverse.mp member))
    have other : ¬ (blank == '/') = true := by
      intro same
      rw [beq_iff_eq.mp same] at white
      revert white
      decide
    refine ⟨front, blank, ?_, white⟩
    rw [Str.trimEndMatches, whole, List.append_cons, List.rdropWhile, List.reverse_append,
      List.dropWhile_append_of_pos slashed, ← List.rdropWhile]
    exact List.rdropWhile_concat_neg (fun char => char == '/') front blank other
  · rintro ⟨front, blank, stripped, white⟩
    refine ⟨front, blank, raw.trim.rtakeWhile (· == '/'), ?_, white, ?_⟩
    · rw [List.append_cons, ← stripped, Str.trimEndMatches, List.rdropWhile_append_rtakeWhile]
    · intro char member
      have slash := List.mem_rtakeWhile_imp member
      exact beq_iff_eq.mp slash

instance (raw : Str) : Decidable (LooseEnd raw) :=
  decidable_of_iff ((Str.trimEndMatches '/' raw.trim).getLast?.any Str.isWhitespace = true) <| by
    rw [looseEnd_iff, Option.any_eq_true]
    simp only [List.getLast?_eq_some_iff]
    constructor
    · rintro ⟨blank, ⟨front, ends⟩, white⟩
      exact ⟨front, blank, ends, white⟩
    · rintro ⟨front, blank, ends, white⟩
      exact ⟨blank, ⟨front, ends⟩, white⟩

theorem trimStart_text (parsed : parse raw = .ok path) :
    Str.trimStart path.text = path.text := by
  rw [text_of_parse parsed]
  exact Str.trimStart_of_prefix (List.rdropWhile_prefix _ _) (Str.trimStart_trim raw)

/-- A path is parsed from its own text exactly if it was not parsed from a text with
such an end. -/
theorem parse_text_iff (parsed : parse raw = .ok path) :
    parse path.text = .ok path ↔ ¬ LooseEnd raw := by
  have text := text_of_parse parsed
  rw [looseEnd_iff, ← text]
  constructor
  · rintro again ⟨front, blank, ends, white⟩
    have same := congrArg List.length (text_of_parse again)
    rw [Str.trim, trimStart_text parsed, ends, List.rdropWhile_concat_pos _ _ _ white] at same
    have short := (List.rdropWhile_prefix Str.isWhitespace front).length_le
    have shorter := (List.rdropWhile_prefix (· == '/')
      (front.rdropWhile Str.isWhitespace)).length_le
    rw [Str.trimEndMatches, List.length_append, List.length_singleton] at same
    omega
  · intro tight
    rw [← parsed]
    apply parse_congr
    have visible : path.text.trim = path.text := by
      rw [Str.trim, trimStart_text parsed, List.rdropWhile_eq_self_iff]
      intro some white
      exact tight ⟨_, _, (List.dropLast_append_getLast some).symm, white⟩
    rw [visible, text]
    exact List.rdropWhile_idempotent _ _

end RepoPath

theorem GitRef.parse_trim {raw : Str} : GitRef.parse raw.trim = GitRef.parse raw := by
  simp only [GitRef.parse, Str.trim_trim]

/-! ### What is stored -/

section Validated

variable {field : Option (Option Str)} {parse : Str → Except Invalid Str}

/-- A field that is set is stored in the form its text parses to. -/
theorem validated_set {raw : Str} (canonical : Str) (some : raw.trim ≠ [])
    (parsed : parse raw.trim = .ok canonical) :
    validated (.some (.some raw)) parse = .ok (.some (.some canonical)) := by
  have text : nonBlank (.some raw) = .some raw.trim := by
    simp [nonBlank, Option.filter, some]
  simp only [validated, patchField, Option.map_some, text, parsed]

/-- Whatever is stored was parsed. -/
theorem exists_of_validated {stored : Option Str}
    (valid : validated field parse = .ok (some stored)) :
    ∀ canonical ∈ stored, ∃ raw, parse raw = .ok canonical := by
  rintro canonical rfl
  unfold validated at valid
  split at valid
  · next raw _ =>
      cases parsed : parse raw with
      | error e =>
          rw [parsed] at valid
          cases valid
      | ok shown =>
          rw [parsed] at valid
          cases valid
          exact ⟨raw, parsed⟩
  · next other => exact absurd (Except.ok.inj valid) (other canonical)

end Validated

theorem coursePatch_ok {body : UpdateCourseBody} {patch : CoursePatch}
    (made : coursePatch body = .ok patch) :
    (validated body.solutionsRef fun raw => (GitRef.parse raw).map GitRef.text) =
        .ok patch.solutionsRef ∧
      (validated body.solutionsDir fun raw => (RepoPath.parse raw).map RepoPath.text) =
        .ok patch.solutionsDir := by
  simp only [coursePatch] at made
  cases refValid : validated body.solutionsRef fun raw => (GitRef.parse raw).map GitRef.text with
  | error e =>
      rw [refValid] at made
      cases made
  | ok gitRef =>
      rw [refValid] at made
      cases dirValid :
          validated body.solutionsDir fun raw => (RepoPath.parse raw).map RepoPath.text with
      | error e =>
          rw [dirValid] at made
          cases made
      | ok dir =>
          rw [dirValid] at made
          cases made
          exact ⟨rfl, rfl⟩

/-- What a change that succeeds makes of the two settings. -/
theorem patchCourse_ok {body : UpdateCourseBody} {now : Int} {row after : CourseRow}
    {updating archiving : Reply}
    (changed : patchCourse body now row updating archiving = (after, .ok ())) :
    ∃ patch, coursePatch body = .ok patch ∧
      after.solutionsRef = patch.solutionsRef.getD row.solutionsRef ∧
      after.solutionsDir = patch.solutionsDir.getD row.solutionsDir := by
  unfold patchCourse at changed
  cases made : coursePatch body with
  | error e =>
      rw [made] at changed
      cases changed
  | ok patch =>
      rw [made] at changed
      refine ⟨patch, rfl, ?_⟩
      dsimp only at changed
      have fields {result : CourseRow}
          (done :
            (if patch.isEmpty then (row, .ok ()) else updating.carry row (patch.applied row)) =
            (result, .ok ())) :
          result.solutionsRef = patch.solutionsRef.getD row.solutionsRef ∧
            result.solutionsDir = patch.solutionsDir.getD row.solutionsDir := by
        split at done
        · next empty =>
            cases done
            simp only [CoursePatch.isEmpty, Bool.and_eq_true, Option.isNone_iff_eq_none] at empty
            obtain ⟨⟨⟨⟨⟨⟨⟨-, -⟩, ref⟩, dir⟩, -⟩, -⟩, -⟩, -⟩ := empty
            rw [ref, dir]
            exact ⟨rfl, rfl⟩
        · obtain ⟨-, rfl⟩ := Reply.carry_eq_ok_iff.mp done
          exact ⟨rfl, rfl⟩
      split at changed
      · cases changed
      · next result archived done _ =>
          obtain ⟨-, rfl⟩ := Reply.carry_eq_ok_iff.mp changed
          have same := fields done
          exact same
      · next result done _ =>
          cases changed
          exact fields done

/-- The stored ref is missing or one that parses: what is stored otherwise was put into
the database by hand. -/
def ReadableRef (row : CourseRow) : Prop :=
  ∀ text ∈ row.solutionsRef, ∃ raw, (GitRef.parse raw).map GitRef.text = .ok text

theorem readableRef_newRow (creation : Creation) (slug name : Str) (repoUrl : Option Str)
    (profile : CourseProfile) :
    ReadableRef (NewCourse.newRow creation slug name repoUrl profile) := by
  rintro text ⟨⟩

/-- No change makes it unreadable. -/
theorem readableRef_patchCourse {body : UpdateCourseBody} {now : Int} {row after : CourseRow}
    {updating archiving : Reply} (readable : ReadableRef row)
    (changed : patchCourse body now row updating archiving = (after, .ok ())) :
    ReadableRef after := by
  obtain ⟨patch, made, ref, -⟩ := patchCourse_ok changed
  unfold ReadableRef
  rw [ref]
  cases given : patch.solutionsRef with
  | none => exact readable
  | some stored =>
      have valid := (coursePatch_ok made).1
      rw [given] at valid
      exact exists_of_validated valid

/-- A ref that was stored parses again. -/
theorem parse_ref_of_readable {row : CourseRow} (readable : ReadableRef row) :
    ∃ ref, (row.solutionsRef.filter fun text => !text.trim.isEmpty).mapM GitRef.parse =
      .ok ref := by
  cases stored : row.solutionsRef with
  | none => exact ⟨none, rfl⟩
  | some text =>
      obtain ⟨raw, shown⟩ := readable text stored
      cases parsed : GitRef.parse raw with
      | error e =>
          rw [parsed] at shown
          cases shown
      | ok ref =>
          rw [parsed] at shown
          cases shown
          rw [GitRef.text_of_parse parsed]
          have again : GitRef.parse raw.trim = .ok ref := GitRef.parse_trim.trans parsed
          by_cases blank : raw.trim.trim = []
          · exact ⟨none, by simp [Option.filter, blank]; rfl⟩
          · exact ⟨some ref, by simp [Option.filter, blank, again]⟩

/-- The settings of a course, when its folder was parsed and its ref is readable. -/
theorem fromCourse_of_dir {row : CourseRow} {path : RepoPath} (readable : ReadableRef row)
    (stored : row.solutionsDir = some path.text) (again : RepoPath.parse path.text = .ok path) :
    ∃ source, SolutionsSource.fromCourse row = some source ∧ source.dir = some path := by
  obtain ⟨ref, refParsed⟩ := parse_ref_of_readable readable
  have visible : path.text.trim ≠ [] := by
    intro blank
    simp only [RepoPath.parse, blank] at again
    cases again
  have dirParsed : ((some path.text).filter fun text => !text.trim.isEmpty).mapM RepoPath.parse =
      .ok (some path) := by
    simp [Option.filter, visible, again]
  have configured : (ref.isSome || (some path).isSome) = true := by simp
  have parsed : SolutionsSource.parse row.solutionsRef (some path.text) =
      .ok (some { gitRef := ref, dir := some path, configured }) := by
    simp only [SolutionsSource.parse, refParsed, dirParsed]
    exact dif_pos configured
  exact ⟨_, by rw [SolutionsSource.fromCourse, stored, parsed], rfl⟩

/-- The folder is parsed from the form it is shown in, and wherever a course is changed
to have it, it is read back. -/
def ReadBack (raw : Str) (path : RepoPath) : Prop :=
  RepoPath.parse path.text = .ok path ∧
    ∀ (body : UpdateCourseBody) (now : Int) (row after : CourseRow) (updating archiving : Reply),
      ReadableRef row → body.solutionsDir = some (some raw) →
      patchCourse body now row updating archiving = (after, .ok ()) →
      ∃ source, SolutionsSource.fromCourse after = some source ∧ source.dir = some path

theorem readBack_iff {raw : Str} {path : RepoPath} (parsed : RepoPath.parse raw = .ok path) :
    ReadBack raw path ↔ ¬ RepoPath.LooseEnd raw := by
  rw [← RepoPath.parse_text_iff parsed]
  constructor
  · exact And.left
  · intro again
    refine ⟨again, ?_⟩
    intro body now row after updating archiving readable given changed
    apply fromCourse_of_dir (readableRef_patchCourse readable changed) _ again
    obtain ⟨patch, made, -, dir⟩ := patchCourse_ok changed
    have valid := (coursePatch_ok made).2
    rw [given, validated_set path.text] at valid
    · rw [dir, ← Except.ok.inj valid]
      rfl
    · intro blank
      simp only [RepoPath.parse, blank] at parsed
      cases parsed
    · rw [RepoPath.parse_trim, parsed]
      rfl

theorem parse_slashed : RepoPath.parse "solutions//".toList =
    .ok { text := "solutions".toList, plain := by decide } :=
  rfl

theorem readBack_iff_slashed :
    ReadBack "solutions//".toList { text := "solutions".toList, plain := by decide } :=
  (readBack_iff parse_slashed).mpr (by decide)

/-- A folder is stored that is another one when it is read back. -/
theorem not_readBack_loose :
    ∃ path other, RepoPath.parse "exercises /".toList = .ok path ∧
      RepoPath.parse path.text = .ok other ∧ other ≠ path ∧
      ¬ ReadBack "exercises /".toList path := by
  refine ⟨{ text := "exercises ".toList, plain := by decide },
    { text := "exercises".toList, plain := by decide }, rfl, rfl, by decide, ?_⟩
  rintro ⟨again, -⟩
  cases again

end Hermione
