import Hermione.Exercises
import Hermione.Gates
import Hermione.GitHubCredentials

/-!
# Creating a course

A teacher's new course is one row, its first membership another, and the exercises
found in its repository are saved after both.  Each is a statement of its own, and any
of them can fail.
-/

namespace Hermione

/-- A row of `courses`. -/
structure CourseRow where
  id : Uuid
  slug : Str
  name : Str
  enrollmentToken : Str
  repoUrl : Option Str
  archivedAt : Option Int
  solutionsRef : Option Str
  solutionsDir : Option Str
  description : Option Str
  term : Option Str
  institution : Option Str
  level : Option Str
  createdAt : Int
  deriving DecidableEq

/-- A course's profile fields, set at creation. -/
structure CourseProfile where
  description : Option Str
  term : Option Str
  institution : Option Str
  level : Option Str

/-- Each field trimmed and a blank one unset. -/
def CourseProfile.normalized (profile : CourseProfile) : CourseProfile :=
  { description := nonBlank profile.description
    term := nonBlank profile.term
    institution := nonBlank profile.institution
    level := nonBlank profile.level }

structure CreateCourseBody where
  slug : Option Str
  name : Option Str
  repoUrl : Option Str
  seedExercises : Option Bool
  profile : CourseProfile

/-- The tables that a course and what belongs to it are written to. -/
structure Tenancy where
  courses : List CourseRow
  /-- Admin and course. -/
  members : List (Uuid × Uuid)
  exercises : List ExerciseRow

/-- What the caller is told of a course that was created. -/
structure CreatedCourse where
  slug : Str
  name : Str
  repoUrl : Option Str
  enrollmentToken : Str
  exercisesSeeded : Nat
  seedNote : Option Str

/-- What a call draws, and what comes of each of its statements. -/
structure Creation where
  id : Uuid
  enrollmentToken : Str
  now : Int
  newId : Item → Uuid
  /-- Whether the look for the slug is answered. -/
  looked : Bool
  /-- Courses that others create between the look and the INSERT. -/
  meanwhile : List CourseRow
  inserted : Reply
  /-- Whether the look for the membership is answered. -/
  memberLooked : Bool
  granted : Reply
  saved : Reply

namespace NewCourse

/-- The repository's short name: the last segment of a git URL, less `.git`. -/
def repoShortName (repoUrl : Str) : Option Str := do
  let trimmed := Str.trimEndMatches '/' repoUrl.trim
  let tail ← (trimmed.splitOnP fun char => char == '/' || char == ':').getLast?
  let name := ((Str.stripSuffix ".git".toList tail).getD tail).trim
  if name.isEmpty then none else some name

/-- Slug, name and repository of a new course, or what is missing or invalid. -/
def resolveNewCourse (body : CreateCourseBody) : Except ApiError (Str × Str × Option Str) := do
  let repoUrl := nonBlank body.repoUrl
  let slug ←
    match nonBlank body.slug with
    | some explicit =>
        match normalizeSlug explicit with
        | some slug => .ok slug
        | none => .error (.refused .badRequest "slug must contain a letter or digit")
    | none =>
        -- The repo's short name, else the course name.
        match ((repoUrl.bind repoShortName).bind normalizeSlug) <|>
            body.name.bind normalizeSlug with
        | some slug => .ok slug
        | none => .error (.refused .badRequest "a name, slug, or repo URL is required")
  let name := (nonBlank body.name).getD (titleFromSlug slug)
  return (slug, name, repoUrl)

/-- The row that is inserted. -/
def newRow (creation : Creation) (slug name : Str) (repoUrl : Option Str)
    (profile : CourseProfile) : CourseRow :=
  { id := creation.id
    slug, name, repoUrl
    enrollmentToken := creation.enrollmentToken
    archivedAt := none
    solutionsRef := none
    solutionsDir := none
    description := profile.description
    term := profile.term
    institution := profile.institution
    level := profile.level
    createdAt := creation.now }

/-- Some course has the slug. -/
def Taken (courses : List CourseRow) (slug : Str) : Prop :=
  ∃ course ∈ courses, course.slug = slug

instance (courses : List CourseRow) (slug : Str) : Decidable (Taken courses slug) :=
  inferInstanceAs (Decidable (∃ course ∈ courses, course.slug = slug))

/-- The row has a unique column in common with one that is there. -/
def Violates (courses : List CourseRow) (row : CourseRow) : Prop :=
  ∃ course ∈ courses,
    course.id = row.id ∨ course.slug = row.slug ∨ course.enrollmentToken = row.enrollmentToken

instance (courses : List CourseRow) (row : CourseRow) : Decidable (Violates courses row) :=
  inferInstanceAs (Decidable (∃ course ∈ courses,
    course.id = row.id ∨ course.slug = row.slug ∨ course.enrollmentToken = row.enrollmentToken))

/-- The one INSERT of a course with its profile.  `already_exists_or_internal` tells a
unique violation from other failures. -/
def createCourseWithProfile (courses : List CourseRow) (row : CourseRow) (reply : Reply) :
    List CourseRow × Except ApiError Unit :=
  if Violates courses row then
    match reply with
    | .done =>
        (courses, .error (.refused .conflict "a course with that slug already exists"))
    | .failed | .lost => (courses, .error .internal)
  else reply.carry courses (courses ++ [row])

/-- Makes an admin a member, if the look finds no membership. -/
def grantMembership (members : List (Uuid × Uuid)) (admin course : Uuid) (looked : Bool)
    (reply : Reply) : List (Uuid × Uuid) × Except ApiError Unit :=
  if !looked then (members, .error .internal)
  else if members.contains (admin, course) then (members, .ok ())
  else reply.carry members (members ++ [(admin, course)])

section Call

variable {World : Type} (urls : UrlCrate) (decoders : GitHub.Decoders) (access : GitHub.Access)
  (outside : (question : GitHub.Question) → World → World × question.Answer)

/-- What is asked when exercises are seeded is answered by the world outside, but the
saving is a statement on the table. -/
def answerSeeding (creation : Creation) (course : Uuid) :
    (question : GitHub.Question) → World × List ExerciseRow →
      (World × List ExerciseRow) × question.Answer
  | .upsert items, (world, rows) =>
      let items := items.map fun (slug, title, index) =>
        { slug, title, position := (index : Int).bmod (2 ^ 32) }
      match Exercises.upsert course creation.now creation.newId rows items creation.saved with
      | (rows, .ok ()) => ((world, rows), true)
      | (rows, .error _) => ((world, rows), false)
  | .send request, (world, rows) =>
      let (world, answer) := outside (.send request) world
      ((world, rows), answer)
  | .remembered owner repo, (world, rows) =>
      let (world, answer) := outside (.remembered owner repo) world
      ((world, rows), answer)
  | .keep owner repo minted, (world, rows) =>
      let (world, answer) := outside (.keep owner repo minted) world
      ((world, rows), answer)
  | .now, (world, rows) =>
      let (world, answer) := outside .now world
      ((world, rows), answer)

/-- A signed-in teacher creates a course, of which the teacher becomes a member. -/
def createCourseForTeacher (world : World) (ctx : AuthCtx) (body : CreateCourseBody)
    (creation : Creation) (tables : Tenancy) : Tenancy × Except ApiError CreatedCourse :=
  match resolveNewCourse body with
  | .error error => (tables, .error error)
  | .ok (slug, name, repoUrl) =>
    if !creation.looked then (tables, .error .internal)
    else if Taken tables.courses slug then
      (tables, .error (.refused .conflict
        ("a course with slug '" ++ String.ofList slug ++ "' already exists")))
    else
      let row := newRow creation slug name repoUrl body.profile.normalized
      match createCourseWithProfile (tables.courses ++ creation.meanwhile) row
          creation.inserted with
      | (courses, .error error) => ({ tables with courses }, .error error)
      | (courses, .ok ()) =>
        let (members, granted) :=
          match ctx with
          | .admin admin =>
              grantMembership tables.members admin row.id creation.memberLooked creation.granted
          -- Nobody to grant: they can see every course.
          | .openDev => (tables.members, .ok ())
        match granted with
        | .error error => ({ tables with courses, members }, .error error)
        | .ok () =>
          let ((_, exercises), seeded, note) :=
            if body.seedExercises.getD true then
              (GitHub.seedExercises urls decoders access row.repoUrl).handle
                (answerSeeding outside creation row.id) (world, tables.exercises)
            else ((world, tables.exercises), 0, none)
          ({ courses, members, exercises },
            .ok
              { slug := row.slug
                name := row.name
                repoUrl := row.repoUrl
                enrollmentToken := row.enrollmentToken
                exercisesSeeded := seeded
                seedNote := note })

end Call

/-! ### What a failed call leaves -/

section Leavings

variable (admin : Uuid) (body : CreateCourseBody) (creation : Creation) (tables : Tenancy)

/-- No course that the call has created is without a member, and a slug that is taken was
taken already, or has been by others. -/
structure LeavesNothing (after : Tenancy) : Prop where
  noOrphan : ∀ course ∈ after.courses, course ∉ tables.courses ++ creation.meanwhile →
    ∃ member, (member, course.id) ∈ after.members
  available : ∀ slug, Taken after.courses slug →
    Taken (tables.courses ++ creation.meanwhile) slug

/-- The course's row is written: the slug is found free, no unique column stands in the
way, and the INSERT is carried out. -/
def Inserts : Prop :=
  ∃ slug name repoUrl, resolveNewCourse body = .ok (slug, name, repoUrl) ∧
    creation.looked = true ∧ ¬ Taken tables.courses slug ∧
    ¬ Violates (tables.courses ++ creation.meanwhile)
      (newRow creation slug name repoUrl body.profile.normalized) ∧
    creation.inserted ≠ .failed

/-- The INSERT's answer arrives, and the membership is looked for and, unless it is
there, granted. -/
def Succeeds : Prop :=
  creation.inserted = .done ∧ creation.memberLooked = true ∧
    ((admin, creation.id) ∈ tables.members ∨ creation.granted = .done)

end Leavings

variable {admin : Uuid} {body : CreateCourseBody} {creation : Creation} {tables : Tenancy}
  {courses : List CourseRow} {members : List (Uuid × Uuid)} {row : CourseRow} {reply : Reply}

theorem createCourseWithProfile_violates (reply : Reply) (violates : Violates courses row) :
    (createCourseWithProfile courses row reply).1 = courses ∧
      ∃ error, (createCourseWithProfile courses row reply).2 = .error error := by
  unfold createCourseWithProfile
  rw [if_pos violates]
  cases reply <;> exact ⟨rfl, _, rfl⟩

theorem createCourseWithProfile_free (free : ¬ Violates courses row) :
    createCourseWithProfile courses row reply = reply.carry courses (courses ++ [row]) :=
  if_neg free

/-- Granting answers exactly if the look does, and the INSERT where there is one. -/
theorem grantMembership_ok_iff {course : Uuid} {looked : Bool} :
    (grantMembership members admin course looked reply).2 = .ok () ↔
      looked = true ∧ ((admin, course) ∈ members ∨ reply = .done) := by
  unfold grantMembership
  cases looked with
  | false => simp
  | true =>
      by_cases there : (admin, course) ∈ members
      · simp [there]
      · cases reply <;> simp [there, Reply.carry]

/-- With the same courses nothing is left. -/
theorem leavesNothing_of_courses {after : Tenancy}
    (same : after.courses = tables.courses ∨
      after.courses = tables.courses ++ creation.meanwhile) :
    LeavesNothing creation tables after := by
  have there : ∀ course ∈ after.courses, course ∈ tables.courses ++ creation.meanwhile := by
    rcases same with same | same <;> rw [same]
    · exact fun course member => List.mem_append_left _ member
    · exact fun course member => member
  constructor
  · exact fun course member absent => absurd (there course member) absent
  · rintro slug ⟨course, member, named⟩
    exact ⟨course, there course member, named⟩

/-- A row that was written keeps its slug. -/
theorem not_leavesNothing_of_inserted {after : Tenancy}
    (inserted : after.courses = tables.courses ++ creation.meanwhile ++ [row])
    (free : ¬ Violates (tables.courses ++ creation.meanwhile) row) :
    ¬ LeavesNothing creation tables after := by
  intro leaves
  have taken : Taken after.courses row.slug := by
    rw [inserted]
    exact ⟨row, List.mem_append_right _ (List.mem_singleton_self row), rfl⟩
  obtain ⟨course, member, named⟩ := leaves.available row.slug taken
  exact free ⟨course, member, .inr (.inl named)⟩

section Outcomes

variable {World : Type} (urls : UrlCrate) (decoders : GitHub.Decoders) (access : GitHub.Access)
  (outside : (question : GitHub.Question) → World → World × question.Answer) (world : World)

/-- Where no row is written, the call fails and the courses are as they were. -/
theorem of_not_inserts (ctx : AuthCtx) (nothing : ¬ Inserts body creation tables) :
    (∃ error, (createCourseForTeacher urls decoders access outside world ctx body creation
        tables).2 = .error error) ∧
      LeavesNothing creation tables (createCourseForTeacher urls decoders access outside world ctx
        body creation tables).1 := by
  unfold createCourseForTeacher
  cases resolved : resolveNewCourse body with
  | error error => exact ⟨⟨_, rfl⟩, leavesNothing_of_courses (.inl rfl)⟩
  | ok new =>
      obtain ⟨slug, name, repoUrl⟩ := new
      dsimp only
      cases looked : creation.looked with
      | false => exact ⟨⟨_, rfl⟩, leavesNothing_of_courses (.inl rfl)⟩
      | true =>
          by_cases taken : Taken tables.courses slug
          · simp only [Bool.not_true, Bool.false_eq_true, if_false, if_pos taken]
            exact ⟨⟨_, rfl⟩, leavesNothing_of_courses (.inl rfl)⟩
          simp only [Bool.not_true, Bool.false_eq_true, if_false, if_neg taken]
          by_cases violates : Violates (tables.courses ++ creation.meanwhile)
            (newRow creation slug name repoUrl body.profile.normalized)
          · obtain ⟨same, error, failed⟩ :=
              createCourseWithProfile_violates creation.inserted violates
            rw [← Prod.mk.eta (p := createCourseWithProfile _ _ _), same, failed]
            exact ⟨⟨_, rfl⟩, leavesNothing_of_courses (.inr rfl)⟩
          · rw [createCourseWithProfile_free violates]
            have failed : creation.inserted = .failed := by
              by_contra carried
              exact nothing ⟨slug, name, repoUrl, resolved, looked, taken, violates, carried⟩
            rw [failed]
            exact ⟨⟨_, rfl⟩, leavesNothing_of_courses (.inr rfl)⟩

/-- Where the row is written it stays, and the call answers exactly if the rest succeeds. -/
theorem of_inserts (admin : Uuid) (inserts : Inserts body creation tables) :
    ¬ LeavesNothing creation tables (createCourseForTeacher urls decoders access outside world
        (.admin admin) body creation tables).1 ∧
      ((∃ created, (createCourseForTeacher urls decoders access outside world (.admin admin) body
          creation tables).2 = .ok created) ↔
        Succeeds admin creation tables) := by
  obtain ⟨slug, name, repoUrl, resolved, looked, taken, free, carried⟩ := inserts
  unfold createCourseForTeacher Succeeds
  rw [resolved]
  dsimp only
  simp only [looked, Bool.not_true, Bool.false_eq_true, if_false, if_neg taken,
    createCourseWithProfile_free free]
  cases inserted : creation.inserted with
  | failed => exact absurd inserted carried
  | lost =>
      refine ⟨not_leavesNothing_of_inserted rfl free, ?_⟩
      constructor
      · rintro ⟨created, answered⟩
        cases answered
      · rintro ⟨answered, _⟩
        cases answered
  | done =>
      have grants : (grantMembership tables.members admin creation.id creation.memberLooked
          creation.granted).2 = .ok () ↔ creation.memberLooked = true ∧
            ((admin, creation.id) ∈ tables.members ∨ creation.granted = .done) :=
        grantMembership_ok_iff
      simp only [Reply.carry, newRow, true_and]
      rw [← grants]
      cases granted : (grantMembership tables.members admin creation.id creation.memberLooked
        creation.granted).2 with
      | error error =>
          refine ⟨not_leavesNothing_of_inserted rfl free, ?_⟩
          constructor
          · rintro ⟨created, answered⟩
            cases answered
          · intro answered
            cases answered
      | ok granted =>
          exact ⟨not_leavesNothing_of_inserted rfl free, fun _ => rfl, fun _ => ⟨_, rfl⟩⟩

/-- A failed call leaves nothing exactly if, whenever the course's row is written, its
answer arrives and the membership is granted. -/
theorem create_leaves_nothing_iff (urls : UrlCrate) (decoders : GitHub.Decoders)
    (access : GitHub.Access)
    (outside : (question : GitHub.Question) → World → World × question.Answer) (world : World)
    (admin : Uuid) (body : CreateCourseBody) (creation : Creation) (tables : Tenancy) :
    (∀ (after : Tenancy) (error : ApiError),
      createCourseForTeacher urls decoders access outside world (.admin admin) body creation
          tables = (after, .error error) →
        LeavesNothing creation tables after) ↔
      (Inserts body creation tables → Succeeds admin creation tables) := by
  constructor
  · intro leaves inserts
    obtain ⟨left, answers⟩ := of_inserts urls decoders access outside world admin inserts
    rw [← answers]
    by_contra none_created
    cases outcome : createCourseForTeacher urls decoders access outside world (.admin admin) body
      creation tables with
    | mk after result =>
        rw [outcome] at left none_created
        cases result with
        | error error => exact left (leaves after error outcome)
        | ok created => exact none_created ⟨created, rfl⟩
  · intro succeeds after error failed
    by_cases inserts : Inserts body creation tables
    · have answers := (of_inserts urls decoders access outside world admin inserts).2
      obtain ⟨created, answered⟩ := answers.mpr (succeeds inserts)
      rw [failed] at answered
      cases answered
    · have nothing :=
        (of_not_inserts urls decoders access outside world (.admin admin) inserts).2
      rwa [failed] at nothing

end Outcomes

/-- Nothing outside answers. -/
def silent : (question : GitHub.Question) → Unit → Unit × question.Answer
  | .send _, world => (world, none)
  | .remembered _ _, world => (world, none)
  | .keep _ _ _, world => (world, ())
  | .now, world => (world, 0)
  | .upsert _, world => (world, false)

/-- A course by its name. -/
def physics : CreateCourseBody :=
  { slug := none
    name := some "Physics".toList
    repoUrl := none
    seedExercises := none
    profile := { description := none, term := none, institution := none, level := none } }

/-- The course is inserted, but not its first membership. -/
def ungranted : Creation :=
  { id := 7
    enrollmentToken := "token".toList
    now := 0
    newId := fun _ => 8
    looked := true
    meanwhile := []
    inserted := .done
    memberLooked := true
    granted := .failed
    saved := .done }

/-- A course whose membership could not be granted stays, and keeps its slug. -/
theorem not_create_leaves_nothing_ungranted :
    ¬ ∀ (admin : Uuid) (body : CreateCourseBody) (creation : Creation) (tables after : Tenancy)
        (error : ApiError),
      createCourseForTeacher percentUrls GitHub.installed GitHub.appOnly silent () (.admin admin)
          body creation tables = (after, .error error) →
        LeavesNothing creation tables after := by
  intro leaves
  have left := leaves 1 physics ungranted { courses := [], members := [], exercises := [] } _
    .internal rfl
  obtain ⟨member, found⟩ := left.noOrphan _ List.mem_cons_self (by decide)
  cases found

end NewCourse

end Hermione
