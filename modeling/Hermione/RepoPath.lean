import Hermione.Text

/-!
# Where a course keeps its reference solutions

The branch and the folder come from a teacher's settings form, the path of a
file from a student's editor.  Each is parsed into a type that only holds what is
safe in a request to the GitHub API: no path climbs out of its folder, also not
when it is put under another one.
-/

namespace Hermione

namespace Str

/-- `char::is_control` -/
def isControl (char : Char) : Bool :=
  char.toNat < 0x20 || (0x7F ≤ char.toNat && char.toNat < 0xA0)

/-- `str::starts_with` for a set of characters. -/
def startsWithAny (text set : Str) : Bool :=
  text.head?.any (List.contains set)

/-- `str::ends_with` for a set of characters. -/
def endsWithAny (text set : Str) : Bool :=
  text.getLast?.any (List.contains set)

theorem split_ne_nil (separator : Char) (text : Str) : split separator text ≠ [] := by
  cases text with
  | nil => simp [split]
  | cons char text =>
      rw [split]
      split
      · simp
      · split <;> simp

theorem split_cons (separator char : Char) (text : Str) :
    split separator (char :: text) =
      if char = separator then [] :: split separator text
      else (split separator text).modifyHead (char :: ·) := by
  rw [split]
  split
  · next empty => exact absurd empty (split_ne_nil separator text)
  · next piece pieces found =>
      rw [found]
      rfl

/-- No piece contains what the text was split on. -/
theorem not_mem_of_mem_split {separator : Char} {text piece : Str}
    (member : piece ∈ split separator text) : separator ∉ piece := by
  induction text generalizing piece with
  | nil =>
      rw [split, List.mem_singleton] at member
      rw [member]
      exact List.not_mem_nil
  | cons char text ih =>
      rw [split_cons] at member
      split at member
      · rcases List.mem_cons.mp member with empty | rest
        · rw [empty]
          exact List.not_mem_nil
        · exact ih rest
      · next other =>
          cases pieces : split separator text with
          | nil => exact absurd pieces (split_ne_nil separator text)
          | cons first rest =>
              rw [pieces, List.modifyHead_cons] at member
              rcases List.mem_cons.mp member with head | tail
              · rw [head, List.mem_cons]
                rintro (same | inside)
                · exact other same.symm
                · exact ih (by rw [pieces]; exact List.mem_cons_self) inside
              · exact ih (by rw [pieces]; exact List.mem_cons_of_mem _ tail)

/-- A text put before a separator and another text adds its pieces in front. -/
theorem split_append (separator : Char) (first second : Str) :
    split separator (first ++ separator :: second) =
      split separator first ++ split separator second := by
  induction first with
  | nil => rw [List.nil_append, split_cons, if_pos rfl, split, List.singleton_append]
  | cons char first ih =>
      rw [List.cons_append, split_cons, split_cons, ih]
      split
      · rfl
      · cases pieces : split separator first with
        | nil => exact absurd pieces (split_ne_nil separator first)
        | cons piece rest => rfl

/-- The pieces and the separators between them make up the text. -/
theorem intercalate_split (separator : Char) (text : Str) :
    [separator].intercalate (split separator text) = text := by
  induction text with
  | nil => rfl
  | cons char text ih =>
      rw [split_cons]
      cases pieces : split separator text with
      | nil => exact absurd pieces (split_ne_nil separator text)
      | cons piece rest =>
          rw [pieces] at ih
          split
          · next same => rw [List.intercalate_cons_cons, ih, same]; rfl
          · cases rest with
            | nil =>
                simp only [List.intercalate_singleton] at ih
                rw [List.modifyHead_cons, List.intercalate_singleton, ih]
            | cons next rest =>
                rw [List.intercalate_cons_cons] at ih
                rw [List.modifyHead_cons, List.intercalate_cons_cons, ← ih]
                rfl

end Str

/-- Why a value was refused. -/
inductive Invalid where
  | emptyRef
  | refTooLong
  | badRef
  | emptyPath
  | absolutePath
  | pathTooLong
  | badPath
  deriving DecidableEq, Repr

/-- What the teacher who typed the value is shown. -/
def Invalid.message : Invalid → Str
  | .emptyRef => "a branch, tag or commit can't be empty".toList
  | .refTooLong => "a branch, tag or commit is at most 100 characters".toList
  | .badRef =>
      ("a branch, tag or commit may only use letters, digits and . _ / - " ++
        "(and can't start or end with / or ., contain .. or //, or start with -)").toList
  | .emptyPath => "a path can't be empty".toList
  | .absolutePath => "a path must be relative to the repository root, not start with /".toList
  | .pathTooLong => "a path is at most 500 characters".toList
  | .badPath =>
      ("a path can't contain empty, '.' or '..' segments, backslashes or " ++
        "control characters").toList

/-- The form of a branch, tag or commit. -/
def isGitRef (text : Str) : Bool :=
  let charset := text.all fun char => char.isAlphanum || "._/-".toList.contains char
  let shape := !text.startsWithAny "-/.".toList
    && !text.endsWithAny "/.".toList
    && !text.contains "..".toList
    && !text.contains "//".toList
    && !".lock".toList.isSuffixOf text
  charset && shape

/-- A branch, tag or commit in the linked repository. -/
structure GitRef where
  text : Str
  shaped : isGitRef text = true
  deriving DecidableEq

def GitRef.parse (raw : Str) : Except Invalid GitRef :=
  let text := raw.trim
  if text.isEmpty then .error .emptyRef
  else if 100 < text.len then .error .refTooLong
  else if shaped : isGitRef text = true then .ok { text, shaped }
  else .error .badRef

/-- What a ref was parsed from, without blanks around it. -/
theorem GitRef.text_of_parse {raw : Str} {ref : GitRef} (parsed : GitRef.parse raw = .ok ref) :
    ref.text = raw.trim := by
  simp only [GitRef.parse] at parsed
  split_ifs at parsed
  cases parsed
  rfl

theorem GitRef.text_ne_nil_of_parse {raw : Str} {ref : GitRef}
    (parsed : GitRef.parse raw = .ok ref) : ref.text ≠ [] := by
  rw [GitRef.text_of_parse parsed]
  intro blank
  rw [GitRef.parse, blank] at parsed
  cases parsed

/-- One segment of a path: it names a file or folder, and nothing above it. -/
def isPlainSegment (segment : Str) : Bool :=
  segment ∉ ["".toList, ".".toList, "..".toList]
    && segment.len ≤ 255
    && !segment.any fun char => char == '\\' || Str.isControl char

/-- A file or folder path inside the repository: relative and with plain segments
only, so that joining it under a folder never leaves that folder. -/
structure RepoPath where
  text : Str
  plain : ∀ segment ∈ Str.split '/' text, isPlainSegment segment = true
  deriving DecidableEq

namespace RepoPath

def parse (raw : Str) : Except Invalid RepoPath :=
  -- A trailing slash is how people write a folder; it isn't a segment.
  let text := Str.trimEndMatches '/' raw.trim
  if text.isEmpty then .error .emptyPath
  else if text.startsWithAny "/".toList then .error .absolutePath
  else if 500 < text.len then .error .pathTooLong
  else if plain : ∀ segment ∈ Str.split '/' text, isPlainSegment segment = true then
    .ok { text, plain }
  else .error .badPath

def segments (path : RepoPath) : List Str :=
  Str.split '/' path.text

/-- `self/tail` -/
def join (path tail : RepoPath) : RepoPath where
  text := path.text ++ '/' :: tail.text
  plain := by
    intro segment member
    rw [Str.split_append, List.mem_append] at member
    rcases member with front | back
    · exact path.plain segment front
    · exact tail.plain segment back

@[simp]
theorem segments_join (path tail : RepoPath) :
    (path.join tail).segments = path.segments ++ tail.segments :=
  Str.split_append '/' path.text tail.text

/-- What a path was parsed from, without blanks around it and slashes after it. -/
theorem text_of_parse {raw : Str} {path : RepoPath} (parsed : parse raw = .ok path) :
    path.text = Str.trimEndMatches '/' raw.trim := by
  simp only [parse] at parsed
  split_ifs at parsed
  cases parsed
  rfl

/-- What every segment of a path is. -/
theorem segment_spec {path : RepoPath} {segment : Str} (member : segment ∈ path.segments) :
    segment ≠ [] ∧ segment ≠ ".".toList ∧ segment ≠ "..".toList ∧
      '/' ∉ segment ∧ '\\' ∉ segment ∧ ∀ char ∈ segment, Str.isControl char = false := by
  have plain := path.plain segment member
  simp only [isPlainSegment, Bool.and_eq_true, Bool.not_eq_true', List.any_eq_false,
    Bool.or_eq_true, not_or, decide_eq_true_eq, List.mem_cons] at plain
  obtain ⟨⟨⟨unnamed, here, up, -⟩, -⟩, clean⟩ := plain
  refine ⟨unnamed, here, up, Str.not_mem_of_mem_split member, ?_, ?_⟩
  · intro inside
    exact (clean '\\' inside).1 (beq_self_eq_true _)
  · intro char inside
    exact Bool.eq_false_iff.mpr (clean char inside).2

end RepoPath

/-- Where a course's reference solutions live in its linked repo: a ref, a folder,
or both.  A course with neither has no solutions. -/
structure SolutionsSource where
  /-- `none`: the repo's default branch. -/
  gitRef : Option GitRef
  /-- `none`: the repo root. -/
  dir : Option RepoPath
  configured : gitRef.isSome || dir.isSome
  deriving DecidableEq

namespace SolutionsSource

/-- From the two stored settings.  Blank ones mean "not set"; both blank means the
course has no solutions configured. -/
def parse (gitRef dir : Option Str) : Except Invalid (Option SolutionsSource) := do
  let blank := fun text : Str => text.trim.isEmpty
  let gitRef ← (gitRef.filter (!blank ·)).mapM GitRef.parse
  let dir ← (dir.filter (!blank ·)).mapM RepoPath.parse
  if configured : gitRef.isSome || dir.isSome then
    return some { gitRef, dir, configured }
  else
    return none

/-- Where a student's file has its reference: the same path, under the folder. -/
def locate (source : SolutionsSource) (studentFile : RepoPath) : RepoPath :=
  match source.dir with
  | some dir => dir.join studentFile
  | none => studentFile

/-- The segments of the folder; the repo root has none. -/
def dirSegments (source : SolutionsSource) : List Str :=
  (source.dir.map RepoPath.segments).getD []

@[simp]
theorem segments_locate (source : SolutionsSource) (studentFile : RepoPath) :
    (source.locate studentFile).segments = source.dirSegments ++ studentFile.segments := by
  unfold locate dirSegments
  cases source.dir with
  | none => rfl
  | some dir => exact RepoPath.segments_join dir studentFile

/-- The two settings, parsed one by one. -/
theorem parse_eq_some {gitRef dir : Option Str} {source : SolutionsSource}
    (parsed : parse gitRef dir = .ok (some source)) :
    (gitRef.filter fun text => !text.trim.isEmpty).mapM GitRef.parse = .ok source.gitRef ∧
      (dir.filter fun text => !text.trim.isEmpty).mapM RepoPath.parse = .ok source.dir := by
  simp only [parse] at parsed
  cases refParsed : (gitRef.filter fun text => !text.trim.isEmpty).mapM GitRef.parse with
  | error invalid =>
      rw [refParsed] at parsed
      cases parsed
  | ok ref =>
      rw [refParsed] at parsed
      cases dirParsed : (dir.filter fun text => !text.trim.isEmpty).mapM RepoPath.parse with
      | error invalid =>
          rw [dirParsed] at parsed
          cases parsed
      | ok folder =>
          rw [dirParsed] at parsed
          change (if configured : ref.isSome || folder.isSome then _ else _) = _ at parsed
          split at parsed
          · cases parsed
            exact ⟨rfl, rfl⟩
          · cases parsed

/-- The folder's segments are those of its setting, when that is not blank. -/
theorem dirSegments_of_parse {gitRef dir : Option Str} {source : SolutionsSource}
    (parsed : parse gitRef dir = .ok (some source)) :
    source.dirSegments =
      ((dir.filter fun text => !text.trim.isEmpty).map fun raw =>
        Str.split '/' (Str.trimEndMatches '/' raw.trim)).getD [] := by
  obtain ⟨-, folder⟩ := parse_eq_some parsed
  unfold dirSegments
  cases given : dir.filter fun text => !text.trim.isEmpty with
  | none =>
      rw [given] at folder
      rw [← Except.ok.inj folder]
      rfl
  | some raw =>
      rw [given, Option.mapM_some] at folder
      cases parsedDir : RepoPath.parse raw with
      | error invalid =>
          rw [parsedDir] at folder
          cases folder
      | ok path =>
          rw [parsedDir] at folder
          rw [← Except.ok.inj folder, Option.map_some, Option.map_some, Option.getD_some,
            Option.getD_some, RepoPath.segments, RepoPath.text_of_parse parsedDir]

end SolutionsSource

end Hermione
