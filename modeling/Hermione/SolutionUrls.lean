import Hermione.PercentEncoding

/-!
# A student's path in a request

A student's editor chose the path of the file, and it is looked up with the
course's credential.  The request is for a file in the solutions folder all the
same: segments stay segments, and the query is the server's own.
-/

namespace Hermione

/-- The URL of a file, as it is written. -/
theorem asStr_contentsUrl {urls : UrlCrate} (builds : urls.Builds) (base : Str)
    (repo : GitHubRepo) (gitRef : Option GitRef) (path : RepoPath) :
    urls.asStr (contentsUrl urls base repo gitRef path) =
      base ++ "/repos/".toList ++ repo.owner ++ ['/'] ++ repo.name ++ "/contents/".toList ++
        ['/'].intercalate (path.segments.map urls.encodeSegment) ++
        (gitRef.map fun ref => "?ref=".toList ++ urls.encodeQuery ref.text).getD [] := by
  rw [contentsUrl_eq builds]
  obtain ⟨first, rest, segments⟩ := List.exists_cons_of_ne_nil (Str.split_ne_nil '/' path.text)
  have named : urls.encodeQuery ['r', 'e', 'f'] = ['r', 'e', 'f'] :=
    builds.keepsQuery _ (by decide)
  rw [RepoPath.segments, segments]
  cases gitRef with
  | none => simp [UrlCrate.asStr, List.intercalate_cons_cons]
  | some ref => simp [UrlCrate.asStr, List.intercalate_cons_cons, named]

/-- What a segment of a request's path may be. -/
def StaysInFolder (segment : Str) : Prop :=
  segment ≠ [] ∧ segment ≠ ".".toList ∧ segment ≠ "..".toList ∧
    '/' ∉ segment ∧ '\\' ∉ segment ∧ ∀ char ∈ segment, Str.isControl char = false

/-- Segments that are encoded one by one stay apart in what is written. -/
theorem split_encodeSegment {urls : UrlCrate} (builds : urls.Builds) {segments : List Str}
    (nonempty : segments ≠ []) :
    Str.split '/' (['/'].intercalate (segments.map urls.encodeSegment)) =
      segments.map urls.encodeSegment := by
  apply Str.split_intercalate
  · rwa [ne_eq, List.map_eq_nil_iff]
  · intro piece member
    obtain ⟨segment, -, rfl⟩ := List.mem_map.mp member
    exact (builds.encodes segment).not_mem (by decide)

/-- For every accepted setting and every accepted path of a student, the file is
looked up under the folder, by a URL of plain segments each encoded on its own. -/
theorem solution_url_contained {urls : UrlCrate} (builds : urls.Builds) (base : Str)
    (repo : GitHubRepo) {gitRef dir : Option Str} {raw : Str} {source : SolutionsSource}
    {studentFile : RepoPath} (configured : SolutionsSource.parse gitRef dir = .ok (some source))
    (accepted : RepoPath.parse raw = .ok studentFile) :
    (source.locate studentFile).segments =
        ((dir.filter fun text => !text.trim.isEmpty).map fun folder =>
          Str.split '/' (Str.trimEndMatches '/' folder.trim)).getD [] ++
        Str.split '/' (Str.trimEndMatches '/' raw.trim) ∧
      (source.locate studentFile).segments = source.dirSegments ++ studentFile.segments ∧
      (∀ segment ∈ (source.locate studentFile).segments, StaysInFolder segment) ∧
      urls.asStr (contentsUrl urls base repo source.gitRef (source.locate studentFile)) =
        base ++ "/repos/".toList ++ repo.owner ++ ['/'] ++ repo.name ++ "/contents/".toList ++
          ['/'].intercalate ((source.locate studentFile).segments.map urls.encodeSegment) ++
          (source.gitRef.map fun ref => "?ref=".toList ++ urls.encodeQuery ref.text).getD [] ∧
      Str.split '/' (['/'].intercalate
          ((source.locate studentFile).segments.map urls.encodeSegment)) =
        (source.locate studentFile).segments.map urls.encodeSegment ∧
      (∀ segment ∈ (source.locate studentFile).segments,
        PercentEncoded (urls.encodeSegment segment)) ∧
      (contentsUrl urls base repo source.gitRef (source.locate studentFile)).query =
        (source.gitRef.map fun ref => ("ref".toList, ref.text)).toList := by
  have joined := source.segments_locate studentFile
  have folder := SolutionsSource.dirSegments_of_parse configured
  have file := RepoPath.text_of_parse accepted
  refine ⟨?_, joined, ?_, asStr_contentsUrl builds base repo source.gitRef _,
    split_encodeSegment builds (Str.split_ne_nil '/' _),
    fun segment _ => builds.encodes segment, ?_⟩
  · rw [joined, folder, RepoPath.segments, file]
  · intro segment member
    exact RepoPath.segment_spec member
  · rw [contentsUrl_eq builds]

/-- Reference solutions on a branch, in a folder. -/
def releasedExercises : SolutionsSource where
  gitRef := some { text := "release/2026".toList, shaped := by decide }
  dir := some { text := "ex02".toList, plain := by decide }
  configured := rfl

/-- A path with a blank, an encoded dot pair and a letter outside ASCII. -/
def nastyPath : RepoPath where
  text := "a b/%2e%2e/é.c".toList
  plain := by decide

/-- It stays in the folder, under the repository. -/
theorem solution_url_contained_nasty :
    ∃ repo, GitHubRepo.parse "git@github.com:acme/cs101.git".toList = some repo ∧
      percentUrls.asStr (contentsUrl percentUrls "https://api.github.com".toList repo
          releasedExercises.gitRef (releasedExercises.locate nastyPath)) =
        ("https://api.github.com/repos/acme/cs101/contents/ex02/a%20b/%252e%252e/%C3%A9.c" ++
          "?ref=release%2F2026").toList := by
  have configured : SolutionsSource.parse (some "release/2026".toList) (some " ex02/ ".toList) =
      .ok (some releasedExercises) := by decide +kernel
  have accepted : RepoPath.parse "a b/%2e%2e/é.c".toList = .ok nastyPath := by decide +kernel
  refine ⟨{ owner := "acme".toList, name := "cs101".toList,
            ownerSafe := by decide, nameSafe := by decide }, by decide +kernel, ?_⟩
  obtain ⟨-, -, -, written, -⟩ := solution_url_contained percentUrls_builds
    "https://api.github.com".toList _ configured accepted
  rw [written]
  decide +kernel

end Hermione
