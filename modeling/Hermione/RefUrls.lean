import Hermione.PercentEncoding

/-!
# A branch, tag or commit in a request

A ref is sent to the API twice: as the value of a query, and as segments of a path when
the API is asked whether it exists.  The URL crate leaves out segments that mean a
folder of their own, and one such segment is accepted in a ref.
-/

namespace Hermione

namespace Str

/-- A piece stands between separators, or at an end. -/
theorem exists_of_mem_split {separator : Char} {text piece : Str}
    (member : piece ∈ split separator text) :
    ∃ before after, text = before ++ piece ++ after ∧
      (before = [] ∨ ∃ front, before = front ++ [separator]) ∧
      (after = [] ∨ ∃ back, after = separator :: back) := by
  obtain ⟨front, back, pieces⟩ := List.append_of_mem member
  have whole := intercalate_split separator text
  have behind : back.flatMap (separator :: ·) = [] ∨
      ∃ rest, back.flatMap (separator :: ·) = separator :: rest := by
    cases back with
    | nil => exact .inl rfl
    | cons next back => exact .inr ⟨_, rfl⟩
  cases front with
  | nil =>
      rw [pieces, List.nil_append, intercalate_cons] at whole
      exact ⟨[], _, whole.symm, .inl rfl, behind⟩
  | cons first front =>
      rw [pieces, List.cons_append, intercalate_cons, List.flatMap_append,
        List.flatMap_cons] at whole
      refine ⟨first ++ front.flatMap (separator :: ·) ++ [separator], _, ?_, .inr ⟨_, rfl⟩, behind⟩
      rw [← whole]
      simp

end Str

/-! ### Segments of a ref -/

namespace GitRef

/-- The form of a ref, part by part. -/
theorem form (ref : GitRef) :
    (∀ char ∈ ref.text, isSafeChar char = true ∨ char = '/') ∧
      Str.startsWithAny ref.text "-/.".toList = false ∧
      Str.endsWithAny ref.text "/.".toList = false ∧
      ¬ "..".toList <:+: ref.text ∧ ¬ "//".toList <:+: ref.text := by
  have shaped := ref.shaped
  simp only [isGitRef, Bool.and_eq_true, Bool.not_eq_true', List.all_eq_true] at shaped
  obtain ⟨charset, ⟨⟨⟨starts, ends⟩, dots⟩, slashes⟩, -⟩ := shaped
  refine ⟨?_, starts, ends, ?_, ?_⟩
  · intro char member
    have own := charset char member
    simp only [isSafeChar, Bool.or_eq_true] at own ⊢
    simp at own ⊢
    tauto
  · rw [← Str.contains_iff, dots]
    decide
  · rw [← Str.contains_iff, slashes]
    decide

variable {ref : GitRef} {segment : Str}

theorem segment_ne_nil (some : ref.text ≠ []) (member : segment ∈ Str.split '/' ref.text) :
    segment ≠ [] := by
  rintro rfl
  obtain ⟨-, starts, ends, -, slashes⟩ := ref.form
  obtain ⟨before, after, whole, front, back⟩ := Str.exists_of_mem_split member
  rw [List.append_nil] at whole
  rcases front with rfl | ⟨front, rfl⟩
  · rcases back with rfl | ⟨back, rfl⟩
    · exact some whole
    · rw [whole] at starts
      cases starts
  · rcases back with rfl | ⟨back, rfl⟩
    · rw [whole, List.append_nil, Str.endsWithAny, List.getLast?_concat] at ends
      cases ends
    · exact slashes ⟨front, back, by rw [whole]; simp⟩

/-- Every segment is safe in a URL, unless it is a single dot. -/
theorem isSafeSegment_of_mem_split (some : ref.text ≠ [])
    (member : segment ∈ Str.split '/' ref.text) (other : segment ≠ ".".toList) :
    isSafeSegment segment = true := by
  obtain ⟨charset, -, -, dots, -⟩ := ref.form
  obtain ⟨before, after, whole, -, -⟩ := Str.exists_of_mem_split member
  have up : segment ≠ "..".toList := by
    rintro rfl
    exact dots ⟨before, after, whole.symm⟩
  have chars : ∀ char ∈ segment, isSafeChar char = true := by
    intro char inside
    have listed : char ∈ ref.text := by
      rw [whole]
      exact List.mem_append_left _ (List.mem_append_right _ inside)
    refine (charset char listed).resolve_right ?_
    rintro rfl
    exact Str.not_mem_of_mem_split member inside
  simp only [isSafeSegment, Bool.and_eq_true, Bool.not_eq_true', List.isEmpty_eq_false_iff,
    decide_eq_true_eq, List.all_eq_true]
  exact ⟨⟨⟨segment_ne_nil some member, other⟩, up⟩, chars⟩

end GitRef

/-! ### The path -/

/-- The path that asks for the ref has all of its segments, and the query of a file's
URL has the ref itself. -/
def ProbesConfigured (urls : UrlCrate) (base : Str) (repo : GitHubRepo) (ref : GitRef) : Prop :=
  (commitUrl urls base repo (some ref)).path =
      ["repos".toList, repo.owner, repo.name, "commits".toList] ++ Str.split '/' ref.text ∧
    ∀ path, (contentsUrl urls base repo (some ref) path).query = [("ref".toList, ref.text)]

/-- A ref is probed as it is configured exactly if none of its segments is a dot. -/
theorem probesConfigured_iff {urls : UrlCrate} (builds : urls.Builds) (base : Str)
    (repo : GitHubRepo) {raw : Str} {ref : GitRef} (parsed : GitRef.parse raw = .ok ref) :
    ProbesConfigured urls base repo ref ↔ ".".toList ∉ Str.split '/' raw.trim := by
  have some := GitRef.text_ne_nil_of_parse parsed
  rw [← GitRef.text_of_parse parsed]
  have query : ∀ path, (contentsUrl urls base repo (.some ref) path).query =
      [("ref".toList, ref.text)] := by
    intro path
    rw [contentsUrl_eq builds]
    rfl
  rw [ProbesConfigured, and_iff_left query]
  constructor
  · intro kept member
    rw [commitUrl_eq builds, List.append_cancel_left_eq, Option.map_some, Option.getD_some] at kept
    have all := congrArg List.length kept
    rw [List.length_map, List.length_filter_eq_length_iff] at all
    have dot := all _ member
    revert dot
    decide
  · intro none
    have safe : ∀ segment ∈ Str.split '/' ref.text, isSafeSegment segment = true := by
      intro segment member
      refine GitRef.isSafeSegment_of_mem_split some member ?_
      rintro rfl
      exact none member
    simp only [commitUrl, builds.extend_repo base repo (by decide : isSafeSegment
      "commits".toList = true), builds.extend_safe _ safe]

def acmeCourse : GitHubRepo where
  owner := "acme".toList
  name := "cs101".toList
  ownerSafe := by decide
  nameSafe := by decide

/-- A ref of two segments. -/
theorem probesConfigured_iff_release :
    ProbesConfigured percentUrls "https://api.github.com".toList acmeCourse
      { text := "release/2026".toList, shaped := by decide } := by
  have parsed : GitRef.parse "release/2026".toList = .ok _ := rfl
  exact (probesConfigured_iff percentUrls_builds _ _ parsed).mpr (by decide)

/-- A ref is accepted of which another one is probed. -/
theorem not_probesConfigured_dot :
    ∃ ref, GitRef.parse "release/./2026".toList = .ok ref ∧
      ¬ ProbesConfigured percentUrls "https://api.github.com".toList acmeCourse ref ∧
      (commitUrl percentUrls "https://api.github.com".toList acmeCourse (some ref)).path =
        ["repos".toList, "acme".toList, "cs101".toList, "commits".toList, "release".toList,
          "2026".toList] := by
  refine ⟨{ text := "release/./2026".toList, shaped := by decide }, rfl, ?_, by decide +kernel⟩
  rintro ⟨whole, -⟩
  revert whole
  decide +kernel

end Hermione
