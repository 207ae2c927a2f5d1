import Hermione.RepoPath

/-!
# The repository a course is linked to, and its files' URLs

A teacher links a repository by its URL.  Owner and name are only accepted as
segments that mean themselves in a URL, and a request's URL is put together from
segments and query values, not from text: the URL crate decides how each of
them is written.
-/

namespace Hermione

namespace Str

/-- `str::strip_suffix` -/
def stripSuffix (suffix text : Str) : Option Str :=
  if suffix.isSuffixOf text then some (text.take (text.length - suffix.length)) else none

/-- `str::splitn` on one character: the last of so many pieces is all that is
left. -/
def splitn (count : Nat) (separator : Char) (text : Str) : List Str :=
  let pieces := split separator text
  if pieces.length ≤ count then pieces
  else pieces.take (count - 1) ++ [[separator].intercalate (pieces.drop (count - 1))]

def eqIgnoreAsciiCase (text other : Str) : Bool :=
  text.toAsciiLowercase = other.toAsciiLowercase

end Str

/-! ### Repositories -/

/-- An owner or repository name safe to put in an API URL: not empty, not what a
URL parser could treat as path traversal, and of `[A-Za-z0-9._-]` only. -/
def isSafeSegment (segment : Str) : Bool :=
  !segment.isEmpty && segment ≠ ".".toList && segment ≠ "..".toList
    && segment.all fun char => char.isAlphanum || "._-".toList.contains char

/-- Owner and name from a GitHub URL in https or ssh form. -/
def parseGithub (repoUrl : Str) : Option (Str × Str) := do
  let text := repoUrl.trim
  let rest ← Str.stripPrefix "https://github.com/".toList text
    <|> Str.stripPrefix "http://github.com/".toList text
    <|> Str.stripPrefix "ssh://git@github.com/".toList text
    <|> Str.stripPrefix "git@github.com:".toList text
  let parts := Str.splitn 3 '/' (Str.trimEndMatches '/' rest)
  let owner ← parts[0]?
  let repo ← parts[1]?
  let repo := (Str.stripSuffix ".git".toList repo).getD repo
  if isSafeSegment owner && isSafeSegment repo then some (owner, repo) else none

/-- A repository on GitHub.  Built only from a URL that parsed as one, so that owner
and name are safe to put in a request path. -/
structure GitHubRepo where
  owner : Str
  name : Str
  ownerSafe : isSafeSegment owner = true
  nameSafe : isSafeSegment name = true
  deriving DecidableEq

theorem safe_of_parseGithub {repoUrl owner name : Str}
    (parsed : parseGithub repoUrl = some (owner, name)) :
    isSafeSegment owner = true ∧ isSafeSegment name = true := by
  simp only [parseGithub, Option.bind_eq_bind, Option.bind_eq_some_iff] at parsed
  obtain ⟨rest, -, owner', -, repo, -, decided⟩ := parsed
  split at decided
  · next safe =>
      cases decided
      exact Bool.and_eq_true_iff.mp safe
  · cases decided

/-- `none` for a URL that isn't a GitHub repo. -/
def GitHubRepo.parse (repoUrl : Str) : Option GitHubRepo :=
  match parsed : parseGithub repoUrl with
  | some (owner, name) =>
      some { owner, name
             ownerSafe := (safe_of_parseGithub parsed).1
             nameSafe := (safe_of_parseGithub parsed).2 }
  | none => none

theorem GitHubRepo.parse_eq_some {repoUrl : Str} {repo : GitHubRepo}
    (parsed : parse repoUrl = some repo) : parseGithub repoUrl = some (repo.owner, repo.name) := by
  unfold parse at parsed
  split at parsed
  · next owner name found =>
      cases parsed
      exact found
  · cases parsed

/-! ### URLs -/

/-- A URL of the API.  Segments are kept as they are written in it, query pairs as
what they say. -/
structure Url where
  /-- Scheme and host. -/
  origin : Str
  path : List Str
  query : List (Str × Str)
  deriving DecidableEq

/-- The `url` crate, as far as requests are made with it. -/
structure UrlCrate where
  parse : Str → Option Url
  /-- How one segment of a path is written. -/
  encodeSegment : Str → Str
  /-- How a name or a value of the query is written. -/
  encodeQuery : Str → Str
  /-- `path_segments_mut().extend` -/
  extend : Url → List Str → Url
  /-- `query_pairs_mut().append_pair` -/
  appendPair : Url → Str → Str → Url

/-- `Url::as_str` -/
def UrlCrate.asStr (urls : UrlCrate) (url : Url) : Str :=
  let path := url.origin ++ '/' :: ['/'].intercalate url.path
  match url.query with
  | [] => path
  | pairs =>
      path ++ '?' :: ['&'].intercalate (pairs.map fun (name, value) =>
        urls.encodeQuery name ++ '=' :: urls.encodeQuery value)

/-- A segment that `path_segments_mut` skips. -/
def isDots (segment : Str) : Bool :=
  segment = ".".toList || segment = "..".toList

def isHexDigit (char : Char) : Bool :=
  "0123456789ABCDEF".toList.contains char

/-- Percent-encoded text: nothing in it ends a segment of a path, and `%` stands before
two hexadecimal digits only. -/
inductive PercentEncoded : Str → Prop where
  | nil : PercentEncoded []
  | kept {char : Char} {rest : Str} (plain : char ∉ "/?#%".toList)
      (encoded : PercentEncoded rest) : PercentEncoded (char :: rest)
  | escaped {high low : Char} {rest : Str} (digits : isHexDigit high ∧ isHexDigit low)
      (encoded : PercentEncoded rest) : PercentEncoded ('%' :: high :: low :: rest)

theorem PercentEncoded.append {first second : Str} (encoded : PercentEncoded first)
    (rest : PercentEncoded second) : PercentEncoded (first ++ second) := by
  induction encoded with
  | nil => exact rest
  | kept plain _ ih => exact .kept plain ih
  | escaped digits _ ih => exact .escaped digits ih

theorem PercentEncoded.not_mem {text : Str} (encoded : PercentEncoded text) {char : Char}
    (ends : char ∈ "/?#".toList) : char ∉ text := by
  have other : char ≠ '%' ∧ isHexDigit char = false := by
    have each : "/?#".toList.all (fun char => char ≠ '%' && !isHexDigit char) = true := by decide
    simpa using List.all_eq_true.mp each char ends
  induction encoded with
  | nil => exact List.not_mem_nil
  | kept plain _ ih =>
      rw [List.mem_cons, not_or]
      refine ⟨?_, ih⟩
      rintro rfl
      exact plain (List.mem_append_left ['%'] ends)
  | escaped digits _ ih =>
      simp only [List.mem_cons, not_or]
      refine ⟨other.1, ?_, ?_, ih⟩
      · rintro rfl
        exact Bool.false_ne_true (other.2.symm.trans digits.1)
      · rintro rfl
        exact Bool.false_ne_true (other.2.symm.trans digits.2)

/-- What the crate documents of building a URL.  Every segment is percent-encoded,
`%` included, and a segment `.` or `..` is dropped. -/
structure UrlCrate.Builds (urls : UrlCrate) : Prop where
  encodes : ∀ segment, PercentEncoded (urls.encodeSegment segment)
  extend : ∀ url segments, urls.extend url segments =
    { url with path := url.path ++ (segments.filter (!isDots ·)).map urls.encodeSegment }
  appendPair : ∀ url name value, urls.appendPair url name value =
    { url with query := url.query ++ [(name, value)] }
  /-- What is safe already stays as it is. -/
  keeps : ∀ segment, isSafeSegment segment = true → urls.encodeSegment segment = segment
  keepsQuery : ∀ text, isSafeSegment text = true → urls.encodeQuery text = text

def HTTPS : Str :=
  "https://".toList

/-- A URL with nothing in it that is written in another way when it is parsed. -/
structure Url.Tidy (url : Url) : Prop where
  origin : ∃ host, isSafeSegment host = true ∧ url.origin = HTTPS ++ host
  path : url.path ≠ []
  segment : ∀ segment ∈ url.path, segment = [] ∨ isSafeSegment segment = true
  query : ∀ pair ∈ url.query, isSafeSegment pair.1 = true ∧ isSafeSegment pair.2 = true

/-- Such a URL is read as it was written. -/
def UrlCrate.Reads (urls : UrlCrate) : Prop :=
  ∀ url : Url, url.Tidy → urls.parse (urls.asStr url) = some url

section Requests

variable (urls : UrlCrate) (base : Str)

/-- Where every path starts: the API's root. -/
def apiRoot : Url :=
  { origin := base, path := [], query := [] }

/-- `GET /repos/{owner}/{repo}/contents/{path}?ref={ref}` -/
def contentsUrl (repo : GitHubRepo) (gitRef : Option GitRef) (path : RepoPath) : Url :=
  let url := urls.extend (apiRoot base)
    ["repos".toList, repo.owner, repo.name, "contents".toList]
  let url := urls.extend url path.segments
  match gitRef with
  | some ref => urls.appendPair url "ref".toList ref.text
  | none => url

/-- `GET /repos/{owner}/{repo}/commits/{ref}`: does the ref (or, with none, the
default branch) exist and can we read it? -/
def commitUrl (repo : GitHubRepo) (gitRef : Option GitRef) : Url :=
  let url := urls.extend (apiRoot base)
    ["repos".toList, repo.owner, repo.name, "commits".toList]
  match gitRef with
  | some ref => urls.extend url (Str.split '/' ref.text)
  | none => urls.extend url ["HEAD".toList]

end Requests

theorem not_isDots_of_isSafeSegment {segment : Str} (safe : isSafeSegment segment = true) :
    isDots segment = false := by
  simp only [isSafeSegment, Bool.and_eq_true, decide_eq_true_eq] at safe
  simp only [isDots, Bool.or_eq_false_iff, decide_eq_false_iff_not]
  exact ⟨safe.1.1.2, safe.1.2⟩

section Building

variable {urls : UrlCrate} (builds : urls.Builds)

include builds

/-- Safe segments are appended as they are. -/
theorem UrlCrate.Builds.extend_safe (url : Url) {segments : List Str}
    (safe : ∀ segment ∈ segments, isSafeSegment segment = true) :
    urls.extend url segments = { url with path := url.path ++ segments } := by
  have kept : segments.filter (!isDots ·) = segments := by
    apply List.filter_eq_self.mpr
    intro segment member
    rw [not_isDots_of_isSafeSegment (safe segment member)]
    rfl
  have written : segments.map urls.encodeSegment = segments :=
    (List.map_congr_left fun segment member =>
      builds.keeps segment (safe segment member)).trans (List.map_id segments)
  rw [builds.extend, kept, written]

/-- No segment of a parsed path is dropped. -/
theorem UrlCrate.Builds.extend_segments (url : Url) (path : RepoPath) :
    urls.extend url path.segments =
      { url with path := url.path ++ path.segments.map urls.encodeSegment } := by
  have kept : path.segments.filter (!isDots ·) = path.segments := by
    apply List.filter_eq_self.mpr
    intro segment member
    obtain ⟨-, here, up, -⟩ := RepoPath.segment_spec member
    simp only [isDots, here, up, decide_false, Bool.or_self, Bool.not_false]
  rw [builds.extend, kept]

theorem UrlCrate.Builds.extend_repo (base : Str) (repo : GitHubRepo) {resource : Str}
    (safe : isSafeSegment resource = true) :
    urls.extend (apiRoot base) ["repos".toList, repo.owner, repo.name, resource] =
      { apiRoot base with path := ["repos".toList, repo.owner, repo.name, resource] } := by
  rw [builds.extend_safe (apiRoot base)]
  · rfl
  · intro segment member
    simp only [List.mem_cons, List.not_mem_nil, or_false] at member
    rcases member with rfl | rfl | rfl | rfl
    · decide
    · exact repo.ownerSafe
    · exact repo.nameSafe
    · exact safe

/-- The URL of a file, piece by piece. -/
theorem contentsUrl_eq (base : Str) (repo : GitHubRepo) (gitRef : Option GitRef)
    (path : RepoPath) :
    contentsUrl urls base repo gitRef path =
      { origin := base
        path := ["repos".toList, repo.owner, repo.name, "contents".toList] ++
          path.segments.map urls.encodeSegment
        query := (gitRef.map fun ref => ("ref".toList, ref.text)).toList } := by
  simp only [contentsUrl, builds.extend_repo base repo (by decide : isSafeSegment
    "contents".toList = true), builds.extend_segments]
  cases gitRef with
  | none => rfl
  | some ref => exact builds.appendPair _ _ _

/-- The URL of a commit is under the repository, whatever the ref. -/
theorem commitUrl_eq (base : Str) (repo : GitHubRepo) (gitRef : Option GitRef) :
    commitUrl urls base repo gitRef =
      { origin := base
        path := ["repos".toList, repo.owner, repo.name, "commits".toList] ++
          ((((gitRef.map fun ref => Str.split '/' ref.text).getD ["HEAD".toList]).filter
            (!isDots ·)).map urls.encodeSegment)
        query := [] } := by
  simp only [commitUrl, builds.extend_repo base repo (by decide : isSafeSegment
    "commits".toList = true), builds.extend]
  cases gitRef with
  | none => rfl
  | some ref => rfl

end Building

end Hermione
