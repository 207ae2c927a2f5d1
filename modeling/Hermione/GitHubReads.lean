import Mathlib.Data.List.Destutter
import Hermione.CourseFile
import Hermione.Gates
import Hermione.GitHubRepo
import Hermione.Programs
import Hermione.Solutions
import Hermione.TokenCache

/-!
# Reading a linked repository through the GitHub API

Exercises are seeded, the tree is drawn and solutions are read with whichever
credential the server may use for the repository: a token of its GitHub App,
minted for this repository, else the shared token if the owner is on a list, else
none.  Here are the requests this makes, whatever GitHub answers.
-/

namespace Hermione

/-- `String::from_utf8` -/
def Str.fromUtf8 (bytes : List UInt8) : Option Str :=
  let text := Str.fromUtf8Lossy bytes
  if text.flatMap String.utf8EncodeChar = bytes then some text else none

namespace GitHub

/-! ### Requests and answers -/

inductive Method where
  | get
  | post
  deriving DecidableEq, Repr

structure Request where
  method : Method
  url : Url
  headers : List (Str × Str)
  /-- The bearer credential. -/
  token : Option Str
  body : Option (Json Str)

structure Response where
  status : Nat
  headers : Str → Option (List UInt8)
  contentLength : Option Nat
  /-- The pieces in which the body arrives; `none` is where the connection broke. -/
  chunks : List (Option (List UInt8))

def Response.isSuccess (response : Response) : Bool :=
  200 ≤ response.status && response.status < 300

/-- The whole body, if it arrives. -/
def Response.bytes (response : Response) : Option (List UInt8) :=
  (response.chunks.mapM id).map List.flatten

def ACCEPT_JSON : Str :=
  "application/vnd.github+json".toList

def apiRequest (method : Method) (url : Url) (token : Option Str) (accept : Str)
    (body : Option (Json Str)) : Request :=
  { method
    url
    headers :=
      [("User-Agent".toList, "hermione".toList),
        ("X-GitHub-Api-Version".toList, "2022-11-28".toList),
        ("Accept".toList, accept)]
    token
    body }

structure ContentEntry where
  kind : Str
  name : Str

structure FileContent where
  content : Str
  encoding : Str

structure TreeEntry where
  path : Str
  kind : Str

/-- The crates that read answers and name what went wrong. -/
structure Decoders where
  contents : List UInt8 → Option (List ContentEntry)
  fileContent : List UInt8 → Option FileContent
  tree : List UInt8 → Option (List TreeEntry)
  installation : List UInt8 → Option Int
  installationToken : List UInt8 → Option (Str × Option Str)
  value : List UInt8 → Option (Json Str)
  base64 : Str → Option (List UInt8)
  rfc3339 : Str → Option Int
  statusText : Nat → Str
  /-- How a request without an answer reads, and one with an answer that can't be read. -/
  unsentText : Str
  undecodedText : Str

/-- What the server asks on the way. -/
inductive Question where
  /-- A request to the API, which is not followed to another place. -/
  | send (request : Request)
  /-- The App's token for a repository, as far as one is remembered. -/
  | remembered (owner repo : Str)
  /-- A minted token is kept. -/
  | keep (owner repo : Str) (minted : Minted)
  | now
  /-- The exercises found are saved: slug, title and position of each. -/
  | upsert (items : List (Str × Str × Nat))

/-- `none` is a request that got no answer. -/
@[reducible]
def Question.Answer : Question → Type
  | .send _ => Option Response
  | .remembered _ _ => Option Str
  | .keep _ _ _ => Unit
  | .now => Int
  | .upsert _ => Bool

abbrev Reads (α : Type) :=
  Program Question Question.Answer α

def send (request : Request) : Reads (Option Response) :=
  Program.question (Question.send request)

section Reading

variable (urls : UrlCrate) (decoders : Decoders)

/-- A request to a URL given as text; one that doesn't parse is never sent. -/
def sendTo (method : Method) (url : Str) (token : Option Str) (body : Option (Json Str)) :
    Reads (Option Response) :=
  match urls.parse url with
  | some url => send (apiRequest method url token ACCEPT_JSON body)
  | none => pure none

/-! ### The credential -/

/-- The App the server acts as, and the JWT it signs as itself. -/
structure App where
  jwt : Except Str Str

def FALLBACK_LIFETIME : Int :=
  30 * 60 * 10 ^ 9

/-- The request for a token that reads one repository. -/
def mintBody (repo : Str) : Json Str :=
  .object
    [("repositories".toList, .array [.string repo]),
      ("permissions".toList, .object
        [("contents".toList, .string "read".toList),
          ("metadata".toList, .string "read".toList)])]

/-- The URL under which an installation mints its tokens. -/
def accessTokensUrl (installation : Int) : Str :=
  "https://api.github.com/app/installations/".toList ++ (toString installation).toList ++
    "/access_tokens".toList

/-- The URL of something in a repository, formatted as text. -/
def repoText (owner repo resource : Str) : Str :=
  "https://api.github.com/repos/".toList ++ owner ++ '/' :: repo ++ resource

def installationUrl (owner repo : Str) : Str :=
  repoText owner repo "/installation".toList

def mint (app : App) (owner repo : Str) : Reads (Except Str Minted) := do
  match app.jwt with
  | .error error => return .error error
  | .ok jwt =>
    -- Which installation covers this repo?
    match ← sendTo urls .get (installationUrl owner repo) (some jwt) none with
    | none => return .error decoders.unsentText
    | some response =>
      if !response.isSuccess then
        return .error ("the GitHub App is not installed on ".toList ++ owner ++ '/' :: repo)
      match response.bytes.bind decoders.installation with
      | none => return .error decoders.undecodedText
      | some id =>
        -- Scoped to just this repo: the token can read nothing else.
        match ← sendTo urls .post (accessTokensUrl id) (some jwt) (some (mintBody repo)) with
        | none => return .error decoders.unsentText
        | some response =>
          if !response.isSuccess then
            return .error "could not mint a GitHub App installation token".toList
          match response.bytes.bind decoders.installationToken with
          | none => return .error decoders.undecodedText
          | some (token, expiry) =>
            match expiry.bind decoders.rfc3339 with
            | some expiresAt => return .ok { token, expiresAt }
            | none =>
              let now ← Program.question Question.now
              return .ok { token, expiresAt := now + FALLBACK_LIFETIME }

/-- The cached token while it is good, otherwise a newly minted one. -/
def installationToken (app : App) (owner repo : Str) : Reads (Except Str Str) := do
  match ← Program.question (Question.remembered owner repo) with
  | some token => return .ok token
  | none =>
    match ← mint urls decoders app owner repo with
    | .error error => return .error error
    | .ok minted =>
      Program.question (Question.keep owner repo minted)
      return .ok minted.token

/-- What to send to GitHub when reading one repo. -/
structure Credential where
  token : Option Str
  /-- A personal token exists but this owner isn't allow-listed and no app token
  covered the repo. -/
  withheld : Bool

/-- The GitHub credentials the server was configured with. -/
structure Access where
  /-- Only ever sent to allow-listed owners. -/
  token : Option Str
  allowedOwners : List Str
  app : Option App

/-- Whether an owner's repos may be read with the server's GitHub token. -/
def ownerAllowed (owner : Str) (allowed : List Str) : Bool :=
  allowed.any fun entry => entry.trim.eqIgnoreAsciiCase owner.trim

def appToken (access : Access) (owner repo : Str) : Reads (Option Str) := do
  match access.app with
  | some app =>
    match ← installationToken urls decoders app owner repo with
    | .ok token => return some token
    | .error _ => return none
  | none => return none

def credentialFor (access : Access) (owner repo : Str) : Reads Credential := do
  let appToken ← appToken urls decoders access owner repo
  let allowed := ownerAllowed owner access.allowedOwners
  let shared := access.token.filter fun _ => allowed
  let withheld := appToken.isNone && access.token.isSome && !allowed
  return { token := appToken <|> shared, withheld }

/-! ### Exercises and the tree -/

/-- Why a linked repo could not be read. -/
inductive RepoError where
  | notFound
  | status (code : Nat)
  | transport

/-- What the teacher who linked the repo is told. -/
def RepoError.forTeacher (error : RepoError) (owner : Str) (credential : Credential) : Str :=
  let message :=
    match error with
    | .notFound =>
        "repository not found or not accessible (private repos need a token)".toList
    | .status code => "GitHub API returned ".toList ++ decoders.statusText code
    | .transport => "could not reach GitHub".toList
  match error, credential.withheld with
  | .transport, _ | _, false => message
  | _, true =>
      message ++ " — owner '".toList ++ owner ++
        ("' is not in HERMIONE_GITHUB_ALLOWED_OWNERS and no GitHub App is installed on " ++
          "the repo, so no token was used").toList

/-- A GitHub answer that is JSON on success and a status we can name otherwise. -/
def jsonOrRefusal {α : Type} (decode : List UInt8 → Option α) :
    Option Response → Except RepoError α
  | none => .error .transport
  | some response =>
      if response.isSuccess then
        match response.bytes.bind decode with
        | some value => .ok value
        | none => .error .transport
      else if response.status = 404 then .error .notFound
      else .error (.status response.status)

/-- Folders that are never exercises. -/
def isIgnoredDir (name : Str) : Bool :=
  Str.startsWithAny name ".".toList ||
    ["node_modules".toList, "target".toList, "dist".toList, "build".toList, "out".toList,
      "bin".toList, "obj".toList, "vendor".toList, "__pycache__".toList].contains name

def treeUrl (owner repo : Str) : Str :=
  repoText owner repo "/git/trees/HEAD?recursive=1".toList

/-- The directories of the linked repo, as repo-relative paths. -/
def fetchDirs (owner repo : Str) (token : Option Str) :
    Reads (Except RepoError (List Str)) := do
  let response ← sendTo urls .get (treeUrl owner repo) token none
  return (jsonOrRefusal decoders.tree response).map fun tree =>
    (((tree.filter fun entry => entry.kind = "tree".toList).filter fun entry =>
      !(Str.split '/' entry.path).any isIgnoredDir).map TreeEntry.path).mergeSort
        (fun path other => decide (path ≤ other))

def rootUrl (owner repo : Str) : Str :=
  repoText owner repo "/contents/".toList

def fetchRoot (owner repo : Str) (token : Option Str) :
    Reads (Except RepoError (List ContentEntry)) := do
  return jsonOrRefusal decoders.contents (← sendTo urls .get (rootUrl owner repo) token none)

def hermioneJsonUrl (owner repo : Str) : Str :=
  repoText owner repo "/contents/.hermione.json".toList

/-- The course file in an answer. -/
def hermioneJson (response : Response) : Option (Json Str) := do
  if !response.isSuccess then none
  let file ← response.bytes.bind decoders.fileContent
  if file.encoding ≠ "base64".toList then none
  -- GitHub wraps base64 content at 60 columns.
  let bytes ← decoders.base64 (file.content.filter fun char => !Str.isWhitespace char)
  decoders.value bytes

def fetchHermioneJson (owner repo : Str) (token : Option Str) : Reads (Option (Json Str)) := do
  return (← sendTo urls .get (hermioneJsonUrl owner repo) token none).bind
    (hermioneJson decoders)

/-- The exercises that top-level folders stand for. -/
def exercisesOfFolders (entries : List ContentEntry) : List DiscoveredExercise :=
  let found := (entries.filter fun entry =>
      entry.kind = "dir".toList && !isIgnoredDir entry.name).filterMap fun entry =>
    (normalizeSlug entry.name).map fun slug => { slug, title := titleFromSlug slug }
  let sorted := found.mergeSort fun exercise other => decide (exercise.slug ≤ other.slug)
  sorted.destutter fun exercise other => exercise.slug ≠ other.slug

/-- Discovers a GitHub repo's exercises. -/
def discoverExercises (owner repo : Str) (token : Option Str) :
    Reads (Except RepoError (List DiscoveredExercise)) := do
  -- Prefer .hermione.json, the same file the extension resolves against.
  let config ← fetchHermioneJson urls decoders owner repo token
  let fromConfig := (config.map exercisesFromConfig).getD []
  if !fromConfig.isEmpty then return .ok fromConfig
  return (← fetchRoot urls decoders owner repo token).map exercisesOfFolders

variable (access : Access)

/-- Seeds a new course's exercises from its linked repo: how many were saved and,
when something stopped it, a note saying why. -/
def seedExercises (repoUrl : Option Str) : Reads (Nat × Option Str) := do
  match repoUrl with
  | none => return (0, none)
  | some repoUrl =>
    match parseGithub repoUrl with
    | none => return (0, some "exercise seeding supports GitHub repos only".toList)
    | some (owner, name) =>
      let credential ← credentialFor urls decoders access owner name
      match ← discoverExercises urls decoders owner name credential.token with
      | .error error => return (0, some (error.forTeacher decoders owner credential))
      | .ok found =>
        if found.isEmpty then return (0, none)
        let items := found.zipIdx.map fun (exercise, index) =>
          (exercise.slug, exercise.title, index)
        if ← Program.question (Question.upsert items) then return (items.length, none)
        else return (0, some "could not save the exercises found in the repo".toList)

/-- The linked repo's directories, with a note where there are none to show. -/
def courseTree (repoUrl : Option Str) : Reads (List Str × Option Str) := do
  match repoUrl with
  | none => return ([], some "no repository linked to this course".toList)
  | some repoUrl =>
    match parseGithub repoUrl with
    | none => return ([], some "the linked repository is not on GitHub".toList)
    | some (owner, name) =>
      let credential ← credentialFor urls decoders access owner name
      match ← fetchDirs urls decoders owner name credential.token with
      | .ok dirs => return (dirs, none)
      | .error error => return ([], some (error.forTeacher decoders owner credential))

/-! ### One file -/

def MAX_BYTES : Nat :=
  256 * 1024

/-- How a non-success status reads to the teacher. -/
def refusal (response : Response) : FetchError :=
  let outOfRequests :=
    (response.headers "x-ratelimit-remaining".toList).any (· = "0".toUTF8.toList)
  if response.status = 429 then .rateLimited
  else if response.status = 403 && outOfRequests then .rateLimited
  else if response.status = 401 || response.status = 403 then .denied
  else if response.status = 404 || response.status = 422 then .repoOrRefNotFound
  else .unavailable

/-- At most the cap, so that a file that doesn't announce its size can't fill
memory. -/
def readBody : List UInt8 → List (Option (List UInt8)) → Except FetchError (List UInt8)
  | body, [] => .ok body
  | _, none :: _ => .error .unavailable
  | body, some chunk :: chunks =>
      if MAX_BYTES < body.length + chunk.length then .error .tooLarge
      else readBody (body ++ chunk) chunks

/-- The text of a file in a successful answer. -/
def fileText (response : Response) : Except FetchError (Option Str) := do
  -- A folder comes back as a JSON listing, not a file.
  let isListing := ((response.headers "content-type".toList).bind headerText).any
    "application/json".toList.isPrefixOf
  if isListing then return none
  if response.contentLength.any (MAX_BYTES < ·) then throw .tooLarge
  let body ← readBody [] response.chunks
  match Str.fromUtf8 body with
  | some text => return some text
  | none => throw .notText

/-- `https://api.github.com` -/
def API : Str :=
  "https://api.github.com".toList

/-- Reads one file of a repository; `none` if it isn't there. -/
def fetch (repo : GitHubRepo) (gitRef : Option GitRef) (path : RepoPath) :
    Reads (Except FetchError (Option Str)) := do
  let credential ← credentialFor urls decoders access repo.owner repo.name
  match ← send (apiRequest .get (contentsUrl urls API repo gitRef path) credential.token
      "application/vnd.github.raw+json".toList none) with
  | none => return .error .unavailable
  | some response =>
    if response.status = 404 then
      -- Missing file, missing ref and hidden repo are told apart by one more request.
      match ← send (apiRequest .get (commitUrl urls API repo gitRef) credential.token
          "application/vnd.github.sha".toList none) with
      | none => return .error .unavailable
      | some probe => return if probe.isSuccess then .ok none else .error (refusal probe)
    if !response.isSuccess then return .error (refusal response)
    return fileText response

/-- Where a student's file has its reference, or why it has none. -/
inductive Reference where
  | noRepository
  | notGitHub
  /-- The path isn't one inside a repository. -/
  | noReference
  | read (outcome : Except FetchError (Option Str))

/-- The reference of a student's file, when it isn't remembered. -/
def solutionFor (repoUrl : Option Str) (source : SolutionsSource) (relativePath : Str) :
    Reads Reference := do
  match repoUrl with
  | none => return .noRepository
  | some repoUrl =>
    match GitHubRepo.parse repoUrl with
    | none => return .notGitHub
    | some repo =>
      match RepoPath.parse relativePath with
      | .error _ => return .noReference
      | .ok path =>
        return .read (← fetch urls decoders access repo source.gitRef (source.locate path))

end Reading

end GitHub

end Hermione
