import Hermione.GitHubReads
import Hermione.PercentEncoding
import Hermione.TokenMinting

/-!
# Credentials stay with their repository

Whatever URL a teacher links and whatever GitHub answers, a request that reads the
repository is for a path under it, and carries the shared token only for an owner
on the list, or a token of the App that was minted for this repository.  The App's
own requests for such a token carry its JWT.

Any number of readings run side by side.  They share the App's tokens: what one has
minted is remembered for another.
-/

namespace Hermione

open Program

namespace GitHub

/-! ### The URLs that are put together as text -/

theorem isSafeSegment_of_forall {segment : Str} (nonempty : segment ≠ [])
    (safe : ∀ char ∈ segment, char.isAlphanum = true ∨ char = '-') :
    isSafeSegment segment = true := by
  have undotted : '.' ∉ segment := by
    intro member
    have bad := safe '.' member
    revert bad
    decide
  simp only [isSafeSegment, Bool.and_eq_true, Bool.not_eq_true', decide_eq_true_eq,
    List.all_eq_true, Bool.or_eq_true]
  refine ⟨⟨⟨by simpa using nonempty, ?_⟩, ?_⟩, ?_⟩
  · rintro rfl
    exact undotted (by decide)
  · rintro rfl
    exact undotted (by decide)
  · intro char member
    rcases safe char member with letter | rfl
    · exact .inl letter
    · exact .inr (by decide)

theorem isSafeSegment_toString (number : Int) :
    isSafeSegment (toString number).toList = true := by
  have digits : ∀ number : Nat, ∀ char ∈ number.repr.toList, char.isAlphanum = true := by
    intro number char member
    rw [Nat.toList_repr] at member
    have digit := Nat.isDigit_of_mem_toDigits (by decide) (by decide) member
    rw [Char.isAlphanum, digit, Bool.or_true]
  have some_digit : ∀ number : Nat, number.repr.toList ≠ [] := by
    intro number
    rw [Nat.toList_repr]
    exact Nat.toDigits_ne_nil
  rw [Int.toString_eq_repr, Int.repr_eq_if]
  split
  · exact isSafeSegment_of_forall (some_digit _) fun char member => .inl (digits _ char member)
  · apply isSafeSegment_of_forall
    · rw [String.toList_append]
      exact List.append_ne_nil_of_right_ne_nil _ (some_digit _)
    · intro char member
      rw [String.toList_append, List.mem_append] at member
      rcases member with sign | digit
      · right
        simpa using sign
      · exact .inl (digits _ char digit)

/-- A URL of the API. -/
def apiUrl (path : List Str) (query : List (Str × Str)) : Url :=
  { origin := API, path, query }

theorem tidy_apiUrl {path : List Str} {query : List (Str × Str)} (nonempty : path ≠ [])
    (segment : ∀ segment ∈ path, segment = [] ∨ isSafeSegment segment = true)
    (pairs : ∀ pair ∈ query, isSafeSegment pair.1 = true ∧ isSafeSegment pair.2 = true) :
    (apiUrl path query).Tidy where
  origin := ⟨"api.github.com".toList, by decide, rfl⟩
  path := nonempty
  segment := segment
  query := pairs

section Requests

variable {urls : UrlCrate} (builds : urls.Builds) (reads : urls.Reads)

include reads in
/-- A request to a tidy URL is sent to that URL. -/
theorem sendTo_asStr {url : Url} (tidy : url.Tidy) (method : Method) (token : Option Str)
    (body : Option (Json Str)) :
    sendTo urls method (urls.asStr url) token body =
      send (apiRequest method url token ACCEPT_JSON body) := by
  rw [sendTo, reads url tidy]

include reads in
theorem sendTo_access_tokens (id : Int) (token : Option Str) (body : Option (Json Str)) :
    sendTo urls .post (accessTokensUrl id) token body =
      send (apiRequest .post (apiUrl ["app".toList, "installations".toList,
        (toString id).toList, "access_tokens".toList] []) token ACCEPT_JSON body) := by
  have tidy : (apiUrl ["app".toList, "installations".toList, (toString id).toList,
      "access_tokens".toList] []).Tidy := by
    apply tidy_apiUrl (List.cons_ne_nil _ _) _ (List.forall_mem_nil _)
    intro segment member
    simp only [List.mem_cons, List.not_mem_nil, or_false] at member
    right
    rcases member with rfl | rfl | rfl | rfl
    · decide
    · decide
    · exact isSafeSegment_toString id
    · decide
  have root : "https://api.github.com/app/installations/".toList =
      API ++ '/' :: "app".toList ++ '/' :: "installations".toList ++ ['/'] := by
    decide +kernel
  have last : "/access_tokens".toList = '/' :: "access_tokens".toList := by decide +kernel
  rw [← sendTo_asStr reads tidy]
  unfold accessTokensUrl
  rw [root, last]
  simp only [UrlCrate.asStr, apiUrl, List.intercalate_cons_cons, List.intercalate_singleton,
    List.append_assoc, List.cons_append, List.nil_append]

/-- The path of something in a repository. -/
def repoPath (owner name : Str) (rest : List Str) : List Str :=
  "repos".toList :: owner :: name :: rest

variable {owner name : Str} (ownerSafe : isSafeSegment owner = true)
  (nameSafe : isSafeSegment name = true)

include ownerSafe nameSafe in
theorem tidy_repoPath {rest : List Str} {query : List (Str × Str)}
    (segment : ∀ segment ∈ rest, segment = [] ∨ isSafeSegment segment = true)
    (pairs : ∀ pair ∈ query, isSafeSegment pair.1 = true ∧ isSafeSegment pair.2 = true) :
    (apiUrl (repoPath owner name rest) query).Tidy := by
  apply tidy_apiUrl (List.cons_ne_nil _ _) _ pairs
  intro part member
  simp only [List.mem_cons] at member
  rcases member with rfl | rfl | rfl | member
  · exact .inr (by decide)
  · exact .inr ownerSafe
  · exact .inr nameSafe
  · exact segment part member

/-- Text and pieces of a repository's URL agree. -/
theorem asStr_repoPath (urls : UrlCrate) (owner name : Str) {rest : List Str}
    (nonempty : rest ≠ []) :
    urls.asStr (apiUrl (repoPath owner name rest) []) =
      repoText owner name ('/' :: ['/'].intercalate rest) := by
  have root : "https://api.github.com/repos/".toList = API ++ '/' :: "repos".toList ++ ['/'] := by
    decide +kernel
  obtain ⟨first, others, rfl⟩ := List.exists_cons_of_ne_nil nonempty
  unfold repoText
  rw [root]
  simp only [UrlCrate.asStr, apiUrl, repoPath, List.intercalate_cons_cons, List.append_assoc,
    List.cons_append, List.nil_append]

include reads ownerSafe nameSafe in
/-- A request whose URL is formatted as text is for what the text says. -/
theorem sendTo_repoText {rest : List Str} (nonempty : rest ≠ [])
    (segment : ∀ segment ∈ rest, segment = [] ∨ isSafeSegment segment = true)
    (method : Method) (token : Option Str) (body : Option (Json Str)) :
    sendTo urls method (repoText owner name ('/' :: ['/'].intercalate rest)) token body =
      send (apiRequest method (apiUrl (repoPath owner name rest) []) token ACCEPT_JSON body) := by
  rw [← asStr_repoPath urls owner name nonempty]
  exact sendTo_asStr reads
    (tidy_repoPath ownerSafe nameSafe segment (List.forall_mem_nil _)) method token body

include reads ownerSafe nameSafe in
theorem sendTo_installation (token : Option Str) (body : Option (Json Str)) :
    sendTo urls .get (installationUrl owner name) token body =
      send (apiRequest .get (apiUrl (repoPath owner name ["installation".toList]) [])
        token ACCEPT_JSON body) := by
  have resource : "/installation".toList = '/' :: ['/'].intercalate ["installation".toList] := by
    decide +kernel
  unfold installationUrl
  rw [resource]
  exact sendTo_repoText reads ownerSafe nameSafe (List.cons_ne_nil _ _) (by decide) .get token body

include reads ownerSafe nameSafe in
theorem sendTo_root (token : Option Str) (body : Option (Json Str)) :
    sendTo urls .get (rootUrl owner name) token body =
      send (apiRequest .get (apiUrl (repoPath owner name ["contents".toList, []]) [])
        token ACCEPT_JSON body) := by
  have resource : "/contents/".toList = '/' :: ['/'].intercalate ["contents".toList, []] := by
    decide +kernel
  unfold rootUrl
  rw [resource]
  exact sendTo_repoText reads ownerSafe nameSafe (List.cons_ne_nil _ _) (by decide) .get token body

include reads ownerSafe nameSafe in
theorem sendTo_hermioneJson (token : Option Str) (body : Option (Json Str)) :
    sendTo urls .get (hermioneJsonUrl owner name) token body =
      send (apiRequest .get
        (apiUrl (repoPath owner name ["contents".toList, ".hermione.json".toList]) [])
        token ACCEPT_JSON body) := by
  have resource : "/contents/.hermione.json".toList =
      '/' :: ['/'].intercalate ["contents".toList, ".hermione.json".toList] := by
    decide +kernel
  unfold hermioneJsonUrl
  rw [resource]
  exact sendTo_repoText reads ownerSafe nameSafe (List.cons_ne_nil _ _) (by decide) .get token body

include builds reads ownerSafe nameSafe in
theorem sendTo_tree (token : Option Str) (body : Option (Json Str)) :
    sendTo urls .get (treeUrl owner name) token body =
      send (apiRequest .get (apiUrl (repoPath owner name
        ["git".toList, "trees".toList, "HEAD".toList]) [("recursive".toList, "1".toList)])
          token ACCEPT_JSON body) := by
  have tidy : (apiUrl (repoPath owner name ["git".toList, "trees".toList, "HEAD".toList])
      [("recursive".toList, "1".toList)]).Tidy :=
    tidy_repoPath ownerSafe nameSafe (by decide) (by decide)
  have path := asStr_repoPath urls owner name
    (List.cons_ne_nil "git".toList ["trees".toList, "HEAD".toList])
  have written : urls.asStr (apiUrl (repoPath owner name
      ["git".toList, "trees".toList, "HEAD".toList]) [("recursive".toList, "1".toList)]) =
      treeUrl owner name := by
    have recursive : urls.encodeQuery "recursive".toList = "recursive".toList :=
      builds.keepsQuery _ (by decide)
    have one : urls.encodeQuery "1".toList = "1".toList := builds.keepsQuery _ (by decide)
    simp only [UrlCrate.asStr, apiUrl, List.map_cons, List.map_nil, List.intercalate_singleton,
      recursive, one] at path ⊢
    unfold treeUrl
    unfold repoText at path ⊢
    rw [path, List.append_assoc]
    congr 1
  rw [← written, sendTo_asStr reads tidy]

end Requests

/-! ### What may be asked -/

abbrev Past :=
  History Question Question.Answer

/-- A token that is remembered for a repository was kept for it before, however the
repository's name was spelled. -/
def Allowed (past : Past) : (question : Question) → question.Answer → Prop
  | .remembered owner repo, some token =>
      ∃ (kept : Str × Str) (minted : Minted), ⟨.keep kept.1 kept.2 minted, ()⟩ ∈ past ∧
        repoKey kept.1 kept.2 = repoKey owner repo ∧ minted.token = token
  | _, _ => True

section Asking

variable (decoders : Decoders) (access : Access) (owner name : Str)

/-- A request for something in the repository. -/
def ReadsRepo (request : Request) : Prop :=
  request.url.origin = API ∧ ∃ first rest, request.url.path = repoPath owner name (first :: rest)

/-- The App asks, as itself, for a token that reads the repository. -/
def MintsToken (request : Request) : Prop :=
  ∃ app jwt, access.app = some app ∧ app.jwt = .ok jwt ∧ request.token = some jwt ∧
    (request.url = apiUrl (repoPath owner name ["installation".toList]) [] ∨
      request.method = .post ∧ request.body = some (mintBody name) ∧
        ∃ id : Int, request.url = apiUrl ["app".toList, "installations".toList,
          (toString id).toList, "access_tokens".toList] [])

/-- GitHub answered the App with the token: asked, for the installation that covers the
repository, for one that reads this repository. -/
def MintedHere (past : Past) (token : Str) : Prop :=
  ∃ app jwt id found answer expiry, access.app = some app ∧ app.jwt = .ok jwt ∧
    ⟨.send (apiRequest .get (apiUrl (repoPath owner name ["installation".toList]) []) (some jwt)
      ACCEPT_JSON none), some found⟩ ∈ past ∧
    found.bytes.bind decoders.installation = some id ∧
    ⟨.send (apiRequest .post (apiUrl ["app".toList, "installations".toList,
      (toString id).toList, "access_tokens".toList] []) (some jwt) ACCEPT_JSON
        (some (mintBody name))), some answer⟩ ∈ past ∧
    answer.bytes.bind decoders.installationToken = some (token, expiry)

/-- The token was minted for the repository, under some spelling of its name. -/
def MintedFor (past : Past) (token : Str) : Prop :=
  ∃ spelled : Str × Str, repoKey spelled.1 spelled.2 = repoKey owner name ∧
    MintedHere decoders access spelled.1 spelled.2 past token

/-- The shared token for an owner on the list, or the App's for this repository. -/
def MayCarry (past : Past) (token : Str) : Prop :=
  access.token = some token ∧ ownerAllowed owner access.allowedOwners = true ∨
    MintedFor decoders access owner name past token

/-- What may be asked on behalf of a repository.  Nothing is kept for it but what was
minted for it. -/
def MayAsk (past : Past) : Question → Prop
  | .send request =>
      MintsToken access owner name request ∨
        ReadsRepo owner name request ∧
          ∀ token, request.token = some token → MayCarry decoders access owner name past token
  | .remembered asked repo => asked = owner ∧ repo = name
  | .keep asked repo minted =>
      asked = owner ∧ repo = name ∧ MintedHere decoders access owner name past minted.token
  | .now | .upsert _ => True

/-- What may be asked for a linked URL: nothing of GitHub, where it names no
repository. -/
def MayAskFor (repoUrl : Str) (past : Past) (question : Question) : Prop :=
  ∃ owner name, parseGithub repoUrl = some (owner, name) ∧
    MayAsk decoders access owner name past question

end Asking

/-- What reads a linked repository. -/
inductive Reading where
  | seed (repoUrl : Str)
  | tree (repoUrl : Str)
  | solution (repoUrl : Str) (source : SolutionsSource) (relativePath : Str)

def Reading.repoUrl : Reading → Str
  | .seed repoUrl | .tree repoUrl | .solution repoUrl _ _ => repoUrl

/-- What is asked for a reading; its result is the caller's. -/
def Reading.program (urls : UrlCrate) (decoders : Decoders) (access : Access) :
    Reading → Reads Unit
  | .seed repoUrl => do
      let _ ← seedExercises urls decoders access (some repoUrl)
  | .tree repoUrl => do
      let _ ← courseTree urls decoders access (some repoUrl)
  | .solution repoUrl source relativePath => do
      let _ ← solutionFor urls decoders access (some repoUrl) source relativePath

/-- The readings side by side, at any time. -/
def Reached (urls : UrlCrate) (decoders : Decoders) (access : Access) :
    Pool Reading Question Question.Answer → Prop :=
  Pool.Reached Allowed (Reading.program urls decoders access)

section Programs

variable {urls : UrlCrate} {decoders : Decoders} {access : Access} {owner name : Str}
variable {past later : Past} {token : Str}

theorem MintedHere.mono (minted : MintedHere decoders access owner name past token)
    (onward : past <+: later) : MintedHere decoders access owner name later token := by
  obtain ⟨app, jwt, id, found, answer, expiry, configured, signed, asked, decoded, posted, told⟩ :=
    minted
  exact ⟨app, jwt, id, found, answer, expiry, configured, signed, onward.subset asked, decoded,
    onward.subset posted, told⟩

theorem MayCarry.mono (carry : MayCarry decoders access owner name past token)
    (onward : past <+: later) : MayCarry decoders access owner name later token := by
  rcases carry with shared | ⟨spelled, same, minted⟩
  · exact .inl shared
  · exact .inr ⟨spelled, same, minted.mono onward⟩

/-- The terms on which a repository is read: everybody else keeps to theirs. -/
def terms (decoders : Decoders) (access : Access) (owner name : Str) :
    Terms Question Question.Answer :=
  { rely := Pool.Sound Allowed fun reading : Reading => MayAskFor decoders access reading.repoUrl
    allowed := Allowed
    asks := MayAsk decoders access owner name }

/-- A token that was kept was minted. -/
theorem minted_of_kept {kept : Str × Str} {minted : Minted}
    (sound : (terms decoders access owner name).rely past)
    (member : ⟨.keep kept.1 kept.2 minted, ()⟩ ∈ past) :
    MintedHere decoders access kept.1 kept.2 past minted.token := by
  obtain ⟨before, after, split⟩ := List.append_of_mem member
  obtain ⟨⟨reading, owner, name, -, rfl, rfl, minted⟩, -⟩ := sound before _ after split
  exact minted.mono ⟨_, split.symm⟩

/-- What a call of the App's cache is answered at once was kept for the repository, where
every token that was minted is kept. -/
theorem allowed_of_taken {now : Int} {events : List TokenCache.Event} {cache next : TokenCache}
    {caller : Nat} {token : Str}
    (ran : EventRuns.run TokenCache.step (TokenCache.start now) events = some cache)
    (kept : ∀ before caller minted after cache owner repo found,
      events = before ++ .minted caller (.ok minted) :: after →
      EventRuns.run TokenCache.step (TokenCache.start now) before = some cache →
      cache.callers caller = .minting owner repo found → ⟨.keep owner repo minted, ()⟩ ∈ past)
    (stepped : TokenCache.step cache (.look caller) = some next)
    (answered : next.callers caller = .returned owner name (.ok token)) :
    Allowed past (.remembered owner name) (some token) := by
  obtain ⟨minted, rfl, source, -⟩ := TokenCache.taken_spec ran stepped answered
  obtain ⟨before, after, middle, asker, split, reached, flying⟩ := source
  obtain ⟨spelledOwner, spelledName, found, minting, same⟩ := flying
  refine ⟨(spelledOwner, spelledName), minted, ?_, same, rfl⟩
  exact kept before asker minted after middle spelledOwner spelledName found split reached minting

variable (builds : urls.Builds) (reads : urls.Reads) (ownerSafe : isSafeSegment owner = true)
  (nameSafe : isSafeSegment name = true)

/-- What a request leaves behind. -/
theorem ensures_send {request : Request}
    (may : ∀ now, past <+: now → MayAsk decoders access owner name now (.send request)) :
    Ensures (terms decoders access owner name)
      (fun later response => ⟨.send request, response⟩ ∈ later) past (send request) :=
  ensures_question fun now before _ => may now before

include reads ownerSafe nameSafe in
/-- The App mints a token for the repository, or fails. -/
theorem ensures_mint {app : App} (configured : access.app = some app) (past : Past) :
    Ensures (terms decoders access owner name)
      (fun later result => ∀ minted, result = .ok minted →
        MintedHere decoders access owner name later minted.token)
      past (mint urls decoders app owner name) := by
  unfold mint
  cases signed : app.jwt with
  | error error => exact ensures_pure fun _ _ _ => nofun
  | ok jwt =>
      have may (request : Request) (bearer : request.token = some jwt)
          (asked : request.url = apiUrl (repoPath owner name ["installation".toList]) [] ∨
            request.method = .post ∧ request.body = some (mintBody name) ∧
              ∃ id : Int, request.url = apiUrl ["app".toList, "installations".toList,
                (toString id).toList, "access_tokens".toList] []) (now : Past) :
          MayAsk decoders access owner name now (.send request) :=
        .inl ⟨app, jwt, configured, signed, bearer, asked⟩
      simp only [sendTo_installation reads ownerSafe nameSafe]
      apply ensures_bind (ensures_send fun now _ => may _ rfl (.inl rfl) now)
      rintro later response - - asked
      cases response with
      | none => exact ensures_pure fun _ _ _ => nofun
      | some found =>
          dsimp only
          split
          · exact ensures_pure fun _ _ _ => nofun
          · cases decoded : found.bytes.bind decoders.installation with
            | none => exact ensures_pure fun _ _ _ => nofun
            | some id =>
                simp only [sendTo_access_tokens reads]
                apply ensures_bind
                  (ensures_send fun now _ => may _ rfl (.inr ⟨rfl, rfl, id, rfl⟩) now)
                rintro later response onward - posted
                cases response with
                | none => exact ensures_pure fun _ _ _ => nofun
                | some answer =>
                    dsimp only
                    split
                    · exact ensures_pure fun _ _ _ => nofun
                    · cases told : answer.bytes.bind decoders.installationToken with
                      | none => exact ensures_pure fun _ _ _ => nofun
                      | some pair =>
                          obtain ⟨token, expiry⟩ := pair
                          have here : MintedHere decoders access owner name later token :=
                            ⟨app, jwt, id, found, answer, expiry, configured, signed,
                              onward.subset asked, decoded, posted, told⟩
                          dsimp only
                          cases expiry.bind decoders.rfc3339 with
                          | some expiresAt =>
                              apply ensures_pure
                              rintro now after - minted ⟨⟩
                              exact here.mono after
                          | none =>
                              apply ensures_bind (ensures_question fun _ _ _ => trivial)
                              rintro later now after - -
                              apply ensures_pure
                              rintro now again - minted ⟨⟩
                              exact here.mono (after.trans again)

include reads ownerSafe nameSafe in
/-- The App answers with a token for the repository: one that is remembered, or a new
one. -/
theorem ensures_installationToken {app : App} (configured : access.app = some app) (past : Past) :
    Ensures (terms decoders access owner name)
      (fun later result => ∀ token, result = .ok token →
        MintedFor decoders access owner name later token)
      past (installationToken urls decoders app owner name) := by
  intro now before relied
  refine ⟨⟨rfl, rfl⟩, ?_⟩
  intro answer fine
  cases answer with
  | some remembered =>
      obtain ⟨kept, minted, member, same, rfl⟩ := fine
      have here := minted_of_kept relied member
      apply ensures_pure
      rintro later after - token ⟨⟩
      exact ⟨kept, same, here.mono ((List.prefix_append _ _).trans after)⟩
  | none =>
      apply ensures_bind (ensures_mint reads ownerSafe nameSafe configured _)
      intro later result _ _ minted
      cases result with
      | error error => exact ensures_pure fun _ _ _ => nofun
      | ok fresh =>
          have here := minted fresh rfl
          have may (now : Past) (after : later <+: now) :
              MayAsk decoders access owner name now (.keep owner name fresh) :=
            ⟨rfl, rfl, here.mono after⟩
          apply ensures_bind (ensures_question fun now after _ => may now after)
          rintro later - after - -
          apply ensures_pure
          rintro now again - token ⟨⟩
          exact ⟨(owner, name), rfl, here.mono (after.trans again)⟩

include reads ownerSafe nameSafe in
/-- The credential that is used may be used. -/
theorem ensures_credentialFor (past : Past) :
    Ensures (terms decoders access owner name)
      (fun later credential => ∀ token, credential.token = some token →
        MayCarry decoders access owner name later token)
      past (credentialFor urls decoders access owner name) := by
  have app : Ensures (terms decoders access owner name)
      (fun later answer => ∀ token, answer = some token →
        MintedFor decoders access owner name later token)
      past (appToken urls decoders access owner name) := by
    unfold appToken
    cases configured : access.app with
    | none => exact ensures_pure fun _ _ _ => nofun
    | some app =>
        apply ensures_bind (ensures_installationToken reads ownerSafe nameSafe configured past)
        intro later result _ _ minted
        cases result with
        | error error => exact ensures_pure fun _ _ _ => nofun
        | ok fresh =>
            obtain ⟨spelled, same, here⟩ := minted fresh rfl
            apply ensures_pure
            rintro now after - token ⟨⟩
            exact ⟨spelled, same, here.mono after⟩
  apply ensures_bind app
  intro later answer _ _ minted
  apply ensures_pure
  intro now after _ token carried
  cases answer with
  | some fresh =>
      cases carried
      obtain ⟨spelled, same, here⟩ := minted _ rfl
      exact .inr ⟨spelled, same, here.mono after⟩
  | none =>
      obtain ⟨shared, allowed⟩ := Option.filter_eq_some_iff.mp carried
      exact .inl ⟨shared, allowed⟩

section Carrying

variable {token : Option Str}

/-- A request for something in the repository, with a credential that may be used. -/
theorem mayAsk_read {request : Request} (under : ReadsRepo owner name request)
    (carries : request.token = token)
    (may : ∀ text, token = some text → MayCarry decoders access owner name past text)
    (now : Past) (before : past <+: now) :
    MayAsk decoders access owner name now (.send request) := by
  refine .inr ⟨under, ?_⟩
  intro text bearer
  exact (may text (carries ▸ bearer)).mono before

include builds reads ownerSafe nameSafe in
theorem ensures_fetchDirs
    (may : ∀ text, token = some text → MayCarry decoders access owner name past text) :
    Ensures (terms decoders access owner name) (fun _ _ => True) past
      (fetchDirs urls decoders owner name token) := by
  unfold fetchDirs
  rw [sendTo_tree builds reads ownerSafe nameSafe]
  apply ensures_bind (ensures_send (mayAsk_read ⟨rfl, _, _, rfl⟩ rfl may))
  intro later response _ _ _
  exact ensures_pure fun _ _ _ => trivial

include reads ownerSafe nameSafe in
theorem ensures_fetchHermioneJson
    (may : ∀ text, token = some text → MayCarry decoders access owner name past text) :
    Ensures (terms decoders access owner name) (fun _ _ => True) past
      (fetchHermioneJson urls decoders owner name token) := by
  unfold fetchHermioneJson
  rw [sendTo_hermioneJson reads ownerSafe nameSafe]
  apply ensures_bind (ensures_send (mayAsk_read ⟨rfl, _, _, rfl⟩ rfl may))
  intro later response _ _ _
  exact ensures_pure fun _ _ _ => trivial

include reads ownerSafe nameSafe in
theorem ensures_fetchRoot
    (may : ∀ text, token = some text → MayCarry decoders access owner name past text) :
    Ensures (terms decoders access owner name) (fun _ _ => True) past
      (fetchRoot urls decoders owner name token) := by
  unfold fetchRoot
  rw [sendTo_root reads ownerSafe nameSafe]
  apply ensures_bind (ensures_send (mayAsk_read ⟨rfl, _, _, rfl⟩ rfl may))
  intro later response _ _ _
  exact ensures_pure fun _ _ _ => trivial

include reads ownerSafe nameSafe in
theorem ensures_discoverExercises
    (may : ∀ text, token = some text → MayCarry decoders access owner name past text) :
    Ensures (terms decoders access owner name) (fun _ _ => True) past
      (discoverExercises urls decoders owner name token) := by
  apply ensures_bind (ensures_fetchHermioneJson reads ownerSafe nameSafe may)
  intro later config onward _ _
  dsimp only
  split
  · exact ensures_pure fun _ _ _ => trivial
  · have still (text : Str) (carried : token = some text) :
        MayCarry decoders access owner name later text :=
      (may text carried).mono onward
    apply ensures_bind (ensures_fetchRoot reads ownerSafe nameSafe still)
    intro later entries _ _ _
    exact ensures_pure fun _ _ _ => trivial

end Carrying

/-! ### Whole readings -/

include builds reads in
theorem ensures_fetch {repo : GitHubRepo} (gitRef : Option GitRef) (path : RepoPath)
    (past : Past) :
    Ensures (terms decoders access repo.owner repo.name) (fun _ _ => True) past
      (fetch urls decoders access repo gitRef path) := by
  apply ensures_bind (ensures_credentialFor reads repo.ownerSafe repo.nameSafe past)
  intro later credential _ _ may
  have contents : ReadsRepo repo.owner repo.name
      (apiRequest .get (contentsUrl urls API repo gitRef path) credential.token
        "application/vnd.github.raw+json".toList none) := by
    rw [contentsUrl_eq builds]
    exact ⟨rfl, _, _, rfl⟩
  have commit : ReadsRepo repo.owner repo.name
      (apiRequest .get (commitUrl urls API repo gitRef) credential.token
        "application/vnd.github.sha".toList none) := by
    rw [commitUrl_eq builds]
    exact ⟨rfl, _, _, rfl⟩
  apply ensures_bind (ensures_send (mayAsk_read contents rfl may))
  intro after response onward _ _
  cases response with
  | none => exact ensures_pure fun _ _ _ => trivial
  | some response =>
      dsimp only
      split
      · have probing (now : Past) (before : after <+: now) :=
          mayAsk_read commit rfl may now (onward.trans before)
        apply ensures_bind (ensures_send probing)
        intro last probe _ _ _
        cases probe with
        | none => exact ensures_pure fun _ _ _ => trivial
        | some probe => exact ensures_pure fun _ _ _ => trivial
      · split
        · exact ensures_pure fun _ _ _ => trivial
        · exact ensures_pure fun _ _ _ => trivial

/-- What a linked URL's reading asks is asked for the repository it names. -/
theorem ensures_for {α : Type} (reading : Reading) {program : Reads α}
    (parsed : parseGithub reading.repoUrl = some (owner, name))
    (ensures : Ensures (terms decoders access owner name) (fun _ _ => True) past program) :
    Ensures (Pool.terms Allowed (fun reading : Reading =>
      MayAskFor decoders access reading.repoUrl) reading) (fun _ _ => True) past program :=
  ensures.permit fun _ _ may => ⟨owner, name, parsed, may⟩

include builds reads in
theorem ensures_courseTree (repoUrl : Str) :
    Ensures (Pool.terms Allowed (fun reading : Reading =>
        MayAskFor decoders access reading.repoUrl) (.tree repoUrl)) (fun _ _ => True) []
      (courseTree urls decoders access (some repoUrl)) := by
  cases parsed : parseGithub repoUrl with
  | none =>
      simp only [courseTree, parsed]
      exact ensures_pure fun _ _ _ => trivial
  | some repo =>
      obtain ⟨owner, name⟩ := repo
      obtain ⟨ownerSafe, nameSafe⟩ := safe_of_parseGithub parsed
      simp only [courseTree, parsed]
      apply ensures_for (.tree repoUrl) parsed
      apply ensures_bind (ensures_credentialFor reads ownerSafe nameSafe [])
      intro later credential _ _ may
      apply ensures_bind (ensures_fetchDirs builds reads ownerSafe nameSafe may)
      intro later answer _ _ _
      cases answer with
      | ok dirs => exact ensures_pure fun _ _ _ => trivial
      | error error => exact ensures_pure fun _ _ _ => trivial

include reads in
theorem ensures_seedExercises (repoUrl : Str) :
    Ensures (Pool.terms Allowed (fun reading : Reading =>
        MayAskFor decoders access reading.repoUrl) (.seed repoUrl)) (fun _ _ => True) []
      (seedExercises urls decoders access (some repoUrl)) := by
  cases parsed : parseGithub repoUrl with
  | none =>
      simp only [seedExercises, parsed]
      exact ensures_pure fun _ _ _ => trivial
  | some repo =>
      obtain ⟨owner, name⟩ := repo
      obtain ⟨ownerSafe, nameSafe⟩ := safe_of_parseGithub parsed
      simp only [seedExercises, parsed]
      apply ensures_for (.seed repoUrl) parsed
      apply ensures_bind (ensures_credentialFor reads ownerSafe nameSafe [])
      intro later credential _ _ may
      apply ensures_bind (ensures_discoverExercises reads ownerSafe nameSafe may)
      intro later answer _ _ _
      cases answer with
      | error error => exact ensures_pure fun _ _ _ => trivial
      | ok found =>
          dsimp only
          split
          · exact ensures_pure fun _ _ _ => trivial
          · apply ensures_bind (ensures_question fun _ _ _ => trivial)
            intro later saved _ _ _
            cases saved with
            | true => exact ensures_pure fun _ _ _ => trivial
            | false => exact ensures_pure fun _ _ _ => trivial

include builds reads in
theorem ensures_solutionFor (repoUrl : Str) (source : SolutionsSource) (relativePath : Str) :
    Ensures (Pool.terms Allowed (fun reading : Reading =>
        MayAskFor decoders access reading.repoUrl) (.solution repoUrl source relativePath))
      (fun _ _ => True) []
      (solutionFor urls decoders access (some repoUrl) source relativePath) := by
  simp only [solutionFor]
  split
  · exact ensures_pure fun _ _ _ => trivial
  · next repo parsed =>
      split
      · exact ensures_pure fun _ _ _ => trivial
      · apply ensures_for (.solution repoUrl source relativePath) (GitHubRepo.parse_eq_some parsed)
        apply ensures_bind (ensures_fetch builds reads _ _ [])
        intro later outcome _ _ _
        exact ensures_pure fun _ _ _ => trivial

include builds reads in
/-- Whoever reads a linked repository asks for what belongs to it. -/
theorem ensures_reading (reading : Reading) :
    Ensures (Pool.terms Allowed (fun reading : Reading =>
        MayAskFor decoders access reading.repoUrl) reading) (fun _ _ => True) []
      (reading.program urls decoders access) := by
  suffices whole : ∀ {α : Type} {program : Reads α},
      Ensures (Pool.terms Allowed (fun reading : Reading =>
        MayAskFor decoders access reading.repoUrl) reading) (fun _ _ => True) [] program →
      Ensures (Pool.terms Allowed (fun reading : Reading =>
        MayAskFor decoders access reading.repoUrl) reading) (fun _ _ => True) []
        (program >>= fun _ => pure ()) by
    cases reading with
    | seed repoUrl => exact whole (ensures_seedExercises reads repoUrl)
    | tree repoUrl => exact whole (ensures_courseTree builds reads repoUrl)
    | solution repoUrl source relativePath =>
        exact whole (ensures_solutionFor builds reads repoUrl source relativePath)
  intro α program ensures
  exact ensures_bind ensures fun _ _ _ _ _ => ensures_pure fun _ _ _ => trivial

end Programs

/-- Whatever is configured, linked and answered, and however readings overlap: seeding
exercises, drawing the tree and reading a solution ask for what is under the linked
repository, with the shared token for an owner on the list only and an App token minted
for this repository; and to mint one, the App asks as itself. -/
theorem github_requests_bound {urls : UrlCrate} (builds : urls.Builds) (reads : urls.Reads)
    (decoders : Decoders) (access : Access) {pool : Pool Reading Question Question.Answer}
    (reached : Reached urls decoders access pool) {reading : Reading} {question : Question}
    {rest : question.Answer → Reads Unit} (next : (reading, .ask question rest) ∈ pool.running) :
    MayAskFor decoders access reading.repoUrl pool.past question :=
  Pool.asks_of_reached (ensures_reading builds reads) reached next

/-! ### Two readings of one repository -/

/-- A server with an App and no other token. -/
def appOnly : Access :=
  { token := none, allowedOwners := [], app := some { jwt := .ok "jwt".toList } }

/-- GitHub says that installation 7 covers the repository, and mints a token. -/
def installed : Decoders where
  contents _ := none
  fileContent _ := none
  tree _ := none
  installation _ := some 7
  installationToken _ := some ("fresh".toList, none)
  value _ := none
  base64 _ := none
  rfc3339 _ := none
  statusText _ := []
  unsentText := []
  undecodedText := []

def answered : Response :=
  { status := 200, headers := fun _ => none, contentLength := none, chunks := [] }

/-- The request for a token that reads the repository. -/
def askToken (name : Str) : Request :=
  apiRequest .post (apiUrl ["app".toList, "installations".toList, (toString (7 : Int)).toList,
    "access_tokens".toList] []) (some "jwt".toList) ACCEPT_JSON (some (mintBody name))

def askTree (owner name : Str) (token : Option Str) : Request :=
  apiRequest .get (apiUrl (repoPath owner name ["git".toList, "trees".toList, "HEAD".toList])
    [("recursive".toList, "1".toList)]) token ACCEPT_JSON none

/-- How the tree is drawn where no token is remembered, and where one is. -/
theorem tree_program {repoUrl owner name : Str}
    (parsed : parseGithub repoUrl = some (owner, name)) :
    ∃ first second third fourth fifth last,
      (Reading.tree repoUrl).program percentUrls installed appOnly =
        .ask (.remembered owner name) first ∧
      first none = .ask (.send (apiRequest .get (apiUrl (repoPath owner name
        ["installation".toList]) []) (some "jwt".toList) ACCEPT_JSON none)) second ∧
      second (some answered) = .ask (.send (askToken name)) third ∧
      third (some answered) = .ask .now fourth ∧
      fourth 0 = .ask (.keep owner name ⟨"fresh".toList, FALLBACK_LIFETIME⟩) fifth ∧
      first (some "fresh".toList) =
        .ask (.send (askTree owner name (some "fresh".toList))) last := by
  obtain ⟨ownerSafe, nameSafe⟩ := safe_of_parseGithub parsed
  have tree (token : Option Str) := sendTo_tree percentUrls_builds percentUrls_reads ownerSafe
    nameSafe token none
  have covering (token : Option Str) := sendTo_installation percentUrls_reads ownerSafe nameSafe
    token none
  simp only [Reading.program, courseTree, parsed, credentialFor, appToken, appOnly,
    installationToken, mint, fetchDirs, tree, covering, sendTo_access_tokens percentUrls_reads]
  exact ⟨_, _, _, _, _, _, rfl, rfl, rfl, rfl, rfl, rfl⟩

/-- The first of two readings, of a repository spelled in two ways, has a token minted;
the second is about to draw the tree with it. -/
theorem github_requests_bound_cs101 :
    ∃ pool rest,
      Reached percentUrls installed appOnly pool ∧
      (.tree "https://github.com/Acme/CS101".toList, .ask (.send (askTree "Acme".toList
        "CS101".toList (some "fresh".toList))) rest) ∈ pool.running ∧
      MayAskFor installed appOnly "https://github.com/Acme/CS101".toList pool.past
        (.send (askTree "Acme".toList "CS101".toList (some "fresh".toList))) := by
  have parsed : parseGithub "https://github.com/acme/cs101".toList =
      some ("acme".toList, "cs101".toList) := by
    decide +kernel
  have respelled : parseGithub "https://github.com/Acme/CS101".toList =
      some ("Acme".toList, "CS101".toList) := by
    decide +kernel
  obtain ⟨_, _, _, _, last, -, begun, asked, posted, told, kept, -⟩ := tree_program parsed
  obtain ⟨_, -, -, -, -, rest, second, -, -, -, -, drawn⟩ := tree_program respelled
  have minting : Reached percentUrls installed appOnly ⟨_, [] ++ [(_, _)]⟩ :=
    Pool.Reached.begin .refl (.tree "https://github.com/acme/cs101".toList) begun
  have minted :=
    (((minting.ask asked trivial).ask posted trivial).ask told trivial).ask kept trivial
  have done := minted.ask (rfl : last () = last ()) trivial
  have both : Reached percentUrls installed appOnly ⟨_, [(_, last ())] ++ [(_, _)]⟩ :=
    done.begin (.tree "https://github.com/Acme/CS101".toList) second
  have reached := both.ask drawn
    ⟨("acme".toList, "cs101".toList), ⟨"fresh".toList, FALLBACK_LIFETIME⟩, by simp, by decide, rfl⟩
  refine ⟨_, rest, reached, List.mem_cons_of_mem _ List.mem_cons_self, ?_⟩
  exact github_requests_bound percentUrls_builds percentUrls_reads installed appOnly reached
    (List.mem_cons_of_mem _ List.mem_cons_self)

/-- To draw the tree the App also mints a token, which is not under the repository. -/
theorem not_all_requests_under_repo :
    ∃ pool rest,
      Reached percentUrls installed appOnly pool ∧
      (.tree "https://github.com/acme/cs101".toList,
        .ask (.send (askToken "cs101".toList)) rest) ∈ pool.running ∧
      ¬ ∃ owner name,
        parseGithub "https://github.com/acme/cs101".toList = some (owner, name) ∧
          ReadsRepo owner name (askToken "cs101".toList) := by
  have parsed : parseGithub "https://github.com/acme/cs101".toList =
      some ("acme".toList, "cs101".toList) := by
    decide +kernel
  obtain ⟨_, _, rest, -, -, -, begun, asked, posted, -⟩ := tree_program parsed
  have minting : Reached percentUrls installed appOnly ⟨_, [] ++ [(_, _)]⟩ :=
    Pool.Reached.begin .refl (.tree "https://github.com/acme/cs101".toList) begun
  have reached := (minting.ask asked trivial).ask posted trivial
  refine ⟨_, rest, reached, List.mem_cons_self, ?_⟩
  rintro ⟨owner, name, -, -, first, others, path⟩
  have head : some "app".toList = some "repos".toList := congrArg List.head? path
  revert head
  decide

end GitHub

end Hermione
