import Mathlib.Data.List.Nodup
import Hermione.Student

/-!
# The ids of students who sign in

A student signs in with an identity provider, by a credential of it or by the
device flow.  What the provider vouches for, a GitHub login or the claims of an
OIDC token, becomes a student id under the provider's name.
-/

namespace Hermione

namespace SignIn

inductive ProviderKind where
  | oidc
  | github
  deriving DecidableEq, Repr

/-- A configured identity provider. -/
structure Provider where
  name : Str
  kind : ProviderKind
  issuer : Option Str
  clientId : Str
  clientSecret : Option Str
  deriving DecidableEq

/-- Why an identity check did not produce a student. -/
inductive IdentityError where
  | unknownProvider (name : Str)
  | rejected (why : Str)
  | misconfigured (what : String)
  | upstream (why : Str)
  deriving DecidableEq

inductive Algorithm where
  | HS256 | HS384 | HS512
  | RS256 | RS384 | RS512
  | PS256 | PS384 | PS512
  | ES256 | ES384
  | EdDSA
  deriving DecidableEq, Repr

/-- Only these are checked against a provider's public keys. -/
def Algorithm.asymmetric : Algorithm → Bool
  | .HS256 | .HS384 | .HS512 => false
  | _ => true

structure TokenHeader where
  kid : Option Str
  alg : Algorithm
  deriving DecidableEq

structure OidcClaims where
  sub : Str
  email : Option Str
  deriving DecidableEq

/-- A public key of a provider, as it publishes it. -/
abbrev Jwk := Str

/-- The key that signatures are checked with. -/
abbrev DecodingKey := Str

/-- A provider's discovery document, what of it is read, and its keys by their ids. -/
structure OidcMeta where
  tokenEndpoint : Option Str
  jwks : Str → Option Jwk

/-- What GitHub says of the owner of an access token, with what the client would say of
such a status and of a body that does not name the owner. -/
inductive UserAnswer where
  | failed (why : Str)
  | answered (status : Nat) (statusError : Str) (login : Except Str Str)

/-- What a token endpoint answers: the members of it that are strings. -/
structure TokenAnswer where
  error : Option Str
  accessToken : Option Str
  idToken : Option Str

/-- Everything a sign-in asks others: the token crate, GitHub and the providers.  The
documents and keys of an issuer may come from a cache, unless they are asked for
anew. -/
structure Idp where
  decodeHeader : Str → Except Str TokenHeader
  fromJwk : Jwk → Except Str DecodingKey
  /-- The claims of a token that a key verifies, for an issuer and a client. -/
  decode : DecodingKey → Algorithm → (issuer clientId token : Str) → Except Str OidcClaims
  fetchMeta : (issuer : Str) → (refresh : Bool) → Except IdentityError OidcMeta
  githubUser : (accessToken : Str) → UserAnswer
  tokenAnswer : (endpoint : Str) → (form : List (Str × Str)) → Except IdentityError TokenAnswer

inductive DevicePoll where
  | pending
  | done (student : Str)
  deriving DecidableEq

section Verification

variable (idp : Idp)

def githubLogin (accessToken : Str) : Except IdentityError Str :=
  match idp.githubUser accessToken with
  | .failed why => .error (.upstream why)
  | .answered status statusError login =>
      if 400 ≤ status && status < 500 then
        .error (.rejected "github rejected the token".toList)
      else if 500 ≤ status && status < 600 then .error (.upstream statusError)
      else login.mapError .upstream

/-- Verifies an OIDC token's signature, issuer, audience and expiry. -/
def verifyIdToken (keys : OidcMeta) (issuer clientId idToken : Str) :
    Except IdentityError OidcClaims := do
  let header ← (idp.decodeHeader idToken).mapError .rejected
  match header.kid with
  | none => throw (.rejected "token missing kid".toList)
  | some kid =>
      match keys.jwks kid with
      | none => throw (.rejected "no matching JWK for token kid".toList)
      | some jwk => do
          let key ← (idp.fromJwk jwk).mapError .rejected
          if header.alg.asymmetric then
            (idp.decode key header.alg issuer clientId idToken).mapError .rejected
          else throw (.rejected "unsupported ID token signature algorithm".toList)

/-- The claims of a token.  Keys that lack the token's are fetched anew, once. -/
def verifiedClaims (issuer clientId idToken : Str) : Except IdentityError OidcClaims := do
  let header ← (idp.decodeHeader idToken).mapError .rejected
  match header.kid with
  | none => throw (.rejected "token missing kid".toList)
  | some kid =>
      let known ← idp.fetchMeta issuer false
      if (known.jwks kid).isSome then verifyIdToken idp known issuer clientId idToken
      else
        let fresh ← idp.fetchMeta issuer true
        verifyIdToken idp fresh issuer clientId idToken

def verifyOidc (issuer clientId idToken : Str) : Except IdentityError Str := do
  let claims ← verifiedClaims idp issuer clientId idToken
  return claims.email.getD claims.sub

/-- `format!("{}:{}", name, subject)` -/
def studentId (name subject : Str) : Str :=
  name ++ ':' :: subject

def findProvider (providers : List Provider) (name : Str) : Except IdentityError Provider :=
  match providers.find? fun provider => provider.name = name with
  | some provider => .ok provider
  | none => .error (.unknownProvider name)

/-- Verifies a provider's credential and returns a namespaced student id. -/
def verifyIdp (providers : List Provider) (providerName token : Str) :
    Except IdentityError Str := do
  let provider ← findProvider providers providerName
  match provider.kind with
  | .github => do
      let login ← githubLogin idp token
      return studentId provider.name login
  | .oidc =>
      match provider.issuer with
      | none => throw (.misconfigured "oidc provider needs an issuer")
      | some issuer => do
          let email ← verifyOidc idp issuer provider.clientId token
          return studentId provider.name email

/-- The form that a device flow's token is asked for with. -/
def deviceForm (provider : Provider) (deviceCode : Str) : List (Str × Str) :=
  [("client_id".toList, provider.clientId),
    ("device_code".toList, deviceCode),
    ("grant_type".toList, "urn:ietf:params:oauth:grant-type:device_code".toList)] ++
  provider.clientSecret.toList.map fun secret => ("client_secret".toList, secret)

/-- Where a device flow's token is asked for. -/
def tokenEndpoint (provider : Provider) : Except IdentityError Str :=
  match provider.kind, provider.issuer with
  | .github, _ => .ok "https://github.com/login/oauth/access_token".toList
  | .oidc, none => throw (.misconfigured "oidc provider needs an issuer")
  | .oidc, some issuer => do
      let known ← idp.fetchMeta issuer false
      match known.tokenEndpoint with
      | some endpoint => return endpoint
      | none => throw (.misconfigured "provider has no token endpoint")

def devicePoll (providers : List Provider) (providerName deviceCode : Str) :
    Except IdentityError DevicePoll := do
  let provider ← findProvider providers providerName
  let endpoint ← tokenEndpoint idp provider
  let body ← idp.tokenAnswer endpoint (deviceForm provider deviceCode)
  match body.error with
  | some error =>
      if error = "authorization_pending".toList || error = "slow_down".toList then
        return .pending
      else throw (.rejected error)
  | none =>
      match provider.kind, provider.issuer with
      | .github, _ =>
          match body.accessToken with
          | none => throw (.upstream "no access_token".toList)
          | some accessToken => do
              let login ← githubLogin idp accessToken
              return .done (studentId provider.name login)
      | .oidc, issuer =>
          match body.idToken with
          | none => throw (.upstream "no id_token".toList)
          | some idToken => do
              let email ← verifyOidc idp (issuer.getD []) provider.clientId idToken
              return .done (studentId provider.name email)

end Verification

/-- Whom a provider vouches for. -/
inductive Account where
  | github (login : Str)
  | oidc (claims : OidcClaims)
  deriving DecidableEq

/-- What tells an account from the others of its provider. -/
def Account.key : Account → Str
  | .github login => login
  | .oidc claims => claims.sub

/-- What an account is called in a student id. -/
def Account.subject : Account → Str
  | .github login => login
  | .oidc claims => claims.email.getD claims.sub

section SigningIn

variable (idp : Idp)

/-- A provider accepts a credential as an account's. -/
inductive Vouches (provider : Provider) (credential : Str) : Account → Prop where
  | github {login : Str} (kind : provider.kind = .github)
      (owner : githubLogin idp credential = .ok login) :
      Vouches provider credential (.github login)
  | oidc {issuer : Str} {claims : OidcClaims} (kind : provider.kind = .oidc)
      (issued : provider.issuer = some issuer)
      (verified : verifiedClaims idp issuer provider.clientId credential = .ok claims) :
      Vouches provider credential (.oidc claims)

/-- The credential in a token endpoint's answer. -/
def TokenAnswer.credential (body : TokenAnswer) : ProviderKind → Option Str
  | .github => body.accessToken
  | .oidc => body.idToken

/-- A student signs in with an account of a provider, and gets an id. -/
inductive SignsIn (providers : List Provider) : Provider → Account → Str → Prop where
  | exchange {name token student : Str} {provider : Provider} {account : Account}
      (found : findProvider providers name = .ok provider)
      (vouched : Vouches idp provider token account)
      (verified : verifyIdp idp providers name token = .ok student) :
      SignsIn providers provider account student
  | device {name deviceCode endpoint credential student : Str} {provider : Provider}
      {account : Account} {body : TokenAnswer}
      (found : findProvider providers name = .ok provider)
      (asked : tokenEndpoint idp provider = .ok endpoint)
      (answered : idp.tokenAnswer endpoint (deviceForm provider deviceCode) = .ok body)
      (held : body.credential provider.kind = some credential)
      (vouched : Vouches idp provider credential account)
      (polled : devicePoll idp providers name deviceCode = .ok (.done student)) :
      SignsIn providers provider account student

variable {idp} {providers : List Provider} {provider : Provider} {account : Account}
  {credential student : Str}

theorem findProvider_mem {name : Str} (found : findProvider providers name = .ok provider) :
    provider ∈ providers := by
  unfold findProvider at found
  cases sought : providers.find? fun provider => provider.name = name with
  | none => simp [sought] at found
  | some other =>
      obtain rfl : other = provider := by simpa [sought] using found
      exact List.mem_of_find?_eq_some sought

theorem Vouches.verifyOidc {issuer : Str} {claims : OidcClaims}
    (verified : verifiedClaims idp issuer provider.clientId credential = .ok claims) :
    verifyOidc idp issuer provider.clientId credential =
      .ok (Account.oidc claims).subject := by
  simp [SignIn.verifyOidc, verified, Account.subject, bind, Except.bind, pure, Except.pure]

theorem Vouches.verifyIdp {name : Str} (vouched : Vouches idp provider credential account)
    (found : findProvider providers name = .ok provider) :
    verifyIdp idp providers name credential =
      .ok (studentId provider.name account.subject) := by
  cases vouched with
  | github kind owner =>
      simp [SignIn.verifyIdp, found, kind, owner, Account.subject, bind, Except.bind, pure,
        Except.pure]
  | oidc kind issued verified =>
      simp [SignIn.verifyIdp, found, kind, issued, Vouches.verifyOidc verified, bind,
        Except.bind, pure, Except.pure]

theorem Vouches.devicePoll {name deviceCode endpoint : Str} {body : TokenAnswer}
    (vouched : Vouches idp provider credential account)
    (found : findProvider providers name = .ok provider)
    (asked : tokenEndpoint idp provider = .ok endpoint)
    (answered : idp.tokenAnswer endpoint (deviceForm provider deviceCode) = .ok body)
    (held : body.credential provider.kind = some credential) (sound : body.error = none) :
    devicePoll idp providers name deviceCode =
      .ok (.done (studentId provider.name account.subject)) := by
  cases vouched with
  | github kind owner =>
      have holds : body.accessToken = some credential := by
        simpa [kind, TokenAnswer.credential] using held
      simp [SignIn.devicePoll, found, asked, answered, sound, kind, holds, owner,
        Account.subject, bind, Except.bind, pure, Except.pure]
  | oidc kind issued verified =>
      have holds : body.idToken = some credential := by
        simpa [kind, TokenAnswer.credential] using held
      simp [SignIn.devicePoll, found, asked, answered, sound, kind, holds, issued,
        Vouches.verifyOidc verified, bind, Except.bind, pure, Except.pure]

theorem sound_of_polled {name deviceCode endpoint : Str} {body : TokenAnswer}
    (found : findProvider providers name = .ok provider)
    (asked : tokenEndpoint idp provider = .ok endpoint)
    (answered : idp.tokenAnswer endpoint (deviceForm provider deviceCode) = .ok body)
    (polled : devicePoll idp providers name deviceCode = .ok (.done student)) :
    body.error = none := by
  cases failed : body.error with
  | none => rfl
  | some error =>
      simp only [devicePoll, found, asked, answered, failed, bind, Except.bind, pure,
        Except.pure] at polled
      split at polled <;> cases polled

/-- An id is the provider's name and what it calls the account. -/
theorem SignsIn.student_eq (signed : SignsIn idp providers provider account student) :
    student = studentId provider.name account.subject := by
  cases signed with
  | exchange found vouched verified =>
      rw [vouched.verifyIdp found] at verified
      exact (Except.ok.inj verified).symm
  | device found asked answered held vouched polled =>
      have sound := sound_of_polled found asked answered polled
      rw [vouched.devicePoll found asked answered held sound] at polled
      exact (DevicePoll.done.inj (Except.ok.inj polled)).symm

theorem SignsIn.configured (signed : SignsIn idp providers provider account student) :
    provider ∈ providers := by
  cases signed with
  | exchange found _ _ => exact findProvider_mem found
  | device found _ _ _ _ _ => exact findProvider_mem found

/-- One name is another, a colon and more, and the subjects make up for it. -/
def Nested (name subject name' subject' : Str) : Prop :=
  ∃ rest, name' = name ++ ':' :: rest ∧ subject = rest ++ ':' :: subject'

theorem studentId_eq_iff {name subject name' subject' : Str} :
    studentId name subject = studentId name' subject' ↔
      (name = name' ∧ subject = subject') ∨ Nested name subject name' subject' ∨
        Nested name' subject' name subject := by
  unfold studentId
  constructor
  · intro same
    obtain ⟨rest, longer, left⟩ | ⟨rest, longer, left⟩ := List.append_eq_append_iff.mp same
    · cases rest with
      | nil =>
          simp only [List.append_nil] at longer
          simp only [List.nil_append, List.cons.injEq, true_and] at left
          exact .inl ⟨longer.symm, left⟩
      | cons head rest =>
          obtain ⟨rfl, made⟩ := List.cons.inj left
          exact .inr (.inl ⟨rest, longer, made⟩)
    · cases rest with
      | nil =>
          simp only [List.append_nil] at longer
          simp only [List.nil_append, List.cons.injEq, true_and] at left
          exact .inl ⟨longer, left.symm⟩
      | cons head rest =>
          obtain ⟨rfl, made⟩ := List.cons.inj left
          exact .inr (.inr ⟨rest, longer, made⟩)
  · rintro (⟨rfl, rfl⟩ | ⟨rest, rfl, rfl⟩ | ⟨rest, rfl, rfl⟩)
    · rfl
    · simp
    · simp

theorem names_ne (distinct : (providers.map Provider.name).Nodup) {provider' : Provider}
    (configured : provider ∈ providers) (configured' : provider' ∈ providers)
    (other : provider ≠ provider') : provider.name ≠ provider'.name :=
  fun same => other (List.inj_on_of_nodup_map distinct configured configured' same)

end SigningIn

/-- The ids that two students sign in under differ, if their providers do or what these
call them. -/
theorem student_ids_differ (providers : List Provider)
    (distinct : (providers.map Provider.name).Nodup) (idp idp' : Idp)
    {provider provider' : Provider} {account account' : Account} {student student' : Str}
    (signed : SignsIn idp providers provider account student)
    (signed' : SignsIn idp' providers provider' account' student')
    (other : provider ≠ provider' ∨ account.subject ≠ account'.subject)
    (apart : ¬ Nested provider.name account.subject provider'.name account'.subject)
    (apart' : ¬ Nested provider'.name account'.subject provider.name account.subject) :
    student ≠ student' := by
  rw [signed.student_eq, signed'.student_eq]
  intro same
  obtain ⟨names, subjects⟩ | nested | nested := studentId_eq_iff.mp same
  · obtain providers | texts := other
    · exact names_ne distinct signed.configured signed'.configured providers names
    · exact texts subjects
  · exact apart nested
  · exact apart' nested

def githubProvider : Provider :=
  { name := "github".toList
    kind := .github
    issuer := none
    clientId := "hermione".toList
    clientSecret := none }

def googleProvider : Provider :=
  { name := "google".toList
    kind := .oidc
    issuer := some "https://accounts.google.com".toList
    clientId := "hermione".toList
    clientSecret := some "s3cret".toList }

/-- Providers whose tokens name the accounts, and one address for them all. -/
def shared : Idp :=
  { decodeHeader := fun _ => .ok { kid := some "k1".toList, alg := .RS256 }
    fromJwk := .ok
    decode := fun _ _ _ _ token => .ok { sub := token, email := some "alice@x.edu".toList }
    fetchMeta := fun _ _ => .ok { tokenEndpoint := none, jwks := some }
    githubUser := fun token => .answered 200 [] (.ok token)
    tokenAnswer := fun _ form =>
      .ok { error := none, accessToken := form.lookup "device_code".toList, idToken := none } }

theorem shared_google (token : Str) :
    SignsIn shared [githubProvider, googleProvider] googleProvider
      (.oidc { sub := token, email := some "alice@x.edu".toList })
      "google:alice@x.edu".toList := by
  have vouched : Vouches shared googleProvider token
      (.oidc { sub := token, email := some "alice@x.edu".toList }) :=
    .oidc rfl rfl rfl
  exact .exchange (rfl : findProvider _ "google".toList = _) vouched rfl

theorem shared_github :
    SignsIn shared [githubProvider, googleProvider] githubProvider (.github "alice".toList)
      "github:alice".toList := by
  have vouched : Vouches shared githubProvider "alice".toList (.github "alice".toList) :=
    .github rfl rfl
  exact .device (rfl : findProvider _ "github".toList = _) rfl
    (rfl : shared.tokenAnswer _ (deviceForm githubProvider "alice".toList) = _) rfl vouched rfl

theorem student_ids_differ_shared : "google:alice@x.edu".toList ≠ "github:alice".toList := by
  apply student_ids_differ [githubProvider, googleProvider] (by decide) shared shared
    (shared_google "1".toList) shared_github (.inl (by decide))
  · rintro ⟨rest, longer, _⟩
    cases longer
  · rintro ⟨rest, longer, _⟩
    cases longer

/-- Two accounts of a provider that have one address sign in as one student. -/
theorem not_student_ids_differ_email :
    ¬ ∀ (providers : List Provider), (providers.map Provider.name).Nodup →
      ∀ (idp idp' : Idp) (provider provider' : Provider) (account account' : Account)
        (student student' : Str), SignsIn idp providers provider account student →
        SignsIn idp' providers provider' account' student' →
        provider ≠ provider' ∨ account.key ≠ account'.key → student ≠ student' := by
  intro differ
  have apart := differ _ (by decide) _ _ _ _ _ _ _ _ (shared_google "1".toList)
    (shared_google "2".toList) (.inr (by decide))
  exact apart rfl

end SignIn

end Hermione
