import Amicode.PeerToken.IssuedTokens

/-!
# Two boundaries, one accept-set

A request is validated at two boundaries, by the service of the extension (`server.ts`, over
`fleet_accept_set.ts`) and by the engine (`server/auth.ts` of the overlay), against the same two files: the
registry of issued tokens and the phase of the accept-set. The engine cannot import the extension and has
readers of its own. Both boundaries are here, and what the two of them accept once the accept-set is closed.

A buffer is a list of bytes. How base64 is decoded is a parameter, as are the enrollment nonces.
-/

namespace Amicode.PeerToken

open JsObject List

/-- `Buffer.from(text, "utf8")`. -/
def utf8 (text : String) : List UInt8 := text.toList.flatMap String.utf8EncodeChar

theorem utf8_append (a b : String) : utf8 (a ++ b) = utf8 a ++ utf8 b := by
  rw [utf8, String.toList_append, flatMap_append, utf8, utf8]

theorem utf8_eq_nil_iff {text : String} : utf8 text = [] ↔ text = "" := by
  constructor
  · intro h
    rcases hlist : text.toList with _ | ⟨c, rest⟩
    · exact String.toList_eq_nil_iff.mp hlist
    · rw [utf8, hlist, flatMap_cons, append_eq_nil_iff] at h
      exact absurd h.1 String.utf8EncodeChar_ne_nil
  · rintro rfl
    rfl

/-! ## The accept-set -/

inductive AcceptSetPhase
  | additive
  | closed
deriving DecidableEq

/-- `doc.phase` of a value that has been parsed: `null` has no members, and reading one of it throws. -/
def phaseOf (value : JsonValue) : Option JsonValue :=
  match value with
  | .obj members => own? members "phase"
  | _ => none

def isText (text : String) : Option JsonValue → Bool
  | some (.str s) => s = text
  | _ => false

def acceptSetPhase : StoreFile → AcceptSetPhase
  | .absent => .additive
  | .malformed => .additive
  | .json value => if isText "closed" (phaseOf value) then .closed else .additive

def closeAcceptSet : StoreFile := .json (.obj [("phase", .str "closed")])

def rollbackAcceptSet : StoreFile := .json (.obj [("phase", .str "additive")])

/-- What the service boundary reads of the stores, at a request. -/
structure AcceptSet where
  phase : AcceptSetPhase
  issuedTokens : List String
  hubCredentialToken : Option String
  isMintEndpoint : String → String → Bool
  validateNonce : String → Bool
  validateBoundNonce : String → String → String → Bool
  selfMachineId : Option String

def MINT_ENDPOINT_PATH : String := "/amicode/fleet/peer-token"

structure BuildAcceptSetDeps where
  issuedRegistry : StoreFile
  phaseState : StoreFile
  hubCredentialToken : Option String
  mintEndpointPath : Option String
  validateEnrollmentNonce : String → Bool
  validateBoundEnrollmentNonce : String → String → String → Bool
  selfMachineId : Option String

def buildAcceptSet (deps : BuildAcceptSetDeps) : AcceptSet where
  phase := acceptSetPhase deps.phaseState
  issuedTokens := readIssuedTokens deps.issuedRegistry
  hubCredentialToken := deps.hubCredentialToken
  isMintEndpoint method pathname := method = "POST" ∧ pathname = deps.mintEndpointPath.getD MINT_ENDPOINT_PATH
  validateNonce := deps.validateEnrollmentNonce
  validateBoundNonce := deps.validateBoundEnrollmentNonce
  selfMachineId := deps.selfMachineId

/-! ## The service boundary -/

inductive AuthMode
  | «open»
  | credential
deriving DecidableEq

/-- The parts of a request that the boundary looks at; the two nonce headers are there unless blank. -/
structure Request where
  method : Option String
  pathname : String
  authToken : Option String
  authorization : Option String
  enrollmentNonce : Option String
  boundNonceHeader : Option String
  boundIdentityHeader : Option String

/-- The service: its own mint, and the password of the engine if it knows one. -/
structure AmicodeService where
  password : String
  enginePassword : Option String
  authMode : AuthMode

def credential (decodeBase64 : String → List UInt8) (req : Request) : Option (List UInt8) :=
  match req.authToken with
  | some token => if req.method.getD "GET" ≠ "GET" then none else some (decodeBase64 token)
  | none =>
    let header := (req.authorization.getD "").toList
    if "Basic ".toList.isPrefixOf header then
      some (decodeBase64 (String.ofList (JsText.trim (header.drop 6))))
    else none

/-- The comparison in constant time, of equal lengths only, is an equality of bytes. -/
def matchesConstantTime (given : List UInt8) (secrets : List (Option String)) : Bool :=
  secrets.foldl (fun ok secret ↦ match secret with
    | none => ok
    | some secret => if given = utf8 ("opencode:" ++ secret) then true else ok) false

/-- A bound or an unbound nonce of the mint endpoint. -/
def nonceAuthorized (acceptSet : AcceptSet) (req : Request) : Bool :=
  (match acceptSet.selfMachineId, req.boundNonceHeader, req.boundIdentityHeader with
    | some target, some nonce, some identity => acceptSet.validateBoundNonce nonce target identity
    | _, _, _ => false)
  || req.enrollmentNonce.any acceptSet.validateNonce

def acceptSetAuthorized (decodeBase64 : String → List UInt8) (service : AmicodeService) (acceptSet : AcceptSet)
    (req : Request) : Bool :=
  let method := req.method.getD "GET"
  let given := credential decodeBase64 req
  if given.any (fun given ↦ matchesConstantTime given [some service.password, service.enginePassword]) then true
  else if given.any (fun given ↦ matchesConstantTime given (acceptSet.issuedTokens.map some)) then true
  else if acceptSet.isMintEndpoint method req.pathname && nonceAuthorized acceptSet req then true
  else match acceptSet.phase with
    | .additive =>
      if given.any (fun given ↦ acceptSet.hubCredentialToken.any fun hub ↦ matchesConstantTime given [some hub])
      then true
      else decide (service.authMode = .open)
    | .closed => false

/-! ## The engine boundary -/

namespace Engine

/-- The server's configuration: the user name has a default. -/
structure Info where
  password : Option String
  username : String := "opencode"

structure DecodedCredentials where
  username : String
  password : String

def acceptSetClosed : StoreFile → Bool
  | .absent => false
  | .malformed => false
  | .json value => isText "closed" (phaseOf value)

def readIssuedTokens : StoreFile → List String
  | .absent => []
  | .malformed => []
  | .json parsed =>
    match parsed with
    | .obj members =>
      match own? members "issued" with
      | some (.obj issued) => (values issued).filterMap fun entry ↦
          match entry with
          | .obj fields =>
            match own? fields "token" with
            | some (.str t) => if t = "" then none else some t
            | _ => none
          | _ => none
      | _ => []
    | _ => []

def constantTimeEqual (a b : String) : Bool := utf8 a = utf8 b

def matchesAnyConstantTime (presented : String) (secrets : List String) : Bool :=
  secrets.foldl (fun ok secret ↦ if constantTimeEqual presented secret then true else ok) false

def required (phaseState : StoreFile) (config : Info) : Bool :=
  (config.password.any fun password ↦ password ≠ "") || acceptSetClosed phaseState

def authorized (issuedRegistry : StoreFile) (credentials : DecodedCredentials) (config : Info) : Bool :=
  if credentials.username ≠ config.username then false
  else
    (config.password.any fun password ↦ constantTimeEqual credentials.password password) ||
      matchesAnyConstantTime credentials.password (readIssuedTokens issuedRegistry)

/-- The boundary: authentication is not required, or the credential is authorized. -/
def accepts (issuedRegistry phaseState : StoreFile) (config : Info) (credentials : Option DecodedCredentials) :
    Bool :=
  !required phaseState config || credentials.any fun credentials ↦ authorized issuedRegistry credentials config

end Engine

/-! ## One accept-set -/

theorem acceptSetClosed_eq (file : StoreFile) :
    Engine.acceptSetClosed file = decide (acceptSetPhase file = .closed) := by
  rcases file with _ | _ | value
  · rfl
  · rfl
  · rw [Engine.acceptSetClosed, acceptSetPhase]
    rcases isText "closed" (phaseOf value) with _ | _ <;> rfl

theorem readIssuedTokens_eq (file : StoreFile) : Engine.readIssuedTokens file = readIssuedTokens file := by
  rcases file with _ | _ | value
  · rfl
  · rfl
  · rcases value with _ | _ | _ | _ | _ | members <;> try rfl
    have hdoc : readDoc (.json (.obj members)) = members := rfl
    rw [Engine.readIssuedTokens, readIssuedTokens, readKeyedCollection, hdoc, collectionOf, ISSUED]
    rcases own? members "issued" with _ | issued
    · rfl
    · rcases issued with _ | _ | _ | _ | _ | issued <;> rfl

theorem ne_empty_of_mem_readIssuedTokens {file : StoreFile} {token : String} (h : token ∈ readIssuedTokens file) :
    token ≠ "" := by
  obtain ⟨id, entry, -, htoken⟩ := mem_readIssuedTokens.mp h
  rintro rfl
  rcases entry with _ | _ | _ | _ | _ | members <;> simp only [entryToken?, reduceCtorEq] at htoken
  split at htoken
  · split at htoken
    · cases htoken
    · rename_i hne
      exact hne (Option.some.inj htoken)
  · cases htoken

/-- Under the user name, a buffer matches exactly the secrets with the same bytes. -/
theorem matchesConstantTime_iff {presented : String} {secrets : List (Option String)} :
    matchesConstantTime (utf8 ("opencode:" ++ presented)) secrets = true ↔
      ∃ secret, some secret ∈ secrets ∧ utf8 presented = utf8 secret := by
  have hcompare (secret : String) : utf8 ("opencode:" ++ presented) = utf8 ("opencode:" ++ secret) ↔
      utf8 presented = utf8 secret := by
    rw [utf8_append, utf8_append, append_cancel_left_eq]
  -- the fold accumulates the match, from whatever it has
  have hfold : ∀ ok : Bool, secrets.foldl (fun ok secret ↦ match secret with
      | none => ok
      | some secret => if utf8 ("opencode:" ++ presented) = utf8 ("opencode:" ++ secret) then true else ok) ok = true
      ↔ ok = true ∨ ∃ secret, some secret ∈ secrets ∧ utf8 presented = utf8 secret := by
    induction secrets with
    | nil => simp
    | cons secret rest ih =>
      intro ok
      rw [foldl_cons, ih]
      rcases secret with _ | secret
      · simp
      · by_cases hmatch : utf8 presented = utf8 secret
        · simp [hcompare, hmatch]
        · simp [hcompare, hmatch]
  simpa [matchesConstantTime] using hfold false

theorem matchesAnyConstantTime_iff {presented : String} {secrets : List String} :
    Engine.matchesAnyConstantTime presented secrets = true ↔
      ∃ secret ∈ secrets, utf8 presented = utf8 secret := by
  have hfold : ∀ ok : Bool, secrets.foldl (fun ok secret ↦
      if Engine.constantTimeEqual presented secret then true else ok) ok = true
      ↔ ok = true ∨ ∃ secret ∈ secrets, utf8 presented = utf8 secret := by
    induction secrets with
    | nil => simp
    | cons secret rest ih =>
      intro ok
      rw [foldl_cons, ih]
      by_cases hmatch : utf8 presented = utf8 secret <;> simp [Engine.constantTimeEqual, hmatch]
  simpa [Engine.matchesAnyConstantTime] using hfold false

/-- A request at the two boundaries: what stands in the files, what the service knows, and what the client
presents under the user name. -/
structure Presented where
  deps : BuildAcceptSetDeps
  service : AmicodeService
  decodeBase64 : String → List UInt8
  req : Request
  secret : Option String

/-- The request carries the secret it presents, it is not for the mint endpoint, and the accept-set is closed. -/
structure Presented.Closed (x : Presented) : Prop where
  carried : credential x.decodeBase64 x.req = x.secret.map fun secret ↦ utf8 ("opencode:" ++ secret)
  endpoint : (buildAcceptSet x.deps).isMintEndpoint (x.req.method.getD "GET") x.req.pathname = false
  phase : acceptSetPhase x.deps.phaseState = .closed

def Presented.serviceAccepts (x : Presented) : Bool :=
  acceptSetAuthorized x.decodeBase64 x.service (buildAcceptSet x.deps) x.req

/-- The engine is configured with the password that the service knows of it. -/
def Presented.engineAccepts (x : Presented) : Bool :=
  Engine.accepts x.deps.issuedRegistry x.deps.phaseState { password := x.service.enginePassword }
    (x.secret.map fun secret ↦ { username := "opencode", password := secret })

def Presented.OwnMint (x : Presented) : Prop :=
  ∃ secret, x.secret = some secret ∧ utf8 secret = utf8 x.service.password

/-- The law of the two boundaries, the service's own mint left out. -/
structure Presented.OneAcceptSet (x : Presented) : Prop where
  phases : Engine.acceptSetClosed x.deps.phaseState = decide (acceptSetPhase x.deps.phaseState = .closed)
  tokens : Engine.readIssuedTokens x.deps.issuedRegistry = readIssuedTokens x.deps.issuedRegistry
  boundaries : ¬ x.OwnMint → (x.serviceAccepts = true ↔ x.engineAccepts = true)
  anonymous : x.secret = none ∨ x.secret = some "" →
    x.engineAccepts = false ∧ (¬ x.OwnMint → x.serviceAccepts = false)

/-- The secrets that a closed accept-set takes at both boundaries. -/
def Presented.Member (x : Presented) (secret : String) : Prop :=
  (∃ password, x.service.enginePassword = some password ∧ utf8 secret = utf8 password) ∨
    ∃ token ∈ readIssuedTokens x.deps.issuedRegistry, utf8 secret = utf8 token

section Closed

variable {x : Presented}

theorem Presented.Closed.serviceAccepts_iff (h : x.Closed) : x.serviceAccepts = true ↔
    x.OwnMint ∨ ∃ secret, x.secret = some secret ∧ x.Member secret := by
  have hphase : (buildAcceptSet x.deps).phase = .closed := h.phase
  have htokens : (buildAcceptSet x.deps).issuedTokens = readIssuedTokens x.deps.issuedRegistry := rfl
  rw [serviceAccepts, acceptSetAuthorized]
  simp only [h.carried, h.endpoint, hphase, htokens, Bool.false_and, Bool.false_eq_true, if_false]
  rcases hsecret : x.secret with _ | secret
  · simp [OwnMint, hsecret]
  · have hown : matchesConstantTime (utf8 ("opencode:" ++ secret))
        [some x.service.password, x.service.enginePassword] = true ↔ utf8 secret = utf8 x.service.password ∨
          ∃ password, x.service.enginePassword = some password ∧ utf8 secret = utf8 password := by
      rw [matchesConstantTime_iff]
      simp [or_and_right, exists_or, eq_comm]
    have hissued : matchesConstantTime (utf8 ("opencode:" ++ secret))
        ((readIssuedTokens x.deps.issuedRegistry).map some) = true ↔
          ∃ token ∈ readIssuedTokens x.deps.issuedRegistry, utf8 secret = utf8 token := by
      rw [matchesConstantTime_iff]
      simp
    simp only [Option.map_some, Option.any_some, OwnMint, hsecret, Option.some.injEq, exists_eq_left', Member]
    rw [← or_assoc, ← hown, ← hissued]
    split_ifs <;> simp_all

theorem Presented.Closed.engineAccepts_iff (h : x.Closed) : x.engineAccepts = true ↔
    ∃ secret, x.secret = some secret ∧ x.Member secret := by
  have hrequired : Engine.required x.deps.phaseState { password := x.service.enginePassword } = true := by
    rw [Engine.required, acceptSetClosed_eq, h.phase]
    simp
  rw [engineAccepts, Engine.accepts, hrequired]
  rcases hsecret : x.secret with _ | secret
  · simp
  · simp only [Bool.not_true, Bool.false_or, Option.map_some, Option.any_some, Option.some.injEq, exists_eq_left',
      Member, Engine.authorized, ne_eq, not_true_eq_false, if_false, Bool.or_eq_true, readIssuedTokens_eq,
      matchesAnyConstantTime_iff]
    rcases x.service.enginePassword with _ | password <;> simp [Engine.constantTimeEqual]

theorem Presented.member_empty_iff : x.Member "" ↔ x.service.enginePassword = some "" := by
  have hempty (text : String) : utf8 "" = utf8 text ↔ text = "" := by
    rw [eq_comm, ← utf8_eq_nil_iff]
    rfl
  constructor
  · rintro (⟨password, hpassword, hutf8⟩ | ⟨token, hmem, hutf8⟩)
    · rw [hpassword, (hempty password).mp hutf8]
    · exact absurd ((hempty token).mp hutf8) (ne_empty_of_mem_readIssuedTokens hmem)
  · intro h
    exact .inl ⟨"", h, rfl⟩

end Closed

/-- **Once the accept-set is closed, the two boundaries accept the same requests and no anonymous one, exactly
if it is not an empty secret that meets an empty engine password.** -/
theorem oneAcceptSet_iff (x : Presented) (h : x.Closed) :
    x.OneAcceptSet ↔ ¬ (x.service.enginePassword = some "" ∧ x.secret = some "") := by
  constructor
  · rintro hlaw ⟨hpassword, hsecret⟩
    have hmember : x.engineAccepts = true :=
      h.engineAccepts_iff.mpr ⟨"", hsecret, Presented.member_empty_iff.mpr hpassword⟩
    rw [(hlaw.anonymous (.inr hsecret)).1] at hmember
    cases hmember
  · intro hnot
    have hboundaries : ¬ x.OwnMint → (x.serviceAccepts = true ↔ x.engineAccepts = true) := by
      intro hown
      rw [h.serviceAccepts_iff, h.engineAccepts_iff]
      exact or_iff_right hown
    refine ⟨acceptSetClosed_eq _, readIssuedTokens_eq _, hboundaries, fun hanonymous ↦ ?_⟩
    have hengine : x.engineAccepts = false := by
      rw [← Bool.not_eq_true, h.engineAccepts_iff]
      rintro ⟨secret, hsecret, hmember⟩
      rcases hanonymous with hnone | hempty
      · rw [hnone] at hsecret
        cases hsecret
      · obtain rfl : "" = secret := Option.some.inj (hempty.symm.trans hsecret)
        exact hnot ⟨Presented.member_empty_iff.mp hmember, hempty⟩
    refine ⟨hengine, fun hown ↦ ?_⟩
    rw [← Bool.not_eq_true, hboundaries hown, hengine]
    simp

/-- The stores of a closed boundary with one issued token, and a client that presents a secret in its header. -/
def presentedIn (enginePassword : Option String) (header : String) (secret : Option String) : Presented where
  deps := {
    issuedRegistry := .json (.obj [("issued", .obj [("peer", .obj [("token", .str "T1")])])])
    phaseState := closeAcceptSet
    hubCredentialToken := none
    mintEndpointPath := none
    validateEnrollmentNonce := fun _ ↦ false
    validateBoundEnrollmentNonce := fun _ _ _ ↦ false
    selfMachineId := none }
  service := { password := "mint", enginePassword := enginePassword, authMode := .open }
  decodeBase64 text := if text = "b3BlbmNvZGU6VDE=" then utf8 "opencode:T1" else utf8 "opencode:"
  req := ⟨some "GET", "/session", none, some header, none, none, none⟩
  secret := secret

theorem oneAcceptSet_issued : (presentedIn (some "pw") "Basic b3BlbmNvZGU6VDE=" (some "T1")).Closed ∧
    ((presentedIn (some "pw") "Basic b3BlbmNvZGU6VDE=" (some "T1")).OneAcceptSet ↔
      ¬ (some "pw" = some "" ∧ some "T1" = some "")) := by
  have hclosed : (presentedIn (some "pw") "Basic b3BlbmNvZGU6VDE=" (some "T1")).Closed :=
    ⟨by decide +kernel, by decide +kernel, by decide +kernel⟩
  exact ⟨hclosed, oneAcceptSet_iff _ hclosed⟩

/-- With an empty engine password both boundaries accept the empty secret. -/
theorem not_oneAcceptSet_empty : ¬ ∀ x : Presented, x.Closed → x.OneAcceptSet := by
  intro h
  have hlaw := h (presentedIn (some "") "Basic b3BlbmNvZGU6" (some ""))
    ⟨by decide +kernel, by decide +kernel, by decide +kernel⟩
  exact absurd (hlaw.anonymous (.inr rfl)).1 (by decide +kernel)

end Amicode.PeerToken
