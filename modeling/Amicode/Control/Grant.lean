import Amicode.Foundation.InsertionMap
import Amicode.Foundation.JsNumber

/-!
# Lifecycle grants

What a peer may do on a machine of the fleet is a grant (`fleet_control_lifecycle.ts`), one stored
record per requesting machine. A grant is issued, revoked, acknowledged by the peer, and readmitted
under a new generation; a presented token is validated against the state, the generation and the
token of the stored record.

The store is a JSON file that anything may have written, so a record is read tolerantly: one that
lacks a field, or has it empty, is no grant at all. The operations are synchronous; each is a function
of the collection. The token and the time that an operation draws are among its arguments.
-/

namespace Amicode.Control

/-! ## Vocabularies -/

inductive GrantScope where
  | observe
  | control
  | lifecycleAdmin
deriving DecidableEq

def GrantScope.name : GrantScope → String
  | .observe => "observe"
  | .control => "control"
  | .lifecycleAdmin => "lifecycle-admin"

def GrantScope.vocabulary : List GrantScope := [.observe, .control, .lifecycleAdmin]

/-- `isValidGrantScope`, with the scope it finds. -/
def GrantScope.ofName? (s : String) : Option GrantScope := vocabulary.find? (·.name = s)

inductive GrantState where
  | active
  | revocationPending
  | revoked
deriving DecidableEq

def GrantState.name : GrantState → String
  | .active => "active"
  | .revocationPending => "revocation-pending"
  | .revoked => "revoked"

def GrantState.vocabulary : List GrantState := [.active, .revocationPending, .revoked]

/-- `isValidGrantState`, with the state it finds. -/
def GrantState.ofName? (s : String) : Option GrantState := vocabulary.find? (·.name = s)

@[simp] theorem GrantScope.ofName?_name (scope : GrantScope) : ofName? scope.name = some scope := by
  cases scope <;> decide

@[simp] theorem GrantState.ofName?_name (state : GrantState) : ofName? state.name = some state := by
  cases state <;> decide

/-! ## Records -/

structure LifecycleGrant where
  requesterMachineId : String
  requesterIdentityKey : String
  targetMachineId : String
  targetIdentityKey : String
  scope : GrantScope
  generation : ℚ
  state : GrantState
  token : String
  issuedAt : String
  revokedAt : Option String
deriving DecidableEq

/-- A member of a stored record, as far as it is looked at. -/
inductive StoredField where
  | str (s : String)
  | num (q : ℚ)
  | other
deriving DecidableEq

/-- A member of the collection: an object, or something that is no record. -/
inductive StoredEntry where
  | record (fields : InsertionMap String StoredField)
  | other

/-- The collection `lifecycle_grants`. -/
abbrev GrantStore := InsertionMap String StoredEntry

/-- The text under a key; anything else counts as empty. -/
def fieldText (r : InsertionMap String StoredField) (key : String) : String :=
  match r.get? key with
  | some (.str s) => s
  | _ => ""

/-- The number under a key; anything else counts as zero. -/
def fieldNumber (r : InsertionMap String StoredField) (key : String) : ℚ :=
  match r.get? key with
  | some (.num q) => q
  | _ => 0

/-- A text, unless it is empty. -/
def nonempty? (s : String) : Option String := if s = "" then none else some s

def parseStoredGrant (peerId : String) : Option StoredEntry → Option LifecycleGrant
  | some (.record r) =>
    let requesterIdentityKey := fieldText r "requester_identity_key"
    let targetMachineId := fieldText r "target_machine_id"
    let targetIdentityKey := fieldText r "target_identity_key"
    let generation := fieldNumber r "generation"
    let token := fieldText r "token"
    let issuedAt := fieldText r "issued_at"
    if requesterIdentityKey = "" ∨ targetMachineId = "" ∨ targetIdentityKey = "" then none
    else match GrantScope.ofName? (fieldText r "scope"), GrantState.ofName? (fieldText r "state") with
      | some scope, some state =>
        if generation < 1 ∨ token = "" ∨ issuedAt = "" then none
        else some
          { requesterMachineId := peerId, requesterIdentityKey, targetMachineId, targetIdentityKey,
            scope, generation, state, token, issuedAt,
            revokedAt := nonempty? (fieldText r "revoked_at") }
      | _, _ => none
  | _ => none

def readLifecycleGrant (store : GrantStore) (peerId : String) : Option LifecycleGrant :=
  parseStoredGrant peerId (store.get? peerId)

def readAllLifecycleGrants (store : GrantStore) : List LifecycleGrant :=
  store.entries.filterMap fun entry ↦ parseStoredGrant entry.1 (some entry.2)

/-- `StoredGrantRecord`: the record of a grant, with `revoked_at` where there is a time. -/
def storedGrantRecord (grant : LifecycleGrant) : InsertionMap String StoredField :=
  InsertionMap.setAll ∅ (
    [("requester_identity_key", .str grant.requesterIdentityKey),
      ("target_machine_id", .str grant.targetMachineId),
      ("target_identity_key", .str grant.targetIdentityKey),
      ("scope", .str grant.scope.name),
      ("generation", .num grant.generation),
      ("state", .str grant.state.name),
      ("token", .str grant.token),
      ("issued_at", .str grant.issuedAt)]
    ++ ((grant.revokedAt.bind nonempty?).map fun t ↦ ("revoked_at", .str t)).toList)

/-- `writeGrant`: one entry is replaced, every other is kept. -/
def writeGrant (store : GrantStore) (peerId : String) (grant : LifecycleGrant) : GrantStore :=
  store.set peerId (.record (storedGrantRecord grant))

/-! ### What is written is read back -/

/-- A grant whose record is read as a grant. -/
structure LifecycleGrant.Legible (grant : LifecycleGrant) : Prop where
  requesterIdentityKey : grant.requesterIdentityKey ≠ ""
  targetMachineId : grant.targetMachineId ≠ ""
  targetIdentityKey : grant.targetIdentityKey ≠ ""
  generation : 1 ≤ grant.generation
  token : grant.token ≠ ""
  issuedAt : grant.issuedAt ≠ ""

theorem LifecycleGrant.Legible.turned {grant : LifecycleGrant} (h : grant.Legible)
    (state : GrantState) (revokedAt : Option String) :
    { grant with state, revokedAt : LifecycleGrant }.Legible :=
  ⟨h.1, h.2, h.3, h.4, h.5, h.6⟩

/-- A grant as its record is read: under the peer's id, an empty revocation time left out. -/
def LifecycleGrant.normalized (grant : LifecycleGrant) (peerId : String) : LifecycleGrant :=
  { grant with requesterMachineId := peerId, revokedAt := grant.revokedAt.bind nonempty? }

section Read

variable {store : GrantStore} {peerId : String} {raw : Option StoredEntry}
  {grant grant' : LifecycleGrant}

theorem nonempty?_eq_some {s t : String} (h : nonempty? s = some t) : s = t ∧ t ≠ "" := by
  unfold nonempty? at h
  split at h
  · cases h
  · obtain rfl := Option.some.inj h
    exact ⟨rfl, ‹_›⟩

theorem nonempty?_idem (s : String) : (nonempty? s).bind nonempty? = nonempty? s := by
  unfold nonempty?
  split <;> simp_all

theorem parseStoredGrant_spec (h : parseStoredGrant peerId raw = some grant) :
    grant.Legible ∧ grant.normalized peerId = grant := by
  unfold parseStoredGrant at h
  split at h
  · dsimp only at h
    split at h
    · cases h
    split at h
    · split at h
      · cases h
      · obtain rfl := Option.some.inj h
        simp only [not_or, not_lt] at *
        refine ⟨⟨by tauto, by tauto, by tauto, by tauto, by tauto, by tauto⟩, ?_⟩
        simp [LifecycleGrant.normalized, nonempty?_idem]
    · cases h
  · cases h

@[simp] theorem fieldText_storedGrantRecord (grant : LifecycleGrant) :
    fieldText (storedGrantRecord grant) "requester_identity_key" = grant.requesterIdentityKey
      ∧ fieldText (storedGrantRecord grant) "target_machine_id" = grant.targetMachineId
      ∧ fieldText (storedGrantRecord grant) "target_identity_key" = grant.targetIdentityKey
      ∧ fieldText (storedGrantRecord grant) "scope" = grant.scope.name
      ∧ fieldNumber (storedGrantRecord grant) "generation" = grant.generation
      ∧ fieldText (storedGrantRecord grant) "state" = grant.state.name
      ∧ fieldText (storedGrantRecord grant) "token" = grant.token
      ∧ fieldText (storedGrantRecord grant) "issued_at" = grant.issuedAt
      ∧ nonempty? (fieldText (storedGrantRecord grant) "revoked_at")
        = grant.revokedAt.bind nonempty? := by
  unfold storedGrantRecord fieldText fieldNumber
  cases h : grant.revokedAt.bind nonempty? with
  | none => simp [InsertionMap.setAll, InsertionMap.get?_set, nonempty?]
  | some t =>
    obtain ⟨s, -, hs⟩ := Option.bind_eq_some_iff.mp h
    obtain ⟨rfl, ht⟩ := nonempty?_eq_some hs
    simp [InsertionMap.setAll, InsertionMap.get?_set, nonempty?, ht]

theorem parse_storedGrantRecord (peerId : String) (h : grant.Legible) :
    parseStoredGrant peerId (some (.record (storedGrantRecord grant)))
      = some (grant.normalized peerId) := by
  obtain ⟨h₁, h₂, h₃, h₄, h₅, h₆⟩ := h
  simp [parseStoredGrant, LifecycleGrant.normalized, *]

theorem eq_of_parse_storedGrantRecord
    (h : parseStoredGrant peerId (some (.record (storedGrantRecord grant))) = some grant') :
    grant' = grant.normalized peerId := by
  simp only [parseStoredGrant, fieldText_storedGrantRecord, GrantScope.ofName?_name,
    GrantState.ofName?_name] at h
  split at h
  · cases h
  · split at h
    · cases h
    · exact (Option.some.inj h).symm

theorem readLifecycleGrant_spec (h : readLifecycleGrant store peerId = some grant) :
    grant.Legible ∧ grant.normalized peerId = grant :=
  parseStoredGrant_spec h

theorem requesterMachineId_of_read (h : readLifecycleGrant store peerId = some grant) :
    grant.requesterMachineId = peerId := by
  rw [← (readLifecycleGrant_spec h).2]
  rfl

theorem read_writeGrant_of_ne {id : String} (grant : LifecycleGrant) (h : id ≠ peerId) :
    readLifecycleGrant (writeGrant store id grant) peerId = readLifecycleGrant store peerId := by
  rw [readLifecycleGrant, writeGrant, InsertionMap.get?_set_of_ne _ _ h]
  rfl

theorem read_writeGrant (h : grant.Legible) :
    readLifecycleGrant (writeGrant store peerId grant) peerId = some (grant.normalized peerId) := by
  rw [readLifecycleGrant, writeGrant, InsertionMap.get?_set_self, parse_storedGrantRecord _ h]

theorem eq_of_read_writeGrant
    (h : readLifecycleGrant (writeGrant store peerId grant) peerId = some grant') :
    grant' = grant.normalized peerId := by
  rw [readLifecycleGrant, writeGrant, InsertionMap.get?_set_self] at h
  exact eq_of_parse_storedGrantRecord h

/-- The list of all grants holds the grant of each peer, and no other. -/
theorem mem_readAllLifecycleGrants :
    grant ∈ readAllLifecycleGrants store
      ↔ readLifecycleGrant store grant.requesterMachineId = some grant := by
  rw [readAllLifecycleGrants, List.mem_filterMap]
  constructor
  · rintro ⟨⟨id, entry⟩, hentry, hparse⟩
    have hget := (store.get?_eq_some_iff id entry).mpr hentry
    have hid : grant.requesterMachineId = id := by
      rw [← (parseStoredGrant_spec hparse).2]
      rfl
    rw [readLifecycleGrant, hid, hget]
    exact hparse
  · intro hread
    rw [readLifecycleGrant] at hread
    cases hget : store.get? grant.requesterMachineId with
    | none =>
      rw [hget] at hread
      cases hread
    | some entry =>
      rw [hget] at hread
      exact ⟨(_, entry), (store.get?_eq_some_iff _ entry).mp hget, hread⟩

end Read

/-! ## Operations -/

structure LifecycleGrantRequest where
  requesterMachineId : String
  requesterIdentityKey : String
  targetMachineId : String
  targetIdentityKey : String
  scope : GrantScope
deriving DecidableEq

/-- Why a grant is not issued. The source declares `target-mismatch` and never answers it. -/
inductive LifecycleGrantRefusal where
  | identityMismatch
  | targetMismatch
  | revoked
deriving DecidableEq

def LifecycleGrantRequest.grant (req : LifecycleGrantRequest) (generation : ℚ)
    (token issuedAt : String) : LifecycleGrant where
  requesterMachineId := req.requesterMachineId
  requesterIdentityKey := req.requesterIdentityKey
  targetMachineId := req.targetMachineId
  targetIdentityKey := req.targetIdentityKey
  scope := req.scope
  generation := generation
  state := .active
  token := token
  issuedAt := issuedAt
  revokedAt := none

def issueLifecycleGrant (store : GrantStore) (req : LifecycleGrantRequest)
    (token issuedAt : String) : GrantStore × Except LifecycleGrantRefusal LifecycleGrant :=
  match readLifecycleGrant store req.requesterMachineId with
  | some existing =>
    if existing.requesterIdentityKey ≠ req.requesterIdentityKey then
      (store, .error .identityMismatch)
    else if existing.state = .revoked then (store, .error .revoked)
    else
      -- whatever the state is otherwise, the new grant is active
      let grant := req.grant existing.generation token issuedAt
      (writeGrant store req.requesterMachineId grant, .ok grant)
  | none =>
    let grant := req.grant 1 token issuedAt
    (writeGrant store req.requesterMachineId grant, .ok grant)

theorem issueLifecycleGrant_ok {store store' : GrantStore} {req : LifecycleGrantRequest}
    {token issuedAt : String} {grant : LifecycleGrant}
    (h : issueLifecycleGrant store req token issuedAt = (store', .ok grant)) :
    (∀ g, readLifecycleGrant store req.requesterMachineId = some g →
        g.requesterIdentityKey = req.requesterIdentityKey ∧ g.state ≠ .revoked)
      ∧ (∃ generation, grant = req.grant generation token issuedAt)
      ∧ store' = writeGrant store req.requesterMachineId grant := by
  unfold issueLifecycleGrant at h
  cases hread : readLifecycleGrant store req.requesterMachineId with
  | none =>
    simp only [hread, Prod.mk.injEq, Except.ok.injEq] at h
    obtain ⟨rfl, rfl⟩ := h
    exact ⟨by simp, ⟨_, rfl⟩, rfl⟩
  | some g =>
    simp only [hread] at h
    split_ifs at h with hkey hstate
    · simp at h
    · simp at h
    · simp only [Prod.mk.injEq, Except.ok.injEq] at h
      obtain ⟨rfl, rfl⟩ := h
      refine ⟨?_, ⟨_, rfl⟩, rfl⟩
      rintro _ ⟨⟩
      exact ⟨not_not.mp hkey, hstate⟩

inductive RevokeRefusal where
  | notFound
  | alreadyRevoked
deriving DecidableEq

/-- `revokeLifecycleGrant`, with the generation it answers. -/
def revokeLifecycleGrant (store : GrantStore) (peerId revokedAt : String) :
    GrantStore × Except RevokeRefusal ℚ :=
  match readLifecycleGrant store peerId with
  | none => (store, .error .notFound)
  | some existing =>
    match existing.state with
    | .revoked => (store, .error .alreadyRevoked)
    | .revocationPending => (store, .ok existing.generation)
    | .active =>
      let updated := { existing with state := .revocationPending, revokedAt := some revokedAt }
      (writeGrant store peerId updated, .ok existing.generation)

inductive AcknowledgeRefusal where
  | notFound
  | notPending
deriving DecidableEq

def acknowledgeRevocation (store : GrantStore) (peerId : String) :
    GrantStore × Except AcknowledgeRefusal Unit :=
  match readLifecycleGrant store peerId with
  | none => (store, .error .notFound)
  | some existing =>
    if existing.state ≠ .revocationPending then (store, .error .notPending)
    else (writeGrant store peerId { existing with state := .revoked }, .ok ())

structure ReadmitRequest where
  peerId : String
  targetApproved : Bool
  scope : GrantScope
  requesterIdentityKey : String
  targetMachineId : String
  targetIdentityKey : String
deriving DecidableEq

inductive ReadmitRefusal where
  | notFound
  | notRevoked
  | approvalRequired
  | identityMismatch
deriving DecidableEq

def ReadmitRequest.grant (req : ReadmitRequest) (generation : ℚ) (token issuedAt : String) :
    LifecycleGrant where
  requesterMachineId := req.peerId
  requesterIdentityKey := req.requesterIdentityKey
  targetMachineId := req.targetMachineId
  targetIdentityKey := req.targetIdentityKey
  scope := req.scope
  generation := generation
  state := .active
  token := token
  issuedAt := issuedAt
  revokedAt := none

def readmitPeer (store : GrantStore) (req : ReadmitRequest) (token issuedAt : String) :
    GrantStore × Except ReadmitRefusal LifecycleGrant :=
  match readLifecycleGrant store req.peerId with
  | none => (store, .error .notFound)
  | some existing =>
    if existing.state ≠ .revoked then (store, .error .notRevoked)
    else if req.targetApproved = false then (store, .error .approvalRequired)
    else if existing.requesterIdentityKey ≠ req.requesterIdentityKey then
      (store, .error .identityMismatch)
    else
      let grant := req.grant (JsNumber.addOne existing.generation) token issuedAt
      (writeGrant store req.peerId grant, .ok grant)

inductive ValidateRefusal where
  | notFound
  | revoked
  | revocationPending
  | staleGeneration
  | wrongToken
deriving DecidableEq

def validateLifecycleGrant (store : GrantStore) (peerId presentedToken : String)
    (presentedGeneration : ℚ) : Except ValidateRefusal Unit :=
  match readLifecycleGrant store peerId with
  | none => .error .notFound
  | some stored =>
    if stored.state = .revoked then .error .revoked
    else if stored.state = .revocationPending then .error .revocationPending
    else if presentedGeneration ≠ stored.generation then .error .staleGeneration
    else if presentedToken ≠ stored.token then .error .wrongToken
    else .ok ()

/-! ## Lookups -/

def findGrantByToken (store : GrantStore) (presentedToken : String) : Option LifecycleGrant :=
  (readAllLifecycleGrants store).find? fun g ↦ g.token = presentedToken ∧ g.state = .active

def findControlGrantByTarget (store : GrantStore) (targetMachineId : String) :
    Option LifecycleGrant :=
  (readAllLifecycleGrants store).find? fun g ↦
    g.targetMachineId = targetMachineId ∧ g.scope = .control ∧ g.state = .active

variable {store : GrantStore}

theorem findGrantByToken_spec {token : String} {grant : LifecycleGrant}
    (h : findGrantByToken store token = some grant) :
    readLifecycleGrant store grant.requesterMachineId = some grant ∧ grant.token = token
      ∧ grant.state = .active := by
  have hmem := mem_readAllLifecycleGrants.mp (List.mem_of_find?_eq_some h)
  have hfound := List.find?_some h
  simp only [decide_eq_true_eq] at hfound
  exact ⟨hmem, hfound.1, hfound.2⟩

theorem validateLifecycleGrant_ok {peerId token : String} {generation : ℚ} :
    validateLifecycleGrant store peerId token generation = .ok ()
      ↔ ∃ grant, readLifecycleGrant store peerId = some grant ∧ grant.state = .active
        ∧ grant.generation = generation ∧ grant.token = token := by
  unfold validateLifecycleGrant
  cases readLifecycleGrant store peerId with
  | none => simp
  | some grant =>
    cases hstate : grant.state <;> simp [hstate]
    by_cases hgeneration : generation = grant.generation <;>
      by_cases htoken : token = grant.token <;> simp_all [eq_comm]

/-! ## The route matrix -/

def observePrefixes : List String :=
  ["/amicode/fleet/status", "/amicode/fleet/sessions", "/amicode/fleet/roster"]

def controlPrefixes : List String :=
  observePrefixes
    ++ ["/amicode/fleet/dispatch", "/amicode/fleet/solve", "/amicode/fleet/session-control",
      "/session", "/pty/"]

def lifecycleAdminPrefixes : List String :=
  ["/amicode/fleet/peer-token", "/amicode/fleet/revoke", "/amicode/fleet/readmit",
    "/amicode/fleet/lifecycle", "/amicode/fleet/control-approve", "/amicode/fleet/control-deny"]

/-- The last of the three tests of the source covers the two before it. -/
def matchesPrefixes (prefixes : List String) (pathname : String) : Bool :=
  prefixes.any fun p ↦
    pathname = p || (p ++ "/").toList.isPrefixOf pathname.toList
      || p.toList.isPrefixOf pathname.toList

/-- The capital of a letter, where that is an ASCII letter. -/
def asciiCapital (c : Char) : Char :=
  if c = 'ı' then 'I' else if c = 'ſ' then 'S' else c.toUpper

def isReadMethod (method : String) : Bool :=
  method.toList.map asciiCapital ∈ ["GET".toList, "HEAD".toList, "OPTIONS".toList]

/-- Is the scope authorised for the method and the path? -/
def evaluateRouteMatrix (scope : GrantScope) (method pathname : String) : Bool :=
  match scope with
  | .observe => matchesPrefixes observePrefixes pathname && isReadMethod method
  | .control => matchesPrefixes controlPrefixes pathname
  | .lifecycleAdmin => matchesPrefixes lifecycleAdminPrefixes pathname

inductive ScopeRefusal where
  | noActiveGrant
  | scopeDenied (scope : GrantScope)
deriving DecidableEq

/-- The scope a token carries for a request, or why it is refused. -/
def enforceScopeForRequest (store : GrantStore) (presentedToken method pathname : String) :
    Except ScopeRefusal GrantScope :=
  match findGrantByToken store presentedToken with
  | none => .error .noActiveGrant
  | some grant =>
    if evaluateRouteMatrix grant.scope method pathname = false then
      .error (.scopeDenied grant.scope)
    else .ok grant.scope

theorem enforceScopeForRequest_ok {token method pathname : String}
    {scope : GrantScope} (h : enforceScopeForRequest store token method pathname = .ok scope) :
    ∃ grant, findGrantByToken store token = some grant ∧ grant.scope = scope
      ∧ evaluateRouteMatrix scope method pathname = true := by
  unfold enforceScopeForRequest at h
  cases hfound : findGrantByToken store token with
  | none => simp [hfound] at h
  | some grant =>
    simp only [hfound] at h
    split at h
    · cases h
    · obtain rfl := Except.ok.inj h
      exact ⟨grant, rfl, rfl, Bool.eq_true_of_not_eq_false ‹_›⟩

end Amicode.Control
