import Amicode.Control.Grant

/-!
# Control requests

A shared peer asks for control of a target with a request, which the target's authority approves or
denies (`fleet_control_request.ts`). A request is a stored record of its own, beside the grants;
approving it issues a control grant.

The record is kept under the two machine ids joined by `::`, and the requester is read back from that
key, as what stands before its first `::`. A requester is `Separated` if this gives the requester
again; then the key determines both ids.
-/

namespace Amicode.Control

inductive ControlRequestStatus where
  | pending
  | approved
  | denied
deriving DecidableEq

def ControlRequestStatus.name : ControlRequestStatus → String
  | .pending => "pending"
  | .approved => "approved"
  | .denied => "denied"

/-- The statuses a record may have. -/
def ControlRequestStatus.vocabulary : List ControlRequestStatus := [.pending, .approved, .denied]

def ControlRequestStatus.ofName? (s : String) : Option ControlRequestStatus :=
  vocabulary.find? (·.name = s)

@[simp] theorem ControlRequestStatus.ofName?_name (status : ControlRequestStatus) :
    ofName? status.name = some status := by
  cases status <;> decide

structure ControlRequestRecord where
  requesterMachineId : String
  requesterIdentityKey : String
  targetMachineId : String
  targetIdentityKey : String
  status : ControlRequestStatus
  requestedAt : String
  resolvedAt : Option String
deriving DecidableEq

structure ControlRequest where
  requesterMachineId : String
  requesterIdentityKey : String
  targetMachineId : String
  targetIdentityKey : String
deriving DecidableEq

/-- The collection `control_requests`. -/
abbrev RequestStore := InsertionMap String StoredEntry

/-! ## Keys -/

def requestKey (requesterMachineId targetMachineId : String) : String :=
  requesterMachineId ++ "::" ++ targetMachineId

/-- What stands before the first `::`, or everything. -/
def beforeSeparator : List Char → List Char
  | [] => []
  | c :: rest => if [':', ':'].isPrefixOf (c :: rest) then [] else c :: beforeSeparator rest

def requesterOfKey (key : String) : String := String.ofList (beforeSeparator key.toList)

/-- The requester is read back from its keys. -/
def Separated (requesterMachineId : String) : Prop :=
  beforeSeparator (requesterMachineId.toList ++ [':', ':']) = requesterMachineId.toList

instance (requesterMachineId : String) : Decidable (Separated requesterMachineId) :=
  inferInstanceAs (Decidable (_ = _))

theorem beforeSeparator_append {requester : List Char} (target : List Char)
    (h : beforeSeparator (requester ++ [':', ':']) = requester) :
    beforeSeparator (requester ++ ':' :: ':' :: target) = requester := by
  induction requester with
  | nil => rfl
  | cons c requester ih =>
    rw [List.cons_append, beforeSeparator] at h ⊢
    split at h
    · cases h
    · rename_i hstart
      have hstart' : ¬ [':', ':'].isPrefixOf (c :: (requester ++ ':' :: ':' :: target)) := by
        cases requester <;> simpa using hstart
      rw [if_neg hstart', ih (List.cons.inj h).2]

theorem requesterOfKey_requestKey {r : String} (h : Separated r) (t : String) :
    requesterOfKey (requestKey r t) = r := by
  have hkey : (requestKey r t).toList = r.toList ++ ':' :: ':' :: t.toList := by
    simp [requestKey]
  rw [requesterOfKey, hkey, beforeSeparator_append _ h, String.ofList_toList]

theorem requestKey_inj {r t r' t' : String} (hr : Separated r) (hr' : Separated r')
    (h : requestKey r t = requestKey r' t') : r = r' ∧ t = t' := by
  have hsame : r = r' := by
    rw [← requesterOfKey_requestKey hr t, h, requesterOfKey_requestKey hr' t']
  subst hsame
  refine ⟨rfl, ?_⟩
  have hlist := congrArg String.toList h
  exact String.toList_injective (by simpa [requestKey] using hlist)

/-! ## Records -/

def parseStored (key : String) : Option StoredEntry → Option ControlRequestRecord
  | some (.record r) =>
    let requesterIdentityKey := fieldText r "requester_identity_key"
    let targetMachineId := fieldText r "target_machine_id"
    let targetIdentityKey := fieldText r "target_identity_key"
    let requestedAt := fieldText r "requested_at"
    if requesterIdentityKey = "" ∨ targetMachineId = "" ∨ requestedAt = "" then none
    else match ControlRequestStatus.ofName? (fieldText r "status") with
      | some status =>
        some
          { requesterMachineId := requesterOfKey key, requesterIdentityKey, targetMachineId,
            targetIdentityKey, status, requestedAt,
            resolvedAt := nonempty? (fieldText r "resolved_at") }
      | none => none
  | _ => none

def readControlRequest (store : RequestStore) (requesterMachineId targetMachineId : String) :
    Option ControlRequestRecord :=
  parseStored (requestKey requesterMachineId targetMachineId)
    (store.get? (requestKey requesterMachineId targetMachineId))

/-- `StoredRequestRecord`: the record of a request, with `resolved_at` where there is a time. -/
def storedRequestRecord (record : ControlRequestRecord) : InsertionMap String StoredField :=
  InsertionMap.setAll ∅ (
    [("requester_identity_key", .str record.requesterIdentityKey),
      ("target_machine_id", .str record.targetMachineId),
      ("target_identity_key", .str record.targetIdentityKey),
      ("status", .str record.status.name),
      ("requested_at", .str record.requestedAt)]
    ++ ((record.resolvedAt.bind nonempty?).map fun t ↦ ("resolved_at", .str t)).toList)

/-- `writeRequest`: the record goes under the key of its own ids. -/
def writeRequest (store : RequestStore) (record : ControlRequestRecord) : RequestStore :=
  store.set (requestKey record.requesterMachineId record.targetMachineId)
    (.record (storedRequestRecord record))

def ControlRequestRecord.normalized (record : ControlRequestRecord) : ControlRequestRecord :=
  { record with resolvedAt := record.resolvedAt.bind nonempty? }

section Read

variable {store : RequestStore} {record record' : ControlRequestRecord} {r t : String}

@[simp] theorem fieldText_storedRequestRecord (record : ControlRequestRecord) :
    fieldText (storedRequestRecord record) "requester_identity_key" = record.requesterIdentityKey
      ∧ fieldText (storedRequestRecord record) "target_machine_id" = record.targetMachineId
      ∧ fieldText (storedRequestRecord record) "target_identity_key" = record.targetIdentityKey
      ∧ fieldText (storedRequestRecord record) "status" = record.status.name
      ∧ fieldText (storedRequestRecord record) "requested_at" = record.requestedAt
      ∧ nonempty? (fieldText (storedRequestRecord record) "resolved_at")
        = record.resolvedAt.bind nonempty? := by
  unfold storedRequestRecord fieldText
  cases h : record.resolvedAt.bind nonempty? with
  | none => simp [InsertionMap.setAll, InsertionMap.get?_set, nonempty?]
  | some t =>
    obtain ⟨s, -, hs⟩ := Option.bind_eq_some_iff.mp h
    obtain ⟨rfl, ht⟩ := nonempty?_eq_some hs
    simp [InsertionMap.setAll, InsertionMap.get?_set, nonempty?, ht]

theorem eq_of_read_writeRequest (hr : Separated record.requesterMachineId)
    (h : readControlRequest (writeRequest store record) record.requesterMachineId
      record.targetMachineId = some record') :
    record' = record.normalized := by
  simp only [readControlRequest, writeRequest, InsertionMap.get?_set_self, parseStored,
    fieldText_storedRequestRecord, ControlRequestStatus.ofName?_name,
    requesterOfKey_requestKey hr] at h
  split at h
  · cases h
  · exact (Option.some.inj h).symm

theorem read_writeRequest_of_ne (hr : Separated record.requesterMachineId) (hr' : Separated r)
    (hne : (record.requesterMachineId, record.targetMachineId) ≠ (r, t)) :
    readControlRequest (writeRequest store record) r t = readControlRequest store r t := by
  have hkey : requestKey record.requesterMachineId record.targetMachineId ≠ requestKey r t :=
    fun h ↦ hne (Prod.ext_iff.mpr (requestKey_inj hr hr' h))
  rw [readControlRequest, writeRequest, InsertionMap.get?_set_of_ne _ _ hkey]
  rfl

theorem requesterMachineId_of_readControlRequest (hr : Separated r)
    (h : readControlRequest store r t = some record) : record.requesterMachineId = r := by
  rw [← requesterOfKey_requestKey hr t]
  unfold readControlRequest parseStored at h
  split at h
  · dsimp only at h
    split at h
    · cases h
    split at h
    · rw [← Option.some.inj h]
    · cases h
  · cases h

end Read

/-! ## Operations -/

structure ControlStores where
  requests : RequestStore
  grants : GrantStore

inductive SubmitStatus where
  | pending
  | alreadyGranted
deriving DecidableEq

def ControlRequest.record (req : ControlRequest) (now : String) : ControlRequestRecord where
  requesterMachineId := req.requesterMachineId
  requesterIdentityKey := req.requesterIdentityKey
  targetMachineId := req.targetMachineId
  targetIdentityKey := req.targetIdentityKey
  status := .pending
  requestedAt := now
  resolvedAt := none

def ControlRequestRecord.resolved (existing : ControlRequestRecord) (status : ControlRequestStatus)
    (now : String) : ControlRequestRecord :=
  { existing with status, resolvedAt := some now }

/-- The requester's own grant, if it is the control grant found for the target. -/
def ownControlGrant? (grants : GrantStore) (requesterMachineId targetMachineId : String) :
    Option LifecycleGrant :=
  (findControlGrantByTarget grants targetMachineId).filter
    (·.requesterMachineId = requesterMachineId)

def submitControlRequest (stores : ControlStores) (req : ControlRequest) (now : String) :
    ControlStores × SubmitStatus :=
  if (ownControlGrant? stores.grants req.requesterMachineId req.targetMachineId).isSome then
    (stores, .alreadyGranted)
  else if ∃ existing ∈ readControlRequest stores.requests req.requesterMachineId req.targetMachineId,
      existing.status = .pending then
    (stores, .pending)
  else
    ({ stores with requests := writeRequest stores.requests (req.record now) }, .pending)

inductive ApproveRefusal where
  | notFound
  | grantFailed
deriving DecidableEq

/-- The grant that an approval asks for. -/
def ControlRequestRecord.grantRequest (existing : ControlRequestRecord)
    (requesterMachineId targetMachineId : String) : LifecycleGrantRequest where
  requesterMachineId := requesterMachineId
  requesterIdentityKey := existing.requesterIdentityKey
  targetMachineId := targetMachineId
  targetIdentityKey := existing.targetIdentityKey
  scope := .control

/-- What an approval answers: a grant, and whether the request was approved already. -/
structure Approval where
  grant : LifecycleGrant
  alreadyApproved : Bool
deriving DecidableEq

def mintControlGrant (stores : ControlStores) (existing : ControlRequestRecord)
    (requesterMachineId targetMachineId token issuedAt now : String) :
    ControlStores × Except ApproveRefusal Approval :=
  match issueLifecycleGrant stores.grants (existing.grantRequest requesterMachineId targetMachineId)
      token issuedAt with
  | (_, .error _) => (stores, .error .grantFailed)
  | (grants, .ok grant) =>
    let updated := existing.resolved .approved now
    ({ requests := writeRequest stores.requests updated, grants }, .ok ⟨grant, false⟩)

def approveControlRequest (stores : ControlStores)
    (requesterMachineId targetMachineId token issuedAt now : String) :
    ControlStores × Except ApproveRefusal Approval :=
  match readControlRequest stores.requests requesterMachineId targetMachineId with
  | none => (stores, .error .notFound)
  | some existing =>
    if existing.status = .approved then
      match ownControlGrant? stores.grants requesterMachineId targetMachineId with
      | some grant => (stores, .ok ⟨grant, true⟩)
      | none =>
        -- approved, but the grant is gone
        mintControlGrant stores existing requesterMachineId targetMachineId token issuedAt now
    else
      -- a denied request comes this way as well as a pending one
      mintControlGrant stores existing requesterMachineId targetMachineId token issuedAt now

inductive DenyRefusal where
  | notFound
deriving DecidableEq

def denyControlRequest (stores : ControlStores) (requesterMachineId targetMachineId now : String) :
    ControlStores × Except DenyRefusal Unit :=
  match readControlRequest stores.requests requesterMachineId targetMachineId with
  | none => (stores, .error .notFound)
  | some existing =>
    if existing.status = .denied then (stores, .ok ())
    else
      let updated := existing.resolved .denied now
      ({ stores with requests := writeRequest stores.requests updated }, .ok ())

end Amicode.Control
