import Amicode.Foundation.StepMachine
import Amicode.PeerToken.KeyedStore

/-!
# The registry of issued peer tokens

A machine records the tokens it has issued to its peers, one grant a machine id, and bars the ids it has
revoked from minting again (`fleet_issued_tokens.ts`). Grants and bars are two collections of one file.

A run starts with any file. The token a mint draws and the times are part of the operation; the log has
what each operation did.
-/

namespace Amicode.PeerToken

open JsObject StepMachine List

def ISSUED_TOKEN_STORE_VERSION : ℕ := 1

def ISSUED : String := "issued"

def REVOKED : String := "revoked"

def isMintBarred (machineId : String) (file : StoreFile) : Bool :=
  hasProperty (readKeyedCollection file REVOKED) machineId

inductive MintPeerTokenResult
  | ok (token machineId : String)
  | mintBarred
deriving DecidableEq

def mintPeerToken (file : StoreFile) (machineId token : String) (scope : Option String) (issuedAt : String) :
    StoreFile × MintPeerTokenResult :=
  if isMintBarred machineId file then (file, .mintBarred)
  else
    let entry : JsonValue := .obj [("token", .str token), ("scope", .str (scope.getD "full-session")),
      ("issued_at", .str issuedAt)]
    (upsertKeyedEntry file ISSUED machineId entry ISSUED_TOKEN_STORE_VERSION, .ok token machineId)

/-- The token of an entry: a text that is not empty. -/
def entryToken? (entry : JsonValue) : Option String :=
  match entry with
  | .obj members =>
    match own? members "token" with
    | some (.str t) => if t = "" then none else some t
    | _ => none
  | _ => none

def readIssuedTokens (file : StoreFile) : List String :=
  (values (readKeyedCollection file ISSUED)).filterMap entryToken?

def revokePeerToken (file : StoreFile) (machineId revokedAt : String) : StoreFile :=
  let file := deleteKeyedEntry file ISSUED machineId ISSUED_TOKEN_STORE_VERSION
  upsertKeyedEntry file REVOKED machineId (.obj [("revoked_at", .str revokedAt)]) ISSUED_TOKEN_STORE_VERSION

def deleteIssuedToken (file : StoreFile) (machineId : String) : StoreFile :=
  deleteKeyedEntry file ISSUED machineId ISSUED_TOKEN_STORE_VERSION

/-! ## Runs -/

inductive RegistryOp
  | mint (machineId token : String) (scope : Option String) (issuedAt : String)
  | revoke (machineId revokedAt : String)
  | delete (machineId : String)
deriving DecidableEq

def RegistryOp.machineId : RegistryOp → String
  | mint machineId _ _ _ => machineId
  | revoke machineId _ => machineId
  | delete machineId => machineId

inductive RegistryEvent
  | minted (machineId token : String)
  | refused (machineId : String)
  | revoked (machineId : String)
  | deleted (machineId : String)
deriving DecidableEq

/-- The event is about whether a machine holds a grant. -/
def RegistryEvent.isGrantOf (machineId : String) : RegistryEvent → Bool
  | minted id _ => id = machineId
  | refused _ => false
  | revoked id => id = machineId
  | deleted id => id = machineId

def perform (file : StoreFile) : RegistryOp → StoreFile × List RegistryEvent
  | .mint machineId token scope issuedAt =>
    match mintPeerToken file machineId token scope issuedAt with
    | (file, .ok token machineId) => (file, [.minted machineId token])
    | (file, .mintBarred) => (file, [.refused machineId])
  | .revoke machineId revokedAt => (revokePeerToken file machineId revokedAt, [.revoked machineId])
  | .delete machineId => (deleteIssuedToken file machineId, [.deleted machineId])

/-- The file and the log of what happened. -/
abbrev RegistryRun := StoreFile × List RegistryEvent

def registryStep (r : RegistryRun) (op : RegistryOp) : RegistryRun :=
  logged (fun file op ↦ (perform file op).1) (fun file op ↦ (perform file op).2) r op

def bar? (file : StoreFile) (machineId : String) : Option JsonValue :=
  own? (readKeyedCollection file REVOKED) machineId

def grant? (file : StoreFile) (machineId : String) : Option JsonValue :=
  own? (readKeyedCollection file ISSUED) machineId

/-- The machine id was on the bar when the run started, or has been revoked since. -/
def EverRevoked (start : StoreFile) (log : List RegistryEvent) (machineId : String) : Prop :=
  (bar? start machineId).isSome ∨ .revoked machineId ∈ log

/-- A drawn token is a text that has not been a token of the file, neither at the start nor since. -/
def FreshToken (start : StoreFile) (r : RegistryRun) : RegistryOp → Prop
  | .mint _ token _ _ => token ≠ "" ∧ token ∉ readIssuedTokens start ∧ ∀ id, .minted id token ∉ r.2
  | _ => True

/-- The law of one operation of a run. -/
structure PermanentBar (start : StoreFile) (r : RegistryRun) (op : RegistryOp) : Prop where
  mintable : ∀ machineId token scope issuedAt, op = .mint machineId token scope issuedAt →
    ¬ EverRevoked start r.2 machineId → (perform r.1 op).2 = [.minted machineId token]
  /-- One that was revoked is refused. -/
  barred : ∀ machineId token scope issuedAt, op = .mint machineId token scope issuedAt →
    EverRevoked start r.2 machineId → (perform r.1 op).2 = [.refused machineId]
  /-- The token of the latest mint is accepted, unless it was deleted or revoked since. -/
  granted : ∀ machineId token,
    latest (RegistryEvent.isGrantOf machineId) (registryStep r op).2 = some (.minted machineId token) →
      token ∈ readIssuedTokens (registryStep r op).1
  /-- No token of a revoked machine id is ever accepted again. -/
  expelled : ∀ machineId token, .revoked machineId ∈ (registryStep r op).2 →
    .minted machineId token ∈ (registryStep r op).2 → token ∉ readIssuedTokens (registryStep r op).1
  /-- Every other machine id keeps its grant and its bar. -/
  others : ∀ machineId, machineId ≠ op.machineId →
    grant? (registryStep r op).1 machineId = grant? r.1 machineId
      ∧ bar? (registryStep r op).1 machineId = bar? r.1 machineId
      ∧ isMintBarred machineId (registryStep r op).1 = isMintBarred machineId r.1
  /-- The tokens of every other machine id are accepted or not as before. -/
  tokens : ∀ machineId token, machineId ≠ op.machineId → .minted machineId token ∈ r.2 →
    (token ∈ readIssuedTokens (registryStep r op).1 ↔ token ∈ readIssuedTokens r.1)
  /-- What the registry does not know of the file stays. -/
  unknown : ∀ key, key ≠ "store_version" → key ≠ ISSUED → key ≠ REVOKED →
    own? (readDoc (registryStep r op).1) key = own? (readDoc r.1) key

/-- No machine id that names a property of every object is minted before it has been revoked. -/
def OrdinaryId (r : RegistryRun) : RegistryOp → Prop
  | .mint machineId _ _ _ => machineId ∈ inheritedNames → (bar? r.1 machineId).isSome
  | _ => True

/-! ## What an operation does -/

section Steps

variable {file : StoreFile} {machineId token issuedAt revokedAt key : String} {scope : Option String}
  {entry value : JsonValue}

theorem ISSUED_ne_REVOKED : ISSUED ≠ REVOKED := by decide

theorem ISSUED_ne_version : ISSUED ≠ "store_version" := by decide

theorem REVOKED_ne_version : REVOKED ≠ "store_version" := by decide

theorem isMintBarred_eq : isMintBarred machineId file
    = ((bar? file machineId).isSome || inheritedNames.contains machineId) := rfl

theorem mem_readIssuedTokens : token ∈ readIssuedTokens file ↔
    ∃ id entry, (id, entry) ∈ readKeyedCollection file ISSUED ∧ entryToken? entry = some token := by
  simp only [readIssuedTokens, values, mem_filterMap, List.mem_map, Prod.exists, exists_eq_right]
  constructor
  · rintro ⟨entry, ⟨id, hmem⟩, htoken⟩
    exact ⟨id, entry, hmem, htoken⟩
  · rintro ⟨id, entry, hmem, htoken⟩
    exact ⟨entry, ⟨id, hmem⟩, htoken⟩

theorem perform_mint_cases (file : StoreFile) (machineId token : String) (scope : Option String)
    (issuedAt : String) :
    isMintBarred machineId file = true ∧
      perform file (.mint machineId token scope issuedAt) = (file, [.refused machineId]) ∨
    isMintBarred machineId file = false ∧ ∃ entry, (token ≠ "" → entryToken? entry = some token) ∧
      (∀ t, entryToken? entry = some t → t = token) ∧
      perform file (.mint machineId token scope issuedAt) =
        (upsertKeyedEntry file ISSUED machineId entry ISSUED_TOKEN_STORE_VERSION, [.minted machineId token]) := by
  rcases hbarred : isMintBarred machineId file with _ | _
  · right
    refine ⟨rfl, .obj [("token", .str token), ("scope", .str (scope.getD "full-session")),
      ("issued_at", .str issuedAt)], ?_, ?_, ?_⟩
    · intro hne
      simp [entryToken?, own?, InsertionMap.Entries.get?, hne]
    · intro t ht
      simp only [entryToken?, own?, InsertionMap.Entries.get?, if_true] at ht
      split at ht
      · cases ht
      · exact (Option.some.inj ht).symm
    · simp [perform, mintPeerToken, hbarred]
  · left
    exact ⟨rfl, by simp [perform, mintPeerToken, hbarred]⟩

theorem bar?_perform (file : StoreFile) (op : RegistryOp) (id : String) :
    (bar? (perform file op).1 id).isSome = true ↔
      (bar? file id).isSome = true ∨ .revoked id ∈ (perform file op).2 := by
  rcases op with ⟨machineId, token, scope, issuedAt⟩ | ⟨machineId, revokedAt⟩ | machineId
  · rcases perform_mint_cases file machineId token scope issuedAt with ⟨-, hmint⟩ | ⟨-, entry, -, -, hmint⟩
    · simp [hmint]
    · rw [hmint, bar?, readKeyedCollection_upsertKeyedEntry_of_ne REVOKED_ne_version ISSUED_ne_REVOKED.symm]
      simp [bar?]
  · rw [perform, revokePeerToken, bar?, readKeyedCollection_upsertKeyedEntry,
      readKeyedCollection_deleteKeyedEntry_of_ne REVOKED_ne_version ISSUED_ne_REVOKED.symm, own?_assign]
    by_cases hid : machineId = id
    · simp [hid]
    · simp [hid, bar?, Ne.symm hid]
  · rw [perform, deleteIssuedToken, bar?,
      readKeyedCollection_deleteKeyedEntry_of_ne REVOKED_ne_version ISSUED_ne_REVOKED.symm]
    simp [bar?]

theorem collections_perform (file : StoreFile) (op : RegistryOp) :
    (readKeyedCollection (perform file op).1 ISSUED = readKeyedCollection file ISSUED ∨
      (∃ entry, readKeyedCollection (perform file op).1 ISSUED
        = assign (readKeyedCollection file ISSUED) op.machineId entry) ∨
      readKeyedCollection (perform file op).1 ISSUED = remove (readKeyedCollection file ISSUED) op.machineId) ∧
    (readKeyedCollection (perform file op).1 REVOKED = readKeyedCollection file REVOKED ∨
      ∃ entry, readKeyedCollection (perform file op).1 REVOKED
        = assign (readKeyedCollection file REVOKED) op.machineId entry) := by
  rcases op with ⟨machineId, token, scope, issuedAt⟩ | ⟨machineId, revokedAt⟩ | machineId
  · rcases perform_mint_cases file machineId token scope issuedAt with ⟨-, hmint⟩ | ⟨-, written, -, -, hmint⟩
    · rw [hmint]
      exact ⟨.inl rfl, .inl rfl⟩
    · rw [hmint, readKeyedCollection_upsertKeyedEntry,
        readKeyedCollection_upsertKeyedEntry_of_ne REVOKED_ne_version ISSUED_ne_REVOKED.symm]
      exact ⟨.inr (.inl ⟨written, rfl⟩), .inl rfl⟩
  · rw [perform, revokePeerToken, readKeyedCollection_upsertKeyedEntry,
      readKeyedCollection_upsertKeyedEntry_of_ne ISSUED_ne_version ISSUED_ne_REVOKED,
      readKeyedCollection_deleteKeyedEntry,
      readKeyedCollection_deleteKeyedEntry_of_ne REVOKED_ne_version ISSUED_ne_REVOKED.symm]
    exact ⟨.inr (.inr rfl), .inr ⟨_, rfl⟩⟩
  · rw [perform, deleteIssuedToken, readKeyedCollection_deleteKeyedEntry,
      readKeyedCollection_deleteKeyedEntry_of_ne REVOKED_ne_version ISSUED_ne_REVOKED.symm]
    exact ⟨.inr (.inr rfl), .inl rfl⟩

theorem mem_issued_perform_of_ne {op : RegistryOp} {id : String} (h : id ≠ op.machineId) :
    (id, entry) ∈ readKeyedCollection (perform file op).1 ISSUED ↔
      (id, entry) ∈ readKeyedCollection file ISSUED := by
  rcases (collections_perform file op).1 with heq | ⟨written, heq⟩ | heq
  · rw [heq]
  · rw [heq, mem_assign_of_ne h]
  · rw [heq, mem_remove]
    exact and_iff_left h

theorem grant?_perform_of_ne (file : StoreFile) (op : RegistryOp) {id : String} (h : id ≠ op.machineId) :
    grant? (perform file op).1 id = grant? file id := by
  rcases (collections_perform file op).1 with heq | ⟨written, heq⟩ | heq
  · rw [grant?, heq, grant?]
  · rw [grant?, heq, own?_assign_of_ne h.symm, grant?]
  · rw [grant?, heq, own?_remove_of_ne h.symm, grant?]

theorem bar?_perform_of_ne (file : StoreFile) {op : RegistryOp} {id : String} (h : id ≠ op.machineId) :
    bar? (perform file op).1 id = bar? file id := by
  rcases (collections_perform file op).2 with heq | ⟨written, heq⟩
  · rw [bar?, heq, bar?]
  · rw [bar?, heq, own?_assign_of_ne h.symm, bar?]

/-- The members of the document that are not the registry's stay as they are. -/
theorem own?_perform_of_ne {op : RegistryOp} (hversion : key ≠ "store_version") (hissued : key ≠ ISSUED)
    (hrevoked : key ≠ REVOKED) : own? (readDoc (perform file op).1) key = own? (readDoc file) key := by
  rcases op with ⟨machineId, token, scope, issuedAt⟩ | ⟨machineId, revokedAt⟩ | machineId
  · rcases perform_mint_cases file machineId token scope issuedAt with ⟨-, hmint⟩ | ⟨-, written, -, -, hmint⟩
    · rw [hmint]
    · rw [hmint, own?_upsertKeyedEntry hversion hissued]
  · rw [perform, revokePeerToken, own?_upsertKeyedEntry hversion hrevoked, own?_deleteKeyedEntry hversion hissued]
  · rw [perform, deleteIssuedToken, own?_deleteKeyedEntry hversion hissued]

end Steps

/-! ## The invariant -/

/-- The file has the bars and the grants that the log tells of. -/
structure Registered (start : StoreFile) (r : RegistryRun) : Prop where
  bars : ∀ id, (bar? r.1 id).isSome = true ↔ EverRevoked start r.2 id
  owned : ∀ id entry token, (id, entry) ∈ readKeyedCollection r.1 ISSUED → entryToken? entry = some token →
    token ∈ readIssuedTokens start ∨ .minted id token ∈ r.2
  fresh : ∀ id token, .minted id token ∈ r.2 → token ∉ readIssuedTokens start
  unique : ∀ id id' token, .minted id token ∈ r.2 → .minted id' token ∈ r.2 → id = id'
  expelled : ∀ id entry, .revoked id ∈ r.2 → (id, entry) ∉ readKeyedCollection r.1 ISSUED
  granted : ∀ id token, latest (RegistryEvent.isGrantOf id) r.2 = some (.minted id token) →
    ∃ entry, grant? r.1 id = some entry ∧ entryToken? entry = some token

theorem registered_init (start : StoreFile) : Registered start (start, []) where
  bars := by simp [EverRevoked]
  owned id entry token hmem htoken := .inl (mem_readIssuedTokens.mpr ⟨id, entry, hmem, htoken⟩)
  fresh := by simp
  unique := by simp
  expelled := by simp
  granted := by simp

section Preserved

variable {start : StoreFile} {r : RegistryRun}

section

variable (h : Registered start r)

include h

theorem Registered.mem_readIssuedTokens_iff {id token : String}
    (hminted : .minted id token ∈ r.2) : token ∈ readIssuedTokens r.1 ↔
      ∃ entry, (id, entry) ∈ readKeyedCollection r.1 ISSUED ∧ entryToken? entry = some token := by
  rw [mem_readIssuedTokens]
  constructor
  · rintro ⟨id', entry, hmem, htoken⟩
    have hid : id' = id := by
      rcases h.owned id' entry token hmem htoken with hstart | hminted'
      · exact absurd hstart (h.fresh id token hminted)
      · exact h.unique id' id token hminted' hminted
    exact ⟨entry, hid ▸ hmem, htoken⟩
  · rintro ⟨entry, hmem, htoken⟩
    exact ⟨id, entry, hmem, htoken⟩

theorem Registered.refused (machineId : String) : Registered start (r.1, r.2 ++ [.refused machineId]) where
  bars id := by simpa [EverRevoked] using h.bars id
  owned id entry token hmem htoken := by simpa using h.owned id entry token hmem htoken
  fresh id token hmem := h.fresh id token (by simpa using hmem)
  unique id id' token hmem hmem' := h.unique id id' token (by simpa using hmem) (by simpa using hmem')
  expelled id entry hmem := h.expelled id entry (by simpa using hmem)
  granted id token hlatest := by
    rw [latest_concat_of_neg _ rfl] at hlatest
    exact h.granted id token hlatest

theorem Registered.minted {machineId token : String} {entry : JsonValue}
    (hbar : ¬ EverRevoked start r.2 machineId) (hstart : token ∉ readIssuedTokens start)
    (hlog : ∀ id, .minted id token ∉ r.2) (hentry : entryToken? entry = some token) :
    Registered start (upsertKeyedEntry r.1 ISSUED machineId entry ISSUED_TOKEN_STORE_VERSION,
      r.2 ++ [.minted machineId token]) := by
  have hbars (id : String) : bar? (upsertKeyedEntry r.1 ISSUED machineId entry ISSUED_TOKEN_STORE_VERSION) id
      = bar? r.1 id := by
    rw [bar?, readKeyedCollection_upsertKeyedEntry_of_ne REVOKED_ne_version ISSUED_ne_REVOKED.symm, bar?]
  refine ⟨?_, ?_, ?_, ?_, ?_, ?_⟩
  · intro id
    rw [hbars, h.bars]
    simp [EverRevoked]
  · intro id entry' token' hmem htoken
    rw [readKeyedCollection_upsertKeyedEntry] at hmem
    rcases mem_assign hmem with ⟨rfl, rfl⟩ | hmem
    · have heq : token = token' := Option.some.inj (hentry.symm.trans htoken)
      exact .inr (by simp [heq])
    · rcases h.owned id entry' token' hmem htoken with hold | hold
      · exact .inl hold
      · exact .inr (mem_append_left _ hold)
  · intro id token' hmem
    rcases mem_append.mp hmem with hmem | hmem
    · exact h.fresh id token' hmem
    · obtain ⟨-, rfl⟩ := RegistryEvent.minted.inj (mem_singleton.mp hmem)
      exact hstart
  · -- a token of the log is not the one just drawn
    intro id id' token' hmem hmem'
    rcases mem_append.mp hmem with hold | hnew <;> rcases mem_append.mp hmem' with hold' | hnew'
    · exact h.unique id id' token' hold hold'
    · obtain ⟨-, rfl⟩ := RegistryEvent.minted.inj (mem_singleton.mp hnew')
      exact absurd hold (hlog id)
    · obtain ⟨-, rfl⟩ := RegistryEvent.minted.inj (mem_singleton.mp hnew)
      exact absurd hold' (hlog id')
    · obtain ⟨rfl, -⟩ := RegistryEvent.minted.inj (mem_singleton.mp hnew)
      obtain ⟨rfl, -⟩ := RegistryEvent.minted.inj (mem_singleton.mp hnew')
      rfl
  · intro id entry' hrevoked hmem
    have hrevoked' : RegistryEvent.revoked id ∈ r.2 := by simpa using hrevoked
    rw [readKeyedCollection_upsertKeyedEntry] at hmem
    rcases mem_assign hmem with ⟨rfl, -⟩ | hmem
    · exact hbar (.inr hrevoked')
    · exact h.expelled id entry' hrevoked' hmem
  · intro id token' hlatest
    rw [grant?, readKeyedCollection_upsertKeyedEntry]
    by_cases hid : machineId = id
    · subst hid
      rw [latest_concat_of_pos _ (by simp [RegistryEvent.isGrantOf])] at hlatest
      obtain ⟨-, rfl⟩ := RegistryEvent.minted.inj (Option.some.inj hlatest)
      exact ⟨entry, own?_assign_self, hentry⟩
    · rw [latest_concat_of_neg _ (by simpa [RegistryEvent.isGrantOf] using hid)] at hlatest
      rw [own?_assign_of_ne hid]
      exact h.granted id token' hlatest

theorem Registered.removed {op : RegistryOp} {event : RegistryEvent} (hlog : (perform r.1 op).2 = [event])
    (hevent : event = .revoked op.machineId ∨ event = .deleted op.machineId)
    (hgone : ∀ entry, (op.machineId, entry) ∉ readKeyedCollection (perform r.1 op).1 ISSUED) :
    Registered start (registryStep r op) := by
  have hissued {id : String} {entry : JsonValue}
      (hmem : (id, entry) ∈ readKeyedCollection (perform r.1 op).1 ISSUED) :
      (id, entry) ∈ readKeyedCollection r.1 ISSUED := by
    refine (mem_issued_perform_of_ne ?_).mp hmem
    rintro rfl
    exact hgone entry hmem
  have hminted {id token : String} (hmem : .minted id token ∈ r.2 ++ [event]) : .minted id token ∈ r.2 := by
    rcases hevent with rfl | rfl <;> simpa using hmem
  rw [registryStep, logged, hlog]
  refine ⟨?_, ?_, ?_, ?_, ?_, ?_⟩
  · intro id
    rw [bar?_perform, h.bars, hlog]
    simp [EverRevoked, or_assoc]
  · intro id entry token hmem htoken
    exact (h.owned id entry token (hissued hmem) htoken).imp_right (mem_append_left _)
  · exact fun id token hmem ↦ h.fresh id token (hminted hmem)
  · exact fun id id' token hmem hmem' ↦ h.unique id id' token (hminted hmem) (hminted hmem')
  · intro id entry hrevoked hmem
    rcases mem_append.mp hrevoked with hrevoked | hrevoked
    · exact h.expelled id entry hrevoked (hissued hmem)
    · rcases hevent with rfl | rfl
      · obtain rfl := RegistryEvent.revoked.inj (mem_singleton.mp hrevoked)
        exact hgone entry hmem
      · simp at hrevoked
  · intro id token hlatest
    have hof : event.isGrantOf id = decide (op.machineId = id) := by
      rcases hevent with rfl | rfl <;> rfl
    by_cases hid : op.machineId = id
    · rw [latest_concat_of_pos _ (by simpa [hof] using hid)] at hlatest
      rcases hevent with rfl | rfl <;> cases hlatest
    · rw [latest_concat_of_neg _ (by simpa [hof] using hid)] at hlatest
      rw [grant?_perform_of_ne r.1 op (Ne.symm hid)]
      exact h.granted id token hlatest

theorem registered_step {op : RegistryOp} (hfresh : FreshToken start r op) :
    Registered start (registryStep r op) := by
  rcases op with ⟨machineId, token, scope, issuedAt⟩ | ⟨machineId, revokedAt⟩ | machineId
  · obtain ⟨hne, hstart, hlog⟩ := hfresh
    rcases perform_mint_cases r.1 machineId token scope issuedAt with
      ⟨-, hmint⟩ | ⟨hbarred, entry, hentry, -, hmint⟩
    · simpa [registryStep, logged, hmint] using h.refused machineId
    · rw [isMintBarred_eq, Bool.or_eq_false_iff] at hbarred
      have hbar : ¬ EverRevoked start r.2 machineId := by simp [← h.bars, hbarred.1]
      simpa [registryStep, logged, hmint] using h.minted hbar hstart hlog (hentry hne)
  · refine h.removed rfl (.inl rfl) fun entry hmem ↦ ?_
    rw [perform, revokePeerToken, readKeyedCollection_upsertKeyedEntry_of_ne ISSUED_ne_version ISSUED_ne_REVOKED,
      readKeyedCollection_deleteKeyedEntry, mem_remove] at hmem
    exact hmem.2 rfl
  · refine h.removed rfl (.inr rfl) fun entry hmem ↦ ?_
    rw [perform, deleteIssuedToken, readKeyedCollection_deleteKeyedEntry, mem_remove] at hmem
    exact hmem.2 rfl

end

end Preserved

/-! ## The bar is permanent -/

theorem permanentBar_iff_ordinaryId {start : StoreFile} {r : RegistryRun} (h : Registered start r)
    {op : RegistryOp} (hfresh : FreshToken start r op) : PermanentBar start r op ↔ OrdinaryId r op := by
  have hafter := registered_step h hfresh
  constructor
  · intro hlaw
    rcases op with ⟨machineId, token, scope, issuedAt⟩ | _ | _ <;> try trivial
    intro hinherited
    by_contra hbar
    -- the name is no bar of the file, but a property of every object
    have hminted := hlaw.mintable machineId token scope issuedAt rfl (by rwa [← h.bars])
    have hbarred : isMintBarred machineId r.1 = true := by
      rw [isMintBarred_eq, Bool.or_eq_true]
      exact .inr (by simpa using hinherited)
    rcases perform_mint_cases r.1 machineId token scope issuedAt with ⟨-, hmint⟩ | ⟨hnot, -⟩
    · simp [hmint] at hminted
    · simp [hbarred] at hnot
  · intro hordinary
    refine ⟨?_, ?_, ?_, ?_, ?_, ?_, ?_⟩
    · rintro machineId token scope issuedAt rfl hnever
      have hbar : (bar? r.1 machineId).isSome = false := by
        rw [← Bool.not_eq_true, h.bars]
        exact hnever
      have hname : machineId ∉ inheritedNames := fun hinherited ↦ by simp [hordinary hinherited] at hbar
      rcases perform_mint_cases r.1 machineId token scope issuedAt with ⟨hbarred, -⟩ | ⟨-, entry, -, -, hmint⟩
      · simp [isMintBarred_eq, hbar, hname] at hbarred
      · rw [hmint]
    · rintro machineId token scope issuedAt rfl hever
      have hbar := (h.bars machineId).mpr hever
      rcases perform_mint_cases r.1 machineId token scope issuedAt with ⟨-, hmint⟩ | ⟨hbarred, -⟩
      · rw [hmint]
      · simp [isMintBarred_eq, hbar] at hbarred
    · intro machineId token hlatest
      obtain ⟨entry, hgrant, htoken⟩ := hafter.granted machineId token hlatest
      exact mem_readIssuedTokens.mpr ⟨machineId, entry, mem_of_own? hgrant, htoken⟩
    · intro machineId token hrevoked hminted hmem
      obtain ⟨entry, hentry, -⟩ := (hafter.mem_readIssuedTokens_iff hminted).mp hmem
      exact hafter.expelled machineId entry hrevoked hentry
    · intro machineId hne
      have hbar : bar? (registryStep r op).1 machineId = bar? r.1 machineId := bar?_perform_of_ne r.1 hne
      exact ⟨grant?_perform_of_ne r.1 op hne, hbar, by rw [isMintBarred_eq, hbar, isMintBarred_eq]⟩
    · intro machineId token hne hminted
      have hminted' : .minted machineId token ∈ (registryStep r op).2 := mem_append_left _ hminted
      rw [hafter.mem_readIssuedTokens_iff hminted', h.mem_readIssuedTokens_iff hminted]
      exact exists_congr fun entry ↦ and_congr_left' (mem_issued_perform_of_ne hne)
    · intro key hversion hissued hrevoked
      exact own?_perform_of_ne hversion hissued hrevoked

/-- **Revocation is a permanent bar, and minting works before it, exactly in the runs that never mint for a
machine id that names a property of every object before it has been revoked.** -/
theorem permanentBar_iff (start : StoreFile) (ops : List RegistryOp)
    (hfresh : Guarded registryStep (FreshToken start) (start, []) ops) :
    Guarded registryStep (PermanentBar start) (start, []) ops ↔
      Guarded registryStep OrdinaryId (start, []) ops := by
  have hboth : Guarded registryStep (fun r op ↦ FreshToken start r op ∧ PermanentBar start r op) (start, []) ops ↔
      Guarded registryStep (fun r op ↦ FreshToken start r op ∧ OrdinaryId r op) (start, []) ops :=
    guarded_iff_of_invariant (I := Registered start)
      (fun _ _ h ↦ and_congr_right fun hfresh ↦ permanentBar_iff_ordinaryId h hfresh)
      (fun _ _ h hstep ↦ registered_step h hstep.1) (registered_init start)
  constructor
  · intro h
    exact (hboth.mp (hfresh.and h)).imp fun _ _ ↦ And.right
  · intro h
    exact (hboth.mpr (hfresh.and h)).imp fun _ _ ↦ And.right

/-- A peer is minted a token, revoked, and refused another. -/
theorem permanentBar_revoked :
    let ops : List RegistryOp := [.mint "peer" "T1" none "2026-01-01", .revoke "peer" "2026-01-02",
      .mint "peer" "T2" none "2026-01-03"]
    Guarded registryStep (FreshToken .absent) (.absent, []) ops ∧
      (Guarded registryStep (PermanentBar .absent) (.absent, []) ops ↔
        Guarded registryStep OrdinaryId (.absent, []) ops) := by
  intro ops
  have hfresh : Guarded registryStep (FreshToken .absent) (.absent, []) ops := by
    refine ⟨⟨by decide, by decide, by simp⟩, trivial, ⟨by decide, by decide, ?_⟩, trivial⟩
    intro id hmem
    have hlog : (registryStep (registryStep (.absent, []) (.mint "peer" "T1" none "2026-01-01"))
        (.revoke "peer" "2026-01-02")).2 = [.minted "peer" "T1", .revoked "peer"] := by decide +kernel
    rw [hlog] at hmem
    simp at hmem
  exact ⟨hfresh, permanentBar_iff .absent ops hfresh⟩

/-- A machine whose id is `constructor` is refused its first token. -/
theorem not_mintable_constructor : ¬ ∀ (start : StoreFile) (ops : List RegistryOp),
    Guarded registryStep (FreshToken start) (start, []) ops →
      Guarded registryStep (PermanentBar start) (start, []) ops := by
  intro h
  have hlaw := (h .absent [.mint "constructor" "T1" none "2026-01-01"]
    ⟨⟨by decide, by decide, by simp⟩, trivial⟩).1
  have hminted := hlaw.mintable "constructor" "T1" none "2026-01-01" rfl (by
    rintro (hbar | hmem)
    · exact absurd hbar (by decide)
    · simp at hmem)
  exact absurd hminted (by decide +kernel)

end Amicode.PeerToken
