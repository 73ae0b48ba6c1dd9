import Amicode.Foundation.JsObject

/-!
# The document of the reachability cache

The cache keeps for each provider the fingerprint of its credential, when it was last probed and last
attempted, and a row for each of its models. A claim, a failed probe, the merge of a probe's answer and a
demotion each rewrite the document (`amicode_service/model_reachability.ts`).

Providers and models are members of plain objects. Where an identifier names something that every object
inherits, the code finds a function and works on that, of which a file keeps nothing; and a member called
`__proto__` is never one of a file.
-/

namespace Amicode.Reachability

open JsObject

inductive ProbeStatus
  | ok
  | denied
  | unavailable
  | invalid
  | rateLimited
  | error
deriving DecidableEq

/-- One row of a probe's answer. -/
structure ProbeResult where
  model : String
  status : ProbeStatus
  latency_ms : ℤ
  reason : Option String
  credential_fp : Option String
  checked_at : ℤ
deriving DecidableEq

inductive Source
  | probe
  | demoted
deriving DecidableEq

structure CachedModel where
  status : ProbeStatus
  reason : Option String
  latency_ms : Option ℤ
  checked_at : ℤ
  credential_fp : Option String
  source : Source
  first_ok_at : Option ℤ
deriving DecidableEq

structure CachedProvider where
  credential_fp : Option String
  last_probe_at : Option ℤ
  last_attempt_at : Option ℤ
  last_error : Option String
  models : List (String × CachedModel)
deriving DecidableEq

def emptyProvider : CachedProvider := ⟨none, none, none, none, []⟩

structure CacheDoc where
  providers : List (String × CachedProvider)
deriving DecidableEq

def emptyDoc : CacheDoc := ⟨[]⟩

/-- `object[key] = value`, as far as a file keeps it. -/
def put {ν : Type*} (members : List (String × ν)) (key : String) (value : ν) : List (String × ν) :=
  if key = "__proto__" then members else assign members key value

/-- `doc.providers[provider] ?? emptyProvider()`, unless that is something inherited. -/
def CacheDoc.lookup? (doc : CacheDoc) (provider : String) : Option CachedProvider :=
  match own? doc.providers provider with
  | some p => some p
  | none => if inheritedNames.contains provider then none else some emptyProvider

/-- Rewrite the entry of a provider, unless the rewriting refuses. -/
def CacheDoc.rewrite (doc : CacheDoc) (provider : String) (f : CachedProvider → Option CachedProvider) : CacheDoc :=
  match (doc.lookup? provider).bind f with
  | none => doc
  | some p => { doc with providers := put doc.providers provider p }

/-! ## The claim -/

structure ClaimResult where
  claimed : List String
  rate_limited : List (String × ℤ)

/-- The scheduler's filter: never probed, or not since the given time. -/
def isDue (dailyMs : Option ℤ) (now : ℤ) (p : CachedProvider) : Bool :=
  match dailyMs, p.last_probe_at with
  | some dailyMs, some probed => dailyMs ≤ now - probed
  | _, _ => true

def claimProvider (floorMs : ℤ) (dailyMs : Option ℤ) (now : ℤ) (acc : CacheDoc × ClaimResult) (provider : String) :
    CacheDoc × ClaimResult :=
  match acc.1.lookup? provider with
  | none =>
    -- of a function, the last probe is not a number and the last attempt is not there
    if dailyMs.isSome then acc else (acc.1, { acc.2 with claimed := acc.2.claimed ++ [provider] })
  | some p =>
    if isDue dailyMs now p then
      match p.last_attempt_at.filter fun attempt ↦ now - attempt < floorMs with
      | some attempt =>
        (acc.1, { acc.2 with rate_limited := acc.2.rate_limited ++ [(provider, floorMs - (now - attempt))] })
      | none =>
        ({ acc.1 with providers := put acc.1.providers provider { p with last_attempt_at := some now } },
          { acc.2 with claimed := acc.2.claimed ++ [provider] })
    else acc

def claim (floorMs : ℤ) (dailyMs : Option ℤ) (now : ℤ) (providers : List String) (doc : CacheDoc) :
    CacheDoc × ClaimResult :=
  providers.foldl (claimProvider floorMs dailyMs now) (doc, ⟨[], []⟩)

/-! ## Probes and demotions -/

/-- The rows of a probe's batches, if none of them failed. -/
def collect : List (Option (List ProbeResult)) → Option (List ProbeResult)
  | [] => some []
  | none :: _ => none
  | some rows :: batches => (collect batches).map (rows ++ ·)

def mergeRow (baseline : Bool) (models : List (String × CachedModel)) (r : ProbeResult) :
    List (String × CachedModel) :=
  put models r.model
    { status := r.status
      reason := r.reason
      latency_ms := some r.latency_ms
      checked_at := r.checked_at
      credential_fp := r.credential_fp
      source := .probe
      first_ok_at := ((own? models r.model).bind CachedModel.first_ok_at).or
        (if r.status = .ok then some (if baseline then 0 else r.checked_at) else none) }

/-- The fingerprint an answer is taken to be under. -/
def answerFp (p : CachedProvider) : List ProbeResult → Option String
  | [] => p.credential_fp
  | r :: _ => r.credential_fp

/-- Merge an answer. That of a subset probe is refused if the credential has changed. -/
def CachedProvider.merge (isPartial : Bool) (now : ℤ) (rows : List ProbeResult) (p : CachedProvider) :
    Option CachedProvider :=
  let fp := answerFp p rows
  if isPartial && p.last_probe_at.isSome && fp ≠ p.credential_fp then none
  else
    let baseline := p.last_probe_at.isNone || fp ≠ p.credential_fp
    some
      { p with
        credential_fp := fp
        models := rows.foldl (mergeRow baseline) (if fp ≠ p.credential_fp then [] else p.models)
        last_probe_at := if isPartial then p.last_probe_at else some now
        last_error := none }

def CachedProvider.fail (p : CachedProvider) : Option CachedProvider :=
  some { p with last_error := some "probe_failed" }

def CachedProvider.demote (model : String) (status : ProbeStatus) (reason : Option String) (now : ℤ)
    (p : CachedProvider) : Option CachedProvider :=
  some
    { p with
      models := put p.models model
        { status
          reason
          latency_ms := none
          checked_at := now
          credential_fp := p.credential_fp
          source := .demoted
          first_ok_at := (own? p.models model).bind CachedModel.first_ok_at } }

/-! ## Updates -/

/-- What the code does to the document under its lock. -/
inductive Request
  | claim (providers : List String) (dailyMs : Option ℤ)
  | fail (provider : String)
  | merge (provider : String) (rows : List ProbeResult) (isPartial : Bool)
  | demote (provider model : String) (status : ProbeStatus) (reason : Option String)
deriving DecidableEq

/-- A request with the time that was read before the lock was asked for. -/
structure Update where
  request : Request
  now : ℤ
deriving DecidableEq

def Update.apply (floorMs : ℤ) (u : Update) (doc : CacheDoc) : CacheDoc :=
  match u.request with
  | .claim providers dailyMs => (claim floorMs dailyMs u.now providers doc).1
  | .fail provider => doc.rewrite provider CachedProvider.fail
  | .merge provider rows isPartial => doc.rewrite provider (CachedProvider.merge isPartial u.now rows)
  | .demote provider model status reason => doc.rewrite provider (CachedProvider.demote model status reason u.now)

/-- The providers that an update claims. -/
def Update.claimed (floorMs : ℤ) (u : Update) (doc : CacheDoc) : List String :=
  match u.request with
  | .claim providers dailyMs => (claim floorMs dailyMs u.now providers doc).2.claimed
  | _ => []

def Request.providers : Request → List String
  | .claim providers _ => providers
  | .fail provider | .merge provider _ _ | .demote provider _ _ _ => [provider]

/-! ## Rows -/

structure ReachabilityRow where
  provider : String
  model : String
  /-- Unchecked, if there is none. -/
  status : Option ProbeStatus
  reason : Option String
  latency_ms : Option ℤ
  checked_at : Option ℤ
  credential_fp : Option String
  source : Option Source
  first_ok_at : Option ℤ
deriving DecidableEq

/-- The row that is cached under the provider's current fingerprint. -/
def CacheDoc.cached? (doc : CacheDoc) (provider model : String) : Option CachedModel :=
  (own? doc.providers provider).bind fun p ↦
    (own? p.models model).filter fun m ↦ m.credential_fp = p.credential_fp

def rowOf (doc : CacheDoc) (provider model : String) : ReachabilityRow :=
  match doc.cached? provider model with
  | none => ⟨provider, model, none, none, none, none, none, none, none⟩
  | some m =>
    { provider
      model
      status := some m.status
      reason := m.reason
      latency_ms := m.latency_ms
      checked_at := some m.checked_at
      credential_fp := m.credential_fp
      source := some m.source
      first_ok_at := m.first_ok_at }

/-! ## What an update does to an entry -/

section

variable {ν : Type*} {members : List (String × ν)} {key k : String} {value : ν} {doc : CacheDoc}
  {provider : String} {p : CachedProvider} {f : CachedProvider → Option CachedProvider}

theorem own?_put_self (h : key ≠ "__proto__") : own? (put members key value) key = some value := by
  rw [put, if_neg h, own?_assign_self]

theorem own?_put_of_ne (h : key ≠ k) : own? (put members key value) k = own? members k := by
  unfold put
  split_ifs
  · rfl
  · exact own?_assign_of_ne h

theorem own?_put_proto : own? (put members key value) "__proto__" = own? members "__proto__" := by
  by_cases h : key = "__proto__"
  · rw [put, if_pos h]
  · exact own?_put_of_ne h

theorem ne_proto_of_not_inherited (h : key ∉ inheritedNames) : key ≠ "__proto__" := by
  rintro rfl
  exact h (by decide)

/-- The entry of a provider, whatever it is called, that no object inherits. -/
theorem lookup?_of_not_inherited (h : provider ∉ inheritedNames) :
    doc.lookup? provider = some ((own? doc.providers provider).getD emptyProvider) := by
  unfold CacheDoc.lookup?
  rcases own? doc.providers provider with _ | p
  · rw [if_neg (by simpa using h)]
    rfl
  · rfl

theorem own?_rewrite_of_ne (h : provider ≠ k) : own? (doc.rewrite provider f).providers k = own? doc.providers k := by
  unfold CacheDoc.rewrite
  split
  · rfl
  · exact own?_put_of_ne h

theorem own?_rewrite_self (h : provider ∉ inheritedNames) :
    own? (doc.rewrite provider f).providers provider =
      (f ((own? doc.providers provider).getD emptyProvider)).or (own? doc.providers provider) := by
  unfold CacheDoc.rewrite
  rw [lookup?_of_not_inherited h, Option.bind_some]
  split
  · next hf => rw [hf, Option.none_or]
  · next p hf => rw [hf, Option.some_or, own?_put_self (ne_proto_of_not_inherited h)]

end

end Amicode.Reachability

/-!
# The lock of the reachability cache

The shards of a machine share one cache file. Each update of it is a read, a change and a write under a lock,
which is a directory beside the file: to create it is to take it. A shard that finds the directory reads who
owns it, and moves it aside if its owner runs no more and it is old, or if it is very old; after that it tries
again, like the shard that found nobody to wait for. A shard that is done removes the directory
(`amicode_service/model_reachability.ts`).

A party is one update at a time of one shard; those of a shard share its process. Creating the directory,
writing and reading its owner, moving it aside, reading and writing the document and removing the directory are
steps of their own. A process may end at any of them, and its identifier may be taken by another program.
-/

namespace Amicode.Reachability

structure CacheConfig where
  floorMs : ℕ
  staleMs : ℕ
  lockTimeoutMs : ℕ
  /-- What the file of an earlier version has, which is read while there is no file. -/
  legacy : Option CacheDoc

structure Owner where
  pid : ℕ
  ts : ℕ
deriving DecidableEq

structure LockDir (W : Type*) where
  /-- The party that created it; none of an earlier run is left. -/
  holder : Option W
  owner : Option Owner
  mtime : ℕ

/-- Where a party is. The deadline is for taking the lock. -/
inductive Phase
  | idle
  | locking (u : Update) (deadline : ℕ)
  /-- It has created the directory. -/
  | owning (u : Update)
  /-- The directory was there already. -/
  | contended (u : Update) (deadline : ℕ)
  /-- It could not read when the lock was taken. -/
  | stating (u : Update) (deadline : ℕ)
  /-- It has decided to move the directory aside. -/
  | reclaiming (u : Update) (deadline : ℕ)
  | reading (u : Update)
  /-- It has read the document. -/
  | writing (u : Update) (doc : CacheDoc)
  | removing
  | dead

/-- It is between taking the lock and removing it. -/
def Phase.isInside : Phase → Bool
  | .owning _ | .reading _ | .writing _ _ | .removing => true
  | _ => false

structure Attempt where
  provider : String
  at_ms : ℤ

structure CacheState (W : Type*) where
  clock : ℕ
  lock : Option (LockDir W)
  file : Option CacheDoc
  /-- The identifiers of the processes that run. -/
  running : ℕ → Bool
  phases : W → Phase
  /-- The updates that have been written, in this order. -/
  completed : List Update
  /-- The probe attempts that have been claimed, in this order. -/
  attempts : List Attempt

/-- No update has begun. An earlier run may have left a lock. -/
def CacheState.start (W : Type*) (file : Option CacheDoc) (left : Option (LockDir W)) (clock : ℕ)
    (running : ℕ → Bool) : CacheState W where
  clock
  lock := left.map fun lock ↦ { lock with holder := none }
  file
  running
  phases _ := .idle
  completed := []
  attempts := []

inductive CacheOp (W : Type*)
  | tick (ms : ℕ)
  /-- A party begins an update. -/
  | start (w : W) (request : Request)
  /-- A party takes its next step; what it does to the file system may fail. -/
  | step (w : W) (fails : Bool)
  /-- A process ends. -/
  | exit (pid : ℕ)
  /-- Another program takes the identifier. -/
  | spawn (pid : ℕ)

variable {W : Type*} [DecidableEq W]

def CacheState.setPhase (s : CacheState W) (w : W) (phase : Phase) : CacheState W :=
  { s with phases := Function.update s.phases w phase }

/-- Write the owner into the directory, if it is there. -/
def CacheState.setOwner (s : CacheState W) (owner : Owner) : CacheState W :=
  { s with lock := s.lock.map fun lock ↦ { lock with owner := some owner } }

/-- Write what an update makes of the document it has read. -/
def CacheState.write (cfg : CacheConfig) (s : CacheState W) (u : Update) (doc : CacheDoc) : CacheState W :=
  { s with
    file := some (u.apply cfg.floorMs doc)
    completed := s.completed ++ [u]
    attempts := s.attempts ++ (u.claimed cfg.floorMs doc).map fun provider ↦ ⟨provider, u.now⟩ }

/-- What a reader finds. -/
def CacheState.document (cfg : CacheConfig) (s : CacheState W) : CacheDoc := (s.file.or cfg.legacy).getD emptyDoc

/-- Whether to move a lock of this time aside. -/
def isStale (cfg : CacheConfig) (s : CacheState W) (ts : ℕ) (pid : Option ℕ) : Bool :=
  (cfg.staleMs < s.clock - ts && !pid.any s.running) || cfg.staleMs * 10 < s.clock - ts

/-- Decide by the time of the lock and its owner. -/
def judge (cfg : CacheConfig) (s : CacheState W) (u : Update) (deadline : ℕ) (ts : Option ℕ)
    (pid : Option ℕ) : Phase :=
  if ts.any fun ts ↦ isStale cfg s ts pid then .reclaiming u deadline
  else if deadline < s.clock then .idle
  else .locking u deadline

/-- The next step of a party. -/
def advance (cfg : CacheConfig) (pid : W → ℕ) (s : CacheState W) (w : W) (fails : Bool) : CacheState W :=
  match s.phases w with
  | .locking u deadline =>
    match s.lock with
    | some _ => s.setPhase w (.contended u deadline)
    | none =>
      if fails then s.setPhase w .idle
      else { s with lock := some ⟨some w, none, s.clock⟩ }.setPhase w (.owning u)
  | .owning u =>
    if fails then s.setPhase w (.reading u)
    else (s.setOwner ⟨pid w, s.clock⟩).setPhase w (.reading u)
  | .contended u deadline =>
    match if fails then none else s.lock.bind LockDir.owner with
    | some owner => s.setPhase w (judge cfg s u deadline (some owner.ts) (some owner.pid))
    | none => s.setPhase w (.stating u deadline)
  | .stating u deadline =>
    s.setPhase w (judge cfg s u deadline (if fails then none else s.lock.map LockDir.mtime) none)
  | .reclaiming u deadline =>
    if fails then s.setPhase w (.locking u deadline) else { s with lock := none }.setPhase w (.locking u deadline)
  | .reading u => s.setPhase w (.writing u (if fails then emptyDoc else s.document cfg))
  | .writing u doc =>
    if fails then s.setPhase w .removing else (s.write cfg u doc).setPhase w .removing
  | .removing => if fails then s.setPhase w .idle else { s with lock := none }.setPhase w .idle
  | .idle | .dead => s

def cacheStep (cfg : CacheConfig) (pid : W → ℕ) (s : CacheState W) : CacheOp W → CacheState W
  | .tick ms => { s with clock := s.clock + ms }
  | .start w request =>
    match s.phases w with
    | .idle => s.setPhase w (.locking ⟨request, s.clock⟩ (s.clock + cfg.lockTimeoutMs))
    | _ => s
  | .step w fails => advance cfg pid s w fails
  | .exit p =>
    { s with
      running := Function.update s.running p false
      phases := fun w ↦ if pid w = p then .dead else s.phases w }
  | .spawn p => { s with running := Function.update s.running p true }

end Amicode.Reachability
