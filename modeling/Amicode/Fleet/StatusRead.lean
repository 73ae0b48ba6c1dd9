import Amicode.Foundation.JsNumber
import Amicode.Foundation.JsObject
import Mathlib.Data.List.Sort

/-!
# The session status of the fleet

A client that reconnects asks for the status of the sessions it shows (`fleet_session_status.ts`). Each session is
asked for in the directory that the owner map has for it, at the machine that owns it, with one query for a
directory. What the answer of a session's own directory does not list is idle; what no query covers is named as
unresolved; and a session whose directory did not answer is left out.

The first half is the plan. A fold over the requested sessions keeps it sound (`PlanSound`): a session is in one
query or unresolved, never both, and a query is for the directory of its sessions. The second half puts the answers
together, in the order of their arrival. With that each session is in exactly one of three states (`StatusLaw`).

What a query gets, and when, is a parameter. A text has no unpaired surrogates, so that every directory can be
written in an address.
-/

namespace Amicode.FleetStatus

open JsObject JsText List

def FLEET_STATUS_MAX_IDS : ℕ := 64

def FLEET_STATUS_MAX_QUERIES : ℕ := 16

/-! ## Resolution -/

/-- The requested sessions: trimmed, none empty, none twice. -/
def parseStatusIds (raw : Option String) : List String :=
  ((splitOn [','] (raw.getD "").toList).map fun segment ↦ String.ofList (trim segment)).foldl
    (fun out id ↦ if id = "" ∨ id ∈ out then out else out ++ [id]) []

/-- What is asked of the owner map. A lookup that throws finds nothing. -/
structure StatusOwnerLookup where
  resolveOwner : String → Option String
  resolveDirectory : String → Option String

def truthy (text : Option String) : Option String := text.filter (· ≠ "")

structure StatusQuery where
  owner : String
  directory : String
  sessionIds : List String
deriving DecidableEq

inductive UnresolvedReason where
  | unknown
  | noDirectory
  | overCap
deriving DecidableEq

structure UnresolvedEntry where
  id : String
  reason : UnresolvedReason
deriving DecidableEq

structure StatusPlan where
  queries : List StatusQuery
  unresolved : List UnresolvedEntry
deriving DecidableEq

structure StatusCaps where
  maxIds : ℕ := FLEET_STATUS_MAX_IDS
  maxQueries : ℕ := FLEET_STATUS_MAX_QUERIES

/-- `JSON.stringify([owner, directory])`. -/
def queryKey (owner directory : String) : List Char :=
  '[' :: (jsonString owner.toList ++ ',' :: (jsonString directory.toList ++ [']']))

def StatusQuery.key (q : StatusQuery) : List Char := queryKey q.owner q.directory

/-- The query with one more session, if it is the one of the key. -/
def StatusQuery.cover (k : List Char) (id : String) (q : StatusQuery) : StatusQuery :=
  if q.key = k then { q with sessionIds := q.sessionIds ++ [id] } else q

/-- Put a session into the query of a directory, which is planned if there is room. The queries are kept under their
keys as they are planned. -/
def StatusPlan.cover (plan : StatusPlan) (caps : StatusCaps) (id owner directory : String) : StatusPlan :=
  let k := queryKey owner directory
  if plan.queries.any (·.key = k) then { plan with queries := plan.queries.map (.cover k id) }
  else if caps.maxQueries ≤ plan.queries.length then
    { plan with unresolved := plan.unresolved ++ [⟨id, .overCap⟩] }
  else { plan with queries := plan.queries ++ [⟨owner, directory, [id]⟩] }

/-- One requested session, with its index. -/
def planStep (ownerMap : StatusOwnerLookup) (caps : StatusCaps) (plan : StatusPlan) (e : String × ℕ) : StatusPlan :=
  if caps.maxIds ≤ e.2 then { plan with unresolved := plan.unresolved ++ [⟨e.1, .overCap⟩] }
  else
    match truthy (ownerMap.resolveOwner e.1) with
    | none => { plan with unresolved := plan.unresolved ++ [⟨e.1, .unknown⟩] }
    | some owner =>
      match truthy (ownerMap.resolveDirectory e.1) with
      | none => { plan with unresolved := plan.unresolved ++ [⟨e.1, .noDirectory⟩] }
      | some directory => plan.cover caps e.1 owner directory

def planFleetSessionStatus (ids : List String) (ownerMap : StatusOwnerLookup) (caps : StatusCaps) : StatusPlan :=
  ids.zipIdx.foldl (planStep ownerMap caps) ⟨[], []⟩

/-! ## Sources -/

inductive OwnerAbsenceReason where
  | noUpstream
  | credentialMissing
  | untrusted
  | identityConflict
deriving DecidableEq

/-- How the engine of this machine is reached. A getter that throws has an error's text. -/
structure ProjectionSourceOptions where
  url : Except String (Option String)
  password : Option String

structure FleetPeerSource where
  machineId : String
  trusted : Option Bool
  url : Except String (Option String)
  token : Option String

structure BlockedPeer where
  machineId : String
  reason : Option OwnerAbsenceReason
  detail : Option String

structure FleetStatusSourceOptions where
  localMachineId : String
  engine : ProjectionSourceOptions
  peers : List FleetPeerSource
  blockedPeers : List BlockedPeer

/-- The credential that goes with a query: the engine's password or the peer's own token. -/
inductive AuthHeader where
  | server (password : String)
  | peer (token : String)
deriving DecidableEq

inductive ResolvedSource where
  | reached (origin : String) (authHeader : Option AuthHeader)
  | absent (reason : OwnerAbsenceReason) (detail : Option String)
deriving DecidableEq

/-- How an owner is reached; a throwing getter has the text of its error. -/
def resolveStatusSource (owner : String) (opts : FleetStatusSourceOptions) : Except String ResolvedSource :=
  if owner = opts.localMachineId then
    opts.engine.url.map fun url ↦ match truthy url with
      | none => .absent .noUpstream none
      | some origin => .reached origin (opts.engine.password.map .server)
  else
    match opts.blockedPeers.find? (·.machineId = owner) with
    | some blocked => .ok (.absent (blocked.reason.getD .identityConflict) blocked.detail)
    | none =>
      match opts.peers.find? (·.machineId = owner) with
      | none => .ok (.absent .noUpstream none)
      | some peer =>
        if peer.trusted = some false then .ok (.absent .untrusted none)
        else peer.url.map fun url ↦ match truthy url, truthy peer.token with
          | none, _ => .absent .noUpstream none
          | some _, none => .absent .credentialMissing none
          | some origin, some token => .reached origin (some (.peer token))

def safeResolveSource (owner : String) (opts : FleetStatusSourceOptions) : ResolvedSource :=
  match resolveStatusSource owner opts with
  | .ok source => source
  | .error detail => .absent .noUpstream (some detail)

/-! ## Answers -/

inductive SessionStatus where
  | idle
  | busy
  | retry (attempt : ℚ) (message : String) (next : ℚ) (action : Option (List (String × JsonValue)))

/-- The value of a number that is whole and not negative. -/
def nonNegativeInt? : Option JsonValue → Option ℚ
  | some (.num text) => (JsNumber.ofText? text.toList).filter fun x ↦ x.den = 1 ∧ 0 ≤ x
  | _ => none

/-- The status of an entry of the engine's answer, if it is one. -/
def validateSessionStatus : JsonValue → Option SessionStatus
  | .obj entry =>
    match own? entry "type" with
    | some (.str "idle") => some .idle
    | some (.str "busy") => some .busy
    | some (.str "retry") =>
      match nonNegativeInt? (own? entry "attempt"), own? entry "message", nonNegativeInt? (own? entry "next"),
        own? entry "action" with
      | some attempt, some (.str message), some next, none => some (.retry attempt message next none)
      | some attempt, some (.str message), some next, some (.obj action) =>
        some (.retry attempt message next (some action))
      | _, _, _, _ => none
    | _ => none
  | _ => none

inductive DirectoryFailureReason where
  | unauthorized
  | fetchFailed
  | timeout
  | malformed
deriving DecidableEq

inductive QueryOutcome where
  | covered (answer : InsertionMap String SessionStatus)
  | failed (reason : DirectoryFailureReason) (detail : String)

/-- The body of an answer: a JSON value, or no readable one. -/
inductive DirectoryBody where
  | json (value : JsonValue)
  | unread (aborted : Bool) (error : String)

/-- What a query gets: the deadline of the whole read comes first, or an error, or an answer. -/
inductive DirectoryReply where
  | deadline
  | thrown (aborted : Bool) (error : String)
  | answered (status : ℕ) (body : DirectoryBody)

/-- The answer of a directory, unless an entry is no status. -/
def readEntries : List (String × JsonValue) → InsertionMap String SessionStatus → QueryOutcome
  | [], answer => .covered answer
  | (id, entry) :: rest, answer =>
    match validateSessionStatus entry with
    | none => .failed .malformed s!"unrecognized status entry for {id}"
    | some status => readEntries rest (answer.set id status)

def queryDirectory : DirectoryReply → QueryOutcome
  | .deadline => .failed .timeout "overall deadline"
  | .thrown true _ => .failed .timeout "query timeout"
  | .thrown false error => .failed .fetchFailed error
  | .answered status body =>
    if status = 401 ∨ status = 403 then .failed .unauthorized s!"HTTP {toString status}"
    else if status ≠ 200 then .failed .fetchFailed s!"HTTP {toString status}"
    else
      match body with
      | .unread true _ => .failed .timeout "query timeout"
      | .unread false error => .failed .fetchFailed s!"HTTP 200 with a non-JSON body ({error})"
      | .json (.obj members) => readEntries members ∅
      | .json _ => .failed .malformed "status answer is not an object"

/-! ## The fan-out -/

inductive FleetStatusReason where
  | owner (reason : OwnerAbsenceReason)
  | directory (reason : DirectoryFailureReason)
deriving DecidableEq

structure DirectoryRecord where
  ok : Bool
  reason : Option FleetStatusReason := none
  detail : Option String := none
  sessions : ℕ
deriving DecidableEq

structure SourceRecord where
  present : Bool
  reason : Option OwnerAbsenceReason := none
  detail : Option String := none
  directories : List (String × DirectoryRecord) := []
deriving DecidableEq

/-- `object[key] = value` for an object as the value: under the name of the prototype it is no member. -/
def setOwn {ν : Type} (members : List (String × ν)) (key : String) (value : ν) : List (String × ν) :=
  if key = "__proto__" then members else assign members key value

/-- What the read has put together so far. -/
structure Assembly where
  statuses : InsertionMap String SessionStatus
  sources : List (String × SourceRecord)

def ownerRecords (opts : FleetStatusSourceOptions) (queries : List StatusQuery) : List (String × SourceRecord) :=
  queries.foldl (fun sources q ↦
    if (own? sources q.owner).isSome then sources
    else setOwn sources q.owner (match safeResolveSource q.owner opts with
      | .reached _ _ => { present := true }
      | .absent reason detail => { present := false, reason := some reason, detail })) []

def enterDirectory (sources : List (String × SourceRecord)) (q : StatusQuery) (entry : DirectoryRecord) :
    List (String × SourceRecord) :=
  sources.map fun (owner, source) ↦
    if owner = q.owner then (owner, { source with directories := setOwn source.directories q.directory entry })
    else (owner, source)

/-- The sessions of a query that was not made. -/
def Assembly.refuse (opts : FleetStatusSourceOptions) (a : Assembly) (q : StatusQuery) : Assembly :=
  match safeResolveSource q.owner opts with
  | .reached _ _ => a
  | .absent reason _ => { a with
      sources := enterDirectory a.sources q
        { ok := false, reason := some (.owner reason), sessions := q.sessionIds.length } }

/-- The status of a session by the answer of its own directory, which a session that is idle may be absent from. -/
def statusIn (answer : InsertionMap String SessionStatus) (id : String) : SessionStatus :=
  (answer.get? id).getD .idle

def Assembly.record (a : Assembly) (q : StatusQuery) : QueryOutcome → Assembly
  | .failed reason detail => { a with
      sources := enterDirectory a.sources q
        { ok := false, reason := some (.directory reason), detail := some detail, sessions := q.sessionIds.length } }
  | .covered answer => {
      statuses := a.statuses.setAll (q.sessionIds.map fun id ↦ (id, statusIn answer id))
      sources := enterDirectory a.sources q { ok := true, sessions := q.sessionIds.length } }

/-- What the queries of a read get, and when. -/
structure FanOutOptions where
  sources : FleetStatusSourceOptions
  reply : StatusQuery → DirectoryReply
  arrival : StatusQuery → ℕ

/-- Is the query made? -/
def FanOutOptions.asks (opts : FanOutOptions) (q : StatusQuery) : Bool :=
  match safeResolveSource q.owner opts.sources with
  | .reached _ _ => true
  | .absent _ _ => false

def upstreamQueries (plan : StatusPlan) (opts : FanOutOptions) : List StatusQuery := plan.queries.filter opts.asks

structure FleetSessionStatusResponse where
  statuses : InsertionMap String SessionStatus
  sources : List (String × SourceRecord)
  unresolved : List UnresolvedEntry

def fanOutFleetSessionStatus (plan : StatusPlan) (opts : FanOutOptions) : FleetSessionStatusResponse :=
  let refused := (plan.queries.filter fun q ↦ !opts.asks q).foldl (Assembly.refuse opts.sources)
    ⟨∅, ownerRecords opts.sources plan.queries⟩
  let assembled := ((upstreamQueries plan opts).insertionSort (opts.arrival · ≤ opts.arrival ·)).foldl
    (fun a q ↦ a.record q (queryDirectory (opts.reply q))) refused
  ⟨assembled.statuses, assembled.sources, plan.unresolved⟩

def readFleetSessionStatus (rawIds : Option String) (ownerMap : StatusOwnerLookup) (opts : FanOutOptions) :
    FleetSessionStatusResponse :=
  if parseStatusIds rawIds = [] then ⟨∅, [], []⟩
  else fanOutFleetSessionStatus (planFleetSessionStatus (parseStatusIds rawIds) ownerMap {}) opts

/-! ## The plan is sound -/

section Plan

variable {ownerMap : StatusOwnerLookup} {caps : StatusCaps} {plan : StatusPlan}

/-- A query's directory is that of the session. -/
def ResolvesTo (ownerMap : StatusOwnerLookup) (id : String) (q : StatusQuery) : Prop :=
  ownerMap.resolveOwner id = some q.owner ∧ ownerMap.resolveDirectory id = some q.directory

/-- What a plan has of the sessions that it was made for. -/
structure PlanSound (ownerMap : StatusOwnerLookup) (caps : StatusCaps) (ids : List String) (plan : StatusPlan) :
    Prop where
  keys : (plan.queries.map StatusQuery.key).Nodup
  bounded : plan.queries.length ≤ caps.maxQueries
  resolves : ∀ q ∈ plan.queries, ∀ id ∈ q.sessionIds, ResolvesTo ownerMap id q
  mem_iff : ∀ id, id ∈ ids ↔ (∃ q ∈ plan.queries, id ∈ q.sessionIds) ∨ ∃ e ∈ plan.unresolved, e.id = id
  /-- It is not both. -/
  apart : ∀ q ∈ plan.queries, ∀ id ∈ q.sessionIds, ∀ e ∈ plan.unresolved, e.id ≠ id

theorem queryKey_inj {owner directory owner' directory' : String}
    (h : queryKey owner directory = queryKey owner' directory') : owner = owner' ∧ directory = directory' := by
  obtain ⟨howner, hrest⟩ := jsonString_append_inj (List.cons.inj h).2
  obtain ⟨hdirectory, -⟩ := jsonString_append_inj (List.cons.inj hrest).2
  exact ⟨String.toList_inj.mp howner, String.toList_inj.mp hdirectory⟩

variable {ids : List String}

theorem PlanSound.unresolve (h : PlanSound ownerMap caps ids plan) {id : String} (hnew : id ∉ ids)
    (reason : UnresolvedReason) :
    PlanSound ownerMap caps (ids ++ [id]) { plan with unresolved := plan.unresolved ++ [⟨id, reason⟩] } where
  keys := h.keys
  bounded := h.bounded
  resolves := h.resolves
  mem_iff id' := by
    rw [mem_append, mem_singleton, h.mem_iff, or_assoc]
    refine or_congr_right ?_
    simp only [mem_append, mem_singleton]
    constructor
    · rintro (⟨e, he, rfl⟩ | rfl)
      · exact ⟨e, .inl he, rfl⟩
      · exact ⟨_, .inr rfl, rfl⟩
    · rintro ⟨e, he | rfl, rfl⟩
      · exact .inl ⟨e, he, rfl⟩
      · exact .inr rfl
  apart q hq id' hid' e he := by
    rcases mem_append.mp he with he | he
    · exact h.apart q hq id' hid' e he
    · rw [mem_singleton.mp he]
      rintro rfl
      exact hnew ((h.mem_iff _).mpr (.inl ⟨q, hq, hid'⟩))

theorem StatusQuery.place_cover (k : List Char) (id : String) (q : StatusQuery) :
    (q.cover k id).owner = q.owner ∧ (q.cover k id).directory = q.directory := by
  rw [cover]
  split_ifs
  · exact ⟨rfl, rfl⟩
  · exact ⟨rfl, rfl⟩

theorem StatusQuery.mem_cover {k : List Char} {id id' : String} {q : StatusQuery} :
    id' ∈ (q.cover k id).sessionIds ↔ id' ∈ q.sessionIds ∨ (q.key = k ∧ id' = id) := by
  rw [cover]
  split_ifs with hkey
  · simp [hkey]
  · simp [hkey]

theorem PlanSound.join (h : PlanSound ownerMap caps ids plan) {id owner directory : String}
    (hnew : id ∉ ids) (howner : ownerMap.resolveOwner id = some owner)
    (hdirectory : ownerMap.resolveDirectory id = some directory)
    (hplanned : ∃ q ∈ plan.queries, q.key = queryKey owner directory) :
    PlanSound ownerMap caps (ids ++ [id])
      { plan with queries := plan.queries.map (.cover (queryKey owner directory) id) } := by
  refine ⟨?_, ?_, ?_, ?_, ?_⟩
  · rw [List.map_map]
    have hkeys : plan.queries.map (StatusQuery.key ∘ .cover (queryKey owner directory) id)
        = plan.queries.map StatusQuery.key :=
      map_congr_left fun q _ ↦ congrArg₂ queryKey (q.place_cover _ _).1 (q.place_cover _ _).2
    rw [hkeys]
    exact h.keys
  · rw [length_map]
    exact h.bounded
  · rintro q' hq' id' hid'
    obtain ⟨q, hq, rfl⟩ := List.mem_map.mp hq'
    rw [ResolvesTo, (q.place_cover _ _).1, (q.place_cover _ _).2]
    rcases StatusQuery.mem_cover.mp hid' with hold | ⟨hkey, rfl⟩
    · exact h.resolves q hq id' hold
    · obtain ⟨rfl, rfl⟩ := queryKey_inj hkey
      exact ⟨howner, hdirectory⟩
  · intro id'
    rw [mem_append, mem_singleton, h.mem_iff, or_right_comm]
    refine or_congr_left ⟨?_, ?_⟩
    · rintro (⟨q, hq, hid'⟩ | rfl)
      · exact ⟨_, List.mem_map_of_mem hq, StatusQuery.mem_cover.mpr (.inl hid')⟩
      · obtain ⟨q, hq, hkey⟩ := hplanned
        exact ⟨_, List.mem_map_of_mem hq, StatusQuery.mem_cover.mpr (.inr ⟨hkey, rfl⟩)⟩
    · rintro ⟨q', hq', hid'⟩
      obtain ⟨q, hq, rfl⟩ := List.mem_map.mp hq'
      exact (StatusQuery.mem_cover.mp hid').imp (fun hold ↦ ⟨q, hq, hold⟩) And.right
  · rintro q' hq' id' hid' e he
    obtain ⟨q, hq, rfl⟩ := List.mem_map.mp hq'
    rcases StatusQuery.mem_cover.mp hid' with hold | ⟨-, rfl⟩
    · exact h.apart q hq id' hold e he
    · rintro rfl
      exact hnew ((h.mem_iff _).mpr (.inr ⟨e, he, rfl⟩))

theorem PlanSound.ask (h : PlanSound ownerMap caps ids plan) {id owner directory : String}
    (hnew : id ∉ ids) (howner : ownerMap.resolveOwner id = some owner)
    (hdirectory : ownerMap.resolveDirectory id = some directory)
    (hplanned : ¬ ∃ q ∈ plan.queries, q.key = queryKey owner directory)
    (hroom : plan.queries.length < caps.maxQueries) :
    PlanSound ownerMap caps (ids ++ [id]) { plan with queries := plan.queries ++ [⟨owner, directory, [id]⟩] } where
  keys := by
    rw [map_append, nodup_append]
    refine ⟨h.keys, nodup_singleton _, fun k hk k' hk' ↦ ?_⟩
    obtain ⟨q, hq, rfl⟩ := List.mem_map.mp hk
    rw [map_singleton, mem_singleton] at hk'
    exact fun heq ↦ hplanned ⟨q, hq, heq.trans hk'⟩
  bounded := by
    rw [length_append]
    exact hroom
  resolves q hq id' hid' := by
    rcases mem_append.mp hq with hold | hq
    · exact h.resolves q hold id' hid'
    · obtain rfl := mem_singleton.mp hq
      obtain rfl := mem_singleton.mp hid'
      exact ⟨howner, hdirectory⟩
  mem_iff id' := by
    rw [mem_append, mem_singleton, h.mem_iff, or_right_comm]
    refine or_congr_left ⟨?_, ?_⟩
    · rintro (⟨q, hq, hid'⟩ | rfl)
      · exact ⟨q, mem_append_left _ hq, hid'⟩
      · exact ⟨_, mem_append_right _ (mem_singleton_self _), mem_singleton_self _⟩
    · rintro ⟨q, hq, hid'⟩
      rcases mem_append.mp hq with hold | hq
      · exact .inl ⟨q, hold, hid'⟩
      · obtain rfl := mem_singleton.mp hq
        exact .inr (mem_singleton.mp hid')
  apart q hq id' hid' e he := by
    rcases mem_append.mp hq with hold | hq
    · exact h.apart q hold id' hid' e he
    · obtain rfl := mem_singleton.mp hq
      obtain rfl := mem_singleton.mp hid'
      rintro rfl
      exact hnew ((h.mem_iff _).mpr (.inr ⟨e, he, rfl⟩))

theorem eq_some_of_truthy {text : Option String} {s : String} (h : truthy text = some s) : text = some s :=
  (Option.filter_eq_some_iff.mp h).1

theorem PlanSound.step (h : PlanSound ownerMap caps ids plan) {e : String × ℕ}
    (hnew : e.1 ∉ ids) : PlanSound ownerMap caps (ids ++ [e.1]) (planStep ownerMap caps plan e) := by
  rw [planStep]
  split_ifs with hindex
  · exact h.unresolve hnew _
  · rcases howner : truthy (ownerMap.resolveOwner e.1) with _ | owner
    · exact h.unresolve hnew _
    · rcases hdirectory : truthy (ownerMap.resolveDirectory e.1) with _ | directory
      · exact h.unresolve hnew _
      · dsimp only
        rw [StatusPlan.cover]
        split_ifs with hplanned hfull
        · refine h.join hnew (eq_some_of_truthy howner) (eq_some_of_truthy hdirectory) ?_
          simpa using hplanned
        · exact h.unresolve hnew _
        · refine h.ask hnew (eq_some_of_truthy howner) (eq_some_of_truthy hdirectory) ?_ (not_le.mp hfull)
          simpa using hplanned

theorem PlanSound.foldl (h : PlanSound ownerMap caps ids plan) {rest : List (String × ℕ)}
    (hnew : (ids ++ rest.map Prod.fst).Nodup) :
    PlanSound ownerMap caps (ids ++ rest.map Prod.fst) (rest.foldl (planStep ownerMap caps) plan) := by
  induction rest generalizing ids plan with
  | nil => rwa [map_nil, append_nil]
  | cons e rest ih =>
    rw [map_cons, ← singleton_append, ← append_assoc] at hnew ⊢
    have hfresh : e.1 ∉ ids := fun hmem ↦
      (nodup_append.mp (nodup_append.mp hnew).1).2.2 _ hmem _ (mem_singleton_self _) rfl
    exact ih (h.step hfresh) hnew

theorem planSound (ownerMap : StatusOwnerLookup) (caps : StatusCaps) (h : ids.Nodup) :
    PlanSound ownerMap caps ids (planFleetSessionStatus ids ownerMap caps) := by
  have hstart : PlanSound ownerMap caps [] ⟨[], []⟩ :=
    ⟨nodup_nil, Nat.zero_le _, nofun, fun id ↦ by simp, nofun⟩
  have hids : ids.zipIdx.map Prod.fst = ids := zipIdx_map_fst 0 ids
  have hnew : ([] ++ ids.zipIdx.map Prod.fst).Nodup := by rwa [nil_append, hids]
  have hrun := hstart.foldl hnew
  rwa [nil_append, hids] at hrun

end Plan

/-! ## The read -/

/-- The query is not made, or it has no usable answer. -/
def FanOutOptions.Fails (opts : FanOutOptions) (q : StatusQuery) : Prop :=
  opts.asks q = false ∨ ∃ reason detail, queryDirectory (opts.reply q) = .failed reason detail

/-- The answer of a query that is made and usable. -/
def FanOutOptions.Answers (opts : FanOutOptions) (q : StatusQuery) (answer : InsertionMap String SessionStatus) :
    Prop :=
  opts.asks q = true ∧ queryDirectory (opts.reply q) = .covered answer

def FleetSessionStatusResponse.Reported (r : FleetSessionStatusResponse) (id : String) : Prop :=
  r.statuses.get? id ≠ none

def FleetSessionStatusResponse.Unresolved (r : FleetSessionStatusResponse) (id : String) : Prop :=
  ∃ e ∈ r.unresolved, e.id = id

/-- The session is left out because its directory failed. -/
def Omitted (ownerMap : StatusOwnerLookup) (plan : StatusPlan) (opts : FanOutOptions) (id : String) : Prop :=
  ∃ q ∈ plan.queries, id ∈ q.sessionIds ∧ ResolvesTo ownerMap id q ∧ opts.Fails q

structure StatusLaw (ids : List String) (ownerMap : StatusOwnerLookup) (caps : StatusCaps) (opts : FanOutOptions)
    (plan : StatusPlan) (r : FleetSessionStatusResponse) : Prop where
  /-- A requested session is reported, unresolved or omitted, and one of the three only. -/
  partition : ∀ id ∈ ids,
    (r.Reported id ∧ ¬ r.Unresolved id ∧ ¬ Omitted ownerMap plan opts id) ∨
      (¬ r.Reported id ∧ r.Unresolved id ∧ ¬ Omitted ownerMap plan opts id) ∨
        (¬ r.Reported id ∧ ¬ r.Unresolved id ∧ Omitted ownerMap plan opts id)
  requested : ∀ id, r.Reported id ∨ r.Unresolved id → id ∈ ids
  /-- A status is that of the answer of the session's own directory: idle if the answer does not list it. -/
  status : ∀ id status, r.statuses.get? id = some status → ∃ q ∈ plan.queries, ResolvesTo ownerMap id q ∧
    ∃ answer, opts.Answers q answer ∧ (answer.get? id = some status ∨ (answer.get? id = none ∧ status = .idle))
  capped : (upstreamQueries plan opts).length ≤ caps.maxQueries

section Read

variable {opts : FanOutOptions} {plan : StatusPlan} {id : String}

theorem get?_record (a : Assembly) (q : StatusQuery) (outcome : QueryOutcome) (id : String) :
    (a.record q outcome).statuses.get? id = (match outcome with
      | .covered answer => if id ∈ q.sessionIds then some (statusIn answer id) else a.statuses.get? id
      | .failed _ _ => a.statuses.get? id) := by
  rcases outcome with answer | ⟨reason, detail⟩
  · exact InsertionMap.get?_setAll_map _ _ _ _
  · rfl

theorem statuses_refuse (sources : FleetStatusSourceOptions) (l : List StatusQuery) (a : Assembly) :
    (l.foldl (Assembly.refuse sources) a).statuses = a.statuses := by
  induction l generalizing a with
  | nil => rfl
  | cons q l ih =>
    rw [foldl_cons, ih, Assembly.refuse]
    split <;> rfl

theorem exists_of_get?_foldl {l : List StatusQuery} {a : Assembly} {status : SessionStatus}
    (h : (l.foldl (fun a q ↦ a.record q (queryDirectory (opts.reply q))) a).statuses.get? id = some status) :
    a.statuses.get? id = some status ∨ ∃ q ∈ l, id ∈ q.sessionIds ∧ ∃ answer,
      queryDirectory (opts.reply q) = .covered answer ∧ status = statusIn answer id := by
  induction l generalizing a with
  | nil => exact .inl h
  | cons q l ih =>
    rcases ih h with hrecord | ⟨q', hq', hrest⟩
    · rw [get?_record] at hrecord
      rcases houtcome : queryDirectory (opts.reply q) with answer | ⟨reason, detail⟩
      · rw [houtcome] at hrecord
        split_ifs at hrecord with hid
        · exact .inr ⟨q, mem_cons_self, hid, answer, houtcome, (Option.some.inj hrecord).symm⟩
        · exact .inl hrecord
      · rw [houtcome] at hrecord
        exact .inl hrecord
    · exact .inr ⟨q', mem_cons_of_mem _ hq', hrest⟩

theorem get?_foldl_ne_none {l : List StatusQuery} {a : Assembly}
    (h : a.statuses.get? id ≠ none ∨ ∃ q ∈ l, id ∈ q.sessionIds ∧ ∃ answer,
      queryDirectory (opts.reply q) = .covered answer) :
    (l.foldl (fun a q ↦ a.record q (queryDirectory (opts.reply q))) a).statuses.get? id ≠ none := by
  induction l generalizing a with
  | nil => exact h.resolve_right fun ⟨q, hq, _⟩ ↦ absurd hq not_mem_nil
  | cons q l ih =>
    refine ih ?_
    rw [get?_record]
    rcases h with h | ⟨q', hq', hid, answer, hanswer⟩
    · left
      split
      · split_ifs
        · exact Option.some_ne_none _
        · exact h
      · exact h
    · rcases mem_cons.mp hq' with rfl | hq'
      · left
        rw [hanswer]
        dsimp only
        rw [if_pos hid]
        exact Option.some_ne_none _
      · exact .inr ⟨q', hq', hid, answer, hanswer⟩

theorem statuses_fanOut {status : SessionStatus}
    (h : (fanOutFleetSessionStatus plan opts).statuses.get? id = some status) :
    ∃ q ∈ plan.queries, id ∈ q.sessionIds ∧ ∃ answer, opts.Answers q answer ∧ status = statusIn answer id := by
  rw [fanOutFleetSessionStatus] at h
  rcases exists_of_get?_foldl h with hstart | ⟨q, hq, hid, answer, hanswer, hstatus⟩
  · rw [statuses_refuse] at hstart
    exact absurd hstart (by simp)
  · rw [mem_insertionSort, upstreamQueries, mem_filter] at hq
    exact ⟨q, hq.1, hid, answer, ⟨hq.2, hanswer⟩, hstatus⟩

theorem reported_of_answers {q : StatusQuery} {answer : InsertionMap String SessionStatus} (hq : q ∈ plan.queries)
    (hid : id ∈ q.sessionIds) (h : opts.Answers q answer) : (fanOutFleetSessionStatus plan opts).Reported id := by
  refine get?_foldl_ne_none (.inr ⟨q, ?_, hid, answer, h.2⟩)
  rw [mem_insertionSort, upstreamQueries, mem_filter]
  exact ⟨hq, h.1⟩

theorem fails_or_answers (opts : FanOutOptions) (q : StatusQuery) :
    opts.Fails q ∨ ∃ answer, opts.Answers q answer := by
  rcases hasks : opts.asks q
  · exact .inl (.inl hasks)
  · rcases houtcome : queryDirectory (opts.reply q) with answer | ⟨reason, detail⟩
    · exact .inr ⟨answer, hasks, houtcome⟩
    · exact .inl (.inr ⟨reason, detail, houtcome⟩)

theorem not_fails_of_answers {q : StatusQuery} {answer : InsertionMap String SessionStatus}
    (h : opts.Answers q answer) : ¬ opts.Fails q := by
  rintro (hasks | ⟨reason, detail, hfailed⟩)
  · exact absurd (hasks.symm.trans h.1) Bool.false_ne_true
  · exact absurd (h.2.symm.trans hfailed) nofun

theorem PlanSound.query_unique {ownerMap : StatusOwnerLookup} {caps : StatusCaps} {ids : List String}
    (h : PlanSound ownerMap caps ids plan) {q q' : StatusQuery} (hq : q ∈ plan.queries) (hq' : q' ∈ plan.queries)
    (hid : id ∈ q.sessionIds) (hid' : id ∈ q'.sessionIds) : q = q' := by
  obtain ⟨howner, hdirectory⟩ := h.resolves q hq id hid
  obtain ⟨howner', hdirectory'⟩ := h.resolves q' hq' id hid'
  refine inj_on_of_nodup_map h.keys hq hq' (congrArg₂ queryKey ?_ ?_)
  · exact Option.some.inj (howner.symm.trans howner')
  · exact Option.some.inj (hdirectory.symm.trans hdirectory')

theorem PlanSound.fanOut_law {ids : List String} {ownerMap : StatusOwnerLookup} {caps : StatusCaps}
    (hplan : PlanSound ownerMap caps ids plan) (opts : FanOutOptions) :
    StatusLaw ids ownerMap caps opts plan (fanOutFleetSessionStatus plan opts) := by
  -- a reported session is in an answered query, and that is its only one
  have hreported : ∀ id, (fanOutFleetSessionStatus plan opts).Reported id →
      ∃ q ∈ plan.queries, id ∈ q.sessionIds ∧ ∃ answer, opts.Answers q answer := by
    intro id hid
    obtain ⟨status, hstatus⟩ := Option.ne_none_iff_exists'.mp hid
    obtain ⟨q, hq, hmem, answer, hanswer, -⟩ := statuses_fanOut hstatus
    exact ⟨q, hq, hmem, answer, hanswer⟩
  refine ⟨fun id hid ↦ ?_, ?_, ?_, ?_⟩
  · rcases (hplan.mem_iff id).mp hid with ⟨q, hq, hmem⟩ | hunresolved
    · have hresolved : ¬ (fanOutFleetSessionStatus plan opts).Unresolved id := fun ⟨e, he, heq⟩ ↦
        hplan.apart q hq id hmem e he heq
      rcases fails_or_answers opts q with hfails | ⟨answer, hanswer⟩
      · refine .inr (.inr ⟨fun hrep ↦ ?_, hresolved, q, hq, hmem, hplan.resolves q hq id hmem, hfails⟩)
        obtain ⟨q', hq', hmem', answer, hanswer⟩ := hreported id hrep
        rw [hplan.query_unique hq' hq hmem' hmem] at hanswer
        exact not_fails_of_answers hanswer hfails
      · refine .inl ⟨reported_of_answers hq hmem hanswer, hresolved, ?_⟩
        rintro ⟨q', hq', hmem', -, hfails⟩
        rw [hplan.query_unique hq' hq hmem' hmem] at hfails
        exact not_fails_of_answers hanswer hfails
    · obtain ⟨e, he, rfl⟩ := hunresolved
      have hunplanned : ¬ ∃ q ∈ plan.queries, e.id ∈ q.sessionIds := fun ⟨q, hq, hmem⟩ ↦
        hplan.apart q hq _ hmem e he rfl
      refine .inr (.inl ⟨fun hrep ↦ ?_, ⟨e, he, rfl⟩, fun ⟨q, hq, hmem, _⟩ ↦ hunplanned ⟨q, hq, hmem⟩⟩)
      obtain ⟨q, hq, hmem, -⟩ := hreported _ hrep
      exact hunplanned ⟨q, hq, hmem⟩
  · rintro id (hrep | hunresolved)
    · obtain ⟨q, hq, hmem, -⟩ := hreported id hrep
      exact (hplan.mem_iff id).mpr (.inl ⟨q, hq, hmem⟩)
    · exact (hplan.mem_iff id).mpr (.inr hunresolved)
  · intro id status hstatus
    obtain ⟨q, hq, hmem, answer, hanswer, rfl⟩ := statuses_fanOut hstatus
    refine ⟨q, hq, hplan.resolves q hq id hmem, answer, hanswer, ?_⟩
    rw [statusIn]
    rcases answer.get? id with _ | status
    · exact .inr ⟨rfl, rfl⟩
    · exact .inl rfl
  · exact (length_filter_le _ _).trans hplan.bounded

end Read

/-- **The session status of the fleet.** Each session of a request is reported, unresolved, or omitted because its
directory failed; a status is that of its own directory's answer, idle if the answer does not list it or lists it so;
and no more queries are made than the cap allows. -/
theorem fleetStatusLaw {ids : List String} (h : ids.Nodup) (ownerMap : StatusOwnerLookup) (caps : StatusCaps)
    (opts : FanOutOptions) :
    StatusLaw ids ownerMap caps opts (planFleetSessionStatus ids ownerMap caps)
      (fanOutFleetSessionStatus (planFleetSessionStatus ids ownerMap caps) opts) :=
  (planSound ownerMap caps h).fanOut_law opts

/-! ### One session -/

/-- One session of this machine, whose engine lists it as idle. -/
def oneSession : StatusOwnerLookup := ⟨fun _ ↦ some "m1", fun _ ↦ some "/repo"⟩

def idleEngine : FanOutOptions where
  sources := ⟨"m1", ⟨.ok (some "http://engine"), none⟩, [], []⟩
  reply _ := .answered 200 (.json (.obj [("s1", .obj [("type", .str "idle")])]))
  arrival _ := 0

/-- The session is idle, and listed. -/
theorem listed_idle : ∃ answer, idleEngine.Answers ⟨"m1", "/repo", ["s1"]⟩ answer ∧ (answer.get? "s1").isSome ∧
    (fanOutFleetSessionStatus (planFleetSessionStatus ["s1"] oneSession {}) idleEngine).statuses.get? "s1"
      = some .idle :=
  ⟨_, ⟨rfl, rfl⟩, rfl, rfl⟩

/-- The law of that read. -/
theorem fleetStatusLaw_oneSession : StatusLaw ["s1"] oneSession {} idleEngine
    (planFleetSessionStatus ["s1"] oneSession {})
    (fanOutFleetSessionStatus (planFleetSessionStatus ["s1"] oneSession {}) idleEngine) :=
  fleetStatusLaw (List.nodup_singleton "s1") oneSession {} idleEngine

/-! ### The composed read -/

theorem nodup_parseStatusIds (raw : Option String) : (parseStatusIds raw).Nodup := by
  rw [parseStatusIds]
  generalize (splitOn [','] (raw.getD "").toList).map (fun segment ↦ String.ofList (trim segment)) = segments
  have hrun : ∀ out : List String, out.Nodup →
      (segments.foldl (fun out id ↦ if id = "" ∨ id ∈ out then out else out ++ [id]) out).Nodup := by
    induction segments with
    | nil => exact fun out hout ↦ hout
    | cons id segments ih =>
      intro out hout
      refine ih _ (show (if id = "" ∨ id ∈ out then out else out ++ [id]).Nodup from ?_)
      split_ifs with hskip
      · exact hout
      · rw [nodup_append]
        refine ⟨hout, nodup_singleton _, fun a ha b hb ↦ ?_⟩
        rw [mem_singleton.mp hb]
        rintro rfl
        exact hskip (.inr ha)
  exact hrun [] nodup_nil

end Amicode.FleetStatus
