import Amicode.Foundation.JsObject
import Amicode.Foundation.Lines
import Amicode.Foundation.Pattern

/-!
# Fleet writes

A write to a session of the fleet goes to the hub (`fleet_writes.ts`). It is *delivered* if a 2xx answer was seen
and *failed* if another one was. An attempt without an answer is repeated, under the same request identity, within a
budget; with the budget spent the write is *ambiguous*, and the affected session is fetched again as evidence.

What the attempts get is a sequence that the model is given, an attempt that times out gets no answer. The platform's
URL parser, its lower case, and the header made of the hub's token are parameters.

`FleetWriteLaw` is the contract of one write. The path that is fetched again is that of the session the write went
to, if the write has the older of the two shapes a session's path has (`deriveRefetchPath_of_session`); of the newer
one only `/api` is left.
-/

namespace Amicode.Fleet

open JsObject JsText List Option

/-! ## Paths -/

def AMICODE : List Char := "amicode".toList

def SESSION : List Char := "session".toList

def pathSegments (path : List Char) : List (List Char) :=
  (splitOn ['/'] ((splitOn ['?'] path).headD [])).filter (· ≠ [])

def deriveAmicodeRefetchPath (writePath : List Char) : List Char :=
  match pathSegments writePath with
  | _ :: family :: _ => "/amicode/".toList ++ family
  | _ => "/amicode".toList

def deriveRefetchPath (writePath : List Char) : List Char :=
  match pathSegments writePath with
  | [] => "/session".toList
  | first :: rest =>
    if first = SESSION then
      match rest with
      | id :: _ => "/session/".toList ++ id
      | [] => "/session".toList
    else if first = AMICODE then deriveAmicodeRefetchPath writePath
    else '/' :: first

/-- `^root([^/]+)(?:\/|$)`: the segment after a root. -/
def segmentAfter? (root pathname : List Char) : Option (List Char) :=
  (stripPrefix? root pathname).bind fun rest ↦
    let id := rest.takeWhile (· ≠ '/')
    if id = [] then none else some id

/-- The two roots of the paths of sessions: that of the first client and that of the vendored one. -/
def SESSION_ROOT : List Char := "/session/".toList

def API_SESSION_ROOT : List Char := "/api/session/".toList

/-- The path that reads the session which a path of either shape addresses, in the shape of the path
(`extractSessionIdFromReadPath`). -/
def sessionGetPath? (pathname : List Char) : Option (List Char) :=
  if pathname = "/session/status".toList then none
  else ((segmentAfter? SESSION_ROOT pathname).map (SESSION_ROOT ++ ·)).or
    ((segmentAfter? API_SESSION_ROOT pathname).map (API_SESSION_ROOT ++ ·))

/-! ## Requests -/

/-- An address, as the platform parses it. -/
structure Url where
  pathname : List Char
  searchParams : List (String × String)
  query_notMem : '?' ∉ pathname

/-- The address without the parameter that carries the client's credential. -/
def Url.withoutAuthToken (url : Url) : Url :=
  { url with searchParams := url.searchParams.filter (·.1 ≠ "auth_token") }

inductive HeaderValue where
  | absent
  | one (value : String)
  | many (values : List String)

def HeaderValue.text? : HeaderValue → Option String
  | absent => none
  | one value => some value
  | many values => some (", ".intercalate values)

/-- The header of the request identity. -/
def REQUEST_ID : String := "x-amicode-request-id"

def DROPPED_HEADERS : List String := ["host", "connection", "authorization", REQUEST_ID, "content-length"]

structure FleetWriteRequest where
  method : String
  url : String
  headers : List (String × HeaderValue)
  body : String

inductive HubCredentialReadReason where
  | absent
  | malformed
  | incomplete
deriving DecidableEq

/-- What comes of one request: no answer within the time, or one. The text is missing where reading it failed. -/
inductive FetchResult where
  | noResponse (detail : String)
  | response (status : ℕ) (text : Option String) (contentType : Option String)
deriving DecidableEq

def FetchResult.status? : FetchResult → Option ℕ
  | noResponse _ => none
  | response status _ _ => some status

/-- A status that says yes. -/
def isOk (status : ℕ) : Bool := 200 ≤ status && status < 300

structure FleetWriteDeps where
  /-- The hub's address, if the tunnel is up. -/
  url : Option String
  credential : Except HubCredentialReadReason String
  /-- The attempts after the first. -/
  maxRetries : ℕ
  /-- `new URL`, which throws for an address that is none. -/
  parseUrl : String → String → Option Url
  toLowerCase : String → String
  hubUpstreamAuthHeader : String → String
  /-- The identity of a request that has none. -/
  randomUUID : String
  /-- What the attempts get, in order. -/
  answers : ℕ → FetchResult
  /-- What the fetch of the affected session gets. -/
  refetchAnswer : FetchResult

def headerValue (toLowerCase : String → String) (headers : List (String × HeaderValue)) (name : String) :
    Option String :=
  headers.findSome? fun entry ↦ if toLowerCase entry.1 = name then entry.2.text? else none

/-- The identity of a write: the client's, or a fresh one. -/
def requestId (deps : FleetWriteDeps) (write : FleetWriteRequest) : String :=
  (headerValue deps.toLowerCase write.headers REQUEST_ID).getD deps.randomUUID

structure UpstreamRequest where
  target : Url
  method : String
  headers : List (String × String)
  body : Option String

/-- The headers that go on; the hub's credential and the identity are set last. -/
def upstreamHeaders (deps : FleetWriteDeps) (write : FleetWriteRequest) (token : String) : List (String × String) :=
  let kept := write.headers.foldl (fun headers (name, value) ↦
    let key := deps.toLowerCase name
    match value.text? with
    | none => headers
    -- a plain object keeps no text under the last of these names
    | some text => if DROPPED_HEADERS.contains key || key = "__proto__" then headers else assign headers key text) []
  assign (assign kept "authorization" (deps.hubUpstreamAuthHeader token)) REQUEST_ID (requestId deps write)

/-- The request of every attempt. -/
def upstreamRequest (deps : FleetWriteDeps) (write : FleetWriteRequest) (token : String) (incoming : Url) :
    UpstreamRequest :=
  { target := incoming.withoutAuthToken
    method := write.method
    headers := upstreamHeaders deps write token
    body := if write.body = "" then none else some write.body }

/-! ## Outcomes -/

def LOCAL_STORE_ROLE_FLEET_SESSION : String :=
  "unwritten — fleet sessions are never shadowed into the local store; the hub is the store of record (D3)"

def REVOCATION_NOTICE : String :=
  "entitlement revoked mid-flight — this session is now read-only with a pointer; " ++
  "content already hub-resident is re-accessible on re-entitlement; " ++
  "use Go-Standalone to continue locally"

def MAX_REFETCH_BODY : ℕ := 65536

/-- The body of a write as it is given back: the code units up to the cap, and whether there are more. -/
structure EchoedPayload where
  payload : List ℕ
  payloadTruncated : Bool
deriving DecidableEq

def codeUnits (text : String) : List ℕ := text.toList.flatMap units

def truncateBody (body : String) : EchoedPayload :=
  ⟨(codeUnits body).take MAX_REFETCH_BODY, decide (MAX_REFETCH_BODY < (codeUnits body).length)⟩

structure FleetWriteRevocation where
  handoff : String
  notice : String
  go_standalone : Bool
deriving DecidableEq

/-- The fetch of the affected session. -/
structure Refetch where
  path : List Char
  ok : Bool
  httpStatus : Option ℕ
  body : Option (List ℕ)
deriving DecidableEq

/-- What a failed write and an ambiguous one say both. -/
structure Undelivered where
  error : String
  detail : Option String
  echoed : EchoedPayload
  requestId : String
  attempts : ℕ
  localStoreRole : String
deriving DecidableEq

inductive FleetWriteResult where
  | delivered (httpStatus : ℕ) (body : String) (contentType : Option String) (requestId : String) (attempts : ℕ)
  | failed (httpStatus : ℕ) (hubStatus : Option ℕ) (said : Undelivered) (revocation : Option FleetWriteRevocation)
  | ambiguous (said : Undelivered) (refetch : Refetch)
deriving DecidableEq

namespace FleetWriteResult

def requestId : FleetWriteResult → String
  | delivered _ _ _ requestId _ => requestId
  | failed _ _ said _ => said.requestId
  | ambiguous said _ => said.requestId

def attempts : FleetWriteResult → ℕ
  | delivered _ _ _ _ attempts => attempts
  | failed _ _ said _ => said.attempts
  | ambiguous said _ => said.attempts

def isDelivered : FleetWriteResult → Bool
  | delivered .. => true
  | _ => false

/-- The fetch of the affected session, which an ambiguous write has. -/
def refetch? : FleetWriteResult → Option Refetch
  | ambiguous _ refetch => some refetch
  | _ => none

end FleetWriteResult

inductive FleetWriteEvent where
  /-- An attempt, and what it got. The posture detector is told as well. -/
  | attempt (request : UpstreamRequest) (answer : FetchResult)
  /-- The signal that the credential has been revoked. -/
  | structural (signal : String)
  /-- The fetch of the affected session, unless its address is none. -/
  | refetch (target : Option Url) (authorization : String)

/-! ## The write -/

/-- What is said of a write that was not delivered. -/
def undelivered (deps : FleetWriteDeps) (write : FleetWriteRequest) (error : String) (detail : Option String)
    (attempts : ℕ) : Undelivered :=
  { error, detail, attempts
    echoed := truncateBody write.body
    requestId := requestId deps write
    localStoreRole := LOCAL_STORE_ROLE_FLEET_SESSION }

/-- The outcome of an answer, after this many attempts. -/
def resolveAnswer (deps : FleetWriteDeps) (write : FleetWriteRequest) (status : ℕ)
    (text contentType : Option String) (attempts : ℕ) : FleetWriteResult × List FleetWriteEvent :=
  if isOk status then (.delivered status (text.getD "") contentType (requestId deps write) attempts, [])
  else if status = 401 then
    (.failed 401 (some 401) (undelivered deps write "fleet-write-failed" none attempts)
      (some ⟨"read-only-with-pointer", REVOCATION_NOTICE, true⟩), [.structural "auth-revoked"])
  else
    (.failed status (some status) (undelivered deps write "fleet-write-failed"
      (some s!"hub answered HTTP {toString status}") attempts) none, [])

inductive AttemptsEnd where
  | resolved (result : FleetWriteResult)
  | exhausted (attempts : ℕ) (lastDetail : Option String)

/-- The attempts that are left, after some. -/
def attemptLoop (deps : FleetWriteDeps) (write : FleetWriteRequest) (request : UpstreamRequest) :
    ℕ → ℕ → Option String → AttemptsEnd × List FleetWriteEvent
  | 0, attempts, lastDetail => (.exhausted attempts lastDetail, [])
  | left + 1, attempts, _ =>
    let answer := deps.answers attempts
    match answer with
    | .noResponse detail =>
      let rest := attemptLoop deps write request left (attempts + 1) (some detail)
      (rest.1, .attempt request answer :: rest.2)
    | .response status text contentType =>
      let resolved := resolveAnswer deps write status text contentType (attempts + 1)
      (.resolved resolved.1, .attempt request answer :: resolved.2)

/-- The fetch of the affected session. An address that is none is a fetch without an answer. -/
def refetchThread (deps : FleetWriteDeps) (base : String) (path : List Char) : Refetch :=
  match deps.parseUrl (String.ofList path) base, deps.refetchAnswer with
  | some _, .response status text _ =>
    ⟨path, isOk status, some status, some ((codeUnits (text.getD "")).take MAX_REFETCH_BODY)⟩
  | _, _ => ⟨path, false, none, none⟩

/-- The outcome, if the write's address is one, and what was done for it. -/
def executeFleetWrite (deps : FleetWriteDeps) (write : FleetWriteRequest) :
    Option FleetWriteResult × List FleetWriteEvent :=
  match deps.url, deps.credential with
  | none, _ => (some (.failed 503 none (undelivered deps write "hub upstream not available" none 0) none), [])
  | some _, .error reason =>
    let detail := match reason with
      | .absent => "absent"
      | .malformed => "malformed"
      | .incomplete => "incomplete"
    (some (.failed 503 none (undelivered deps write "hub-credential-missing" (some detail) 0) none), [])
  | some base, .ok token =>
    match deps.parseUrl write.url base with
    | none => (none, [])
    | some incoming =>
      let tried := attemptLoop deps write (upstreamRequest deps write token incoming) (deps.maxRetries + 1) 0 none
      match tried.1 with
      | .resolved result => (some result, tried.2)
      | .exhausted attempts lastDetail =>
        let path := deriveRefetchPath incoming.withoutAuthToken.pathname
        (some (.ambiguous (undelivered deps write "fleet-write-ambiguous" lastDetail attempts)
            (refetchThread deps base path)),
          tried.2 ++ [.refetch (deps.parseUrl (String.ofList path) base) (deps.hubUpstreamAuthHeader token)])

def attemptsOf (events : List FleetWriteEvent) : List (UpstreamRequest × FetchResult) :=
  events.filterMap fun event ↦ match event with
    | .attempt request answer => some (request, answer)
    | _ => none

/-! ## The contract -/

/-- A write fetches no other session again. -/
def FleetWriteLaw.Refetches (deps : FleetWriteDeps) (write : FleetWriteRequest) : Prop :=
  ∀ base ∈ deps.url, ∀ incoming ∈ deps.parseUrl write.url base, ∀ get ∈ sessionGetPath? incoming.pathname,
    ∀ result ∈ (executeFleetWrite deps write).1, ∀ refetch ∈ result.refetch?, refetch.path = get

/-- The contract of one write: what it does and the outcome it has. -/
structure FleetWriteLaw (deps : FleetWriteDeps) (write : FleetWriteRequest) : Prop where
  bounded : (attemptsOf (executeFleetWrite deps write).2).length ≤ 1 + deps.maxRetries
  identity : ∀ attempt ∈ attemptsOf (executeFleetWrite deps write).2,
    own? attempt.1.headers REQUEST_ID = some (requestId deps write)
  reported : ∀ result ∈ (executeFleetWrite deps write).1, result.requestId = requestId deps write ∧
    result.attempts = (attemptsOf (executeFleetWrite deps write).2).length
  /-- An answer is the last that is attempted. -/
  last : ∀ before attempt after, attemptsOf (executeFleetWrite deps write).2 = before ++ attempt :: after →
    attempt.2.status? ≠ none → after = []
  delivered_iff : (∃ result ∈ (executeFleetWrite deps write).1, result.isDelivered) ↔
    ∃ attempt ∈ attemptsOf (executeFleetWrite deps write).2, ∃ status ∈ attempt.2.status?, isOk status
  /-- Ambiguous is what was attempted and never answered. -/
  ambiguous_iff : (∃ result ∈ (executeFleetWrite deps write).1, result.refetch? ≠ none) ↔
    attemptsOf (executeFleetWrite deps write).2 ≠ [] ∧
      ∀ attempt ∈ attemptsOf (executeFleetWrite deps write).2, attempt.2.status? = none
  /-- What is fetched again is the session that the write addresses. -/
  refetched : FleetWriteLaw.Refetches deps write

/-- The write goes to a session under the newer root, and no attempt of the budget is answered. -/
def UnansweredUnderApi (deps : FleetWriteDeps) (write : FleetWriteRequest) : Prop :=
  (∃ base ∈ deps.url, ∃ incoming ∈ deps.parseUrl write.url base,
    (segmentAfter? API_SESSION_ROOT incoming.pathname).isSome) ∧ (∃ token, deps.credential = .ok token) ∧
      ∀ i ≤ deps.maxRetries, (deps.answers i).status? = none

/-! ## Paths of sessions -/

section Paths

variable {root pathname id : List Char}

theorem exists_of_segmentAfter? (h : segmentAfter? root pathname = some id) :
    id ≠ [] ∧ '/' ∉ id ∧ ∃ rest, pathname = root ++ (id ++ rest) ∧ ∀ c ∈ rest.head?, c = '/' := by
  rw [segmentAfter?, bind_eq_some_iff] at h
  obtain ⟨rest, hrest, h⟩ := h
  dsimp only at h
  split_ifs at h with hid
  obtain rfl := Option.some.inj h
  refine ⟨hid, fun hmem ↦ ?_, rest.dropWhile (· ≠ '/'), ?_, fun c hc ↦ ?_⟩
  · simpa using mem_takeWhile_imp hmem
  · rw [takeWhile_append_dropWhile, Pattern.stripPrefix?_eq_some hrest]
  · have hhead := head?_dropWhile_not (· ≠ '/') rest
    rw [mem_def.mp hc] at hhead
    simpa using hhead

theorem pathSegments_append {rest : List Char} (hid : id ≠ []) (hslash : '/' ∉ id)
    (hrest : ∀ c ∈ rest.head?, c = '/') (first : List Char) (hquery : '?' ∉ first ++ '/' :: (id ++ rest)) :
    ∃ more, pathSegments (first ++ '/' :: (id ++ rest)) = (first.splitOn '/').filter (· ≠ []) ++ id :: more := by
  rw [pathSegments, splitOn_of_notMem hquery, headD_cons, splitOn_singleton, splitOn_append_cons_self,
    filter_append]
  rcases rest with _ | ⟨c, rest⟩
  · refine ⟨[], ?_⟩
    rw [append_nil, splitOn_eq_singleton hslash, filter_cons_of_pos (by simpa using hid),
      filter_nil]
  · obtain rfl := hrest c rfl
    refine ⟨(rest.splitOn '/').filter (· ≠ []), ?_⟩
    rw [splitOn_append_cons_self_of_not_mem hslash, filter_cons_of_pos (by simpa using hid)]

theorem deriveRefetchPath_of_session (h : segmentAfter? SESSION_ROOT pathname = some id) (hquery : '?' ∉ pathname) :
    deriveRefetchPath pathname = SESSION_ROOT ++ id := by
  obtain ⟨hid, hslash, rest, rfl, hrest⟩ := exists_of_segmentAfter? h
  obtain ⟨more, hsegments⟩ := pathSegments_append hid hslash hrest "/session".toList hquery
  have hsegments' : pathSegments (SESSION_ROOT ++ (id ++ rest)) = SESSION :: id :: more := hsegments
  rw [deriveRefetchPath, hsegments']
  rfl

theorem deriveRefetchPath_of_api (h : segmentAfter? API_SESSION_ROOT pathname = some id) (hquery : '?' ∉ pathname) :
    deriveRefetchPath pathname = "/api".toList := by
  obtain ⟨hid, hslash, rest, rfl, hrest⟩ := exists_of_segmentAfter? h
  obtain ⟨more, hsegments⟩ := pathSegments_append hid hslash hrest "/api/session".toList hquery
  have hsegments' : pathSegments (API_SESSION_ROOT ++ (id ++ rest)) = "api".toList :: SESSION :: id :: more :=
    hsegments
  rw [deriveRefetchPath, hsegments']
  rfl

end Paths

/-! ## The attempts -/

section Attempts

variable {deps : FleetWriteDeps} {write : FleetWriteRequest} {request : UpstreamRequest}

/-- Some attempts from one on, as events. -/
def tries (deps : FleetWriteDeps) (request : UpstreamRequest) (start n : ℕ) : List FleetWriteEvent :=
  (List.range' start n).map fun i ↦ .attempt request (deps.answers i)

theorem tries_succ (start n : ℕ) :
    tries deps request start (n + 1) = .attempt request (deps.answers start) :: tries deps request (start + 1) n := by
  rw [tries, range'_succ, map_cons, tries]

theorem attemptsOf_append (a b : List FleetWriteEvent) : attemptsOf (a ++ b) = attemptsOf a ++ attemptsOf b :=
  filterMap_append

theorem attemptsOf_tries (start n : ℕ) :
    attemptsOf (tries deps request start n) = (List.range' start n).map fun i ↦ (request, deps.answers i) := by
  rw [tries, attemptsOf, filterMap_map]
  exact congrFun filterMap_eq_map' _

theorem attemptsOf_resolveAnswer (status : ℕ) (text contentType : Option String) (n : ℕ) :
    attemptsOf (resolveAnswer deps write status text contentType n).2 = [] := by
  rw [resolveAnswer]
  split_ifs <;> rfl

variable (deps) (write)

/-- The attempts go on to the first answer, or to the end of the budget. -/
theorem attemptLoop_cases (request : UpstreamRequest) (left attempts : ℕ) (lastDetail : Option String) :
    (∃ n < left, (∀ i < n, (deps.answers (attempts + i)).status? = none) ∧ ∃ status text contentType,
      deps.answers (attempts + n) = .response status text contentType ∧
        attemptLoop deps write request left attempts lastDetail
          = (.resolved (resolveAnswer deps write status text contentType (attempts + n + 1)).1,
            tries deps request attempts (n + 1)
              ++ (resolveAnswer deps write status text contentType (attempts + n + 1)).2)) ∨
      (∀ i < left, (deps.answers (attempts + i)).status? = none) ∧ ∃ detail,
        attemptLoop deps write request left attempts lastDetail
          = (.exhausted (attempts + left) detail, tries deps request attempts left) := by
  induction left generalizing attempts lastDetail with
  | zero => exact .inr ⟨fun i hi ↦ absurd hi (Nat.not_lt_zero i), lastDetail, rfl⟩
  | succ left ih =>
    rw [attemptLoop]
    rcases hanswer : deps.answers attempts with detail | ⟨status, text, contentType⟩
    · -- no answer: what the rest of the budget does, with one attempt more
      have hfirst : ∀ m, (∀ i < m, (deps.answers (attempts + 1 + i)).status? = none) →
          ∀ i < m + 1, (deps.answers (attempts + i)).status? = none := by
        rintro m hm (_ | i) hi
        · rw [Nat.add_zero, hanswer]
          rfl
        · rw [← Nat.add_assoc, Nat.add_right_comm]
          exact hm i (Nat.lt_of_succ_lt_succ hi)
      rcases ih (attempts + 1) (some detail) with
        ⟨n, hn, hnone, status, text, contentType, hresponse, hloop⟩ | ⟨hnone, last, hloop⟩
      · refine .inl ⟨n + 1, Nat.succ_lt_succ hn, hfirst n hnone, status, text, contentType, ?_, ?_⟩
        · rwa [← Nat.add_assoc, Nat.add_right_comm]
        · rw [tries_succ attempts, hanswer, ← Nat.add_assoc, Nat.add_right_comm attempts n 1]
          dsimp only
          rw [hloop]
          rfl
      · refine .inr ⟨hfirst left hnone, last, ?_⟩
        rw [tries_succ, hanswer, ← Nat.add_assoc, Nat.add_right_comm]
        dsimp only
        rw [hloop]
    · refine .inl ⟨0, Nat.succ_pos left, fun i hi ↦ absurd hi (Nat.not_lt_zero i), status, text, contentType,
        hanswer, ?_⟩
      rw [tries_succ, hanswer]
      rfl

theorem own?_upstreamHeaders (token : String) :
    own? (upstreamHeaders deps write token) REQUEST_ID = some (requestId deps write) := by
  rw [upstreamHeaders]
  exact own?_assign_self

/-- A write is not sent at all, or sent until it is answered, or sent as often as the budget has it. -/
theorem executeFleetWrite_cases : ((executeFleetWrite deps write).2 = [] ∧
        (deps.url = none ∨ (∀ token, deps.credential ≠ .ok token) ∨
          ∀ base ∈ deps.url, deps.parseUrl write.url base = none) ∧
        ∀ result ∈ (executeFleetWrite deps write).1, result.isDelivered = false ∧ result.refetch? = none ∧
          result.requestId = requestId deps write ∧ result.attempts = 0) ∨
      ∃ base ∈ deps.url, ∃ token, deps.credential = .ok token ∧ ∃ incoming ∈ deps.parseUrl write.url base,
        (∃ n ≤ deps.maxRetries, (∀ i < n, (deps.answers i).status? = none) ∧ ∃ status text contentType,
          deps.answers n = .response status text contentType ∧ executeFleetWrite deps write
            = (some (resolveAnswer deps write status text contentType (n + 1)).1,
              tries deps (upstreamRequest deps write token incoming) 0 (n + 1)
                ++ (resolveAnswer deps write status text contentType (n + 1)).2)) ∨
        (∀ i ≤ deps.maxRetries, (deps.answers i).status? = none) ∧ ∃ detail refetched, executeFleetWrite deps write
          = (some (.ambiguous (undelivered deps write "fleet-write-ambiguous" detail (deps.maxRetries + 1))
              (refetchThread deps base (deriveRefetchPath incoming.pathname))),
            tries deps (upstreamRequest deps write token incoming) 0 (deps.maxRetries + 1)
              ++ [.refetch refetched (deps.hubUpstreamAuthHeader token)]) := by
  rcases hurl : deps.url with _ | base
  · left
    rw [executeFleetWrite, hurl]
    refine ⟨rfl, .inl rfl, fun result hresult ↦ ?_⟩
    obtain rfl := Option.some.inj hresult
    exact ⟨rfl, rfl, rfl, rfl⟩
  · rcases hcredential : deps.credential with reason | token
    · left
      rw [executeFleetWrite, hurl, hcredential]
      refine ⟨rfl, .inr (.inl fun token ↦ nofun), fun result hresult ↦ ?_⟩
      obtain rfl := Option.some.inj hresult
      exact ⟨rfl, rfl, rfl, rfl⟩
    · rcases hincoming : deps.parseUrl write.url base with _ | incoming
      · left
        rw [executeFleetWrite, hurl, hcredential]
        dsimp only
        rw [hincoming]
        refine ⟨rfl, .inr (.inr fun base' hbase ↦ ?_), fun result hresult ↦ absurd hresult (by simp)⟩
        obtain rfl := Option.some.inj hbase
        exact hincoming
      · right
        refine ⟨base, rfl, token, rfl, incoming, hincoming, ?_⟩
        rw [executeFleetWrite, hurl, hcredential]
        dsimp only
        rw [hincoming]
        dsimp only
        rcases attemptLoop_cases deps write (upstreamRequest deps write token incoming) (deps.maxRetries + 1) 0 none
          with ⟨n, hn, hnone, status, text, contentType, hresponse, hloop⟩ | ⟨hnone, last, hloop⟩
        · left
          simp only [Nat.zero_add] at hnone hresponse hloop
          refine ⟨n, Nat.le_of_lt_succ hn, hnone, status, text, contentType, hresponse, ?_⟩
          rw [hloop]
        · right
          simp only [Nat.zero_add] at hnone hloop
          refine ⟨fun i hi ↦ hnone i (Nat.lt_succ_of_le hi), last,
            deps.parseUrl (String.ofList (deriveRefetchPath incoming.pathname)) base, ?_⟩
          rw [hloop]
          rfl

end Attempts

/-! ## The law -/

section Law

variable {deps : FleetWriteDeps} {write : FleetWriteRequest}

/-- The outcome of an answer is delivered if the answer says yes, and never ambiguous. -/
theorem resolveAnswer_spec (deps : FleetWriteDeps) (write : FleetWriteRequest) (status : ℕ)
    (text contentType : Option String) (n : ℕ) :
    (resolveAnswer deps write status text contentType n).1.isDelivered = isOk status ∧
      (resolveAnswer deps write status text contentType n).1.refetch? = none ∧
        (resolveAnswer deps write status text contentType n).1.requestId = requestId deps write ∧
          (resolveAnswer deps write status text contentType n).1.attempts = n := by
  rw [resolveAnswer]
  split_ifs with hok hstatus
  · exact ⟨hok.symm, rfl, rfl, rfl⟩
  · exact ⟨(Bool.not_eq_true _ ▸ hok : isOk status = false).symm, rfl, rfl, rfl⟩
  · exact ⟨(Bool.not_eq_true _ ▸ hok : isOk status = false).symm, rfl, rfl, rfl⟩

theorem sessionGetPath?_of_api {pathname id : List Char} (h : segmentAfter? API_SESSION_ROOT pathname = some id) :
    sessionGetPath? pathname = some (API_SESSION_ROOT ++ id) := by
  obtain ⟨-, -, rest, rfl, -⟩ := exists_of_segmentAfter? h
  have hfirst : segmentAfter? SESSION_ROOT (API_SESSION_ROOT ++ (id ++ rest)) = none := rfl
  rw [sessionGetPath?, if_neg nofun, hfirst, h]
  rfl

theorem segmentAfter?_of_sessionGetPath? {pathname get : List Char} (h : sessionGetPath? pathname = some get)
    (hapi : segmentAfter? API_SESSION_ROOT pathname = none) :
    ∃ id, segmentAfter? SESSION_ROOT pathname = some id ∧ get = SESSION_ROOT ++ id := by
  rw [sessionGetPath?, hapi, map_none, or_none] at h
  split_ifs at h
  obtain ⟨id, hid, rfl⟩ := map_eq_some_iff.mp h
  exact ⟨id, hid, rfl⟩

theorem eq_nil_of_tries {request : UpstreamRequest} {n : ℕ} (hnone : ∀ i < n, (deps.answers i).status? = none)
    {before after : List (UpstreamRequest × FetchResult)} {attempt : UpstreamRequest × FetchResult}
    (h : ((List.range' 0 (n + 1)).map fun i ↦ (request, deps.answers i)) = before ++ attempt :: after)
    (hanswered : attempt.2.status? ≠ none) : after = [] := by
  have hlength := congrArg List.length h
  rw [length_map, length_range', length_append, length_cons] at hlength
  have hattempt : attempt = (request, deps.answers before.length) := by
    have hget := congrArg (·[before.length]?) h
    simp only [getElem?_append_right le_rfl, Nat.sub_self, getElem?_cons_zero] at hget
    rw [getElem?_map, getElem?_range' (by omega)] at hget
    simpa using (Option.some.inj hget).symm
  by_contra hafter
  have hbefore : before.length < n := by
    have := length_pos_of_ne_nil hafter
    omega
  rw [hattempt] at hanswered
  exact hanswered (hnone _ hbefore)

theorem FleetWriteLaw.of_unsent (hevents : (executeFleetWrite deps write).2 = [])
    (hresult : ∀ result ∈ (executeFleetWrite deps write).1, result.isDelivered = false ∧ result.refetch? = none ∧
      result.requestId = requestId deps write ∧ result.attempts = 0)
    (hrefetches : FleetWriteLaw.Refetches deps write) : FleetWriteLaw deps write := by
  have hattempts : attemptsOf (executeFleetWrite deps write).2 = [] := by rw [hevents]; rfl
  refine ⟨?_, ?_, ?_, ?_, ?_, ?_, hrefetches⟩
  · rw [hattempts]
    exact Nat.zero_le _
  · rw [hattempts]
    exact fun attempt hmem ↦ absurd hmem not_mem_nil
  · rw [hattempts]
    exact fun result hmem ↦ ⟨(hresult result hmem).2.2.1, (hresult result hmem).2.2.2⟩
  · rw [hattempts]
    exact fun before attempt after h ↦ absurd h.symm (by simp)
  · rw [hattempts]
    refine ⟨fun ⟨result, hmem, hdelivered⟩ ↦ ?_, fun ⟨_, hmem, _⟩ ↦ absurd hmem not_mem_nil⟩
    exact absurd ((hresult result hmem).1.symm.trans hdelivered) Bool.false_ne_true
  · rw [hattempts]
    exact ⟨fun ⟨result, hmem, hrefetch⟩ ↦ absurd (hresult result hmem).2.1 hrefetch, fun h ↦ absurd rfl h.1⟩

theorem FleetWriteLaw.of_answered {token : String} {incoming : Url} {n : ℕ} (hn : n ≤ deps.maxRetries)
    (hnone : ∀ i < n, (deps.answers i).status? = none) {status : ℕ} {text contentType : Option String}
    (hresponse : deps.answers n = .response status text contentType)
    (hexec : executeFleetWrite deps write = (some (resolveAnswer deps write status text contentType (n + 1)).1,
      tries deps (upstreamRequest deps write token incoming) 0 (n + 1)
        ++ (resolveAnswer deps write status text contentType (n + 1)).2))
    (hrefetches : FleetWriteLaw.Refetches deps write) : FleetWriteLaw deps write := by
  have hattempts : attemptsOf (executeFleetWrite deps write).2
      = (List.range' 0 (n + 1)).map fun i ↦ (upstreamRequest deps write token incoming, deps.answers i) := by
    rw [hexec, attemptsOf_append, attemptsOf_tries, attemptsOf_resolveAnswer, append_nil]
  have hspec := resolveAnswer_spec deps write status text contentType (n + 1)
  have hlast : (upstreamRequest deps write token incoming, deps.answers n) ∈
      attemptsOf (executeFleetWrite deps write).2 := by
    rw [hattempts]
    exact List.mem_map_of_mem (mem_range'_1.mpr ⟨Nat.zero_le n, by omega⟩)
  have hstatus : (deps.answers n).status? = some status := by rw [hresponse]; rfl
  refine ⟨?_, ?_, ?_, ?_, ?_, ?_, hrefetches⟩
  · rw [hattempts, length_map, length_range']
    omega
  · rw [hattempts]
    rintro attempt hmem
    obtain ⟨i, -, rfl⟩ := List.mem_map.mp hmem
    exact own?_upstreamHeaders deps write token
  · rw [hattempts, hexec, length_map, length_range']
    rintro result hmem
    obtain rfl := Option.some.inj hmem
    exact ⟨hspec.2.2.1, hspec.2.2.2⟩
  · rw [hattempts]
    exact fun before attempt after h hanswered ↦ eq_nil_of_tries hnone h hanswered
  · refine ⟨fun ⟨result, hmem, hdelivered⟩ ↦ ⟨_, hlast, status, hstatus, ?_⟩, fun ⟨attempt, hmem, s, hs, hok⟩ ↦ ?_⟩
    · rw [hexec] at hmem
      obtain rfl := Option.some.inj hmem
      rwa [hspec.1] at hdelivered
    · refine ⟨_, by rw [hexec]; rfl, ?_⟩
      rw [hspec.1]
      rw [hattempts] at hmem
      obtain ⟨i, hi, rfl⟩ := List.mem_map.mp hmem
      have hin : i = n := by
        by_contra hne
        have hlt := (mem_range'_1.mp hi).2
        rw [hnone i (by omega)] at hs
        exact absurd hs (by simp)
      rw [hin, hstatus] at hs
      rwa [Option.some.inj hs]
  · refine ⟨fun ⟨result, hmem, hrefetch⟩ ↦ ?_, fun h ↦ ?_⟩
    · rw [hexec] at hmem
      obtain rfl := Option.some.inj hmem
      exact absurd hspec.2.1 hrefetch
    · exact absurd ((h.2 _ hlast).symm.trans hstatus) (by simp)

/-- And one whose budget is spent, as long as it fetches the right session. -/
theorem FleetWriteLaw.of_unanswered {token : String} {incoming : Url} {detail : Option String} {refetch : Refetch}
    {refetched : Option Url} (hnone : ∀ i ≤ deps.maxRetries, (deps.answers i).status? = none)
    (hexec : executeFleetWrite deps write = (some (.ambiguous
        (undelivered deps write "fleet-write-ambiguous" detail (deps.maxRetries + 1)) refetch),
      tries deps (upstreamRequest deps write token incoming) 0 (deps.maxRetries + 1)
        ++ [.refetch refetched (deps.hubUpstreamAuthHeader token)]))
    (hrefetches : FleetWriteLaw.Refetches deps write) : FleetWriteLaw deps write := by
  have hattempts : attemptsOf (executeFleetWrite deps write).2 = (List.range' 0 (deps.maxRetries + 1)).map fun i ↦
      (upstreamRequest deps write token incoming, deps.answers i) := by
    rw [hexec, attemptsOf_append, attemptsOf_tries]
    exact append_nil _
  have hunanswered : ∀ attempt ∈ attemptsOf (executeFleetWrite deps write).2, attempt.2.status? = none := by
    rw [hattempts]
    rintro attempt hmem
    obtain ⟨i, hi, rfl⟩ := List.mem_map.mp hmem
    exact hnone i (by have := (mem_range'_1.mp hi).2; omega)
  refine ⟨?_, ?_, ?_, ?_, ?_, ?_, hrefetches⟩
  · rw [hattempts, length_map, length_range']
    omega
  · rw [hattempts]
    rintro attempt hmem
    obtain ⟨i, -, rfl⟩ := List.mem_map.mp hmem
    exact own?_upstreamHeaders deps write token
  · rw [hattempts, hexec, length_map, length_range']
    rintro result hmem
    obtain rfl := Option.some.inj hmem
    exact ⟨rfl, rfl⟩
  · rintro before attempt after h hanswered
    exact absurd (hunanswered attempt (by rw [h]; simp)) hanswered
  · refine ⟨fun ⟨result, hmem, hdelivered⟩ ↦ ?_, fun ⟨attempt, hmem, s, hs, _⟩ ↦ ?_⟩
    · rw [hexec] at hmem
      obtain rfl := Option.some.inj hmem
      exact absurd hdelivered Bool.false_ne_true
    · rw [hunanswered attempt hmem] at hs
      exact absurd hs (by simp)
  · have hambiguous : ∃ result ∈ (executeFleetWrite deps write).1, result.refetch? ≠ none := by
      rw [hexec]
      exact ⟨_, rfl, some_ne_none _⟩
    refine ⟨fun _ ↦ ⟨?_, hunanswered⟩, fun _ ↦ hambiguous⟩
    rw [hattempts, range'_succ]
    exact cons_ne_nil _ _

theorem fleetWriteLaw_of_refetches (hrefetches : FleetWriteLaw.Refetches deps write) : FleetWriteLaw deps write := by
  rcases executeFleetWrite_cases deps write with ⟨hevents, -, hresult⟩ |
    ⟨base, -, token, -, incoming, -, ⟨n, hn, hnone, status, text, contentType, hresponse, hexec⟩ |
      ⟨hnone, detail, refetched, hexec⟩⟩
  · exact .of_unsent hevents hresult hrefetches
  · exact .of_answered hn hnone hresponse hexec hrefetches
  · exact .of_unanswered hnone hexec hrefetches

/-- The session is fetched again unless the write is unanswered under the newer root. -/
theorem refetches_iff (deps : FleetWriteDeps) (write : FleetWriteRequest) :
    FleetWriteLaw.Refetches deps write ↔ ¬ UnansweredUnderApi deps write := by
  rcases executeFleetWrite_cases deps write with ⟨-, hunsent, hresult⟩ |
    ⟨base, hbase, token, htoken, incoming, hincoming, ⟨n, hn, hnone, status, text, contentType, hresponse, hexec⟩ |
      ⟨hnone, detail, refetched, hexec⟩⟩
  · refine iff_of_true (fun base _ incoming _ get _ result hmem refetch hrefetch ↦ ?_) ?_
    · rw [(hresult result hmem).2.1] at hrefetch
      exact absurd hrefetch (by simp)
    · rintro ⟨⟨base, hbase, incoming, hincoming, -⟩, ⟨token, htoken⟩, -⟩
      rcases hunsent with hurl | hcredential | haddress
      · exact absurd (hurl.symm.trans hbase) (by simp)
      · exact hcredential token htoken
      · exact absurd ((haddress base hbase).symm.trans hincoming) (by simp)
  · refine iff_of_true (fun base _ incoming _ get _ result hmem refetch hrefetch ↦ ?_) ?_
    · rw [hexec] at hmem
      obtain rfl := Option.some.inj hmem
      rw [(resolveAnswer_spec deps write status text contentType (n + 1)).2.1] at hrefetch
      exact absurd hrefetch (by simp)
    · rintro ⟨-, -, hunanswered⟩
      have hstatus := hunanswered n hn
      rw [hresponse] at hstatus
      exact absurd hstatus nofun
  · rcases hapi : segmentAfter? API_SESSION_ROOT incoming.pathname with _ | id
    · refine iff_of_true (fun base' hbase' incoming' hincoming' get hget result hmem refetch hrefetch ↦ ?_) ?_
      · obtain rfl := Option.some.inj (hbase'.symm.trans hbase)
        obtain rfl := Option.some.inj (hincoming'.symm.trans hincoming)
        rw [hexec] at hmem
        obtain rfl := Option.some.inj hmem
        obtain rfl := Option.some.inj hrefetch
        obtain ⟨id, hid, rfl⟩ := segmentAfter?_of_sessionGetPath? hget hapi
        rw [← deriveRefetchPath_of_session hid incoming'.query_notMem, refetchThread]
        split <;> rfl
      · rintro ⟨⟨base', hbase', incoming', hincoming', hsome⟩, -, -⟩
        obtain rfl := Option.some.inj (hbase'.symm.trans hbase)
        obtain rfl := Option.some.inj (hincoming'.symm.trans hincoming)
        rw [hapi] at hsome
        exact absurd hsome Bool.false_ne_true
    · refine iff_of_false (fun hrefetches ↦ ?_) (not_not.mpr ?_)
      · -- the path that is fetched is `/api`, which is no session's
        have hpath : deriveRefetchPath incoming.pathname = API_SESSION_ROOT ++ id := by
          have h := hrefetches base hbase incoming hincoming _ (sessionGetPath?_of_api hapi) _
            (by rw [hexec]; rfl) _ rfl
          rw [← h, refetchThread]
          split <;> rfl
        rw [deriveRefetchPath_of_api hapi incoming.query_notMem] at hpath
        exact absurd hpath nofun
      · exact ⟨⟨base, hbase, incoming, hincoming, by rw [hapi]; rfl⟩, ⟨token, htoken⟩, hnone⟩

/-- **Fleet writes.** Every write keeps its contract, whatever its attempts get, except that one to a session under
`/api/session/` that is never answered fetches `/api`. -/
theorem fleetWriteLaw_iff (deps : FleetWriteDeps) (write : FleetWriteRequest) :
    FleetWriteLaw deps write ↔ ¬ UnansweredUnderApi deps write :=
  ⟨fun h ↦ (refetches_iff deps write).mp h.refetched,
    fun h ↦ fleetWriteLaw_of_refetches ((refetches_iff deps write).mpr h)⟩

/-! ### A message that is never answered -/

/-- A hub whose attempts all time out, and the addresses of one session's paths. -/
def silentHub : FleetWriteDeps where
  url := some "http://hub"
  credential := .ok "token"
  maxRetries := 2
  parseUrl url _ := if h : '?' ∉ url.toList then some ⟨url.toList, [], h⟩ else none
  toLowerCase := id
  hubUpstreamAuthHeader token := s!"Basic {token}"
  randomUUID := "r1"
  answers _ := .noResponse "timeout"
  refetchAnswer := .response 200 (some "html") none

def apiPrompt : FleetWriteRequest := ⟨"POST", "/api/session/ses1/prompt", [], "hello"⟩

/-- The prompt is for the session `ses1`, and what is fetched again is `/api`. -/
theorem apiPrompt_refetch : ¬ FleetWriteLaw silentHub apiPrompt := by
  intro h
  have hpath := h.refetched "http://hub" rfl ⟨"/api/session/ses1/prompt".toList, [], by decide⟩ rfl
    "/api/session/ses1".toList (by decide +kernel) _ rfl _ rfl
  exact absurd hpath (by decide +kernel)

end Law

end Amicode.Fleet
