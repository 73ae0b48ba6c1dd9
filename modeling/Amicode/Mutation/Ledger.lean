import Amicode.Foundation.InsertionMap
import Amicode.Foundation.JsonValue
import Amicode.Foundation.StepMachine

/-!
# The session mutation ledger

Every declared write of a session goes through the ledger (`session/mutation.ts`): a caller is issued
a context bound to what it may do, and hands it in again with the request it wants executed. The
ledger checks the request against the context, looks up whether the operation was executed before,
checks that the resources still are what was declared, and only then lets a provider act. What came
of it is recorded under the root and the operation id.

There are three kinds of execution, over one store of operations: one write of a local file, an
opaque action that is recorded but not performed here, and a group of declared resources that are
written one after the other.

## What the model adds

A context is the number of its issue. What the host and the provider answer during a call is part of
the operation; a provider is asked by the number of the question, so that it may answer the same
question differently. An execution also gives the list of the provider's calls.
-/

namespace Amicode.Mutation

/-! ## Data -/

/-- What happens to the writes of a route. -/
inductive RouteKind
  | ledger
  | opaqueAction
  | outOfScope
deriving DecidableEq

/-- A route that can write. -/
structure Route where
  id : String
  kind : RouteKind

def routes : List Route :=
  [⟨"local-file-write", .ledger⟩, ⟨"tool-write", .ledger⟩, ⟨"tool-edit", .ledger⟩,
    ⟨"tool-apply-patch", .ledger⟩, ⟨"direct-file-write", .ledger⟩,
    ⟨"plugin-problem-record", .ledger⟩, ⟨"runner-run-metadata", .ledger⟩,
    ⟨"runner-artifact", .ledger⟩, ⟨"user-sidebar-op", .ledger⟩, ⟨"user-preview-edit", .ledger⟩,
    ⟨"user-review-edit", .ledger⟩, ⟨"shell-action", .opaqueAction⟩, ⟨"mcp-action", .opaqueAction⟩,
    ⟨"custom-tool-action", .opaqueAction⟩, ⟨"cli-action", .opaqueAction⟩,
    ⟨"ledger-infrastructure", .outOfScope⟩, ⟨"credential-store", .outOfScope⟩,
    ⟨"cache-store", .outOfScope⟩, ⟨"queue-store", .outOfScope⟩, ⟨"updater-state", .outOfScope⟩,
    ⟨"telemetry-store", .outOfScope⟩, ⟨"retention-state", .outOfScope⟩]

/-- `Registry.require`. -/
def requireRoute (id : String) : Option Route := routes.find? fun route ↦ route.id == id

inductive EndpointKind
  | file
  | directory
deriving DecidableEq

def EndpointKind.name : EndpointKind → String
  | .file => "file"
  | .directory => "directory"

/-- The physical identity of a resource. -/
structure Endpoint where
  value : String
  kind : EndpointKind
deriving DecidableEq

inductive ResourceOperation
  | write
  | edit
  | patch
  | move
  | delete
  | createParent
  | format
deriving DecidableEq

def ResourceOperation.name : ResourceOperation → String
  | .write => "write"
  | .edit => "edit"
  | .patch => "patch"
  | .move => "move"
  | .delete => "delete"
  | .createParent => "create_parent"
  | .format => "format"

inductive ResourceRole
  | target
  | source
  | destination
  | implicitParent
  | formatter
deriving DecidableEq

def ResourceRole.name : ResourceRole → String
  | .target => "target"
  | .source => "source"
  | .destination => "destination"
  | .implicitParent => "implicit_parent"
  | .formatter => "formatter"

structure DeclaredResource where
  id : String
  endpoint : Endpoint
  operation : ResourceOperation
  role : ResourceRole
deriving DecidableEq

/-- What became of a declared resource. -/
inductive ReceiptOutcome
  | applied
  | failed
  | notStarted
deriving DecidableEq

structure ResourceReceipt extends DeclaredResource where
  outcome : ReceiptOutcome
deriving DecidableEq

def DeclaredResource.receipt (resource : DeclaredResource) (outcome : ReceiptOutcome) :
    ResourceReceipt :=
  { resource with outcome }

/-- The outcome of a group; `partly` is the source's `partial`. -/
inductive GroupOutcome
  | applied
  | partly
  | failed
  | denied
deriving DecidableEq

structure GroupResult where
  groupID : String
  outcome : GroupOutcome
  receipts : List ResourceReceipt
deriving DecidableEq

/-- The receipt of an opaque action. -/
structure UnknownReceipt where
  operationID : String
  origin : String
  operation : String
deriving DecidableEq

/-- What an operation came to. -/
inductive RecordedResult
  | result (groupID outcome : String)
  | group (result : GroupResult)
  | unknown (groupID : String) (receipt : UnknownReceipt)
deriving DecidableEq

structure OperationRecord where
  fingerprint : List Char
  result : RecordedResult
deriving DecidableEq

/-- What a request names and a context is bound to. -/
structure Scope where
  routeID : String
  panelID : String
  sessionID : String
  rootID : String
  origin : String
  operation : String
deriving DecidableEq

structure Request extends Scope where
  operationID : String
  source : Option Endpoint
  destination : Option Endpoint

structure OpaqueRequest extends Scope where
  operationID : String
  resources : Option (List DeclaredResource)

structure GroupRequest extends Scope where
  operationID : String
  resources : List DeclaredResource
  /-- `maxResources` of a recursive group. -/
  recursive : Option ℤ

inductive ContextBinding
  | localWrite (source : Endpoint) (destination : Option Endpoint)
  | group (resources : List DeclaredResource) (recursive : Option ℤ)
  | opaqueAction
deriving DecidableEq

structure StoredContext extends Scope where
  binding : ContextBinding
  expiresAt : ℤ

/-- Which of its two kinds of context `issue` is asked for. -/
inductive IssueKind
  | localWrite
  | opaqueAction
deriving DecidableEq

structure Issue extends Scope where
  kind : IssueKind
  source : Option Endpoint
  destination : Option Endpoint
  expiresAt : ℤ

structure GroupIssue extends Scope where
  resources : List DeclaredResource
  recursive : Option ℤ
  expiresAt : ℤ

inductive DenialReason
  | missingContext
  | invalidContext
  | expiredContext
  | unsafeProvider
  | invalidReplay
  | identityChanged
  | resourceBudgetExceeded
deriving DecidableEq

/-- What an execution returns, or that an exception of the provider left it. -/
inductive Answer
  | denied (reason : DenialReason) (result : Option GroupResult)
  | executed (result : RecordedResult)
  | replayed (result : RecordedResult)
  | threw
deriving DecidableEq

/-! ## The environment of a call -/

/-- What the host answers during a call. -/
structure Host where
  rootForSession : String → Option String
  now : ℤ

structure Capabilities where
  safeResolve : Bool
  noFollowWrite : Bool

structure LocalProvider where
  capabilities : Capabilities
  /-- The answer to the n-th `safeResolve` of a call, which may be a throw. -/
  safeResolve : ℕ → Endpoint → Except Unit (Option Endpoint)
  noFollowWrite : Endpoint → Option Endpoint → Except Unit (Option (String × String))

inductive ExecuteOutcome
  | applied
  | failed
  | threw

/-- The outcome of a resource: a throw counts as a failure. -/
def ExecuteOutcome.receipt : ExecuteOutcome → ReceiptOutcome
  | .applied => .applied
  | .failed => .failed
  | .threw => .failed

structure GroupProvider where
  capabilities : Capabilities
  /-- The answer to the n-th `safeResolve` of a call, which may be a throw. -/
  safeResolve : ℕ → Endpoint → Except Unit (Option Endpoint)
  /-- The answer to the n-th `execute` of a call. -/
  execute : ℕ → DeclaredResource → ExecuteOutcome

inductive ProviderCall
  | safeResolve (endpoint : Endpoint)
  | noFollowWrite (source : Endpoint) (destination : Option Endpoint)
  | execute (resource : DeclaredResource)
deriving DecidableEq

structure LocalExecution where
  host : Host
  context : Option ℕ
  request : Request
  provider : LocalProvider

structure OpaqueExecution where
  host : Host
  context : Option ℕ
  request : OpaqueRequest

structure GroupExecution where
  host : Host
  context : Option ℕ
  request : GroupRequest
  provider : GroupProvider

structure Ledger where
  contexts : InsertionMap ℕ StoredContext
  nextContext : ℕ
  operations : InsertionMap String OperationRecord

/-- What a call does: the ledger afterwards, the answer, and the calls of the provider. -/
structure Outcome where
  ledger : Ledger
  answer : Answer
  calls : List ProviderCall

/-! ## Texts -/

def Endpoint.json (endpoint : Endpoint) : JsonValue :=
  .obj [("value", .str endpoint.value), ("kind", .str endpoint.kind.name)]

def DeclaredResource.json (resource : DeclaredResource) : JsonValue :=
  .obj [("id", .str resource.id), ("endpoint", resource.endpoint.json),
    ("operation", .str resource.operation.name), ("role", .str resource.role.name)]

def resourcesJson (resources : List DeclaredResource) : JsonValue :=
  .arr (resources.map DeclaredResource.json)

/-- A member of an object whose value may be undefined. -/
def member? (key : String) (value : Option JsonValue) : List (String × JsonValue) :=
  (value.map fun value ↦ (key, value)).toList

def operationKey (rootID operationID : String) : String :=
  String.ofList (JsText.stringify (.arr [.str rootID, .str operationID]))

/-- `fingerprint`, of the fields it reads. -/
def fingerprint (request : Scope) (source destination : Option Endpoint)
    (resources : Option (List DeclaredResource)) : List Char :=
  JsText.stringify (.obj
    ([("routeID", .str request.routeID), ("operation", .str request.operation)]
      ++ member? "source" (source.map Endpoint.json)
      ++ member? "destination" (destination.map Endpoint.json)
      ++ member? "resources" (resources.map resourcesJson)
      ++ [("rootID", .str request.rootID), ("origin", .str request.origin)]))

def groupFingerprint (request : GroupRequest) : List Char :=
  JsText.stringify (.obj
    ([("routeID", .str request.routeID), ("operation", .str request.operation),
        ("resources", resourcesJson request.resources)]
      ++ member? "recursive"
        (request.recursive.map fun n ↦ .obj [("maxResources", .num (toString n))])
      ++ [("rootID", .str request.rootID), ("origin", .str request.origin)]))

def validResources (resources : List DeclaredResource) : Bool :=
  0 < resources.length && resources.all (fun resource ↦ 0 < resource.id.length)
    && (resources.map DeclaredResource.id).Nodup

/-- `Number.isSafeInteger`. -/
def isSafeInteger (n : ℤ) : Bool := n.natAbs ≤ 2 ^ 53 - 1

namespace Ledger

def create (operations : InsertionMap String OperationRecord) : Ledger := ⟨∅, 0, operations⟩

/-- `create` again, over the same store: no context is known any more. -/
def recreate (s : Ledger) : Ledger := { s with contexts := ∅ }

/-! ## Contexts -/

/-- Store a context under a new handle. -/
def addContext (s : Ledger) (context : StoredContext) : Ledger :=
  { s with contexts := s.contexts.set s.nextContext context, nextContext := s.nextContext + 1 }

def granted (host : Host) (request : Issue) : Option StoredContext :=
  match requireRoute request.routeID with
  | none => none
  | some route =>
    if host.rootForSession request.sessionID ≠ some request.rootID then none
    else if request.kind = .localWrite then
      match route.kind, request.source with
      | .ledger, some source =>
        some ⟨request.toScope, .localWrite source request.destination, request.expiresAt⟩
      | _, _ => none
    else if route.kind ≠ .opaqueAction then none
    else if request.source.isSome || request.destination.isSome then none
    else some ⟨request.toScope, .opaqueAction, request.expiresAt⟩

def issue (s : Ledger) (host : Host) (request : Issue) : Ledger :=
  match granted host request with
  | none => s
  | some context => s.addContext context

/-- Does `issueGroup` grant a context? -/
def grantsGroup (host : Host) (request : GroupIssue) : Bool :=
  (requireRoute request.routeID).any (fun route ↦ route.kind = .ledger)
    && validResources request.resources
    && request.recursive.all (fun n ↦ isSafeInteger n && 1 ≤ n)
    && host.rootForSession request.sessionID == some request.rootID

def issueGroup (s : Ledger) (host : Host) (request : GroupIssue) : Ledger :=
  if grantsGroup host request then
    s.addContext
      ⟨request.toScope, .group request.resources request.recursive, request.expiresAt⟩
  else s

def revoke (s : Ledger) (context : ℕ) : Ledger := { s with contexts := s.contexts.erase context }

/-! ## Checks -/

/-- What the three executions check first: the context exists, has not expired, and its session
still belongs to its root. -/
def liveContext (s : Ledger) (host : Host) (context : Option ℕ) :
    Except DenialReason StoredContext :=
  match context with
  | none => .error .missingContext
  | some handle =>
    match s.contexts.get? handle with
    | none => .error .invalidContext
    | some context =>
      if context.expiresAt ≤ host.now then .error .expiredContext
      else if host.rootForSession context.sessionID ≠ some context.rootID then
        .error .invalidContext
      else .ok context

def validateLocal (s : Ledger) (x : LocalExecution) : Except DenialReason StoredContext :=
  match s.liveContext x.host x.context with
  | .error reason => .error reason
  | .ok context =>
    match context.binding with
    | .localWrite source destination =>
      if x.request.toScope = context.toScope ∧ x.request.source = some source
          ∧ x.request.destination = destination then .ok context
      else .error .invalidContext
    | _ => .error .invalidContext

def validateGroup (s : Ledger) (x : GroupExecution) :
    Except DenialReason (StoredContext × List DeclaredResource × Option ℤ) :=
  match s.liveContext x.host x.context with
  | .error reason => .error reason
  | .ok context =>
    match context.binding with
    | .group resources recursive =>
      if x.request.toScope = context.toScope ∧ x.request.recursive = recursive
          ∧ x.request.resources = resources then .ok (context, resources, recursive)
      else .error .invalidContext
    | _ => .error .invalidContext

/-- The check of `executeOpaque`. -/
def validateOpaque (s : Ledger) (x : OpaqueExecution) : Except DenialReason StoredContext :=
  match s.liveContext x.host x.context with
  | .error reason => .error reason
  | .ok context =>
    if context.binding = .opaqueAction ∧ x.request.toScope = context.toScope then .ok context
    else .error .invalidContext

/-! ## Executions -/

/-- A denial before anything has happened. -/
def deny (s : Ledger) (reason : DenialReason) : Outcome := ⟨s, .denied reason none, []⟩

/-- `operations.set`. -/
def record (s : Ledger) (key : String) (fingerprint : List Char) (result : RecordedResult) :
    Ledger :=
  { s with operations := s.operations.set key ⟨fingerprint, result⟩ }

/-- An operation that is recorded already is answered from the record, if it is the same. -/
def replay (s : Ledger) (previous : OperationRecord) (normalized : List Char) : Outcome :=
  if previous.fingerprint ≠ normalized then s.deny .invalidReplay
  else ⟨s, .replayed previous.result, []⟩

/-- What `executeOpaque` records. -/
def opaqueResult (context : StoredContext) (request : OpaqueRequest) : RecordedResult :=
  match request.resources.filter fun resources ↦ validResources resources with
  | some resources =>
    .group ⟨request.operationID, .applied, resources.map fun resource ↦ resource.receipt .applied⟩
  | none =>
    .unknown request.operationID ⟨request.operationID, context.origin, context.operation⟩

def executeOpaque (s : Ledger) (x : OpaqueExecution) : Outcome :=
  match s.validateOpaque x with
  | .error reason => s.deny reason
  | .ok context =>
    let key := operationKey context.rootID x.request.operationID
    let normalized := fingerprint x.request.toScope none none x.request.resources
    match s.operations.get? key with
    | some previous => s.replay previous normalized
    | none =>
      let result := opaqueResult context x.request
      ⟨s.record key normalized result, .executed result, []⟩

/-- The end of `executeLocal`: the write, once the two endpoints were resolved. -/
def writeLocal (s : Ledger) (provider : LocalProvider) (binding : ContextBinding)
    (source destination : Option Endpoint) (key : String) (normalized : List Char)
    (calls : List ProviderCall) : Outcome :=
  match binding, source with
  | .localWrite declared declaredDestination, some source =>
    -- a destination that was declared and does not resolve is not the declared one either
    if source ≠ declared ∨ destination ≠ declaredDestination then
      ⟨s, .denied .identityChanged none, calls⟩
    else
      let calls := calls ++ [.noFollowWrite source destination]
      match provider.noFollowWrite source destination with
      | .error _ => ⟨s, .threw, calls⟩
      | .ok none => ⟨s, .denied .identityChanged none, calls⟩
      | .ok (some (groupID, outcome)) =>
        let result : RecordedResult := .result groupID outcome
        ⟨s.record key normalized result, .executed result, calls⟩
  | _, _ => ⟨s, .denied .identityChanged none, calls⟩

/-- The part of `executeLocal` after the lookup: resolve the endpoints, then write. -/
def resolveLocal (s : Ledger) (x : LocalExecution) (binding : ContextBinding) (source : Endpoint)
    (key : String) (normalized : List Char) : Outcome :=
  match x.provider.safeResolve 0 source with
  | .error _ => ⟨s, .threw, [.safeResolve source]⟩
  | .ok resolved =>
    match x.request.destination with
    | none => s.writeLocal x.provider binding resolved none key normalized [.safeResolve source]
    | some destination =>
      let calls := [.safeResolve source, .safeResolve destination]
      match x.provider.safeResolve 1 destination with
      | .error _ => ⟨s, .threw, calls⟩
      | .ok resolvedDestination =>
        s.writeLocal x.provider binding resolved resolvedDestination key normalized calls

def executeLocal (s : Ledger) (x : LocalExecution) : Outcome :=
  match s.validateLocal x with
  | .error reason => s.deny reason
  | .ok context =>
    if !x.provider.capabilities.safeResolve || !x.provider.capabilities.noFollowWrite then
      s.deny .unsafeProvider
    else
      let key := operationKey context.rootID x.request.operationID
      let normalized := fingerprint x.request.toScope x.request.source x.request.destination none
      match s.operations.get? key with
      | some previous => s.replay previous normalized
      | none =>
        match x.request.source with
        | none => s.deny .invalidContext
        | some source => s.resolveLocal x context.binding source key normalized

/-! ### Groups -/

/-- Is the group over its budget of resources? -/
def overBudget (resources : List DeclaredResource) (recursive : Option ℤ) : Bool :=
  recursive.any fun maxResources ↦ (resources.length : ℤ) > maxResources

/-- Has the identity of a resource changed? The resources are resolved in order, from the n-th
question on, until one is not what was declared. -/
def identityChanged (provider : GroupProvider) :
    ℕ → List DeclaredResource → List ProviderCall × Except Unit Bool
  | _, [] => ([], .ok false)
  | n, resource :: rest =>
    match provider.safeResolve n resource.endpoint with
    | .error e => ([.safeResolve resource.endpoint], .error e)
    | .ok endpoint =>
      if endpoint ≠ some resource.endpoint then ([.safeResolve resource.endpoint], .ok true)
      else
        let r := identityChanged provider (n + 1) rest
        (.safeResolve resource.endpoint :: r.1, r.2)

/-- The loop over the resources: after the first failure the rest is not started. -/
def commit (provider : GroupProvider) (resources : List DeclaredResource) :
    List DeclaredResource → List ResourceReceipt → List ProviderCall →
      List ResourceReceipt × List ProviderCall
  | [], receipts, calls => (receipts, calls)
  | resource :: rest, receipts, calls =>
    let outcome := (provider.execute receipts.length resource).receipt
    let calls := calls ++ [.execute resource]
    let receipts := receipts ++ [resource.receipt outcome]
    -- `resources.slice(receipts.length)` is what comes after this resource
    if outcome = .failed then
      (receipts ++ (resources.drop receipts.length).map fun next ↦ next.receipt .notStarted, calls)
    else commit provider resources rest receipts calls

def groupOutcome (receipts : List ResourceReceipt) : GroupOutcome :=
  if receipts.any (fun receipt ↦ receipt.outcome = .failed) then
    if receipts.any (fun receipt ↦ receipt.outcome = .applied) then .partly else .failed
  else .applied

/-- The part of `executeGroup` after the lookup. -/
def runGroup (s : Ledger) (x : GroupExecution) (resources : List DeclaredResource)
    (recursive : Option ℤ) (key : String) (normalized : List Char) : Outcome :=
  if overBudget resources recursive then
    let result : GroupResult := ⟨x.request.operationID, .denied, []⟩
    ⟨s.record key normalized (.group result), .denied .resourceBudgetExceeded (some result), []⟩
  else
    match identityChanged x.provider 0 resources with
    | (calls, .error _) => ⟨s, .threw, calls⟩
    | (calls, .ok true) =>
      let receipts := resources.map fun resource ↦ resource.receipt .notStarted
      let result : GroupResult := ⟨x.request.operationID, .failed, receipts⟩
      ⟨s.record key normalized (.group result), .executed (.group result), calls⟩
    | (calls, .ok false) =>
      let r := commit x.provider resources resources [] calls
      let result : GroupResult := ⟨x.request.operationID, groupOutcome r.1, r.1⟩
      ⟨s.record key normalized (.group result), .executed (.group result), r.2⟩

def executeGroup (s : Ledger) (x : GroupExecution) : Outcome :=
  match s.validateGroup x with
  | .error reason => s.deny reason
  | .ok (context, resources, recursive) =>
    if !x.provider.capabilities.safeResolve || !x.provider.capabilities.noFollowWrite then
      s.deny .unsafeProvider
    else
      let key := operationKey context.rootID x.request.operationID
      let normalized := groupFingerprint x.request
      match s.operations.get? key with
      | some previous => s.replay previous normalized
      | none => s.runGroup x resources recursive key normalized

end Ledger

/-- A call of the ledger, or the creation of the next one over its store. -/
inductive LedgerOp
  | recreate
  | issue (host : Host) (request : Issue)
  | issueGroup (host : Host) (request : GroupIssue)
  | revoke (context : ℕ)
  | executeOpaque (x : OpaqueExecution)
  | executeLocal (x : LocalExecution)
  | executeGroup (x : GroupExecution)

def Ledger.step (s : Ledger) : LedgerOp → Ledger
  | .recreate => s.recreate
  | .issue host request => s.issue host request
  | .issueGroup host request => s.issueGroup host request
  | .revoke context => s.revoke context
  | .executeOpaque x => (s.executeOpaque x).ledger
  | .executeLocal x => (s.executeLocal x).ledger
  | .executeGroup x => (s.executeGroup x).ledger

end Amicode.Mutation
