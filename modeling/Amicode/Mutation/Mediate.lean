import Amicode.Mutation.Ledger

/-!
# Mediated user mutations

A file operation of a user reaches the ledger as an intent (`session/user-mutation.ts`): an operation,
the targets as they are displayed, and an idempotency key. The host resolves the targets to physical
identities, obtains the context of a group for them, executes the group under the idempotency key, and
answers with what may be displayed.

What the host answers during a call is part of the call: the resolution of a target is asked by the
number of the question, and the ledger looks at the host twice, when it issues the context and when it
executes the group. A call that an exception leaves has no result.
-/

namespace Amicode.Mutation

/-! ## Intents -/

/-- The panel an operation comes from. -/
inductive Panel
  | sidebar
  | preview
  | review
deriving DecidableEq

/-- The route of a panel: `Routes`. -/
def Panel.route : Panel → String
  | .sidebar => "user-sidebar-op"
  | .preview => "user-preview-edit"
  | .review => "user-review-edit"

inductive TargetOperation
  | create
  | directory
  | edit
deriving DecidableEq

def TargetOperation.name : TargetOperation → String
  | .create => "create"
  | .directory => "directory"
  | .edit => "edit"

inductive MoveOperation
  | move
  | trash
  | restore
deriving DecidableEq

def MoveOperation.name : MoveOperation → String
  | .move => "move"
  | .trash => "trash"
  | .restore => "restore"

inductive IntentAction
  | onTarget (operation : TargetOperation) (target : String)
  | withDestination (operation : MoveOperation) (target destination : String)
  | recursiveDelete (targets : List String) (maxResources : ℤ)
deriving DecidableEq

def IntentAction.name : IntentAction → String
  | .onTarget operation _ => operation.name
  | .withDestination operation _ _ => operation.name
  | .recursiveDelete _ _ => "recursive_delete"

structure MutationIntent where
  action : IntentAction
  panel : Panel
  idempotencyKey : String
deriving DecidableEq

/-- What was discovered about the mediation of user mutations. -/
inductive MediationCapability
  | full
  | postUpgradePartial
  | legacy
  | unavailable
deriving DecidableEq

/-- The host's view of the initiating panel and session, taken before the input. -/
structure PanelSnapshot where
  panelID : String
  sessionID : String
  rootID : String
  origin : String
deriving DecidableEq

/-- What a receipt shows. -/
structure DisplayResource where
  operation : ResourceOperation
  role : ResourceRole
  outcome : ReceiptOutcome
deriving DecidableEq

inductive DenyReason
  | unavailable
  | nonUserOrigin
  | unresolvedTarget
  | contextUnavailable
  | resourceBudgetExceeded
  | unsafeProvider
  | invalidContext
deriving DecidableEq

/-- The kinds of a mediated result; `partly` is the source's `partial`. -/
inductive MediatedKind
  | applied
  | partly
  | failed
deriving DecidableEq

inductive MediationResult
  | mediated (kind : MediatedKind) (panel : Panel) (resources : List DisplayResource)
      (postUpgradePartial : Bool)
  | legacy
  | denied (reason : DenyReason)
deriving DecidableEq

/-- What `planResources` comes to. -/
structure Plan where
  resources : List DeclaredResource
  recursive : Option ℤ
deriving DecidableEq

/-- The host's side of a call. -/
structure HostProvider where
  capabilities : Capabilities
  /-- The answer to the n-th `resolveTarget` of a call, which may be a throw. -/
  resolveTarget : ℕ → String → Except Unit (Option Endpoint)
  safeResolve : ℕ → Endpoint → Except Unit (Option Endpoint)
  execute : ℕ → DeclaredResource → ExecuteOutcome

structure MediateCall where
  intent : MutationIntent
  capability : MediationCapability
  snapshot : PanelSnapshot
  provider : HostProvider
  /-- The call's own clock. -/
  now : ℤ
  ttl : Option ℤ
  /-- What the ledger sees of the host when it issues the context. -/
  issuing : Host
  /-- What the ledger sees of the host when it executes the group. -/
  executing : Host

/-- What a call of `mediate` does. The result is missing where an exception leaves the call. -/
structure Mediation where
  ledger : Ledger
  result : Option MediationResult
  calls : List ProviderCall

/-! ## Planning -/

/-- The loop over the targets of a recursive delete, from the n-th on: the resources of those that
resolve. -/
def planDeletes (resolveTarget : ℕ → String → Except Unit (Option Endpoint)) :
    ℕ → List String → Except Unit (List DeclaredResource)
  | _, [] => .ok []
  | n, target :: rest =>
    match resolveTarget n target with
    | .error e => .error e
    | .ok resolved =>
      match planDeletes resolveTarget (n + 1) rest with
      | .error e => .error e
      | .ok resources =>
        let id := "target-" ++ String.ofList (JsText.decimal n)
        .ok ((resolved.map fun endpoint ↦ ⟨id, endpoint, .delete, .target⟩).toList ++ resources)

def TargetOperation.resource (operation : TargetOperation) (endpoint : Endpoint) :
    DeclaredResource :=
  match operation with
  | .directory => ⟨"target", endpoint, .createParent, .implicitParent⟩
  | .edit => ⟨"target", endpoint, .edit, .target⟩
  | .create => ⟨"target", endpoint, .write, .target⟩

def planResources (action : IntentAction)
    (resolveTarget : ℕ → String → Except Unit (Option Endpoint)) : Except Unit (Option Plan) :=
  match action with
  | .recursiveDelete targets maxResources =>
    match planDeletes resolveTarget 0 targets with
    | .error e => .error e
    | .ok resources =>
      if resources.length ≠ targets.length ∨ resources.length = 0 then .ok none
      else .ok (some ⟨resources, some maxResources⟩)
  | .withDestination _ target destination =>
    match resolveTarget 0 target with
    | .error e => .error e
    | .ok source =>
      match resolveTarget 1 destination with
      | .error e => .error e
      | .ok destination =>
        match source, destination with
        | some source, some destination =>
          .ok (some
            ⟨[⟨"source", source, .move, .source⟩, ⟨"destination", destination, .move, .destination⟩],
              none⟩)
        | _, _ => .ok none
  | .onTarget operation target =>
    match resolveTarget 0 target with
    | .error e => .error e
    | .ok none => .ok none
    | .ok (some endpoint) => .ok (some ⟨[operation.resource endpoint], none⟩)

/-! ## Mediation -/

namespace MediateCall

def scope (c : MediateCall) : Scope :=
  ⟨c.intent.panel.route, c.snapshot.panelID, c.snapshot.sessionID, c.snapshot.rootID,
    c.snapshot.origin, c.intent.action.name⟩

/-- What the ledger is asked to issue. -/
def groupIssue (c : MediateCall) (plan : Plan) : GroupIssue :=
  { toScope := c.scope, resources := plan.resources, recursive := plan.recursive
    expiresAt := c.now + c.ttl.getD 30000 }

/-- What the ledger is asked to execute. -/
def groupRequest (c : MediateCall) (plan : Plan) : GroupRequest :=
  { toScope := c.scope, operationID := c.intent.idempotencyKey, resources := plan.resources
    recursive := plan.recursive }

def groupProvider (c : MediateCall) : GroupProvider :=
  ⟨c.provider.capabilities, c.provider.safeResolve, c.provider.execute⟩

/-- The execution, under the context with this handle. -/
def groupExecution (c : MediateCall) (plan : Plan) (handle : ℕ) : GroupExecution :=
  ⟨c.executing, some handle, c.groupRequest plan, c.groupProvider⟩

end MediateCall

def GroupOutcome.kind : GroupOutcome → MediatedKind
  | .applied => .applied
  | .partly => .partly
  | .failed => .failed
  | .denied => .failed

def ResourceReceipt.display (receipt : ResourceReceipt) : DisplayResource :=
  ⟨receipt.operation, receipt.role, receipt.outcome⟩

/-- What is displayed of a recorded result. A result that is not of a group has no receipts, and
mapping over them throws. -/
def MediateCall.present (c : MediateCall) : RecordedResult → Option MediationResult
  | .group result =>
    some (.mediated result.outcome.kind c.intent.panel (result.receipts.map ResourceReceipt.display)
      (c.capability = .postUpgradePartial))
  | .result _ _ => none
  | .unknown _ _ => none

def DenialReason.shown : DenialReason → DenyReason
  | .resourceBudgetExceeded => .resourceBudgetExceeded
  | .unsafeProvider => .unsafeProvider
  | _ => .invalidContext

def MediateCall.resultOf (c : MediateCall) : Answer → Option MediationResult
  | .denied reason _ => some (.denied reason.shown)
  | .executed result => c.present result
  | .replayed result => c.present result
  | .threw => none

namespace Ledger

/-- The part of `mediate` after the resources were planned. -/
def mediatePlan (s : Ledger) (c : MediateCall) (plan : Plan) : Mediation :=
  if grantsGroup c.issuing (c.groupIssue plan) then
    let r := (s.issueGroup c.issuing (c.groupIssue plan)).executeGroup
      (c.groupExecution plan s.nextContext)
    ⟨r.ledger, c.resultOf r.answer, r.calls⟩
  else ⟨s, some (.denied .contextUnavailable), []⟩

def mediate (s : Ledger) (c : MediateCall) : Mediation :=
  if c.capability = .legacy then ⟨s, some .legacy, []⟩
  else if c.capability = .unavailable then ⟨s, some (.denied .unavailable), []⟩
  else if c.snapshot.origin ≠ "user" then ⟨s, some (.denied .nonUserOrigin), []⟩
  else
    match planResources c.intent.action c.provider.resolveTarget with
    | .error _ => ⟨s, none, []⟩
    | .ok none => ⟨s, some (.denied .unresolvedTarget), []⟩
    | .ok (some plan) => s.mediatePlan c plan

end Ledger

end Amicode.Mutation
