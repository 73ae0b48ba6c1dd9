import Amicode.Attach.Machine
import Amicode.Foundation.JsonValue
import Mathlib.Algebra.Ring.Int.Defs

/-!
# Staged proposals

A mutation of consequence that is asked for offline becomes a staged proposal (`proposal_queue.ts`):
it is stored on the device, and is re-verified against fresh truth before it is applied. Its portable
identity is a hash of its canonical content together with the stamp of the human confirmation; the
identity, and not the local id, is what the queue and the apply target deduplicate by.

The hash is a parameter, and `randomUUID` a counter. Time stamps are left out, since nothing reads
them.
-/

namespace Amicode.Queue

/-! ## Canonical JSON -/

mutual

/-- `canonicalize`: the members of an object in the order of their keys. -/
def canonicalize : JsonValue → List Char
  | .null => "null".toList
  | .bool b => (if b then "true" else "false").toList
  | .num text => text.toList
  | .str s => JsText.jsonString s.toList
  | .arr items => '[' :: (JsText.join [','] (canonicalizeItems items) ++ [']'])
  | .obj members =>
    '{' :: (JsText.join [','] ((JsText.sortByKey (canonicalizeMembers members)).map fun e ↦
      JsText.jsonString e.1 ++ ':' :: e.2) ++ ['}'])

/-- The items of an array, each in canonical form. -/
def canonicalizeItems : List JsonValue → List (List Char)
  | [] => []
  | item :: items => canonicalize item :: canonicalizeItems items

def canonicalizeMembers : List (String × JsonValue) → List (List Char × List Char)
  | [] => []
  | (key, value) :: members => (key.toList, canonicalize value) :: canonicalizeMembers members

end

def deepEqual (a b : JsonValue) : Bool := canonicalize a == canonicalize b

/-! ## Records -/

/-- What may be queued. -/
inductive ProposalType where
  | modeChange
  | checkout
  | handback
  | fleetWrite
  | topologyEdit
  | structuralSurface
deriving DecidableEq

def ProposalType.name : ProposalType → String
  | .modeChange => "mode-change"
  | .checkout => "checkout"
  | .handback => "return"
  | .fleetWrite => "fleet-write"
  | .topologyEdit => "topology-edit"
  | .structuralSurface => "structural-surface"

inductive ProposalState where
  | staged
  | blockedDegraded
  | pendingReconfirm
deriving DecidableEq

/-- The claim a proposal re-verifies, and the world as the human confirmed it. -/
structure ProposalPrecondition where
  claim : String
  expected : JsonValue

structure ProposalIdentity where
  contentHash : String
  confirmStamp : String
deriving DecidableEq

def identityKeyOf (identity : ProposalIdentity) : String :=
  identity.contentHash ++ ":" ++ identity.confirmStamp

structure QueuedProposal where
  id : ℕ
  type : ProposalType
  payload : List (String × JsonValue)
  precondition : ProposalPrecondition
  identity : ProposalIdentity
  contractVersion : ℤ
  state : ProposalState
  /-- False only for a structural surface, which is never applied. -/
  autoApply : Bool
  attempts : ℕ
  lastError : Option String := none
  rejection : Option String := none

def QueuedProposal.key (p : QueuedProposal) : String := identityKeyOf p.identity

/-- An applied identity. -/
structure ApplyReceipt where
  identityKey : String
  result : JsonValue

structure ProposalStoreFile where
  proposals : List QueuedProposal := []
  applied : List ApplyReceipt := []

namespace ProposalStoreFile

def liveKeys (file : ProposalStoreFile) : List String := file.proposals.map QueuedProposal.key

def appliedKeys (file : ProposalStoreFile) : List String :=
  file.applied.map ApplyReceipt.identityKey

def ids (file : ProposalStoreFile) : List ℕ := file.proposals.map QueuedProposal.id

end ProposalStoreFile

/-! ## Inputs and configuration -/

def FLEET_CONTRACT_VERSION : ℤ := 1

def contractVersionMessage (seen : ℤ) : String :=
  "projection carries contract v" ++ toString seen ++ "; this consumer speaks v"
    ++ toString FLEET_CONTRACT_VERSION ++ " — refusing loudly (never silently coerced)"

/-- What is staged. -/
structure ProposalEnqueueInput where
  type : ProposalType
  payload : List (String × JsonValue)
  precondition : ProposalPrecondition
  confirmStamp : String
  contractVersion : Option ℤ := none

/-- The structural classes a mode machine signals. -/
inductive StructuralSignalClass where
  | authRevoked
  | modeChangedElsewhere
  | presumedStructural
deriving DecidableEq

def StructuralSignalClass.name : StructuralSignalClass → String
  | .authRevoked => "auth-revoked"
  | .modeChangedElsewhere => "mode-changed-elsewhere"
  | .presumedStructural => "presumed-structural"

structure StructuralSignal where
  cls : StructuralSignalClass
  detail : Option String
  stamp : String

/-- What a structural signal stages: a surface for the human. -/
def StructuralSignal.input (signal : StructuralSignal) : ProposalEnqueueInput :=
  { type := .structuralSurface
    payload := ("class", .str signal.cls.name)
      :: (signal.detail.map fun detail ↦ ("detail", JsonValue.str detail)).toList
    precondition :=
      { claim := "structural:" ++ signal.cls.name
        expected := .obj [("class", .str signal.cls.name)] }
    confirmStamp := signal.stamp }

structure ProposalQueueConfig where
  maxRetries : ℤ := 3
  retryBaseDelayMs : ℤ := 1000
  retryMaxDelayMs : ℤ := 30000

structure ProposalQueueOptions where
  hash : List Char → String
  config : ProposalQueueConfig := {}
  structuralClasses : List StructuralSignalClass :=
    [.authRevoked, .modeChangedElsewhere, .presumedStructural]

def ProposalEnqueueInput.identity (hash : List Char → String) (input : ProposalEnqueueInput) :
    ProposalIdentity :=
  { contentHash := hash (canonicalize (.obj [
      ("type", .str input.type.name), ("payload", .obj input.payload),
      ("precondition", .obj [("claim", .str input.precondition.claim),
        ("expected", input.precondition.expected)])]))
    confirmStamp := input.confirmStamp }

end Amicode.Queue

/-!
# The proposal queue

`ProposalQueue` stages proposals and drains them. A drain walks the proposals that were there when it
began; it waits twice for each that is applied, for the fetch of its truth and for the executor, and
between these points every other call may come: more proposals, more drains, a retry timer, the
serialization hold of the commit window and its release.

Drains are chained on one promise, so that only one runs at a time: the others are counted, and
`start` begins the next one. What the outside sees is kept in a log.
-/

namespace Amicode.Queue

/-- What the outside sees of the queue. -/
inductive QueueEvent where
  /-- An identity is enqueued, whether it is new or not. -/
  | enqueued (key : String)
  /-- The truth of a proposal is found to differ from what was confirmed. -/
  | changed (key : String)
  /-- The executor is called, with the hold on or off. -/
  | started (key : String) (held : Bool)
  /-- The executor succeeds. -/
  | applied (key : String)
deriving DecidableEq

structure DrainReport where
  drained : ℕ
  applied : List ℕ := []
  held : List ℕ := []
  pendingReconfirm : List ℕ := []
  blockedDegraded : List ℕ := []
  rejected : List (ℕ × String) := []
  surfaceRetained : List ℕ := []
  surfaceResolved : List ℕ := []

/-- What a drain is waiting for: the truth of a proposal, its executor, or an execution of the same
identity that is in flight already. -/
inductive DrainPhase where
  | fetching (p : QueuedProposal)
  | applying (p : QueuedProposal)
  | sharing (p : QueuedProposal)

/-- The drain that is running: its report so far, the proposals it has still to examine, and what it
waits for. -/
structure RunningDrain where
  report : DrainReport
  rest : List ℕ
  phase : DrainPhase

structure ProposalQueue where
  machine : Attach.ModeMachine
  file : ProposalStoreFile
  /-- The file on disk. -/
  stored : ProposalStoreFile
  holdActive : Bool := false
  inFlight : List String := []
  duplicateApplies : ℕ := 0
  /-- The drains that wait on the activity chain. -/
  chained : ℕ := 0
  running : Option RunningDrain := none
  /-- The delays of the retry timers that are armed. -/
  timers : List ℤ := []
  settled : List (Except String DrainReport) := []
  log : List QueueEvent := []
  nextId : ℕ := 0

namespace ProposalStoreFile

def written (id : ℕ) (f : QueuedProposal → QueuedProposal) (file : ProposalStoreFile) :
    ProposalStoreFile :=
  { file with proposals := file.proposals.map fun p ↦ if p.id = id then f p else p }

/-- The file once a proposal has a receipt, and is removed. -/
def resolved (p : QueuedProposal) (result : JsonValue) (file : ProposalStoreFile) :
    ProposalStoreFile :=
  { proposals := file.proposals.filter fun p' ↦ p'.id ≠ p.id
    applied := file.applied ++ [⟨p.key, result⟩] }

end ProposalStoreFile

namespace ProposalQueue

def fromStore (machine : Attach.ModeMachine) (file : ProposalStoreFile) (nextId : ℕ) :
    ProposalQueue :=
  { machine := machine, file := file, stored := file, nextId := nextId }

def save (q : ProposalQueue) : ProposalQueue := { q with stored := q.file }

/-- Write to a live proposal. -/
def update (id : ℕ) (f : QueuedProposal → QueuedProposal) (q : ProposalQueue) : ProposalQueue :=
  { q with file := q.file.written id f }

/-- Record a receipt for a proposal and remove it. -/
def resolve (p : QueuedProposal) (result : JsonValue) (q : ProposalQueue) : ProposalQueue :=
  { q with file := q.file.resolved p result }

def enqueue (options : ProposalQueueOptions) (input : ProposalEnqueueInput) (q : ProposalQueue) :
    ProposalQueue :=
  let identity := input.identity options.hash
  let key := identityKeyOf identity
  let q := { q with log := q.log ++ [.enqueued key] }
  if key ∈ q.file.appliedKeys then q
  else if key ∈ q.file.liveKeys then q
  else
    let p : QueuedProposal :=
      { id := q.nextId
        type := input.type
        payload := input.payload
        precondition := input.precondition
        identity := identity
        contractVersion := input.contractVersion.getD FLEET_CONTRACT_VERSION
        state := .staged
        autoApply := decide (input.type ≠ .structuralSurface)
        attempts := 0 }
    save { q with
      file := { q.file with proposals := q.file.proposals ++ [p] }
      nextId := q.nextId + 1 }

/-- `drain`, as a request on the activity chain. -/
def drain (q : ProposalQueue) : ProposalQueue := { q with chained := q.chained + 1 }

def scheduleRetry (options : ProposalQueueOptions) (attempts : ℕ) (q : ProposalQueue) :
    ProposalQueue :=
  if options.config.maxRetries ≤ attempts then q
  else
    let delay := min (options.config.retryBaseDelayMs * 2 ^ (attempts - 1))
      options.config.retryMaxDelayMs
    { q with timers := q.timers ++ [delay] }

/-- The loop of `runDrain`, from one wait to the next: the proposals are examined in turn until the
truth of one is to be fetched. -/
def runDrain (options : ProposalQueueOptions) :
    List ℕ → DrainReport → ProposalQueue → ProposalQueue
  | [], report, q => { q with running := none, settled := q.settled ++ [.ok report] }
  | id :: rest, report, q =>
    match q.file.proposals.find? fun p ↦ p.id = id with
    | none => runDrain options rest report q
    | some p =>
      if p.state = .pendingReconfirm then
        runDrain options rest { report with pendingReconfirm := report.pendingReconfirm ++ [id] } q
      else if p.state = .blockedDegraded ∧ options.config.maxRetries ≤ p.attempts then
        runDrain options rest { report with blockedDegraded := report.blockedDegraded ++ [id] } q
      else if p.autoApply = true ∧ p.contractVersion ≠ FLEET_CONTRACT_VERSION then
        let message := contractVersionMessage p.contractVersion
        runDrain options rest { report with rejected := report.rejected ++ [(id, message)] }
          (save (update id (fun p ↦ { p with rejection := some message }) q))
      else { q with running := some ⟨report, rest, .fetching p⟩ }

/-- The next drain on the chain begins, once none is running. -/
def start (options : ProposalQueueOptions) (q : ProposalQueue) : ProposalQueue :=
  match q.running, q.chained with
  | none, chained + 1 =>
    runDrain options q.file.ids { drained := q.file.proposals.length } { q with chained := chained }
  | _, _ => q

/-- `applyProposal`, up to the call of the executor. -/
def applyProposal (options : ProposalQueueOptions) (p : QueuedProposal) (report : DrainReport)
    (rest : List ℕ) (q : ProposalQueue) : ProposalQueue :=
  if p.key ∈ q.inFlight then { q with running := some ⟨report, rest, .sharing p⟩ }
  else if p.key ∈ q.file.appliedKeys then
    runDrain options rest { report with applied := report.applied ++ [p.id] }
      { q with duplicateApplies := q.duplicateApplies + 1 }
  else { q with
    inFlight := p.key :: q.inFlight
    running := some ⟨report, rest, .applying p⟩
    log := q.log ++ [.started p.key q.holdActive] }

/-- The fetched truth of a proposal is compared with what was confirmed. -/
def verified (options : ProposalQueueOptions) (p : QueuedProposal) (report : DrainReport)
    (rest : List ℕ) (actual : JsonValue) (q : ProposalQueue) : ProposalQueue :=
  let q := if p.state = .blockedDegraded then
      save (update p.id (fun p ↦ { p with state := .staged }) q)
    else q
  let holds := deepEqual actual p.precondition.expected
  if p.autoApply = false then
    if holds then
      runDrain options rest { report with surfaceRetained := report.surfaceRetained ++ [p.id] } q
    else
      -- the episode ended: the surface is resolved and dropped
      let resolved := JsonValue.obj
        [("resolved", .str "the structural claim no longer holds — the episode ended")]
      runDrain options rest { report with surfaceResolved := report.surfaceResolved ++ [p.id] }
        (save (resolve p resolved { q with log := q.log ++ [.changed p.key] }))
  else if !holds then
    runDrain options rest { report with pendingReconfirm := report.pendingReconfirm ++ [p.id] }
      (save (update p.id (fun p ↦ { p with state := .pendingReconfirm })
        { q with log := q.log ++ [.changed p.key] }))
  else if q.holdActive then
    runDrain options rest { report with held := report.held ++ [p.id] } q
  else applyProposal options p report rest q

/-- The fetch of a truth settles. -/
def fetched (options : ProposalQueueOptions) (outcome : Except String JsonValue)
    (q : ProposalQueue) : ProposalQueue :=
  match q.running with
  | some ⟨report, rest, .fetching p⟩ =>
    match outcome with
    | .error message =>
      -- a fetch failure is not a world change
      let q := update p.id (fun p ↦ { p with
        state := .blockedDegraded
        attempts := p.attempts + 1
        lastError := some message }) q
      runDrain options rest { report with blockedDegraded := report.blockedDegraded ++ [p.id] }
        (scheduleRetry options (p.attempts + 1)
          (save { q with machine := q.machine.writePosture .degraded }))
    | .ok actual => verified options p report rest actual q
  | _ => q

/-- The executor settles. When it throws, the drain is rejected. -/
def executed (options : ProposalQueueOptions) (outcome : Except String JsonValue)
    (q : ProposalQueue) : ProposalQueue :=
  match q.running with
  | some ⟨report, rest, .applying p⟩ =>
    match outcome with
    | .ok result =>
      runDrain options rest { report with applied := report.applied ++ [p.id] }
        (save (resolve p result { q with
          inFlight := q.inFlight.erase p.key
          log := q.log ++ [.applied p.key] }))
    | .error message => { q with
      inFlight := q.inFlight.erase p.key
      running := none
      settled := q.settled ++ [.error message] }
  | some ⟨report, rest, .sharing p⟩ =>
    match outcome with
    | .ok _ => runDrain options rest { report with applied := report.applied ++ [p.id] } q
    | .error message => { q with running := none, settled := q.settled ++ [.error message] }
  | _ => q

def hold (q : ProposalQueue) : ProposalQueue := { q with holdActive := true }

/-- `release`: the release drain re-verifies what was held. -/
def release (q : ProposalQueue) : ProposalQueue := drain { q with holdActive := false }

/-- A retry timer fires. -/
def timer (i : ℕ) (q : ProposalQueue) : ProposalQueue :=
  if i < q.timers.length then drain { q with timers := q.timers.eraseIdx i } else q

/-- A new queue on the store, once the old one is idle. -/
def reopen (q : ProposalQueue) : ProposalQueue :=
  match q.running with
  | none => { fromStore q.machine q.stored q.nextId with log := q.log }
  | some _ => q

end ProposalQueue

/-! ## Runs -/

/-- What can happen to a queue. -/
inductive QueueOp where
  | enqueue (input : ProposalEnqueueInput)
  | signal (signal : StructuralSignal)
  | drain
  | timer (i : ℕ)
  | hold
  | release
  | start
  | fetched (outcome : Except String JsonValue)
  | executed (outcome : Except String JsonValue)
  | reopen

def ProposalQueue.step (options : ProposalQueueOptions) (q : ProposalQueue) :
    QueueOp → ProposalQueue
  | .enqueue input => q.enqueue options input
  | .signal signal =>
    if signal.cls ∈ options.structuralClasses then q.enqueue options signal.input else q
  | .drain => q.drain
  | .timer i => q.timer i
  | .hold => q.hold
  | .release => q.release
  | .start => q.start options
  | .fetched outcome => q.fetched options outcome
  | .executed outcome => q.executed options outcome
  | .reopen => q.reopen

end Amicode.Queue
