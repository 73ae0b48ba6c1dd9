import Amicode.Fanin.Aggregator
import Amicode.Foundation.StepMachine

/-!
# One listener of the fan-in driver

A `FanInConnection` (`sse_fanin_driver.ts`) is one listener: its aggregator, and the open upstream
sources keyed by namespace. `reconcile` follows the owner map, opening the arms that appeared and
closing the arms that are gone; for every source it opens a pump reads frames until the source ends.
Between two reads of a pump anything else can happen, so that a source may long be closed, and
replaced by another one of its namespace, when its pump comes back from the last read.

## What the model adds

A source is the number of its opening, and `opened` keeps the request it was opened with. What its
pump has read from it last is part of the operation (`pumpSettles`), so that a run ranges over every
order of reconciles, source endings, pump completions and closes. `ended` lists the sources whose end
the pump has read, `returned` the sources whose pump has returned.

Pausing and resuming the upstreams, and the counters of the census, are left out.
-/

namespace Amicode

/-- Why a listener or an upstream arm closed. -/
inductive FanInCloseReason
  | upstreamEnd
  | upstreamError
  | membershipChange
  | listenerClosed
  | evicted
  | shutdown
deriving DecidableEq

def FanInCloseReason.name : FanInCloseReason → String
  | .upstreamEnd => "upstream-end"
  | .upstreamError => "upstream-error"
  | .membershipChange => "membership-change"
  | .listenerClosed => "listener-closed"
  | .evicted => "evicted"
  | .shutdown => "shutdown"

/-- How a response was ended: as a stream that is complete, or as a transport error. -/
inductive ResponseEnd
  | «end»
  | destroy (message : String)

/-- What the peer store has for a machine. -/
inductive PeerTokenRead
  | ok (token : String)
  | absent
  | malformed
  | incomplete

def PeerTokenRead.reason : PeerTokenRead → Option String
  | .ok _ => none
  | .absent => some "absent"
  | .malformed => some "malformed"
  | .incomplete => some "incomplete"

def PeerTokenRead.token : PeerTokenRead → Option String
  | .ok token => some token
  | _ => none

structure FanInUpstreamRequest where
  ns : String
  url : String
  path : String
  authHeader : Option String
  lastEventId : Option String
deriving DecidableEq

/-- The dependencies that do not change while a listener is connected. -/
structure SseFanInDriverDeps where
  localMachineId : String
  /-- The header made of a peer's own token. -/
  peerAuthHeader : String → String

/-- What the other dependencies answer during one `reconcile`. -/
structure DepsAnswers where
  ownerMachineIds : List String
  localEventUrl : Option String
  peerBaseUrl : String → Option String
  peerToken : String → PeerTokenRead
  /-- Transport reachability, where it is not left to `peerBaseUrl`. -/
  reachable : Option (String → Bool) := none

/-- The reachability check: a peer with a base URL is reachable, unless the dependency says
otherwise. -/
def DepsAnswers.isReachable (answers : DepsAnswers) : String → Bool :=
  answers.reachable.getD fun id ↦ (answers.peerBaseUrl id).isSome

def deriveMembership (ownerMachineIds : List String) (localMachineId : String)
    (reachable : String → Bool) (peerToken : String → PeerTokenRead) : List PeerMember :=
  (ownerMachineIds.filter fun id ↦ id != "" && id != localMachineId).map fun machineId ↦
    { machineId := machineId
      reachable := reachable machineId
      token := (peerToken machineId).token
      reason :=
        if reachable machineId then (peerToken machineId).reason.map ("token-" ++ ·)
        else some "peer-unreachable" }

structure FanInConnection where
  agg : Aggregator
  /-- The number of frames the pumps have ingested. -/
  frames : ℕ
  sources : InsertionMap String ℕ
  /-- The resume ids of the client's cursor. -/
  resume : InsertionMap String String
  authHeader : Option String
  closed : Bool
  lastClose : InsertionMap String FanInCloseReason
  closedByUs : List ℕ
  response : Option ResponseEnd
  /-- The request each source was opened with. -/
  opened : List FanInUpstreamRequest
  /-- The sources whose end their pump has read. -/
  ended : List ℕ
  /-- The sources whose pump has returned. -/
  returned : List ℕ

/-- What `next` gives a pump. -/
inductive NextOutcome
  | frame (raw : String)
  /-- `null`, and whether `endReason` names an error. -/
  | null (failed : Bool)
  | threw

/-- What can happen to a connection after its start. -/
inductive FanInOp
  | reconcile (answers : DepsAnswers)
  | pumpSettles (source : ℕ) (outcome : NextOutcome)
  | close (reason : FanInCloseReason)
  | drain

namespace FanInConnection

def noteArmClosed (s : FanInConnection) (ns : String) (reason : FanInCloseReason) :
    FanInConnection :=
  { s with lastClose := s.lastClose.set ns reason }

def closeSource (s : FanInConnection) (ns : String) (source : ℕ) (reason : FanInCloseReason) :
    FanInConnection :=
  { s with closedByUs := s.closedByUs ++ [source] }.noteArmClosed ns reason

def responseEnd (reason : FanInCloseReason) : ResponseEnd :=
  if reason = .shutdown then .end
  else .destroy
    ("amicode fan-in: listener stream closed (" ++ reason.name ++ "); resync required")

/-- `close`: the first reason wins. -/
def close (s : FanInConnection) (reason : FanInCloseReason) : FanInConnection :=
  if s.closed then s
  else
    let s := { s with closed := true }
    let s := s.sources.entries.foldl (fun s e ↦ s.closeSource e.1 e.2 reason) s
    { s with sources := ∅, response := some (responseEnd reason) }

def openArm (s : FanInConnection) (ns : String) (url authHeader lastEventId : Option String) :
    FanInConnection :=
  if s.sources.contains ns then s
  else
    match url with
    | none => s
    | some url =>
      let request : FanInUpstreamRequest :=
        ⟨ns, url, "/global/event", authHeader.filter (· ≠ ""), lastEventId.filter (· ≠ "")⟩
      { s with sources := s.sources.set ns s.opened.length, opened := s.opened ++ [request] }

def reopenAndTrack (s : FanInConnection) (ns : String) (url authHeader : Option String) :
    FanInConnection :=
  if s.sources.contains ns then s
  else
    let r := s.agg.reopenArm ns
    let s := { s with agg := r.1 }
    if r.2 = .sever then s.close ((s.lastClose.get? ns).getD .upstreamEnd)
    else s.openArm ns url authHeader ((s.agg.resumeAt.get? ns).or (s.resume.get? ns))

def peerAuth (deps : SseFanInDriverDeps) (answers : DepsAnswers) (machineId : String) :
    Option String :=
  (answers.peerToken machineId).token.map deps.peerAuthHeader

/-- The first loop of `reconcile`, for one active arm. -/
def openPeer (deps : SseFanInDriverDeps) (answers : DepsAnswers) (s : FanInConnection)
    (machineId : String) : FanInConnection :=
  if s.sources.contains machineId then s
  else s.reopenAndTrack machineId (answers.peerBaseUrl machineId) (peerAuth deps answers machineId)

/-- The second loop of `reconcile`, for one source. -/
def closeInactive (active : List String) (s : FanInConnection) (machineId : String) :
    FanInConnection :=
  if machineId = LOCAL_NAMESPACE then s
  else if machineId ∈ active then s
  else
    match s.sources.get? machineId with
    | none => s
    | some source =>
      let s := s.closeSource machineId source .membershipChange
      { s with sources := s.sources.erase machineId }

def reconcile (deps : SseFanInDriverDeps) (answers : DepsAnswers) (s : FanInConnection) :
    FanInConnection :=
  if s.closed then s
  else
    let members := deriveMembership answers.ownerMachineIds deps.localMachineId
      answers.isReachable answers.peerToken
    let s := { s with agg := s.agg.setMembership members }
    let active := s.agg.peerArms.keys
    -- the two loops are over snapshots: the active arms, and the sources there are after the first
    let s := active.foldl (openPeer deps answers) s
    let s := s.sources.keys.foldl (closeInactive active) s
    -- neither loop touches the local arm
    if s.sources.contains LOCAL_NAMESPACE then s
    else s.reopenAndTrack LOCAL_NAMESPACE answers.localEventUrl s.authHeader

def new (opts : SseFanInOptions) (authHeader : Option String) : FanInConnection where
  agg := Aggregator.new opts
  frames := 0
  sources := ∅
  resume := ∅
  authHeader := authHeader
  closed := false
  lastClose := ∅
  closedByUs := []
  response := none
  opened := []
  ended := []
  returned := []

def start (deps : SseFanInDriverDeps) (opts : SseFanInOptions) (authHeader cursor : Option String)
    (answers : DepsAnswers) : FanInConnection :=
  let s := new opts authHeader
  let s := { s with
    agg := s.agg.connect cursor opts.focusSnapshot
    resume := parseCompositeCursor cursor }
  let s := s.openArm LOCAL_NAMESPACE answers.localEventUrl s.authHeader
    (s.resume.get? LOCAL_NAMESPACE)
  s.reconcile deps answers

/-- The pump of a source leaves its loop, and removes the source of its namespace. -/
def finishPump (s : FanInConnection) (ns : String) (source : ℕ) : FanInConnection :=
  { s with sources := s.sources.erase ns, returned := s.returned ++ [source] }

/-- The pump of a source has read the end of it. Unless the connection caused it, the close is
named. -/
def endPump (s : FanInConnection) (ns : String) (source : ℕ) (reason : FanInCloseReason) :
    FanInConnection :=
  let s := { s with ended := s.ended ++ [source] }
  -- a close of ours has been noted under its own reason
  let s := if s.closed = false ∧ source ∉ s.closedByUs then s.noteArmClosed ns reason else s
  s.finishPump ns source

def ingestFrame (s : FanInConnection) (ns : String) (source : ℕ) (raw : String) :
    FanInConnection :=
  if s.closed then s.finishPump ns source
  else
    let r := s.agg.ingest ns ⟨raw, s.frames⟩
    let s := { s with agg := r.1, frames := s.frames + 1 }
    if r.2 = .sever then
      -- the pump returns without removing anything: `close` has emptied the map
      let s := s.close ((s.lastClose.get? ns).getD .upstreamEnd)
      { s with returned := s.returned ++ [source] }
    else s

def pumpSettles (s : FanInConnection) (source : ℕ) (outcome : NextOutcome) : FanInConnection :=
  match s.opened[source]? with
  | none => s
  | some request =>
    if source ∈ s.returned then s
    else
      match outcome with
      | .frame raw => s.ingestFrame request.ns source raw
      | .null failed =>
        s.endPump request.ns source (if failed then .upstreamError else .upstreamEnd)
      | .threw => s.endPump request.ns source .upstreamError

def step (deps : SseFanInDriverDeps) (s : FanInConnection) : FanInOp → FanInConnection
  | .reconcile answers => s.reconcile deps answers
  | .pumpSettles source outcome => s.pumpSettles source outcome
  | .close reason => s.close reason
  -- the `drain` edge of the response
  | .drain => if s.closed then s else { s with agg := s.agg.resume }

end FanInConnection

end Amicode
