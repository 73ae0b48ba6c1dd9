import Amicode.Foundation.InsertionMap
import Amicode.Foundation.JsText
import Amicode.Foundation.StepMachine

/-!
# The peer transport supervisor

`PeerTransportSupervisor` keeps one transport per peer identity: a forward on an allocated loopback
port, brought up by an injected factory, whose endpoint is checked by an injected probe before the
credential is forwarded.

Connecting awaits up to three things: the stop of the transport it replaces, the factory, and the
probe (and then the stop of an endpoint that failed the check). Disconnecting awaits a stop. A call is
cut at its awaits: `CallPhase` is what it waits for, with the values that its continuation goes on to
use, and each settlement is an operation of its own, which runs the continuation up to the next await.

An entry of the map is an object that is replaced or updated in place; `ref` is its identity. The
state also records, for the results about runs, the handles the factory returned, those whose `stop`
was called, and a log.
-/

namespace Amicode.Peer

/-! ## Ports, identities, backoff -/

/-- The options that decide something, with the defaults of the source. -/
structure SupervisorOptions where
  localPortBase : ℕ := 43200
  localPortRange : ℕ := 512
  reservedPorts : List ℕ := [43117]
  maxReconnectAttempts : ℕ := 5

/-- The first available port of the band. -/
def allocateLoopbackPort (base range : ℕ) (isAvailable : ℕ → Bool) : Option ℕ :=
  (List.range' base range).find? isAvailable

inductive EndpointIdentityCheck where
  | ok
  | mismatch
  | unverified
deriving DecidableEq

/-- The reason a check gives, as the source spells it. -/
def EndpointIdentityCheck.reason : EndpointIdentityCheck → String
  | .ok => ""
  | .mismatch => "mismatch"
  | .unverified => "unverified"

def verifyEndpointIdentity (expected : String) (observed : Option String) : EndpointIdentityCheck :=
  let exp := JsText.trim expected.toList
  let obs := JsText.trim (observed.getD "").toList
  if exp = [] ∨ obs = [] then .unverified
  else if exp = obs then .ok
  else .mismatch

/-- Exponential from half a second, up to half a minute. -/
def reconnectBackoffMs (attempt : ℕ) : ℕ :=
  if attempt < 1 then 500 else min 30000 (500 * 2 ^ (attempt - 1))

/-! ## States -/

structure PeerIdentity where
  identityKey : String
  machineId : String
  sshAlias : String
  transport : String
deriving DecidableEq

inductive PeerTransportStatus where
  | idle
  | connecting
  | healthy
  | reconnecting
  | suspended
  | failed
deriving DecidableEq

structure PeerTransportState where
  identityKey : String
  machineId : String
  sshAlias : String
  status : PeerTransportStatus
  localPort : Option ℕ := none
  localUrl : Option String := none
  verifiedEndpoint : Option String := none
  credentialForwardingAllowed : Bool
  attempts : ℕ
  nextRetryMs : Option ℕ := none
  lastError : Option String := none
deriving DecidableEq

/-- A transport, as the factory returns it. -/
structure TransportHandle where
  id : ℕ
  localUrl : String
deriving DecidableEq

structure PeerEntry where
  /-- Which object it is. -/
  ref : ℕ
  state : PeerTransportState
  handle : Option TransportHandle
deriving DecidableEq

/-- What a call waits for. A connecting call carries the peer, and once it has registered an entry,
its port and the identity of that entry. -/
inductive CallPhase where
  | stoppingPrevious (peer : PeerIdentity)
  | standingUp (peer : PeerIdentity) (port ref : ℕ)
  | probing (peer : PeerIdentity) (port ref : ℕ) (handle : TransportHandle)
  | stoppingUntrusted (peer : PeerIdentity) (port ref : ℕ) (handle : TransportHandle)
      (check : EndpointIdentityCheck)
  | disconnecting (identityKey : String)
deriving DecidableEq

/-- What is seen of the supervisor. -/
inductive PeerEvent where
  | connectCalled (identityKey : String)
  | probeStarted (identityKey : String) (handle : ℕ)
  | verified (identityKey : String) (handle : ℕ)
  | forwarded (identityKey : String) (handle : ℕ)
  /-- A child exit, an endpoint rotation, or a disconnect. -/
  | disturbed (identityKey : String)
  | disconnected (identityKey : String)
deriving DecidableEq

structure PeerTransportSupervisor where
  entries : InsertionMap String PeerEntry
  calls : InsertionMap ℕ CallPhase
  /-- No call, entry or handle has this number, or a larger one. -/
  nextId : ℕ
  /-- The handles the factory has returned, each with the identity it was for. -/
  returned : List (String × TransportHandle)
  stopCalled : List ℕ
  log : List PeerEvent

/-- A supervisor that was just made. -/
def PeerTransportSupervisor.fresh : PeerTransportSupervisor := ⟨∅, ∅, 0, [], [], []⟩

/-- What happens: a method is called, or something that a call waits for settles. A call that goes on
to allocate a port is given the answers of `isPortFree`. -/
inductive SupervisorOp where
  | connect (peer : PeerIdentity) (isPortFree : ℕ → Bool)
  | disconnect (identityKey : String)
  | noteChildExit (identityKey : String) (reason : Option String)
  | observeEndpoint (identityKey : String) (resolvedUrl : Option String)
  | stopSettles (call : ℕ) (resolves : Bool) (isPortFree : ℕ → Bool)
  | factorySettles (call : ℕ) (outcome : Except String String)
  | probeSettles (call : ℕ) (outcome : Except Unit (Option String))

namespace PeerTransportSupervisor

variable (options : SupervisorOptions) (s : PeerTransportSupervisor)

/-- `canForwardCredential`: the credential gate. -/
def canForwardCredential (identityKey : String) : Bool :=
  match s.entries.get? identityKey with
  | some e => e.state.credentialForwardingAllowed
  | none => false

def liveHandle? (identityKey : String) : Option TransportHandle :=
  (s.entries.get? identityKey).bind PeerEntry.handle

def localPort? (identityKey : String) : Option ℕ :=
  (s.entries.get? identityKey).bind fun e ↦ e.state.localPort

def endCall (call : ℕ) : PeerTransportSupervisor := { s with calls := s.calls.erase call }

def awaitStop (call : ℕ) (handle : TransportHandle) (phase : CallPhase) : PeerTransportSupervisor :=
  { s with calls := s.calls.set call phase, stopCalled := s.stopCalled ++ [handle.id] }

/-- `entries.set` with a new object. -/
def putEntry (identityKey : String) (state : PeerTransportState) (handle : Option TransportHandle) :
    PeerTransportSupervisor :=
  { s with entries := s.entries.set identityKey ⟨s.nextId + 1, state, handle⟩ }

def note (events : List PeerEvent) : PeerTransportSupervisor := { s with log := s.log ++ events }

def handedOut (identityKey : String) : List ℕ :=
  s.entries.entries.filterMap fun entry ↦
    if entry.1 = identityKey then none else entry.2.state.localPort

/-! ## Connecting -/

def connectingState (peer : PeerIdentity) : PeerTransportState where
  identityKey := peer.identityKey
  machineId := peer.machineId
  sshAlias := peer.sshAlias
  status := .connecting
  credentialForwardingAllowed := false
  attempts := 0

/-- The state a connecting call has registered, and every later state of it starts from: `base`. -/
def registeredState (peer : PeerIdentity) (port : ℕ) : PeerTransportState :=
  { connectingState peer with localPort := some port }

/-- `connect`, once there is no old handle: allocate a port and register the entry. -/
def register (call : ℕ) (peer : PeerIdentity) (isPortFree : ℕ → Bool) : PeerTransportSupervisor :=
  match allocateLoopbackPort options.localPortBase options.localPortRange fun p ↦
      !options.reservedPorts.contains p && !(s.handedOut peer.identityKey).contains p
        && isPortFree p with
  | none =>
    let failed :=
      { connectingState peer with status := .failed, lastError := some "local-port-exhausted" }
    (s.putEntry peer.identityKey failed none).endCall call
  | some port =>
    let s := s.putEntry peer.identityKey (registeredState peer port) none
    { s with calls := s.calls.set call (.standingUp peer port (s.nextId + 1)) }

/-- `connect`, as far as it goes at once. -/
def connect (call : ℕ) (peer : PeerIdentity) (isPortFree : ℕ → Bool) : PeerTransportSupervisor :=
  let s := s.note [.connectCalled peer.identityKey]
  match s.liveHandle? peer.identityKey with
  | some handle => s.awaitStop call handle (.stoppingPrevious peer)
  | none => s.register options call peer isPortFree

/-- `connect`, once the factory has returned a handle: start the probe. -/
def startProbe (call : ℕ) (peer : PeerIdentity) (port ref : ℕ) (localUrl : String) : PeerTransportSupervisor :=
  let handle : TransportHandle := ⟨s.nextId, localUrl⟩
  let s := s.note [.probeStarted peer.identityKey handle.id]
  { s with
    calls := s.calls.set call (.probing peer port ref handle)
    returned := s.returned ++ [(peer.identityKey, handle)] }

/-- `connect`, after the factory has failed. -/
def factoryFailed (call : ℕ) (peer : PeerIdentity) (port : ℕ) (message : String) :
    PeerTransportSupervisor :=
  let reconnecting :=
    { registeredState peer port with
      status := .reconnecting
      attempts := 1
      nextRetryMs := some (reconnectBackoffMs 1)
      lastError := some message }
  (s.putEntry peer.identityKey reconnecting none).endCall call

/-- `connect`, after the check: the gate is opened and the credential forwarded, whatever has become
of the entry in the meantime. -/
def becomeHealthy (call : ℕ) (peer : PeerIdentity) (port : ℕ) (handle : TransportHandle) :
    PeerTransportSupervisor :=
  let healthy :=
    { registeredState peer port with
      localUrl := some handle.localUrl
      status := .healthy
      verifiedEndpoint := some handle.localUrl
      credentialForwardingAllowed := true
      attempts := 0 }
  ((s.putEntry peer.identityKey healthy (some handle)).endCall call).note
    [.verified peer.identityKey handle.id, .forwarded peer.identityKey handle.id]

/-- `connect`, after an endpoint that failed the check has been stopped. -/
def suspend (call : ℕ) (peer : PeerIdentity) (port : ℕ) (handle : TransportHandle)
    (check : EndpointIdentityCheck) : PeerTransportSupervisor :=
  let suspended :=
    { registeredState peer port with
      localUrl := some handle.localUrl
      status := .suspended
      credentialForwardingAllowed := false
      lastError := some ("identity-" ++ check.reason) }
  (s.putEntry peer.identityKey suspended none).endCall call

/-! ## The other methods -/

/-- `disconnect`, once there is no handle to wait for. -/
def forget (call : ℕ) (identityKey : String) : PeerTransportSupervisor :=
  let s := { s with entries := s.entries.erase identityKey }
  (s.endCall call).note [.disturbed identityKey, .disconnected identityKey]

/-- `disconnect`, as far as it goes at once. -/
def disconnect (call : ℕ) (identityKey : String) : PeerTransportSupervisor :=
  match s.entries.get? identityKey with
  | none => s.note [.disturbed identityKey, .disconnected identityKey]
  | some e =>
    match e.handle with
    | some handle => s.awaitStop call handle (.disconnecting identityKey)
    | none => s.forget call identityKey

def exitedState (state : PeerTransportState) (reason : Option String) : PeerTransportState :=
  let attempts := state.attempts + 1
  let next :=
    { state with
      attempts
      credentialForwardingAllowed := false
      lastError := reason <|> state.lastError }
  if options.maxReconnectAttempts < attempts then { next with status := .failed, nextRetryMs := none }
  else { next with status := .reconnecting, nextRetryMs := some (reconnectBackoffMs attempts) }

/-- An entry is updated in place, without a handle. -/
def updateEntry (identityKey : String) (e : PeerEntry) (state : PeerTransportState) :
    PeerTransportSupervisor :=
  { s with entries := s.entries.set identityKey { e with state, handle := none } }

def noteChildExit (identityKey : String) (reason : Option String) : PeerTransportSupervisor :=
  let s := s.note [.disturbed identityKey]
  match s.entries.get? identityKey with
  | none => s
  | some e =>
    if e.state.status = .failed then s
    else s.updateEntry identityKey e (exitedState options e.state reason)

/-- The state of a peer whose endpoint has rotated, or is absent. -/
def rotatedState (state : PeerTransportState) (resolvedUrl : Option String) : PeerTransportState :=
  { state with
    status := .reconnecting
    credentialForwardingAllowed := false
    lastError := some (if resolvedUrl.isNone then "endpoint-absent" else "endpoint-rotated")
    localUrl := resolvedUrl
    verifiedEndpoint := none }

def observeEndpoint (identityKey : String) (resolvedUrl : Option String) :
    PeerTransportSupervisor :=
  match s.entries.get? identityKey with
  | none => s
  | some e =>
    if resolvedUrl ≠ none ∧ resolvedUrl = e.state.verifiedEndpoint then s
    else (s.note [.disturbed identityKey]).updateEntry identityKey e
      (rotatedState e.state resolvedUrl)

/-! ## Steps -/

/-- A stop that a call waits for settles. If it fails, the call does. -/
def stopSettles (call : ℕ) (resolves : Bool) (isPortFree : ℕ → Bool) : PeerTransportSupervisor :=
  match s.calls.get? call, resolves with
  | some (.stoppingPrevious peer), true => s.register options call peer isPortFree
  | some (.stoppingPrevious _), false => s.endCall call
  | some (.stoppingUntrusted peer port _ handle check), true => s.suspend call peer port handle check
  | some (.stoppingUntrusted ..), false => s.endCall call
  | some (.disconnecting identityKey), true => s.forget call identityKey
  | some (.disconnecting _), false => s.endCall call
  | _, _ => s

def factorySettles (call : ℕ) (outcome : Except String String) : PeerTransportSupervisor :=
  match s.calls.get? call, outcome with
  | some (.standingUp peer port ref), .ok localUrl => s.startProbe call peer port ref localUrl
  | some (.standingUp peer port _), .error message => s.factoryFailed call peer port message
  | _, _ => s

/-- The probe settles. If it fails, the call does, and the handle is left as it is. -/
def probeSettles (call : ℕ) (outcome : Except Unit (Option String)) : PeerTransportSupervisor :=
  match s.calls.get? call, outcome with
  | some (.probing peer port ref handle), .ok observed =>
    match verifyEndpointIdentity peer.identityKey observed with
    | .ok => s.becomeHealthy call peer port handle
    | check => s.awaitStop call handle (.stoppingUntrusted peer port ref handle check)
  | some (.probing ..), .error _ => s.endCall call
  | _, _ => s

/-- What an operation does, up to the numbers it uses up: a call has the number `nextId`, or a new
handle does, and a new entry the next one. -/
def act : SupervisorOp → PeerTransportSupervisor
  | .connect peer isPortFree => s.connect options s.nextId peer isPortFree
  | .disconnect identityKey => s.disconnect s.nextId identityKey
  | .noteChildExit identityKey reason => s.noteChildExit options identityKey reason
  | .observeEndpoint identityKey resolvedUrl => s.observeEndpoint identityKey resolvedUrl
  | .stopSettles call resolves isPortFree => s.stopSettles options call resolves isPortFree
  | .factorySettles call outcome => s.factorySettles call outcome
  | .probeSettles call outcome => s.probeSettles call outcome

def step (op : SupervisorOp) : PeerTransportSupervisor :=
  { s.act options op with nextId := s.nextId + 2 }

end PeerTransportSupervisor

end Amicode.Peer
