import Amicode.Fanin.Frame

/-!
# The fan-in aggregator

The synchronous core of the relay (`sse_fanin_aggregator.ts`): every arm's frames and the relay's
own control frames go onto one downstream. With no peer arm the local frames pass verbatim; with
peers, each frame is stamped with the composite cursor of all namespaces. A write the downstream
answers with `false` stalls the relay, and until `resume` frames wait in `verbatimBuffer` or in the
ordered `pending` stream, whose per-namespace bound drops the overflow.

## What the model adds

A frame carries a `stamp`, the number of the ingest that brought it. Nothing here reads it: it only
tells apart frames with equal text, so that statements about order and multiplicity can be made.
The chunks written downstream are kept as what they are (`Chunk`), with `Chunk.text` for the string
handed to `write`; likewise control frames, which keep the cause the observer is told. `ingest`
returns which of its branches it took, from which its verdict is read off.

The traffic counters and the observer callbacks are left out: nothing about delivery reads them.
-/

namespace Amicode

/-! ## Data -/

/-- An upstream frame as an arm hands it over. -/
structure Frame where
  raw : String
  stamp : ℕ
deriving DecidableEq

/-- Why a gap frame was emitted. -/
inductive GapCause
  | reopen
  | overflow
  | reset
deriving DecidableEq

/-- The focus snapshot folded into the connect frame. -/
structure FocusSnapshot where
  focusedMachineId : Option String
  isHome : Bool
  absent : Bool
  reason : Option String
deriving DecidableEq

/-- A frame the relay writes on its own account. -/
inductive Control
  | gap (namespaces : List String) (cause : GapCause)
  | unavailable (machineId reason : String)
  | focus (snapshot : Option FocusSnapshot)
deriving DecidableEq

private def jsonField (key : String) (value : Option String) : String :=
  match value with
  | none => ""
  | some v => ",\"" ++ key ++ "\":" ++ v

private def jsonBool (b : Bool) : String := if b then "true" else "false"

private def jsonText (s : String) : String := String.ofList (JsText.jsonString s.toList)

/-- The focus frame; a provider without a snapshot becomes a named empty one. -/
def focusFrame (snapshot : Option FocusSnapshot) : String :=
  let fields := match snapshot with
    | some s => jsonField "focusedMachineId" (s.focusedMachineId.map jsonText)
        ++ jsonField "isHome" (jsonBool s.isHome) ++ jsonField "absent" (jsonBool s.absent)
        ++ jsonField "reason" (s.reason.map jsonText)
    | none => ",\"isHome\":true,\"absent\":false,\"empty\":true"
  "event: amicode.fleet.focus\ndata: \x7b\"type\":\"amicode.fleet.focus\"" ++ fields ++ "\x7d\n\n"

def Control.text : Control → String
  | .gap namespaces _ => gapFrame namespaces
  | .unavailable machineId reason => honestSourceComment machineId reason
  | .focus snapshot => focusFrame snapshot

/-- One write to the downstream. -/
inductive Chunk
  /-- A local frame as it came, in fleet-of-one mode. -/
  | verbatim (frame : Frame)
  /-- A frame of a namespace, stamped with the composite cursor at that moment. -/
  | relayed (ns : String) (frame : Frame) (cursor : InsertionMap String String)
  | control (frame : Control)

/-- The string handed to `sink.write`. -/
def Chunk.text : Chunk → String
  | .verbatim frame => frame.raw
  | .relayed _ frame cursor => rewriteFrameId frame.raw (some (formatCompositeCursor cursor))
  | .control frame => frame.text

/-- The downstream: its answer to the n-th write (`false` backpressures), and what was written. -/
structure Sink where
  accept : ℕ → Bool
  written : List Chunk

/-- An entry of the ordered pending stream. -/
inductive Entry
  | data (ns : String) (frame : Frame)
  | control (frame : Control)
deriving DecidableEq

/-- Does an entry hold a data frame of the namespace? -/
def Entry.isDataOf (ns : String) : Entry → Bool
  | .data n _ => n == ns
  | .control _ => false

structure PeerMember where
  machineId : String
  reachable : Bool
  token : Option String
  reason : Option String

/-- A peer is an active arm when it is reachable and has a non-blank token. -/
def PeerMember.usable (peer : PeerMember) : Bool :=
  peer.reachable && (peer.token.any fun t ↦ JsText.trim t.toList != [])

/-- What a re-open of an arm must do. -/
inductive ReopenVerdict
  | «open»
  | resume
  | gap
  | sever
deriving DecidableEq

/-- What the caller of `ingest` must do with the arm. -/
inductive IngestVerdict
  | ok
  | sever
deriving DecidableEq

/-- What `ingest` did with the frame: wrote it, put it in a buffer, dropped it on overflow, or
consumed it as a resume handshake, a reset, or an answer that severs the listener. -/
inductive IngestOutcome
  | forwarded
  | queued
  | dropped
  | handshake
  | reset
  | severed
deriving DecidableEq

def IngestOutcome.verdict : IngestOutcome → IngestVerdict
  | .severed => .sever
  | _ => .ok

structure Aggregator where
  sink : Sink
  bufferBound : ℕ
  /-- namespace → last delivered upstream id -/
  composite : InsertionMap String String
  peerArms : InsertionSet String
  unavailable : InsertionSet String
  flowing : Bool
  pending : List Entry
  droppedCount : InsertionMap String ℕ
  everDelivered : InsertionSet String
  /-- namespace → the id its arm resumes from -/
  resumeAt : InsertionMap String String
  /-- arms re-opened from a cursor whose upstream has not answered yet -/
  resuming : InsertionSet String
  verbatimBuffer : List Frame

/-- The constructor's options, as far as delivery depends on them. -/
structure SseFanInOptions where
  accept : ℕ → Bool
  bufferBound : ℕ := 256
  /-- The focus provider, and what it answers when called. -/
  focusSnapshot : Option (Option FocusSnapshot) := none

namespace Aggregator

def new (opts : SseFanInOptions) : Aggregator where
  sink := ⟨opts.accept, []⟩
  bufferBound := opts.bufferBound
  composite := ∅
  peerArms := ∅
  unavailable := ∅
  flowing := true
  pending := []
  droppedCount := ∅
  everDelivered := ∅
  resumeAt := ∅
  resuming := ∅
  verbatimBuffer := []

/-- `sink.write`, `flush`, and the check of the answer: a refused write stalls the relay. -/
def put (a : Aggregator) (chunk : Chunk) : Aggregator :=
  { a with
    sink := { a.sink with written := a.sink.written ++ [chunk] }
    flowing := a.flowing && a.sink.accept a.sink.written.length }

/-- Write a control frame, or queue it behind the data when the downstream is stalled. -/
def writeControl (a : Aggregator) (frame : Control) : Aggregator :=
  if a.flowing then a.put (.control frame)
  else { a with pending := a.pending ++ [Entry.control frame] }

/-- Move a namespace's resume point: never backwards within one engine epoch. -/
def advanceResume (a : Aggregator) (ns rawId : String) : Aggregator :=
  match parseEngineId (some rawId), parseEngineId (a.resumeAt.get? ns) with
  | some next, some prev =>
    if next.epoch = prev.epoch ∧ next.seq < prev.seq then a
    else { a with resumeAt := a.resumeAt.set ns rawId }
  | _, _ => { a with resumeAt := a.resumeAt.set ns rawId }

/-- Take note of the id of an accepted frame of a namespace. -/
def advance (a : Aggregator) (ns : String) (rawId : Option String) : Aggregator :=
  match rawId with
  | none => a
  | some id => a.advanceResume ns id

/-- Record the id of a frame that is being delivered in the composite cursor. -/
def position (a : Aggregator) (ns : String) (rawId : Option String) : Aggregator :=
  match rawId with
  | none => a
  | some id => { a with composite := a.composite.set ns id }

/-- Write one frame downstream in composite mode. -/
def deliver (a : Aggregator) (ns : String) (frame : Frame) : Aggregator :=
  let rawId := frameRawId frame.raw
  let a := (a.position ns rawId).advance ns rawId
  a.put (.relayed ns frame a.composite)

/-- The number of frames dropped for a namespace since its last overflow gap. -/
def dropped (a : Aggregator) (ns : String) : ℕ := (a.droppedCount.get? ns).getD 0

/-- Enqueue a frame behind a stalled downstream, or drop it at the namespace's bound. -/
def enqueue (a : Aggregator) (ns : String) (frame : Frame) : Aggregator × IngestOutcome :=
  if a.pending.countP (Entry.isDataOf ns) ≥ a.bufferBound then
    ({ a with droppedCount := a.droppedCount.set ns (a.dropped ns + 1) }, .dropped)
  else
    ({ a with pending := a.pending ++ [Entry.data ns frame] }.advance ns (frameRawId frame.raw),
      .queued)

/-! ## Ingesting a frame -/

/-- Fleet-of-one: the local frame is written, or held, as it came. -/
def relayVerbatim (a : Aggregator) (frame : Frame) : Aggregator × IngestOutcome :=
  let rawId := frameRawId frame.raw
  let a := (a.position LOCAL_NAMESPACE rawId).advance LOCAL_NAMESPACE rawId
  if a.flowing then (a.put (.verbatim frame), .forwarded)
  else ({ a with verbatimBuffer := a.verbatimBuffer ++ [frame] }, .queued)

/-- The first data frame of an arm re-opened from its cursor says whether the upstream replayed:
an id-less one cannot have (a gap, or in fleet-of-one a sever), and in composite mode the engine's
`server.connected` is the upstream's handshake and is not forwarded. -/
def answerResume (a : Aggregator) (ns : String) (rawId : Option String)
    (control : Option EngineControlType) (verbatim : Bool) :
    Aggregator × Option IngestOutcome :=
  match rawId with
  | none =>
    if verbatim then (a, some .severed) else (a.writeControl (.gap [ns] .reopen), none)
  | some id =>
    if control = some .connected ∧ verbatim = false then (a.advanceResume ns id, some .handshake)
    else (a, none)

/-- The rest of `ingest`: an upstream reset, the verbatim branch, composite delivery. -/
def route (a : Aggregator) (ns : String) (frame : Frame) (control : Option EngineControlType)
    (verbatim : Bool) : Aggregator × IngestOutcome :=
  if control = some .unservable ∧ verbatim = false then
    ((a.advance ns (frameRawId frame.raw)).writeControl (.gap [ns] .reset), .reset)
  else if verbatim then a.relayVerbatim frame
  else if a.flowing then (a.deliver ns frame, .forwarded)
  else a.enqueue ns frame

/-- Is the namespace's stream passed verbatim, that is, is it the local one with no peer arm? -/
def isVerbatim (a : Aggregator) (ns : String) : Bool :=
  ns == LOCAL_NAMESPACE && a.peerArms.size == 0

/-- `ingest`, with the branch it took. -/
def ingestOutcome (a : Aggregator) (ns : String) (frame : Frame) : Aggregator × IngestOutcome :=
  let data := isDataFrame frame.raw
  let verbatim := a.isVerbatim ns
  let control := if data then engineControlType frame.raw else none
  let noted := if data then { a with everDelivered := a.everDelivered.add ns } else a
  if data && a.resuming.contains ns then
    match { noted with resuming := a.resuming.erase ns }.answerResume ns (frameRawId frame.raw)
      control verbatim with
    | (a, some outcome) => (a, outcome)
    | (a, none) => a.route ns frame control verbatim
  else noted.route ns frame control verbatim

def ingest (a : Aggregator) (ns : String) (frame : Frame) : Aggregator × IngestVerdict :=
  let r := a.ingestOutcome ns frame
  (r.1, r.2.verdict)

/-! ## Draining -/

/-- The first loop of `resume`: flush the verbatim buffer while the downstream accepts. -/
def drainVerbatim : List Frame → Aggregator → Aggregator
  | [], a => a
  | frame :: rest, a =>
    if a.flowing then drainVerbatim rest ({ a with verbatimBuffer := rest }.put (.verbatim frame))
    else a

/-- Write one entry taken off the pending stream. -/
def drainEntry (a : Aggregator) : Entry → Aggregator
  | .data ns frame => a.deliver ns frame
  | .control frame => a.put (.control frame)

/-- The second loop of `resume`: drain the pending stream in order while the downstream accepts. -/
def drainPending : List Entry → Aggregator → Aggregator
  | [], a => a
  | entry :: rest, a =>
    if a.flowing then drainPending rest ({ a with pending := rest }.drainEntry entry) else a

/-- Announce the namespaces that dropped frames, and zero their counters. -/
def emitGapIfDropped (a : Aggregator) : Aggregator :=
  let dropped := (a.droppedCount.entries.filter fun e ↦ e.2 > 0).map Prod.fst
  if dropped = [] then a
  else
    let a := a.writeControl (.gap dropped .overflow)
    { a with droppedCount := a.droppedCount.setAll (dropped.map fun ns ↦ (ns, 0)) }

/-- The downstream drained: flush the buffers, then announce what was dropped. -/
def resume (a : Aggregator) : Aggregator :=
  if a.flowing then a
  else
    let a := { a with flowing := true }
    let a := drainVerbatim a.verbatimBuffer a
    let a := drainPending a.pending a
    if a.flowing then a.emitGapIfDropped else a

/-! ## Membership and arms -/

def admitPeer (a : Aggregator) (peer : PeerMember) : Aggregator :=
  if peer.usable then
    { a with
      peerArms := a.peerArms.add peer.machineId
      unavailable := a.unavailable.erase peer.machineId }
  else
    let a := { a with peerArms := a.peerArms.erase peer.machineId }
    if a.unavailable.contains peer.machineId then a
    else
      let reason := peer.reason.getD (if peer.reachable then "token-absent" else "peer-unreachable")
      { a with unavailable := a.unavailable.add peer.machineId }.writeControl
        (.unavailable peer.machineId reason)

/-- Reconcile the fan-in membership. -/
def setMembership (a : Aggregator) (peers : List PeerMember) : Aggregator :=
  let a := peers.foldl admitPeer a
  let seen := peers.map PeerMember.machineId
  { a with
    peerArms := a.peerArms.filterKeys fun id ↦ id ∈ seen
    unavailable := a.unavailable.filterKeys fun id ↦ id ∈ seen }

/-- An arm is being re-opened. -/
def reopenArm (a : Aggregator) (ns : String) : Aggregator × ReopenVerdict :=
  if a.everDelivered.contains ns = false then (a, .open)
  else if (parseEngineId (a.resumeAt.get? ns)).isSome then
    ({ a with resuming := a.resuming.add ns }, .resume)
  else if a.peerArms.size = 0 then (a, .sever)
  else
    let a := a.writeControl (.gap [ns] .reopen)
    ({ a with everDelivered := a.everDelivered.erase ns }, .gap)

/-- Begin: seed the per-namespace positions from the client's cursor, then the focus frame. -/
def connect (a : Aggregator) (cursor : Option String)
    (focusSnapshot : Option (Option FocusSnapshot)) : Aggregator :=
  let resume := parseCompositeCursor cursor
  let a := { a with composite := resume, resumeAt := resume }
  match focusSnapshot with
  | none => a
  | some snapshot => a.writeControl (.focus snapshot)

end Aggregator

end Amicode
