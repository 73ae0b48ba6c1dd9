import Amicode.Fanin.Aggregator
import Amicode.Foundation.StepMachine

/-!
# Connections of the fan-in relay

A `Session` is one downstream connection together with what its statements quantify over: the
aggregator, and every frame ingested so far with the branch `ingest` took. A run is any list of
public operations; the downstream's answers are the sink's `accept` function, so that quantifying
over sinks quantifies over every accept and stall pattern.

The second half says once what an operation can do. `IngestStep` has one case for each way
`ingest` ends, and `Extends` collects what no operation but an overflow announcement changes.
-/

namespace Amicode

/-- One ingested frame: where it came from, what `ingest` did with it, and how many chunks had
been written downstream when `ingest` returned. -/
structure Arrival where
  ns : String
  frame : Frame
  outcome : IngestOutcome
  mark : ℕ
deriving DecidableEq

/-- One downstream connection and the frames it has ingested, oldest first. -/
structure Session where
  agg : Aggregator
  arrivals : List Arrival

/-- The public operations of the aggregator on a running connection. -/
inductive FaninOp
  | ingest (ns raw : String)
  | setMembership (peers : List PeerMember)
  | reopenArm (ns : String)
  | resume

namespace Session

/-- A connection as the driver begins it: a new aggregator, connected at the client's cursor. -/
def start (opts : SseFanInOptions) (cursor : Option String) : Session :=
  ⟨(Aggregator.new opts).connect cursor opts.focusSnapshot, []⟩

/-- The frame an ingest hands over next. -/
def nextFrame (s : Session) (raw : String) : Frame := ⟨raw, s.arrivals.length⟩

def step (s : Session) : FaninOp → Session
  | .ingest ns raw =>
    let r := s.agg.ingestOutcome ns (s.nextFrame raw)
    ⟨r.1, s.arrivals ++ [⟨ns, s.nextFrame raw, r.2, r.1.sink.written.length⟩]⟩
  | .setMembership peers => ⟨s.agg.setMembership peers, s.arrivals⟩
  | .reopenArm ns => ⟨(s.agg.reopenArm ns).1, s.arrivals⟩
  | .resume => ⟨s.agg.resume, s.arrivals⟩

/-- The connection after a list of operations. -/
abbrev run (s : Session) (ops : List FaninOp) : Session := StepMachine.run step s ops

end Session

/-- Is the frame the engine's answer that it cannot serve the cursor? -/
def isReset (raw : String) : Bool :=
  isDataFrame raw && engineControlType raw == some .unservable

/-! ## Where a frame is -/

/-- The upstream frame a chunk carries, if it carries one. -/
def Chunk.source : Chunk → Option (String × Frame)
  | .verbatim frame => some (LOCAL_NAMESPACE, frame)
  | .relayed ns frame _ => some (ns, frame)
  | .control _ => none

/-- The upstream frame a pending entry holds, if it holds one. -/
def Entry.source : Entry → Option (String × Frame)
  | .data ns frame => some (ns, frame)
  | .control _ => none

/-- Is the chunk a gap frame announcing an overflow of the namespace? -/
def Chunk.isOverflowGapOf (ns : String) : Chunk → Bool
  | .control (.gap namespaces .overflow) => ns ∈ namespaces
  | _ => false

/-- Is the control frame an overflow announcement? -/
def Control.isOverflowGap : Control → Bool
  | .gap _ .overflow => true
  | _ => false

/-- Is the chunk an overflow announcement? -/
def Chunk.isOverflowGap : Chunk → Bool
  | .control c => c.isOverflowGap
  | _ => false

/-- Is the entry an overflow announcement? -/
def Entry.isOverflowGap : Entry → Bool
  | .control c => c.isOverflowGap
  | .data _ _ => false

namespace Aggregator

/-- The upstream frames written downstream, in order. -/
def sent (a : Aggregator) : List (String × Frame) := a.sink.written.filterMap Chunk.source

/-- The upstream frames waiting behind a stalled downstream, in the order `resume` drains them. -/
def waiting (a : Aggregator) : List (String × Frame) :=
  a.verbatimBuffer.map (fun frame ↦ (LOCAL_NAMESPACE, frame)) ++ a.pending.filterMap Entry.source

/-- Everything accepted for delivery: what was written, then what waits. -/
def outbox (a : Aggregator) : List (String × Frame) := a.sent ++ a.waiting

/-- A flowing relay holds nothing back and owes no announcement. -/
def Settled (a : Aggregator) : Prop :=
  a.flowing = true → a.pending = [] ∧ a.verbatimBuffer = [] ∧ ∀ ns, a.dropped ns = 0

/-! ## The primitives -/

section Primitives

variable (a : Aggregator) (ns : String) (chunk : Chunk)

@[simp] theorem put_written : (a.put chunk).sink.written = a.sink.written ++ [chunk] := rfl

@[simp] theorem put_pending : (a.put chunk).pending = a.pending := rfl

@[simp] theorem put_verbatimBuffer : (a.put chunk).verbatimBuffer = a.verbatimBuffer := rfl

@[simp] theorem put_waiting : (a.put chunk).waiting = a.waiting := rfl

theorem put_sent : (a.put chunk).sent = a.sent ++ chunk.source.toList := by
  rw [sent, put_written, List.filterMap_append, ← sent]
  cases h : chunk.source <;> simp [h]

theorem put_flowing_imp {chunk : Chunk} (h : (a.put chunk).flowing = true) :
    a.flowing = true := by
  rw [put, Bool.and_eq_true] at h
  exact h.1

theorem advanceResume_eq (rawId : String) :
    ∃ m, a.advanceResume ns rawId = { a with resumeAt := m } := by
  rw [advanceResume]
  split
  · split
    · exact ⟨_, rfl⟩
    · exact ⟨_, rfl⟩
  · exact ⟨_, rfl⟩

variable (rawId : Option String)

theorem advance_eq : ∃ m, a.advance ns rawId = { a with resumeAt := m } := by
  cases rawId with
  | none => exact ⟨_, rfl⟩
  | some id => exact a.advanceResume_eq ns id

theorem position_eq : ∃ m, a.position ns rawId = { a with composite := m } := by
  cases rawId with
  | none => exact ⟨_, rfl⟩
  | some id => exact ⟨_, rfl⟩

/-- Noting a delivered or buffered id touches the two cursors only. -/
theorem advance_position_eq : ∃ c m, (a.position ns rawId).advance ns rawId
      = { a with composite := c, resumeAt := m } := by
  obtain ⟨c, hc⟩ := a.position_eq ns rawId
  obtain ⟨m, hm⟩ := (a.position ns rawId).advance_eq ns rawId
  exact ⟨c, m, by rw [hm, hc]⟩

/-- A delivery stamps the frame with some cursor and moves the two cursors. -/
theorem deliver_eq (frame : Frame) :
    ∃ c m, a.deliver ns frame
      = { a with composite := c, resumeAt := m }.put (.relayed ns frame c) := by
  obtain ⟨c, m, h⟩ := a.advance_position_eq ns (frameRawId frame.raw)
  exact ⟨c, m, by rw [deliver, h]⟩

/-- Fleet-of-one writes or holds the frame as it came, and moves the two cursors. -/
theorem relayVerbatim_eq (frame : Frame) :
    ∃ c m, a.relayVerbatim frame =
      if a.flowing then
        ({ a with composite := c, resumeAt := m }.put (.verbatim frame), .forwarded)
      else
        ({ a with
          composite := c, resumeAt := m, verbatimBuffer := a.verbatimBuffer ++ [frame] },
          .queued) := by
  obtain ⟨c, m, h⟩ := a.advance_position_eq LOCAL_NAMESPACE (frameRawId frame.raw)
  exact ⟨c, m, by rw [relayVerbatim, h]⟩

/-- The first loop of `resume` moves a front part of the buffer downstream as it is, and stops
early only when the downstream stalls. -/
theorem drainVerbatim_eq (buffer : List Frame) (a : Aggregator) (h : a.verbatimBuffer = buffer) :
    ∃ front back flowing, buffer = front ++ back ∧ (flowing = true → back = []) ∧
      drainVerbatim buffer a =
        { a with
          sink := { a.sink with written := a.sink.written ++ front.map Chunk.verbatim }
          flowing := flowing
          verbatimBuffer := back } := by
  induction buffer generalizing a with
  | nil =>
    exact ⟨[], [], a.flowing, rfl, fun _ ↦ rfl,
      by rw [drainVerbatim, List.map_nil, List.append_nil, ← h]⟩
  | cons frame rest ih =>
    rw [drainVerbatim]
    split
    · obtain ⟨front, back, flowing, hsplit, hdone, heq⟩ :=
        ih ({ a with verbatimBuffer := rest }.put (.verbatim frame)) rfl
      refine ⟨frame :: front, back, flowing, by rw [hsplit]; rfl, hdone, ?_⟩
      rw [heq]
      simp [put]
    · next hf =>
      exact ⟨[], frame :: rest, a.flowing, rfl, fun h ↦ absurd h hf,
        by rw [List.map_nil, List.append_nil, ← h]⟩

end Primitives

/-! ## The ways an ingest ends -/

/-- The bookkeeping about the arm that every ingest of a data frame begins with. -/
def noted (a : Aggregator) (ns raw : String) : Aggregator :=
  if isDataFrame raw then
    { a with everDelivered := a.everDelivered.add ns, resuming := a.resuming.erase ns }
  else a

variable (a : Aggregator)

theorem noted_eq (ns raw : String) : ∃ delivered resuming, a.noted ns raw
      = { a with everDelivered := delivered, resuming := resuming } := by
  rw [noted]
  split
  · exact ⟨_, _, rfl⟩
  · exact ⟨_, _, rfl⟩

theorem noted_resuming (ns raw : String) : (a.noted ns raw).resuming
      = if isDataFrame raw then a.resuming.erase ns else a.resuming := by
  rw [noted]
  split <;> rfl

/-- Is the frame an id-less answer to a re-open from a cursor: the upstream could not resume? -/
def cannotResume (a : Aggregator) (ns raw : String) : Bool :=
  isDataFrame raw && a.resuming.contains ns && (frameRawId raw).isNone

/-- Is the frame the engine's handshake on an arm re-opened from a cursor? -/
def shakesHands (a : Aggregator) (ns raw : String) : Bool :=
  isDataFrame raw && a.resuming.contains ns && (frameRawId raw).isSome
    && engineControlType raw == some .connected

/-- What precedes the routing of a frame: bookkeeping about the arm, and in composite mode the gap
of a re-open the upstream could not honour. -/
inductive Prepared (a : Aggregator) (ns raw : String) : Aggregator → Prop
  | noted (resumes : a.cannotResume ns raw = false) : Prepared a ns raw (a.noted ns raw)
  | announced (refused : a.cannotResume ns raw = true) :
      Prepared a ns raw ((a.noted ns raw).writeControl (.gap [ns] .reopen))

/-- One case for each way `ingest` ends. -/
inductive IngestStep (a : Aggregator) (ns : String) (frame : Frame) :
    Aggregator × IngestOutcome → Prop
  | severed (refused : a.cannotResume ns frame.raw = true) (verbatim : a.isVerbatim ns = true) :
      IngestStep a ns frame (a.noted ns frame.raw, .severed)
  | handshake (id : String) (hid : frameRawId frame.raw = some id)
      (shakes : a.shakesHands ns frame.raw = true) (composite : a.isVerbatim ns = false) :
      IngestStep a ns frame ((a.noted ns frame.raw).advanceResume ns id, .handshake)
  | reset {b : Aggregator} (prepared : Prepared a ns frame.raw b)
      (resets : isReset frame.raw = true) (composite : a.isVerbatim ns = false) :
      IngestStep a ns frame
        ((b.advance ns (frameRawId frame.raw)).writeControl (.gap [ns] .reset), .reset)
  | verbatim (resumes : a.cannotResume ns frame.raw = false)
      (verbatim : a.isVerbatim ns = true) :
      IngestStep a ns frame ((a.noted ns frame.raw).relayVerbatim frame)
  | delivered {b : Aggregator} (prepared : Prepared a ns frame.raw b)
      (noHandshake : a.shakesHands ns frame.raw = false) (noReset : isReset frame.raw = false)
      (flowing : b.flowing = true) (composite : a.isVerbatim ns = false) :
      IngestStep a ns frame (b.deliver ns frame, .forwarded)
  | enqueued {b : Aggregator} (prepared : Prepared a ns frame.raw b)
      (noHandshake : a.shakesHands ns frame.raw = false) (noReset : isReset frame.raw = false)
      (stalled : b.flowing = false) (composite : a.isVerbatim ns = false) :
      IngestStep a ns frame (b.enqueue ns frame)

private theorem route_composite {a b : Aggregator} {ns : String} (frame : Frame)
    {control : Option EngineControlType} (hb : Prepared a ns frame.raw b)
    (hv : a.isVerbatim ns = false) (hs : a.shakesHands ns frame.raw = false)
    (hreset : isReset frame.raw = (control == some .unservable)) :
    IngestStep a ns frame (b.route ns frame control false) := by
  by_cases hu : control = some .unservable
  · rw [route, if_pos ⟨hu, rfl⟩]
    exact .reset hb (by rw [hreset, hu]; rfl) hv
  · have hno : isReset frame.raw = false := by rw [hreset, beq_eq_false_iff_ne]; exact hu
    rw [route, if_neg fun h ↦ hu h.1, if_neg Bool.false_ne_true]
    cases hf : b.flowing with
    | true => exact .delivered hb hs hno hf hv
    | false => exact .enqueued hb hs hno hf hv

private theorem route_verbatim (b : Aggregator) (ns : String) (frame : Frame)
    (control : Option EngineControlType) :
    b.route ns frame control true = b.relayVerbatim frame := by
  rw [route, if_neg (by simp), if_pos rfl]

private theorem ingestStep_route {a : Aggregator} {ns : String} {frame : Frame}
    (hr : (isDataFrame frame.raw && a.resuming.contains ns) = false) :
    IngestStep a ns frame ((a.noted ns frame.raw).route ns frame
      (if isDataFrame frame.raw then engineControlType frame.raw else none) (a.isVerbatim ns)) := by
  have hresumes : a.cannotResume ns frame.raw = false := by rw [cannotResume, hr, Bool.false_and]
  cases hv : a.isVerbatim ns with
  | true =>
    rw [route_verbatim]
    exact .verbatim hresumes hv
  | false =>
    refine route_composite frame (.noted hresumes) hv ?_ ?_
    · rw [shakesHands, hr, Bool.false_and, Bool.false_and]
    · rw [isReset]
      cases isDataFrame frame.raw <;> rfl

theorem ingestStep (ns : String) (frame : Frame) : IngestStep a ns frame (a.ingestOutcome ns frame) := by
  cases hr : isDataFrame frame.raw && a.resuming.contains ns with
  | false =>
    have hroute := ingestStep_route hr
    -- erasing an arm that is not resuming is no change
    have hnoted : a.noted ns frame.raw
        = if isDataFrame frame.raw then { a with everDelivered := a.everDelivered.add ns }
          else a := by
      rw [noted]
      cases hdata : isDataFrame frame.raw with
      | false => rfl
      | true =>
        rw [hdata, Bool.true_and] at hr
        rw [if_pos rfl, if_pos rfl, a.resuming.erase_of_not_contains hr]
    rw [hnoted] at hroute
    rw [ingestOutcome, if_neg (by simp [hr])]
    exact hroute
  | true =>
    obtain ⟨hdata, hcontains⟩ := Bool.and_eq_true_iff.mp hr
    have hnoted : a.noted ns frame.raw
        = { a with everDelivered := a.everDelivered.add ns, resuming := a.resuming.erase ns } :=
      if_pos hdata
    have hcontrol : isReset frame.raw = (engineControlType frame.raw == some .unservable) := by
      rw [isReset, hdata, Bool.true_and]
    rw [ingestOutcome, if_pos hr, if_pos hdata, if_pos hdata, ← hnoted]
    cases hid : frameRawId frame.raw with
    | none =>
      have hrefused : a.cannotResume ns frame.raw = true := by
        rw [cannotResume, hr, hid]
        rfl
      cases hv : a.isVerbatim ns with
      | true => exact .severed hrefused hv
      | false =>
        refine route_composite frame (.announced hrefused) hv ?_ hcontrol
        rw [shakesHands, hid, Option.isSome_none, Bool.and_false, Bool.false_and]
    | some id =>
      have hresumes : a.cannotResume ns frame.raw = false := by
        rw [cannotResume, hid, Option.isNone_some, Bool.and_false]
      cases hv : a.isVerbatim ns with
      | true =>
        rw [answerResume, if_neg (by simp)]
        dsimp only
        rw [route_verbatim]
        exact .verbatim hresumes hv
      | false =>
        have hshakes : a.shakesHands ns frame.raw
            = (engineControlType frame.raw == some .connected) := by
          rw [shakesHands, hr, hid]
          rfl
        by_cases hc : engineControlType frame.raw = some .connected
        · rw [answerResume, if_pos ⟨hc, rfl⟩]
          exact .handshake id hid (by rw [hshakes, hc]; rfl) hv
        · rw [answerResume, if_neg fun h ↦ hc h.1]
          refine route_composite frame (.noted hresumes) hv ?_ hcontrol
          rw [hshakes, beq_eq_false_iff_ne]
          exact hc

end Aggregator

end Amicode
