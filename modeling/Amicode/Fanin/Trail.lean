import Amicode.Fanin.Conservation

/-!
# The trail of positions

What the relay has sent and will send, control frames included, is one list, the *stream*: the
chunks written, then the local frames held verbatim, then the pending entries, in the order in which
they reach the downstream. A drain does not change it.

Every frame written downstream puts namespaces at positions: a relayed frame carries the whole
composite cursor, a verbatim one its own id. `Trail` says where these positions come from: each is
the client's own starting position or the id of a frame that is written by then. It holds in every
run, and it reduces a statement about every position on the wire to one about the frames of the
stream.
-/

open List

namespace Amicode

/-- The engine position a frame's id names, if it names one. -/
def engineIdOf (raw : String) : Option EngineId := parseEngineId (frameRawId raw)

def Chunk.entry : Chunk → Entry
  | .verbatim frame => .data LOCAL_NAMESPACE frame
  | .relayed ns frame _ => .data ns frame
  | .control frame => .control frame

/-- The engine position at which the id of a chunk puts a namespace. -/
def Chunk.position (ns : String) : Chunk → Option EngineId
  | .verbatim frame => if ns = LOCAL_NAMESPACE then engineIdOf frame.raw else none
  | .relayed _ _ cursor => parseEngineId (cursor.get? ns)
  | .control _ => none

/-- Does the entry belong to no upstream? -/
def Entry.isControl : Entry → Bool
  | .control _ => true
  | .data _ _ => false

namespace Aggregator

/-- Everything written, then everything waiting, in the order it reaches the downstream. -/
def stream (a : Aggregator) : List Entry :=
  a.sink.written.map Chunk.entry ++ a.verbatimBuffer.map (Entry.data LOCAL_NAMESPACE) ++ a.pending

/-- A flowing relay holds nothing back. -/
def Drained (a : Aggregator) : Prop :=
  a.flowing = true → a.pending = [] ∧ a.verbatimBuffer = []

variable {a b : Aggregator}

theorem Settled.drained (h : a.Settled) : a.Drained := by
  intro hf
  obtain ⟨hp, hv, -⟩ := h hf
  exact ⟨hp, hv⟩

theorem Steady.drained (h : Steady a b) (ha : a.Drained) : b.Drained := by
  intro hf
  obtain ⟨hflow, hpending, hbuffer⟩ := h hf
  obtain ⟨hp, hv⟩ := ha hflow
  exact ⟨hpending.trans hp, hbuffer.trans hv⟩

theorem stream_source (a : Aggregator) : a.stream.filterMap Entry.source = a.outbox := by
  have hwritten : Entry.source ∘ Chunk.entry = Chunk.source := by
    funext chunk
    cases chunk <;> rfl
  have hbuffer : Entry.source ∘ Entry.data LOCAL_NAMESPACE
      = some ∘ fun frame ↦ (LOCAL_NAMESPACE, frame) := rfl
  rw [stream, outbox, waiting, sent, filterMap_append, filterMap_append,
    filterMap_map, filterMap_map, hwritten, hbuffer, filterMap_eq_map,
    append_assoc]

/-! ## How the stream grows -/

theorem stream_put (chunk : Chunk) (hp : a.pending = []) (hv : a.verbatimBuffer = []) :
    (a.put chunk).stream = a.stream ++ [chunk.entry] := by
  rw [stream, stream, put_written, put_pending, put_verbatimBuffer, hp, hv]
  simp

theorem stream_writeControl (ha : a.Drained) (frame : Control) :
    (a.writeControl frame).stream = a.stream ++ [.control frame] := by
  rw [writeControl]
  split
  · next hf =>
    obtain ⟨hp, hv⟩ := ha hf
    exact stream_put _ hp hv
  · rw [stream, stream, append_assoc _ a.pending]

theorem stream_noted (a : Aggregator) (ns raw : String) :
    (a.noted ns raw).stream = a.stream := by
  obtain ⟨delivered, resuming, h⟩ := a.noted_eq ns raw
  rw [h]
  rfl

theorem stream_advance (a : Aggregator) (ns : String) (rawId : Option String) :
    (a.advance ns rawId).stream = a.stream := by
  obtain ⟨m, h⟩ := a.advance_eq ns rawId
  rw [h]
  rfl

/-- Preparing a frame with an id sends nothing; preparing one without may send a gap. -/
theorem Prepared.stream {ns raw : String} (h : Prepared a ns raw b) (ha : a.Drained) :
    ∃ controls, b.stream = a.stream ++ controls ∧ (∀ e ∈ controls, e.isControl = true)
      ∧ (a.cannotResume ns raw = false → b = a.noted ns raw) := by
  cases h with
  | noted => exact ⟨[], by rw [stream_noted, append_nil], by simp, fun _ ↦ rfl⟩
  | announced refused =>
    refine ⟨[.control (.gap [ns] .reopen)], ?_, by simp [Entry.isControl], fun hno ↦ ?_⟩
    · rw [stream_writeControl ((a.steady_noted ns raw).drained ha), stream_noted]
    · exact absurd (refused.symm.trans hno) (by decide)

theorem stream_deliver (hp : a.pending = []) (hv : a.verbatimBuffer = []) (ns : String)
    (frame : Frame) : (a.deliver ns frame).stream = a.stream ++ [.data ns frame] := by
  obtain ⟨c, m, h⟩ := a.deliver_eq ns frame
  rw [h]
  exact stream_put _ hp hv

theorem stream_relayVerbatim (ha : a.Drained) (frame : Frame) :
    (a.flowing = true → (a.relayVerbatim frame).1.stream
      = a.stream ++ [.data LOCAL_NAMESPACE frame]) ∧
    (a.flowing = false → (a.relayVerbatim frame).1.stream
      = a.sink.written.map Chunk.entry ++ a.verbatimBuffer.map (Entry.data LOCAL_NAMESPACE)
        ++ .data LOCAL_NAMESPACE frame :: a.pending) := by
  obtain ⟨c, m, heq⟩ := a.relayVerbatim_eq frame
  rw [heq]
  refine ⟨fun hf ↦ ?_, fun hf ↦ ?_⟩
  · obtain ⟨hp, hv⟩ := ha hf
    rw [if_pos hf]
    exact stream_put _ hp hv
  · rw [if_neg (by simp [hf]), stream]
    simp

theorem stream_enqueue (a : Aggregator) (ns : String) (frame : Frame) :
    (a.depth ns < a.bufferBound ∧ (a.enqueue ns frame).2 = .queued
      ∧ (a.enqueue ns frame).1.stream = a.stream ++ [.data ns frame]) ∨
    ((a.enqueue ns frame).2 = .dropped ∧ (a.enqueue ns frame).1.stream = a.stream) := by
  rw [enqueue]
  split
  · exact .inr ⟨rfl, rfl⟩
  · next hroom =>
    refine .inl ⟨not_le.mp hroom, rfl, ?_⟩
    rw [stream_advance, stream, stream, append_assoc _ a.pending]

private theorem stream_drainHead {entry : Entry} {rest : List Entry}
    (h : a.pending = entry :: rest) (hv : a.verbatimBuffer = []) :
    ({ a with pending := rest }.drainEntry entry).stream = a.stream
      ∧ ({ a with pending := rest }.drainEntry entry).pending = rest
      ∧ ({ a with pending := rest }.drainEntry entry).verbatimBuffer = [] := by
  cases entry with
  | control frame =>
    refine ⟨?_, rfl, hv⟩
    rw [drainEntry, stream, stream, put_written, put_pending, put_verbatimBuffer, h, hv]
    simp [Chunk.entry]
  | data ns frame =>
    obtain ⟨c, m, hd⟩ := deliver_eq { a with pending := rest } ns frame
    rw [drainEntry, hd]
    refine ⟨?_, rfl, hv⟩
    rw [stream, stream, put_written, put_pending, put_verbatimBuffer, h, hv]
    simp [Chunk.entry]

private theorem stream_drainPending (queue : List Entry) (a : Aggregator) (h : a.pending = queue)
    (hv : a.flowing = true → a.verbatimBuffer = []) :
    (drainPending queue a).stream = a.stream := by
  induction queue generalizing a with
  | nil => rfl
  | cons entry rest ih =>
    rw [drainPending]
    split
    · next hf =>
      obtain ⟨hstream, hpending, hbuffer⟩ := stream_drainHead h (hv hf)
      exact (ih _ hpending fun _ ↦ hbuffer).trans hstream
    · rfl

theorem stream_drain (a : Aggregator) : a.drain.stream = a.stream := by
  obtain ⟨front, back, flowing, hsplit, hdone, heq⟩ :=
    drainVerbatim_eq a.verbatimBuffer { a with flowing := true } rfl
  have hflush : (drainVerbatim a.verbatimBuffer { a with flowing := true }).stream = a.stream := by
    have hmap : (front.map Chunk.verbatim).map Chunk.entry
        = front.map (Entry.data LOCAL_NAMESPACE) := List.map_map
    rw [heq, stream, stream, hsplit, map_append, map_append, hmap]
    simp only [append_assoc]
  rw [drain]
  refine (stream_drainPending _ _ rfl fun hf ↦ ?_).trans hflush
  exact (quiet_drainVerbatim a.verbatimBuffer { a with flowing := true } rfl).2.2 hf

theorem stream_resume (a : Aggregator) (hq : ∀ entry ∈ a.pending, entry.isOverflowGap = false) :
    ∃ more, a.resume.stream = a.stream ++ more ∧ ∀ e ∈ more, e.isControl = true := by
  have hdrain := a.stream_drain
  have hempty := (a.quiet_drain hq).2
  have hstep := a.resumeStep
  generalize a.resume = r at hstep
  cases hstep with
  | idle => exact ⟨[], by rw [append_nil], by simp⟩
  | drained => exact ⟨[], by rw [hdrain, append_nil], by simp⟩
  | @announced names counts hf _ _ =>
    refine ⟨[.control (.gap names .overflow)], ?_, by simp [Entry.isControl]⟩
    rw [← hdrain]
    exact stream_put _ (hempty hf).1 (hempty hf).2

theorem stream_setMembership (ha : a.Drained) (peers : List PeerMember) :
    ∃ more, (a.setMembership peers).stream = a.stream ++ more
      ∧ ∀ e ∈ more, e.isControl = true := by
  refine (setMembership_induction (P := fun b ↦ b.Drained ∧ ∃ more, b.stream = a.stream ++ more
    ∧ ∀ e ∈ more, e.isControl = true) ?_ ?_ ⟨ha, [], (append_nil _).symm, by simp⟩ peers).2
  · exact fun b _ _ h ↦ h
  · rintro b machineId reason ⟨hb, more, hmore, hcontrol⟩
    refine ⟨(steady_writeControl b _).drained hb, more ++ [.control (.unavailable machineId reason)], ?_, ?_⟩
    · rw [stream_writeControl hb, hmore, append_assoc]
    · intro e he
      rcases mem_append.mp he with hmem | hmem
      · exact hcontrol e hmem
      · rw [mem_singleton.mp hmem]
        rfl

theorem stream_reopenArm (ha : a.Drained) (ns : String) :
    ∃ more, (a.reopenArm ns).1.stream = a.stream ++ more ∧ ∀ e ∈ more, e.isControl = true := by
  rw [reopenArm]
  split
  · exact ⟨[], (append_nil _).symm, by simp⟩
  · split
    · exact ⟨[], (append_nil _).symm, by simp⟩
    · split
      · exact ⟨[], (append_nil _).symm, by simp⟩
      · exact ⟨[.control (.gap [ns] .reopen)], stream_writeControl ha _, by simp [Entry.isControl]⟩

/-! ## Where positions come from -/

/-- The position is the client's own, or the id of a frame among the entries. -/
def Traced (seed : InsertionMap String String) (entries : List Entry) (ns : String)
    (id : EngineId) : Prop :=
  parseEngineId (seed.get? ns) = some id ∨
    ∃ frame, Entry.data ns frame ∈ entries ∧ engineIdOf frame.raw = some id

/-- Positions are the client's own or come from frames written by then; those of the composite
cursor may also come from frames still held verbatim, which are written before it is used. -/
structure Trail (seed : InsertionMap String String) (a : Aggregator) : Prop where
  wire : ∀ front chunk back, a.sink.written = front ++ chunk :: back → ∀ ns id,
    chunk.position ns = some id → Traced seed ((front ++ [chunk]).map Chunk.entry) ns id
  composite : ∀ ns id, parseEngineId (a.composite.get? ns) = some id →
    Traced seed (a.sink.written.map Chunk.entry
      ++ a.verbatimBuffer.map (Entry.data LOCAL_NAMESPACE)) ns id

variable {seed : InsertionMap String String}

theorem Traced.mono {entries more : List Entry} {ns : String} {id : EngineId}
    (h : Traced seed entries ns id) (hsub : ∀ e ∈ entries, e ∈ more) : Traced seed more ns id := by
  rcases h with hseed | ⟨frame, hmem, hid⟩
  · exact .inl hseed
  · exact .inr ⟨frame, hsub _ hmem, hid⟩

theorem split_concat {α : Type*} {l front back : List α} {c x : α}
    (h : l ++ [c] = front ++ x :: back) :
    (front = l ∧ x = c ∧ back = []) ∨ ∃ back', back = back' ++ [c] ∧ l = front ++ x :: back' := by
  rcases eq_nil_or_concat back with rfl | ⟨back', c', rfl⟩
  · left
    obtain ⟨hl, hc⟩ := append_inj' h rfl
    rw [List.cons.injEq] at hc
    exact ⟨hl.symm, hc.1.symm, rfl⟩
  · right
    rw [concat_eq_append, ← cons_append, ← append_assoc] at h
    obtain ⟨hl, hc⟩ := append_inj' h rfl
    rw [List.cons.injEq] at hc
    exact ⟨back', by rw [hc.1, concat_eq_append], hl⟩

namespace Trail

private theorem wire_put (h : Trail seed a) {chunk : Chunk}
    (hnew : ∀ ns id, chunk.position ns = some id →
      Traced seed ((a.sink.written ++ [chunk]).map Chunk.entry) ns id) :
    ∀ front c back, a.sink.written ++ [chunk] = front ++ c :: back → ∀ ns id,
      c.position ns = some id → Traced seed ((front ++ [c]).map Chunk.entry) ns id := by
  intro front c back hsplit ns id hpos
  rcases split_concat hsplit with ⟨rfl, rfl, -⟩ | ⟨back', -, hold⟩
  · exact hnew ns id hpos
  · exact h.wire front c back' hold ns id hpos

theorem of_same (h : Trail seed a) (hwritten : b.sink.written = a.sink.written)
    (hcomposite : b.composite = a.composite) (hbuffer : b.verbatimBuffer = a.verbatimBuffer) :
    Trail seed b where
  wire := by rw [hwritten]; exact h.wire
  composite := by rw [hwritten, hcomposite, hbuffer]; exact h.composite

theorem put_control (h : Trail seed a) (frame : Control) :
    Trail seed (a.put (.control frame)) where
  wire := h.wire_put fun ns id hpos ↦ by simp [Chunk.position] at hpos
  composite ns id hid := by
    refine (h.composite ns id hid).mono fun e he ↦ ?_
    rw [put_written, put_verbatimBuffer, map_append]
    rcases mem_append.mp he with hmem | hmem
    · exact mem_append_left _ (mem_append_left _ hmem)
    · exact mem_append_right _ hmem

theorem writeControl (h : Trail seed a) (frame : Control) :
    Trail seed (a.writeControl frame) := by
  rw [Aggregator.writeControl]
  split
  · exact h.put_control frame
  · exact h.of_same rfl rfl rfl

private theorem position_traced (h : Trail seed a) (ns : String) (frame : Frame)
    (entries : List Entry) (hold : ∀ e ∈ a.sink.written.map Chunk.entry
      ++ a.verbatimBuffer.map (Entry.data LOCAL_NAMESPACE), e ∈ entries)
    (hnew : Entry.data ns frame ∈ entries) (n : String) (id : EngineId)
    (hid : parseEngineId ((a.position ns (frameRawId frame.raw)).composite.get? n) = some id) :
    Traced seed entries n id := by
  cases hraw : frameRawId frame.raw with
  | none =>
    rw [hraw] at hid
    exact (h.composite n id hid).mono hold
  | some rawId =>
    rw [hraw, position, InsertionMap.get?_set] at hid
    by_cases hn : ns = n
    · subst hn
      rw [if_pos rfl, ← hraw] at hid
      exact .inr ⟨frame, hnew, hid⟩
    · rw [if_neg hn] at hid
      exact (h.composite n id hid).mono hold

theorem deliver (h : Trail seed a) (hv : a.verbatimBuffer = []) (ns : String) (frame : Frame) :
    Trail seed (a.deliver ns frame) := by
  obtain ⟨m, hm⟩ := (a.position ns (frameRawId frame.raw)).advance_eq ns (frameRawId frame.raw)
  obtain ⟨c, hc⟩ := a.position_eq ns (frameRawId frame.raw)
  have htraced := h.position_traced ns frame
    ((a.sink.written ++ [Chunk.relayed ns frame c]).map Chunk.entry)
    (fun e he ↦ by
      rw [hv, map_nil, append_nil] at he
      rw [map_append]
      exact mem_append_left _ he)
    (by rw [map_append]; exact mem_append_right _ (mem_singleton_self _))
  rw [Aggregator.deliver, hm]
  rw [hc] at htraced ⊢
  exact
    { wire := h.wire_put fun n id hpos ↦ htraced n id hpos
      composite := fun n id hid ↦ (htraced n id hid).mono fun e he ↦ mem_append_left _ he }

private theorem traced_of_verbatim {written : List Chunk} {frame : Frame} {n : String} {id : EngineId}
    (hpos : (Chunk.verbatim frame).position n = some id) :
    Traced seed ((written ++ [Chunk.verbatim frame]).map Chunk.entry) n id := by
  rw [Chunk.position] at hpos
  split at hpos
  · next hn =>
    refine .inr ⟨frame, ?_, hpos⟩
    rw [map_append, hn]
    exact mem_append_right _ (mem_singleton_self _)
  · simp at hpos

/-- Fleet-of-one: the frame is written, or held as the last of the verbatim buffer. -/
theorem relayVerbatim (h : Trail seed a) (frame : Frame) :
    Trail seed (a.relayVerbatim frame).1 := by
  obtain ⟨m, hm⟩ :=
    (a.position LOCAL_NAMESPACE (frameRawId frame.raw)).advance_eq LOCAL_NAMESPACE
      (frameRawId frame.raw)
  obtain ⟨c, hc⟩ := a.position_eq LOCAL_NAMESPACE (frameRawId frame.raw)
  have htraced := h.position_traced LOCAL_NAMESPACE frame
  rw [Aggregator.relayVerbatim, hm]
  rw [hc] at htraced ⊢
  split
  · refine ⟨h.wire_put fun n id hpos ↦ traced_of_verbatim hpos, fun n id hid ↦ htraced _ ?_ ?_ n id hid⟩
    · intro e he
      rw [put_written, put_verbatimBuffer, map_append]
      rcases mem_append.mp he with hmem | hmem
      · exact mem_append_left _ (mem_append_left _ hmem)
      · exact mem_append_right _ hmem
    · rw [put_written, map_append]
      exact mem_append_left _ (mem_append_right _ (mem_singleton_self _))
  · refine ⟨h.wire, fun n id hid ↦ htraced _ ?_ ?_ n id hid⟩
    · intro e he
      rw [map_append, ← append_assoc]
      exact mem_append_left _ he
    · rw [map_append]
      exact mem_append_right _ (mem_append_right _ (mem_singleton_self _))

private theorem flushHead (h : Trail seed a) {frame : Frame} {rest : List Frame}
    (hv : a.verbatimBuffer = frame :: rest) :
    Trail seed ({ a with verbatimBuffer := rest }.put (.verbatim frame)) where
  wire := h.wire_put fun n id hpos ↦ traced_of_verbatim hpos
  composite n id hid := by
    refine (h.composite n id hid).mono fun e he ↦ ?_
    rw [hv] at he
    rw [put_written, put_verbatimBuffer, map_append]
    simpa [Chunk.entry, or_assoc] using he

private theorem drainVerbatim (buffer : List Frame) (h : Trail seed a)
    (hv : a.verbatimBuffer = buffer) : Trail seed (Aggregator.drainVerbatim buffer a) := by
  induction buffer generalizing a with
  | nil => exact h
  | cons frame rest ih =>
    rw [Aggregator.drainVerbatim]
    split
    · exact ih (h.flushHead hv) rfl
    · exact h

private theorem drainPending (queue : List Entry) (h : Trail seed a)
    (hv : a.flowing = true → a.verbatimBuffer = []) :
    Trail seed (Aggregator.drainPending queue a) := by
  induction queue generalizing a with
  | nil => exact h
  | cons entry rest ih =>
    rw [Aggregator.drainPending]
    split
    · next hf =>
      have hpop : Trail seed { a with pending := rest } := h.of_same rfl rfl rfl
      cases entry with
      | control frame => exact ih (hpop.put_control frame) fun _ ↦ hv hf
      | data ns frame =>
        refine ih (hpop.deliver (hv hf) ns frame) fun _ ↦ ?_
        obtain ⟨c, m, hd⟩ := deliver_eq { a with pending := rest } ns frame
        rw [drainEntry, hd]
        exact hv hf
    · exact h

/-! ### Operations -/

section

variable (h : Trail seed a)

include h

theorem resume : Trail seed a.resume := by
  have hdrain : Trail seed a.drain := by
    have hflush :
        Trail seed (Aggregator.drainVerbatim a.verbatimBuffer { a with flowing := true }) :=
      drainVerbatim _ (h.of_same rfl rfl rfl) rfl
    exact drainPending _ hflush
      (quiet_drainVerbatim a.verbatimBuffer { a with flowing := true } rfl).2.2
  have hstep := a.resumeStep
  generalize a.resume = r at hstep
  cases hstep with
  | idle => exact h
  | drained => exact hdrain
  | announced => exact (hdrain.put_control _).of_same rfl rfl rfl

theorem setMembership (peers : List PeerMember) : Trail seed (a.setMembership peers) :=
  setMembership_induction (fun _ _ _ hb ↦ hb.of_same rfl rfl rfl) (fun _ _ _ hb ↦ hb.writeControl _) h peers

theorem reopenArm (ns : String) : Trail seed (a.reopenArm ns).1 := by
  rw [Aggregator.reopenArm]
  split
  · exact h
  · split
    · exact h.of_same rfl rfl rfl
    · split
      · exact h
      · exact (h.writeControl _).of_same rfl rfl rfl

private theorem noted (ns raw : String) : Trail seed (a.noted ns raw) := by
  obtain ⟨delivered, resuming, heq⟩ := a.noted_eq ns raw
  rw [heq]
  exact h.of_same rfl rfl rfl

private theorem advance (ns : String) (rawId : Option String) : Trail seed (a.advance ns rawId) := by
  obtain ⟨m, heq⟩ := a.advance_eq ns rawId
  rw [heq]
  exact h.of_same rfl rfl rfl

private theorem prepared {ns raw : String} (hb : Prepared a ns raw b) : Trail seed b := by
  cases hb with
  | noted => exact h.noted ns raw
  | announced => exact (h.noted ns raw).writeControl _

theorem ingestStep (ha : a.Settled) {ns : String} {frame : Frame}
    {r : Aggregator × IngestOutcome} (hstep : IngestStep a ns frame r) : Trail seed r.1 := by
  cases hstep with
  | severed => exact h.noted ns _
  | handshake id => exact (h.noted ns _).advance ns (some id)
  | reset hb => exact ((h.prepared hb).advance ns _).writeControl _
  | verbatim => exact (h.noted ns _).relayVerbatim frame
  | delivered hb _ _ flowing =>
    have hdrained := hb.steady.drained ha.drained
    exact (h.prepared hb).deliver (hdrained flowing).2 ns frame
  | @enqueued b hb =>
    have htrail := h.prepared hb
    rw [enqueue]
    split
    · exact htrail.of_same rfl rfl rfl
    · refine advance ?_ ns _
      exact htrail.of_same rfl rfl rfl

end

end Trail

end Aggregator

namespace Session

/-- In every run, positions on the wire come from the client's cursor or from frames written. -/
theorem trail_run (opts : SseFanInOptions) (cursor : Option String) (ops : List FaninOp) :
    ((start opts cursor).run ops).agg.Trail (parseCompositeCursor cursor) := by
  have hstep : ∀ (s : Session) (op : FaninOp),
      s.Sound ∧ s.agg.Trail (parseCompositeCursor cursor) →
      (s.step op).Sound ∧ (s.step op).agg.Trail (parseCompositeCursor cursor) := by
    rintro s op ⟨hs, htrail⟩
    refine ⟨sound_step hs op, ?_⟩
    cases op with
    | ingest ns raw => exact htrail.ingestStep hs.2 (s.agg.ingestStep ns _)
    | setMembership peers => exact htrail.setMembership peers
    | reopenArm ns => exact htrail.reopenArm ns
    | resume => exact htrail.resume
  have hstart : (start opts cursor).agg.Trail (parseCompositeCursor cursor) := by
    have hbase : Aggregator.Trail (parseCompositeCursor cursor) { Aggregator.new opts with
        composite := parseCompositeCursor cursor, resumeAt := parseCompositeCursor cursor } :=
      ⟨fun front chunk back hsplit ↦ absurd hsplit (by simp [Aggregator.new]),
        fun ns id hid ↦ .inl hid⟩
    rw [start]
    cases opts.focusSnapshot with
    | none => exact hbase
    | some snapshot => exact hbase.writeControl _
  exact (StepMachine.invariant_run hstep ⟨sound_start opts cursor, hstart⟩ ops).2

end Session

end Amicode
