import Amicode.Fanin.Conservation

/-!
# Fleet-of-one byte identity

With no peer arm the relay is a wire: what it wrote, followed by what it still holds, is what was
ingested, byte for byte. Composite mode shares most of the state and most of the code of this path
(the re-open bookkeeping, the detection of engine control frames, both drain loops and the overflow
announcement), so the invariant says of each piece of shared state that it stays in the corner where
it cannot act: no peer arm, an empty pending stream, nothing dropped.

A `sever` verdict ends the listener, so a run is followed up to the first operation that answers it.
-/

open List

namespace Amicode

namespace FaninOp

/-- An operation of a fleet of one: it only ingests and re-opens the local arm, and a membership
update names no peer. -/
def Solo : FaninOp → Prop
  | .ingest ns _ => ns = LOCAL_NAMESPACE
  | .setMembership peers => peers = []
  | .reopenArm ns => ns = LOCAL_NAMESPACE
  | .resume => True

instance : DecidablePred Solo
  | .ingest ns _ => inferInstanceAs (Decidable (ns = LOCAL_NAMESPACE))
  | .setMembership [] => .isTrue rfl
  | .setMembership (_ :: _) => .isFalse (List.cons_ne_nil _ _)
  | .reopenArm ns => inferInstanceAs (Decidable (ns = LOCAL_NAMESPACE))
  | .resume => .isTrue trivial

/-- The frame an operation ingests, if it ingests one. -/
def raw? : FaninOp → Option String
  | .ingest _ raw => some raw
  | _ => none

end FaninOp

namespace Session

/-- Does the operation answer `sever`? -/
def answersSever (s : Session) : FaninOp → Bool
  | .ingest ns raw => (s.agg.ingest ns (s.nextFrame raw)).2 = .sever
  | .reopenArm ns => (s.agg.reopenArm ns).2 = .sever
  | _ => false

/-- The connection after the operations up to and including the first that answers `sever`. -/
def runToSever : Session → List FaninOp → Session
  | s, [] => s
  | s, op :: ops => if s.answersSever op then s.step op else runToSever (s.step op) ops

/-- The frames ingested before the first operation that answers `sever`. -/
def ingestedToSever : Session → List FaninOp → List String
  | _, [] => []
  | s, op :: ops =>
    if s.answersSever op then [] else op.raw?.toList ++ ingestedToSever (s.step op) ops

/-! ## The invariant -/

private def relayed (arrivals : List Arrival) : List Frame :=
  (arrivals.filter fun x ↦ x.outcome ≠ .severed).map Arrival.frame

/-- The invariant of a fleet of one. -/
structure Wire (s : Session) : Prop where
  sound : s.Sound
  noPeers : s.agg.peerArms.entries = []
  pending : s.agg.pending = []
  dropped : ∀ ns, s.agg.dropped ns = 0
  bytes : ∃ frames, s.agg.sink.written = frames.map Chunk.verbatim
    ∧ frames ++ s.agg.verbatimBuffer = relayed s.arrivals

variable {s : Session}

theorem Wire.isVerbatim (h : s.Wire) : s.agg.isVerbatim LOCAL_NAMESPACE = true := by
  rw [Aggregator.isVerbatim, InsertionMap.size, h.noPeers]
  rfl

/-- The relay behaves as a wire as long as it touches neither the peers, the pending stream, the
counters nor the bytes. -/
private theorem Wire.of_untouched (h : s.Wire) {b : Aggregator}
    (hsound : (⟨b, s.arrivals⟩ : Session).Sound) (hpeers : b.peerArms.entries = [])
    (hpending : b.pending = s.agg.pending) (hdropped : ∀ ns, b.dropped ns = s.agg.dropped ns)
    (hwritten : b.sink.written = s.agg.sink.written)
    (hbuffer : b.verbatimBuffer = s.agg.verbatimBuffer) :
    (⟨b, s.arrivals⟩ : Session).Wire where
  sound := hsound
  noPeers := hpeers
  pending := hpending.trans h.pending
  dropped ns := (hdropped ns).trans (h.dropped ns)
  bytes := by
    rw [hwritten, hbuffer]
    exact h.bytes

private theorem wire_ingest (h : s.Wire) (raw : String) :
    (s.step (.ingest LOCAL_NAMESPACE raw)).Wire := by
  have hsound := sound_step h.sound (.ingest LOCAL_NAMESPACE raw)
  have hv := h.isVerbatim
  obtain ⟨frames, hwritten, hbytes⟩ := h.bytes
  rw [step] at hsound ⊢
  generalize hr : s.agg.ingestOutcome LOCAL_NAMESPACE (s.nextFrame raw) = r at hsound
  have hstep := s.agg.ingestStep LOCAL_NAMESPACE (s.nextFrame raw)
  rw [hr] at hstep
  cases hstep with
  | severed refused verbatim =>
    obtain ⟨delivered, resuming, heq⟩ := s.agg.noted_eq LOCAL_NAMESPACE (s.nextFrame raw).raw
    rw [heq] at hsound ⊢
    refine ⟨hsound, h.noPeers, h.pending, h.dropped, frames, hwritten, ?_⟩
    simpa [relayed] using hbytes
  | verbatim resumes verbatim =>
    obtain ⟨delivered, resuming, heq⟩ := s.agg.noted_eq LOCAL_NAMESPACE (s.nextFrame raw).raw
    obtain ⟨c, m, hrelay⟩ :=
      (s.agg.noted LOCAL_NAMESPACE (s.nextFrame raw).raw).relayVerbatim_eq (s.nextFrame raw)
    have hlast : ∀ outcome mark, outcome = .forwarded ∨ outcome = .queued →
        relayed (s.arrivals ++ [⟨LOCAL_NAMESPACE, s.nextFrame raw, outcome, mark⟩])
          = frames ++ s.agg.verbatimBuffer ++ [s.nextFrame raw] := by
      intro outcome mark hkind
      rw [hbytes, relayed, filter_append, map_append]
      rcases hkind with rfl | rfl <;> rfl
    rw [hrelay, heq] at hsound ⊢
    split at hsound
    · next hf =>
      have hbuffer : s.agg.verbatimBuffer = [] := (h.sound.2 hf).2.1
      rw [if_pos hf]
      refine ⟨hsound, h.noPeers, h.pending, h.dropped, frames ++ [s.nextFrame raw], ?_, ?_⟩
      · rw [Aggregator.put_written, hwritten, map_append, map_singleton]
      · rw [hlast _ _ (.inl rfl), hbuffer]
        simp
    · next hf =>
      rw [if_neg hf]
      refine ⟨hsound, h.noPeers, h.pending, h.dropped, frames, hwritten, ?_⟩
      rw [hlast _ _ (.inr rfl), append_assoc]
  | handshake _ _ _ composite => exact absurd (hv.symm.trans composite) (by decide)
  | reset _ _ composite => exact absurd (hv.symm.trans composite) (by decide)
  | delivered _ _ _ _ composite => exact absurd (hv.symm.trans composite) (by decide)
  | enqueued _ _ _ _ composite => exact absurd (hv.symm.trans composite) (by decide)

private theorem wire_resume (h : s.Wire) : (s.step .resume).Wire := by
  have hsound := sound_step h.sound .resume
  obtain ⟨frames, hwritten, hbytes⟩ := h.bytes
  obtain ⟨front, back, flowing, hsplit, -, hdrained⟩ :=
    Aggregator.drainVerbatim_eq s.agg.verbatimBuffer { s.agg with flowing := true } rfl
  -- the pending stream is empty, so the verbatim loop is the whole drain
  have hdrain : s.agg.drain = { s.agg with
      sink := { s.agg.sink with written := s.agg.sink.written ++ front.map Chunk.verbatim }
      flowing := flowing
      verbatimBuffer := back } := by
    rw [Aggregator.drain]
    rw [hdrained]
    dsimp only
    rw [h.pending, Aggregator.drainPending]
  have hresume : s.agg.resume = s.agg ∨ s.agg.resume = s.agg.drain := by
    rw [Aggregator.resume_eq]
    split
    · exact .inl rfl
    · right
      split
      · next hf =>
        refine s.agg.drain.emitGapIfDropped_of_none hf fun ns ↦ ?_
        rw [hdrain]
        exact h.dropped ns
      · rfl
  rw [step] at hsound ⊢
  rcases hresume with hsame | hmoved
  · rw [hsame]
    exact h
  · rw [hmoved, hdrain] at hsound ⊢
    refine ⟨hsound, h.noPeers, h.pending, h.dropped, frames ++ front, ?_, ?_⟩
    · rw [hwritten, map_append]
    · rw [← hbytes, hsplit, append_assoc]

theorem wire_step (h : s.Wire) {op : FaninOp} (hop : op.Solo) : (s.step op).Wire := by
  cases op with
  | ingest ns raw =>
    obtain rfl : ns = LOCAL_NAMESPACE := hop
    exact wire_ingest h raw
  | setMembership peers =>
    obtain rfl : peers = [] := hop
    refine h.of_untouched (sound_step h.sound (.setMembership [])) ?_ rfl (fun _ ↦ rfl) rfl rfl
    simp [Aggregator.setMembership, InsertionMap.filterKeys, h.noPeers]
  | reopenArm ns =>
    have hsize : s.agg.peerArms.size = 0 := by rw [InsertionMap.size, h.noPeers]; rfl
    have hsound := sound_step h.sound (.reopenArm ns)
    rw [step, Aggregator.reopenArm, if_pos hsize] at hsound ⊢
    split at hsound
    · next hinitial =>
      rw [if_pos hinitial]
      exact h
    · next hinitial =>
      rw [if_neg hinitial]
      split at hsound
      · next hresume =>
        rw [if_pos hresume]
        exact h.of_untouched hsound h.noPeers rfl (fun _ ↦ rfl) rfl rfl
      · next hresume =>
        rw [if_neg hresume]
        exact h
  | resume => exact wire_resume h

theorem wire_start {opts : SseFanInOptions} (hfocus : opts.focusSnapshot = none)
    (cursor : Option String) : (start opts cursor).Wire := by
  have hsound := sound_start opts cursor
  rw [start, hfocus] at hsound ⊢
  exact ⟨hsound, rfl, rfl, fun _ ↦ rfl, [], rfl, rfl⟩

/-! ## Runs up to the first sever -/

private theorem relayed_append (arrivals : List Arrival) (x : Arrival) :
    relayed (arrivals ++ [x])
      = relayed arrivals ++ if x.outcome = .severed then [] else [x.frame] := by
  rw [relayed, filter_append, map_append, relayed]
  by_cases hx : x.outcome = .severed <;> simp [hx]

private theorem answersSever_ingest (ns raw : String) :
    s.answersSever (.ingest ns raw) = true
      ↔ (s.agg.ingestOutcome ns (s.nextFrame raw)).2 = .severed := by
  rw [answersSever, Aggregator.ingest, decide_eq_true_iff]
  cases (s.agg.ingestOutcome ns (s.nextFrame raw)).2 <;> simp [IngestOutcome.verdict]

private theorem relayed_step (op : FaninOp) :
    (relayed (s.step op).arrivals).map Frame.raw
      = (relayed s.arrivals).map Frame.raw
        ++ if s.answersSever op then [] else op.raw?.toList := by
  cases op with
  | ingest ns raw =>
    rw [step, relayed_append, map_append]
    by_cases hsever : s.answersSever (.ingest ns raw) = true
    · rw [if_pos hsever, if_pos ((answersSever_ingest ns raw).mp hsever), map_nil]
    · rw [if_neg hsever, if_neg fun h ↦ hsever ((answersSever_ingest ns raw).mpr h)]
      rfl
  | setMembership _ => exact (append_nil _).symm
  | reopenArm _ => simp [step, FaninOp.raw?]
  | resume => exact (append_nil _).symm

private theorem wire_runToSever (h : s.Wire) {ops : List FaninOp} (hops : ∀ op ∈ ops, op.Solo) :
    (s.runToSever ops).Wire ∧ (relayed (s.runToSever ops).arrivals).map Frame.raw
      = (relayed s.arrivals).map Frame.raw ++ s.ingestedToSever ops := by
  induction ops generalizing s with
  | nil => exact ⟨h, (append_nil _).symm⟩
  | cons op ops ih =>
    have hstep := wire_step h (hops op mem_cons_self)
    rw [runToSever, ingestedToSever]
    cases hsever : s.answersSever op with
    | true =>
      rw [if_pos rfl, if_pos rfl, relayed_step, hsever, if_pos rfl]
      exact ⟨hstep, rfl⟩
    | false =>
      rw [if_neg Bool.false_ne_true, if_neg Bool.false_ne_true]
      obtain ⟨hwire, hrelayed⟩ := ih hstep fun op hop ↦ hops op (mem_cons_of_mem _ hop)
      rw [hrelayed, relayed_step, hsever, if_neg Bool.false_ne_true, append_assoc]
      exact ⟨hwire, rfl⟩

/-- **Byte identity.** In a fleet of one without a focus provider, whatever the downstream answers,
the bytes written followed by the bytes held are the frames ingested up to the first `sever`, and
every chunk written is an ingested frame as it came. -/
theorem solo_bytes {opts : SseFanInOptions} (hfocus : opts.focusSnapshot = none)
    (cursor : Option String) {ops : List FaninOp} (hops : ∀ op ∈ ops, op.Solo) :
    String.join (((start opts cursor).runToSever ops).agg.sink.written.map Chunk.text) ++
        String.join (((start opts cursor).runToSever ops).agg.verbatimBuffer.map Frame.raw)
      = String.join ((start opts cursor).ingestedToSever ops) ∧
    ∀ chunk ∈ ((start opts cursor).runToSever ops).agg.sink.written,
      ∃ frame, chunk = .verbatim frame ∧ frame.raw ∈ (start opts cursor).ingestedToSever ops := by
  obtain ⟨hwire, hrelayed⟩ := wire_runToSever (wire_start hfocus cursor) hops
  have hnone : (start opts cursor).arrivals = [] := rfl
  rw [hnone] at hrelayed
  obtain ⟨frames, hwritten, hbytes⟩ := hwire.bytes
  have hraw : frames.map Frame.raw
        ++ ((start opts cursor).runToSever ops).agg.verbatimBuffer.map Frame.raw
      = (start opts cursor).ingestedToSever ops := by
    rw [← List.map_append, hbytes, hrelayed]
    rfl
  rw [hwritten, ← hraw, List.map_map]
  refine ⟨?_, ?_⟩
  · rw [String.join_append]
    rfl
  · intro chunk hchunk
    obtain ⟨frame, hframe, rfl⟩ := List.mem_map.mp hchunk
    exact ⟨frame, rfl, List.mem_append_left _ (List.mem_map_of_mem hframe)⟩

/-- A stall, a re-open from the cursor, and an engine that answers it without an id. -/
def severedRun : List FaninOp :=
  [.setMembership [], .ingest LOCAL_NAMESPACE "id: e:1\ndata: a\n\n",
    .ingest LOCAL_NAMESPACE ": beat\n\n", .resume, .reopenArm LOCAL_NAMESPACE,
    .ingest LOCAL_NAMESPACE "data: b\n\n", .ingest LOCAL_NAMESPACE "id: e:2\ndata: c\n\n"]

theorem solo_bytes_severedRun :
    String.join
        (((start ⟨fun n ↦ n != 0, 256, none⟩ none).runToSever severedRun).agg.sink.written.map
          Chunk.text)
      ++ String.join
        (((start ⟨fun n ↦ n != 0, 256, none⟩ none).runToSever severedRun).agg.verbatimBuffer.map
          Frame.raw)
      = "id: e:1\ndata: a\n\n: beat\n\n" :=
  (solo_bytes rfl none (by decide)).1.trans (by decide)

end Session

end Amicode
