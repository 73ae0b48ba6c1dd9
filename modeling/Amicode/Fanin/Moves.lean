import Amicode.Fanin.Session

/-!
# What an operation does to the frames in its hands

All operations but `ingest` and the overflow announcement leave the *outbox* alone, that is, the
frames written followed by the frames waiting: control frames carry no upstream frame, and a drain
moves frames across the boundary without reordering the concatenation. `Quiet` collects this with
the other things such a move leaves alone, and `Calm` is the part of it that accepting a frame
shares. The invariants of a connection are then preserved by a quiet move for a reason that has
nothing to do with which operation made it.

`Steady` is the companion about the stall: a move that may stall the relay but never unstalls it,
and buffers nothing while flowing. Everything but `resume` is steady.
-/

open List Bool

namespace Amicode

namespace Aggregator

/-- The number of data entries of a namespace in the pending stream. -/
def depth (a : Aggregator) (ns : String) : ℕ := a.pending.countP (Entry.isDataOf ns)

/-! ## Calm and quiet moves -/

/-- A move of the relay that drops and announces nothing. -/
structure Calm (a b : Aggregator) : Prop where
  bufferBound : b.bufferBound = a.bufferBound
  dropped : ∀ ns, b.dropped ns = a.dropped ns
  /-- What it writes announces no overflow. -/
  written : ∃ extra, b.sink.written = a.sink.written ++ extra ∧
    ∀ chunk ∈ extra, chunk.isOverflowGap = false
  queued : ∀ entry ∈ b.pending, entry ∈ a.pending ∨ entry.isOverflowGap = false
  /-- It respects the bound on what waits. -/
  depth : ∀ ns, a.depth ns ≤ a.bufferBound → b.depth ns ≤ b.bufferBound

/-- A calm move that also accepts nothing. -/
structure Quiet (a b : Aggregator) : Prop extends Calm a b where
  outbox : b.outbox = a.outbox

variable {a b c : Aggregator}

namespace Calm

theorem refl (a : Aggregator) : Calm a a where
  bufferBound := rfl
  dropped _ := rfl
  written := ⟨[], by simp, by simp⟩
  queued _ h := Or.inl h
  depth _ h := h

theorem trans (hab : Calm a b) (hbc : Calm b c) : Calm a c where
  bufferBound := hbc.bufferBound.trans hab.bufferBound
  dropped ns := (hbc.dropped ns).trans (hab.dropped ns)
  written := by
    obtain ⟨x, hx, hx'⟩ := hab.written
    obtain ⟨y, hy, hy'⟩ := hbc.written
    refine ⟨x ++ y, by rw [hy, hx, append_assoc], ?_⟩
    intro chunk hmem
    rcases mem_append.mp hmem with h | h
    · exact hx' chunk h
    · exact hy' chunk h
  queued entry h := by
    rcases hbc.queued entry h with h | h
    · exact hab.queued entry h
    · exact Or.inr h
  depth ns h := hbc.depth ns (hab.depth ns h)

theorem length_le (h : Calm a b) : a.sink.written.length ≤ b.sink.written.length := by
  obtain ⟨extra, hx, -⟩ := h.written
  rw [hx, length_append]
  exact Nat.le_add_right _ _

end Calm

namespace Quiet

theorem refl (a : Aggregator) : Quiet a a := ⟨Calm.refl a, rfl⟩

theorem trans (hab : Quiet a b) (hbc : Quiet b c) : Quiet a c :=
  ⟨hab.toCalm.trans hbc.toCalm, hbc.outbox.trans hab.outbox⟩

end Quiet

/-- A move that cannot unstall the relay, and that buffers nothing if the relay still flows. -/
def Steady (a b : Aggregator) : Prop :=
  b.flowing = true →
    a.flowing = true ∧ b.pending = a.pending ∧ b.verbatimBuffer = a.verbatimBuffer

namespace Steady

theorem refl (a : Aggregator) : Steady a a := fun h ↦ ⟨h, rfl, rfl⟩

theorem trans (hab : Steady a b) (hbc : Steady b c) : Steady a c := by
  intro hc
  obtain ⟨hb, hpending, hbuffer⟩ := hbc hc
  obtain ⟨ha, hpending', hbuffer'⟩ := hab hb
  exact ⟨ha, hpending.trans hpending', hbuffer.trans hbuffer'⟩

theorem settled (h : Steady a b) (hdropped : ∀ ns, b.dropped ns = a.dropped ns)
    (ha : a.Settled) : b.Settled := by
  intro hb
  obtain ⟨hflow, hpending, hbuffer⟩ := h hb
  obtain ⟨hp, hv, hd⟩ := ha hflow
  exact ⟨hpending.trans hp, hbuffer.trans hv, fun ns ↦ (hdropped ns).trans (hd ns)⟩

end Steady

theorem Settled.waiting (h : a.Settled) (hf : a.flowing = true) : a.waiting = [] := by
  obtain ⟨hp, hv, -⟩ := h hf
  rw [Aggregator.waiting, hp, hv]
  rfl

/-! ## The moves -/

variable (a)

theorem quiet_bookkeeping (composite resumeAt : InsertionMap String String)
    (peerArms unavailable everDelivered resuming : InsertionSet String) :
    Quiet a { a with
      composite := composite, resumeAt := resumeAt, peerArms := peerArms,
      unavailable := unavailable, everDelivered := everDelivered, resuming := resuming } where
  bufferBound := rfl
  dropped _ := rfl
  written := ⟨[], by simp, by simp⟩
  queued _ h := Or.inl h
  depth _ h := h
  outbox := rfl

theorem calm_put {chunk : Chunk} (h : chunk.isOverflowGap = false) : Calm a (a.put chunk) where
  bufferBound := rfl
  dropped _ := rfl
  written := ⟨[chunk], rfl, by simpa using h⟩
  queued _ h := Or.inl h
  depth _ h := h

theorem steady_put (chunk : Chunk) : Steady a (a.put chunk) :=
  fun h ↦ ⟨a.put_flowing_imp h, rfl, rfl⟩

/-- What a write adds to the outbox goes before what waits. -/
theorem put_outbox (chunk : Chunk) :
    (a.put chunk).outbox = a.sent ++ chunk.source.toList ++ a.waiting := by
  rw [outbox, put_sent, put_waiting]

theorem quiet_put_control {frame : Control} (h : frame.isOverflowGap = false) :
    Quiet a (a.put (.control frame)) :=
  ⟨a.calm_put h, by rw [put_outbox, Chunk.source, Option.toList_none, append_nil, outbox]⟩

private theorem calm_push {entry : Entry} (h : entry.isOverflowGap = false)
    (hdepth : ∀ ns, entry.isDataOf ns = true → a.depth ns < a.bufferBound) :
    Calm a { a with pending := a.pending ++ [entry] } where
  bufferBound := rfl
  dropped _ := rfl
  written := ⟨[], by simp, by simp⟩
  queued e he := by
    rcases mem_append.mp he with h' | h'
    · exact Or.inl h'
    · rw [mem_singleton.mp h']
      exact Or.inr h
  depth ns hns := by
    rw [depth, List.countP_append, countP_singleton]
    by_cases hd : entry.isDataOf ns = true
    · rw [if_pos hd]
      exact hdepth ns hd
    · rw [if_neg hd]
      exact hns

private theorem push_waiting (entry : Entry) :
    { a with pending := a.pending ++ [entry] }.waiting = a.waiting ++ entry.source.toList := by
  have hsplit : (a.pending ++ [entry]).filterMap Entry.source
      = a.pending.filterMap Entry.source ++ entry.source.toList := by
    rw [filterMap_append]
    cases h : entry.source <;> simp [h]
  rw [waiting, waiting, hsplit, append_assoc]

theorem quiet_writeControl {frame : Control} (h : frame.isOverflowGap = false) :
    Quiet a (a.writeControl frame) := by
  rw [writeControl]
  split
  · exact a.quiet_put_control h
  · refine ⟨a.calm_push h (by simp [Entry.isDataOf]), ?_⟩
    rw [outbox, push_waiting, Entry.source, Option.toList_none, append_nil, outbox]
    rfl

theorem steady_writeControl (frame : Control) : Steady a (a.writeControl frame) := by
  rw [writeControl]
  split
  · exact a.steady_put _
  · next hf => exact fun h ↦ absurd h hf

variable (ns : String)

theorem quiet_advanceResume (rawId : String) : Quiet a (a.advanceResume ns rawId) := by
  obtain ⟨m, h⟩ := a.advanceResume_eq ns rawId
  rw [h]
  exact a.quiet_bookkeeping _ _ _ _ _ _

theorem quiet_advance (rawId : Option String) : Quiet a (a.advance ns rawId) := by
  obtain ⟨m, h⟩ := a.advance_eq ns rawId
  rw [h]
  exact a.quiet_bookkeeping _ _ _ _ _ _

theorem steady_advanceResume (rawId : String) : Steady a (a.advanceResume ns rawId) := by
  obtain ⟨m, h⟩ := a.advanceResume_eq ns rawId
  rw [h]
  exact fun hf ↦ ⟨hf, rfl, rfl⟩

theorem steady_advance (rawId : Option String) : Steady a (a.advance ns rawId) := by
  obtain ⟨m, h⟩ := a.advance_eq ns rawId
  rw [h]
  exact fun hf ↦ ⟨hf, rfl, rfl⟩

variable {a}

theorem quiet_noted (a : Aggregator) (ns raw : String) : Quiet a (a.noted ns raw) := by
  obtain ⟨delivered, resuming, h⟩ := a.noted_eq ns raw
  rw [h]
  exact a.quiet_bookkeeping _ _ _ _ _ _

theorem steady_noted (a : Aggregator) (ns raw : String) : Steady a (a.noted ns raw) := by
  obtain ⟨delivered, resuming, h⟩ := a.noted_eq ns raw
  rw [h]
  exact fun hf ↦ ⟨hf, rfl, rfl⟩

theorem Prepared.quiet {ns raw : String} (h : Prepared a ns raw b) : Quiet a b := by
  cases h with
  | noted => exact a.quiet_noted ns raw
  | announced => exact (a.quiet_noted ns raw).trans (quiet_writeControl _ rfl)

theorem Prepared.steady {ns raw : String} (h : Prepared a ns raw b) : Steady a b := by
  cases h with
  | noted => exact a.steady_noted ns raw
  | announced => exact (a.steady_noted ns raw).trans (steady_writeControl _ _)

/-! ### Accepting a frame -/

variable (a) (frame : Frame)

theorem calm_deliver : Calm a (a.deliver ns frame) ∧ Steady a (a.deliver ns frame)
      ∧ (a.deliver ns frame).sent = a.sent ++ [(ns, frame)] ∧ (a.deliver ns frame).waiting = a.waiting := by
  obtain ⟨c, m, h⟩ := a.deliver_eq ns frame
  have hbook : Quiet a { a with composite := c, resumeAt := m } := a.quiet_bookkeeping _ _ _ _ _ _
  rw [h]
  refine ⟨hbook.toCalm.trans (calm_put _ rfl), fun hf ↦ ?_, ?_, rfl⟩
  · exact ⟨put_flowing_imp { a with composite := c, resumeAt := m } hf, rfl, rfl⟩
  · rw [put_sent]
    rfl

theorem enqueue_cases : (∃ b, a.enqueue ns frame = (b, .queued) ∧ Calm a b ∧ b.flowing = a.flowing
      ∧ b.sent = a.sent ∧ b.waiting = a.waiting ++ [(ns, frame)]) ∨
    (a.bufferBound ≤ a.depth ns ∧ a.enqueue ns frame
      = ({ a with droppedCount := a.droppedCount.set ns (a.dropped ns + 1) }, .dropped)) := by
  rw [enqueue]
  split
  · next h => exact Or.inr ⟨h, rfl⟩
  · next h =>
    left
    have hpush : Calm a { a with pending := a.pending ++ [Entry.data ns frame] } := by
      refine a.calm_push rfl ?_
      intro n hn
      rw [Entry.isDataOf, beq_iff_eq] at hn
      rw [← hn]
      exact not_le.mp h
    obtain ⟨m, hm⟩ := advance_eq { a with pending := a.pending ++ [Entry.data ns frame] } ns
      (frameRawId frame.raw)
    rw [hm]
    refine ⟨_, rfl, hpush.trans (quiet_bookkeeping _ _ _ _ _ _ _).toCalm, rfl, rfl, ?_⟩
    exact a.push_waiting (.data ns frame)

/-- Fleet-of-one: the frame is written, or put behind the local frames already held. -/
theorem relayVerbatim_cases :
    (a.flowing = true ∧ ∃ b, a.relayVerbatim frame = (b, .forwarded) ∧ Calm a b ∧ Steady a b
      ∧ b.sent = a.sent ++ [(LOCAL_NAMESPACE, frame)] ∧ b.waiting = a.waiting) ∨
    (a.flowing = false ∧ ∃ b, a.relayVerbatim frame = (b, .queued) ∧ Calm a b
      ∧ b.flowing = false ∧ b.sent = a.sent ∧ b.pending = a.pending
      ∧ b.verbatimBuffer = a.verbatimBuffer ++ [frame]) := by
  obtain ⟨c, m, h⟩ := a.advance_position_eq LOCAL_NAMESPACE (frameRawId frame.raw)
  have hbook : Quiet a { a with composite := c, resumeAt := m } := a.quiet_bookkeeping _ _ _ _ _ _
  rw [relayVerbatim, h]
  cases hf : a.flowing with
  | true =>
    refine Or.inl ⟨rfl, _, if_pos rfl, ?_⟩
    have hput : Calm { a with composite := c, resumeAt := m }
        ({ a with composite := c, resumeAt := m }.put (.verbatim frame)) := calm_put _ rfl
    have hsent := put_sent { a with composite := c, resumeAt := m } (.verbatim frame)
    rw [hf] at hbook hput hsent
    exact ⟨hbook.toCalm.trans hput, fun _ ↦ ⟨hf, rfl, rfl⟩, hsent, rfl⟩
  | false =>
    refine Or.inr ⟨rfl, _, if_neg Bool.false_ne_true, ?_, rfl, rfl, rfl, rfl⟩
    exact ⟨rfl, fun _ ↦ rfl, ⟨[], by simp, by simp⟩, fun _ h ↦ Or.inl h, fun _ h ↦ h⟩

/-! ### Draining -/

variable {a}

/-- The first loop of `resume` is quiet; when it leaves the relay flowing the buffer is empty. -/
theorem quiet_drainVerbatim (buffer : List Frame) (a : Aggregator) (h : a.verbatimBuffer = buffer) :
    Quiet a (drainVerbatim buffer a) ∧ (drainVerbatim buffer a).pending = a.pending ∧
      ((drainVerbatim buffer a).flowing = true → (drainVerbatim buffer a).verbatimBuffer = []) := by
  induction buffer generalizing a with
  | nil => exact ⟨Quiet.refl a, rfl, fun _ ↦ h⟩
  | cons frame rest ih =>
    rw [drainVerbatim]
    split
    · obtain ⟨hq, hp, hb⟩ := ih ({ a with verbatimBuffer := rest }.put (.verbatim frame)) rfl
      refine ⟨Quiet.trans ⟨?_, ?_⟩ hq, hp, hb⟩
      · exact Calm.trans (b := { a with verbatimBuffer := rest })
          ⟨rfl, fun _ ↦ rfl, ⟨[], by simp, by simp⟩, fun _ h ↦ Or.inl h, fun _ h ↦ h⟩
          (calm_put _ rfl)
      · rw [put_outbox, outbox, waiting, waiting, h]
        simp [Chunk.source, sent]
    · next hf => exact ⟨Quiet.refl a, rfl, fun h ↦ absurd h hf⟩

/-- Taking the head off the pending stream and writing it is quiet, once the verbatim buffer is
empty: were it not, the drain would put a frame before the local frames still held. -/
private theorem quiet_drainHead {entry : Entry} {rest : List Entry} (h : a.pending = entry :: rest)
    (hq : entry.isOverflowGap = false) (hv : a.verbatimBuffer = []) :
    Quiet a ({ a with pending := rest }.drainEntry entry)
      ∧ Steady { a with pending := rest } ({ a with pending := rest }.drainEntry entry) := by
  have hpop : Calm a { a with pending := rest } :=
    { bufferBound := rfl
      dropped := fun _ ↦ rfl
      written := ⟨[], by simp, by simp⟩
      queued := fun e he ↦ Or.inl (by rw [h]; exact mem_cons_of_mem _ he)
      depth := fun ns hns ↦ by
        refine le_trans (Sublist.countP_le ?_) hns
        rw [h]
        exact sublist_cons_self entry rest }
  cases entry with
  | control frame =>
    have hput : Quiet { a with pending := rest }
        ({ a with pending := rest }.drainEntry (.control frame)) :=
      quiet_put_control { a with pending := rest } hq
    refine ⟨⟨hpop.trans hput.toCalm, ?_⟩, steady_put _ _⟩
    have hnone : (Entry.control frame :: rest).filterMap Entry.source
        = rest.filterMap Entry.source := rfl
    rw [hput.outbox, outbox, outbox, waiting, waiting, h, hnone]
    rfl
  | data ns frame =>
    obtain ⟨hcalm, hsteady, hsent, hwaiting⟩ := calm_deliver { a with pending := rest } ns frame
    refine ⟨⟨hpop.trans hcalm, ?_⟩, hsteady⟩
    rw [drainEntry, outbox, hsent, hwaiting, outbox, waiting, waiting, h, hv]
    simp [sent, Entry.source]

/-- The second loop of `resume` is quiet if a flowing relay has no local frames left to flush;
when it leaves the relay flowing the pending stream is empty. -/
theorem quiet_drainPending (queue : List Entry) (a : Aggregator) (h : a.pending = queue)
    (hq : ∀ entry ∈ queue, entry.isOverflowGap = false)
    (hv : a.flowing = true → a.verbatimBuffer = []) :
    Quiet a (drainPending queue a) ∧
      ((drainPending queue a).flowing = true → (drainPending queue a).pending = []
        ∧ (drainPending queue a).verbatimBuffer = []) := by
  induction queue generalizing a with
  | nil => exact ⟨Quiet.refl a, fun hf ↦ ⟨h, hv hf⟩⟩
  | cons entry rest ih =>
    rw [drainPending]
    split
    · next hf =>
      obtain ⟨hhead, hsteady⟩ := quiet_drainHead h (hq entry (mem_cons_self ..)) (hv hf)
      have hpending : ({ a with pending := rest }.drainEntry entry).pending = rest := by
        cases entry with
        | control frame => rfl
        | data ns frame =>
          obtain ⟨c, m, hd⟩ := deliver_eq { a with pending := rest } ns frame
          rw [drainEntry, hd]
          rfl
      obtain ⟨htail, hdone⟩ := ih ({ a with pending := rest }.drainEntry entry) hpending
        (fun e he ↦ hq e (mem_cons_of_mem _ he))
        (fun hf' ↦ (hsteady hf').2.2.trans (hv hf))
      exact ⟨hhead.trans htail, hdone⟩
    · next hf => exact ⟨Quiet.refl a, fun h ↦ absurd h hf⟩

/-- The two loops of `resume`. -/
def drain (a : Aggregator) : Aggregator :=
  let a := { a with flowing := true }
  let a := drainVerbatim a.verbatimBuffer a
  drainPending a.pending a

variable (a)

theorem resume_eq : a.resume = if a.flowing then a
      else if a.drain.flowing then a.drain.emitGapIfDropped else a.drain := rfl

/-- The drain is quiet, and finishes empty unless the downstream stalled it. -/
theorem quiet_drain (hq : ∀ entry ∈ a.pending, entry.isOverflowGap = false) : Quiet a a.drain ∧
      (a.drain.flowing = true → a.drain.pending = [] ∧ a.drain.verbatimBuffer = []) := by
  have hopen : Quiet a { a with flowing := true } :=
    ⟨⟨rfl, fun _ ↦ rfl, ⟨[], by simp, by simp⟩, fun _ h ↦ Or.inl h, fun _ h ↦ h⟩, rfl⟩
  obtain ⟨hflush, hpending, hempty⟩ :=
    quiet_drainVerbatim a.verbatimBuffer { a with flowing := true } rfl
  rw [drain]
  obtain ⟨hdrain, hdone⟩ := quiet_drainPending
    (drainVerbatim a.verbatimBuffer { a with flowing := true }).pending
    (drainVerbatim a.verbatimBuffer { a with flowing := true }) rfl
    (by rw [hpending]; exact hq) hempty
  exact ⟨(hopen.trans hflush).trans hdrain, hdone⟩

/-! ### The overflow announcement -/

/-- The namespaces an announcement names are those with dropped frames. -/
private theorem mem_droppedNames (ns : String) :
    ns ∈ (a.droppedCount.entries.filter fun e ↦ e.2 > 0).map Prod.fst ↔ 0 < a.dropped ns := by
  rw [dropped]
  constructor
  · intro h
    obtain ⟨e, he, rfl⟩ := List.mem_map.mp h
    obtain ⟨hmem, hpos⟩ := mem_filter.mp he
    rw [(a.droppedCount.get?_eq_some_iff e.1 e.2).mpr hmem]
    simpa using hpos
  · intro h
    cases hget : a.droppedCount.get? ns with
    | none => simp [hget] at h
    | some n =>
      have hmem := (a.droppedCount.get?_eq_some_iff ns n).mp hget
      rw [hget] at h
      exact List.mem_map.mpr ⟨(ns, n), mem_filter.mpr ⟨hmem, by simpa using h⟩, rfl⟩

/-- While flowing, the announcement is one written gap naming exactly the namespaces with dropped
frames, whose counters it zeroes; with nothing dropped it does nothing. -/
theorem emitGapIfDropped_cases (hf : a.flowing = true) : ((∀ ns, a.dropped ns = 0) ∧ a.emitGapIfDropped = a) ∨
    ∃ names counts, names ≠ [] ∧ (∀ ns, ns ∈ names ↔ 0 < a.dropped ns) ∧ a.emitGapIfDropped
        = { a.put (.control (.gap names .overflow)) with droppedCount := counts } ∧
      ∀ ns, a.emitGapIfDropped.dropped ns = 0 := by
  have hnames := mem_droppedNames a
  rw [emitGapIfDropped]
  generalize (a.droppedCount.entries.filter fun e ↦ e.2 > 0).map Prod.fst = names at hnames ⊢
  by_cases hnil : names = []
  · left
    refine ⟨fun ns ↦ ?_, if_pos hnil⟩
    by_contra hne
    have hmem := (hnames ns).mpr (Nat.pos_of_ne_zero hne)
    rw [hnil] at hmem
    exact not_mem_nil hmem
  · right
    rw [if_neg hnil, writeControl, if_pos hf]
    refine ⟨names, _, hnil, hnames, rfl, fun ns ↦ ?_⟩
    rw [dropped, InsertionMap.get?_setAll_const]
    by_cases hns : ns ∈ names
    · rw [if_pos hns]
      rfl
    · rw [if_neg hns]
      exact Nat.eq_zero_of_not_pos fun h ↦ hns ((hnames ns).mpr h)

theorem emitGapIfDropped_of_none (hf : a.flowing = true)
    (h : ∀ ns, a.dropped ns = 0) : a.emitGapIfDropped = a := by
  rcases a.emitGapIfDropped_cases hf with ⟨-, hsame⟩ | ⟨names, counts, hne, hnames, -, -⟩
  · exact hsame
  · obtain ⟨ns, hns⟩ := exists_mem_of_ne_nil names hne
    exact absurd ((hnames ns).mp hns) (by simp [h ns])

/-- What a resume does: nothing, a drain, or a drain and then one gap, which names the namespaces with
dropped frames and zeroes their counters. -/
inductive ResumeStep (a : Aggregator) : Aggregator → Prop
  | idle : ResumeStep a a
  | drained : ResumeStep a a.drain
  | announced {names : List String} {counts : InsertionMap String ℕ} (flowing : a.drain.flowing = true)
      (hnames : ∀ ns ∈ names, 0 < a.drain.dropped ns)
      (hzero : ∀ ns, ({ a.drain.put (.control (.gap names .overflow)) with
        droppedCount := counts } : Aggregator).dropped ns = 0) :
      ResumeStep a { a.drain.put (.control (.gap names .overflow)) with droppedCount := counts }

theorem resumeStep : ResumeStep a a.resume := by
  rw [resume_eq]
  split
  · exact .idle
  · split
    · next hf =>
      rcases a.drain.emitGapIfDropped_cases hf with ⟨-, hsame⟩ | ⟨names, counts, -, hnames, heq, hzero⟩
      · rw [hsame]
        exact .drained
      · rw [heq] at hzero ⊢
        exact .announced hf (fun ns ↦ (hnames ns).mp) hzero
    · exact .drained

theorem emitGapIfDropped_outbox (hf : a.flowing = true) : a.emitGapIfDropped.outbox = a.outbox := by
  rcases a.emitGapIfDropped_cases hf with ⟨-, hsame⟩ | ⟨names, counts, -, -, heq, -⟩
  · rw [hsame]
  · rw [heq]
    exact (a.put_outbox _).trans (by rw [Chunk.source, Option.toList_none, append_nil, outbox])

/-- `resume` moves frames from the buffers to the downstream, and nothing else. -/
theorem resume_outbox (hq : ∀ entry ∈ a.pending, entry.isOverflowGap = false) : a.resume.outbox = a.outbox := by
  have hdrain := (a.quiet_drain hq).1.outbox
  rw [resume_eq]
  split
  · rfl
  · split
    · next hf => exact (a.drain.emitGapIfDropped_outbox hf).trans hdrain
    · exact hdrain

theorem resume_dropped_le (hq : ∀ entry ∈ a.pending, entry.isOverflowGap = false)
    (ns : String) : a.resume.dropped ns ≤ a.dropped ns := by
  have hstep := a.resumeStep
  generalize a.resume = r at hstep
  cases hstep with
  | idle => exact le_rfl
  | drained => exact ((a.quiet_drain hq).1.dropped ns).le
  | announced _ _ hzero =>
    rw [hzero]
    exact Nat.zero_le _

private theorem drainPending_arms (queue : List Entry) (a : Aggregator) :
    (drainPending queue a).peerArms = a.peerArms
      ∧ (drainPending queue a).resuming = a.resuming := by
  induction queue generalizing a with
  | nil => exact ⟨rfl, rfl⟩
  | cons entry rest ih =>
    rw [drainPending]
    split
    · obtain ⟨hpeers, hresuming⟩ := ih ({ a with pending := rest }.drainEntry entry)
      rw [hpeers, hresuming]
      cases entry with
      | control frame => exact ⟨rfl, rfl⟩
      | data ns frame =>
        obtain ⟨c, m, hd⟩ := deliver_eq { a with pending := rest } ns frame
        rw [drainEntry, hd]
        exact ⟨rfl, rfl⟩
    · exact ⟨rfl, rfl⟩

theorem resume_arms : a.resume.peerArms = a.peerArms ∧ a.resume.resuming = a.resuming := by
  obtain ⟨front, back, flowing, -, -, hflush⟩ :=
    drainVerbatim_eq a.verbatimBuffer { a with flowing := true } rfl
  have hdrain : a.drain.peerArms = a.peerArms ∧ a.drain.resuming = a.resuming := by
    obtain ⟨hpeers, hresuming⟩ := drainPending_arms
      (drainVerbatim a.verbatimBuffer { a with flowing := true }).pending
      (drainVerbatim a.verbatimBuffer { a with flowing := true })
    rw [hflush] at hpeers hresuming
    rw [drain]
    rw [hflush]
    exact ⟨hpeers, hresuming⟩
  have hstep := a.resumeStep
  generalize a.resume = r at hstep
  cases hstep with
  | idle => exact ⟨rfl, rfl⟩
  | drained => exact hdrain
  | announced => exact hdrain

/-! ### Membership and arms -/

variable {a}

/-- A membership update keeps what is kept by the bookkeeping of arms and by the control frame about an
unavailable peer. -/
theorem setMembership_induction {P : Aggregator → Prop}
    (hbook : ∀ (a : Aggregator) (peerArms unavailable : InsertionSet String),
      P a → P { a with peerArms := peerArms, unavailable := unavailable })
    (hcontrol : ∀ (a : Aggregator) (machineId reason : String),
      P a → P (a.writeControl (.unavailable machineId reason)))
    (h : P a) (peers : List PeerMember) : P (a.setMembership peers) := by
  have hpeer : ∀ (a : Aggregator) (peer : PeerMember), P a → P (a.admitPeer peer) := by
    intro a peer h
    rw [admitPeer]
    split
    · exact hbook a _ _ h
    · dsimp only
      split
      · exact hbook a _ a.unavailable h
      · refine hcontrol _ _ _ ?_
        exact hbook a _ _ h
  have hfold : P (peers.foldl admitPeer a) :=
    List.foldlRecOn peers admitPeer h fun b hb peer _ ↦ hpeer b peer hb
  exact hbook _ _ _ hfold

variable (a)

theorem quiet_setMembership (peers : List PeerMember) :
    Quiet a (a.setMembership peers) ∧ Steady a (a.setMembership peers) := by
  refine setMembership_induction (P := fun b ↦ Quiet a b ∧ Steady a b) ?_ ?_ ⟨.refl a, .refl a⟩ peers
  · rintro b peerArms unavailable ⟨hq, hs⟩
    exact ⟨hq.trans (b.quiet_bookkeeping _ _ _ _ _ _), hs.trans fun h ↦ ⟨h, rfl, rfl⟩⟩
  · rintro b machineId reason ⟨hq, hs⟩
    exact ⟨hq.trans (quiet_writeControl b rfl), hs.trans (steady_writeControl b _)⟩

theorem quiet_reopenArm (ns : String) : Quiet a (a.reopenArm ns).1 ∧ Steady a (a.reopenArm ns).1 := by
  rw [reopenArm]
  split
  · exact ⟨Quiet.refl a, Steady.refl a⟩
  · split
    · exact ⟨a.quiet_bookkeeping _ _ _ _ _ _, fun h ↦ ⟨h, rfl, rfl⟩⟩
    · split
      · exact ⟨Quiet.refl a, Steady.refl a⟩
      · refine ⟨(quiet_writeControl _ rfl).trans (quiet_bookkeeping _ _ _ _ _ _ _), ?_⟩
        exact (steady_writeControl a _).trans fun h ↦ ⟨h, rfl, rfl⟩

theorem writeControl_arms (frame : Control) : (a.writeControl frame).peerArms = a.peerArms
      ∧ (a.writeControl frame).resuming = a.resuming := by
  rw [writeControl]
  split <;> exact ⟨rfl, rfl⟩

/-- A membership update leaves the marks of re-opened arms alone. -/
theorem setMembership_resuming (peers : List PeerMember) : (a.setMembership peers).resuming = a.resuming := by
  refine setMembership_induction (P := fun b ↦ b.resuming = a.resuming) ?_ ?_ rfl peers
  · exact fun b _ _ h ↦ h
  · exact fun b _ _ h ↦ (writeControl_arms b _).2.trans h

/-- A re-open leaves the membership and the marks of the other arms alone. -/
theorem reopenArm_arms (ns : String) : (a.reopenArm ns).1.peerArms = a.peerArms ∧ ∀ {arm : String}, ns ≠ arm →
        (a.reopenArm ns).1.resuming.contains arm = a.resuming.contains arm := by
  rw [reopenArm]
  split
  · exact ⟨rfl, fun _ ↦ rfl⟩
  · split
    · refine ⟨rfl, fun hne ↦ ?_⟩
      rw [InsertionSet.add, InsertionMap.contains_set, beq_eq_false_iff_ne.mpr hne.symm,
        Bool.or_false]
    · split
      · exact ⟨rfl, fun _ ↦ rfl⟩
      · rw [writeControl]
        split <;> exact ⟨rfl, fun _ ↦ rfl⟩

variable {ns : String}

theorem reopenArm_resuming (h : (a.reopenArm ns).2 = .resume) :
    (a.reopenArm ns).1.resuming.contains ns = true := by
  rw [reopenArm] at h ⊢
  split at h
  · exact ReopenVerdict.noConfusion h
  · next hopen =>
    rw [if_neg hopen]
    split at h
    · next hid =>
      rw [if_pos hid, InsertionSet.add, InsertionMap.contains_set, beq_self_eq_true, Bool.or_true]
    · split at h
      · exact ReopenVerdict.noConfusion h
      · exact ReopenVerdict.noConfusion h

/-! ### The effect of an ingest -/

variable {a}

/-- The frames `ingest` keeps for itself, and why: the engine's handshake on a resumed arm, its
reset, or the id-less answer of a local engine that cannot resume. -/
def ConsumedAs (ns : String) (frame : Frame) : IngestOutcome → Prop
  | .handshake => engineControlType frame.raw = some .connected ∧ (frameRawId frame.raw).isSome
  | .reset => engineControlType frame.raw = some .unservable
  | .severed => ns = LOCAL_NAMESPACE ∧ frameRawId frame.raw = none
  | _ => False

/-- What `ingest` does to the outbox. An accepted frame goes to its end, except that a local frame
held verbatim goes before whatever waits in the pending stream. -/
inductive IngestEffect (a : Aggregator) (ns : String) (frame : Frame) :
    Aggregator × IngestOutcome → Prop
  | consumed {b : Aggregator} {outcome : IngestOutcome} (data : isDataFrame frame.raw = true)
      (why : ConsumedAs ns frame outcome) (quiet : Quiet a b) (settled : b.Settled)
      (refused : a.isVerbatim ns = true → a.cannotResume ns frame.raw = true) :
      IngestEffect a ns frame (b, outcome)
  | accepted {b : Aggregator} {outcome : IngestOutcome}
      (outcome_eq : outcome = .forwarded ∨ outcome = .queued) (calm : Calm a b)
      (settled : b.Settled) (front back : List (String × Frame)) (old : a.outbox = front ++ back)
      (new : b.outbox = front ++ (ns, frame) :: back)
      (place : back = if a.isVerbatim ns = true ∧ a.flowing = false
        then a.pending.filterMap Entry.source else [])
      (resumes : a.isVerbatim ns = true → a.cannotResume ns frame.raw = false) :
      IngestEffect a ns frame (b, outcome)
  | dropped {b : Aggregator} (quiet : Quiet a b) (stalled : b.flowing = false)
      (composite : a.isVerbatim ns = false) :
      IngestEffect a ns frame
        ({ b with droppedCount := b.droppedCount.set ns (b.dropped ns + 1) }, .dropped)

theorem isVerbatim_imp (h : a.isVerbatim ns = true) : ns = LOCAL_NAMESPACE := by
  rw [isVerbatim, and_eq_true, beq_iff_eq] at h
  exact h.1

theorem ingestEffect (ha : a.Settled) (ns : String) (frame : Frame) :
    IngestEffect a ns frame (a.ingestOutcome ns frame) := by
  generalize hr : a.ingestOutcome ns frame = r
  have h := ingestStep a ns frame
  rw [hr] at h
  cases h with
  | severed refused verbatim =>
    have hr := refused
    rw [cannotResume, and_eq_true, and_eq_true, Option.isNone_iff_eq_none] at hr
    exact .consumed hr.1.1 ⟨isVerbatim_imp verbatim, hr.2⟩ (a.quiet_noted ns _)
      ((a.steady_noted ns _).settled (a.quiet_noted ns _).dropped ha) fun _ ↦ refused
  | handshake id hid shakes composite =>
    rw [shakesHands, and_eq_true, and_eq_true, and_eq_true, beq_iff_eq] at shakes
    have hquiet := (a.quiet_noted ns frame.raw).trans (quiet_advanceResume _ ns id)
    refine .consumed shakes.1.1.1 ⟨shakes.2, shakes.1.2⟩ hquiet ?_
      fun h ↦ absurd h (by simp [composite])
    exact ((a.steady_noted ns _).trans (steady_advanceResume _ ns id)).settled hquiet.dropped ha
  | @reset b prepared resets composite =>
    rw [isReset, and_eq_true, beq_iff_eq] at resets
    have hquiet : Quiet b ((b.advance ns (frameRawId frame.raw)).writeControl (.gap [ns] .reset)) :=
      (b.quiet_advance ns _).trans (quiet_writeControl _ rfl)
    refine .consumed resets.1 resets.2 (prepared.quiet.trans hquiet) ?_
      fun h ↦ absurd h (by simp [composite])
    have hb := prepared.steady.settled prepared.quiet.dropped ha
    exact ((b.steady_advance ns _).trans (steady_writeControl _ _)).settled hquiet.dropped hb
  | verbatim resumes verbatim =>
    obtain rfl := isVerbatim_imp verbatim
    have hnoted := a.quiet_noted LOCAL_NAMESPACE frame.raw
    have hset := (a.steady_noted LOCAL_NAMESPACE frame.raw).settled hnoted.dropped ha
    obtain ⟨delivered, resuming, heq⟩ := a.noted_eq LOCAL_NAMESPACE frame.raw
    have hpending : (a.noted LOCAL_NAMESPACE frame.raw).pending = a.pending := by rw [heq]
    have hflow : (a.noted LOCAL_NAMESPACE frame.raw).flowing = a.flowing := by rw [heq]
    rcases (a.noted LOCAL_NAMESPACE frame.raw).relayVerbatim_cases frame with
      ⟨hf, c, hc, hcalm, hsteady, hsent, hwaiting⟩ |
      ⟨hf, c, hc, hcalm, hstall, hsent, hp, hv⟩
    · rw [hc]
      refine .accepted (.inl rfl) (hnoted.toCalm.trans hcalm)
        (hsteady.settled hcalm.dropped hset) a.outbox [] (by simp) ?_
        (if_neg fun h ↦ absurd h.2 (by simp [← hflow, hf])).symm fun _ ↦ resumes
      rw [← hnoted.outbox, outbox, outbox, hsent, hwaiting, hset.waiting hf]
      simp
    · rw [hc]
      refine .accepted (.inr rfl) (hnoted.toCalm.trans hcalm)
        (fun h ↦ absurd h (by simp [hstall]))
        ((a.noted LOCAL_NAMESPACE frame.raw).sent
          ++ (a.noted LOCAL_NAMESPACE frame.raw).verbatimBuffer.map
            fun frame ↦ (LOCAL_NAMESPACE, frame))
        (a.pending.filterMap Entry.source) ?_ ?_
        (if_pos ⟨verbatim, hflow ▸ hf⟩).symm fun _ ↦ resumes
      · rw [← hnoted.outbox, outbox, waiting, hpending, append_assoc]
      · rw [outbox, waiting, hsent, hp, hv, hpending]
        simp
  | @delivered b prepared _ _ flowing composite =>
    obtain ⟨hcalm, hsteady, hsent, hwaiting⟩ := b.calm_deliver ns frame
    have hb := prepared.steady.settled prepared.quiet.dropped ha
    refine .accepted (.inl rfl) (prepared.quiet.toCalm.trans hcalm)
      (hsteady.settled hcalm.dropped hb) a.outbox [] (by simp) ?_
      (if_neg fun h ↦ absurd h.1 (by simp [composite])).symm fun h ↦ absurd h (by simp [composite])
    rw [← prepared.quiet.outbox, outbox, outbox, hsent, hwaiting, hb.waiting flowing]
    simp
  | @enqueued b prepared _ _ stalled composite =>
    rcases b.enqueue_cases ns frame with ⟨c, hc, hcalm, hflow, hsent, hwaiting⟩ | ⟨-, hdrop⟩
    · rw [hc]
      refine .accepted (.inr rfl) (prepared.quiet.toCalm.trans hcalm) ?_ a.outbox [] (by simp) ?_
        (if_neg fun h ↦ absurd h.1 (by simp [composite])).symm fun h ↦ absurd h (by simp [composite])
      · exact fun h ↦ absurd h (by simp [hflow, stalled])
      · rw [← prepared.quiet.outbox, outbox, outbox, hsent, hwaiting, append_assoc]
    · rw [hdrop]
      exact .dropped prepared.quiet stalled composite

/-- An ingest leaves the membership alone, and unmarks its arm if the frame carries data. -/
theorem ingestStep_arms {frame : Frame} {r : Aggregator × IngestOutcome}
    (h : IngestStep a ns frame r) :
    r.1.peerArms = a.peerArms ∧ r.1.resuming = (a.noted ns frame.raw).resuming := by
  have hnoted : (a.noted ns frame.raw).peerArms = a.peerArms := by
    obtain ⟨delivered, resuming, heq⟩ := a.noted_eq ns frame.raw
    rw [heq]
  have hprepared : ∀ {b : Aggregator}, Prepared a ns frame.raw b →
      b.peerArms = a.peerArms ∧ b.resuming = (a.noted ns frame.raw).resuming := by
    intro b hb
    cases hb with
    | noted resumes => exact ⟨hnoted, rfl⟩
    | announced refused =>
      obtain ⟨hpeers, hresuming⟩ := writeControl_arms (a.noted ns frame.raw) (.gap [ns] .reopen)
      exact ⟨hpeers.trans hnoted, hresuming⟩
  cases h with
  | severed refused verbatim => exact ⟨hnoted, rfl⟩
  | handshake id hid shakes composite =>
    obtain ⟨m, heq⟩ := (a.noted ns frame.raw).advanceResume_eq ns id
    rw [heq]
    exact ⟨hnoted, rfl⟩
  | @reset b prepared resets composite =>
    obtain ⟨m, heq⟩ := b.advance_eq ns (frameRawId frame.raw)
    obtain ⟨hpeers, hresuming⟩ :=
      writeControl_arms (b.advance ns (frameRawId frame.raw)) (.gap [ns] .reset)
    have hb := hprepared prepared
    rw [hpeers, hresuming, heq]
    exact hb
  | verbatim resumes verbatim =>
    obtain ⟨c, m, heq⟩ := (a.noted ns frame.raw).relayVerbatim_eq frame
    rw [heq]
    split
    · exact ⟨hnoted, rfl⟩
    · exact ⟨hnoted, rfl⟩
  | @delivered b prepared _ _ _ _ =>
    obtain ⟨c, m, heq⟩ := b.deliver_eq ns frame
    have hb := hprepared prepared
    rw [heq]
    exact hb
  | @enqueued b prepared _ _ _ _ =>
    have henqueue : (b.enqueue ns frame).1.peerArms = b.peerArms
        ∧ (b.enqueue ns frame).1.resuming = b.resuming := by
      rw [enqueue]
      split
      · exact ⟨rfl, rfl⟩
      · obtain ⟨m, heq⟩ := advance_eq { b with pending := b.pending ++ [Entry.data ns frame] } ns
          (frameRawId frame.raw)
        rw [heq]
        exact ⟨rfl, rfl⟩
    rw [henqueue.1, henqueue.2]
    exact hprepared prepared

/-- In composite mode the engine's answers to a re-open are consumed. -/
theorem ingestStep_answers {frame : Frame} {r : Aggregator × IngestOutcome}
    (h : IngestStep a ns frame r) (hv : a.isVerbatim ns = false)
    (hanswer : a.shakesHands ns frame.raw = true ∨ isReset frame.raw = true) :
    r.2 = .handshake ∨ r.2 = .reset := by
  cases h with
  | severed _ verbatim => exact absurd (verbatim.symm.trans hv) (by decide)
  | verbatim _ verbatim => exact absurd (verbatim.symm.trans hv) (by decide)
  | handshake => exact .inl rfl
  | reset => exact .inr rfl
  | delivered _ noHandshake noReset _ _ =>
    rw [noHandshake, noReset] at hanswer
    simp at hanswer
  | enqueued _ noHandshake noReset _ _ =>
    rw [noHandshake, noReset] at hanswer
    simp at hanswer

theorem ingest_dropped (ha : a.Settled) (ns : String) (frame : Frame) {arm : String}
    (h : ns = arm → (a.ingestOutcome ns frame).2 ≠ .dropped) :
    (a.ingestOutcome ns frame).1.dropped arm = a.dropped arm := by
  generalize hr : a.ingestOutcome ns frame = r at h
  have heffect := ingestEffect ha ns frame
  rw [hr] at heffect
  cases heffect with
  | consumed _ _ quiet _ _ => exact quiet.dropped arm
  | accepted _ calm _ _ _ _ _ _ _ => exact calm.dropped arm
  | @dropped b quiet _ _ =>
    have hne : ns ≠ arm := fun heq ↦ h heq rfl
    have hsame : ({ b with droppedCount := b.droppedCount.set ns (b.dropped ns + 1) } :
        Aggregator).dropped arm = b.dropped arm := by
      rw [dropped, InsertionMap.get?_set_of_ne _ _ hne, dropped]
    exact hsame.trans (quiet.dropped arm)

end Aggregator

end Amicode
