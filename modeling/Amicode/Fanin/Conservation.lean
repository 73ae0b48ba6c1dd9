import Amicode.Fanin.Moves
import Mathlib.Data.List.Count
import Mathlib.Data.List.Perm.Basic
import Mathlib.Data.List.Range

/-!
# Conservation of frames

No frame is lost or duplicated by the relay: every ingested frame is written once, or waits once,
or is counted once as dropped, or was consumed by `ingest` itself.

The invariant is `Accounted`: the outbox is a rearrangement of the accepted frames, and the drop
counters count the dropped frames no announcement has covered yet. `conserved_run` reads the three
laws off it.
-/

open List

namespace Amicode

/-! ## Arrivals -/

namespace Arrival

/-- The frame together with its namespace. -/
def source (x : Arrival) : String × Frame := (x.ns, x.frame)

/-- Did the relay take the frame for delivery? -/
def accepted (x : Arrival) : Bool := x.outcome = .forwarded || x.outcome = .queued

/-- Did the relay drop the frame? -/
def dropped (x : Arrival) : Bool := x.outcome = .dropped

/-- Did `ingest` keep the frame for itself? -/
def consumed (x : Arrival) : Bool :=
  x.outcome = .handshake || x.outcome = .reset || x.outcome = .severed

/-- Has an overflow gap naming the frame's namespace been written since the frame was ingested? -/
def covered (written : List Chunk) (x : Arrival) : Bool :=
  (written.drop x.mark).any (Chunk.isOverflowGapOf x.ns)

/-- Is this a dropped frame of the namespace that no overflow gap has announced? -/
def owed (written : List Chunk) (ns : String) (x : Arrival) : Bool :=
  x.ns = ns && x.dropped && !x.covered written

end Arrival

theorem Chunk.isOverflowGap_of_isOverflowGapOf {ns : String} {chunk : Chunk}
    (h : chunk.isOverflowGapOf ns = true) : chunk.isOverflowGap = true := by
  match chunk with
  | .verbatim _ | .relayed _ _ _ | .control (.unavailable _ _) | .control (.focus _) => simp [
      Chunk.isOverflowGapOf] at h
  | .control (.gap _ .reopen) | .control (.gap _ .reset) => simp [Chunk.isOverflowGapOf] at h
  | .control (.gap _ .overflow) => rfl

theorem Arrival.covered_append {written extra : List Chunk} {x : Arrival}
    (hx : x.mark ≤ written.length) (h : ∀ chunk ∈ extra, chunk.isOverflowGap = false) :
    x.covered (written ++ extra) = x.covered written := by
  have hnone : extra.any (Chunk.isOverflowGapOf x.ns) = false := by
    rw [List.any_eq_false]
    intro chunk hmem hof
    have := h chunk hmem
    rw [Chunk.isOverflowGap_of_isOverflowGapOf hof] at this
    exact Bool.noConfusion this
  rw [covered, covered, drop_append_of_le_length hx, any_append, hnone, Bool.or_false]

namespace Session

/-! ## The laws -/

/-- The accounting a connection keeps. -/
structure Conserved (s : Session) : Prop where
  /-- A flowing relay holds nothing back and owes no announcement. -/
  settled : s.agg.Settled
  /-- Each ingested frame is written once, or waits once, or was dropped, or was consumed. -/
  onePlace : ∀ x ∈ s.arrivals,
    s.agg.sent.count x.source + s.agg.waiting.count x.source + x.dropped.toNat + x.consumed.toNat
      = 1
  /-- A namespace's counter is the number of its dropped frames that no written overflow gap has
  announced. -/
  dropped : ∀ ns, s.agg.dropped ns = s.arrivals.countP (Arrival.owed s.agg.sink.written ns)
  /-- What `ingest` consumes is a data frame of the kind its outcome says. -/
  consumed : ∀ x ∈ s.arrivals, x.consumed = true →
    isDataFrame x.frame.raw = true ∧ Aggregator.ConsumedAs x.ns x.frame x.outcome
  /-- The pending stream respects the bound of every namespace. -/
  bound : ∀ ns, s.agg.depth ns ≤ s.agg.bufferBound

/-! ## The invariant -/

/-- The accounting a connection keeps even in the middle of a drain, when it flows and may still
owe an announcement. Between operations it is settled as well. -/
structure Accounted (s : Session) : Prop where
  outbox : s.agg.outbox.Perm ((s.arrivals.filter Arrival.accepted).map Arrival.source)
  stamps : s.arrivals.map (fun x ↦ x.frame.stamp) = List.range s.arrivals.length
  marks : ∀ x ∈ s.arrivals, x.mark ≤ s.agg.sink.written.length
  dropped : ∀ ns, s.agg.dropped ns = s.arrivals.countP (Arrival.owed s.agg.sink.written ns)
  /-- Overflow announcements are written, never queued. -/
  queued : ∀ entry ∈ s.agg.pending, entry.isOverflowGap = false
  consumed : ∀ x ∈ s.arrivals, x.consumed = true →
    isDataFrame x.frame.raw = true ∧ Aggregator.ConsumedAs x.ns x.frame x.outcome
  bound : ∀ ns, s.agg.depth ns ≤ s.agg.bufferBound

variable {s : Session}

namespace Accounted

theorem of_quiet (h : s.Accounted) {b : Aggregator} (hq : Aggregator.Quiet s.agg b) :
    (⟨b, s.arrivals⟩ : Session).Accounted where
  outbox := by rw [hq.outbox]; exact h.outbox
  stamps := h.stamps
  marks x hx := (h.marks x hx).trans hq.length_le
  dropped ns := by
    obtain ⟨extra, hextra, hnone⟩ := hq.written
    rw [hq.dropped, h.dropped, hextra]
    refine countP_congr fun x hx ↦ ?_
    rw [Arrival.owed, Arrival.owed, Arrival.covered_append (h.marks x hx) hnone]
  queued entry he := by
    rcases hq.queued entry he with hmem | hnone
    · exact h.queued entry hmem
    · exact hnone
  consumed := h.consumed
  bound ns := hq.depth ns (h.bound ns)

theorem nodup (h : s.Accounted) : (s.arrivals.map Arrival.source).Nodup := by
  refine Nodup.of_map (fun p ↦ p.2.stamp) ?_
  rw [List.map_map]
  have heq : (fun p : String × Frame ↦ p.2.stamp) ∘ Arrival.source = fun x ↦ x.frame.stamp := rfl
  rw [heq, h.stamps]
  exact nodup_range

/-- Record one more arrival: what has to be shown of the new relay and the new arrival. -/
private theorem record (h : s.Accounted) {b : Aggregator} {x : Arrival}
    (hcalm : Aggregator.Calm s.agg b) (hstamp : x.frame.stamp = s.arrivals.length)
    (hmark : x.mark = b.sink.written.length)
    (hout : b.outbox.Perm (s.agg.outbox ++ if x.accepted then [x.source] else []))
    (hdrop : x.dropped = false)
    (hconsumed : x.consumed = true →
      isDataFrame x.frame.raw = true ∧ Aggregator.ConsumedAs x.ns x.frame x.outcome) :
    (⟨b, s.arrivals ++ [x]⟩ : Session).Accounted where
  outbox := by
    refine hout.trans ?_
    rw [filter_append, map_append]
    refine h.outbox.append ?_
    cases hx : x.accepted <;> simp [hx]
  stamps := by
    rw [map_append, h.stamps, map_singleton, hstamp, length_append,
      length_singleton, range_succ]
  marks y hy := by
    rcases mem_append.mp hy with hmem | hmem
    · exact (h.marks y hmem).trans hcalm.length_le
    · rw [mem_singleton.mp hmem, hmark]
  dropped ns := by
    obtain ⟨extra, hextra, hnone⟩ := hcalm.written
    have hold : s.arrivals.countP (Arrival.owed b.sink.written ns)
        = s.arrivals.countP (Arrival.owed s.agg.sink.written ns) := by
      refine countP_congr fun y hy ↦ ?_
      rw [hextra, Arrival.owed, Arrival.owed, Arrival.covered_append (h.marks y hy) hnone]
    rw [List.countP_append, hold, hcalm.dropped, h.dropped, countP_singleton, Arrival.owed,
      hdrop, Bool.and_false, Bool.false_and, if_neg Bool.false_ne_true, Nat.add_zero]
  queued entry he := by
    rcases hcalm.queued entry he with hmem | hnone
    · exact h.queued entry hmem
    · exact hnone
  consumed y hy := by
    rcases mem_append.mp hy with hmem | hmem
    · exact h.consumed y hmem
    · rw [mem_singleton.mp hmem]
      exact hconsumed
  bound ns := hcalm.depth ns (h.bound ns)

end Accounted

/-! ## Every operation keeps it -/

/-- What holds between operations. -/
def Sound (s : Session) : Prop := s.Accounted ∧ s.agg.Settled

theorem sound_start (opts : SseFanInOptions) (cursor : Option String) :
    (start opts cursor).Sound := by
  have hbase : (⟨{ Aggregator.new opts with
      composite := parseCompositeCursor cursor, resumeAt := parseCompositeCursor cursor }, []⟩ :
      Session).Accounted :=
    { outbox := Perm.nil
      stamps := rfl
      marks := fun x hx ↦ absurd hx not_mem_nil
      dropped := fun _ ↦ rfl
      queued := fun entry he ↦ absurd he not_mem_nil
      consumed := fun x hx ↦ absurd hx not_mem_nil
      bound := fun _ ↦ Nat.zero_le _ }
  have hsettled : (Aggregator.new opts).Settled := fun _ ↦ ⟨rfl, rfl, fun _ ↦ rfl⟩
  rw [start]
  cases opts.focusSnapshot with
  | none => exact ⟨hbase, hsettled⟩
  | some snapshot =>
    have hq : Aggregator.Quiet _ (Aggregator.connect (.new opts) cursor (some snapshot)) :=
      Aggregator.quiet_writeControl _ rfl
    exact ⟨hbase.of_quiet hq, (Aggregator.steady_writeControl _ _).settled hq.dropped hsettled⟩

theorem Sound.of_quiet (h : s.Sound) {b : Aggregator} (hq : Aggregator.Quiet s.agg b)
    (hb : Aggregator.Steady s.agg b) : (⟨b, s.arrivals⟩ : Session).Sound :=
  ⟨h.1.of_quiet hq, hb.settled hq.dropped h.2⟩

private theorem sound_ingest (h : s.Sound) (ns raw : String) :
    (s.step (.ingest ns raw)).Sound := by
  obtain ⟨h, hset⟩ := h
  rw [step]
  generalize hr : s.agg.ingestOutcome ns (s.nextFrame raw) = r
  have heffect := Aggregator.ingestEffect hset ns (s.nextFrame raw)
  rw [hr] at heffect
  cases heffect with
  | @consumed b outcome data why quiet settled severs =>
    have hkind : (⟨ns, s.nextFrame raw, outcome, b.sink.written.length⟩ : Arrival).accepted = false
        ∧ (⟨ns, s.nextFrame raw, outcome, b.sink.written.length⟩ : Arrival).dropped = false := by
      cases outcome <;> first | exact ⟨rfl, rfl⟩ | exact absurd why id
    refine ⟨h.record quiet.toCalm rfl rfl ?_ hkind.2 fun _ ↦ ⟨data, why⟩, settled⟩
    rw [hkind.1, quiet.outbox]
    simp
  | @accepted b outcome houtcome calm settled front back old new =>
    have hkind : (⟨ns, s.nextFrame raw, outcome, b.sink.written.length⟩ : Arrival).accepted = true
        ∧ (⟨ns, s.nextFrame raw, outcome, b.sink.written.length⟩ : Arrival).dropped = false
        ∧ (⟨ns, s.nextFrame raw, outcome, b.sink.written.length⟩ : Arrival).consumed = false := by
      rcases houtcome with rfl | rfl <;> exact ⟨rfl, rfl, rfl⟩
    refine ⟨h.record calm rfl rfl ?_ hkind.2.1 fun hc ↦ ?_, settled⟩
    · rw [hkind.1, if_pos rfl, new, old, Arrival.source]
      exact perm_middle.trans (perm_append_singleton _ _).symm
    · rw [hkind.2.2] at hc
      exact absurd hc Bool.false_ne_true
  | @dropped b quiet stalled composite =>
    have hb : (⟨b, s.arrivals⟩ : Session).Accounted := h.of_quiet quiet
    refine ⟨?_, fun hf ↦ absurd hf (by simp [stalled])⟩
    -- the drop is one more frame of its namespace that is still to be announced
    exact
      { outbox := by
          rw [filter_append, map_append]
          exact hb.outbox.trans (Perm.of_eq (by simp [Arrival.accepted]))
        stamps := by
          rw [map_append, h.stamps, map_singleton, length_append,
            length_singleton, range_succ]
          rfl
        marks := fun x hx ↦ by
          rcases mem_append.mp hx with hmem | hmem
          · exact hb.marks x hmem
          · rw [mem_singleton.mp hmem]
        dropped := fun n ↦ by
          have hold := hb.dropped n
          rw [List.countP_append, ← hold, countP_singleton, Arrival.owed, Arrival.covered,
            drop_length, Aggregator.dropped, InsertionMap.get?_set]
          by_cases hn : ns = n
          · subst hn
            simp [Arrival.dropped, Aggregator.dropped]
          · simp [hn, Aggregator.dropped]
        queued := hb.queued
        consumed := fun x hx ↦ by
          rcases mem_append.mp hx with hmem | hmem
          · exact hb.consumed x hmem
          · rw [mem_singleton.mp hmem]
            exact fun hc ↦ absurd hc (by simp [Arrival.consumed])
        bound := hb.bound }

/-- Announcing the drops covers each of them once, and zeroes the counters. -/
private theorem sound_emitGap (h : s.Accounted) (hf : s.agg.flowing = true)
    (hp : s.agg.pending = []) (hv : s.agg.verbatimBuffer = []) :
    (⟨s.agg.emitGapIfDropped, s.arrivals⟩ : Session).Sound := by
  rcases s.agg.emitGapIfDropped_cases hf with ⟨hnone, hsame⟩ | ⟨names, counts, -, hnames, heq, hzero⟩
  · rw [hsame]
    exact ⟨h, fun _ ↦ ⟨hp, hv, hnone⟩⟩
  · have houtbox := s.agg.emitGapIfDropped_outbox hf
    rw [heq] at hzero houtbox ⊢
    refine ⟨?_, fun _ ↦ ⟨hp, hv, hzero⟩⟩
    exact
      { outbox := (Perm.of_eq houtbox).trans h.outbox
        stamps := h.stamps
        marks := fun x hx ↦ (h.marks x hx).trans (by simp)
        dropped := fun ns ↦ by
          rw [hzero, eq_comm, countP_eq_zero]
          intro x hx howed
          have hcover : (x.covered s.agg.sink.written || decide (x.ns ∈ names)) = false := by
            simpa [Arrival.owed, Arrival.covered, drop_append_of_le_length (h.marks x hx),
              Chunk.isOverflowGapOf] using (Bool.and_eq_true_iff.mp howed).2
          rw [Bool.or_eq_false_iff, decide_eq_false_iff_not, hnames] at hcover
          -- an uncovered drop is counted, so the announcement names its namespace
          refine hcover.2 ?_
          rw [h.dropped, countP_pos_iff]
          refine ⟨x, hx, ?_⟩
          rw [Arrival.owed, hcover.1]
          simp only [Arrival.owed, Bool.and_eq_true] at howed
          simp [howed.1.2]
        queued := h.queued
        consumed := h.consumed
        bound := h.bound }

private theorem sound_resume (h : s.Sound) : (s.step .resume).Sound := by
  rw [step, Aggregator.resume_eq]
  split
  · exact h
  · obtain ⟨hq, hempty⟩ := s.agg.quiet_drain h.1.queued
    cases hf : s.agg.drain.flowing with
    | false => exact ⟨h.1.of_quiet hq, fun hf' ↦ absurd hf' (by simp [hf])⟩
    | true =>
      obtain ⟨hp, hv⟩ := hempty hf
      exact sound_emitGap (s := ⟨s.agg.drain, s.arrivals⟩) (h.1.of_quiet hq) hf hp hv

theorem sound_step (h : s.Sound) (op : FaninOp) : (s.step op).Sound := by
  cases op with
  | ingest ns raw => exact sound_ingest h ns raw
  | setMembership peers =>
    obtain ⟨hq, hs⟩ := s.agg.quiet_setMembership peers
    exact h.of_quiet hq hs
  | reopenArm ns =>
    obtain ⟨hq, hs⟩ := s.agg.quiet_reopenArm ns
    exact h.of_quiet hq hs
  | resume => exact sound_resume h

theorem sound_run (opts : SseFanInOptions) (cursor : Option String) (ops : List FaninOp) :
    ((start opts cursor).run ops).Sound :=
  have hstep : ∀ (s : Session) (op : FaninOp), s.Sound → (s.step op).Sound :=
    fun _ op h ↦ sound_step h op
  StepMachine.invariant_run hstep (sound_start opts cursor) ops

/-! ## Conservation -/

private theorem count_map_filter {arrivals : List Arrival} (p : Arrival → Bool)
    (h : (arrivals.map Arrival.source).Nodup) {x : Arrival} (hx : x ∈ arrivals) :
    ((arrivals.filter p).map Arrival.source).count x.source = (p x).toNat := by
  have hnodup : ((arrivals.filter p).map Arrival.source).Nodup :=
    h.sublist (filter_sublist.map _)
  by_cases hp : p x = true
  · rw [hp, Bool.toNat_true]
    exact count_eq_one_of_mem hnodup
      (List.mem_map.mpr ⟨x, mem_filter.mpr ⟨hx, hp⟩, rfl⟩)
  · rw [Bool.not_eq_true] at hp
    rw [hp, Bool.toNat_false, count_eq_zero]
    intro hmem
    obtain ⟨y, hy, hsame⟩ := List.mem_map.mp hmem
    obtain ⟨hy, hpy⟩ := mem_filter.mp hy
    obtain rfl : y = x := inj_on_of_nodup_map h hy hx hsame
    exact absurd hpy (by simp [hp])

theorem Sound.conserved (h : s.Sound) : s.Conserved where
  settled := h.2
  onePlace x hx := by
    have hcount := count_map_filter Arrival.accepted h.1.nodup hx
    rw [← h.1.outbox.count_eq, Aggregator.outbox, count_append] at hcount
    rw [hcount, Arrival.accepted, Arrival.dropped, Arrival.consumed]
    cases x.outcome <;> rfl
  dropped := h.1.dropped
  consumed := h.1.consumed
  bound := h.1.bound

/-- **Conservation.** In every run of a connection, whatever the downstream answers, a flowing
relay is settled, each ingested frame is in one place, drops are counted until they are announced,
and the pending stream respects its bound. -/
theorem conserved_run (opts : SseFanInOptions) (cursor : Option String) (ops : List FaninOp) :
    ((start opts cursor).run ops).Conserved :=
  (sound_run opts cursor ops).conserved

end Session

end Amicode

/-!
# Order of delivery

The frames of one arm should reach the downstream in the order they were ingested. The relay has
two buffers, chosen by the membership at the moment of the ingest, and drains the verbatim buffer
first; so a local frame held verbatim overtakes a local frame that still waits in the pending
stream. `ordered_iff_guarded` says that this is the only way to break the order, and that it
always does.

The order is followed on the outbox rather than on what was written: an accepted frame is put into
the outbox once and never moves within it, so an ingest that breaks the order breaks it for good,
and one lemma about a single step (`ordered_step`) gives both directions for every run.
-/

namespace Amicode

/-- Of two data frames of one namespace the first was ingested first. -/
def InTurn (p q : String × Frame) : Prop :=
  p.1 = q.1 → isDataFrame p.2.raw = true → isDataFrame q.2.raw = true → p.2.stamp < q.2.stamp

instance : DecidableRel InTurn := fun p q ↦
  inferInstanceAs (Decidable (p.1 = q.1 → isDataFrame p.2.raw = true →
    isDataFrame q.2.raw = true → p.2.stamp < q.2.stamp))

namespace Aggregator

/-- Does a local data frame wait in the pending stream? -/
def holdsLocal (a : Aggregator) : Bool :=
  (a.pending.filterMap Entry.source).any fun p ↦ p.1 == LOCAL_NAMESPACE && isDataFrame p.2.raw

/-- Would the frame overtake: a local data frame that fleet-of-one holds verbatim, while a local
data frame from an earlier composite stretch still waits in the pending stream? -/
def overtakes (a : Aggregator) (ns raw : String) : Bool :=
  a.isVerbatim ns && !a.flowing && !a.cannotResume ns raw && isDataFrame raw && a.holdsLocal

end Aggregator

namespace Session

/-- The data frames of each namespace were written in the order they were ingested. -/
def FifoPerArm (s : Session) : Prop := s.agg.sent.Pairwise InTurn

/-- They were written, or wait to be written, in the order they were ingested. -/
def Ordered (s : Session) : Prop := s.agg.outbox.Pairwise InTurn

/-- The side condition of an operation: it ingests no overtaking frame. -/
def NoOvertaking (s : Session) : FaninOp → Prop
  | .ingest ns raw => s.agg.overtakes ns raw = false
  | _ => True

instance : ∀ s op, Decidable (NoOvertaking s op)
  | s, .ingest ns raw => inferInstanceAs (Decidable (s.agg.overtakes ns raw = false))
  | _, .setMembership _ | _, .reopenArm _ | _, .resume => .isTrue trivial

/-! ## One step -/

private theorem pairwise_insert {α : Type*} {R : α → α → Prop} {front back : List α} {x : α} :
    (front ++ x :: back).Pairwise R
      ↔ (front ++ back).Pairwise R ∧ (∀ p ∈ front, R p x) ∧ ∀ q ∈ back, R x q := by
  simp only [pairwise_append, pairwise_cons, mem_cons, forall_eq_or_imp]
  constructor
  · rintro ⟨hfront, ⟨hxq, hback⟩, hcross⟩
    exact ⟨⟨hfront, hback, fun p hp ↦ (hcross p hp).2⟩, fun p hp ↦ (hcross p hp).1, hxq⟩
  · rintro ⟨⟨hfront, hback, hcross⟩, hpx, hxq⟩
    exact ⟨hfront, ⟨hxq, hback⟩, fun p hp ↦ ⟨hpx p hp, hcross p hp⟩⟩

variable {s : Session}

/-- Everything in the outbox was ingested before the frame that comes next. -/
private theorem stamp_lt (h : s.Accounted) {p : String × Frame} (hp : p ∈ s.agg.outbox) :
    p.2.stamp < s.arrivals.length := by
  have hmem := h.outbox.mem_iff.mp hp
  obtain ⟨x, hx, rfl⟩ := List.mem_map.mp hmem
  have hstamp : x.frame.stamp ∈ s.arrivals.map fun x ↦ x.frame.stamp :=
    List.mem_map.mpr ⟨x, (mem_filter.mp hx).1, rfl⟩
  rw [h.stamps, mem_range] at hstamp
  exact hstamp

/-- Putting the next frame before `back` keeps the order if and only if `back` holds no data frame
of its namespace, or it is no data frame itself. -/
private theorem ordered_insert (h : s.Accounted) {ns raw : String}
    {front back : List (String × Frame)} (hout : s.agg.outbox = front ++ back) :
    (front ++ (ns, s.nextFrame raw) :: back).Pairwise InTurn
      ↔ s.Ordered ∧ (isDataFrame raw && back.any fun p ↦ p.1 == ns && isDataFrame p.2.raw) = false := by
  have hlt : ∀ p ∈ front ++ back, p.2.stamp < (s.nextFrame raw).stamp :=
    fun p hp ↦ stamp_lt h (hout ▸ hp)
  have hfront : ∀ p ∈ front, InTurn p (ns, s.nextFrame raw) :=
    fun p hp _ _ _ ↦ hlt p (mem_append_left _ hp)
  rw [pairwise_insert, Ordered, hout]
  refine and_congr_right fun _ ↦ ?_
  constructor
  · rintro ⟨-, hback⟩
    by_contra hany
    simp only [Bool.not_eq_false, Bool.and_eq_true, List.any_eq_true, beq_iff_eq] at hany
    obtain ⟨hdata, p, hp, hns, hpdata⟩ := hany
    exact absurd (hback p hp hns.symm hdata hpdata)
      (not_lt.mpr (hlt p (mem_append_right _ hp)).le)
  · intro hnone
    refine ⟨hfront, fun p hp hns hdata hpdata ↦ ?_⟩
    have hany : (back.any fun p ↦ p.1 == ns && isDataFrame p.2.raw) = true :=
      List.any_eq_true.mpr ⟨p, hp, by simpa using ⟨hns.symm, hpdata⟩⟩
    rw [hany, Bool.and_true] at hnone
    exact absurd (hdata.symm.trans hnone) (by decide)

private theorem ordered_ingest (h : s.Sound) (ns raw : String) :
    (s.step (.ingest ns raw)).Ordered ↔ s.Ordered ∧ s.agg.overtakes ns raw = false := by
  rw [step]
  generalize hr : s.agg.ingestOutcome ns (s.nextFrame raw) = r
  have heffect := Aggregator.ingestEffect h.2 ns (s.nextFrame raw)
  rw [hr] at heffect
  cases heffect with
  | consumed data why quiet settled refused =>
    have hno : s.agg.overtakes ns raw = false := by
      cases hv : s.agg.isVerbatim ns with
      | false => simp [Aggregator.overtakes, hv]
      | true =>
        have hs : s.agg.cannotResume ns raw = true := refused hv
        simp [Aggregator.overtakes, hs]
    rw [Ordered, quiet.outbox, ← Ordered]
    exact (and_iff_left hno).symm
  | dropped quiet stalled composite =>
    have hno : s.agg.overtakes ns raw = false := by simp [Aggregator.overtakes, composite]
    rw [and_iff_left hno, Ordered, Ordered, ← quiet.outbox]
    rfl
  | @accepted b outcome houtcome calm settled front back old new place resumes =>
    rw [Ordered, new, ordered_insert h.1 old]
    -- the new frame overtakes exactly when it is put before a data frame of its own namespace
    have hback : (isDataFrame raw && back.any fun p ↦ p.1 == ns && isDataFrame p.2.raw)
        = s.agg.overtakes ns raw := by
      rw [Aggregator.overtakes, place]
      cases hv : s.agg.isVerbatim ns with
      | false => simp
      | true =>
        have hs : s.agg.cannotResume ns raw = false := resumes hv
        obtain rfl := Aggregator.isVerbatim_imp hv
        cases hf : s.agg.flowing with
        | true => simp
        | false => simp [hs, Aggregator.holdsLocal]
    rw [hback]

/-- An operation keeps the order if and only if it ingests no overtaking frame. -/
theorem ordered_step (h : s.Sound) (op : FaninOp) :
    (s.step op).Ordered ↔ s.Ordered ∧ NoOvertaking s op := by
  have hkeep : ∀ {b : Aggregator}, b.outbox = s.agg.outbox →
      ((⟨b, s.arrivals⟩ : Session).Ordered ↔ s.Ordered ∧ True) := by
    intro b hb
    rw [Ordered, hb, and_true, Ordered]
  cases op with
  | ingest ns raw => exact ordered_ingest h ns raw
  | setMembership peers => exact hkeep (s.agg.quiet_setMembership peers).1.outbox
  | reopenArm ns => exact hkeep (s.agg.quiet_reopenArm ns).1.outbox
  | resume => exact hkeep (s.agg.resume_outbox h.1.queued)

/-! ## Whole runs -/

/-- In every run, the frames written and waiting are in order if and only if no step ingested an
overtaking frame. -/
theorem ordered_iff_guarded (opts : SseFanInOptions) (cursor : Option String)
    (ops : List FaninOp) :
    ((start opts cursor).run ops).Ordered
      ↔ StepMachine.Guarded step NoOvertaking (start opts cursor) ops := by
  have key : ∀ s : Session, s.Sound → (∀ ops : List FaninOp,
      (s.run ops).Ordered ↔ s.Ordered ∧ StepMachine.Guarded step NoOvertaking s ops) := by
    intro s hs ops
    induction ops generalizing s with
    | nil => simp [run]
    | cons op ops ih =>
      have hcons : s.run (op :: ops) = (s.step op).run ops := rfl
      rw [hcons, ih (s.step op) (sound_step hs op), ordered_step hs, StepMachine.guarded_cons,
        and_assoc]
  have hstart : (start opts cursor).Ordered := by
    have hnone : (start opts cursor).agg.outbox = [] :=
      perm_nil.mp (sound_start opts cursor).1.outbox
    rw [Ordered, hnone]
    exact Pairwise.nil
  rw [key _ (sound_start opts cursor), and_iff_right hstart]

/-- **Per-arm order.** A run in which no ingest overtakes writes the data frames of each namespace
in the order they were ingested; and a run that has written all it accepted, and so has nothing
left to write, has them in order only if no ingest overtook. -/
theorem fifo_of_noOvertaking (opts : SseFanInOptions) (cursor : Option String)
    (ops : List FaninOp) :
    (StepMachine.Guarded step NoOvertaking (start opts cursor) ops →
      ((start opts cursor).run ops).FifoPerArm) ∧
    (((start opts cursor).run ops).agg.flowing = true →
      (((start opts cursor).run ops).FifoPerArm
        ↔ StepMachine.Guarded step NoOvertaking (start opts cursor) ops)) := by
  have hordered := ordered_iff_guarded opts cursor ops
  have hsettled := (sound_run opts cursor ops).2
  generalize (start opts cursor).run ops = s at hordered hsettled ⊢
  refine ⟨fun hguard ↦ ?_, fun hflow ↦ ?_⟩
  · exact (hordered.mpr hguard).sublist (List.sublist_append_left _ _)
  · rw [← hordered, FifoPerArm, Ordered, Aggregator.outbox, hsettled.waiting hflow,
      List.append_nil]

/-- A downstream that refuses the first write only. -/
def refuseFirst : SseFanInOptions where
  accept n := n != 0

/-- Two arms interleaved over a stall: nothing overtakes, and the order is kept. -/
theorem fifo_twoArms :
    ((start refuseFirst none).run
      [.setMembership [⟨"m1", true, some "t", none⟩],
        .ingest LOCAL_NAMESPACE "id: e:1\ndata: a\n\n", .ingest "m1" "id: f:7\ndata: b\n\n",
        .ingest LOCAL_NAMESPACE "id: e:2\ndata: c\n\n", .resume]).FifoPerArm :=
  (fifo_of_noOvertaking refuseFirst none _).1 (by decide)

/-- A local frame is written and stalls the relay in composite mode, a second one waits in the
pending stream, the peer leaves, and a third is held verbatim. -/
def overtakingRun : List FaninOp :=
  [.setMembership [⟨"m1", true, some "t", none⟩],
    .ingest LOCAL_NAMESPACE "id: e:1
data: a

", .ingest LOCAL_NAMESPACE "id: e:2
data: b

",
    .setMembership [], .ingest LOCAL_NAMESPACE "id: e:3
data: c

", .resume]

/-- The third frame is then written before the second. -/
theorem not_fifo_overtakingRun :
    ¬ ∀ (opts : SseFanInOptions) (cursor : Option String) (ops : List FaninOp),
      ((start opts cursor).run ops).FifoPerArm := by
  intro h
  have hrun := h refuseFirst none overtakingRun
  rw [FifoPerArm] at hrun
  exact absurd hrun (by decide)

end Session

end Amicode
