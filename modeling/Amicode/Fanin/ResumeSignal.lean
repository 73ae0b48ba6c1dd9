import Amicode.Fanin.Conservation
import Amicode.Fanin.Signals

/-!
# One loss signal for a resumed upstream

An arm re-opened from its cursor is answered by the engine either with `server.connected` and the
events that follow the cursor, or with a reset, then `server.connected`, then events. The client
should be told of a loss in the second case only, by one gap, and should see neither of the two
control frames.

`Watch` follows one arm over the stretch that begins with such a re-open, and remembers the counts
at its beginning. The relay keeps the law as long as no handshake arrives on an arm whose reset it
has already consumed: `ingest` clears the arm's `resuming` mark on the first data frame, which is
the reset, so the handshake that the engine sends next is no longer recognised and is forwarded.
-/

open List Option

namespace Amicode

/-! ## Following one arm -/

/-- Where a resumed arm stands. -/
inductive ResumePhase
  /-- Re-opened from its cursor; the upstream has not answered. -/
  | reopened
  /-- Answered by the handshake: the replay follows. -/
  | replaying
  /-- Answered by a reset; the handshake is still to come. -/
  | reset
  /-- Reset, and the handshake has come. -/
  | rebased
deriving DecidableEq

namespace ResumePhase

/-- The phase after one more data frame of the arm. -/
def next (phase : ResumePhase) (raw : String) : ResumePhase :=
  match phase with
  | .reopened => if isReset raw then .reset else .replaying
  | .reset => .rebased
  | phase => phase

/-- The number of loss signals due since the re-open. -/
def due : ResumePhase → ℕ
  | .reopened | .replaying => 0
  | .reset | .rebased => 1

/-- May an engine send this data frame in this phase? -/
def allows (phase : ResumePhase) (raw : String) : Bool :=
  match phase with
  | .reopened => (frameRawId raw).isSome
      && (engineControlType raw == some .connected || engineControlType raw == some .unservable)
  | .reset => (frameRawId raw).isSome && engineControlType raw == some .connected
  | .replaying | .rebased =>
      engineControlType raw != some .connected && engineControlType raw != some .unservable

end ResumePhase

/-- Is the frame one of the two control frames that answer a re-open? -/
def answersReopen (raw : String) : Bool :=
  isDataFrame raw
    && (engineControlType raw == some .connected || engineControlType raw == some .unservable)

/-- A resumed arm: its phase, and the connection's counts when it was re-opened. -/
structure Watch where
  phase : ResumePhase
  /-- frames ingested -/
  since : ℕ
  /-- gaps naming the arm because of its upstream -/
  lossGaps : ℕ
  /-- gaps naming the arm because of overflow -/
  overflowGaps : ℕ
  /-- dropped frames of the arm still to be announced -/
  dropped : ℕ
deriving DecidableEq

/-- A connection, and the resumed stretch of one arm, if it is in one. -/
structure Watched where
  session : Session
  watch : Option Watch

namespace Watched

/-- The watch that begins with a re-open of the arm. -/
def opened (arm : String) (s : Session) : Watch where
  phase := .reopened
  since := s.arrivals.length
  lossGaps := s.agg.signals (Control.isLossGapOf arm)
  overflowGaps := s.agg.signals (Control.isOverflowGapOf arm)
  dropped := s.agg.dropped arm

/-- One operation. A re-open of the arm that resumes in composite mode begins a stretch, a re-open
that does not resume and a change to fleet-of-one end it. -/
def step (arm : String) (w : Watched) (op : FaninOp) : Watched :=
  let s := w.session.step op
  match op with
  | .ingest ns raw =>
    if ns = arm ∧ isDataFrame raw = true then
      ⟨s, w.watch.map fun x ↦ { x with phase := x.phase.next raw }⟩
    else ⟨s, w.watch⟩
  | .reopenArm ns =>
    if ns = arm then
      if (w.session.agg.reopenArm ns).2 = .resume ∧ s.agg.peerArms.size ≠ 0 then
        ⟨s, some (opened arm s)⟩
      else ⟨s, none⟩
    else ⟨s, w.watch⟩
  | .setMembership _ => if s.agg.peerArms.size = 0 then ⟨s, none⟩ else ⟨s, w.watch⟩
  | .resume => ⟨s, w.watch⟩

def start (opts : SseFanInOptions) (cursor : Option String) : Watched :=
  ⟨Session.start opts cursor, none⟩

abbrev run (arm : String) (w : Watched) (ops : List FaninOp) : Watched :=
  StepMachine.run (step arm) w ops

/-- The upstream of a resumed arm answers as the engine does. -/
def AsEngine (arm : String) (w : Watched) : FaninOp → Prop
  | .ingest ns raw =>
    ns = arm → isDataFrame raw = true → ∀ x ∈ w.watch, x.phase.allows raw = true
  | _ => True

/-- No handshake arrives after the arm's reset without another re-open. -/
def NoLateHandshake (arm : String) (w : Watched) : FaninOp → Prop
  | .ingest ns raw => ns = arm → isDataFrame raw = true → ∀ x ∈ w.watch, x.phase ≠ .reset
  | _ => True

instance (arm : String) : ∀ w op, Decidable (AsEngine arm w op)
  | w, .ingest ns raw => inferInstanceAs (Decidable (ns = arm → isDataFrame raw = true →
      ∀ x ∈ w.watch, x.phase.allows raw = true))
  | _, .setMembership _ | _, .reopenArm _ | _, .resume => .isTrue trivial

instance (arm : String) : ∀ w op, Decidable (NoLateHandshake arm w op)
  | w, .ingest ns raw => inferInstanceAs (Decidable (ns = arm → isDataFrame raw = true →
      ∀ x ∈ w.watch, x.phase ≠ .reset))
  | _, .setMembership _ | _, .reopenArm _ | _, .resume => .isTrue trivial

end Watched

/-! ## The law -/

/-- What the client is told about a resumed arm: one loss gap for a reset and none without, neither
of the two control frames, and no overflow gap unless a frame of the arm was dropped. -/
structure OneSignal (arm : String) (x : Watch) (s : Session) : Prop where
  lossGaps : s.agg.signals (Control.isLossGapOf arm) = x.lossGaps + x.phase.due
  answers : ∀ y ∈ s.arrivals.drop x.since, y.ns = arm → answersReopen y.frame.raw = true →
    y.source ∉ s.agg.outbox ∧ y.dropped = false
  replayed : x.dropped = 0 →
    (∀ y ∈ s.arrivals.drop x.since, y.ns = arm → y.dropped = false) →
    s.agg.signals (Control.isOverflowGapOf arm) = x.overflowGaps

/-- The invariant of a resumed stretch. -/
structure Resumed (arm : String) (x : Watch) (s : Session) : Prop where
  composite : s.agg.peerArms.size ≠ 0
  since : x.since ≤ s.arrivals.length
  /-- The relay waits for the answer exactly in the first phase. -/
  resuming : s.agg.resuming.contains arm = (x.phase == .reopened)
  lossGaps : s.agg.signals (Control.isLossGapOf arm) = x.lossGaps + x.phase.due
  answers : ∀ y ∈ s.arrivals.drop x.since, y.ns = arm → answersReopen y.frame.raw = true →
    y.consumed = true
  replayed : x.dropped = 0 →
    (∀ y ∈ s.arrivals.drop x.since, y.ns = arm → y.dropped = false) →
    s.agg.dropped arm = 0 ∧ s.agg.signals (Control.isOverflowGapOf arm) = x.overflowGaps

variable {arm : String} {x : Watch} {s : Session}

theorem Resumed.oneSignal (h : Resumed arm x s) (hs : s.Sound) : OneSignal arm x s where
  lossGaps := h.lossGaps
  answers y hy hns hanswer := by
    have hmem : y ∈ s.arrivals := mem_of_mem_drop hy
    have hplace := hs.conserved.onePlace y hmem
    rw [h.answers y hy hns hanswer, Bool.toNat_true] at hplace
    refine ⟨fun hout ↦ ?_, ?_⟩
    · have hcount := count_pos_iff.mpr hout
      rw [Aggregator.outbox, count_append] at hcount
      omega
    · cases hd : y.dropped with
      | false => rfl
      | true =>
        rw [hd, Bool.toNat_true] at hplace
        omega
  replayed hx hnone := (h.replayed hx hnone).2

/-! ## Operations other than an ingest of the arm -/

/-- A move that ingests nothing, makes no gap about the arm, and leaves its marks alone. -/
private theorem Resumed.of_untouched (h : Resumed arm x s) {b : Aggregator}
    (hcomposite : b.peerArms.size ≠ 0)
    (hresuming : b.resuming.contains arm = s.agg.resuming.contains arm)
    (hloss : b.signals (Control.isLossGapOf arm) = s.agg.signals (Control.isLossGapOf arm))
    (hreplayed : s.agg.dropped arm = 0 → b.dropped arm = 0 ∧
      b.signals (Control.isOverflowGapOf arm) = s.agg.signals (Control.isOverflowGapOf arm)) :
    Resumed arm x ⟨b, s.arrivals⟩ where
  composite := hcomposite
  since := h.since
  resuming := hresuming.trans h.resuming
  lossGaps := hloss.trans h.lossGaps
  answers := h.answers
  replayed hx hnone := by
    obtain ⟨hdropped, hover⟩ := h.replayed hx hnone
    obtain ⟨hdropped', hover'⟩ := hreplayed hdropped
    exact ⟨hdropped', hover'.trans hover⟩

private theorem resumed_resume (h : Resumed arm x s) (hs : s.Sound) :
    Resumed arm x (s.step .resume) := by
  obtain ⟨hpeers, hresuming⟩ := s.agg.resume_arms
  refine h.of_untouched ?_ ?_ ?_ ?_
  · rw [hpeers]
    exact h.composite
  · rw [hresuming]
  · rcases s.agg.signals_resume (Control.isLossGapOf arm) hs.1.queued with hsame | ⟨names, -, heq⟩
    · exact hsame
    · rw [heq]
      simp [Control.isLossGapOf]
  · intro hnone
    refine ⟨Nat.eq_zero_of_le_zero (hnone ▸ s.agg.resume_dropped_le hs.1.queued arm), ?_⟩
    rcases s.agg.signals_resume (Control.isOverflowGapOf arm) hs.1.queued with
      hsame | ⟨names, hnames, heq⟩
    · exact hsame
    · have hnot : arm ∉ names := fun hmem ↦ absurd (hnames arm hmem) (by simp [hnone])
      rw [heq]
      simp [Control.isOverflowGapOf, hnot]

private theorem resumed_setMembership (h : Resumed arm x s) (peers : List PeerMember)
    (hcomposite : (s.agg.setMembership peers).peerArms.size ≠ 0) :
    Resumed arm x (s.step (.setMembership peers)) := by
  refine h.of_untouched hcomposite ?_ ?_ fun hnone ↦ ⟨?_, ?_⟩
  · rw [s.agg.setMembership_resuming]
  · exact s.agg.signals_setMembership _ peers fun _ _ ↦ rfl
  · exact ((s.agg.quiet_setMembership peers).1.dropped arm).trans hnone
  · exact s.agg.signals_setMembership _ peers fun _ _ ↦ rfl

private theorem resumed_reopenOther (h : Resumed arm x s) {ns : String} (hns : ns ≠ arm) :
    Resumed arm x (s.step (.reopenArm ns)) := by
  have hother : ∀ P : Control → Bool, P (.gap [ns] .reopen) = false →
      (s.agg.reopenArm ns).1.signals P = s.agg.signals P := by
    intro P hP
    rw [s.agg.signals_reopenArm P ns, hP, Bool.and_false]
    rfl
  refine h.of_untouched ?_ ?_ ?_ fun hnone ↦ ⟨?_, ?_⟩
  · rw [(s.agg.reopenArm_arms ns).1]
    exact h.composite
  · exact (s.agg.reopenArm_arms ns).2 hns
  · exact hother _ (by simp [Control.isLossGapOf, Ne.symm hns])
  · exact ((s.agg.quiet_reopenArm ns).1.dropped arm).trans hnone
  · exact hother _ rfl

private theorem resumed_opened (s : Session) (hresume : (s.agg.reopenArm arm).2 = .resume)
    (hcomposite : (s.step (.reopenArm arm)).agg.peerArms.size ≠ 0) :
    Resumed arm (Watched.opened arm (s.step (.reopenArm arm))) (s.step (.reopenArm arm)) where
  composite := hcomposite
  since := le_rfl
  resuming := s.agg.reopenArm_resuming hresume
  lossGaps := rfl
  answers y hy := by
    rw [Watched.opened, drop_length] at hy
    exact absurd hy not_mem_nil
  replayed hdropped _ := ⟨hdropped, rfl⟩

/-! ## An ingest -/

private theorem isVerbatim_composite (h : Resumed arm x s) (ns : String) :
    s.agg.isVerbatim ns = false := by
  rw [Aggregator.isVerbatim, beq_eq_false_iff_ne.mpr h.composite, Bool.and_false]

section

variable (h : Resumed arm x s) (hs : s.Sound)

include h hs

private theorem Resumed.record {ns raw : String} (phase : ResumePhase)
    (hresuming : (s.step (.ingest ns raw)).agg.resuming.contains arm = (phase == .reopened))
    (hloss : (s.step (.ingest ns raw)).agg.signals (Control.isLossGapOf arm) = x.lossGaps + phase.due)
    (hanswer : ns = arm → answersReopen raw = true → (s.agg.ingestOutcome ns (s.nextFrame raw)).2 = .handshake
        ∨ (s.agg.ingestOutcome ns (s.nextFrame raw)).2 = .reset) :
    Resumed arm { x with phase := phase } (s.step (.ingest ns raw)) := by
  have hstep := s.agg.ingestStep ns (s.nextFrame raw)
  have hdrop : ∀ y : Arrival, (s.arrivals ++ [y]).drop x.since = s.arrivals.drop x.since ++ [y] :=
    fun y ↦ drop_append_of_le_length h.since
  refine ⟨?_, ?_, hresuming, hloss, ?_, ?_⟩
  · rw [Session.step, (Aggregator.ingestStep_arms hstep).1]
    exact h.composite
  · rw [Session.step, length_append]
    exact Nat.le_add_right_of_le h.since
  · intro y hy hns hyanswer
    rw [Session.step, hdrop] at hy
    rcases mem_append.mp hy with hmem | hmem
    · exact h.answers y hmem hns hyanswer
    · rw [mem_singleton.mp hmem] at hns hyanswer ⊢
      rcases hanswer hns hyanswer with heq | heq <;> simp [Arrival.consumed, heq]
  · intro hx hnone
    rw [Session.step, hdrop] at hnone
    have hold : ∀ y ∈ s.arrivals.drop x.since, y.ns = arm → y.dropped = false :=
      fun y hy ↦ hnone y (mem_append_left _ hy)
    have hnew : ns = arm → (s.agg.ingestOutcome ns (s.nextFrame raw)).2 ≠ .dropped := by
      intro hns heq
      have hlast := hnone _ (mem_append_right _ (mem_singleton_self _)) hns
      simp [Arrival.dropped, heq] at hlast
    obtain ⟨hdropped, hover⟩ := h.replayed hx hold
    refine ⟨(Aggregator.ingest_dropped hs.2 ns (s.nextFrame raw) hnew).trans hdropped, ?_⟩
    rw [Session.step, Aggregator.signals_ingestStep _ hstep]
    simpa [Control.isOverflowGapOf] using hover

private theorem resumed_ingestOther {ns : String}
    (hns : ns ≠ arm) (raw : String) : Resumed arm x (s.step (.ingest ns raw)) := by
  have hstep := s.agg.ingestStep ns (s.nextFrame raw)
  refine h.record hs x.phase ?_ ?_ fun heq ↦ absurd heq hns
  · rw [← h.resuming, Session.step, (Aggregator.ingestStep_arms hstep).2,
      Aggregator.noted_resuming]
    split
    · rw [InsertionMap.contains_erase, bne_iff_ne.mpr hns.symm, Bool.and_true]
    · rfl
  · rw [← h.lossGaps, Session.step, Aggregator.signals_ingestStep _ hstep]
    simp [Control.isLossGapOf, Ne.symm hns]

private theorem resumed_ingestComment {raw : String}
    (hdata : isDataFrame raw = false) : Resumed arm x (s.step (.ingest arm raw)) := by
  have hstep := s.agg.ingestStep arm (s.nextFrame raw)
  have hraw : (s.nextFrame raw).raw = raw := rfl
  refine h.record hs x.phase ?_ ?_ fun _ hanswer ↦ ?_
  · rw [← h.resuming, Session.step, (Aggregator.ingestStep_arms hstep).2,
      Aggregator.noted_resuming, hraw, hdata]
    rfl
  · rw [← h.lossGaps, Session.step, Aggregator.signals_ingestStep _ hstep]
    simp [Aggregator.cannotResume, isReset, hraw, hdata]
  · rw [answersReopen, hdata, Bool.false_and] at hanswer
    exact absurd hanswer Bool.false_ne_true

private theorem resumed_ingestData {raw : String}
    (hdata : isDataFrame raw = true) (hallows : x.phase.allows raw = true) (hlate : x.phase ≠ .reset) :
    Resumed arm { x with phase := x.phase.next raw } (s.step (.ingest arm raw)) := by
  have hstep := s.agg.ingestStep arm (s.nextFrame raw)
  have hraw : (s.nextFrame raw).raw = raw := rfl
  have hv := isVerbatim_composite h arm
  have hunmarked : (s.step (.ingest arm raw)).agg.resuming.contains arm = false := by
    rw [Session.step, (Aggregator.ingestStep_arms hstep).2, Aggregator.noted_resuming, hraw,
      if_pos hdata, InsertionMap.contains_erase, bne_self_eq_false, Bool.and_false]
  have hsignals := Aggregator.signals_ingestStep (Control.isLossGapOf arm) hstep
  rw [h.lossGaps, hv, hraw, Bool.not_false, Bool.true_and, Bool.true_and] at hsignals
  by_cases hfirst : x.phase = .reopened
  · -- the answer itself: the handshake is taken, or the reset becomes the one gap
    rw [hfirst] at hallows hsignals ⊢
    simp only [ResumePhase.allows, Bool.and_eq_true, Bool.or_eq_true, beq_iff_eq] at hallows
    have hid : s.agg.cannotResume arm raw = false := by
      rw [Aggregator.cannotResume, ← not_isSome, hallows.1]
      simp
    have hmarked : s.agg.resuming.contains arm = true := by rw [h.resuming, hfirst]; rfl
    rw [hid, Bool.false_and] at hsignals
    refine h.record hs _ ?_ ?_ fun _ _ ↦ ?_
    · rw [hunmarked, ResumePhase.next]
      split <;> rfl
    · refine hsignals.trans ?_
      cases hreset : isReset raw <;>
        simp [ResumePhase.next, ResumePhase.due, hreset, Control.isLossGapOf]
    · refine Aggregator.ingestStep_answers hstep hv ?_
      rcases hallows.2 with hc | hc
      · left
        rw [Aggregator.shakesHands, hraw, hdata, hmarked, hallows.1, hc]
        rfl
      · right
        rw [isReset, hraw, hdata, hc]
        rfl
  · -- an event, which answers nothing
    have hevent : x.phase.next raw = x.phase
        ∧ engineControlType raw ≠ some .connected ∧ engineControlType raw ≠ some .unservable := by
      cases hphase : x.phase with
      | reopened => exact absurd hphase hfirst
      | reset => exact absurd hphase hlate
      | replaying | rebased =>
        rw [hphase] at hallows
        simpa [ResumePhase.next, ResumePhase.allows] using hallows
    obtain ⟨hnext, hconnected, hunservable⟩ := hevent
    have hunmarked' : s.agg.resuming.contains arm = false := by
      rw [h.resuming, beq_eq_false_iff_ne]
      exact hfirst
    rw [hnext]
    refine h.record hs _ ?_ ?_ fun _ hanswer ↦ ?_
    · rw [hunmarked, beq_eq_false_iff_ne.mpr hfirst]
    · refine hsignals.trans ?_
      simp [Aggregator.cannotResume, hunmarked', isReset, hunservable]
    · simp [answersReopen, hconnected, hunservable] at hanswer

/-! ## Whole runs -/

end

namespace Watched

/-- The invariant of a connection with one arm followed. -/
def Lawful (arm : String) (w : Watched) : Prop :=
  w.session.Sound ∧ ∀ x ∈ w.watch, Resumed arm x w.session

theorem lawful_step {w : Watched} (h : Lawful arm w) {op : FaninOp} (hengine : AsEngine arm w op)
    (hlate : NoLateHandshake arm w op) : Lawful arm (step arm w op) := by
  obtain ⟨hs, hwatch⟩ := h
  have hsound := Session.sound_step hs op
  cases op with
  | ingest ns raw =>
    rw [step]
    split
    · next hdata =>
      obtain ⟨rfl, hdata⟩ := hdata
      refine ⟨hsound, fun y hy ↦ ?_⟩
      obtain ⟨x, hx, rfl⟩ := map_eq_some_iff.mp hy
      exact resumed_ingestData (hwatch x hx) hs hdata (hengine rfl hdata x hx)
        (hlate rfl hdata x hx)
    · next hother =>
      refine ⟨hsound, fun x hx ↦ ?_⟩
      by_cases hns : ns = arm
      · subst hns
        refine resumed_ingestComment (hwatch x hx) hs ?_
        simpa using hother
      · exact resumed_ingestOther (hwatch x hx) hs hns raw
  | reopenArm ns =>
    rw [step]
    split
    · next hns =>
      subst hns
      split
      · next hresume =>
        refine ⟨hsound, fun x hx ↦ ?_⟩
        obtain rfl := mem_some_iff.mp hx
        exact resumed_opened w.session hresume.1 hresume.2
      · exact ⟨hsound, fun x hx ↦ absurd hx (not_mem_none x)⟩
    · next hns => exact ⟨hsound, fun x hx ↦ resumed_reopenOther (hwatch x hx) hns⟩
  | setMembership peers =>
    rw [step]
    split
    · exact ⟨hsound, fun x hx ↦ absurd hx (not_mem_none x)⟩
    · next hcomposite =>
      exact ⟨hsound, fun x hx ↦ resumed_setMembership (hwatch x hx) peers hcomposite⟩
  | resume => exact ⟨hsound, fun x hx ↦ resumed_resume (hwatch x hx) hs⟩

/-- **One loss signal.** In every run in which the upstream of the arm answers its re-opens as the
engine does, and no handshake arrives on an arm that has just been reset, the client is told of a
loss exactly once for a reset and never for a replay, and sees neither control frame. -/
theorem oneSignal_of_noLateHandshake (opts : SseFanInOptions) (cursor : Option String)
    (arm : String) (ops : List FaninOp)
    (hengine : StepMachine.Guarded (step arm) (AsEngine arm) (start opts cursor) ops)
    (hlate : StepMachine.Guarded (step arm) (NoLateHandshake arm) (start opts cursor) ops) :
    ∀ x ∈ (run arm (start opts cursor) ops).watch,
      OneSignal arm x (run arm (start opts cursor) ops).session := by
  have hlawful : Lawful arm (run arm (start opts cursor) ops) := by
    refine StepMachine.invariant_run_of_guarded
      (fun w op (h : Lawful arm w) hguard ↦ lawful_step h hguard.1 hguard.2) ?_
      (hengine.and hlate)
    exact ⟨Session.sound_start opts cursor, fun x hx ↦ absurd hx (Option.not_mem_none x)⟩
  exact fun x hx ↦ (hlawful.2 x hx).oneSignal hlawful.1

/-! ## A late handshake -/

/-- A reset of an engine that began a new epoch. -/
def resetFrame : String :=
  "id: f:0\ndata: \x7b\"payload\":\x7b\"id\":\"\",\"type\":\"server.cursor.unservable\"\x7d\x7d\n\n"

/-- The handshake it sends next. -/
def handshakeFrame : String :=
  "id: f:0\ndata: \x7b\"payload\":\x7b\"id\":\"\",\"type\":\"server.connected\"\x7d\x7d\n\n"

/-- A peer is listed, delivers a frame, and is re-opened from it. -/
def reopenedPeer : List FaninOp :=
  [.setMembership [⟨"m1", true, some "t", none⟩], .ingest "m1" "id: e:1\ndata: a\n\n",
    .reopenArm "m1"]

/-- A replay: the handshake, then the events after the cursor. -/
theorem oneSignal_replay :
    OneSignal "m1" ⟨.replaying, 1, 0, 0, 0⟩ (run "m1" (start ⟨fun _ ↦ true, 256, none⟩ none)
      (reopenedPeer ++ [.ingest "m1" handshakeFrame,
        .ingest "m1" "id: e:2\ndata: b\n\n"])).session :=
  oneSignal_of_noLateHandshake _ none "m1" _ (by decide +kernel) (by decide +kernel) _
    (by decide +kernel)

/-- The engine's own answer to an unservable cursor, a reset and then the handshake, breaks the
law: the handshake is forwarded. -/
theorem not_oneSignal_lateHandshake :
    ¬ ∀ (opts : SseFanInOptions) (cursor : Option String) (arm : String) (ops : List FaninOp),
      StepMachine.Guarded (step arm) (AsEngine arm) (start opts cursor) ops →
      ∀ x ∈ (run arm (start opts cursor) ops).watch,
        OneSignal arm x (run arm (start opts cursor) ops).session := by
  intro h
  have hlaw := h ⟨fun _ ↦ true, 256, none⟩ none "m1"
    (reopenedPeer ++ [.ingest "m1" resetFrame,
      .ingest "m1" handshakeFrame])
    (by decide +kernel) ⟨.rebased, 1, 0, 0, 0⟩ (by decide +kernel)
  have hforwarded := hlaw.answers
    ⟨"m1", ⟨handshakeFrame, 2⟩, .forwarded, 3⟩ (by decide +kernel) rfl (by decide +kernel)
  exact absurd hforwarded.1 (by decide +kernel)

end Watched

end Amicode
