import Amicode.Fanin.Moves
import Mathlib.Data.List.Count

/-!
# Signals

A signal is a control frame the relay wrote or queued on its own account. `signals P` counts those
that a test selects, so that "exactly one gap naming this namespace" is a statement about two
counts. A signal is counted from the moment it is handed to `writeControl`: moving it from the
pending stream to the downstream changes no count, and nothing but `ingest`, a re-open, a membership
update and the overflow announcement makes one.
-/

namespace Amicode

def Chunk.control? : Chunk → Option Control
  | .control c => some c
  | _ => none

/-- The control frame a pending entry is, if it is one. -/
def Entry.control? : Entry → Option Control
  | .control c => some c
  | .data _ _ => none

/-- Is the control frame a gap naming the namespace because its upstream lost frames? -/
def Control.isLossGapOf (ns : String) : Control → Bool
  | .gap namespaces cause => ns ∈ namespaces && cause != .overflow
  | _ => false

/-- Is the control frame a gap naming the namespace because the relay dropped frames? -/
def Control.isOverflowGapOf (ns : String) : Control → Bool
  | .gap namespaces .overflow => ns ∈ namespaces
  | _ => false

namespace Aggregator

/-- The number of control frames written or queued that pass a test. -/
def signals (P : Control → Bool) (a : Aggregator) : ℕ :=
  (a.sink.written.filterMap Chunk.control?).countP P
    + (a.pending.filterMap Entry.control?).countP P

variable (P : Control → Bool) (a : Aggregator) {b : Aggregator}

theorem signals_put (chunk : Chunk) : signals P (a.put chunk) = signals P a + (chunk.control?.any P).toNat := by
  rw [signals, signals, put_written, put_pending, List.filterMap_append, List.countP_append]
  cases hc : chunk.control? with
  | none => simp [hc]
  | some c =>
    cases hP : P c <;> simp [hc, hP, Nat.add_right_comm]

theorem signals_writeControl (frame : Control) :
    signals P (a.writeControl frame) = signals P a + (P frame).toNat := by
  rw [writeControl]
  split
  · exact signals_put P a (.control frame)
  · rw [signals, signals, List.filterMap_append, List.countP_append]
    cases hP : P frame <;> simp [Entry.control?, hP, Nat.add_assoc]

variable (ns : String)

theorem signals_advance (rawId : Option String) : signals P (a.advance ns rawId) = signals P a := by
  obtain ⟨m, h⟩ := a.advance_eq ns rawId
  rw [h]
  rfl

theorem signals_advanceResume (rawId : String) : signals P (a.advanceResume ns rawId) = signals P a :=
  signals_advance P a ns (some rawId)

theorem signals_noted (raw : String) : signals P (a.noted ns raw) = signals P a := by
  obtain ⟨delivered, resuming, h⟩ := a.noted_eq ns raw
  rw [h]
  rfl

variable (frame : Frame)

theorem signals_deliver : signals P (a.deliver ns frame) = signals P a := by
  obtain ⟨c, m, h⟩ := a.deliver_eq ns frame
  rw [h]
  exact signals_put P _ _

theorem signals_enqueue : signals P (a.enqueue ns frame).1 = signals P a := by
  rw [enqueue]
  split
  · rfl
  · rw [signals_advance, signals, signals, List.filterMap_append]
    simp [Entry.control?]

theorem signals_relayVerbatim : signals P (a.relayVerbatim frame).1 = signals P a := by
  obtain ⟨c, m, h⟩ := a.relayVerbatim_eq frame
  rw [h]
  split
  · exact signals_put P _ _
  · rfl

/-! ## Operations -/

variable {a}

theorem signals_ingestStep {ns : String} {frame : Frame} {r : Aggregator × IngestOutcome}
    (h : IngestStep a ns frame r) :
    signals P r.1 = signals P a
      + (!a.isVerbatim ns && a.cannotResume ns frame.raw && P (.gap [ns] .reopen)).toNat
      + (!a.isVerbatim ns && isReset frame.raw && P (.gap [ns] .reset)).toNat := by
  have hprepared : ∀ {b : Aggregator}, Prepared a ns frame.raw b →
      signals P b
        = signals P a + (a.cannotResume ns frame.raw && P (.gap [ns] .reopen)).toNat := by
    intro b hb
    cases hb with
    | noted resumes => rw [signals_noted, resumes]; rfl
    | announced refused => rw [signals_writeControl, signals_noted, refused, Bool.true_and]
  cases h with
  | severed refused verbatim => simp [signals_noted, verbatim]
  | handshake id hid shakes composite =>
    have hno : a.cannotResume ns frame.raw = false := by
      rw [cannotResume, hid, Option.isNone_some, Bool.and_false]
    have hreset : isReset frame.raw = false := by
      rw [shakesHands, Bool.and_eq_true, beq_iff_eq] at shakes
      simp [isReset, shakes.2]
    simp [signals_advanceResume, signals_noted, hno, hreset]
  | reset prepared resets composite =>
    rw [signals_writeControl, signals_advance, hprepared prepared, composite, resets]
    rfl
  | verbatim resumes verbatim => simp [signals_relayVerbatim, signals_noted, verbatim]
  | delivered prepared _ noReset _ composite =>
    rw [signals_deliver, hprepared prepared, composite, noReset]
    rfl
  | enqueued prepared _ noReset _ composite =>
    rw [signals_enqueue, hprepared prepared, composite, noReset]
    rfl

private theorem signals_drainPending (queue : List Entry) (a : Aggregator) (h : a.pending = queue) :
    signals P (drainPending queue a) = signals P a := by
  induction queue generalizing a with
  | nil => rfl
  | cons entry rest ih =>
    rw [drainPending]
    split
    · cases entry with
      | data ns frame =>
        obtain ⟨c, m, hd⟩ := deliver_eq { a with pending := rest } ns frame
        have hpending : (deliver { a with pending := rest } ns frame).pending = rest := by
          rw [hd]
          rfl
        rw [drainEntry, ih _ hpending, signals_deliver, signals, signals, h]
        rfl
      | control frame =>
        rw [drainEntry, ih _ rfl, signals_put, signals, signals, h]
        cases hP : P frame <;> simp [Chunk.control?, Entry.control?, hP, Nat.add_assoc]
    · rfl

variable (a)

theorem signals_drain : signals P a.drain = signals P a := by
  obtain ⟨front, back, flowing, -, -, heq⟩ :=
    drainVerbatim_eq a.verbatimBuffer { a with flowing := true } rfl
  have hflush : signals P (drainVerbatim a.verbatimBuffer { a with flowing := true })
      = signals P a := by
    rw [heq, signals, signals, List.filterMap_append]
    have hnone : (front.map Chunk.verbatim).filterMap Chunk.control? = [] := by
      rw [List.filterMap_eq_nil_iff]
      intro chunk hchunk
      obtain ⟨frame, -, rfl⟩ := List.mem_map.mp hchunk
      rfl
    rw [hnone, List.append_nil]
  rw [drain]
  exact (signals_drainPending P _ _ rfl).trans hflush

theorem signals_resume (hq : ∀ entry ∈ a.pending, entry.isOverflowGap = false) :
    signals P a.resume = signals P a ∨ ∃ names, (∀ ns ∈ names, 0 < a.dropped ns) ∧
        signals P a.resume = signals P a + (P (.gap names .overflow)).toNat := by
  have hstep := a.resumeStep
  generalize a.resume = r at hstep
  cases hstep with
  | idle => exact .inl rfl
  | drained => exact .inl (signals_drain P a)
  | @announced names counts _ hnames _ =>
    refine .inr ⟨names, fun ns hns ↦ ?_, ?_⟩
    · rw [← (a.quiet_drain hq).1.dropped]
      exact hnames ns hns
    · rw [← signals_drain P a]
      exact signals_put P a.drain (.control (.gap names .overflow))

theorem signals_setMembership (peers : List PeerMember)
    (hP : ∀ machineId reason, P (.unavailable machineId reason) = false) :
    signals P (a.setMembership peers) = signals P a := by
  refine setMembership_induction (P := fun b ↦ signals P b = signals P a) ?_ ?_ rfl peers
  · exact fun b _ _ h ↦ h
  · intro b machineId reason h
    rw [signals_writeControl, hP, h]
    rfl

/-- A re-open that resumes makes no signal; one that cannot names its own namespace. -/
theorem signals_reopenArm (ns : String) : signals P (a.reopenArm ns).1
      = signals P a + ((a.reopenArm ns).2 == .gap && P (.gap [ns] .reopen)).toNat := by
  rw [reopenArm]
  split
  · simp
  · split
    · simp [signals]
    · split
      · simp
      · exact (signals_writeControl P a _).trans (by simp)

end Aggregator

end Amicode
