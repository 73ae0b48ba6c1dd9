import Amicode.Attach.Steps

/-!
# The legacy field of the record

Every write of a posture or of a mode also writes the legacy field, as the projection of both. The
second law says that the field never diverges from that projection. A rollback is the exception. It
puts back the legacy field of the snapshot, which is the projection under the posture at the time of
the stage, and the posture may have been written since.

`synced_restored` says when a restore gives a synced record: when the legacy field of the snapshot
is the projection of its mode and of the posture that is live (`Live`). `synced_run_iff` carries
this to every run. The invariant is about snapshots as well, since an open journal entry can bring
one back long after another transition has been staged.
-/

namespace Amicode.Attach

/-! ## Records and snapshots -/

/-- The legacy field is the projection of the resolved mode and posture. -/
def Synced (record : AttachStateRecord) : Prop :=
  field record "state" = (legacyStateOf (resolveAttachState record).mode
    (resolveAttachState record).posture).value

instance (record : AttachStateRecord) : Decidable (Synced record) :=
  inferInstanceAs (Decidable (_ = _))

namespace TransitionSnapshot

/-- A snapshot of a synced record: its legacy field is the projection of its mode under some
posture, and its mode field names that mode, or leaves it to the legacy field. -/
structure Coherent (s : TransitionSnapshot) : Prop where
  projected : ∃ posture, field s.fields "state" = (legacyStateOf s.mode posture).value
  named : field s.fields "mode" = s.mode.value
    ∨ (¬ Named s.fields ∧ (field s.fields "state").legacyMode = s.mode)

/-- The legacy field does not carry the mode: it is fleet under hub-down. -/
def Lossy (s : TransitionSnapshot) : Prop := (field s.fields "state").legacyMode ≠ s.mode

/-- The legacy field fits the posture that is live in the record, if the record names one. -/
def Live (s : TransitionSnapshot) (record : AttachStateRecord) : Prop :=
  ∀ posture ∈ (field record "posture").posture?,
    field s.fields "state" = (legacyStateOf s.mode posture).value

instance (s : TransitionSnapshot) (record : AttachStateRecord) : Decidable (s.Live record) :=
  inferInstanceAs (Decidable (∀ posture ∈ _, _))

end TransitionSnapshot

/-! ## What a restore does -/

section Restore

variable {s : TransitionSnapshot} {record : AttachStateRecord}

theorem TransitionSnapshot.Coherent.mode_restored (hs : s.Coherent)
    (hlossy : s.Lossy → Named record) : (resolveAttachState (restored s record)).mode = s.mode :=
  Attach.mode_restored hs.named fun hnot ↦ not_not.mp fun h ↦ hnot (hlossy h)

theorem synced_restored (hs : s.Coherent) (hlossy : s.Lossy → Named record) :
    Synced (restored s record) ↔ s.Live record := by
  obtain ⟨-, hstate, hposture⟩ := field_restored s record
  rw [Synced, hs.mode_restored hlossy, hstate, resolveAttachState, hposture, hstate,
    TransitionSnapshot.Live]
  rcases (field record "posture").posture? with _ | posture
  · -- no posture is named, so it is read back from the legacy field itself
    obtain ⟨posture, hprojected⟩ := hs.projected
    rw [hprojected, Option.getD_none, legacyStateOf_legacyPosture]
    simp
  · simp

end Restore

/-! ## The other writes -/

section Writes

variable (m : ModeMachine)

theorem synced_writePosture (posture : AttachPosture) :
    Synced (m.writePosture posture).record := by
  have hposture := posture_writePosture posture m
  have hmode := mode_writePosture posture m
  rw [ModeMachine.resolve] at hposture hmode
  rw [Synced, hposture, hmode, ModeMachine.writePosture, field_posturePatch, if_pos rfl]
  split_ifs with hlost
  · rw [hlost.2]
    rcases (resolveAttachState m.record).mode <;> decide
  · rfl

theorem synced_confirmMode (mode : AttachMode) : Synced (m.confirmMode mode).record := by
  have hstate : field (m.confirmMode mode).record "state"
      = (legacyStateOf mode (resolveAttachState m.record).posture).value := by
    rw [ModeMachine.confirmMode, field_modePatch, if_pos rfl]
  have hposture : field (m.confirmMode mode).record "posture" = field m.record "posture" := by
    rw [ModeMachine.confirmMode, field_modePatch, if_neg (by decide), if_neg (by decide)]
  have hmode : (resolveAttachState (m.confirmMode mode).record).mode = mode :=
    resolve_confirmMode mode m
  rw [Synced, hmode, hstate]
  rcases hnamed : (field m.record "posture").posture? with _ | posture
  · have hread : (resolveAttachState (m.confirmMode mode).record).posture
        = (legacyStateOf mode (resolveAttachState m.record).posture).value.legacyPosture := by
      rw [resolveAttachState, hposture, hnamed, hstate, Option.getD_none]
    rw [hread, legacyStateOf_legacyPosture]
  · have hread : (resolveAttachState (m.confirmMode mode).record).posture
        = (resolveAttachState m.record).posture := by
      rw [resolveAttachState, hposture, hnamed, resolveAttachState, hnamed]
      rfl
    rw [hread]

theorem named_confirmMode (mode : AttachMode) : Named (m.confirmMode mode).record := by
  apply named_of_field
  rw [ModeMachine.confirmMode, field_modePatch, if_neg (by decide), if_pos rfl]

variable (patch : List (String × JsValue))

theorem synced_overlayRewrite (h : Synced m.record) : Synced (m.overlayRewrite patch).record := by
  have hresolve := resolve_overlayRewrite m patch
  rw [ModeMachine.resolve, ModeMachine.resolve] at hresolve
  rw [Synced, hresolve, field_overlayRewrite m patch (by decide)]
  exact h

theorem named_overlayRewrite : Named (m.overlayRewrite patch).record ↔ Named m.record := by
  rw [Named, field_overlayRewrite m patch (by decide), Named]

variable (proposal : TransitionProposalRecord)

theorem synced_committedRecord : Synced (committedRecord proposal m) := by
  rw [committedRecord]
  rcases proposal.apply with _ | patch
  · exact synced_confirmMode m _
  · exact synced_overlayRewrite _ patch (synced_confirmMode m _)

theorem named_committedRecord : Named (committedRecord proposal m) := by
  rw [committedRecord]
  rcases proposal.apply with _ | patch
  · exact named_confirmMode m _
  · exact (named_overlayRewrite _ patch).mpr (named_confirmMode m _)

end Writes

/-! ## The invariant -/

/-- What a run of synced records keeps: the snapshot at hand is coherent, and so is one that the
journal leaves open, which is at hand again after a recovery. -/
structure Core.Coherent (c : Core) : Prop where
  synced : Synced c.record
  snapshot : ∀ s ∈ c.snapshot, s.Coherent ∧ (s.Lossy → Named c.record)
  pending : ∀ p ∈ c.pending, p.1.Coherent
    ∧ (p.1.Lossy → Named c.record ∧ ∀ s ∈ c.snapshot, Named s.fields)

theorem TransitionSnapshot.Coherent.named_of_lossy {s : TransitionSnapshot} (hs : s.Coherent)
    (hlossy : s.Lossy) : Named s.fields :=
  named_of_field (hs.named.resolve_right fun h ↦ hlossy h.2)

section Stage

variable {record : AttachStateRecord} {names : List String} (h : "posture" ∉ names)

theorem state_takeSnapshot (hsynced : Synced record) :
    field (takeSnapshot record names h).fields "state" = field record "state" := by
  rcases (field_takeSnapshot record names h).2 with hstate | ⟨-, hstate⟩
  · exact hstate
  · exact hstate.trans hsynced.symm

theorem coherent_takeSnapshot (hsynced : Synced record) :
    (takeSnapshot record names h).Coherent where
  projected := ⟨_, (state_takeSnapshot h hsynced).trans hsynced⟩
  named := by
    refine (mode_takeSnapshot record names h).imp_right fun ⟨hfields, hrecord⟩ ↦ ⟨hfields, ?_⟩
    rw [state_takeSnapshot h hsynced, ← mode_of_not_named hrecord]
    rfl

/-- A record that does not name its mode has a legacy field that carries it. -/
theorem named_of_lossy_takeSnapshot (hsynced : Synced record)
    (hlossy : (takeSnapshot record names h).Lossy) : Named record := by
  by_contra hnot
  refine hlossy ?_
  rw [state_takeSnapshot h hsynced, ← mode_of_not_named hnot]
  rfl

theorem named_takeSnapshot (hrecord : Named record) :
    Named (takeSnapshot record names h).fields := by
  rcases mode_takeSnapshot record names h with hmode | ⟨-, hnot⟩
  · exact named_of_field hmode
  · exact absurd hrecord hnot

end Stage

theorem Core.Coherent.of_eq {c c' : Core} (h : c.Coherent) (hrecord : c'.record = c.record)
    (hsnapshot : c'.snapshot = c.snapshot) (hpending : c'.pending = c.pending) : c'.Coherent := by
  constructor
  · rw [hrecord]
    exact h.synced
  · rw [hrecord, hsnapshot]
    exact h.snapshot
  · rw [hrecord, hsnapshot, hpending]
    exact h.pending

theorem Core.Coherent.restore {c : Core} (h : c.Coherent) {s : TransitionSnapshot}
    (hs : c.snapshot = some s) (hsynced : Synced (restored s c.record)) :
    ({ c with record := restored s c.record } : Core).Coherent where
  synced := hsynced
  snapshot s' hs' := by
    obtain rfl := Option.some.inj (hs.symm.trans hs')
    obtain ⟨hcoherent, hnamed⟩ := h.snapshot s hs
    exact ⟨hcoherent, fun hlossy ↦ named_restored (hcoherent.named_of_lossy hlossy) (hnamed hlossy)⟩
  pending p hp := by
    obtain ⟨hcoherent, hnamed⟩ := h.pending p hp
    refine ⟨hcoherent, fun hlossy ↦ ?_⟩
    obtain ⟨hrecord, hfields⟩ := hnamed hlossy
    exact ⟨named_restored (hfields s hs) hrecord, hfields⟩

theorem Core.Coherent.close {c : Core} (h : c.Coherent) :
    ({ c with pending := none } : Core).Coherent where
  synced := h.synced
  snapshot := h.snapshot
  pending := by simp

variable {record : AttachStateRecord}

theorem Core.Coherent.write {c : Core} (h : c.Coherent)
    (hsynced : Synced record) (hnamed : Named c.record → Named record) :
    ({ c with record := record } : Core).Coherent where
  synced := hsynced
  snapshot s hs := ⟨(h.snapshot s hs).1, fun hlossy ↦ hnamed ((h.snapshot s hs).2 hlossy)⟩
  pending p hp := ⟨(h.pending p hp).1, fun hlossy ↦
    ⟨hnamed ((h.pending p hp).2 hlossy).1, ((h.pending p hp).2 hlossy).2⟩⟩

section Moves

variable {options : EngineOptions} {e : ModeTransitionEngine} {op : EngineOp} {c : Core}
  {observations : List TransitionEvent}

theorem Move.synced_iff (hmove : Move options e op c observations) (h : e.core.Coherent) :
    Synced c.record ↔ ∀ s ∈ e.restoring options op, s.Live e.machine.record := by
  rcases hmove.record_cases with ⟨hrecord, hnone⟩ | ⟨s, hsnapshot, hrestoring, hrecord⟩
    | ⟨proposal, -, hop, -, -, hrecord⟩
  · rw [hrecord, hnone]
    exact iff_of_true h.synced (by simp)
  · have hiff : Synced (restored s e.machine.record) ↔ s.Live e.machine.record :=
      synced_restored (h.snapshot s hsnapshot).1 (h.snapshot s hsnapshot).2
    rw [hrecord, hrestoring, hiff]
    simp
  · rw [hrecord, (ModeTransitionEngine.restoring_of_commits hop).1]
    exact iff_of_true (synced_committedRecord _ _) (by simp)

theorem Move.coherent (hmove : Move options e op c observations) (h : e.core.Coherent)
    (hsynced : Synced c.record) : c.Coherent := by
  rcases hmove
  case still => exact h
  case stage hposture _ _ _ =>
    refine ⟨hsynced, fun s hs ↦ ?_, fun p hp ↦ ?_⟩
    · obtain rfl := Option.some.inj hs
      exact ⟨coherent_takeSnapshot hposture hsynced, named_of_lossy_takeSnapshot hposture hsynced⟩
    · -- the new snapshot is of a record that names its mode if the open entry needs that
      obtain ⟨hcoherent, hnamed⟩ := h.pending p hp
      refine ⟨hcoherent, fun hlossy ↦ ⟨(hnamed hlossy).1, fun s hs ↦ ?_⟩⟩
      obtain rfl := Option.some.inj hs
      exact named_takeSnapshot hposture (hnamed hlossy).1
  case structural hsnapshot _ => exact (h.restore hsnapshot hsynced).of_eq rfl rfl rfl
  case rollback hsnapshot _ => exact (h.restore hsnapshot hsynced).of_eq rfl rfl rfl
  case abort hsnapshot _ => exact (h.restore hsnapshot hsynced).close.of_eq rfl rfl rfl
  case pend s _ _ hsnapshot _ =>
    obtain ⟨hcoherent, hnamed⟩ := h.snapshot s hsnapshot
    refine ⟨hsynced, h.snapshot, fun p hp ↦ ?_⟩
    obtain rfl := Option.some.inj hp
    refine ⟨hcoherent, fun hlossy ↦ ⟨hnamed hlossy, fun s' hs' ↦ ?_⟩⟩
    obtain rfl := Option.some.inj (hsnapshot.symm.trans hs')
    exact hcoherent.named_of_lossy hlossy
  case commit =>
    exact (h.write hsynced fun _ ↦ named_committedRecord _ _).close.of_eq rfl rfl rfl
  all_goals exact h.of_eq rfl rfl rfl

end Moves

/-! ## Runs -/

/-- An operation on an attach-state store: one of its engine, a write of its machine, or the death
of the engine and the recovery of a fresh one from the journal. -/
inductive AttachOp where
  | engine (op : EngineOp)
  | recover
  | writePosture (posture : AttachPosture)
  | confirmMode (mode : AttachMode)
  | overlayRewrite (patch : List (String × JsValue))

namespace ModeTransitionEngine

variable (options : EngineOptions)

/-- One operation on the store. -/
def attachStep (e : ModeTransitionEngine) : AttachOp → ModeTransitionEngine
  | .engine op => e.step options op
  | .recover => recover e.machine e.nextId
  | .writePosture posture => { e with machine := e.machine.writePosture posture }
  | .confirmMode mode => { e with machine := e.machine.confirmMode mode }
  | .overlayRewrite patch => { e with machine := e.machine.overlayRewrite patch }

/-- What the operation restores, if it restores a snapshot, fits the posture that is live. -/
def RestoresLive (e : ModeTransitionEngine) : AttachOp → Prop
  | .engine op => ∀ s ∈ e.restoring options op, s.Live e.machine.record
  | .recover | .writePosture _ | .confirmMode _ | .overlayRewrite _ => True

instance (e : ModeTransitionEngine) (op : AttachOp) : Decidable (e.RestoresLive options op) :=
  match op with
  | .engine op =>
    inferInstanceAs (Decidable (∀ s ∈ e.restoring options op, s.Live e.machine.record))
  | .recover | .writePosture _ | .confirmMode _ | .overlayRewrite _ => .isTrue trivial

variable {options} {e : ModeTransitionEngine}

theorem coherent_recover (h : e.core.Coherent) : (recover e.machine e.nextId).core.Coherent := by
  have hfirst : ∀ s ∈ e.core.pending.map Prod.fst, ∃ p ∈ e.core.pending, p.1 = s := by simp
  rw [core_recover]
  refine ⟨h.synced, fun s hs ↦ ?_, fun p hp ↦ ⟨(h.pending p hp).1, fun hlossy ↦ ?_⟩⟩
  · obtain ⟨p, hp, rfl⟩ := hfirst s hs
    exact ⟨(h.pending p hp).1, fun hlossy ↦ ((h.pending p hp).2 hlossy).1⟩
  · refine ⟨((h.pending p hp).2 hlossy).1, fun s hs ↦ ?_⟩
    obtain ⟨p', hp', rfl⟩ := hfirst s hs
    obtain rfl := Option.some.inj (hp.symm.trans hp')
    exact (h.pending p hp).1.named_of_lossy hlossy

theorem synced_recover (h : Synced e.machine.record) :
    Synced (recover e.machine e.nextId).machine.record := by
  have hrecord : (recover e.machine e.nextId).machine.record = e.machine.record :=
    congrArg Core.record core_recover
  rwa [hrecord]

theorem synced_attachStep_iff (op : AttachOp) (h : e.core.Coherent) :
    Synced (e.attachStep options op).machine.record ↔ e.RestoresLive options op := by
  rcases op
  case engine op => exact (stepped_all op).1.synced_iff h
  case recover => exact iff_of_true (synced_recover h.synced) trivial
  case writePosture posture => exact iff_of_true (synced_writePosture _ posture) trivial
  case confirmMode mode => exact iff_of_true (synced_confirmMode _ mode) trivial
  case overlayRewrite patch => exact iff_of_true (synced_overlayRewrite _ patch h.synced) trivial

theorem coherent_attachStep (op : AttachOp) (h : e.core.Coherent)
    (hsynced : Synced (e.attachStep options op).machine.record) :
    (e.attachStep options op).core.Coherent := by
  rcases op
  case engine op => exact (stepped_all op).1.coherent h hsynced
  case recover => exact coherent_recover h
  case writePosture posture =>
    refine (h.write hsynced fun hnamed ↦ ?_).of_eq rfl rfl rfl
    rwa [Named, attachStep, ModeMachine.writePosture, field_posturePatch, if_neg (by decide),
      if_neg (by decide)]
  case confirmMode mode =>
    refine (h.write hsynced fun _ ↦ named_confirmMode _ mode).of_eq rfl rfl ?_
    simp [core, attachStep, ModeMachine.confirmMode, openPending_concat]
  case overlayRewrite patch =>
    exact (h.write hsynced (named_overlayRewrite _ patch).mpr).of_eq rfl rfl rfl

end ModeTransitionEngine

open ModeTransitionEngine

theorem coherent_fresh (h : Synced record) : (core { machine := { record := record } }).Coherent where
  synced := h
  snapshot := by simp [core]
  pending := by simp [core, openPending]

/-- Every run on a synced record has a synced record after each operation, if and only if each
rollback in it puts back a snapshot that fits the posture which is live at that moment. -/
theorem synced_run_iff (options : EngineOptions) (h : Synced record) (ops : List AttachOp) :
    StepMachine.Guarded (attachStep options) (fun e op ↦ Synced (e.attachStep options op).machine.record)
        { machine := { record := record } } ops
      ↔ StepMachine.Guarded (attachStep options) (RestoresLive options)
        { machine := { record := record } } ops :=
  StepMachine.guarded_iff_of_invariant (I := fun e : ModeTransitionEngine ↦ e.core.Coherent)
    (fun _ op hcoherent ↦ synced_attachStep_iff op hcoherent)
    (fun _ op hcoherent hsynced ↦ coherent_attachStep op hcoherent hsynced) (coherent_fresh h)

/-! ## Two runs -/

def fleetRecord : AttachStateRecord :=
  (((∅ : AttachStateRecord).set "mode" (.string "fleet")).set "posture" (.string "ok")).set
    "state" (.string "fleet")

/-- A transition to standalone, rolled back after the posture writes. -/
def rolledBackAfter (postures : List AttachPosture) : List AttachOp :=
  .engine (.stage { toMode := .standalone }) :: postures.map .writePosture ++ [.engine .rollback]

/-- The hub goes down and comes back before the rollback. -/
theorem synced_rolledBackAfter_recovery :
    StepMachine.Guarded (attachStep ⟨false, 0⟩)
      (fun e op ↦ Synced (e.attachStep ⟨false, 0⟩ op).machine.record)
      { machine := { record := fleetRecord } } (rolledBackAfter [.hubDown, .ok]) :=
  (synced_run_iff ⟨false, 0⟩ (by decide +kernel) _).mpr (by decide +kernel)

/-- The hub is down when the transition is rolled back: the record says fleet again. -/
theorem not_synced_rolledBackAfter_hubDown :
    Synced fleetRecord ∧ ¬ Synced (StepMachine.run (attachStep ⟨false, 0⟩)
      { machine := { record := fleetRecord } } (rolledBackAfter [.hubDown])).machine.record := by
  decide +kernel

end Amicode.Attach
