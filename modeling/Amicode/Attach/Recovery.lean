import Amicode.Attach.Durable

/-!
# Runs with kills

A run of the engine in which it may be killed at any write of its operations, and again while the
fresh engine takes the transition up. `untorn_of_timely` says what every fresh engine finds, and
what its verbs do: nothing is torn, and what has ended stays as it is.

The source is not as strict as its comments. An attempt to verify that settles once the transition
has been decided can put a snapshot back over a committed record. And a stage that names the mode
as mode-scoped, on a record that does not name its mode, pins a value that is no mode; a rollback
killed after it is restored leaves a record of another mode. So runs are asked to be `Timely`.
-/

namespace Amicode.Attach

open ModeTransitionEngine

/-! ## Operations and kills -/

/-- An operation of the engine, which may be killed after some of its writes. -/
inductive DurableOp where
  | live (op : EngineOp)
  | kill (op : EngineOp) (written : ℕ)

/-- The operation. -/
def DurableOp.op : DurableOp → EngineOp
  | .live op | .kill op _ => op

def DurableOp.kills : DurableOp → Bool
  | .live _ => false
  | .kill _ _ => true

namespace ModeTransitionEngine

variable (options : EngineOptions)

/-- One operation, on the engine and the record that the last transition was staged on. After a kill
a fresh engine recovers from the journal. -/
def durableStep (s : ModeTransitionEngine × AttachStateRecord) :
    DurableOp → ModeTransitionEngine × AttachStateRecord
  | .live op =>
    (s.1.step options op,
      (StepMachine.run trackWrite (s.1.machine, s.2) (s.1.writes options op)).2)
  | .kill op written =>
    let t := StepMachine.run trackWrite (s.1.machine, s.2) ((s.1.writes options op).take written)
    (recover t.1 (s.1.step options op).nextId, t.2)

/-- The operation is on time: an attempt that settles with an outcome finds the transition staged
or verified; and a stage names the mode as mode-scoped only if the record does name its mode. -/
def InTime (e : ModeTransitionEngine) : EngineOp → Prop
  | .settle i how => e.attempts[i]?.map VerifyAttempt.phase = some .testing → how ≠ .throws →
    e.state = .staged ∨ e.state = .verified
  | .stage input => "mode" ∈ input.modeScopedFields → Named e.machine.record
  | _ => True

/-- The operation is on time, and the engine is not killed while it resolves a pending transition. -/
def Timely (s : ModeTransitionEngine × AttachStateRecord) (op : DurableOp) : Prop :=
  (op.kills = true → op.op.resolves = false) ∧ s.1.InTime op.op

instance (e : ModeTransitionEngine) : ∀ op : EngineOp, Decidable (e.InTime op)
  | .settle i how => inferInstanceAs (Decidable
    (e.attempts[i]?.map VerifyAttempt.phase = some .testing → how ≠ .throws → _ ∨ _))
  | .stage input => inferInstanceAs (Decidable ("mode" ∈ input.modeScopedFields → _ ≠ none))
  | .verify | .drainSettled _ _ | .rollback | .commit _ _ _ | .resume _ _ _
  | .resolvePending _ _ | .forceResolvePending _ => .isTrue trivial

instance (s : ModeTransitionEngine × AttachStateRecord) (op : DurableOp) :
    Decidable (Timely s op) :=
  inferInstanceAs (Decidable ((op.kills = true → op.op.resolves = false) ∧ s.1.InTime op.op))

end ModeTransitionEngine

/-! ## The invariant -/

/-- The engine and its machine agree on the transition at hand. -/
structure Agrees (t : Tracked) (state : ModeTransitionEngineState)
    (proposal : Option TransitionProposalRecord) (snapshot : Option TransitionSnapshot) :
    Prop where
  staged : state = .staged ∨ state = .verified → ∃ p s, proposal = some p ∧ snapshot = some s
    ∧ StagedOn t.2 s p ∧ t.1.record = t.2 ∧ openPending t.1.journal = none
    ∧ lastTransition t.1.journal = some (p, .underway)
  pending : state = .commitPending → ∃ p s now, proposal = some p ∧ snapshot = some s
    ∧ openPending t.1.journal = some (s, p, now)
  ended : state.inFlight = false → openPending t.1.journal = none

/-- The machine is recoverable, and the engine agrees with it. -/
structure Durable (s : ModeTransitionEngine × AttachStateRecord) : Prop where
  recoverable : Recoverable (s.1.machine, s.2)
  agrees : Agrees (s.1.machine, s.2) s.1.state s.1.proposal s.1.snapshot

section Step

variable {options : EngineOptions} {e : ModeTransitionEngine} {base : AttachStateRecord}

theorem Durable.unwritten (h : Durable (e, base)) {proposal : TransitionProposalRecord}
    {s : TransitionSnapshot} (hproposal : e.proposal = some proposal)
    (hsnapshot : e.snapshot = some s) (hstate : e.state = .staged ∨ e.state = .verified) :
    Unwritten (e.machine, base) proposal ∧ StagedOn base s proposal := by
  obtain ⟨proposal', s', hproposal', hsnapshot', hstaged, hrecord, hclosed, hlast⟩ := h.agrees.staged hstate
  obtain rfl := Option.some.inj (hproposal.symm.trans hproposal')
  obtain rfl := Option.some.inj (hsnapshot.symm.trans hsnapshot')
  refine ⟨⟨hstaged.changes, hclosed, hlast, ?_⟩, hstaged⟩
  rw [hrecord]
  exact rolledBack_refl

theorem Durable.pend (h : Durable (e, base)) {proposal : TransitionProposalRecord}
    {s : TransitionSnapshot} (hstate : e.state = .verified) (hproposal : e.proposal = some proposal)
    (hsnapshot : e.snapshot = some s) (now : ℤ) :
    Recoverable (e.machine.appendJournal (.transitionCommitPending s proposal now), base) := by
  obtain ⟨hunwritten, hs⟩ := h.unwritten hproposal hsnapshot (Or.inr hstate)
  obtain ⟨-, -, -, -, -, hrecord, -, -⟩ := h.agrees.staged (Or.inr hstate)
  exact recoverable_pend hs hunwritten.last hrecord now

theorem Recoverable.durable {t : Tracked} (h : Recoverable t) (nextId : ℕ) :
    Durable (recover t.1 nextId, t.2) := by
  rw [recover]
  rcases hopen : openPending t.1.journal with _ | ⟨s, proposal, sinceMs⟩
  · exact ⟨h, by simp, by simp, fun _ ↦ hopen⟩
  · refine ⟨h, by simp [fireWindow], fun _ ↦ ⟨proposal, s, sinceMs, rfl, rfl, hopen⟩, ?_⟩
    simp [fireWindow, ModeTransitionEngineState.inFlight]

variable {proposal' : Option TransitionProposalRecord} {snapshot' : Option TransitionSnapshot}
  {state : ModeTransitionEngineState} {ws : List MachineWrite} {op : EngineOp}

section

variable (heffect : Effect e op ws state proposal' snapshot') (h : Durable (e, base))
  (htimely : Timely (e, base) (.live op))

include heffect h htimely

/-- Wherever an operation on time is killed, the machine is recoverable. -/
theorem Effect.throughout (hop : op.resolves = false) : RecoverableThroughout (e.machine, base) ws := by
  rcases heffect
  case quiet => trivial
  case stage input hstate hnew hposture proposal hto hscoped =>
    have hclosed : openPending e.machine.journal = none := h.agrees.ended hstate
    have hunwritten : Unwritten (e.machine.appendJournal (.transitionStage
        (takeSnapshot e.machine.record input.modeScopedFields hposture) proposal),
        e.machine.record) proposal := by
      refine ⟨?_, (openPending_concat ..).trans hclosed, lastTransition_concat .., rolledBack_refl⟩
      rw [hto]
      exact hnew
    exact ⟨hunwritten.recoverable, trivial⟩
  case judge => exact ⟨h.recoverable.journal (openPending_concat ..) rfl, trivial⟩
  case structural i s hattempt hsnapshot =>
    have hlive : e.state = .staged ∨ e.state = .verified := htimely.2 hattempt (by decide)
    obtain ⟨proposal, -, hproposal, -⟩ := h.agrees.staged hlive
    obtain ⟨hunwritten, hs⟩ := h.unwritten hproposal hsnapshot hlive
    have hjournaled := hunwritten.journal .structuralFail
    exact ⟨hjournaled.recoverable, hjournaled.rollbackWrites hs⟩
  case rollback s hlive hsnapshot =>
    obtain ⟨proposal, -, hproposal, -⟩ := h.agrees.staged hlive
    obtain ⟨hunwritten, hs⟩ := h.unwritten hproposal hsnapshot hlive
    exact hunwritten.rollbackWrites hs
  case abort | resolve => exact absurd (hop.symm.trans ‹op.resolves = true›) (by decide)
  case pend proposal s now hstate hproposal hsnapshot _ =>
    exact ⟨h.pend hstate hproposal hsnapshot now, trivial⟩
  case commit proposal s now hstate hproposal hsnapshot _ =>
    have hpend := h.pend hstate hproposal hsnapshot now
    exact ⟨hpend, hpend.commitWrites (openPending_concat ..)⟩
  case complete proposal hstate hproposal _ =>
    obtain ⟨proposal', s, now, hproposal', -, hopen⟩ := h.agrees.pending hstate
    obtain rfl := Option.some.inj (hproposal.symm.trans hproposal')
    exact h.recoverable.commitWrites hopen

theorem Effect.recoverable : Recoverable (StepMachine.run trackWrite (e.machine, base) ws) := by
  rcases hop : op.resolves
  · have hall := StepMachine.run_take_of_guarded h.recoverable (heffect.throughout h htimely hop)
      ws.length
    rwa [List.take_length] at hall
  rcases heffect
  case quiet => exact h.recoverable
  case abort s via hstate hsnapshot _ =>
    obtain ⟨proposal, s', now, -, hsnapshot', hopen⟩ := h.agrees.pending hstate
    obtain rfl := Option.some.inj (hsnapshot.symm.trans hsnapshot')
    exact h.recoverable.abort hopen via
  case resolve proposal via hstate hproposal _ =>
    obtain ⟨proposal', s, now, hproposal', -, hopen⟩ := h.agrees.pending hstate
    obtain rfl := Option.some.inj (hproposal.symm.trans hproposal')
    exact h.recoverable.resolve hopen via
  case pend | commit | complete =>
    exact absurd (hop.symm.trans ‹op.resolves = false›) (by decide)
  all_goals exact absurd hop (by simp [EngineOp.resolves])

/-- After an operation on time the engine still agrees with its machine. -/
theorem Effect.agrees : Agrees (StepMachine.run trackWrite (e.machine, base) ws) state proposal' snapshot' := by
  have hended : ∀ {t : Tracked} {state : ModeTransitionEngineState} {p s}, state.inFlight = false →
      openPending t.1.journal = none → Agrees t state p s := by
    intro t state p s hstate hclosed
    refine ⟨?_, ?_, fun _ ↦ hclosed⟩
    · rintro (rfl | rfl) <;> exact absurd hstate (by decide)
    · rintro rfl
      exact absurd hstate (by decide)
  have hrolled : ∀ {t : Tracked} {s p s'}, openPending t.1.journal = none →
      Agrees (StepMachine.run trackWrite t (TransitionSnapshot.rollbackWrites s)) .rolledBack p
        s' := by
    intro t s p s' hclosed
    refine hended rfl ?_
    rw [run_trackWrite_rollbackWrites]
    exact (openPending_concat ..).trans hclosed
  rcases heffect
  case quiet => exact h.agrees
  case stage input hstate hnew hposture proposal hto hscoped =>
    have hclosed : openPending e.machine.journal = none := h.agrees.ended hstate
    have hstaged : StagedOn e.machine.record
        (takeSnapshot e.machine.record input.modeScopedFields hposture) proposal := by
      refine ⟨?_, ?_, ?_⟩
      · rw [hto]
        exact hnew
      · rw [hscoped]
        exact htimely.2
      · rw [hscoped]
        exact ⟨hposture, rfl⟩
    exact ⟨fun _ ↦ ⟨proposal, _, rfl, rfl, hstaged, rfl, (openPending_concat ..).trans hclosed,
      lastTransition_concat ..⟩, by simp, by simp [ModeTransitionEngineState.inFlight]⟩
  case judge i how outcome hattempt hhow hstate =>
    obtain ⟨p, s, hproposal, hsnapshot, hstaged, hrecord, hclosed, hlast⟩ :=
      h.agrees.staged (htimely.2 hattempt hhow)
    refine ⟨fun _ ↦ ⟨p, s, hproposal, hsnapshot, hstaged, hrecord,
      (openPending_concat ..).trans hclosed, (lastTransition_concat ..).trans hlast⟩, ?_, ?_⟩
    · rcases hstate with rfl | rfl <;> simp
    · rcases hstate with rfl | rfl <;> simp [ModeTransitionEngineState.inFlight]
  case structural i s hattempt hsnapshot =>
    have hlive : e.state = .staged ∨ e.state = .verified := htimely.2 hattempt (by decide)
    obtain ⟨-, -, -, -, -, -, hclosed, -⟩ := h.agrees.staged hlive
    exact hrolled ((openPending_concat ..).trans hclosed)
  case rollback s hlive hsnapshot =>
    obtain ⟨-, -, -, -, -, -, hclosed, -⟩ := h.agrees.staged hlive
    exact hrolled hclosed
  case abort s via hstate hsnapshot hop => exact hrolled (openPending_concat ..)
  case pend proposal s now hstate hproposal hsnapshot hop =>
    refine ⟨by simp, fun _ ↦ ⟨proposal, s, now, hproposal, hsnapshot, openPending_concat ..⟩, ?_⟩
    simp [ModeTransitionEngineState.inFlight]
  case commit proposal s now hstate hproposal hsnapshot hop =>
    exact hended rfl (openPending_commitWrites _ proposal)
  case complete proposal hstate hproposal hop =>
    exact hended rfl (openPending_commitWrites _ proposal)
  case resolve proposal via hstate hproposal hop =>
    exact hended rfl (openPending_commitWrites _ proposal)

end

theorem Durable.step (h : Durable (e, base)) {op : DurableOp} (htimely : Timely (e, base) op) :
    Durable (durableStep options (e, base) op) := by
  obtain ⟨hmachine, heffect⟩ : Effected options e op.op := (stepped_all op.op).2
  rcases op
  case live op =>
    have hrun : ((e.step options op).machine,
        (StepMachine.run trackWrite (e.machine, base) (e.writes options op)).2)
        = StepMachine.run trackWrite (e.machine, base) (e.writes options op) := by
      refine Prod.ext ?_ rfl
      rw [run_trackWrite_fst]
      exact hmachine
    constructor
    · rw [durableStep, hrun]
      exact heffect.recoverable h htimely
    · rw [durableStep, hrun]
      exact heffect.agrees h htimely
  case kill op written =>
    have hkept := heffect.throughout h ⟨by simp [DurableOp.kills], htimely.2⟩ (htimely.1 rfl)
    exact Recoverable.durable (StepMachine.run_take_of_guarded h.recoverable hkept written) _

end Step

/-! ## What a fresh engine finds -/

namespace ModeTransitionEngine

variable (options : EngineOptions)

/-- Nothing is left to resume or to roll back: both verbs change nothing. -/
def Over (e : ModeTransitionEngine) : Prop :=
  e.step options .rollback = e ∧ ∀ pre mid now, e.step options (.resume pre mid now) = e

end ModeTransitionEngine

/-- What a fresh engine finds after a kill, and what its verbs do. -/
structure Untorn (options : EngineOptions) (s : ModeTransitionEngine × AttachStateRecord) :
    Prop where
  fresh : s.1.state = .idle ∨ s.1.state = .commitPending
  /-- The commit was under way: it is resumed, or aborted; a plain rollback is refused. -/
  pending : s.1.state = .commitPending → ∃ proposal,
    lastTransition s.1.machine.journal = some (proposal, .underway)
      ∧ s.1.step options .rollback = s.1
      ∧ (∀ pre mid now, (s.1.step options (.resume pre mid now)).state = .committed
        ∧ Committed proposal s.2 (s.1.step options (.resume pre mid now)).machine.record
        ∧ (s.1.step options (.resume pre mid now)).Over options)
      ∧ (s.1.step options (.forceResolvePending .abort)).state = .rolledBack
      ∧ Reverted proposal s.2 (s.1.step options (.forceResolvePending .abort)).machine.record
      ∧ (s.1.step options (.forceResolvePending .abort)).Over options
  /-- Nothing was under way: there is nothing to do, and the last transition has one outcome. -/
  idle : s.1.state = .idle → s.1.Over options
    ∧ Outcome s.2 (lastTransition s.1.machine.journal) s.1.machine.record
    ∧ ∀ proposal ending, lastTransition s.1.machine.journal = some (proposal, ending) →
      ¬ (Committed proposal s.2 s.1.machine.record ∧ RolledBack s.2 s.1.machine.record)

section Untorn

variable {options : EngineOptions} {e : ModeTransitionEngine} {base : AttachStateRecord}

theorem over_of_state (h : e.state = .idle ∨ e.state = .committed ∨ e.state = .rolledBack) :
    e.Over options := by
  constructor
  · rcases h with h | h | h <;> simp [step, apply, rollback, h]
  · intro pre mid now
    rcases h with h | h | h <;> simp [step, apply, resume, h]

theorem Durable.untorn (h : Durable (e, base)) (hfresh : e.state = .idle ∨ e.state = .commitPending) :
    Untorn options (e, base) := by
  refine ⟨hfresh, fun hstate ↦ ?_, fun hstate ↦ ⟨over_of_state (Or.inl hstate), ?_, ?_⟩⟩
  · have hstate : e.state = .commitPending := hstate
    obtain ⟨proposal, s, now, hproposal, hsnapshot, hopen⟩ := h.agrees.pending hstate
    obtain ⟨hstaged, hlast, hrecord⟩ := h.recoverable.opened _ hopen
    refine ⟨proposal, hlast, by simp [ModeTransitionEngine.step, apply, rollback, hstate], fun pre mid now ↦ ?_, ?_⟩
    · obtain ⟨e', hcommit, hcore, hmachine⟩ := completeCommit_spec hproposal
      have hcommitted : e'.state = .committed := congrArg Core.state hcore
      have hstep : e.step options (.resume pre mid now) = e' := by
        simp [ModeTransitionEngine.step, apply, resume, hstate, hcommit]
      have hrun := congrArg Prod.fst (run_trackWrite_commitWrites (e.machine, base) proposal)
      rw [run_trackWrite_fst] at hrun
      rw [hstep]
      refine ⟨hcommitted, ?_, over_of_state (Or.inr (Or.inl hcommitted))⟩
      rw [hmachine, hrun]
      exact hrecord.committed
    · obtain ⟨e', hrollback, hcore, hmachine⟩ := applyRollback_spec (s := s) (e := { e with
        machine := e.machine.appendJournal (.transitionResolve .abort .force)
        pendingSinceMs := none }) hsnapshot
      have hrolled : e'.state = .rolledBack := congrArg Core.state hcore
      have happly : e.apply options (.forceResolvePending .abort) = .ok e' := by
        rw [apply, forceResolvePending, if_neg (not_not.mpr hstate)]
        exact hrollback
      have hstep : e.step options (.forceResolvePending .abort) = e' := by
        rw [ModeTransitionEngine.step, happly]
      rw [hstep]
      refine ⟨hrolled, ?_, over_of_state (Or.inr (Or.inr hrolled))⟩
      rw [hmachine, run_rollbackWrites]
      exact hrecord.reverted hstaged
  · exact h.recoverable.closed (h.agrees.ended (by rw [hstate]; rfl))
  · rintro proposal ending hlast ⟨hcommitted, hrolled⟩
    exact hcommitted.not_rolledBack (h.recoverable.changes _ hlast) hrolled

theorem recover_fresh (m : ModeMachine) (nextId : ℕ) :
    (recover m nextId).state = .idle ∨ (recover m nextId).state = .commitPending := by
  rw [recover]
  split
  · exact Or.inl rfl
  · exact Or.inr rfl

end Untorn

theorem durable_fresh (record : AttachStateRecord) :
    Durable ({ machine := { record := record } }, record) where
  recoverable := ⟨by simp [lastTransition], by simp [openPending], fun _ ↦ rolledBack_refl⟩
  agrees := ⟨by simp, by simp, fun _ ↦ rfl⟩

/-- In every run on any record whose operations and kills are on time, every kill leaves something
a fresh engine can take up: no transition is torn. -/
theorem untorn_of_timely (options : EngineOptions) (record : AttachStateRecord)
    (ops : List DurableOp)
    (h : StepMachine.Guarded (durableStep options) Timely
      ({ machine := { record := record } }, record) ops) :
    StepMachine.Guarded (durableStep options)
      (fun s op ↦ op.kills = true → Untorn options (durableStep options s op))
      ({ machine := { record := record } }, record) ops := by
  refine h.of_invariant (I := Durable) (fun s op hdurable htimely ↦ hdurable.step htimely)
    (fun s op hdurable htimely hkills ↦ ?_) (durable_fresh record)
  have hnext : Durable (durableStep options s op) := hdurable.step htimely
  rcases op
  case live op => exact absurd hkills (by simp [DurableOp.kills])
  case kill op written => exact hnext.untorn (recover_fresh ..)

/-! ## Some runs -/

/-- A transition to fleet that applies an overlay field, on an empty record. -/
def fleetStage : StageInput := { toMode := .fleet, apply := some [("program", .string "b")] }

/-- The transition is verified, its commit is killed once the mode is written, and so is the resume
after it. -/
def killedTwice : List DurableOp :=
  [.live (.stage fleetStage), .live .verify, .live (.settle 0 .pass),
    .kill (.commit .proceed .proceed 0) 2, .kill (.resume .proceed .proceed 0) 3,
    .kill (.resume .proceed .proceed 0) 4]

/-- A commit killed once the mode is written, and its resume killed twice. -/
theorem untorn_killedTwice :
    StepMachine.Guarded (durableStep ⟨false, 0⟩)
      (fun s op ↦ op.kills = true → Untorn ⟨false, 0⟩ (durableStep ⟨false, 0⟩ s op))
      ({ machine := { record := ∅ } }, ∅) killedTwice :=
  untorn_of_timely ⟨false, 0⟩ ∅ killedTwice (by decide +kernel)

def durableRun (record : AttachStateRecord) (ops : List DurableOp) : ModeTransitionEngine :=
  (StepMachine.run (durableStep ⟨false, 0⟩) ({ machine := { record := record } }, record) ops).1

/-- Killed after the stage, the engine has nothing to resume or to roll back; killed in the middle
of a commit, it is not rolled back. A test that fails after the commit takes the mode back, but not
the overlay field. And a rollback to a mode field that names no mode passes through another mode. -/
theorem not_untorn_runs :
    (let e := durableRun ∅ [.kill (.stage fleetStage) 1];
      (e.step ⟨false, 0⟩ (.resume .proceed .proceed 0)).state = .idle
        ∧ (e.step ⟨false, 0⟩ .rollback).state = .idle)
      ∧ (let e := durableRun ∅ (killedTwice.take 4);
        (e.step ⟨false, 0⟩ .rollback).state = .commitPending)
      ∧ (let e := durableRun ∅ [.live (.stage fleetStage), .live .verify, .live .verify,
          .live (.settle 0 .pass), .live (.commit .proceed .proceed 0),
          .kill (.settle 1 .structuralFail) 9];
        e.state = .idle ∧ e.machine.resolve.mode = .standalone
          ∧ field e.machine.record "program" = .string "b")
      ∧ (let record := ((∅ : AttachStateRecord).set "posture" (.string "ok")).set "state" (.other 0);
        let e := durableRun record [.live (.stage { fleetStage with modeScopedFields := ["mode"] }),
          .kill .rollback 1];
        (resolveAttachState record).mode = .standalone ∧ e.state = .idle
          ∧ e.machine.resolve.mode = .fleet) := by
  decide +kernel

end Amicode.Attach
