import Amicode.Attach.Engine

/-!
# The writes of an operation

An operation of the engine is a sequence of writes to the machine: an entry of the journal, the
confirmed mode, the overlay fields, one restored field after the other. A kill falls between two of
them, and what survives it is the machine as it is then; so the fresh engine finds the machine after
a prefix of the writes.

`writes` lists the writes of an operation in the order of the source, and `Effect` what the
operation does to the state, the proposal and the snapshot; `Effected` ties both to the step.
-/

namespace Amicode.Attach

/-! ## Writes -/

/-- One write to the machine: an entry appended to the journal, or an assignment of the record. -/
inductive MachineWrite where
  | journal (entry : ModeJournalEntry)
  | confirm (mode : AttachMode)
  | overlay (patch : List (String × JsValue))
  | restore (e : String × JsValue)

def ModeMachine.write (m : ModeMachine) : MachineWrite → ModeMachine
  | .journal entry => m.appendJournal entry
  | .confirm mode => { m with record := mergeAttachState m.record (modePatch mode m.record) }
  | .overlay patch => m.overlayRewrite patch
  | .restore e => { m with record := restoreField m.record e }

/-- The writes of `applyRollback`. -/
def TransitionSnapshot.rollbackWrites (s : TransitionSnapshot) : List MachineWrite :=
  s.fields.entries.map .restore ++ [.journal (.transitionRollback s.mode)]

def TransitionProposalRecord.commitWrites (proposal : TransitionProposalRecord) :
    List MachineWrite :=
  .confirm proposal.toMode :: .journal (.humanConfirm proposal.toMode)
    :: ((proposal.apply.map .overlay).toList ++ [.journal (.transitionCommit proposal.toMode)])

namespace ModeTransitionEngine

variable (options : EngineOptions) (e : ModeTransitionEngine)

/-- The writes of a rollback to the snapshot at hand. -/
def rollbackWrites : List MachineWrite :=
  (e.snapshot.map TransitionSnapshot.rollbackWrites).getD []

/-- The writes of a commit of the proposal at hand, once it is pending. -/
def completeWrites : List MachineWrite :=
  (e.proposal.map TransitionProposalRecord.commitWrites).getD []

/-- The writes of `commit` from a verified transition. -/
def commitWrites (pre mid : HookResult) (now : ℤ) : List MachineWrite :=
  match e.proposal, e.snapshot, pre with
  | some proposal, some snapshot, .proceed =>
    .journal (.transitionCommitPending snapshot proposal now)
      :: if mid = .proceed then proposal.commitWrites else []
  | _, _, _ => []

def settleWrites : Settlement → List MachineWrite
  | .pass => [.journal (.transitionVerify .pass)]
  | .transientFail | .expired => [.journal (.transitionVerify .transientFail)]
  | .structuralFail =>
    if e.snapshot.isSome then .journal (.transitionVerify .structuralFail) :: e.rollbackWrites
    else []
  | .throws => []

def resolveWrites (action : ResolveAction) (via : ResolveVia) : List MachineWrite :=
  match action with
  | .resume =>
    if e.proposal.isSome then .journal (.transitionResolve action via) :: e.completeWrites else []
  | .abort =>
    if e.snapshot.isSome then .journal (.transitionResolve action via) :: e.rollbackWrites else []

def writes : EngineOp → List MachineWrite
  | .stage input =>
    if e.state.inFlight = true ∨ input.toMode = e.machine.resolve.mode then []
    else if h : "posture" ∈ input.modeScopedFields then []
    else [.journal (.transitionStage (takeSnapshot e.machine.record input.modeScopedFields h)
      { id := e.nextId, fromMode := e.machine.resolve.mode, toMode := input.toMode,
        apply := input.apply, modeScopedFields := input.modeScopedFields })]
  | .verify | .drainSettled _ _ => []
  | .settle i how =>
    if e.attempts[i]?.map VerifyAttempt.phase = some .testing then e.settleWrites how else []
  | .rollback => if e.state = .staged ∨ e.state = .verified then e.rollbackWrites else []
  | .commit pre mid now => if e.state = .verified then e.commitWrites pre mid now else []
  | .resume pre mid now =>
    if e.state = .verified then e.commitWrites pre mid now
    else if e.state = .commitPending then e.completeWrites
    else []
  | .resolvePending action now =>
    if e.state = .commitPending ∧ e.capElapsed options now = true then
      e.resolveWrites action .capChoice
    else []
  | .forceResolvePending action =>
    if e.state = .commitPending then e.resolveWrites action .force else []

end ModeTransitionEngine

/-- The verbs that resolve a pending transition. -/
def EngineOp.resolves : EngineOp → Bool
  | .resolvePending _ _ | .forceResolvePending _ => true
  | _ => false

open ModeTransitionEngine

/-- What an operation writes, and the state, the proposal and the snapshot it leaves. -/
inductive Effect (e : ModeTransitionEngine) : EngineOp → List MachineWrite →
    ModeTransitionEngineState → Option TransitionProposalRecord → Option TransitionSnapshot → Prop
  /-- It writes nothing. -/
  | quiet {op : EngineOp} : Effect e op [] e.state e.proposal e.snapshot
  | stage {input : StageInput} (hstate : e.state.inFlight = false)
      (hnew : input.toMode ≠ e.machine.resolve.mode) (h : "posture" ∉ input.modeScopedFields)
      {proposal : TransitionProposalRecord} (hto : proposal.toMode = input.toMode)
      (hscoped : proposal.modeScopedFields = input.modeScopedFields) :
      Effect e (.stage input)
        [.journal (.transitionStage (takeSnapshot e.machine.record input.modeScopedFields h)
          proposal)]
        .staged (some proposal) (some (takeSnapshot e.machine.record input.modeScopedFields h))
  /-- An attempt to verify passes, or fails for the time being. -/
  | judge {i : ℕ} {how : Settlement} {outcome : VerifyKind} {state : ModeTransitionEngineState}
      (hattempt : e.attempts[i]?.map VerifyAttempt.phase = some .testing)
      (hhow : how ≠ .throws) (hstate : state = .staged ∨ state = .verified) :
      Effect e (.settle i how) [.journal (.transitionVerify outcome)] state e.proposal e.snapshot
  | structural {i : ℕ} {s : TransitionSnapshot}
      (hattempt : e.attempts[i]?.map VerifyAttempt.phase = some .testing)
      (hsnapshot : e.snapshot = some s) :
      Effect e (.settle i .structuralFail)
        (.journal (.transitionVerify .structuralFail) :: s.rollbackWrites) .rolledBack e.proposal
        e.snapshot
  | rollback {s : TransitionSnapshot} (hstate : e.state = .staged ∨ e.state = .verified)
      (hsnapshot : e.snapshot = some s) :
      Effect e .rollback s.rollbackWrites .rolledBack e.proposal e.snapshot
  | abort {op : EngineOp} {s : TransitionSnapshot} {via : ResolveVia} (hop : op.resolves = true)
      (hstate : e.state = .commitPending) (hsnapshot : e.snapshot = some s) :
      Effect e op (.journal (.transitionResolve .abort via) :: s.rollbackWrites) .rolledBack
        e.proposal e.snapshot
  | pend {op : EngineOp} {proposal : TransitionProposalRecord} {s : TransitionSnapshot} {now : ℤ}
      (hop : op.resolves = false)
      (hstate : e.state = .verified) (hproposal : e.proposal = some proposal)
      (hsnapshot : e.snapshot = some s) :
      Effect e op [.journal (.transitionCommitPending s proposal now)] .commitPending e.proposal
        e.snapshot
  | commit {op : EngineOp} {proposal : TransitionProposalRecord} {s : TransitionSnapshot} {now : ℤ}
      (hop : op.resolves = false)
      (hstate : e.state = .verified) (hproposal : e.proposal = some proposal)
      (hsnapshot : e.snapshot = some s) :
      Effect e op (.journal (.transitionCommitPending s proposal now) :: proposal.commitWrites)
        .committed e.proposal e.snapshot
  | complete {op : EngineOp} {proposal : TransitionProposalRecord} (hop : op.resolves = false)
      (hstate : e.state = .commitPending) (hproposal : e.proposal = some proposal) :
      Effect e op proposal.commitWrites .committed e.proposal e.snapshot
  | resolve {op : EngineOp} {proposal : TransitionProposalRecord} {via : ResolveVia}
      (hop : op.resolves = true) (hstate : e.state = .commitPending)
      (hproposal : e.proposal = some proposal) :
      Effect e op (.journal (.transitionResolve .resume via) :: proposal.commitWrites) .committed
        e.proposal e.snapshot

/-- The writes of an operation are what it does to the machine, and they are one of the effects. -/
def Effected (options : EngineOptions) (e : ModeTransitionEngine) (op : EngineOp) : Prop :=
  (e.step options op).machine = StepMachine.run ModeMachine.write e.machine (e.writes options op)
    ∧ Effect e op (e.writes options op) (e.step options op).state (e.step options op).proposal
      (e.step options op).snapshot

theorem run_rollbackWrites (m : ModeMachine) (s : TransitionSnapshot) :
    StepMachine.run ModeMachine.write m s.rollbackWrites
      = ({ m with record := restored s m.record } : ModeMachine).appendJournal
        (.transitionRollback s.mode) := by
  have hrestore : ∀ (entries : List (String × JsValue)) (m : ModeMachine),
      StepMachine.run ModeMachine.write m (entries.map .restore)
        = { m with record := entries.foldl restoreField m.record } := by
    intro entries
    induction entries with
    | nil => exact fun m ↦ rfl
    | cons e entries ih =>
      intro m
      rw [List.map_cons, StepMachine.run_cons, ih]
      rfl
  rw [TransitionSnapshot.rollbackWrites, StepMachine.run_append, hrestore]
  rfl

theorem run_commitWrites (m : ModeMachine) (proposal : TransitionProposalRecord) :
    StepMachine.run ModeMachine.write m proposal.commitWrites
      = (match proposal.apply with
        | some patch => (m.confirmMode proposal.toMode).overlayRewrite patch
        | none => m.confirmMode proposal.toMode).appendJournal
          (.transitionCommit proposal.toMode) := by
  rw [TransitionProposalRecord.commitWrites]
  rcases proposal.apply with _ | patch <;> rfl

end Amicode.Attach
