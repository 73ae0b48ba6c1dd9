import Amicode.Attach.Writes

/-!
# What a step of the engine can do

An operation of the engine does one of a dozen things to what matters for its laws: the record, the
commit-pending entry the journal leaves open, the snapshot and the proposal, the state, the attempts
and the window (`Core`). `Move` lists them, with the guards under which the source does them and with what
is observed of them, and `stepped_all` says that the list is complete. The laws are then proved move
by move.
-/

namespace Amicode.Attach

/-- What the laws of the engine are about. -/
structure Core where
  record : AttachStateRecord
  pending : Option (TransitionSnapshot × TransitionProposalRecord)
  snapshot : Option TransitionSnapshot
  proposal : Option TransitionProposalRecord
  state : ModeTransitionEngineState
  attempts : List VerifyAttempt
  nextId : ℕ
  windowOpen : Bool
  notified : List Bool

/-- The window is opened or closed. -/
def Core.fire (c : Core) (isOpen : Bool) : Core :=
  { c with
    windowOpen := isOpen
    notified := if isOpen = c.windowOpen then c.notified else c.notified ++ [isOpen] }

/-- What can be observed of an operation: a proposal is staged, an attempt to verify it starts or
passes, a snapshot is put back. -/
inductive TransitionEvent where
  | stage (id : ℕ)
  | start (attempt id : ℕ)
  | pass (attempt id : ℕ)
  | rollback
deriving DecidableEq

/-- The operations that can commit. -/
def EngineOp.commits : EngineOp → Bool
  | .commit _ _ _ | .resume _ _ _ | .resolvePending .resume _ | .forceResolvePending .resume => true
  | _ => false

/-- The record after a commit: the mode is confirmed, and the overlay fields applied. -/
def committedRecord (proposal : TransitionProposalRecord) (m : ModeMachine) : AttachStateRecord :=
  match proposal.apply with
  | some patch => ((m.confirmMode proposal.toMode).overlayRewrite patch).record
  | none => (m.confirmMode proposal.toMode).record

namespace ModeTransitionEngine

variable (options : EngineOptions)

def core (e : ModeTransitionEngine) : Core :=
  { record := e.machine.record
    pending := (openPending e.machine.journal).map fun p ↦ (p.1, p.2.1)
    snapshot := e.snapshot
    proposal := e.proposal
    state := e.state
    attempts := e.attempts
    nextId := e.nextId
    windowOpen := e.windowOpen
    notified := e.notified }

/-- The snapshot an operation puts back, if it puts one back. -/
def restoring (e : ModeTransitionEngine) : EngineOp → Option TransitionSnapshot
  | .rollback => if e.state = .staged ∨ e.state = .verified then e.snapshot else none
  | .settle i .structuralFail =>
    if (e.attempts[i]?.map VerifyAttempt.phase) = some .testing then e.snapshot else none
  | .resolvePending .abort now =>
    if e.state = .commitPending ∧ e.capElapsed options now = true then e.snapshot else none
  | .forceResolvePending .abort => if e.state = .commitPending then e.snapshot else none
  | _ => none

/-- What is observed of an operation that does not throw. -/
def observed (e : ModeTransitionEngine) : EngineOp → List TransitionEvent
  | .stage _ => [.stage e.nextId]
  | .verify => (e.proposal.map fun proposal ↦ .start e.attempts.length proposal.id).toList
  | .settle i .pass => (e.attempts[i]?.map fun attempt ↦ .pass i attempt.transitionId).toList
  | op => if (e.restoring options op).isSome then [.rollback] else []

/-- What is observed of an operation. -/
def events (e : ModeTransitionEngine) (op : EngineOp) : List TransitionEvent :=
  match e.apply options op with
  | .ok _ => e.observed options op
  | .error _ => []

end ModeTransitionEngine

open ModeTransitionEngine

/-- What an operation does to the core of an engine, and what is observed of it. -/
inductive Move (options : EngineOptions) (e : ModeTransitionEngine) :
    EngineOp → Core → List TransitionEvent → Prop
  /-- It throws, or it touches nothing that matters. -/
  | still {op : EngineOp} (hnone : e.restoring options op = none) : Move options e op e.core []
  | stage {input : StageInput} (hstate : e.state.inFlight = false)
      (hnew : input.toMode ≠ e.machine.resolve.mode) (h : "posture" ∉ input.modeScopedFields)
      {proposal : TransitionProposalRecord} (hid : proposal.id = e.nextId)
      (hto : proposal.toMode = input.toMode) :
      Move options e (.stage input) { e.core with
        state := .staged
        proposal := some proposal
        snapshot := some (takeSnapshot e.machine.record input.modeScopedFields h)
        nextId := e.nextId + 1 } [.stage e.nextId]
  | startDrain {proposal : TransitionProposalRecord}
      (hstate : e.state = .staged ∨ e.state = .verified) (hproposal : e.proposal = some proposal) :
      Move options e .verify { e.core with attempts := e.attempts ++ [⟨proposal.id, .draining⟩] }
        [.start e.attempts.length proposal.id]
  | start {proposal : TransitionProposalRecord}
      (hstate : e.state = .staged ∨ e.state = .verified) (hproposal : e.proposal = some proposal) :
      Move options e .verify
        (({ e.core with attempts := e.attempts ++ [⟨proposal.id, .testing⟩] } : Core).fire true)
        [.start e.attempts.length proposal.id]
  | drain {i id : ℕ} (hattempt : e.attempts[i]? = some ⟨id, .draining⟩) :
      Move options e (.drainSettled i true)
        (({ e.core with attempts := e.attempts.set i ⟨id, .testing⟩ } : Core).fire true) []
  | undrained {i id : ℕ} (hattempt : e.attempts[i]? = some ⟨id, .draining⟩) :
      Move options e (.drainSettled i false)
        { e.core with attempts := e.attempts.set i ⟨id, .settled⟩ } []
  | pass {i id : ℕ} (hattempt : e.attempts[i]? = some ⟨id, .testing⟩) :
      Move options e (.settle i .pass) { e.core with
        attempts := e.attempts.set i ⟨id, .settled⟩, state := .verified } [.pass i id]
  | transient {i id : ℕ} {how : Settlement} (hhow : how = .transientFail ∨ how = .expired)
      (hattempt : e.attempts[i]? = some ⟨id, .testing⟩) :
      Move options e (.settle i how) (({ e.core with
        attempts := e.attempts.set i ⟨id, .settled⟩, state := .staged } : Core).fire false) []
  | rejected {i id : ℕ} (hattempt : e.attempts[i]? = some ⟨id, .testing⟩) :
      Move options e (.settle i .throws)
        { e.core with attempts := e.attempts.set i ⟨id, .settled⟩ } []
  | structural {i id : ℕ} {s : TransitionSnapshot}
      (hattempt : e.attempts[i]? = some ⟨id, .testing⟩) (hsnapshot : e.snapshot = some s)
      (hrestoring : e.restoring options (.settle i .structuralFail) = some s) :
      Move options e (.settle i .structuralFail) (({ e.core with
        attempts := e.attempts.set i ⟨id, .settled⟩
        record := restored s e.machine.record
        state := .rolledBack } : Core).fire false) [.rollback]
  | rollback {s : TransitionSnapshot} (hstate : e.state = .staged ∨ e.state = .verified)
      (hsnapshot : e.snapshot = some s) (hrestoring : e.restoring options .rollback = some s) :
      Move options e .rollback (({ e.core with
        record := restored s e.machine.record, state := .rolledBack } : Core).fire false) [.rollback]
  | abort {op : EngineOp} {s : TransitionSnapshot} (hstate : e.state = .commitPending)
      (hsnapshot : e.snapshot = some s) (hrestoring : e.restoring options op = some s) :
      Move options e op (({ e.core with
        record := restored s e.machine.record
        state := .rolledBack
        pending := none } : Core).fire false) [.rollback]
  | pend {op : EngineOp} {proposal : TransitionProposalRecord} {s : TransitionSnapshot}
      (hstate : e.state = .verified) (hproposal : e.proposal = some proposal)
      (hsnapshot : e.snapshot = some s) (hnone : e.restoring options op = none) :
      Move options e op { e.core with state := .commitPending, pending := some (s, proposal) } []
  | commit {op : EngineOp} {proposal : TransitionProposalRecord}
      (hstate : e.state = .verified ∨ e.state = .commitPending)
      (hproposal : e.proposal = some proposal) (hop : op.commits = true) :
      Move options e op (({ e.core with
        record := committedRecord proposal e.machine
        state := .committed
        pending := none } : Core).fire false) []

/-- The move an operation makes. -/
def Moves (options : EngineOptions) (e : ModeTransitionEngine) (op : EngineOp) : Prop :=
  Move options e op (e.step options op).core (e.events options op)

namespace ModeTransitionEngine

variable {options : EngineOptions} {e : ModeTransitionEngine}

theorem openPending_concat (journal : List ModeJournalEntry) (entry : ModeJournalEntry) :
    openPending (journal ++ [entry]) = match entry with
      | .transitionCommitPending snapshot proposal sinceMs => some (snapshot, proposal, sinceMs)
      | .transitionCommit _ | .transitionResolve _ _ => none
      | .humanConfirm _ | .transitionStage _ _ | .transitionVerify _ | .transitionRollback _ =>
        openPending journal := by
  rw [openPending, List.foldl_concat]
  rfl

/-- A rollback puts the snapshot back, and leaves what the journal leaves open. -/
theorem applyRollback_spec {s : TransitionSnapshot} (h : e.snapshot = some s) :
    ∃ e', e.applyRollback = .ok e' ∧ e'.core = ({ e.core with
      record := restored s e.machine.record, state := .rolledBack } : Core).fire false
      ∧ e'.machine = StepMachine.run ModeMachine.write e.machine s.rollbackWrites := by
  rw [applyRollback, h]
  dsimp only
  rw [restoreModeScoped_eq, run_rollbackWrites]
  refine ⟨_, rfl, ?_, rfl⟩
  simp [core, Core.fire, fireWindow, h, ModeMachine.appendJournal, openPending_concat]

/-- A commit writes the record, and closes what the journal leaves open. -/
theorem completeCommit_spec {proposal : TransitionProposalRecord}
    (h : e.proposal = some proposal) : ∃ e', e.completeCommit = .ok e' ∧ e'.core =
      ({ e.core with
        record := committedRecord proposal e.machine
        state := .committed
        pending := none } : Core).fire false
      ∧ e'.machine = StepMachine.run ModeMachine.write e.machine proposal.commitWrites := by
  rw [completeCommit, h, run_commitWrites]
  refine ⟨_, rfl, ?_, rfl⟩
  rcases happly : proposal.apply with _ | patch <;>
    simp [core, Core.fire, fireWindow, committedRecord, happly, h, ModeMachine.appendJournal,
      openPending_concat]

variable {op : EngineOp}

/-- An operation makes one of the moves, and its writes have one of the effects. -/
def Stepped (options : EngineOptions) (e : ModeTransitionEngine) (op : EngineOp) : Prop :=
  Moves options e op ∧ Effected options e op

theorem stepped_of_error {message : String} (h : e.apply options op = .error message)
    (hnone : e.restoring options op = none) (hwrites : e.writes options op = []) :
    Stepped options e op := by
  rw [Stepped, Moves, Effected, step, events, h, hwrites]
  exact ⟨.still hnone, rfl, .quiet⟩

theorem stepped_of_ok {e' : ModeTransitionEngine} {c : Core} {observations : List TransitionEvent}
    {ws : List MachineWrite} (h : e.apply options op = .ok e') (hcore : e'.core = c)
    (hobserved : e.observed options op = observations) (hmove : Move options e op c observations)
    (hwrites : e.writes options op = ws)
    (hmachine : e'.machine = StepMachine.run ModeMachine.write e.machine ws)
    (heffect : Effect e op ws c.state c.proposal c.snapshot) : Stepped options e op := by
  subst hcore
  rw [Stepped, Moves, Effected, step, events, h, hwrites]
  rw [hobserved]
  exact ⟨hmove, hmachine, heffect⟩

/-! ## One lemma for each operation -/

theorem stepped_stage (input : StageInput) : Stepped options e (.stage input) := by
  have happly : e.apply options (.stage input) = e.stage input := rfl
  rw [stage] at happly
  split_ifs at happly with hflight hsame hposture
  · exact stepped_of_error happly rfl (by simp [writes, hflight])
  · exact stepped_of_error happly rfl (by simp [writes, hsame])
  · exact stepped_of_error happly rfl (by simp [writes, hposture])
  · have hflight' : e.state.inFlight = false := by simpa using hflight
    have hmove : Move options e (.stage input) _ _ := .stage hflight' hsame hposture
      (show (⟨e.nextId, e.machine.resolve.mode, input.toMode, input.apply,
        input.modeScopedFields⟩ : TransitionProposalRecord).id = e.nextId from rfl) rfl
    refine stepped_of_ok happly ?_ rfl hmove ?_ rfl (.stage hflight' hsame hposture rfl rfl)
    · simp [core, ModeMachine.appendJournal, openPending_concat]
    · rw [writes, if_neg (by simp [hflight', hsame]), dif_neg hposture]

theorem stepped_verify : Stepped options e .verify := by
  have hstart : ∀ proposal, e.state = .staged ∨ e.state = .verified → e.proposal = some proposal →
      Stepped options e .verify := by
    intro proposal hstate hproposal
    have hobserved : e.observed options .verify = [.start e.attempts.length proposal.id] := by
      simp [observed, hproposal]
    rcases hdrains : options.drains with _ | _
    · have happly : e.apply options .verify = .ok (fireWindow true
          { e with attempts := e.attempts ++ [⟨proposal.id, .testing⟩] }) := by
        rcases hstate with hstate | hstate <;>
          simp [apply, verify, hstate, hproposal, hdrains]
      exact stepped_of_ok happly rfl hobserved (.start hstate hproposal) rfl rfl .quiet
    · have happly : e.apply options .verify
          = .ok { e with attempts := e.attempts ++ [⟨proposal.id, .draining⟩] } := by
        rcases hstate with hstate | hstate <;>
          simp [apply, verify, hstate, hproposal, hdrains]
      exact stepped_of_ok happly rfl hobserved (.startDrain hstate hproposal) rfl rfl .quiet
  rcases hproposal : e.proposal with _ | proposal
  · have hthrows : ∃ message, e.apply options .verify = .error message := by
      rcases hstate : e.state <;> simp [apply, verify, hstate, hproposal]
    obtain ⟨message, hthrows⟩ := hthrows
    exact stepped_of_error hthrows rfl rfl
  · rcases hstate : e.state
    case staged => exact hstart proposal (Or.inl hstate) hproposal
    case verified => exact hstart proposal (Or.inr hstate) hproposal
    all_goals
      have hthrows : ∃ message, e.apply options .verify = .error message := by
        simp [apply, verify, hstate, hproposal]
      obtain ⟨message, hthrows⟩ := hthrows
      exact stepped_of_error hthrows rfl rfl

theorem stepped_drainSettled (i : ℕ) (drained : Bool) :
    Stepped options e (.drainSettled i drained) := by
  have happly : e.apply options (.drainSettled i drained) = e.drainSettled i drained := rfl
  rw [drainSettled] at happly
  rcases hattempt : e.attempts[i]? with _ | ⟨id, phase⟩
  · rw [hattempt] at happly
    exact stepped_of_error happly rfl rfl
  · rw [hattempt] at happly
    rcases phase with _ | _ | _
    · rcases drained with _ | _
      · exact stepped_of_ok happly rfl rfl (.undrained hattempt) rfl rfl .quiet
      · exact stepped_of_ok happly rfl rfl (.drain hattempt) rfl rfl .quiet
    · exact stepped_of_error happly rfl rfl
    · exact stepped_of_error happly rfl rfl

theorem stepped_settle (i : ℕ) (how : Settlement) : Stepped options e (.settle i how) := by
  have happly : e.apply options (.settle i how) = e.settle i how := rfl
  rw [settle] at happly
  by_cases htesting : (e.attempts[i]?.map VerifyAttempt.phase) = some .testing
  · have hwrites : e.writes options (.settle i how) = e.settleWrites how := by
      rw [writes, if_pos htesting]
    obtain ⟨⟨id, phase⟩, hattempt, rfl⟩ := Option.map_eq_some_iff.mp htesting
    rw [hattempt] at happly
    rcases how
    case pass =>
      refine stepped_of_ok happly ?_ (by simp [observed, hattempt]) (.pass hattempt) hwrites rfl
        (.judge htesting (by decide) (Or.inr rfl))
      simp [core, journalVerify, ModeMachine.appendJournal, openPending_concat]
    case transientFail =>
      refine stepped_of_ok happly ?_ rfl (.transient (Or.inl rfl) hattempt) hwrites rfl
        (.judge htesting (by decide) (Or.inl rfl))
      simp [core, Core.fire, fireWindow, journalVerify, ModeMachine.appendJournal,
        openPending_concat]
    case expired =>
      refine stepped_of_ok happly ?_ rfl (.transient (Or.inr rfl) hattempt) hwrites rfl
        (.judge htesting (by decide) (Or.inl rfl))
      simp [core, Core.fire, fireWindow, journalVerify, ModeMachine.appendJournal,
        openPending_concat]
    case throws => exact stepped_of_ok happly rfl rfl (.rejected hattempt) hwrites rfl .quiet
    case structuralFail =>
      rcases hsnapshot : e.snapshot with _ | s
      · have hthrows : e.apply options (.settle i .structuralFail) = .error "no snapshot" := by
          simp [apply, settle, hattempt, applyRollback, journalVerify, hsnapshot]
        exact stepped_of_error hthrows (by simp [restoring, hsnapshot])
          (by simp [hwrites, settleWrites, hsnapshot])
      · have hrestoring : e.restoring options (.settle i .structuralFail) = some s := by
          rw [restoring, if_pos htesting, hsnapshot]
        obtain ⟨e', hrollback, hcore, hmachine⟩ := applyRollback_spec (s := s) (e := journalVerify
          .structuralFail { e with attempts := e.attempts.set i ⟨id, .settled⟩ }) hsnapshot
        have hlist : e.writes options (.settle i .structuralFail)
            = .journal (.transitionVerify .structuralFail) :: s.rollbackWrites := by
          simp [hwrites, settleWrites, rollbackWrites, hsnapshot]
        refine stepped_of_ok (happly.trans hrollback) (hcore.trans ?_) (by simp [observed, hrestoring])
          (.structural hattempt hsnapshot hrestoring) hlist hmachine (.structural htesting hsnapshot)
        simp [core, journalVerify, ModeMachine.appendJournal, openPending_concat]
  · have hthrows : ∃ message, e.apply options (.settle i how) = .error message := by
      rcases hattempt : e.attempts[i]? with _ | ⟨id, phase⟩
      · simp [apply, settle, hattempt]
      · rcases phase with _ | _ | _
        · simp [apply, settle, hattempt]
        · exact absurd (by rw [hattempt]; rfl) htesting
        · simp [apply, settle, hattempt]
    obtain ⟨message, hthrows⟩ := hthrows
    refine stepped_of_error hthrows ?_ (if_neg htesting)
    rcases how <;> simp [restoring, htesting]

theorem stepped_rollback : Stepped options e .rollback := by
  have happly : e.apply options .rollback = e.rollback := rfl
  by_cases hlive : e.state = .staged ∨ e.state = .verified
  · have hrollback : e.rollback = e.applyRollback := by
      rcases hlive with hstate | hstate <;> rw [rollback, hstate]
    have hwrites : e.writes options .rollback = e.rollbackWrites := if_pos hlive
    rcases hsnapshot : e.snapshot with _ | s
    · have hthrows : e.apply options .rollback = .error "no snapshot" := by
        rw [happly, hrollback, applyRollback, hsnapshot]
      exact stepped_of_error hthrows (by simp [restoring, hsnapshot])
        (by simp [hwrites, rollbackWrites, hsnapshot])
    · have hrestoring : e.restoring options .rollback = some s := by
        rw [restoring, if_pos hlive, hsnapshot]
      obtain ⟨e', happlied, hcore, hmachine⟩ := applyRollback_spec hsnapshot
      exact stepped_of_ok (happly.trans (hrollback.trans happlied)) hcore
        (by simp [observed, hrestoring]) (.rollback hlive hsnapshot hrestoring)
        (by simp [hwrites, rollbackWrites, hsnapshot]) hmachine (.rollback hlive hsnapshot)
  · have hnone : e.restoring options .rollback = none := by rw [restoring, if_neg hlive]
    have hwrites : e.writes options .rollback = [] := if_neg hlive
    rcases hstate : e.state
    case rolledBack =>
      have hidempotent : e.apply options .rollback = .ok e := by rw [happly, rollback, hstate]
      exact stepped_of_ok hidempotent rfl (by simp [observed, hnone]) (.still hnone) hwrites rfl .quiet
    case staged => exact absurd (Or.inl hstate) hlive
    case verified => exact absurd (Or.inr hstate) hlive
    all_goals
      rw [rollback, hstate] at happly
      exact stepped_of_error happly hnone hwrites

theorem restoring_of_commits (hop : op.commits = true) :
    e.restoring options op = none ∧ e.observed options op = [] := by
  rw [EngineOp.commits.eq_def] at hop
  split at hop
  · exact ⟨rfl, rfl⟩
  · exact ⟨rfl, rfl⟩
  · exact ⟨rfl, rfl⟩
  · exact ⟨rfl, rfl⟩
  · exact absurd hop (by decide)

/-- What a commit writes before it completes. -/
def pendingCommit (s : TransitionSnapshot) (proposal : TransitionProposalRecord) (now : ℤ)
    (e : ModeTransitionEngine) : ModeTransitionEngine :=
  { e with
    machine := e.machine.appendJournal (.transitionCommitPending s proposal now)
    state := .commitPending
    pendingSinceMs := some now }

theorem commit_eq {s : TransitionSnapshot} {proposal : TransitionProposalRecord}
    (hstate : e.state = .verified) (hproposal : e.proposal = some proposal)
    (hsnapshot : e.snapshot = some s) (pre mid : HookResult) (now : ℤ) :
    commit pre mid now e = match pre with
      | .halt => .ok { e with haltedAt := some .preCommit }
      | .crash => .ok e
      | .proceed => match mid with
        | .halt => .ok { e.pendingCommit s proposal now with haltedAt := some .midCommit }
        | .crash => .ok (e.pendingCommit s proposal now)
        | .proceed => (e.pendingCommit s proposal now).completeCommit := by
  rw [commit, if_neg (not_not.mpr hstate)]
  split
  next proposal' s' hproposal' hsnapshot' =>
    obtain rfl := Option.some.inj (hproposal'.symm.trans hproposal)
    obtain rfl := Option.some.inj (hsnapshot'.symm.trans hsnapshot)
    rfl
  next hnone => exact absurd hsnapshot (hnone proposal s hproposal)

theorem core_pendingCommit (s : TransitionSnapshot) (proposal : TransitionProposalRecord)
    (now : ℤ) : (e.pendingCommit s proposal now).core
      = { e.core with state := .commitPending, pending := some (s, proposal) } := by
  simp [core, pendingCommit, ModeMachine.appendJournal, openPending_concat]

/-- A commit stops at one of its two boundaries, or goes through, whatever halt the engine remembers. -/
theorem stepped_commitFrom (pre mid : HookResult) (now : ℤ) (halted : Option HaltPoint)
    (hstate : e.state = .verified)
    (happly : e.apply options op = commit pre mid now { e with haltedAt := halted })
    (hop : op.commits = true) (hresolves : op.resolves = false)
    (hwrites : e.writes options op = e.commitWrites pre mid now) : Stepped options e op := by
  obtain ⟨hnone, hobserved⟩ : e.restoring options op = none ∧ e.observed options op = [] :=
    restoring_of_commits hop
  rcases hproposal : e.proposal with _ | proposal
  · have hthrows : e.apply options op = .error "no transition" := by
      simp [happly, commit, hstate, hproposal]
    exact stepped_of_error hthrows hnone (by simp [hwrites, commitWrites, hproposal])
  rcases hsnapshot : e.snapshot with _ | s
  · have hthrows : e.apply options op = .error "no transition" := by
      simp [happly, commit, hstate, hproposal, hsnapshot]
    exact stepped_of_error hthrows hnone (by simp [hwrites, commitWrites, hproposal, hsnapshot])
  rw [commit_eq (e := { e with haltedAt := halted }) hstate hproposal hsnapshot] at happly
  rw [commitWrites.eq_def, hproposal, hsnapshot] at hwrites
  have hpend : (pendingCommit s proposal now { e with haltedAt := halted }).core
      = { e.core with state := .commitPending, pending := some (s, proposal) } := core_pendingCommit ..
  have hpending : ∀ {e'}, e.apply options op = .ok e' → e'.core = _ → e'.machine = _ →
      e.writes options op = [.journal (.transitionCommitPending s proposal now)] →
      Stepped options e op := fun happly hcore hmachine hwrites ↦
    stepped_of_ok happly (hcore.trans hpend) hobserved (.pend hstate hproposal hsnapshot hnone)
      hwrites hmachine (.pend hresolves hstate hproposal hsnapshot)
  rcases pre
  case halt => exact stepped_of_ok happly rfl hobserved (.still hnone) hwrites rfl .quiet
  case crash => exact stepped_of_ok happly rfl hobserved (.still hnone) hwrites rfl .quiet
  case proceed =>
    rcases mid
    case halt => exact hpending happly rfl rfl hwrites
    case crash => exact hpending happly rfl rfl hwrites
    case proceed =>
      obtain ⟨e', hcommit, hcore, hmachine⟩ := completeCommit_spec
        (e := pendingCommit s proposal now { e with haltedAt := halted }) hproposal
      rw [hpend] at hcore
      exact stepped_of_ok (happly.trans hcommit) hcore hobserved
        (.commit (Or.inl hstate) hproposal hop) hwrites hmachine
        (.commit hresolves hstate hproposal hsnapshot)

theorem stepped_commit (pre mid : HookResult) (now : ℤ) :
    Stepped options e (.commit pre mid now) := by
  by_cases hstate : e.state = .verified
  · exact stepped_commitFrom pre mid now e.haltedAt hstate rfl rfl rfl (if_pos hstate)
  · have happly : e.apply options (.commit pre mid now) = commit pre mid now e := rfl
    rw [commit, if_pos hstate] at happly
    exact stepped_of_error happly rfl (if_neg hstate)

theorem stepped_resume (pre mid : HookResult) (now : ℤ) :
    Stepped options e (.resume pre mid now) := by
  have happly : e.apply options (.resume pre mid now) = e.resume pre mid now := rfl
  rcases hstate : e.state
  case verified =>
    rw [resume, hstate] at happly
    exact stepped_commitFrom pre mid now none hstate (by rw [happly, hstate]) rfl rfl (if_pos hstate)
  case commitPending =>
    have hwrites : e.writes options (.resume pre mid now) = e.completeWrites := by
      rw [writes, if_neg (by simp [hstate]), if_pos hstate]
    rw [resume, hstate] at happly
    rcases hproposal : e.proposal with _ | proposal
    · have hthrows : e.apply options (.resume pre mid now) = .error "no proposal" := by
        rw [happly, completeCommit, hproposal]
      exact stepped_of_error hthrows rfl (by simp [hwrites, completeWrites, hproposal])
    · obtain ⟨e', hcommit, hcore, hmachine⟩ := completeCommit_spec hproposal
      exact stepped_of_ok (happly.trans hcommit) hcore rfl (.commit (Or.inr hstate) hproposal rfl)
        (by simp [hwrites, completeWrites, hproposal]) hmachine (.complete rfl hstate hproposal)
  all_goals
    rw [resume, hstate] at happly
    exact stepped_of_error happly rfl (by simp [writes, hstate])

variable (action : ResolveAction)

/-- The two verbs that resolve a pending transition do the same, once they go ahead. -/
theorem stepped_resolvePendingVia (via : ResolveVia) (hstate : e.state = .commitPending)
    (happly : e.apply options op = e.resolvePendingVia action via) (hobserved : e.observed options op
      = if (e.restoring options op).isSome then [.rollback] else [])
    (hrestoring : e.restoring options op = if action = .abort then e.snapshot else none)
    (hcommits : action = .resume → op.commits = true) (hresolves : op.resolves = true)
    (hwrites : e.writes options op = e.resolveWrites action via) : Stepped options e op := by
  rcases action
  case abort =>
    rw [if_pos rfl] at hrestoring
    rcases hsnapshot : e.snapshot with _ | s
    · have hthrows : e.apply options op = .error "no snapshot" := by
        simp [happly, resolvePendingVia, applyRollback, hsnapshot]
      exact stepped_of_error hthrows (hrestoring.trans hsnapshot)
        (by simp [hwrites, resolveWrites, hsnapshot])
    · rw [hsnapshot] at hrestoring
      rw [hrestoring, Option.isSome_some, if_pos rfl] at hobserved
      obtain ⟨e', hrollback, hcore, hmachine⟩ := applyRollback_spec (s := s) (e := { e with
        machine := e.machine.appendJournal (.transitionResolve .abort via)
        pendingSinceMs := none }) hsnapshot
      have hlist : e.writes options op
          = .journal (.transitionResolve .abort via) :: s.rollbackWrites := by
        simp [hwrites, resolveWrites, rollbackWrites, hsnapshot]
      refine stepped_of_ok (happly.trans hrollback) (hcore.trans ?_) hobserved
        (.abort hstate hsnapshot hrestoring) hlist hmachine (.abort hresolves hstate hsnapshot)
      simp [core, ModeMachine.appendJournal, openPending_concat]
  case resume =>
    obtain ⟨hnone, hnothing⟩ : e.restoring options op = none ∧ e.observed options op = [] :=
      restoring_of_commits (hcommits rfl)
    rcases hproposal : e.proposal with _ | proposal
    · have hthrows : e.apply options op = .error "no proposal" := by
        simp [happly, resolvePendingVia, completeCommit, hproposal]
      exact stepped_of_error hthrows hnone (by simp [hwrites, resolveWrites, hproposal])
    · obtain ⟨e', hcommit, hcore, hmachine⟩ := completeCommit_spec (e := { e with
        machine := e.machine.appendJournal (.transitionResolve .resume via)
        pendingSinceMs := none }) hproposal
      have hlist : e.writes options op
          = .journal (.transitionResolve .resume via) :: proposal.commitWrites := by
        simp [hwrites, resolveWrites, completeWrites, hproposal]
      exact stepped_of_ok (happly.trans hcommit) hcore hnothing
        (.commit (Or.inr hstate) hproposal (hcommits rfl)) hlist hmachine
        (.resolve hresolves hstate hproposal)

theorem stepped_resolvePending (now : ℤ) : Stepped options e (.resolvePending action now) := by
  have happly : e.apply options (.resolvePending action now)
      = e.resolvePending options action now := rfl
  rw [resolvePending] at happly
  by_cases hstate : e.state = .commitPending
  · rw [if_neg (not_not.mpr hstate)] at happly
    rcases hcap : e.capElapsed options now
    · rw [hcap] at happly
      refine stepped_of_error happly ?_ (by simp [writes, hcap])
      rcases action <;> simp [restoring, hcap]
    · rw [hcap] at happly
      refine stepped_resolvePendingVia action .capChoice hstate happly rfl ?_ ?_ rfl
        (if_pos ⟨hstate, hcap⟩)
      · rcases action <;> simp [restoring, hstate, hcap]
      · rintro rfl
        rfl
  · rw [if_pos hstate] at happly
    refine stepped_of_error happly ?_ (by simp [writes, hstate])
    rcases action <;> simp [restoring, hstate]

theorem stepped_forceResolvePending : Stepped options e (.forceResolvePending action) := by
  have happly : e.apply options (.forceResolvePending action)
      = e.forceResolvePending action := rfl
  rw [forceResolvePending] at happly
  by_cases hstate : e.state = .commitPending
  · rw [if_neg (not_not.mpr hstate)] at happly
    refine stepped_resolvePendingVia action .force hstate happly rfl ?_ ?_ rfl (if_pos hstate)
    · rcases action <;> simp [restoring, hstate]
    · rintro rfl
      rfl
  · rw [if_pos hstate] at happly
    refine stepped_of_error happly ?_ (if_neg hstate)
    rcases action <;> simp [restoring, hstate]

theorem stepped_all (op : EngineOp) : Stepped options e op := by
  rcases op
  case stage input => exact stepped_stage input
  case verify => exact stepped_verify
  case drainSettled i drained => exact stepped_drainSettled i drained
  case settle i how => exact stepped_settle i how
  case rollback => exact stepped_rollback
  case commit pre mid now => exact stepped_commit pre mid now
  case resume pre mid now => exact stepped_resume pre mid now
  case resolvePending action now => exact stepped_resolvePending action now
  case forceResolvePending action => exact stepped_forceResolvePending action

/-! ## Recovery -/

/-- A fresh engine has the snapshot at hand that the journal leaves open. -/
theorem core_recover : (recover e.machine e.nextId).core = { e.core with
    state := if e.core.pending.isSome then .commitPending else .idle
    proposal := e.core.pending.map Prod.snd
    snapshot := e.core.pending.map Prod.fst
    attempts := []
    windowOpen := e.core.pending.isSome
    notified := if e.core.pending.isSome then [true] else [] } := by
  rw [recover]
  rcases hopen : openPending e.machine.journal with _ | ⟨s, proposal, sinceMs⟩ <;>
    simp [core, fireWindow, hopen]

end ModeTransitionEngine

/-! ## The record after a move -/

theorem Move.record_cases {options : EngineOptions} {e : ModeTransitionEngine} {op : EngineOp}
    {c : Core} {observations : List TransitionEvent} (hmove : Move options e op c observations) :
    (c.record = e.machine.record ∧ e.restoring options op = none)
      ∨ (∃ s, e.snapshot = some s ∧ e.restoring options op = some s
        ∧ c.record = restored s e.machine.record)
      ∨ (∃ proposal, e.proposal = some proposal ∧ op.commits = true ∧ c.state = .committed
        ∧ (e.state = .verified ∨ e.state = .commitPending)
        ∧ c.record = committedRecord proposal e.machine) := by
  rcases hmove
  case still hnone => exact Or.inl ⟨rfl, hnone⟩
  case pend hnone => exact Or.inl ⟨rfl, hnone⟩
  case transient hhow _ => rcases hhow with rfl | rfl <;> exact Or.inl ⟨rfl, rfl⟩
  case structural hattempt hsnapshot hrestoring =>
    exact Or.inr (Or.inl ⟨_, hsnapshot, hrestoring, rfl⟩)
  case rollback hsnapshot hrestoring => exact Or.inr (Or.inl ⟨_, hsnapshot, hrestoring, rfl⟩)
  case abort hsnapshot hrestoring => exact Or.inr (Or.inl ⟨_, hsnapshot, hrestoring, rfl⟩)
  case commit hstate hproposal hop =>
    exact Or.inr (Or.inr ⟨_, hproposal, hop, rfl, hstate, rfl⟩)
  all_goals exact Or.inl ⟨rfl, rfl⟩

end Amicode.Attach
