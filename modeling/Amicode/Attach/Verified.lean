import Amicode.Attach.Steps

/-!
# Only a verified proposal is committed

The third law is about the engine alone, under every interleaving of its operations. The mode of the
record changes only when the proposal at hand is committed, after an attempt to verify it has
passed which was started after it was staged, with no rollback since; and an attempt that settles
after its transition has been rolled back, committed or replaced does not touch the transition.

An attempt writes the state of the engine when it settles, without asking whether the transition it
was started for is still in flight. So a pass that comes after a rollback verifies the transition
again, and `not_lawful_latePass` commits it. `lawful_run_iff` says that this is the only way: a run
keeps the law exactly when every superseded attempt, if it writes a state at all, writes the one the
engine is in.
-/

namespace Amicode.Attach

open ModeTransitionEngine List Option

/-! ## Snapshots that hold the mode -/

/-- To restore the snapshot changes no mode: the snapshot names the mode the record resolves to, or
leaves it to the legacy field as the record does, and the legacy field carries it if need be. -/
structure Pinned (record : AttachStateRecord) (s : TransitionSnapshot) : Prop where
  carried : ¬ Named record →
    (field s.fields "state").legacyMode = (resolveAttachState record).mode
  named : field s.fields "mode" = (resolveAttachState record).mode.value
    ∨ (¬ Named s.fields ∧ ¬ Named record)

section Pinned

variable {record : AttachStateRecord} {s : TransitionSnapshot}

theorem Pinned.mode_restored (h : Pinned record s) :
    (resolveAttachState (restored s record)).mode = (resolveAttachState record).mode :=
  Attach.mode_restored (h.named.imp_right fun hnot ↦ ⟨hnot.1, h.carried hnot.2⟩) h.carried

theorem Pinned.named_restored_iff (h : Pinned record s) :
    Named (restored s record) ↔ Named record := by
  obtain ⟨hmode, -, -⟩ := field_restored s record
  rw [Named, hmode]
  split_ifs with hsame
  · exact Iff.rfl
  · obtain ⟨hfields, hrecord⟩ := h.named.resolve_left (Ne.symm hsame)
    exact iff_of_false hfields hrecord

theorem Pinned.restored (h : Pinned record s) : Pinned (restored s record) s where
  carried hnot := by
    rw [h.mode_restored]
    exact h.carried (h.named_restored_iff.not.mp hnot)
  named := by
    rw [h.mode_restored, h.named_restored_iff]
    exact h.named

theorem pinned_takeSnapshot {names : List String} (h : "posture" ∉ names) :
    Pinned record (takeSnapshot record names h) where
  carried hnot := by
    rw [mode_of_not_named hnot]
    rcases (field_takeSnapshot record names h).2 with hstate | ⟨hundef, hstate⟩
    · rw [hstate]
    · -- the record says nothing at all, so it is standalone under either reading
      have hmode : (resolveAttachState record).mode = .standalone := by
        rw [mode_of_not_named hnot, hundef]
        rfl
      rw [hstate, legacyMode_legacyStateOf, hundef, hmode, ite_self]
      rfl
  named := mode_takeSnapshot record names h

theorem mode_committedRecord (proposal : TransitionProposalRecord) (m : ModeMachine) :
    (resolveAttachState (committedRecord proposal m)).mode = proposal.toMode := by
  rw [committedRecord]
  rcases proposal.apply with _ | patch
  · exact resolve_confirmMode _ m
  · have hoverlay := resolve_overlayRewrite (m.confirmMode proposal.toMode) patch
    exact (congrArg ResolvedAttachState.mode hoverlay).trans (resolve_confirmMode _ m)

end Pinned

/-! ## The law -/

/-- The engine and the log of what has been observed of it. -/
abbrev Observed := ModeTransitionEngine × List TransitionEvent

/-- An attempt to verify the proposal has passed; it was started after the proposal was staged, and
nothing has been rolled back since. -/
def Approved (id : ℕ) (log : List TransitionEvent) : Prop :=
  ∃ attempt, StepMachine.Since .rollback
    [.stage id, .start attempt id, .pass attempt id] log

namespace ModeTransitionEngine

/-- Is the attempt under test one for a transition that is no longer in flight? -/
def superseded (e : ModeTransitionEngine) (i : ℕ) : Bool :=
  match e.attempts[i]? with
  | some ⟨id, .testing⟩ =>
    !(e.state.inFlight && decide (e.proposal.map TransitionProposalRecord.id = some id))
  | _ => false

def observedStep (options : EngineOptions) : Observed → EngineOp → Observed :=
  StepMachine.logged (step options) (events options)

end ModeTransitionEngine

def Settlement.writes : Settlement → Option ModeTransitionEngineState
  | .pass => some .verified
  | .transientFail | .expired => some .staged
  | .structuralFail => some .rolledBack
  | .throws => none

/-- What the law asks of one operation. -/
structure Lawful (options : EngineOptions) (s : Observed) (op : EngineOp) : Prop where
  /-- The mode changes only by the commit of a verified proposal. -/
  verified : (s.1.step options op).machine.resolve.mode ≠ s.1.machine.resolve.mode →
    op.commits = true ∧ (s.1.step options op).state = .committed
      ∧ ∃ proposal ∈ s.1.proposal,
        (s.1.step options op).machine.resolve.mode = proposal.toMode ∧ Approved proposal.id s.2
  /-- An attempt that settles late leaves the transition at hand alone. -/
  unmoved : ∀ i how, op = .settle i how → s.1.superseded i = true →
    (s.1.step options op).state = s.1.state ∧ (s.1.step options op).proposal = s.1.proposal
      ∧ (s.1.step options op).snapshot = s.1.snapshot
      ∧ (s.1.step options op).machine.resolve.mode = s.1.machine.resolve.mode

/-- A superseded attempt that settles writes no other state than the one the engine is in. -/
def OnTime (s : Observed) : EngineOp → Prop
  | .settle i how => s.1.superseded i = true → ∀ state ∈ how.writes, state = s.1.state
  | _ => True

instance (s : Observed) (op : EngineOp) : Decidable (OnTime s op) :=
  match op with
  | .settle i how =>
    inferInstanceAs (Decidable (s.1.superseded i = true → ∀ state ∈ how.writes, state = s.1.state))
  | .stage _ | .verify | .drainSettled _ _ | .rollback | .commit _ _ _ | .resume _ _ _
  | .resolvePending _ _ | .forceResolvePending _ => .isTrue trivial

/-! ## The invariant -/

/-- What the core of an engine owes to its log: a transition in flight was staged, the live attempts
to verify it were started since, and if it is verified, one of them has passed, with no rollback in
between. -/
structure Core.Sound (c : Core) (log : List TransitionEvent) : Prop where
  proposed : ∀ proposal ∈ c.proposal, proposal.id < c.nextId
  attempted : ∀ attempt ∈ c.attempts, attempt.transitionId < c.nextId
  held : c.snapshot = none → c.proposal = none ∧ c.attempts = []
  pinned : c.state ≠ .committed → ∀ s ∈ c.snapshot, Pinned c.record s
  staged : c.state.inFlight = true → ∀ proposal ∈ c.proposal,
    StepMachine.Since .rollback [.stage proposal.id] log
  started : c.state.inFlight = true → ∀ proposal ∈ c.proposal, ∀ k, ∀ attempt ∈ c.attempts[k]?,
    attempt.phase ≠ .settled → attempt.transitionId = proposal.id →
      StepMachine.Since .rollback [.stage proposal.id, .start k proposal.id] log
  approved : c.state = .verified ∨ c.state = .commitPending → ∀ proposal ∈ c.proposal,
    Approved proposal.id log

theorem Approved.append {id : ℕ} {log later : List TransitionEvent} (h : Approved id log)
    (hlater : .rollback ∉ later) : Approved id (log ++ later) := by
  obtain ⟨attempt, hsince⟩ := h
  exact ⟨attempt, hsince.append hlater⟩

theorem live_of_set {attempts : List VerifyAttempt} {i k id : ℕ} {phase₀ phase : AttemptPhase}
    {attempt : VerifyAttempt} (hattempt : attempts[i]? = some ⟨id, phase₀⟩)
    (hlive : phase₀ ≠ .settled) (hk : attempt ∈ (attempts.set i ⟨id, phase⟩)[k]?)
    (hphase : attempt.phase ≠ .settled) :
    ∃ before ∈ attempts[k]?, before.phase ≠ .settled
      ∧ before.transitionId = attempt.transitionId := by
  by_cases hi : i = k
  · subst hi
    have hlt : i < attempts.length := (List.getElem?_eq_some_iff.mp hattempt).1
    rw [getElem?_set_self hlt] at hk
    obtain rfl := Option.some.inj hk
    exact ⟨⟨id, phase₀⟩, hattempt, hlive, rfl⟩
  · rw [getElem?_set_ne hi] at hk
    exact ⟨attempt, hk, hphase, rfl⟩

section Sound

variable {c : Core} {log : List TransitionEvent}

theorem Core.Sound.snapshot_of_attempt (h : c.Sound log) {i : ℕ} {attempt : VerifyAttempt}
    (hattempt : c.attempts[i]? = some attempt) : ∃ s, c.snapshot = some s := by
  refine ne_none_iff_exists'.mp fun hnone ↦ ?_
  rw [(h.held hnone).2] at hattempt
  exact absurd hattempt (by simp)

theorem Core.Sound.advance (h : c.Sound log) {i id : ℕ} {phase₀ phase : AttemptPhase}
    {state : ModeTransitionEngineState} {observations : List TransitionEvent}
    (hattempt : c.attempts[i]? = some ⟨id, phase₀⟩) (hlive : phase₀ ≠ .settled)
    (hstate : state = c.state ∨ c.state.inFlight = true) (hcalm : .rollback ∉ observations)
    (happroved : state = .verified ∨ state = .commitPending → ∀ proposal ∈ c.proposal,
      Approved proposal.id (log ++ observations)) :
    ({ c with attempts := c.attempts.set i ⟨id, phase⟩, state := state } : Core).Sound
      (log ++ observations) := by
  have hflight : state.inFlight = true → c.state.inFlight = true := by
    rcases hstate with rfl | hstate
    · exact fun hin ↦ hin
    · exact fun _ ↦ hstate
  refine ⟨h.proposed, fun attempt hmem ↦ ?_, fun hnone ↦ ?_, fun hcommitted ↦ ?_, ?_, ?_, happroved⟩
  · rcases mem_or_eq_of_mem_set hmem with hmem | rfl
    · exact h.attempted attempt hmem
    · exact h.attempted ⟨id, phase₀⟩ (mem_of_getElem? hattempt)
  · obtain ⟨s, hs⟩ := h.snapshot_of_attempt hattempt
    exact absurd (hnone.symm.trans hs) (by simp)
  · refine h.pinned fun hc ↦ ?_
    rcases hstate with rfl | hstate
    · exact hcommitted hc
    · rw [hc] at hstate
      exact absurd hstate (by decide)
  · exact fun hin proposal hproposal ↦ (h.staged (hflight hin) proposal hproposal).append hcalm
  · intro hin proposal hproposal k attempt hk hphase hid
    obtain ⟨before, hbefore, hphase', hsame⟩ := live_of_set hattempt hlive hk hphase
    exact (h.started (hflight hin) proposal hproposal k before hbefore hphase'
      (hsame.trans hid)).append hcalm

theorem Core.Sound.start (h : c.Sound log) {proposal : TransitionProposalRecord}
    (hflight : c.state.inFlight = true) (hproposal : c.proposal = some proposal)
    (phase : AttemptPhase) :
    ({ c with attempts := c.attempts ++ [⟨proposal.id, phase⟩] } : Core).Sound
      (log ++ [.start c.attempts.length proposal.id]) := by
  have hstaged := h.staged hflight proposal hproposal
  refine ⟨h.proposed, fun a ha ↦ ?_, fun hnone ↦ ?_, h.pinned,
    fun hflight p hp ↦ (h.staged hflight p hp).append (by simp), ?_,
    fun hverified p hp ↦ (h.approved hverified p hp).append (by simp)⟩
  · rcases mem_append.mp ha with ha | ha
    · exact h.attempted a ha
    · obtain rfl := mem_singleton.mp ha
      exact h.proposed proposal hproposal
  · exact absurd ((h.held hnone).1.symm.trans hproposal) (by simp)
  · intro hflight p hp k attempt hk hphase hsame
    obtain rfl := Option.some.inj (hproposal.symm.trans hp)
    rcases Nat.lt_or_ge k c.attempts.length with hlt | hge
    · rw [getElem?_append_left hlt] at hk
      exact (h.started hflight proposal hproposal k attempt hk hphase hsame).append (by simp)
    · -- the attempt is the one that starts now
      rw [getElem?_append_right hge, mem_def, getElem?_singleton] at hk
      split_ifs at hk with hlast
      obtain rfl : k = c.attempts.length := by omega
      exact hstaged.concat (by simp)

theorem Core.Sound.fire (h : c.Sound log) (isOpen : Bool) : (c.fire isOpen).Sound log :=
  ⟨h.proposed, h.attempted, h.held, h.pinned, h.staged, h.started, h.approved⟩

theorem Core.Sound.restore (h : c.Sound log) {s : TransitionSnapshot} (hs : c.snapshot = some s)
    (hstate : c.state ≠ .committed)
    (pending : Option (TransitionSnapshot × TransitionProposalRecord)) :
    ({ c with record := restored s c.record, state := .rolledBack, pending := pending } :
      Core).Sound (log ++ [.rollback]) where
  proposed := h.proposed
  attempted := h.attempted
  held := h.held
  pinned _ s' hs' := by
    obtain rfl := Option.some.inj (hs.symm.trans hs')
    exact (h.pinned hstate s hs).restored
  staged := by simp [ModeTransitionEngineState.inFlight]
  started := by simp [ModeTransitionEngineState.inFlight]
  approved := by simp

end Sound

/-! ## One step -/

section Step

variable {options : EngineOptions} {e : ModeTransitionEngine} {op : EngineOp} {c : Core}
  {observations log : List TransitionEvent}

variable {s : TransitionSnapshot}

theorem settle_testing {i id : ℕ} {how : Settlement}
    (hattempt : e.attempts[i]? = some ⟨id, .testing⟩) (hsnapshot : e.snapshot = some s) :
    (e.step options (.settle i how)).state = how.writes.getD e.state
      ∧ (e.step options (.settle i how)).proposal = e.proposal
      ∧ (e.step options (.settle i how)).snapshot = e.snapshot := by
  have happly : e.apply options (.settle i how) = e.settle i how := rfl
  rw [settle, hattempt] at happly
  rcases how
  case structuralFail =>
    obtain ⟨e', hrollback, hcore, -⟩ := applyRollback_spec (s := s) (e := journalVerify
      .structuralFail { e with attempts := e.attempts.set i ⟨id, .settled⟩ }) hsnapshot
    rw [step, happly.trans hrollback]
    exact ⟨congrArg Core.state hcore, congrArg Core.proposal hcore, congrArg Core.snapshot hcore⟩
  all_goals
    rw [step, happly]
    exact ⟨rfl, rfl, rfl⟩

theorem attempt_of_superseded {i : ℕ} (h : e.superseded i = true) :
    ∃ id, e.attempts[i]? = some ⟨id, .testing⟩ := by
  rw [superseded] at h
  split at h
  case h_1 id hattempt => exact ⟨id, hattempt⟩
  case h_2 => exact absurd h (by decide)

theorem inFlight_of_not_superseded {i id : ℕ} (hattempt : e.attempts[i]? = some ⟨id, .testing⟩)
    (h : e.superseded i = false) :
    e.state.inFlight = true ∧ ∃ proposal, e.proposal = some proposal ∧ proposal.id = id := by
  simp only [superseded, hattempt, Bool.not_eq_false', Bool.and_eq_true, decide_eq_true_eq,
    map_eq_some_iff] at h
  exact h

theorem state_of_onTime {i id : ℕ} {how : Settlement} {state : ModeTransitionEngineState}
    (hattempt : e.attempts[i]? = some ⟨id, .testing⟩) (hwrites : how.writes = some state)
    (htime : OnTime (e, log) (.settle i how)) : state = e.state ∨ e.state.inFlight = true := by
  rcases hsuper : e.superseded i
  · exact Or.inr (inFlight_of_not_superseded hattempt hsuper).1
  · exact Or.inl (htime hsuper state hwrites)

/-- No operation on time puts a snapshot back once its transition is committed. -/
theorem ne_committed_of_restoring (hrestoring : e.restoring options op = some s) (htime : OnTime (e, log) op) :
    e.state ≠ .committed := by
  intro hcommitted
  rw [restoring.eq_def] at hrestoring
  split at hrestoring
  case h_1 => simp [hcommitted] at hrestoring
  case h_2 i =>
    rcases hattempt : e.attempts[i]? with _ | ⟨id, phase⟩
    · simp [hattempt] at hrestoring
    · rcases phase with _ | _ | _
      · simp [hattempt] at hrestoring
      · rcases state_of_onTime hattempt rfl htime with hstate | hflight
        · rw [hcommitted] at hstate
          exact absurd hstate (by decide)
        · rw [hcommitted] at hflight
          exact absurd hflight (by decide)
      · simp [hattempt] at hrestoring
  case h_3 => simp [hcommitted] at hrestoring
  case h_4 => simp [hcommitted] at hrestoring
  case h_5 => exact absurd hrestoring (by simp)

theorem Move.sound (hmove : Move options e op c observations) (h : e.core.Sound log)
    (htime : OnTime (e, log) op) : c.Sound (log ++ observations) := by
  rcases hmove
  case still =>
    rw [append_nil]
    exact h
  case stage hstate hnew hposture proposal hid hto =>
    refine ⟨fun p hp ↦ ?_, fun a ha ↦ ?_, by simp, fun _ s hs ↦ ?_, fun _ p hp ↦ ?_, ?_, by simp⟩
    · obtain rfl := Option.some.inj hp
      exact Nat.lt_succ_of_le (Nat.le_of_eq hid)
    · exact Nat.lt_succ_of_lt (h.attempted a ha)
    · obtain rfl := Option.some.inj hs
      exact pinned_takeSnapshot hposture
    · obtain rfl := Option.some.inj hp
      rw [hid]
      exact StepMachine.since_singleton (by simp)
    · -- the id is new, so no attempt is for the new proposal yet
      intro _ p hp k attempt hk _ hsame
      obtain rfl := Option.some.inj hp
      have hold : attempt.transitionId < e.nextId := h.attempted attempt (mem_of_getElem? hk)
      omega
  case startDrain proposal hstate hproposal =>
    exact h.start (by rcases hstate with hstate | hstate <;> rw [core, hstate] <;> rfl) hproposal _
  case start proposal hstate hproposal =>
    exact (h.start (by rcases hstate with hstate | hstate <;> rw [core, hstate] <;> rfl) hproposal
      _).fire true
  case drain i id hattempt =>
    refine Core.Sound.fire ?_ true
    refine h.advance hattempt (by decide) (Or.inl rfl) (by simp) ?_
    rw [append_nil]
    exact h.approved
  case undrained i id hattempt =>
    refine h.advance hattempt (by decide) (Or.inl rfl) (by simp) ?_
    rw [append_nil]
    exact h.approved
  case pass i id hattempt =>
    refine h.advance hattempt (by decide) (state_of_onTime hattempt rfl htime) (by simp) ?_
    intro _ proposal hproposal
    rcases hsuper : e.superseded i
    · obtain ⟨hflight, proposal', hproposal', rfl⟩ := inFlight_of_not_superseded hattempt hsuper
      obtain rfl := Option.some.inj (hproposal'.symm.trans hproposal)
      exact ⟨i, (h.started hflight _ hproposal i _ hattempt (by simp) rfl).concat (by simp)⟩
    · exact (h.approved (Or.inl (htime hsuper _ rfl).symm) proposal hproposal).append (by simp)
  case transient i id how hhow hattempt =>
    have hwrites : how.writes = some .staged := by rcases hhow with rfl | rfl <;> rfl
    exact (h.advance hattempt (by decide) (state_of_onTime hattempt hwrites htime) (by simp)
      (by simp)).fire false
  case rejected i id hattempt =>
    refine h.advance hattempt (by decide) (Or.inl rfl) (by simp) ?_
    rw [append_nil]
    exact h.approved
  case structural i id s hattempt hsnapshot hrestoring =>
    have hsettled : ({ e.core with attempts := e.attempts.set i ⟨id, .settled⟩ } : Core).Sound
        (log ++ []) := by
      refine h.advance hattempt (by decide) (Or.inl rfl) (by simp) ?_
      rw [append_nil]
      exact h.approved
    rw [append_nil] at hsettled
    exact (hsettled.restore hsnapshot (ne_committed_of_restoring hrestoring htime) _).fire false
  case rollback s hstate hsnapshot hrestoring =>
    exact (h.restore hsnapshot (ne_committed_of_restoring hrestoring htime) _).fire false
  case abort s hstate hsnapshot hrestoring =>
    exact (h.restore hsnapshot (ne_committed_of_restoring hrestoring htime) _).fire false
  case pend proposal s hstate hproposal hsnapshot hnone =>
    rw [append_nil]
    have hflight : e.core.state.inFlight = true := by rw [core, hstate]; rfl
    exact ⟨h.proposed, h.attempted, h.held, fun _ ↦ h.pinned (hstate.trans_ne (by decide)),
      fun _ ↦ h.staged hflight, fun _ ↦ h.started hflight, fun _ ↦ h.approved (Or.inl hstate)⟩
  case commit proposal hstate hproposal hop =>
    rw [append_nil]
    refine Core.Sound.fire ?_ false
    exact ⟨h.proposed, h.attempted, h.held, by simp, by simp [ModeTransitionEngineState.inFlight],
      by simp [ModeTransitionEngineState.inFlight], by simp⟩

theorem mode_of_restoring (h : e.core.Sound log)
    (hsnapshot : e.snapshot = some s) (hrestoring : e.restoring options op = some s)
    (htime : OnTime (e, log) op) :
    (resolveAttachState (restored s e.machine.record)).mode = e.machine.resolve.mode :=
  (h.pinned (ne_committed_of_restoring hrestoring htime) s hsnapshot).mode_restored

theorem lawful_of_onTime (h : e.core.Sound log) (htime : OnTime (e, log) op) :
    Lawful options (e, log) op := by
  have hmove : Moves options e op := (stepped_all op).1
  constructor
  · intro hchange
    rcases hmove.record_cases with ⟨hrecord, -⟩ | ⟨s, hsnapshot, hrestoring, hrecord⟩
      | ⟨proposal, hproposal, hop, hcommitted, hstate, hrecord⟩
    · refine absurd ?_ hchange
      exact congrArg (fun record ↦ (resolveAttachState record).mode) hrecord
    · refine absurd ?_ hchange
      rw [← mode_of_restoring h hsnapshot hrestoring htime, ← hrecord]
      rfl
    · refine ⟨hop, hcommitted, proposal, hproposal, ?_, h.approved hstate proposal hproposal⟩
      rw [← mode_committedRecord proposal e.machine, ← hrecord]
      rfl
  · rintro i how rfl hsuper
    obtain ⟨id, hattempt⟩ := attempt_of_superseded hsuper
    obtain ⟨s, hsnapshot⟩ := h.snapshot_of_attempt hattempt
    obtain ⟨hstate, hproposal, hsame⟩ :
        (e.step options (.settle i how)).state = how.writes.getD e.state ∧ _ ∧ _ :=
      settle_testing hattempt hsnapshot
    refine ⟨?_, hproposal, hsame, ?_⟩
    · rcases hwrites : how.writes with _ | state
      · rw [hstate, hwrites, getD_none]
      · rw [hstate, hwrites, getD_some]
        exact htime hsuper state hwrites
    · rcases hmove.record_cases with ⟨hrecord, -⟩ | ⟨s, hsnapshot, hrestoring, hrecord⟩
        | ⟨-, -, hop, -⟩
      · exact congrArg (fun record ↦ (resolveAttachState record).mode) hrecord
      · rw [← mode_of_restoring h hsnapshot hrestoring htime, ← hrecord]
        rfl
      · exact absurd hop (by simp [EngineOp.commits])

theorem onTime_of_lawful (h : e.core.Sound log) (hlawful : Lawful options (e, log) op) :
    OnTime (e, log) op := by
  rcases op
  case settle i how =>
    intro hsuper state hwrites
    obtain ⟨id, hattempt⟩ := attempt_of_superseded hsuper
    obtain ⟨s, hsnapshot⟩ := h.snapshot_of_attempt hattempt
    have hstate : (e.step options (.settle i how)).state = how.writes.getD e.state :=
      (settle_testing hattempt hsnapshot).1
    rw [hwrites, getD_some] at hstate
    exact hstate.symm.trans (hlawful.unmoved i how rfl hsuper).1
  all_goals trivial

end Step

/-! ## Runs -/

theorem sound_fresh (record : AttachStateRecord) :
    (core { machine := { record := record } }).Sound [] where
  proposed := by simp [core]
  attempted := by simp [core]
  held := by simp [core]
  pinned := by simp [core]
  staged := by simp [core]
  started := by simp [core]
  approved := by simp [core]

/-- Every run of an engine on any record is lawful at every step, if and only if every superseded
attempt in it that settles writes no other state than the one the engine is in. -/
theorem lawful_run_iff (options : EngineOptions) (record : AttachStateRecord)
    (ops : List EngineOp) :
    StepMachine.Guarded (observedStep options) (Lawful options)
        ({ machine := { record := record } }, []) ops
      ↔ StepMachine.Guarded (observedStep options) OnTime
        ({ machine := { record := record } }, []) ops := by
  refine (StepMachine.guarded_iff_of_invariant (I := fun s : Observed ↦ s.1.core.Sound s.2)
    (fun s op h ↦ ⟨lawful_of_onTime h, onTime_of_lawful h⟩) (fun s op h htime ↦ ?_)
    (sound_fresh record)).symm
  have hmove : Moves options s.1 op := (stepped_all op).1
  exact hmove.sound h htime

/-- What is observed on an empty record. -/
def observedRun (ops : List EngineOp) : Observed :=
  StepMachine.run (observedStep ⟨false, 0⟩) ({ machine := { record := ∅ } }, []) ops

/-- A transition is rolled back while it is being verified. -/
def rolledBackMeanwhile : List EngineOp := [.stage { toMode := .fleet }, .verify, .rollback]

/-- The pass that comes after the rollback verifies the transition again, and it can be committed:
neither the pass nor the commit is lawful. -/
theorem not_lawful_latePass :
    ¬ Lawful ⟨false, 0⟩ (observedRun rolledBackMeanwhile) (.settle 0 .pass)
      ∧ ¬ Lawful ⟨false, 0⟩ (observedRun (rolledBackMeanwhile ++ [.settle 0 .pass]))
        (.commit .proceed .proceed 0) := by
  constructor
  · intro h
    have hstate := (h.unmoved 0 .pass rfl (by decide +kernel)).1
    revert hstate
    decide +kernel
  · intro h
    obtain ⟨-, -, proposal, hproposal, -, attempt, after, hafter, hevents, hnot⟩ :=
      h.verified (by decide +kernel)
    have hlog : (observedRun (rolledBackMeanwhile ++ [.settle 0 .pass])).2
        = [.stage 0, .start 0 0, .rollback, .pass 0 0] := by decide +kernel
    -- only the pass comes after the rollback
    rw [hlog] at hafter
    simp only [List.suffix_cons_iff, List.suffix_nil] at hafter
    rcases hafter with rfl | rfl | rfl | rfl | rfl <;> simp at hnot hevents

end Amicode.Attach
