import Mathlib.Data.List.Chain
import Amicode.Attach.Steps

/-!
# The commit window

The engine tells its window hook when the window from verify to commit opens and closes. The hook
holds the applies of the proposal queue, so a window that stays open without a commit to come holds
them for good, and one that is closed under a verified transition lets them run into the commit.

The notifications alternate, because the latch owns the edges. But the window and the state are not
written together. An attach test that throws leaves the window open on a transition that is only
staged; and an attempt that passes after a rollback, or after another attempt has failed, verifies
the transition behind a closed window. `window_run_iff` says that these are the only ways: what
counts is the last attempt in flight, and whether it settles into the window it finds.
-/

open List

namespace Amicode.Attach

def ModeTransitionEngineState.inWindow : ModeTransitionEngineState → Bool
  | .verified | .commitPending => true
  | .idle | .staged | .committed | .rolledBack => false

namespace Core

/-- No attempt to verify is in flight. -/
def Quiescent (c : Core) : Prop := ∀ attempt ∈ c.attempts, attempt.phase = .settled

/-- The law of the window: the notifications alternate, the first of them being `open`; and while
nothing is in flight the window is open exactly when the transition is verified or pending. -/
structure WindowLaw (c : Core) : Prop where
  alternates : List.IsChain (· ≠ ·) (false :: c.notified)
  inWindow : c.Quiescent → c.windowOpen = c.state.inWindow

/-- The latch: the last notification says whether the window is open. -/
structure Latched (c : Core) : Prop where
  alternates : List.IsChain (· ≠ ·) (false :: c.notified)
  last : (false :: c.notified).getLast? = some c.windowOpen

theorem Latched.fire {c : Core} (h : c.Latched) (isOpen : Bool) : (c.fire isOpen).Latched := by
  by_cases hsame : isOpen = c.windowOpen
  · subst hsame
    refine ⟨?_, ?_⟩
    · rw [Core.fire, if_pos rfl]
      exact h.alternates
    · rw [Core.fire, if_pos rfl]
      exact h.last
  · constructor
    · rw [Core.fire, if_neg hsame, ← cons_append, isChain_append]
      refine ⟨h.alternates, isChain_singleton _, fun x hx y hy ↦ ?_⟩
      obtain rfl := Option.some.inj (h.last.symm.trans hx)
      obtain rfl := Option.some.inj hy
      exact Ne.symm hsame
    · rw [Core.fire, if_neg hsame, ← cons_append, getLast?_concat]

theorem Latched.of_eq {c c' : Core} (h : c.Latched) (hnotified : c'.notified = c.notified)
    (hopen : c'.windowOpen = c.windowOpen) : c'.Latched := by
  constructor
  · rw [hnotified]
    exact h.alternates
  · rw [hnotified, hopen]
    exact h.last

end Core

namespace ModeTransitionEngine

/-- The attempt is the last one in flight, and it is in this phase. -/
def Last (e : ModeTransitionEngine) (i : ℕ) (phase : AttemptPhase) : Prop :=
  e.attempts[i]?.map VerifyAttempt.phase = some phase
    ∧ ∀ attempt ∈ e.attempts.eraseIdx i, attempt.phase = .settled

instance (e : ModeTransitionEngine) (i : ℕ) (phase : AttemptPhase) : Decidable (e.Last i phase) :=
  inferInstanceAs (Decidable (_ ∧ _))

/-- The last attempt in flight passes into an open window; and if it ends without writing a state,
the window fits the state it leaves. -/
def SettlesInWindow (e : ModeTransitionEngine) : EngineOp → Prop
  | .settle i .pass => e.Last i .testing → e.windowOpen = true
  | .settle i .throws => e.Last i .testing → e.windowOpen = e.state.inWindow
  | .drainSettled i false => e.Last i .draining → e.windowOpen = e.state.inWindow
  | _ => True

end ModeTransitionEngine

open ModeTransitionEngine

section Step

variable {options : EngineOptions} {e : ModeTransitionEngine} {op : EngineOp} {c : Core}
  {observations : List TransitionEvent}

theorem quiescent_set_iff {i id : ℕ} {phase : AttemptPhase}
    (hattempt : e.attempts[i]? = some ⟨id, phase⟩) :
    (∀ attempt ∈ e.attempts.set i ⟨id, .settled⟩, attempt.phase = .settled) ↔ e.Last i phase := by
  have hlt : i < e.attempts.length := (List.getElem?_eq_some_iff.mp hattempt).1
  rw [Last, hattempt, set_eq_take_append_cons_drop, if_pos hlt,
    eraseIdx_eq_take_drop_succ]
  constructor
  · intro h
    refine ⟨rfl, fun attempt ha ↦ h attempt ?_⟩
    rcases mem_append.mp ha with ha | ha
    · exact mem_append_left _ ha
    · exact mem_append_right _ (mem_cons_of_mem _ ha)
  · rintro ⟨-, h⟩ attempt ha
    rcases mem_append.mp ha with ha | ha
    · exact h attempt (mem_append_left _ ha)
    · rcases mem_cons.mp ha with rfl | ha
      · rfl
      · exact h attempt (mem_append_right _ ha)

theorem not_quiescent_set {i : ℕ} {before moved : VerifyAttempt}
    (hattempt : e.attempts[i]? = some before) (hphase : moved.phase ≠ .settled) :
    ¬ ∀ attempt ∈ e.attempts.set i moved, attempt.phase = .settled := by
  have hlt : i < e.attempts.length := (List.getElem?_eq_some_iff.mp hattempt).1
  intro h
  exact hphase (h moved (mem_set hlt moved))

theorem Move.latched (hmove : Move options e op c observations) (h : e.core.Latched) :
    c.Latched := by
  rcases hmove
  case still | stage | startDrain | undrained | pass | rejected | pend => exact h.of_eq rfl rfl
  all_goals
    refine Core.Latched.fire ?_ _
    exact h.of_eq rfl rfl

theorem inWindow_of_not_inFlight {state : ModeTransitionEngineState}
    (h : state.inFlight = false) : state.inWindow = false := by
  revert h
  rcases state <;> decide

/-- A move keeps the window fitting the state, if an attempt that settles in it settles into its
window. -/
theorem Move.fits (hmove : Move options e op c observations)
    (h : e.core.Quiescent → e.core.windowOpen = e.core.state.inWindow)
    (hsettles : e.SettlesInWindow op) (hquiet : c.Quiescent) : c.windowOpen = c.state.inWindow := by
  rcases hmove
  case still => exact h hquiet
  case stage hstate _ _ _ _ _ =>
    -- the state before was in no window either
    exact (h hquiet).trans (inWindow_of_not_inFlight hstate)
  case startDrain proposal _ _ =>
    have hdraining := hquiet ⟨proposal.id, .draining⟩ (mem_append_right _ (.head _))
    exact absurd hdraining (by simp)
  case start proposal _ _ =>
    have htesting := hquiet ⟨proposal.id, .testing⟩ (mem_append_right _ (.head _))
    exact absurd htesting (by simp)
  case drain i id hattempt => exact absurd hquiet (not_quiescent_set hattempt (by simp))
  case undrained i id hattempt => exact hsettles ((quiescent_set_iff hattempt).mp hquiet)
  case rejected i id hattempt => exact hsettles ((quiescent_set_iff hattempt).mp hquiet)
  case pass i id hattempt => exact hsettles ((quiescent_set_iff hattempt).mp hquiet)
  case pend hstate _ _ _ =>
    have hopen : e.core.windowOpen = e.core.state.inWindow := h hquiet
    rw [core, hstate] at hopen
    exact hopen
  case transient | structural | rollback | abort | commit => rfl

theorem settlesInWindow_of_fits
    (h : (e.step options op).core.Quiescent →
      (e.step options op).core.windowOpen = (e.step options op).core.state.inWindow) :
    e.SettlesInWindow op := by
  have hsettled : ∀ {i : ℕ} {phase : AttemptPhase}, e.Last i phase → ∃ id,
      e.attempts[i]? = some ⟨id, phase⟩
        ∧ ∀ attempt ∈ e.attempts.set i ⟨id, .settled⟩, attempt.phase = .settled := by
    intro i phase hlast
    obtain ⟨⟨id, _⟩, hattempt, rfl⟩ := Option.map_eq_some_iff.mp hlast.1
    exact ⟨id, hattempt, (quiescent_set_iff hattempt).mpr hlast⟩
  rw [SettlesInWindow.eq_def]
  split
  case h_1 i =>
    intro hlast
    obtain ⟨id, hattempt, hquiet⟩ := hsettled hlast
    rw [step, apply, settle, hattempt] at h
    exact h hquiet
  case h_2 i =>
    intro hlast
    obtain ⟨id, hattempt, hquiet⟩ := hsettled hlast
    rw [step, apply, settle, hattempt] at h
    exact h hquiet
  case h_3 i =>
    intro hlast
    obtain ⟨id, hattempt, hquiet⟩ := hsettled hlast
    rw [step, apply, drainSettled, hattempt] at h
    exact h hquiet
  case h_4 => trivial

end Step

/-! ## Runs -/

instance ModeTransitionEngine.decidableSettlesInWindow (e : ModeTransitionEngine) :
    ∀ op : EngineOp, Decidable (e.SettlesInWindow op)
  | .settle i .pass => inferInstanceAs (Decidable (e.Last i .testing → e.windowOpen = true))
  | .settle i .throws =>
    inferInstanceAs (Decidable (e.Last i .testing → e.windowOpen = e.state.inWindow))
  | .drainSettled i false =>
    inferInstanceAs (Decidable (e.Last i .draining → e.windowOpen = e.state.inWindow))
  | .settle _ .transientFail | .settle _ .structuralFail | .settle _ .expired
  | .drainSettled _ true | .stage _ | .verify | .rollback | .commit _ _ _ | .resume _ _ _
  | .resolvePending _ _ | .forceResolvePending _ => .isTrue trivial

/-- The invariant of a run that keeps the law of the window. -/
structure Core.Windowed (c : Core) : Prop extends c.Latched where
  fits : c.Quiescent → c.windowOpen = c.state.inWindow

theorem Core.Windowed.windowLaw {c : Core} (h : c.Windowed) : c.WindowLaw :=
  ⟨h.alternates, h.fits⟩

/-- A fresh engine is in the window if it has recovered a transition. -/
theorem windowed_recover (machine : ModeMachine) (nextId : ℕ) :
    (recover machine nextId).core.Windowed := by
  rw [core_recover (e := { machine := machine, nextId := nextId })]
  rcases (core { machine := machine, nextId := nextId }).pending with _ | p
  · exact ⟨⟨isChain_singleton _, rfl⟩, fun _ ↦ rfl⟩
  · exact ⟨⟨by simp, rfl⟩, fun _ ↦ rfl⟩

/-- Every run of an engine, fresh on any machine, keeps the law of the window at every step, if and
only if each last attempt in flight that settles in it settles into its window. -/
theorem window_run_iff (options : EngineOptions) (machine : ModeMachine) (nextId : ℕ)
    (ops : List EngineOp) :
    StepMachine.Guarded (step options) (fun e op ↦ (e.step options op).core.WindowLaw)
        (recover machine nextId) ops
      ↔ StepMachine.Guarded (step options) SettlesInWindow (recover machine nextId) ops := by
  have hkeep : ∀ (e : ModeTransitionEngine) (op : EngineOp), e.core.Windowed →
      e.SettlesInWindow op → (e.step options op).core.Windowed := by
    intro e op h hsettles
    have hmove : Moves options e op := (stepped_all op).1
    exact ⟨hmove.latched h.toLatched, hmove.fits h.fits hsettles⟩
  refine StepMachine.guarded_iff_of_invariant (I := fun e : ModeTransitionEngine ↦ e.core.Windowed)
    (fun e op h ↦ ⟨fun hlaw ↦ ?_, fun hsettles ↦ ?_⟩) (fun e op h hlaw ↦ ?_)
    (windowed_recover machine nextId)
  · exact settlesInWindow_of_fits hlaw.inWindow
  · exact (hkeep e op h hsettles).windowLaw
  · exact hkeep e op h (settlesInWindow_of_fits hlaw.inWindow)

/-- A fresh engine on an empty record, after the operations. -/
def freshRun (ops : List EngineOp) : ModeTransitionEngine :=
  StepMachine.run (step ⟨false, 0⟩) (recover { record := ∅ } 0) ops

/-- The attach test throws: nothing is in flight, the transition is staged, and the window is open.
And a pass after a rollback verifies the transition behind a closed window. -/
theorem not_windowLaw_throws :
    ¬ (freshRun [.stage { toMode := .fleet }, .verify, .settle 0 .throws]).core.WindowLaw
      ∧ ¬ (freshRun [.stage { toMode := .fleet }, .verify, .rollback,
        .settle 0 .pass]).core.WindowLaw := by
  constructor
  · intro h
    exact absurd (h.inWindow (by unfold Core.Quiescent; decide +kernel)) (by decide +kernel)
  · intro h
    exact absurd (h.inWindow (by unfold Core.Quiescent; decide +kernel)) (by decide +kernel)

end Amicode.Attach
