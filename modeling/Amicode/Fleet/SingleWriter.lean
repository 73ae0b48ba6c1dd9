import Amicode.Foundation.StepMachine
import Amicode.Fleet.Registry

/-!
# One writer at a time

Of a session at most one launch may succeed, a record that its holder has settled may not be marked crashed by a
sweep, and no finish and no sweep may write over a killed record.

Each verb looks before it writes, and a write looks no more. So the law depends on what a write finds: it holds
in every run in which a launch still finds nothing at its path, and a finish or a sweep finds a record that is
neither settled nor killed (`singleWriter_run`). Between a read and the write that follows from it another process
may launch, finish or kill, and in each of these windows the law fails. The widest is that of a sweep, which
reads all records first: a holder that finishes and exits before it is probed is taken for one that died.
-/

namespace Amicode.Fleet

open StepMachine List

/-! ## The law -/

def stateIn (file : Option RecordFile) : Option FleetState := file.join.map FleetRecord.state

/-- What is owed of the writes of a run, oldest first. -/
structure SingleWriter (log : List Write) : Prop where
  /-- At most one launch of a session succeeds. -/
  launches : log.Pairwise fun earlier later ↦
    earlier.writer = .launch → later.writer = .launch → earlier.session ≠ later.session
  /-- What a finish has settled is not marked by a later sweep. -/
  settled : log.Pairwise fun earlier later ↦
    earlier.writer = .finish → earlier.wrote = .settled → later.writer = .sweep → earlier.session ≠ later.session
  killed : ∀ write ∈ log, write.writer = .finish ∨ write.writer = .sweep → stateIn write.found ≠ some .killed

/-- What a write finds does not forbid it. -/
def Allows (found : Option RecordFile) : Writer → Prop
  | .launch => found = none
  | .kill => True
  | .finish | .sweep => stateIn found ≠ some .settled ∧ stateIn found ≠ some .killed

variable {P : Type*}

/-- If the next step of a process writes a record, what it finds does not forbid it. -/
def AllowsAt (w : FleetWorld P) : Phase → Prop
  | .writing writer rec _ => Allows (w.registry.get? rec.session_id) writer
  | _ => True

def AllowedStep (w : FleetWorld P) : FleetOp P → Prop
  | .step p => AllowsAt w (w.phases p)
  | _ => True

instance decidableAllows (found : Option RecordFile) : ∀ writer, Decidable (Allows found writer)
  | .launch => inferInstanceAs (Decidable (found = none))
  | .kill => .isTrue trivial
  | .finish | .sweep =>
    inferInstanceAs (Decidable (stateIn found ≠ some .settled ∧ stateIn found ≠ some .killed))

instance decidableAllowsAt (w : FleetWorld P) : ∀ phase, Decidable (AllowsAt w phase)
  | .writing writer rec _ => inferInstanceAs (Decidable (Allows (w.registry.get? rec.session_id) writer))
  | .idle | .called _ | .scanning _ _ _ | .judging _ _ | .probed _ _ _ _ => .isTrue trivial

instance decidableAllowedStep (w : FleetWorld P) : ∀ op, Decidable (AllowedStep w op)
  | .step p => inferInstanceAs (Decidable (AllowsAt w (w.phases p)))
  | .call _ _ | .tick _ | .started _ _ | .exited _ _ => .isTrue trivial

/-! ## The invariant -/

/-- The law so far, and what it says of the files: a launched session has one, and one that was settled by a finish
is settled or killed. -/
structure Sound (w : FleetWorld P) : Prop where
  law : SingleWriter w.log
  present : ∀ write ∈ w.log, w.registry.get? write.session ≠ none
  settled : ∀ write ∈ w.log, write.writer = .finish → write.wrote = .settled →
    stateIn (w.registry.get? write.session) = some .settled
      ∨ stateIn (w.registry.get? write.session) = some .killed
  kills : ∀ p rec rest, w.phases p = .writing .kill rec rest → rec.state = .killed

theorem sound_start (registry : InsertionMap String RecordFile) (alive : String → ℕ → Bool) (clock : ℕ) :
    Sound (FleetWorld.start P registry alive clock) where
  law := ⟨Pairwise.nil, Pairwise.nil, by simp [FleetWorld.start]⟩
  present := by simp [FleetWorld.start]
  settled := by simp [FleetWorld.start]
  kills _ _ _ h := by simp [FleetWorld.start] at h

theorem applyEvent_state {rec rec' : FleetRecord} {event : FleetEvent} {respooledTo : String} {pid : Option ℕ}
    {currentStep : Option String} {runtime : Option ℤ}
    (h : applyEvent rec event respooledTo pid currentStep runtime = .ok rec') :
    ∃ edge, step rec.state event = some edge ∧ rec'.state = edge.target := by
  rw [applyEvent] at h
  cases hedge : step rec.state event with
  | none => simp [hedge] at h
  | some edge =>
    simp only [hedge] at h
    split_ifs at h <;> exact ⟨edge, rfl, by rw [← Except.ok.inj h]⟩

theorem target_eq_killed {state : FleetState} {event : FleetEvent} {edge : Edge} (h : step state event = some edge)
    (hevent : event = .cancel ∨ event = .stop ∨ event = .respool) : edge.target = .killed := by
  rcases hevent with rfl | rfl | rfl <;> cases state <;> cases h <;> rfl

variable {rec : FleetRecord} {writer : Writer}

theorem killRecord_state {file : Option RecordFile} {kill : Kill}
    (h : killRecord file kill = .ok rec) : rec.state = .killed := by
  rw [killRecord] at h
  cases hread : readRecord file with
  | error refusal => simp [hread, bind, Except.bind] at h
  | ok found =>
    simp only [hread, bind, Except.bind] at h
    cases kill with
    | cancel =>
      obtain ⟨edge, hedge, hstate⟩ := applyEvent_state h
      rw [hstate, target_eq_killed hedge (.inl rfl)]
    | stop =>
      obtain ⟨edge, hedge, hstate⟩ := applyEvent_state h
      rw [hstate, target_eq_killed hedge (.inr (.inl rfl))]
    | respool successor =>
      obtain ⟨edge, hedge, hstate⟩ := applyEvent_state h
      rw [hstate, target_eq_killed hedge (.inr (.inr rfl))]

variable {w : FleetWorld P}

/-! ## Steps keep the invariant -/

theorem afterVerdict_ne_kill {localHost : String} {dryRun alive : Bool} {rec rec' : FleetRecord}
    {rest rest' : List FleetRecord} : afterVerdict localHost dryRun rec alive rest ≠ .writing .kill rec' rest' := by
  rw [afterVerdict]
  split
  · split
    · simp
    · split_ifs <;> simp
  · simp

theorem Sound.law_write (hw : Sound w)
    (hallows : Allows (w.registry.get? rec.session_id) writer) : SingleWriter (writeRecord w writer rec).log where
  launches := by
    refine pairwise_append.mpr ⟨hw.law.launches, pairwise_singleton .., fun write hwrite later hlater ↦ ?_⟩
    obtain rfl := mem_singleton.mp hlater
    rintro - rfl hsession
    exact hw.present write hwrite (hsession ▸ hallows)
  settled := by
    refine pairwise_append.mpr ⟨hw.law.settled, pairwise_singleton .., fun write hwrite later hlater ↦ ?_⟩
    obtain rfl := mem_singleton.mp hlater
    rintro hfinish hwrote rfl hsession
    have hfound := hw.settled write hwrite hfinish hwrote
    rw [show write.session = rec.session_id from hsession] at hfound
    exact hfound.elim hallows.1 hallows.2
  killed write hwrite hwriter := by
    rcases mem_append.mp hwrite with hwrite | hwrite
    · exact hw.law.killed write hwrite hwriter
    · obtain rfl := mem_singleton.mp hwrite
      rcases hwriter with rfl | rfl
      · exact hallows.2
      · exact hallows.2

theorem Sound.write (hw : Sound w)
    (hallows : Allows (w.registry.get? rec.session_id) writer) (hkill : writer = .kill → rec.state = .killed) :
    Sound (writeRecord w writer rec) where
  law := hw.law_write hallows
  present write hwrite := by
    rw [writeRecord, InsertionMap.get?_set]
    split_ifs with hsession
    · exact Option.some_ne_none _
    · rcases mem_append.mp hwrite with hwrite | hwrite
      · exact hw.present write hwrite
      · exact absurd (congrArg Write.session (mem_singleton.mp hwrite)) (Ne.symm hsession)
  settled write hwrite hfinish hwrote := by
    rw [writeRecord, InsertionMap.get?_set]
    rcases mem_append.mp hwrite with hwrite | hwrite
    · have hpresent := hw.present write hwrite
      split_ifs with hsession
      · -- of the writes that are allowed over a settled record only a kill is left
        have hfound := hw.settled write hwrite hfinish hwrote
        rw [← hsession] at hfound
        cases writer with
        | launch => exact absurd (hsession ▸ hallows) hpresent
        | kill => exact .inr (congrArg some (hkill rfl))
        | finish => exact absurd hfound (not_or.mpr hallows)
        | sweep => exact absurd hfound (not_or.mpr hallows)
      · exact hw.settled write hwrite hfinish hwrote
    · obtain rfl := mem_singleton.mp hwrite
      rw [if_pos rfl]
      exact .inl (congrArg some hwrote)
  kills := hw.kills

variable [DecidableEq P]

theorem Sound.setPhase (hw : Sound w) (p : P) {phase : Phase}
    (hphase : ∀ rec rest, phase = .writing .kill rec rest → rec.state = .killed) : Sound (w.setPhase p phase) where
  law := hw.law
  present := hw.present
  settled := hw.settled
  kills q rec rest h := by
    by_cases hqp : q = p
    · subst hqp
      exact hphase rec rest (by simpa [FleetWorld.setPhase] using h)
    · exact hw.kills q rec rest (by simpa [FleetWorld.setPhase, hqp] using h)

theorem Sound.proceed (hw : Sound w) (p : P) {outcome : Except Refusal FleetRecord}
    (houtcome : ∀ rec, outcome = .ok rec → writer = .kill → rec.state = .killed) :
    Sound (w.proceed p writer outcome) := by
  cases outcome with
  | error refusal => exact hw.setPhase p (by simp)
  | ok rec =>
    refine hw.setPhase p fun rec' rest h ↦ ?_
    obtain ⟨rfl, rfl, -⟩ := Phase.writing.inj h
    exact houtcome rec rfl rfl

theorem sound_advance (hostOf : P → String) (hw : Sound w) (p : P) (hallows : AllowsAt w (w.phases p)) :
    Sound (w.advance hostOf p) := by
  rw [FleetWorld.advance]
  cases hphase : w.phases p with
  | idle => exact hw
  | called command =>
    cases command with
    | launch session pid => exact hw.proceed p (by simp)
    | finish session outcome pid currentStep => exact hw.proceed p (by simp)
    | kill session kill => exact hw.proceed p fun rec hrec _ ↦ killRecord_state hrec
    | sweep dryRun => exact hw.setPhase p (by simp)
  | scanning dryRun sessions records =>
    cases sessions with
    | nil => exact hw.setPhase p (by simp)
    | cons session sessions =>
      dsimp only
      cases hread : readRecord (w.registry.get? session) with
      | error refusal => exact hw.setPhase p (by simp)
      | ok rec => exact hw.setPhase p (by simp)
  | judging dryRun records =>
    cases records with
    | nil => exact hw.setPhase p (by simp)
    | cons rec rest =>
      dsimp only
      split_ifs
      · exact hw.setPhase p (by simp)
      · exact hw.setPhase p fun _ _ h ↦ absurd h afterVerdict_ne_kill
  | probed dryRun rec alive rest => exact hw.setPhase p fun _ _ h ↦ absurd h afterVerdict_ne_kill
  | writing writer rec rest =>
    rw [hphase] at hallows
    have hwrite := hw.write hallows fun hkill ↦ hw.kills p rec rest (hkill ▸ hphase)
    cases writer with
    | launch => exact hwrite.setPhase p (by simp)
    | finish => exact hwrite.setPhase p (by simp)
    | kill => exact hwrite.setPhase p (by simp)
    | sweep => exact hwrite.setPhase p (by simp)

theorem sound_fleetStep (hostOf : P → String) (hw : Sound w) (op : FleetOp P) (hallows : AllowedStep w op) :
    Sound (fleetStep hostOf w op) := by
  cases op with
  | call p command =>
    rw [fleetStep]
    split
    · exact hw.setPhase p (by simp)
    · exact hw
  | step p => exact sound_advance hostOf hw p hallows
  | tick ms => exact ⟨hw.law, hw.present, hw.settled, hw.kills⟩
  | started host pid => exact ⟨hw.law, hw.present, hw.settled, hw.kills⟩
  | exited host pid => exact ⟨hw.law, hw.present, hw.settled, hw.kills⟩

/-! ## Runs -/

/-- In a run in which each write finds what it may, every write of every session keeps the law. -/
theorem singleWriter_run (hostOf : P → String) (registry : InsertionMap String RecordFile)
    (alive : String → ℕ → Bool) (clock : ℕ) (ops : List (FleetOp P))
    (hops : Guarded (fleetStep hostOf) AllowedStep (FleetWorld.start P registry alive clock) ops) :
    SingleWriter (run (fleetStep hostOf) (FleetWorld.start P registry alive clock) ops).log := by
  have hstep : ∀ w op, Sound w → AllowedStep w op → Sound (fleetStep hostOf w op) :=
    fun w op hw hallows ↦ sound_fleetStep hostOf hw op hallows
  exact (invariant_run_of_guarded hstep (sound_start registry alive clock) hops).law

/-- An empty registry on a host where the process 7 is alive. -/
def emptyFleet : FleetWorld ℕ := FleetWorld.start ℕ ∅ (fun _ pid ↦ pid = 7) 0

theorem singleWriter_run_launched :
    SingleWriter (run (fleetStep fun _ ↦ "hub") emptyFleet
      [.call 0 (.launch "hunt" 7), .step 0, .step 0, .call 0 (.finish "hunt" .settled 7 none), .step 0, .step 0]).log :=
  singleWriter_run _ ∅ _ 0 _ (by decide)

/-- A holder settles its record and exits after a sweep has read the record, and before the sweep probes it. -/
def settledDuringSweep : List (FleetOp ℕ) :=
  [.call 0 (.launch "hunt" 7), .step 0, .step 0,
    .call 1 (.sweep false), .step 1, .step 1, .step 1,
    .call 0 (.finish "hunt" .settled 7 none), .step 0, .step 0, .exited "hub" 7,
    .step 1, .step 1, .step 1]

theorem not_singleWriter_settledDuringSweep :
    ¬ SingleWriter (run (fleetStep fun _ ↦ "hub") emptyFleet settledDuringSweep).log :=
  fun h ↦ absurd h.settled (by decide)

/-- Two launches of one session that both look before either writes. -/
example : ¬ SingleWriter (run (fleetStep fun _ ↦ "hub") emptyFleet
    [.call 0 (.launch "hunt" 7), .call 1 (.launch "hunt" 7), .step 0, .step 1, .step 0, .step 1]).log :=
  fun h ↦ absurd h.launches (by decide)

end Amicode.Fleet
