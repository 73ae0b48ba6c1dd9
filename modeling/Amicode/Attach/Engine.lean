import Amicode.Attach.Machine

/-!
# The two-phase mode-transition engine

`ModeTransitionEngine` (`attach_state.ts`) takes a human-confirmed proposal through stage, verify
and commit over a mode machine. Staging snapshots the mode-scoped state; a structural failure of
the attach test rolls back to the snapshot; committing journals the intention before it writes the
mode, so that an interrupted commit can be resumed, aborted, or recovered from the journal.

Verifying is asynchronous. A call starts an attempt, which first waits for the drain hook, when
there is one, and then for the attach test or the expiry of the budget; between these points every
other operation may run. When an attempt settles it writes the engine's state, whatever that state
has become. Attempts are kept in the order they were started, and a settlement names one.

`randomUUID` is a counter: a proposal's id differs from every id drawn before. The kill hooks, the
clock and how an attempt settles are part of the operations. An operation that throws changes
nothing, except that a hook's own exception escapes after what was written before it.
-/

open List

namespace Amicode.Attach

/-! ## The engine -/

inductive ModeTransitionEngineState where
  | idle
  | staged
  | verified
  | commitPending
  | committed
  | rolledBack
deriving DecidableEq

def ModeTransitionEngineState.name : ModeTransitionEngineState → String
  | .idle => "idle"
  | .staged => "staged"
  | .verified => "verified"
  | .commitPending => "commit-pending"
  | .committed => "committed"
  | .rolledBack => "rolled-back"

def ModeTransitionEngineState.inFlight : ModeTransitionEngineState → Bool
  | .staged | .verified | .commitPending => true
  | .idle | .committed | .rolledBack => false

/-- Where a kill halted the engine. -/
inductive HaltPoint where
  | preCommit
  | midCommit
deriving DecidableEq

/-- What a kill hook does at its boundary. -/
inductive HookResult where
  | proceed
  | halt
  | crash
deriving DecidableEq

/-- Where a verify attempt stands. -/
inductive AttemptPhase where
  | draining
  | testing
  | settled
deriving DecidableEq

/-- A verify attempt: the transition it was started for, and where it stands. -/
structure VerifyAttempt where
  transitionId : ℕ
  phase : AttemptPhase
deriving DecidableEq

/-- How an attach test settles: with an outcome, by the expiry of the budget, or by throwing. -/
inductive Settlement where
  | pass
  | transientFail
  | structuralFail
  | expired
  | throws
deriving DecidableEq

structure EngineOptions where
  /-- Is there an `onVerifyEntry` hook? -/
  drains : Bool
  pendingCapMs : ℤ

structure StageInput where
  toMode : AttachMode
  apply : Option (List (String × JsValue)) := none
  modeScopedFields : List String := []

/-- The engine, with the machine it runs on and the verify attempts it has started. -/
structure ModeTransitionEngine where
  machine : ModeMachine
  state : ModeTransitionEngineState := .idle
  haltedAt : Option HaltPoint := none
  proposal : Option TransitionProposalRecord := none
  snapshot : Option TransitionSnapshot := none
  pendingSinceMs : Option ℤ := none
  windowOpen : Bool := false
  /-- What the window hook has been told, a true transition being `open`. -/
  notified : List Bool := []
  attempts : List VerifyAttempt := []
  nextId : ℕ := 0

/-! ## The snapshot -/

/-- Do the two machine-owned fields come first? -/
def Headed (fields : AttachStateRecord) : Prop :=
  ∃ m s rest, fields.entries = ("mode", m) :: ("state", s) :: rest

theorem Headed.set {fields : AttachStateRecord} (h : Headed fields) (key : String)
    (value : JsValue) : Headed (fields.set key value) := by
  obtain ⟨m, s, rest, hentries⟩ := h
  by_cases hmode : "mode" = key
  · exact ⟨value, s, rest, by simp [InsertionMap.set, hentries, InsertionMap.Entries.set, hmode]⟩
  · by_cases hstate : "state" = key
    · exact ⟨m, value, rest, by
        simp [InsertionMap.set, hentries, InsertionMap.Entries.set, hmode, hstate]⟩
    · exact ⟨m, s, InsertionMap.Entries.set rest key value, by
        simp [InsertionMap.set, hentries, InsertionMap.Entries.set, hmode, hstate]⟩

theorem Headed.setAll {fields : AttachStateRecord} (h : Headed fields)
    (updates : List (String × JsValue)) : Headed (fields.setAll updates) := by
  induction updates generalizing fields with
  | nil => exact h
  | cons e updates ih => exact ih (h.set e.1 e.2)

/-- The machine-owned part of a snapshot. -/
def pinnedFields (record : AttachStateRecord) : AttachStateRecord :=
  let resolved := resolveAttachState record
  let state := field record "state"
  ((∅ : AttachStateRecord).set "mode" resolved.mode.value).set "state"
    (if state ≠ .undefined then state
      else (legacyStateOf resolved.mode resolved.posture).value)

def takeSnapshot (record : AttachStateRecord) (modeScopedFields : List String)
    (h : "posture" ∉ modeScopedFields) : TransitionSnapshot :=
  { mode := (resolveAttachState record).mode
    fields := (pinnedFields record).setAll (modeScopedFields.map fun f ↦ (f, field record f))
    shape := Headed.setAll ⟨_, _, [], rfl⟩ _
    unpostured := by
      have hnot : "posture" ∉ (modeScopedFields.map fun f ↦ (f, field record f)).map Prod.fst := by
        simpa using h
      rw [InsertionMap.contains, InsertionMap.get?_setAll_of_not_mem _ hnot]
      rfl }

/-! ## The operations -/

namespace ModeTransitionEngine

/-- `fireWindow`: the latch, which tells the hook of true transitions only. -/
def fireWindow (isOpen : Bool) (e : ModeTransitionEngine) : ModeTransitionEngine :=
  { e with
    windowOpen := isOpen
    notified := if isOpen = e.windowOpen then e.notified else e.notified ++ [isOpen] }

def journalVerify (outcome : VerifyKind) (e : ModeTransitionEngine) : ModeTransitionEngine :=
  { e with machine := e.machine.appendJournal (.transitionVerify outcome) }

def stage (input : StageInput) (e : ModeTransitionEngine) : Except String ModeTransitionEngine :=
  let current := e.machine.resolve.mode
  if e.state.inFlight then
    .error ("stage: a transition is already in flight (state \"" ++ e.state.name ++ "\")")
  else if input.toMode = current then
    .error ("stage: already confirmed in mode \"" ++ current.name ++ "\" — no transition to stage")
  else if h : "posture" ∈ input.modeScopedFields then
    .error ("stage: posture is transport-owned render state and is never mode-scoped (ADR-0005)")
  else
    let snapshot := takeSnapshot e.machine.record input.modeScopedFields h
    let proposal : TransitionProposalRecord :=
      { id := e.nextId, fromMode := current, toMode := input.toMode, apply := input.apply
        modeScopedFields := input.modeScopedFields }
    .ok { e with
      machine := e.machine.appendJournal (.transitionStage snapshot proposal)
      state := .staged
      haltedAt := none
      proposal := some proposal
      snapshot := some snapshot
      pendingSinceMs := none
      nextId := e.nextId + 1 }

/-- `verify`, up to its first await: an attempt is started. -/
def verify (options : EngineOptions) (e : ModeTransitionEngine) :
    Except String ModeTransitionEngine :=
  match e.state, e.proposal with
  | .staged, some proposal | .verified, some proposal =>
    if options.drains then
      .ok { e with attempts := e.attempts ++ [⟨proposal.id, .draining⟩] }
    else
      .ok (fireWindow true { e with attempts := e.attempts ++ [⟨proposal.id, .testing⟩] })
  | state, _ =>
    .error ("verify: no staged transition to verify (state \"" ++ state.name ++ "\")")

/-- The drain hook of an attempt settles: the attach test begins, or the attempt is rejected. -/
def drainSettled (i : ℕ) (drained : Bool) (e : ModeTransitionEngine) :
    Except String ModeTransitionEngine :=
  match e.attempts[i]? with
  | some ⟨id, .draining⟩ =>
    if drained then .ok (fireWindow true { e with attempts := e.attempts.set i ⟨id, .testing⟩ })
    else .ok { e with attempts := e.attempts.set i ⟨id, .settled⟩ }
  | _ => .error "no such drain"

/-- `applyRollback`: restore the snapshot. -/
def applyRollback (e : ModeTransitionEngine) : Except String ModeTransitionEngine :=
  match e.snapshot with
  | none => .error "no snapshot"
  | some snapshot =>
    (e.machine.restoreModeScoped snapshot.fields).map fun machine ↦
      fireWindow false { e with
        machine := machine.appendJournal (.transitionRollback snapshot.mode)
        state := .rolledBack
        haltedAt := none
        pendingSinceMs := none }

/-- The attach test of an attempt settles. -/
def settle (i : ℕ) (how : Settlement) (e : ModeTransitionEngine) :
    Except String ModeTransitionEngine :=
  match e.attempts[i]? with
  | some ⟨id, .testing⟩ =>
    let e := { e with attempts := e.attempts.set i ⟨id, .settled⟩ }
    match how with
    | .pass =>
      -- the window stays open through the commit
      .ok { journalVerify .pass e with state := .verified }
    | .transientFail | .expired =>
      .ok (fireWindow false { journalVerify .transientFail e with state := .staged })
    | .structuralFail => applyRollback (journalVerify .structuralFail e)
    | .throws => .ok e
  | _ => .error "no such attempt"

def completeCommit (e : ModeTransitionEngine) : Except String ModeTransitionEngine :=
  match e.proposal with
  | none => .error "no proposal"
  | some proposal =>
    let confirmed := e.machine.confirmMode proposal.toMode
    let applied := match proposal.apply with
      | some patch => confirmed.overlayRewrite patch
      | none => confirmed
    .ok (fireWindow false { e with
      machine := applied.appendJournal (.transitionCommit proposal.toMode)
      state := .committed
      haltedAt := none
      pendingSinceMs := none })

/-- `commit`: the commit-pending record is journaled before any state is written. -/
def commit (pre mid : HookResult) (now : ℤ) (e : ModeTransitionEngine) :
    Except String ModeTransitionEngine :=
  if e.state ≠ .verified then
    .error ("commit: the transition is not verified (state \"" ++ e.state.name ++ "\")")
  else
    match e.proposal, e.snapshot with
    | some proposal, some snapshot =>
      match pre with
      | .halt => .ok { e with haltedAt := some .preCommit }
      | .crash => .ok e
      | .proceed =>
        let pending : ModeTransitionEngine := { e with
          machine := e.machine.appendJournal (.transitionCommitPending snapshot proposal now)
          state := .commitPending
          pendingSinceMs := some now }
        match mid with
        | .halt => .ok { pending with haltedAt := some .midCommit }
        | .crash => .ok pending
        | .proceed => pending.completeCommit
    | _, _ => .error "no transition"

def resume (pre mid : HookResult) (now : ℤ) (e : ModeTransitionEngine) :
    Except String ModeTransitionEngine :=
  match e.state with
  | .verified => commit pre mid now { e with haltedAt := none }
  | .commitPending => e.completeCommit
  | state => .error ("resume: nothing to resume (state \"" ++ state.name ++ "\")")

/-- `capElapsed`. -/
def capElapsed (options : EngineOptions) (now : ℤ) (e : ModeTransitionEngine) : Bool :=
  match e.pendingSinceMs with
  | none => false
  | some since => options.pendingCapMs ≤ now - since

def resolvePendingVia (action : ResolveAction) (via : ResolveVia) (e : ModeTransitionEngine) :
    Except String ModeTransitionEngine :=
  let e : ModeTransitionEngine := { e with
    machine := e.machine.appendJournal (.transitionResolve action via)
    pendingSinceMs := none }
  match action with
  | .resume => e.completeCommit
  | .abort => e.applyRollback

/-- `resolvePending`: the choice the elapsed cap surfaces. -/
def resolvePending (options : EngineOptions) (action : ResolveAction) (now : ℤ)
    (e : ModeTransitionEngine) : Except String ModeTransitionEngine :=
  if e.state ≠ .commitPending then
    .error ("resolvePending: no commit-pending transition (state \"" ++ e.state.name ++ "\")")
  else if !e.capElapsed options now then
    .error ("resolvePending: the wall-clock cap (" ++ toString options.pendingCapMs ++
      "ms) has not elapsed — the choice is not surfaced yet; forceResolvePending is the local verb")
  else e.resolvePendingVia action .capChoice

def forceResolvePending (action : ResolveAction) (e : ModeTransitionEngine) :
    Except String ModeTransitionEngine :=
  if e.state ≠ .commitPending then
    .error ("forceResolvePending: no commit-pending transition (state \"" ++ e.state.name ++ "\")")
  else e.resolvePendingVia action .force

def rollback (e : ModeTransitionEngine) : Except String ModeTransitionEngine :=
  match e.state with
  | .rolledBack => .ok e
  | .staged | .verified => e.applyRollback
  | .commitPending => .error ("rollback: no in-flight transition to roll back (state " ++
      "\"commit-pending\") — resolve the pending transition via resolvePending/forceResolvePending")
  | state =>
    .error ("rollback: no in-flight transition to roll back (state \"" ++ state.name ++ "\")")

/-- The commit-pending entry a journal leaves open. -/
def openPending (journal : List ModeJournalEntry) :
    Option (TransitionSnapshot × TransitionProposalRecord × ℤ) :=
  journal.foldl (fun pending entry ↦ match entry with
    | .transitionCommitPending snapshot proposal sinceMs => some (snapshot, proposal, sinceMs)
    | .transitionCommit _ | .transitionResolve _ _ => none
    | .humanConfirm _ | .transitionStage _ _ | .transitionVerify _ | .transitionRollback _ =>
      pending) none

/-- A fresh engine on a machine, after the death of the one before it and of its verify attempts:
`recoverFromJournal` takes up a commit-pending transition. -/
def recover (machine : ModeMachine) (nextId : ℕ) : ModeTransitionEngine :=
  match openPending machine.journal with
  | none => { machine := machine, nextId := nextId }
  | some (snapshot, proposal, sinceMs) =>
    fireWindow true
      { machine := machine
        state := .commitPending
        haltedAt := some .midCommit
        proposal := some proposal
        snapshot := some snapshot
        pendingSinceMs := some sinceMs
        nextId := nextId }

end ModeTransitionEngine

/-! ## Runs -/

inductive EngineOp where
  | stage (input : StageInput)
  | verify
  | drainSettled (i : ℕ) (drained : Bool)
  | settle (i : ℕ) (how : Settlement)
  | rollback
  | commit (pre mid : HookResult) (now : ℤ)
  | resume (pre mid : HookResult) (now : ℤ)
  | resolvePending (action : ResolveAction) (now : ℤ)
  | forceResolvePending (action : ResolveAction)

namespace ModeTransitionEngine

variable (options : EngineOptions)

/-- One operation, which may throw. -/
def apply (e : ModeTransitionEngine) : EngineOp → Except String ModeTransitionEngine
  | .stage input => e.stage input
  | .verify => e.verify options
  | .drainSettled i drained => e.drainSettled i drained
  | .settle i how => e.settle i how
  | .rollback => e.rollback
  | .commit pre mid now => e.commit pre mid now
  | .resume pre mid now => e.resume pre mid now
  | .resolvePending action now => e.resolvePending options action now
  | .forceResolvePending action => e.forceResolvePending action

/-- One operation; one that throws changes nothing. -/
def step (e : ModeTransitionEngine) (op : EngineOp) : ModeTransitionEngine :=
  match e.apply options op with
  | .ok e' => e'
  | .error _ => e

end ModeTransitionEngine

end Amicode.Attach

/-!
# What a rollback restores

A rollback puts back the fields of a snapshot one after the other: the mode first, and with it the
legacy field; then the legacy field of the snapshot; then the overlay fields. `field_restored` says
what the three machine-owned fields are afterwards. Everything both laws of the engine need about a
rollback follows from it.
-/

namespace Amicode.Attach

def restored (s : TransitionSnapshot) (record : AttachStateRecord) : AttachStateRecord :=
  s.fields.entries.foldl restoreField record

theorem restoreModeScoped_eq (m : ModeMachine) (s : TransitionSnapshot) :
    m.restoreModeScoped s.fields = .ok { m with record := restored s m.record } := by
  rw [ModeMachine.restoreModeScoped, if_neg (by simp [s.unpostured])]
  rfl

theorem field_restoreField (record : AttachStateRecord) {e : String × JsValue}
    (he : e.1 ≠ "mode") (k : String) :
    field (restoreField record e) k = if e.1 = k then e.2 else field record k := by
  rw [restoreField, if_neg he]
  split_ifs with hsame hk hk
  · rw [← hk]
    exact hsame
  · rfl
  · rw [mergeAttachState, InsertionMap.setAll, foldl_cons, foldl_nil, field_set,
      if_pos hk]
  · rw [mergeAttachState, InsertionMap.setAll, foldl_cons, foldl_nil, field_set,
      if_neg hk]

theorem field_restoreMode (record : AttachStateRecord) (value : JsValue) :
    field (restoreField record ("mode", value)) "mode"
        = (if (resolveAttachState record).mode.value = value then field record "mode" else value)
      ∧ field (restoreField record ("mode", value)) "posture" = field record "posture" := by
  rw [restoreField, if_pos rfl]
  split_ifs
  · exact ⟨rfl, rfl⟩
  · rw [mergeAttachState]
    constructor <;> simp [InsertionMap.setAll, field_set]

theorem field_foldl_restoreField (entries : List (String × JsValue)) (record : AttachStateRecord)
    (hmode : "mode" ∉ entries.map Prod.fst) {k : String} (hk : k ∉ entries.map Prod.fst) :
    field (entries.foldl restoreField record) k = field record k := by
  induction entries generalizing record with
  | nil => rfl
  | cons e entries ih =>
    rw [map_cons, mem_cons, not_or] at hmode hk
    rw [foldl_cons, ih _ hmode.2 hk.2, field_restoreField record (Ne.symm hmode.1),
      if_neg (Ne.symm hk.1)]

theorem field_restored (s : TransitionSnapshot) (record : AttachStateRecord) :
    field (restored s record) "mode"
        = (if (resolveAttachState record).mode.value = field s.fields "mode"
            then field record "mode" else field s.fields "mode")
      ∧ field (restored s record) "state" = field s.fields "state"
      ∧ field (restored s record) "posture" = field record "posture" := by
  obtain ⟨m, st, rest, hentries⟩ := s.shape
  have hkeys : ("mode" :: "state" :: rest.map Prod.fst).Nodup := by
    have := s.fields.nodup
    rwa [hentries] at this
  simp only [nodup_cons, mem_cons, not_or] at hkeys
  obtain ⟨⟨-, hmode⟩, hstate, -⟩ := hkeys
  have hposture : "posture" ∉ rest.map Prod.fst := by
    intro hmem
    have hkey : "posture" ∈ s.fields.keys := by
      rw [InsertionMap.keys, hentries]
      exact mem_cons_of_mem _ (mem_cons_of_mem _ hmem)
    exact absurd ((s.fields.contains_iff "posture").mpr hkey) (by simp [s.unpostured])
  have hm : field s.fields "mode" = m := by
    rw [field, InsertionMap.get?, hentries]
    rfl
  have hst : field s.fields "state" = st := by
    rw [field, InsertionMap.get?, hentries]
    rfl
  obtain ⟨hmode₁, hposture₁⟩ := field_restoreMode record m
  rw [restored, hentries, foldl_cons, foldl_cons, hm, hst]
  refine ⟨?_, ?_, ?_⟩
  · rw [field_foldl_restoreField rest _ hmode hmode, field_restoreField _ (by simp)]
    exact hmode₁
  · rw [field_foldl_restoreField rest _ hmode hstate, field_restoreField _ (by simp), if_pos rfl]
  · rw [field_foldl_restoreField rest _ hmode hposture, field_restoreField _ (by simp)]
    exact hposture₁

/-! ## The mode after a restore -/

/-- The mode field itself names a mode. -/
def Named (record : AttachStateRecord) : Prop := (field record "mode").mode? ≠ none

variable {record : AttachStateRecord}

theorem mode_of_field {mode : AttachMode}
    (h : field record "mode" = mode.value) : (resolveAttachState record).mode = mode := by
  rw [resolveAttachState, h, mode?_value, Option.getD_some]

theorem named_of_field {mode : AttachMode} (h : field record "mode" = mode.value) : Named record := by
  rw [Named, h, mode?_value]
  exact Option.some_ne_none mode

theorem Named.field_eq (h : Named record) : field record "mode" = (resolveAttachState record).mode.value := by
  obtain ⟨mode, hmode⟩ := Option.ne_none_iff_exists'.mp h
  rw [resolveAttachState, hmode]
  exact mode?_eq_some hmode

theorem mode_of_not_named (h : ¬ Named record) :
    (resolveAttachState record).mode = (field record "state").legacyMode := by
  rw [resolveAttachState, not_not.mp h]
  rfl

section Mode

variable {s : TransitionSnapshot} {record : AttachStateRecord}

/-- The mode after a restore is the mode of the snapshot, if the snapshot names it, or carries it in
its legacy field; and it must carry it there if the record does not name its mode. -/
theorem mode_restored {mode : AttachMode}
    (hfields : field s.fields "mode" = mode.value
      ∨ (¬ Named s.fields ∧ (field s.fields "state").legacyMode = mode))
    (hrecord : ¬ Named record → (field s.fields "state").legacyMode = mode) :
    (resolveAttachState (restored s record)).mode = mode := by
  obtain ⟨hmode, hstate, -⟩ := field_restored s record
  by_cases hsame : (resolveAttachState record).mode.value = field s.fields "mode"
  · -- nothing is written: the record has the mode already, in one of its two fields
    rw [if_pos hsame] at hmode
    have hnames : field s.fields "mode" = mode.value :=
      hfields.resolve_right fun h ↦ h.1 (named_of_field hsame.symm)
    by_cases hnamed : Named record
    · rw [hnamed.field_eq, hsame, hnames] at hmode
      exact mode_of_field hmode
    · have hnot : ¬ Named (restored s record) := by rwa [Named, hmode]
      rw [mode_of_not_named hnot, hstate]
      exact hrecord hnamed
  · rw [if_neg hsame] at hmode
    rcases hfields with hnames | ⟨hnot, hlegacy⟩
    · exact mode_of_field (hmode.trans hnames)
    · have hnot : ¬ Named (restored s record) := by rwa [Named, hmode]
      rw [mode_of_not_named hnot, hstate, hlegacy]

theorem named_restored (hfields : Named s.fields) (hrecord : Named record) :
    Named (restored s record) := by
  obtain ⟨hmode, -, -⟩ := field_restored s record
  rw [Named, hmode]
  split_ifs
  · exact hrecord
  · exact hfields

end Mode

/-! ## The fields of a fresh snapshot -/

variable (record)

/-- What `stage` pins: the legacy field of the record, or its projection where there is none; and
the resolved mode, unless the mode field itself is mode-scoped and names no mode. -/
theorem field_takeSnapshot (names : List String) (h : "posture" ∉ names) :
    (field (takeSnapshot record names h).fields "mode" = (resolveAttachState record).mode.value
        ∨ field (takeSnapshot record names h).fields "mode" = field record "mode")
      ∧ (field (takeSnapshot record names h).fields "state" = field record "state"
        ∨ (field record "state" = .undefined ∧ field (takeSnapshot record names h).fields "state"
            = (legacyStateOf (resolveAttachState record).mode (resolveAttachState record).posture).value)) := by
  have hset : ∀ (fields : AttachStateRecord) (k : String),
      field (fields.setAll (names.map fun f ↦ (f, field record f))) k = field fields k
        ∨ field (fields.setAll (names.map fun f ↦ (f, field record f))) k = field record k := by
    clear h
    induction names with
    | nil => exact fun fields k ↦ Or.inl rfl
    | cons f names ih =>
      intro fields k
      rcases ih (fields.set f (field record f)) k with heq | heq
      · rw [field_set] at heq
        by_cases hf : f = k
        · rw [if_pos hf] at heq
          exact Or.inr (heq.trans (congrArg (field record) hf))
        · rw [if_neg hf] at heq
          exact Or.inl heq
      · exact Or.inr heq
  constructor
  · rcases hset (pinnedFields record) "mode" with heq | heq
    · exact Or.inl heq
    · exact Or.inr heq
  · rcases hset (pinnedFields record) "state" with heq | heq
    · have hpinned : field (pinnedFields record) "state"
          = if field record "state" ≠ .undefined then field record "state"
            else (legacyStateOf (resolveAttachState record).mode
              (resolveAttachState record).posture).value := by
        rw [pinnedFields, field_set, if_pos rfl]
      rw [hpinned] at heq
      by_cases hundef : field record "state" = .undefined
      · rw [if_neg (not_not.mpr hundef)] at heq
        exact Or.inr ⟨hundef, heq⟩
      · rw [if_pos hundef] at heq
        exact Or.inl heq
    · exact Or.inl heq

theorem mode_takeSnapshot (names : List String) (h : "posture" ∉ names) :
    field (takeSnapshot record names h).fields "mode" = (resolveAttachState record).mode.value
      ∨ (¬ Named (takeSnapshot record names h).fields ∧ ¬ Named record) := by
  rcases (field_takeSnapshot record names h).1 with hmode | hmode
  · exact Or.inl hmode
  · by_cases hnamed : Named record
    · exact Or.inl (hmode.trans hnamed.field_eq)
    · exact Or.inr ⟨by rwa [Named, hmode], hnamed⟩

end Amicode.Attach
