import Amicode.Queue.Laws
import Mathlib.Algebra.Order.Ring.Int

/-!
# The retry budget of a proposal

A failed fetch of a proposal's truth blocks it, counts an attempt and arms a retry timer; with `maxRetries` attempts
a blocked proposal is skipped by every drain. The budget is meant for one blocked episode, which a successful fetch
ends. The attempts are kept in the stored record.

`RetryState` counts beside the queue how often the fetch of each proposal has failed since it last succeeded. The
attempts of a blocked proposal are these failures as long as every episode begins with no attempts (`Renewed`), and
not longer: a successful fetch stages the proposal again and leaves its attempts as they are.
-/

open Function

namespace Amicode.Queue

/-- The proposal whose truth is being fetched. -/
def ProposalQueue.fetching? (q : ProposalQueue) : Option QueuedProposal :=
  match q.running with
  | some ⟨_, _, .fetching p⟩ => some p
  | _ => none

/-- A queue, and how often the fetch of each proposal has failed since it last succeeded. -/
structure RetryState where
  queue : ProposalQueue
  failures : ℕ → ℕ

/-- The failures after a step: a failed fetch is counted, a successful one begins anew. -/
def RetryState.failuresAfter (s : RetryState) : QueueOp → ℕ → ℕ
  | .fetched outcome =>
    match s.queue.fetching?, outcome with
    | some p, .error _ => Function.update s.failures p.id (s.failures p.id + 1)
    | some p, .ok _ => Function.update s.failures p.id 0
    | none, _ => s.failures
  | _ => s.failures

def RetryState.step (options : ProposalQueueOptions) (s : RetryState) (op : QueueOp) : RetryState :=
  ⟨s.queue.step options op, s.failuresAfter op⟩

/-- A queue on an empty store. -/
def RetryState.start (machine : Attach.ModeMachine) : RetryState := ⟨.fromStore machine {} 0, fun _ ↦ 0⟩

/-- No drain fetches the proposal any more. -/
def Exhausted (options : ProposalQueueOptions) (p : QueuedProposal) : Prop :=
  p.state = .blockedDegraded ∧ options.config.maxRetries ≤ p.attempts

/-- The attempts are within the budget, and those of a blocked proposal are the failures of its episode. -/
structure BudgetLaw (options : ProposalQueueOptions) (s : RetryState) : Prop where
  bound : ∀ p ∈ s.queue.file.proposals, (p.attempts : ℤ) ≤ options.config.maxRetries
  episode : ∀ p ∈ s.queue.file.proposals, p.state = .blockedDegraded → p.attempts = s.failures p.id

/-- The law of a step: the budget law holds after it, and a failed fetch arms a timer while budget is left. -/
structure RetryLaw (options : ProposalQueueOptions) (s : RetryState) (op : QueueOp) : Prop where
  budget : BudgetLaw options (s.step options op)
  retried : ∀ p message, op = .fetched (.error message) → s.queue.fetching? = some p →
    ((s.step options op).failures p.id : ℤ) < options.config.maxRetries →
      ∃ delay, (s.step options op).queue.timers = s.queue.timers ++ [delay]

/-- A fetch that fails belongs to an episode that is counted, or begins one with no attempts. -/
def Renewed (options : ProposalQueueOptions) (s : RetryState) (op : QueueOp) : Prop :=
  ∀ p message, op = .fetched (.error message) → s.queue.fetching? = some p →
    1 ≤ options.config.maxRetries ∧ (p.state = .blockedDegraded ∨ p.attempts = 0)

theorem BudgetLaw.of_exhausted {options : ProposalQueueOptions} {s : RetryState} (h : BudgetLaw options s)
    {p : QueuedProposal} (hp : p ∈ s.queue.file.proposals) (hexhausted : Exhausted options p) :
    (s.failures p.id : ℤ) = options.config.maxRetries := by
  obtain ⟨hstate, hmax⟩ := hexhausted
  have hbound := h.bound p hp
  have hfailures := h.episode p hp hstate
  omega

/-! ## What a drain leaves alone -/

/-- What the budget is about. -/
structure RetryCount where
  id : ℕ
  state : ProposalState
  attempts : ℕ

def QueuedProposal.count (p : QueuedProposal) : RetryCount := ⟨p.id, p.state, p.attempts⟩

def ProposalStoreFile.counts (file : ProposalStoreFile) : List RetryCount := file.proposals.map QueuedProposal.count

section Drain

variable (options : ProposalQueueOptions)

/-- A drain notes rejections, and goes on to the next proposal that can be fetched. -/
theorem runDrain_frame (rest : List ℕ) (report : DrainReport) (q : ProposalQueue) :
    (ProposalQueue.runDrain options rest report q).file.counts = q.file.counts ∧
      (ProposalQueue.runDrain options rest report q).timers = q.timers ∧
      (ProposalQueue.runDrain options rest report q).nextId = q.nextId := by
  induction rest generalizing report q with
  | nil => exact ⟨rfl, rfl, rfl⟩
  | cons id rest ih =>
    rw [ProposalQueue.runDrain]
    split
    · exact ih report q
    · next p hfind =>
      split_ifs
      · exact ih _ q
      · exact ih _ q
      · obtain ⟨hcounts, htimers, hnext⟩ := ih
          { report with rejected := report.rejected ++ [(id, contractVersionMessage p.contractVersion)] }
          ((q.update id fun p' ↦ { p' with rejection := some (contractVersionMessage p.contractVersion) }).save)
        refine ⟨hcounts.trans ?_, htimers, hnext⟩
        show List.map _ (List.map _ _) = _
        rw [List.map_map]
        refine List.map_congr_left fun p' _ ↦ ?_
        rw [comp_apply]
        split_ifs <;> rfl
      · exact ⟨rfl, rfl, rfl⟩

theorem fetching?_runDrain {options : ProposalQueueOptions} {rest : List ℕ} {report : DrainReport}
    {q : ProposalQueue} {p : QueuedProposal}
    (h : (ProposalQueue.runDrain options rest report q).fetching? = some p) :
    p ∈ (ProposalQueue.runDrain options rest report q).file.proposals ∧ p.state ≠ .pendingReconfirm ∧
      ¬ Exhausted options p := by
  induction rest generalizing report q with
  | nil => exact absurd h (by simp [ProposalQueue.runDrain, ProposalQueue.fetching?])
  | cons id rest ih =>
    rw [ProposalQueue.runDrain] at h ⊢
    split at h
    · exact ih h
    · next p' hfind =>
      split_ifs at h ⊢ with hrests hblocked hstale
      · exact ih h
      · exact ih h
      · exact ih h
      · obtain rfl := Option.some.inj h
        exact ⟨List.mem_of_find?_eq_some hfind, hrests, hblocked⟩

end Drain

/-! ## The invariant -/

structure Counted (options : ProposalQueueOptions) (failures : ℕ → ℕ) (c : RetryCount) : Prop where
  bound : (c.attempts : ℤ) ≤ options.config.maxRetries
  blocked : c.state = .blockedDegraded → c.attempts = failures c.id
  staged : c.state = .staged → failures c.id = 0

/-- The invariant of the counts. -/
structure Budgeted (options : ProposalQueueOptions) (s : RetryState) : Prop where
  sound : s.queue.Sound
  counted : ∀ c ∈ s.queue.file.counts, Counted options s.failures c
  unborn : ∀ id, s.queue.nextId ≤ id → s.failures id = 0
  fetching : ∀ p, s.queue.fetching? = some p →
    p ∈ s.queue.file.proposals ∧ p.state ≠ .pendingReconfirm ∧ ¬ Exhausted options p

variable {options : ProposalQueueOptions} {s : RetryState}

theorem Budgeted.budgetLaw (h : Budgeted options s) : BudgetLaw options s where
  bound _ hp := (h.counted _ (List.mem_map_of_mem hp)).bound
  episode _ hp := (h.counted _ (List.mem_map_of_mem hp)).blocked

theorem budgeted_start (machine : Attach.ModeMachine) :
    Budgeted options (.start machine) where
  sound := sound_fresh machine
  counted _ hc := absurd hc List.not_mem_nil
  unborn _ _ := rfl
  fetching _ hp := by simp [RetryState.start, ProposalQueue.fromStore, ProposalQueue.fetching?] at hp

variable {q : ProposalQueue} {failures : ℕ → ℕ} {p : QueuedProposal}

theorem ProposalQueue.Sound.eq_of_id (h : q.Sound) {p p' : QueuedProposal}
    (hp : p ∈ q.file.proposals) (hp' : p' ∈ q.file.proposals) (hid : p.id = p'.id) : p = p' :=
  h.accounts.eq_of_id hp hp' hid

theorem Budgeted.of_runDrain {rest : List ℕ} {report : DrainReport}
    (hsound : (ProposalQueue.runDrain options rest report q).Sound)
    (hcounted : ∀ c ∈ q.file.counts, Counted options failures c)
    (hunborn : ∀ id, q.nextId ≤ id → failures id = 0) :
    Budgeted options ⟨ProposalQueue.runDrain options rest report q, failures⟩ := by
  obtain ⟨hcounts, -, hnext⟩ := runDrain_frame options rest report q
  refine ⟨hsound, ?_, ?_, fun p hp ↦ fetching?_runDrain hp⟩
  · rw [hcounts]
    exact hcounted
  · rw [hnext]
    exact hunborn

theorem Counted.update {c : RetryCount} (h : Counted options failures c) {id n : ℕ}
    (hid : c.id ≠ id) : Counted options (Function.update failures id n) c where
  bound := h.bound
  blocked hstate := by rw [update_of_ne hid, h.blocked hstate]
  staged hstate := by rw [update_of_ne hid, h.staged hstate]

theorem unborn_update {nextId id n : ℕ} (h : ∀ i, nextId ≤ i → failures i = 0)
    (hid : id < nextId) : ∀ i, nextId ≤ i → Function.update failures id n i = 0 := by
  intro i hi
  rw [update_of_ne (by omega)]
  exact h i hi

theorem counted_written {file : ProposalStoreFile} {id : ℕ} {f : QueuedProposal → QueuedProposal}
    (hother : ∀ c ∈ file.counts, c.id ≠ id → Counted options failures c)
    (hself : ∀ p ∈ file.proposals, p.id = id → Counted options failures (f p).count) :
    ∀ c ∈ (file.written id f).counts, Counted options failures c := by
  intro c hc
  rw [ProposalStoreFile.counts, ProposalStoreFile.written, List.map_map] at hc
  obtain ⟨p, hp, rfl⟩ := List.mem_map.mp hc
  rw [comp_apply]
  split_ifs with hid
  · exact hself p hp hid
  · exact hother _ (List.mem_map_of_mem hp) hid

theorem counted_resolved {file : ProposalStoreFile} {result : JsonValue}
    (h : ∀ c ∈ file.counts, Counted options failures c) :
    ∀ c ∈ (file.resolved p result).counts, Counted options failures c := by
  intro c hc
  obtain ⟨p', hp', rfl⟩ := List.mem_map.mp hc
  exact h _ (List.mem_map_of_mem (List.mem_of_mem_filter hp'))

/-! ## The steps -/

theorem Budgeted.frame (h : Budgeted options s) (hsound : q.Sound) (hfile : q.file = s.queue.file)
    (hnext : q.nextId = s.queue.nextId) (hrunning : q.running = s.queue.running) :
    Budgeted options ⟨q, s.failures⟩ := by
  refine ⟨hsound, ?_, ?_, fun p hp ↦ ?_⟩
  · rw [hfile]
    exact h.counted
  · rw [hnext]
    exact h.unborn
  · rw [hfile]
    refine h.fetching p ?_
    rwa [ProposalQueue.fetching?, ← hrunning]

theorem Budgeted.enqueue (h : Budgeted options s) (hbudget : 0 ≤ options.config.maxRetries)
    (input : ProposalEnqueueInput) : Budgeted options ⟨s.queue.enqueue options input, s.failures⟩ := by
  have hsound : (s.queue.enqueue options input).Sound := h.sound.enqueue input
  rw [ProposalQueue.enqueue] at hsound ⊢
  split_ifs at hsound ⊢
  · exact h.frame hsound rfl rfl rfl
  · exact h.frame hsound rfl rfl rfl
  · refine ⟨hsound, fun c hc ↦ ?_, fun id hid ↦ h.unborn id (Nat.le_of_succ_le hid), fun p hp ↦ ?_⟩
    · obtain ⟨p, hp, rfl⟩ := List.mem_map.mp hc
      rcases List.mem_append.mp hp with hp | hp
      · exact h.counted _ (List.mem_map_of_mem hp)
      · -- a new proposal has no attempts, and nothing has failed under its id
        obtain rfl := List.mem_singleton.mp hp
        exact ⟨hbudget, fun hstate ↦ ProposalState.noConfusion hstate, fun _ ↦ h.unborn _ le_rfl⟩
    · obtain ⟨hp, hrest⟩ := h.fetching p hp
      exact ⟨List.mem_append_left _ hp, hrest⟩

theorem Budgeted.start (h : Budgeted options s) : Budgeted options ⟨s.queue.start options, s.failures⟩ := by
  have hsound : (s.queue.start options).Sound := h.sound.start
  rw [ProposalQueue.start] at hsound ⊢
  split at hsound
  · exact .of_runDrain hsound h.counted h.unborn
  · exact h

theorem running_of_fetching? (h : q.fetching? = some p) :
    ∃ report rest, q.running = some ⟨report, rest, .fetching p⟩ := by
  rw [ProposalQueue.fetching?] at h
  split at h
  · next report rest p' hrunning =>
    obtain rfl := Option.some.inj h
    exact ⟨report, rest, hrunning⟩
  · exact absurd h (by simp)

/-- The proposal whose fetch fails, as it is written. -/
def QueuedProposal.failed (message : String) (p : QueuedProposal) : QueuedProposal :=
  { p with state := .blockedDegraded, attempts := p.attempts + 1, lastError := some message }

theorem fetched_error (options : ProposalQueueOptions) (message : String)
    (h : q.fetching? = some p) :
    ∃ q' report rest, q.fetched options (.error message) = ProposalQueue.runDrain options rest report q' ∧
      q'.file = q.file.written p.id (.failed message) ∧ q'.nextId = q.nextId ∧
        ((p.attempts + 1 : ℕ) < options.config.maxRetries → ∃ delay, q'.timers = q.timers ++ [delay]) := by
  obtain ⟨report, rest, hrunning⟩ := running_of_fetching? h
  refine ⟨ProposalQueue.scheduleRetry options (p.attempts + 1)
    (ProposalQueue.save { q.update p.id (.failed message) with machine := q.machine.writePosture .degraded }),
    { report with blockedDegraded := report.blockedDegraded ++ [p.id] }, rest, ?_, ?_, ?_, fun hleft ↦ ?_⟩
  · rw [ProposalQueue.fetched, hrunning]
    rfl
  · rw [ProposalQueue.scheduleRetry]
    split_ifs <;> rfl
  · rw [ProposalQueue.scheduleRetry]
    split_ifs <;> rfl
  · rw [ProposalQueue.scheduleRetry, if_neg (not_le.mpr hleft)]
    exact ⟨_, rfl⟩

theorem failuresAfter_error {message : String} (h : s.queue.fetching? = some p) :
    s.failuresAfter (.fetched (.error message)) = Function.update s.failures p.id (s.failures p.id + 1) := by
  unfold RetryState.failuresAfter
  rw [h]

theorem failuresAfter_ok {actual : JsonValue} (h : s.queue.fetching? = some p) :
    s.failuresAfter (.fetched (.ok actual)) = Function.update s.failures p.id 0 := by
  unfold RetryState.failuresAfter
  rw [h]

theorem failuresAfter_none {outcome : Except String JsonValue} (h : s.queue.fetching? = none) :
    s.failuresAfter (.fetched outcome) = s.failures := by
  unfold RetryState.failuresAfter
  rw [h]

theorem Budgeted.proposal (h : Budgeted options s) (hp : s.queue.fetching? = some p) :
    ((p.attempts : ℤ) ≤ options.config.maxRetries) ∧
      (p.state = .blockedDegraded ∧ p.attempts = s.failures p.id ∧ (p.attempts : ℤ) < options.config.maxRetries ∨
        p.state = .staged ∧ s.failures p.id = 0) := by
  obtain ⟨hmem, hrests, hlive⟩ := h.fetching p hp
  have hcount := h.counted _ (List.mem_map_of_mem hmem)
  refine ⟨hcount.bound, ?_⟩
  rcases hstate : p.state
  · exact .inr ⟨rfl, hcount.staged hstate⟩
  · exact .inl ⟨rfl, hcount.blocked hstate, not_le.mp fun hmax ↦ hlive ⟨hstate, hmax⟩⟩
  · exact absurd hstate hrests

theorem Budgeted.failed (h : Budgeted options s) (message : String)
    (hp : s.queue.fetching? = some p) (hbudget : 1 ≤ options.config.maxRetries)
    (hrenewed : p.state = .blockedDegraded ∨ p.attempts = 0) :
    Budgeted options (s.step options (.fetched (.error message))) := by
  have hmem := (h.fetching p hp).1
  have hsound : (s.queue.fetched options (.error message)).Sound := h.sound.fetched _
  obtain ⟨q', report, rest, hq, hfile, hnext, -⟩ := fetched_error options message hp
  -- the attempts are the failures of the episode, before and after
  have hself : (p.attempts + 1 : ℕ) ≤ options.config.maxRetries ∧ p.attempts = s.failures p.id := by
    rcases (h.proposal hp).2 with ⟨-, hfailures, hleft⟩ | ⟨hstate, hfailures⟩
    · exact ⟨by push_cast; omega, hfailures⟩
    · have hzero := hrenewed.resolve_left (by rw [hstate]; exact ProposalState.noConfusion)
      exact ⟨by rw [hzero]; simpa using hbudget, by rw [hzero, hfailures]⟩
  rw [RetryState.step, failuresAfter_error hp, ProposalQueue.step, hq]
  rw [hq] at hsound
  refine .of_runDrain hsound ?_ ?_
  · rw [hfile]
    refine counted_written (fun c hc hid ↦ (h.counted c hc).update hid) fun p' hp' hid ↦ ?_
    obtain rfl := h.sound.eq_of_id hp' hmem hid
    refine ⟨hself.1, fun _ ↦ ?_, ?_⟩
    · show _ = Function.update s.failures p'.id (s.failures p'.id + 1) p'.id
      rw [update_self, ← hself.2]
      rfl
    · exact fun hstate ↦ ProposalState.noConfusion hstate
  · rw [hnext]
    exact unborn_update h.unborn (h.sound.accounts.fresh _ (List.mem_map_of_mem hmem))

theorem Budgeted.of_none (hsound : q.Sound)
    (hcounted : ∀ c ∈ q.file.counts, Counted options failures c) (hunborn : ∀ id, q.nextId ≤ id → failures id = 0)
    (hnone : q.fetching? = none) : Budgeted options ⟨q, failures⟩ :=
  ⟨hsound, hcounted, hunborn, fun p hp ↦ absurd (hp.symm.trans hnone) (by simp)⟩

theorem Budgeted.of_applyProposal {report : DrainReport}
    {rest : List ℕ} (hsound : (ProposalQueue.applyProposal options p report rest q).Sound)
    (hcounted : ∀ c ∈ q.file.counts, Counted options failures c)
    (hunborn : ∀ id, q.nextId ≤ id → failures id = 0) :
    Budgeted options ⟨ProposalQueue.applyProposal options p report rest q, failures⟩ := by
  rw [ProposalQueue.applyProposal] at hsound ⊢
  split_ifs at hsound ⊢
  · exact .of_none hsound hcounted hunborn rfl
  · exact .of_runDrain hsound hcounted hunborn
  · exact .of_none hsound hcounted hunborn rfl

section

variable (h : Budgeted options s)

include h

/-- A successful fetch ends the episode: the proposal is staged, whatever its attempts are. -/
theorem Budgeted.succeeded (actual : JsonValue)
    (hp : s.queue.fetching? = some p) : Budgeted options (s.step options (.fetched (.ok actual))) := by
  have hmem := (h.fetching p hp).1
  have hsound : (s.queue.fetched options (.ok actual)).Sound := h.sound.fetched _
  obtain ⟨report, rest, hrunning⟩ := running_of_fetching? hp
  obtain ⟨q', hq', hcounted, hnext⟩ : ∃ q', q' = (if p.state = .blockedDegraded then
      ProposalQueue.save (ProposalQueue.update p.id (fun p ↦ { p with state := .staged }) s.queue) else s.queue) ∧
      (∀ c ∈ q'.file.counts, Counted options (Function.update s.failures p.id 0) c) ∧
        q'.nextId = s.queue.nextId := by
    refine ⟨_, rfl, ?_⟩
    split_ifs with hstate
    · refine ⟨counted_written (fun c hc hid ↦ (h.counted c hc).update hid) fun p' hp' hid ↦ ?_, rfl⟩
      refine ⟨(h.counted _ (List.mem_map_of_mem hp')).bound, fun hblocked ↦ ProposalState.noConfusion hblocked,
        fun _ ↦ ?_⟩
      show Function.update s.failures p.id 0 p'.id = 0
      rw [hid, update_self]
    · refine ⟨fun c hc ↦ ?_, rfl⟩
      obtain ⟨p', hp', rfl⟩ := List.mem_map.mp hc
      by_cases hid : p'.id = p.id
      · obtain rfl := h.sound.eq_of_id hp' hmem hid
        refine ⟨(h.counted _ hc).bound, fun hblocked ↦ absurd hblocked hstate, fun _ ↦ ?_⟩
        exact update_self ..
      · exact (h.counted _ hc).update hid
  have hunborn : ∀ id, q'.nextId ≤ id → Function.update s.failures p.id 0 id = 0 := by
    rw [hnext]
    exact unborn_update h.unborn (h.sound.accounts.fresh _ (List.mem_map_of_mem hmem))
  have hverified : s.queue.fetched options (.ok actual)
      = ProposalQueue.verified options p report rest actual s.queue := by
    rw [ProposalQueue.fetched, hrunning]
  rw [RetryState.step, failuresAfter_ok hp, ProposalQueue.step, hverified]
  rw [hverified] at hsound
  rw [ProposalQueue.verified, ← hq'] at hsound ⊢
  split_ifs at hsound ⊢
  · exact .of_runDrain hsound hcounted hunborn
  · exact .of_runDrain hsound (counted_resolved hcounted) hunborn
  · refine .of_runDrain hsound ?_ hunborn
    refine counted_written (fun c hc _ ↦ hcounted c hc) fun p' hp' _ ↦ ?_
    exact ⟨(hcounted _ (List.mem_map_of_mem hp')).bound, fun hblocked ↦ ProposalState.noConfusion hblocked,
      fun hstaged ↦ ProposalState.noConfusion hstaged⟩
  · exact .of_runDrain hsound hcounted hunborn
  · exact .of_applyProposal hsound hcounted hunborn

theorem Budgeted.executed (outcome : Except String JsonValue) :
    Budgeted options ⟨s.queue.executed options outcome, s.failures⟩ := by
  have hsound : (s.queue.executed options outcome).Sound := h.sound.executed outcome
  rw [ProposalQueue.executed] at hsound ⊢
  split at hsound
  · rcases outcome with message | result
    · exact .of_none hsound h.counted h.unborn rfl
    · exact .of_runDrain hsound (counted_resolved h.counted) h.unborn
  · rcases outcome with message | result
    · exact .of_none hsound h.counted h.unborn rfl
    · exact .of_runDrain hsound h.counted h.unborn
  · exact h

theorem Budgeted.reopen : Budgeted options ⟨s.queue.reopen, s.failures⟩ := by
  have hsound := h.sound.reopen
  rw [ProposalQueue.reopen] at hsound ⊢
  split at hsound
  · refine .of_none hsound ?_ h.unborn rfl
    rw [ProposalQueue.fromStore, h.sound.stored]
    exact h.counted
  · exact h

theorem Budgeted.step (hbudget : 0 ≤ options.config.maxRetries) (op : QueueOp)
    (hrenewed : Renewed options s op) : Budgeted options (s.step options op) := by
  have hsound : (s.queue.step options op).Sound := h.sound.step op
  rcases op with input | signal | _ | i | _ | _ | _ | outcome | outcome | _
  · exact h.enqueue hbudget input
  · rw [RetryState.step, ProposalQueue.step]
    split_ifs
    · exact h.enqueue hbudget signal.input
    · exact h
  · exact h.frame hsound rfl rfl rfl
  · rw [RetryState.step, ProposalQueue.step, ProposalQueue.timer] at *
    split_ifs at hsound ⊢
    · exact h.frame hsound rfl rfl rfl
    · exact h
  · exact h.frame hsound rfl rfl rfl
  · exact h.frame hsound rfl rfl rfl
  · exact h.start
  · rcases hp : s.queue.fetching? with _ | p
    · have hskip : s.queue.fetched options outcome = s.queue := by
        rw [ProposalQueue.fetched]
        split
        · next hrunning => simp [ProposalQueue.fetching?, hrunning] at hp
        · rfl
      rw [RetryState.step, ProposalQueue.step, hskip, failuresAfter_none hp]
      exact h
    · rcases outcome with message | actual
      · obtain ⟨hone, hblocked⟩ := hrenewed p message rfl hp
        exact h.failed message hp hone hblocked
      · exact h.succeeded actual hp
  · exact h.executed outcome
  · exact h.reopen

/-! ## The law -/

theorem Budgeted.retryLaw (hbudget : 0 ≤ options.config.maxRetries) {op : QueueOp}
    (hrenewed : Renewed options s op) : RetryLaw options s op := by
  have hnext := h.step hbudget op hrenewed
  refine ⟨hnext.budgetLaw, ?_⟩
  rintro p message rfl hp hleft
  obtain ⟨q', report, rest, hq, -, -, htimers⟩ := fetched_error options message hp
  have hfailures : s.failures p.id + 1 = p.attempts + 1 := by
    rcases (h.proposal hp).2 with ⟨-, hfailures, -⟩ | ⟨hstate, hfailures⟩
    · rw [hfailures]
    · have hzero := (hrenewed p message rfl hp).2.resolve_left (by rw [hstate]; exact ProposalState.noConfusion)
      rw [hzero, hfailures]
  have hupdated : (s.step options (.fetched (.error message))).failures p.id = p.attempts + 1 := by
    rw [RetryState.step, failuresAfter_error hp]
    exact (update_self ..).trans hfailures
  rw [hupdated] at hleft
  have hframe := (runDrain_frame options rest report q').2.1
  rw [RetryState.step, ProposalQueue.step, hq, hframe]
  exact htimers hleft

/-- A step that keeps the law is renewed: the blocked proposal would have more attempts than failures. -/
theorem Budgeted.renewed {op : QueueOp} (hlaw : RetryLaw options s op) : Renewed options s op := by
  rintro p message rfl hp
  have hmem := (h.fetching p hp).1
  obtain ⟨q', report, rest, hq, hfile, -, -⟩ := fetched_error options message hp
  -- the proposal stays in the file, with one attempt more
  obtain ⟨p', hp', hcount⟩ : ∃ p' ∈ (s.step options (.fetched (.error message))).queue.file.proposals,
      p'.count = (p.failed message).count := by
    refine List.mem_map.mp ?_
    show _ ∈ (s.queue.fetched options (.error message)).file.counts
    rw [hq, (runDrain_frame options rest report q').1, hfile, ProposalStoreFile.counts]
    refine List.mem_map_of_mem ?_
    rw [ProposalStoreFile.written]
    exact List.mem_map.mpr ⟨p, hmem, if_pos rfl⟩
  obtain ⟨hid, hstate, hattempts⟩ := RetryCount.mk.inj hcount
  have hbound := hlaw.budget.bound p' hp'
  have hepisode := hlaw.budget.episode p' hp' hstate
  rw [hattempts] at hbound hepisode
  refine ⟨?_, ?_⟩
  · have hpos : (p.failed message).attempts = p.attempts + 1 := rfl
    rw [hpos] at hbound
    push_cast at hbound
    omega
  · rcases (h.proposal hp).2 with ⟨hblocked, -⟩ | ⟨-, hfailures⟩
    · exact .inl hblocked
    · rw [RetryState.step, failuresAfter_error hp, hid] at hepisode
      have hone : p.attempts + 1 = s.failures p.id + 1 := hepisode.trans (update_self ..)
      exact .inr (by omega)

end

/-- **The retry budget.** In a run from an empty store every step keeps the law if every failed fetch belongs to an
episode that began with no attempts. -/
theorem retryLaw_run_iff (hbudget : 0 ≤ options.config.maxRetries) (machine : Attach.ModeMachine)
    (ops : List QueueOp) :
    StepMachine.Guarded (RetryState.step options) (RetryLaw options) (.start machine) ops ↔
      StepMachine.Guarded (RetryState.step options) (Renewed options) (.start machine) ops :=
  StepMachine.guarded_iff_of_invariant
    (fun _ _ h ↦ ⟨h.renewed, h.retryLaw hbudget⟩)
    (fun _ op h hlaw ↦ h.step hbudget op (h.renewed hlaw)) (budgeted_start machine)

def stagedWrite : ProposalEnqueueInput :=
  { type := .fleetWrite, payload := [], precondition := ⟨"claim", .null⟩, confirmStamp := "stamp" }

/-- The first failure of a proposal arms a retry timer. -/
theorem retryLaw_firstFailure :
    StepMachine.Guarded (RetryState.step { hash := String.ofList }) (RetryLaw { hash := String.ofList })
      (.start ⟨∅, []⟩) [.enqueue stagedWrite, .drain, .start, .fetched (.error "offline")] := by
  refine (retryLaw_run_iff (by decide) ⟨∅, []⟩ _).mpr ⟨?_, ?_, ?_, ?_, trivial⟩
  · exact fun _ _ hop ↦ QueueOp.noConfusion hop
  · exact fun _ _ hop ↦ QueueOp.noConfusion hop
  · exact fun _ _ hop ↦ QueueOp.noConfusion hop
  · intro p _ _ hp
    have hattempts := congrArg (Option.map QueuedProposal.attempts) hp
    have hzero : some 0 = some p.attempts := Eq.trans (by decide +kernel) hattempts
    exact ⟨by decide, .inr (Option.some.inj hzero).symm⟩

/-- A fetch succeeds after two failures while the hold is on; the next failure is the last that the proposal has. -/
theorem not_retryLaw_secondEpisode :
    ¬ ∀ (options : ProposalQueueOptions) (machine : Attach.ModeMachine) (ops : List QueueOp),
      0 ≤ options.config.maxRetries →
        StepMachine.Guarded (RetryState.step options) (RetryLaw options) (.start machine) ops := by
  intro h
  let ops : List QueueOp := [.hold, .enqueue stagedWrite, .drain, .start, .fetched (.error "offline"), .drain, .start,
    .fetched (.error "offline"), .drain, .start, .fetched (.ok .null), .drain, .start]
  let last : QueueOp := .fetched (.error "offline")
  have hlaw := h { hash := String.ofList } ⟨∅, []⟩ (ops ++ [last]) (by decide)
  have hstep := ((StepMachine.guarded_append _ ops [last]).mp hlaw).2.1
  have hgiven : ∃ p ∈ ((StepMachine.run (RetryState.step { hash := String.ofList }) (.start ⟨∅, []⟩) ops).step
      { hash := String.ofList } last).queue.file.proposals,
      p.state = .blockedDegraded ∧ (3 : ℤ) ≤ p.attempts ∧
        ((StepMachine.run (RetryState.step { hash := String.ofList }) (.start ⟨∅, []⟩) ops).step
          { hash := String.ofList } last).failures p.id = 1 := by
    decide +kernel
  obtain ⟨p, hp, hstate, hattempts, hfailures⟩ := hgiven
  have hepisode := hstep.budget.episode p hp hstate
  omega

end Amicode.Queue
