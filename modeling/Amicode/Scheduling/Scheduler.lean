import Amicode.Foundation.StepMachine
import Mathlib.Data.List.Nodup

/-!
# The serial scheduler

Runs wait in a queue and are handed to the executor one at a time (`scheduler.ts`). The pump takes the head of
the queue, submits it and awaits its `finished`; when the run has ended, or could not be submitted, the next
pump is deferred to a microtask. Every `enqueue` pumps as well, and a pump that finds a run in progress does
nothing.

Whatever the scheduler calls may call it back: a listener of an event may enqueue or cancel, and so may the
executor. So one synchronous stretch of the code is several steps here, with a boundary wherever other code may
run: an `enqueue` leaves a pump that is due, the end of a run is one step and giving up the slot is another, and
due pumps are taken later, one by one. The model has more interleavings than the code, in which a pump that is due
is taken before control returns to the event loop.

What happens is a log: the calls of the executor, the events that are emitted, and how the handle of an entry
settles. An error stands for its message.
-/

namespace Amicode.Scheduling

/-- What is emitted to the listeners. -/
inductive SchedulerEvent
  | queued (queueId position : ℕ)
  | started (queueId : ℕ) (runId runDir : String)
  | finished (queueId : ℕ) (runId status : String) (exitCode : ℤ)
  | cancelled (queueId : ℕ)
  | error (queueId : ℕ) (message : String)
deriving DecidableEq

/-- What a submission answers with. -/
structure RunHandle where
  runId : String
  runDir : String
deriving DecidableEq

variable (σ : Type*)

inductive Occurrence
  /-- The executor is called. -/
  | submit (queueId : ℕ) (spec : σ)
  | emit (event : SchedulerEvent)
  | resolve (queueId : ℕ) (handle : RunHandle)
  | reject (queueId : ℕ) (message : String)
deriving DecidableEq

structure Entry where
  queueId : ℕ
  spec : σ
deriving DecidableEq

/-- Where the run in progress is. -/
inductive Phase
  | submitting
  | started (handle : RunHandle)
  /-- Its last event was emitted, and its slot is still taken. -/
  | ended
deriving DecidableEq

structure Scheduler where
  queue : List (Entry σ)
  running : Option (Entry σ × Phase)
  nextId : ℕ
  pumps : ℕ
  log : List (Occurrence σ)
deriving DecidableEq

def Scheduler.new : Scheduler σ := ⟨[], none, 1, 0, []⟩

inductive SchedulerOp
  | enqueue (spec : σ) (concurrent : Bool)
  | cancel (queueId : ℕ)
  /-- A pump that is due is taken. -/
  | pump
  /-- The submission throws, or rejects. -/
  | submitFails (message : String)
  | submitAnswers (handle : RunHandle)
  | finishes (status : String) (exitCode : ℤ)
  | finishRejects (message : String)
  /-- The slot is given up, and a pump is deferred. -/
  | release

variable {σ}

def Scheduler.depth (s : Scheduler σ) : ℕ := s.queue.length + if s.running.isSome then 1 else 0

def Scheduler.record (s : Scheduler σ) (occurrences : List (Occurrence σ)) : Scheduler σ :=
  { s with log := s.log ++ occurrences }

/-- A parallel lane is refused before anything is queued. -/
def enqueue (s : Scheduler σ) (spec : σ) (concurrent : Bool) : Scheduler σ :=
  if concurrent then s
  else
    let entry : Entry σ := ⟨s.nextId, spec⟩
    { s with
      queue := s.queue ++ [entry]
      nextId := s.nextId + 1
      pumps := s.pumps + 1 }.record [.emit (.queued s.nextId s.depth)]

def cancels (s : Scheduler σ) (queueId : ℕ) : Bool := s.queue.any (·.queueId = queueId)

def cancel (s : Scheduler σ) (queueId : ℕ) : Scheduler σ :=
  if cancels s queueId then
    { s with queue := s.queue.eraseP (·.queueId = queueId) }.record
      [.emit (.cancelled queueId), .reject queueId s!"Scheduler: q{queueId} cancelled before start"]
  else s

def pump (s : Scheduler σ) : Scheduler σ :=
  if s.pumps = 0 then s
  else
    let s := { s with pumps := s.pumps - 1 }
    match s.running, s.queue with
    | some _, _ => s
    | none, [] => s
    | none, entry :: rest =>
      { s with queue := rest, running := some (entry, .submitting) }.record [.submit entry.queueId entry.spec]

/-- The run in progress ends. -/
def finish (s : Scheduler σ) (entry : Entry σ) (occurrences : List (Occurrence σ)) : Scheduler σ :=
  { s with running := some (entry, .ended) }.record occurrences

def schedulerStep (s : Scheduler σ) (op : SchedulerOp σ) : Scheduler σ :=
  match op, s.running with
  | .enqueue spec concurrent, _ => enqueue s spec concurrent
  | .cancel queueId, _ => cancel s queueId
  | .pump, _ => pump s
  | .submitFails message, some (entry, .submitting) =>
    finish s entry [.emit (.error entry.queueId message), .reject entry.queueId message]
  | .submitAnswers handle, some (entry, .submitting) =>
    { s with running := some (entry, .started handle) }.record
      [.emit (.started entry.queueId handle.runId handle.runDir), .resolve entry.queueId handle]
  | .finishes status exitCode, some (entry, .started handle) =>
    finish s entry [.emit (.finished entry.queueId handle.runId status exitCode)]
  | .finishRejects message, some (entry, .started _) =>
    finish s entry [.emit (.error entry.queueId ("finished rejected: " ++ message))]
  | .release, some (_, .ended) => { s with running := none, pumps := s.pumps + 1 }
  | _, _ => s

end Amicode.Scheduling

/-!
# One run at a time, in order, and each to its end

In every interleaving at most one run is between its submission and its end, runs are submitted in the order in which
they were queued, the cancelled ones left out, every entry has at most one last event (cancelled, error or finished)
and is otherwise still queued or running, and a cancel answers true exactly for an entry that is still queued, which
is then never submitted (`scheduler_run`).

The queue may be nonempty while nothing is running: the pump after a run is deferred to a microtask, and until it is
taken the slot is free. What holds is that a pump is then due. So nothing is stranded: from any state, however the
executor answers, enough answers bring every entry to its last event (`Drained`).

The proof keeps three lists of the log: the entries queued, submitted and ended. Those submitted and those in the
queue are together the entries queued and not cancelled, and those submitted are those ended and at most one more.
-/

namespace Amicode.Scheduling

open StepMachine

variable {σ : Type*}

/-! ## What a log says -/

def queuedId? : Occurrence σ → Option ℕ
  | .emit (.queued queueId _) => some queueId
  | _ => none

def submittedId? : Occurrence σ → Option ℕ
  | .submit queueId _ => some queueId
  | _ => none

def cancelledId? : Occurrence σ → Option ℕ
  | .emit (.cancelled queueId) => some queueId
  | _ => none

def endedId? : Occurrence σ → Option ℕ
  | .emit (.error queueId _) => some queueId
  | .emit (.finished queueId _ _ _) => some queueId
  | _ => none

variable (log : List (Occurrence σ))

def queuedIds : List ℕ := log.filterMap queuedId?

def submittedIds : List ℕ := log.filterMap submittedId?

def cancelledIds : List ℕ := log.filterMap cancelledId?

def endedIds : List ℕ := log.filterMap endedId?

/-- The entries that were not cancelled, in the order in which they were queued. -/
def standingIds : List ℕ := (queuedIds log).filter fun id ↦ id ∉ cancelledIds log

/-- How many last events an entry has. -/
def terminals (id : ℕ) : ℕ := (cancelledIds log).count id + (endedIds log).count id

/-- The entry is between its submission and its end. -/
def InFlight (id : ℕ) : Prop := id ∈ submittedIds log ∧ id ∉ endedIds log

/-! ## The law -/

structure SchedulerLaw (s : Scheduler σ) : Prop where
  serial : ∀ id id', InFlight s.log id → InFlight s.log id' → id = id'
  ordered : submittedIds s.log <+: standingIds s.log
  /-- No entry has two last events, and one without is queued or in flight. -/
  terminal : ∀ id ∈ queuedIds s.log, terminals s.log id = 1
    ∨ terminals s.log id = 0 ∧ (id ∈ s.queue.map Entry.queueId ∨ InFlight s.log id)
  /-- Whenever nothing is running the queue is empty or a pump is due. -/
  idle : s.running = none → s.queue = [] ∨ 0 < s.pumps

/-- A cancel answers true exactly for an entry that is still queued, and that entry is never submitted. -/
structure CancelLaw (s : Scheduler σ) (id : ℕ) : Prop where
  answer : cancels s id = true ↔ id ∈ queuedIds s.log ∧ id ∉ submittedIds s.log ∧ id ∉ cancelledIds s.log
  final : cancels s id = true → ∀ later, id ∉ submittedIds (run schedulerStep (cancel s id) later).log

/-- How the executor answers a submission, and how the run then finishes. -/
structure Answers where
  submit : Except String RunHandle
  finish : Except String (String × ℤ)

/-- The answers to the run that has the slot, until it gives up the slot. -/
def answerOps (σ : Type*) (answers : Answers) : List (SchedulerOp σ) :=
  [match answers.submit with
    | .error message => .submitFails message
    | .ok handle => .submitAnswers handle,
    match answers.finish with
    | .error message => .finishRejects message
    | .ok (status, exitCode) => .finishes status exitCode,
    .release]

/-- A pump, and the answers to the run that has the slot then. -/
def serve (σ : Type*) (answers : Answers) : List (SchedulerOp σ) := .pump :: answerOps σ answers

/-- Every entry has had its last event, and there is nothing left to do. -/
structure Drained (s : Scheduler σ) : Prop where
  queue : s.queue = []
  running : s.running = none
  terminal : ∀ id ∈ queuedIds s.log, terminals s.log id = 1

/-! ## The invariant -/

/-- The entry that is between its submission and its end. -/
def Scheduler.inFlight (s : Scheduler σ) : List ℕ :=
  match s.running with
  | some (entry, .submitting) | some (entry, .started _) => [entry.queueId]
  | some (_, .ended) | none => []

structure Sound (s : Scheduler σ) : Prop where
  nodup : (queuedIds s.log).Nodup
  fresh : ∀ id ∈ queuedIds s.log, id < s.nextId
  cancelled : ∀ id ∈ cancelledIds s.log, id ∈ queuedIds s.log
  cancelledNodup : (cancelledIds s.log).Nodup
  standing : submittedIds s.log ++ s.queue.map Entry.queueId = standingIds s.log
  ended : submittedIds s.log = endedIds s.log ++ s.inFlight
  idle : s.running = none → s.queue = [] ∨ 0 < s.pumps

theorem sound_new : Sound (Scheduler.new σ) where
  nodup := List.nodup_nil
  fresh := by simp [Scheduler.new, queuedIds]
  cancelled := by simp [Scheduler.new, cancelledIds]
  cancelledNodup := List.nodup_nil
  standing := rfl
  ended := rfl
  idle _ := .inl rfl

variable {log} {s : Scheduler σ} {id : ℕ}

theorem nodup_standingIds (h : (queuedIds log).Nodup) : (standingIds log).Nodup := h.filter _

theorem mem_standingIds_iff : id ∈ standingIds log ↔ id ∈ queuedIds log ∧ id ∉ cancelledIds log := by
  rw [standingIds, List.mem_filter, decide_eq_true_iff]

theorem Sound.nodup_submitted_append (hs : Sound s) :
    (submittedIds s.log ++ s.queue.map Entry.queueId).Nodup := hs.standing ▸ nodup_standingIds hs.nodup

theorem Sound.standing_of_submitted (hs : Sound s) (h : id ∈ submittedIds s.log) : id ∈ standingIds s.log :=
  hs.standing ▸ List.mem_append_left _ h

theorem Sound.standing_of_queued (hs : Sound s) (h : id ∈ s.queue.map Entry.queueId) : id ∈ standingIds s.log :=
  hs.standing ▸ List.mem_append_right _ h

theorem cancels_iff : cancels s id = true ↔ id ∈ s.queue.map Entry.queueId := by
  simp [cancels]

theorem Sound.mem_inFlight (hs : Sound s) (h : InFlight s.log id) : id ∈ s.inFlight := by
  have hmem := h.1
  rw [hs.ended, List.mem_append] at hmem
  exact hmem.resolve_left h.2

theorem Scheduler.inFlight_subsingleton {id' : ℕ} (h : id ∈ s.inFlight) (h' : id' ∈ s.inFlight) : id = id' := by
  rw [Scheduler.inFlight] at h h'
  split at h <;> simp_all

theorem Sound.terminal (hs : Sound s) (hid : id ∈ queuedIds s.log) :
    terminals s.log id = 1
      ∨ terminals s.log id = 0 ∧ (id ∈ s.queue.map Entry.queueId ∨ InFlight s.log id) := by
  have hsubmitted : (submittedIds s.log).Nodup := (List.nodup_append.mp hs.nodup_submitted_append).1
  have hended : (endedIds s.log).Nodup := by
    rw [hs.ended] at hsubmitted
    exact (List.nodup_append.mp hsubmitted).1
  have hsub : ∀ id ∈ endedIds s.log, id ∈ submittedIds s.log := by
    intro id h
    rw [hs.ended]
    exact List.mem_append_left _ h
  by_cases hcancelled : id ∈ cancelledIds s.log
  · have hnot : id ∉ endedIds s.log := fun h ↦
      (mem_standingIds_iff.mp (hs.standing_of_submitted (hsub id h))).2 hcancelled
    left
    rw [terminals, List.count_eq_one_of_mem hs.cancelledNodup hcancelled, List.count_eq_zero.mpr hnot]
  · rw [terminals, List.count_eq_zero.mpr hcancelled, Nat.zero_add]
    by_cases hmem : id ∈ endedIds s.log
    · exact .inl (List.count_eq_one_of_mem hended hmem)
    · refine .inr ⟨List.count_eq_zero.mpr hmem, ?_⟩
      have hstanding := mem_standingIds_iff.mpr ⟨hid, hcancelled⟩
      rw [← hs.standing, List.mem_append] at hstanding
      exact hstanding.symm.imp_right fun h ↦ ⟨h, hmem⟩

theorem Sound.law (hs : Sound s) : SchedulerLaw s where
  serial _ _ h h' := Scheduler.inFlight_subsingleton (hs.mem_inFlight h) (hs.mem_inFlight h')
  ordered := ⟨_, hs.standing⟩
  terminal _ hid := hs.terminal hid
  idle := hs.idle

/-! ## Steps keep the invariant -/

section

variable (log later : List (Occurrence σ))

@[simp] theorem queuedIds_append :
    queuedIds (log ++ later) = queuedIds log ++ queuedIds later := List.filterMap_append

@[simp] theorem submittedIds_append :
    submittedIds (log ++ later) = submittedIds log ++ submittedIds later := List.filterMap_append

@[simp] theorem cancelledIds_append :
    cancelledIds (log ++ later) = cancelledIds log ++ cancelledIds later := List.filterMap_append

@[simp] theorem endedIds_append :
    endedIds (log ++ later) = endedIds log ++ endedIds later := List.filterMap_append

end

theorem standingIds_append_of_not_cancelled {log later : List (Occurrence σ)} (h : cancelledIds later = [])
    (hlater : ∀ id ∈ queuedIds later, id ∉ cancelledIds log) :
    standingIds (log ++ later) = standingIds log ++ queuedIds later := by
  rw [standingIds, queuedIds_append, cancelledIds_append, h, List.append_nil, List.filter_append, ← standingIds]
  congr 1
  exact List.filter_eq_self.mpr fun id hid ↦ decide_eq_true (hlater id hid)

theorem standingIds_append_of_not_queued {log later : List (Occurrence σ)} (h : queuedIds later = []) :
    standingIds (log ++ later) = (standingIds log).filter fun id ↦ id ∉ cancelledIds later := by
  rw [standingIds, queuedIds_append, h, List.append_nil, standingIds, List.filter_filter]
  refine List.filter_congr fun id _ ↦ ?_
  rw [cancelledIds_append]
  simp [Bool.and_comm]

theorem Sound.enqueue (hs : Sound s) (spec : σ) (concurrent : Bool) : Sound (enqueue s spec concurrent) := by
  cases concurrent with
  | true => exact hs
  | false =>
    have hnew : s.nextId ∉ queuedIds s.log := fun h ↦ absurd (hs.fresh _ h) (lt_irrefl _)
    have hlog : (Scheduling.enqueue s spec false).log = s.log ++ [.emit (.queued s.nextId s.depth)] := rfl
    have hqueued : queuedIds (Scheduling.enqueue s spec false).log = queuedIds s.log ++ [s.nextId] := by
      rw [hlog, queuedIds_append]
      rfl
    have hcancelled : cancelledIds (Scheduling.enqueue s spec false).log = cancelledIds s.log := by
      rw [hlog, cancelledIds_append]
      exact List.append_nil _
    refine ⟨?_, ?_, ?_, hcancelled ▸ hs.cancelledNodup, ?_, ?_, fun _ ↦ .inr (Nat.succ_pos _)⟩
    · rw [hqueued, ← List.concat_eq_append]
      exact hs.nodup.concat hnew
    · rw [hqueued]
      intro id hid
      rcases List.mem_append.mp hid with hid | hid
      · exact (hs.fresh id hid).trans (Nat.lt_succ_self _)
      · exact List.mem_singleton.mp hid ▸ Nat.lt_succ_self _
    · rw [hcancelled, hqueued]
      exact fun id hid ↦ List.mem_append_left _ (hs.cancelled id hid)
    · have hstanding : standingIds (Scheduling.enqueue s spec false).log = standingIds s.log ++ [s.nextId] := by
        rw [hlog, standingIds_append_of_not_cancelled rfl]
        · rfl
        · intro id hid hmem
          obtain rfl : id = s.nextId := List.mem_singleton.mp hid
          exact hnew (hs.cancelled _ hmem)
      have hsubmitted : submittedIds (Scheduling.enqueue s spec false).log = submittedIds s.log := by
        rw [hlog, submittedIds_append]
        exact List.append_nil _
      rw [hstanding, ← hs.standing, hsubmitted, List.append_assoc]
      exact congrArg _ List.map_append
    · rw [hlog, submittedIds_append, endedIds_append]
      exact (List.append_nil _).trans (hs.ended.trans (by rw [show endedIds [_] = [] from rfl, List.append_nil]; rfl))

/-- A step that queues nothing: what it submits and leaves in the queue is what was there and is not cancelled, and
what it submits and ends is what was in flight and is. -/
theorem Sound.advance (hs : Sound s) {s' : Scheduler σ} {later : List (Occurrence σ)}
    (hlog : s'.log = s.log ++ later) (hnext : s'.nextId = s.nextId) (hqueued : queuedIds later = [])
    (hcancelled : ∀ id ∈ cancelledIds later, id ∈ s.queue.map Entry.queueId) (hnodup : (cancelledIds later).Nodup)
    (hstanding : submittedIds later ++ s'.queue.map Entry.queueId
      = (s.queue.map Entry.queueId).filter fun id ↦ id ∉ cancelledIds later)
    (hended : s.inFlight ++ submittedIds later = endedIds later ++ s'.inFlight)
    (hidle : s'.running = none → s'.queue = [] ∨ 0 < s'.pumps) : Sound s' := by
  have hqueuedIds : queuedIds s'.log = queuedIds s.log := by rw [hlog, queuedIds_append, hqueued, List.append_nil]
  refine ⟨hqueuedIds ▸ hs.nodup, hqueuedIds ▸ hnext ▸ hs.fresh, fun id hid ↦ ?_, ?_, ?_, ?_, hidle⟩
  · rw [hqueuedIds]
    rw [hlog, cancelledIds_append, List.mem_append] at hid
    rcases hid with hid | hid
    · exact hs.cancelled id hid
    · exact (mem_standingIds_iff.mp (hs.standing_of_queued (hcancelled id hid))).1
  · rw [hlog, cancelledIds_append]
    refine List.nodup_append.mpr ⟨hs.cancelledNodup, hnodup, fun id hid id' hid' ↦ ?_⟩
    rintro rfl
    exact (mem_standingIds_iff.mp (hs.standing_of_queued (hcancelled id hid'))).2 hid
  · have hsubmitted : (submittedIds s.log).filter (fun id ↦ id ∉ cancelledIds later) = submittedIds s.log := by
      refine List.filter_eq_self.mpr fun id hid ↦ decide_eq_true fun hmem ↦ ?_
      exact (List.nodup_append.mp hs.nodup_submitted_append).2.2 id hid id (hcancelled id hmem) rfl
    rw [hlog, submittedIds_append, standingIds_append_of_not_queued hqueued, ← hs.standing, List.filter_append,
      hsubmitted, List.append_assoc, hstanding]
  · rw [hlog, submittedIds_append, endedIds_append, hs.ended, List.append_assoc, hended, List.append_assoc]

theorem map_eraseP_queueId (queue : List (Entry σ)) (id : ℕ) :
    (queue.eraseP (·.queueId = id)).map Entry.queueId = (queue.map Entry.queueId).erase id := by
  induction queue with
  | nil => rfl
  | cons entry queue ih =>
    by_cases h : entry.queueId = id
    · simp [h]
    · simp [h, ih]

theorem Sound.cancel (hs : Sound s) (id : ℕ) : Sound (cancel s id) := by
  rw [Scheduling.cancel]
  split_ifs with h
  · refine hs.advance rfl rfl rfl ?_ (List.nodup_singleton id) ?_
      ?_ fun hrunning ↦ ?_
    · intro id' hid'
      exact List.mem_singleton.mp hid' ▸ cancels_iff.mp h
    · have hqueue : (s.queue.map Entry.queueId).Nodup := (List.nodup_append.mp hs.nodup_submitted_append).2.1
      refine (map_eraseP_queueId s.queue id).trans (hqueue.erase_eq_filter id |>.trans ?_)
      exact List.filter_congr fun id' _ ↦ by simp [cancelledIds, cancelledId?, bne, beq_eq_decide]
    · exact List.append_nil _
    · rcases hs.idle hrunning with hempty | hpumps
      · exact .inl (by simp [Scheduler.record, hempty])
      · exact .inr hpumps
  · exact hs

/-- A step that logs nothing and leaves the queue as it is. -/
theorem Sound.quiet (hs : Sound s) {s' : Scheduler σ} (hlog : s'.log = s.log) (hnext : s'.nextId = s.nextId)
    (hqueue : s'.queue = s.queue) (hinFlight : s'.inFlight = s.inFlight)
    (hidle : s'.running = none → s'.queue = [] ∨ 0 < s'.pumps) : Sound s' := by
  refine hs.advance (hlog.trans (List.append_nil _).symm) hnext rfl (by simp [cancelledIds]) List.nodup_nil ?_ ?_ hidle
  · rw [hqueue]
    simp [submittedIds, cancelledIds]
  · rw [hinFlight]
    exact List.append_nil _

theorem Sound.pump (hs : Sound s) : Sound (pump s) := by
  obtain ⟨queue, running, nextId, pumps, log⟩ := s
  rw [Scheduling.pump]
  split_ifs with hpumps
  · exact hs
  cases running with
  | some current => exact hs.quiet rfl rfl rfl rfl (by simp)
  | none =>
    cases queue with
    | nil => exact hs.quiet rfl rfl rfl rfl fun _ ↦ .inl rfl
    | cons entry rest =>
      refine hs.advance rfl rfl rfl (by simp [cancelledIds, cancelledId?]) List.nodup_nil ?_ rfl nofun
      simp [submittedIds, submittedId?, cancelledIds, cancelledId?, Scheduler.record]

theorem Sound.finish (hs : Sound s) {entry : Entry σ} {occurrences : List (Occurrence σ)}
    (hinFlight : s.inFlight = [entry.queueId]) (hqueued : queuedIds occurrences = [])
    (hsubmitted : submittedIds occurrences = []) (hcancelled : cancelledIds occurrences = [])
    (hended : endedIds occurrences = [entry.queueId]) : Sound (finish s entry occurrences) := by
  refine hs.advance rfl rfl hqueued (by simp [hcancelled]) (by simp [hcancelled]) ?_ ?_ nofun
  · simp [hsubmitted, hcancelled, Scheduling.finish, Scheduler.record]
  · rw [hinFlight, hsubmitted, hended]
    rfl

theorem sound_schedulerStep (hs : Sound s) (op : SchedulerOp σ) : Sound (schedulerStep s op) := by
  obtain ⟨queue, running, nextId, pumps, log⟩ := s
  cases op with
  | enqueue spec concurrent => exact hs.enqueue spec concurrent
  | cancel queueId => exact hs.cancel queueId
  | pump => exact hs.pump
  | submitFails message =>
    rcases running with _ | ⟨entry, _ | handle | _⟩
    · exact hs
    · exact hs.finish rfl rfl rfl rfl rfl
    · exact hs
    · exact hs
  | submitAnswers handle =>
    rcases running with _ | ⟨entry, _ | handle' | _⟩
    · exact hs
    · refine hs.advance rfl rfl rfl (by simp [cancelledIds, cancelledId?]) List.nodup_nil ?_ rfl nofun
      simp [submittedIds, submittedId?, cancelledIds, cancelledId?, schedulerStep, Scheduler.record]
    · exact hs
    · exact hs
  | finishes status exitCode =>
    rcases running with _ | ⟨entry, _ | handle | _⟩
    · exact hs
    · exact hs
    · exact hs.finish rfl rfl rfl rfl rfl
    · exact hs
  | finishRejects message =>
    rcases running with _ | ⟨entry, _ | handle | _⟩
    · exact hs
    · exact hs
    · exact hs.finish rfl rfl rfl rfl rfl
    · exact hs
  | release =>
    rcases running with _ | ⟨entry, _ | handle | _⟩
    · exact hs
    · exact hs
    · exact hs
    · exact hs.quiet rfl rfl rfl rfl fun _ ↦ .inr (Nat.succ_pos _)

theorem sound_run (hs : Sound s) (ops : List (SchedulerOp σ)) : Sound (run schedulerStep s ops) :=
  invariant_run (I := Sound) (fun _ op hs ↦ sound_schedulerStep hs op) hs ops

/-! ## Cancelling -/

theorem log_prefix_step (s : Scheduler σ) (op : SchedulerOp σ) : s.log <+: (schedulerStep s op).log := by
  obtain ⟨queue, running, nextId, pumps, log⟩ := s
  cases op with
  | enqueue spec concurrent => cases concurrent <;> simp [schedulerStep, enqueue, Scheduler.record]
  | cancel queueId =>
    simp only [schedulerStep, cancel]
    split_ifs <;> simp [Scheduler.record]
  | pump =>
    simp only [schedulerStep, pump]
    split_ifs
    · exact List.prefix_refl _
    · rcases running with _ | current
      · rcases queue with _ | ⟨entry, rest⟩ <;> simp [Scheduler.record]
      · exact List.prefix_refl _
  | _ => rcases running with _ | ⟨entry, _ | handle | _⟩ <;> simp [schedulerStep, finish, Scheduler.record]

theorem log_prefix_run (s : Scheduler σ) (ops : List (SchedulerOp σ)) : s.log <+: (run schedulerStep s ops).log := by
  induction ops generalizing s with
  | nil => exact List.prefix_refl _
  | cons op ops ih => exact (log_prefix_step s op).trans (ih _)

theorem Sound.cancelLaw (hs : Sound s) (id : ℕ) : CancelLaw s id := by
  constructor
  · rw [cancels_iff]
    constructor
    · intro h
      obtain ⟨hqueued, hcancelled⟩ := mem_standingIds_iff.mp (hs.standing_of_queued h)
      refine ⟨hqueued, fun hmem ↦ ?_, hcancelled⟩
      exact (List.nodup_append.mp hs.nodup_submitted_append).2.2 id hmem id h rfl
    · rintro ⟨hqueued, hsubmitted, hcancelled⟩
      have hstanding := mem_standingIds_iff.mpr ⟨hqueued, hcancelled⟩
      rw [← hs.standing, List.mem_append] at hstanding
      exact hstanding.resolve_left hsubmitted
  · intro h later hmem
    have hmem' : id ∈ cancelledIds (Scheduling.cancel s id).log := by
      rw [Scheduling.cancel, if_pos h]
      simp [Scheduler.record, cancelledIds, cancelledId?]
    have hsub := ((log_prefix_run (Scheduling.cancel s id) later).filterMap cancelledId?).subset hmem'
    have hlater := (sound_run (hs.cancel id) later).standing_of_submitted hmem
    exact (mem_standingIds_iff.mp hlater).2 hsub

/-! ## Every entry gets to its last event -/

theorem run_answerOps (s : Scheduler σ) (answers : Answers) :
    (run schedulerStep s (answerOps σ answers)).running = none
      ∧ (run schedulerStep s (answerOps σ answers)).queue = s.queue := by
  obtain ⟨queue, running, nextId, pumps, log⟩ := s
  obtain ⟨_ | _, _ | _⟩ := answers <;> rcases running with _ | ⟨entry, _ | handle | _⟩ <;> exact ⟨rfl, rfl⟩

/-- A pump takes the head of the queue if the slot is free. -/
theorem Sound.queue_pump (hs : Sound s) :
    (Scheduling.pump s).queue = if s.running = none then s.queue.tail else s.queue := by
  have hidle := hs.idle
  obtain ⟨queue, running, nextId, pumps, log⟩ := s
  rw [Scheduling.pump]
  by_cases hpumps : pumps = 0
  · rw [if_pos hpumps]
    cases running with
    | some current => rfl
    | none =>
      have hempty : queue = [] := (hidle rfl).resolve_right (not_lt.mpr (Nat.le_zero.mpr hpumps))
      rw [hempty]
      rfl
  · rw [if_neg hpumps]
    cases running with
    | some current => rfl
    | none => cases queue <;> rfl

theorem Sound.run_serve (hs : Sound s) (answers : Answers) :
    (run schedulerStep s (serve σ answers)).running = none
      ∧ (run schedulerStep s (serve σ answers)).queue = if s.running = none then s.queue.tail else s.queue := by
  obtain ⟨hrunning, hqueue⟩ := run_answerOps (Scheduling.pump s) answers
  exact ⟨hrunning, hqueue.trans hs.queue_pump⟩

/-- From a free slot, as many answers as there are entries in the queue empty it. -/
theorem Sound.run_flatMap_serve (hs : Sound s) (hrunning : s.running = none) (answers : List Answers)
    (hlength : s.queue.length ≤ answers.length) :
    (run schedulerStep s (answers.flatMap (serve σ))).running = none
      ∧ (run schedulerStep s (answers.flatMap (serve σ))).queue = [] := by
  induction answers generalizing s with
  | nil => exact ⟨hrunning, List.eq_nil_of_length_eq_zero (Nat.le_zero.mp hlength)⟩
  | cons first answers ih =>
    obtain ⟨hrunning', hqueue'⟩ := hs.run_serve first
    rw [List.flatMap_cons, run_append]
    refine ih (sound_run hs _) hrunning' ?_
    rw [hqueue', if_pos hrunning, List.length_tail]
    exact Nat.sub_le_of_le_add hlength

theorem Sound.drained (hs : Sound s) (answers : List Answers) (hlength : s.queue.length < answers.length) :
    Drained (run schedulerStep s (answers.flatMap (serve σ))) := by
  obtain ⟨hrunning, hqueue⟩ : (run schedulerStep s (answers.flatMap (serve σ))).running = none
      ∧ (run schedulerStep s (answers.flatMap (serve σ))).queue = [] := by
    cases answers with
    | nil => simp at hlength
    | cons first answers =>
      obtain ⟨hrunning', hqueue'⟩ := hs.run_serve first
      rw [List.flatMap_cons, run_append]
      refine (sound_run hs _).run_flatMap_serve hrunning' answers ?_
      rw [hqueue']
      split_ifs
      · rw [List.length_tail]
        exact (Nat.sub_le _ _).trans (Nat.lt_succ_iff.mp hlength)
      · exact Nat.lt_succ_iff.mp hlength
  have hs' := sound_run hs (answers.flatMap (serve σ))
  refine ⟨hqueue, hrunning, fun id hid ↦ ?_⟩
  rcases hs'.terminal hid with h | ⟨-, hqueued | hinFlight⟩
  · exact h
  · simp [hqueue] at hqueued
  · have hmem := hs'.mem_inFlight hinFlight
    simp [Scheduler.inFlight, hrunning] at hmem

/-! ## Runs -/

/-- After every interleaving of enqueues, cancels, pumps and answers of the executor: the law holds, each cancel
answers as it should, and whatever the executor answers from then on, each entry gets to its last event. -/
theorem scheduler_run (ops : List (SchedulerOp σ)) :
    SchedulerLaw (run schedulerStep (Scheduler.new σ) ops)
      ∧ (∀ id, CancelLaw (run schedulerStep (Scheduler.new σ) ops) id)
      ∧ ∀ answers : List Answers, (run schedulerStep (Scheduler.new σ) ops).queue.length < answers.length →
          Drained (run schedulerStep (run schedulerStep (Scheduler.new σ) ops) (answers.flatMap (serve σ))) := by
  have hs : Sound (run schedulerStep (Scheduler.new σ) ops) := sound_run sound_new ops
  exact ⟨hs.law, hs.cancelLaw, hs.drained⟩

/-- The slot is free and an entry waits for the pump that was deferred. -/
def waitingForPump : List (SchedulerOp ℕ) := [.enqueue 0 false, .pump, .enqueue 0 false, .submitFails "config", .release]

/-- Nothing runs while the queue is not empty; and an entry that was cancelled is never submitted, while another
cancel of it answers false. -/
theorem not_idle_waitingForPump :
    ((run schedulerStep (Scheduler.new ℕ) waitingForPump).running = none
        ∧ (run schedulerStep (Scheduler.new ℕ) waitingForPump).queue ≠ [])
      ∧ cancels (cancel (run schedulerStep (Scheduler.new ℕ) waitingForPump) 2) 2 = false
      ∧ ∀ later, 2 ∉ submittedIds
          (run schedulerStep (cancel (run schedulerStep (Scheduler.new ℕ) waitingForPump) 2) later).log :=
  ⟨by decide, by decide, ((sound_run sound_new waitingForPump).cancelLaw 2).final (by decide)⟩

end Amicode.Scheduling
