import Amicode.Queue.Drain

/-!
# What the proposal queue guarantees

Whatever the order of the calls, the timers and the settlements: an identity is applied successfully
at most once, a proposal whose truth was found different is never handed to the executor, the executor
is never called while the hold is on, and no identity is lost.

The first two are about pairs of events in the log (`QueueEvent.allows`). What carries them is that
the keys of the live proposals are distinct and apart from the receipts, and that a drain which waits
is waiting for a live proposal that does not rest in pending-reconfirm. The counter of duplicate
applies, a tripwire in the source, stays at zero.
-/

open List

namespace Amicode.Queue

/-- May the second event come after the first? No start comes after a change of the same identity,
and no success after a success. -/
def QueueEvent.allows : QueueEvent → QueueEvent → Prop
  | .changed key, .started key' _ => key ≠ key'
  | .applied key, .applied key' => key ≠ key'
  | _, _ => True

/-- The laws of the queue, of its log and its file. -/
structure QueueLaws (q : ProposalQueue) : Prop where
  ordered : q.log.Pairwise QueueEvent.allows
  unheld : ∀ key, .started key true ∉ q.log
  kept : ∀ key, .enqueued key ∈ q.log → key ∈ q.file.liveKeys ∨ key ∈ q.file.appliedKeys

/-! ## The invariant -/

/-- The proposal is live under its id and key, and does not rest. -/
def Live (file : ProposalStoreFile) (p : QueuedProposal) : Prop :=
  ∃ p' ∈ file.proposals, p'.id = p.id ∧ p'.key = p.key ∧ p'.state ≠ .pendingReconfirm

structure Accounts (file : ProposalStoreFile) (nextId : ℕ) (log : List QueueEvent) : Prop where
  ids : file.ids.Nodup
  fresh : ∀ id ∈ file.ids, id < nextId
  keys : file.liveKeys.Nodup
  apart : ∀ key ∈ file.liveKeys, key ∉ file.appliedKeys
  ordered : log.Pairwise QueueEvent.allows
  unheld : ∀ key, .started key true ∉ log
  kept : ∀ key, .enqueued key ∈ log → key ∈ file.liveKeys ∨ key ∈ file.appliedKeys
  applied : ∀ key, .applied key ∈ log → key ∈ file.appliedKeys
  resting : ∀ key, .changed key ∈ log → key ∈ file.appliedKeys
    ∨ ∃ p ∈ file.proposals, p.key = key ∧ p.state = .pendingReconfirm

/-- What a drain waits for is live, and the executions in flight are the one it waits for. -/
def Waits (file : ProposalStoreFile) (inFlight : List String) : Option RunningDrain → Prop
  | none => inFlight = []
  | some ⟨_, _, .fetching p⟩ => inFlight = [] ∧ Live file p
  | some ⟨_, _, .applying p⟩ => inFlight = [p.key] ∧ Live file p
  | some ⟨_, _, .sharing _⟩ => False

theorem Waits.mono {file file' : ProposalStoreFile} {inFlight : List String}
    {running : Option RunningDrain} (h : Waits file inFlight running)
    (hlive : ∀ p, Live file p → Live file' p) : Waits file' inFlight running := by
  rcases running with _ | ⟨report, rest, _ | _ | _⟩
  · exact h
  · exact ⟨h.1, hlive _ h.2⟩
  · exact ⟨h.1, hlive _ h.2⟩
  · exact h

structure ProposalQueue.Sound (q : ProposalQueue) : Prop where
  accounts : Accounts q.file q.nextId q.log
  stored : q.stored = q.file
  single : q.duplicateApplies = 0
  waits : Waits q.file q.inFlight q.running

section File

variable {file : ProposalStoreFile} {nextId : ℕ} {log : List QueueEvent} {p : QueuedProposal}

theorem Accounts.eq_of_id (h : Accounts file nextId log) {p p' : QueuedProposal}
    (hp : p ∈ file.proposals) (hp' : p' ∈ file.proposals) (hid : p.id = p'.id) : p = p' :=
  inj_on_of_nodup_map h.ids hp hp' hid

theorem Accounts.eq_of_key (h : Accounts file nextId log) {p p' : QueuedProposal}
    (hp : p ∈ file.proposals) (hp' : p' ∈ file.proposals) (hkey : p.key = p'.key) : p = p' :=
  inj_on_of_nodup_map h.keys hp hp' hkey

theorem Live.key_mem (h : Live file p) : p.key ∈ file.liveKeys := by
  obtain ⟨p', hp', -, hkey, -⟩ := h
  exact hkey ▸ List.mem_map_of_mem hp'

/-- A live proposal that does not rest was never found different. -/
theorem Accounts.not_changed (h : Accounts file nextId log) (hlive : Live file p) :
    .changed p.key ∉ log := by
  obtain ⟨p', hp', -, hkey, hstate⟩ := hlive
  intro hmem
  rcases h.resting _ hmem with happlied | ⟨p'', hp'', hkey'', hrests⟩
  · exact h.apart _ (hkey ▸ List.mem_map_of_mem hp') happlied
  · obtain rfl := h.eq_of_key hp'' hp' (hkey''.trans hkey.symm)
    exact hstate hrests

/-! ### Events -/

def QueueEvent.AccountedBy (file : ProposalStoreFile) : QueueEvent → Prop
  | .enqueued key => key ∈ file.liveKeys ∨ key ∈ file.appliedKeys
  | .changed key => key ∈ file.appliedKeys ∨ ∃ p ∈ file.proposals, p.key = key ∧ p.state = .pendingReconfirm
  | .started _ held => held = false
  | .applied key => key ∈ file.appliedKeys

section

variable (h : Accounts file nextId log)

include h

theorem Accounts.concat {e : QueueEvent} (hallows : ∀ e' ∈ log, e'.allows e)
    (he : e.AccountedBy file) : Accounts file nextId (log ++ [e]) := by
  have hsplit {e' : QueueEvent} (hmem : e' ∈ log ++ [e]) : e' ∈ log ∨ e'.AccountedBy file :=
    (mem_append.mp hmem).imp_right fun hmem' ↦ by rwa [mem_singleton.mp hmem']
  refine { h with
    ordered := ?_
    unheld := fun key hmem ↦ (hsplit hmem).elim (h.unheld key) fun hheld ↦ Bool.noConfusion hheld
    kept := fun key hmem ↦ (hsplit hmem).elim (h.kept key) id
    applied := fun key hmem ↦ (hsplit hmem).elim (h.applied key) id
    resting := fun key hmem ↦ (hsplit hmem).elim (h.resting key) id }
  rw [pairwise_append]
  refine ⟨h.ordered, pairwise_singleton _ _, fun e' he' e'' he'' ↦ ?_⟩
  obtain rfl := mem_singleton.mp he''
  exact hallows e' he'

theorem Accounts.enqueued {key : String}
    (hkey : key ∈ file.liveKeys ∨ key ∈ file.appliedKeys) : Accounts file nextId (log ++ [.enqueued key]) :=
  h.concat (fun e _ ↦ by cases e <;> trivial) hkey

theorem Accounts.changed {key : String}
    (hkey : key ∈ file.appliedKeys ∨ ∃ p ∈ file.proposals, p.key = key ∧ p.state = .pendingReconfirm) :
    Accounts file nextId (log ++ [.changed key]) :=
  h.concat (fun e _ ↦ by cases e <;> trivial) hkey

theorem Accounts.started (hlive : Live file p) : Accounts file nextId (log ++ [.started p.key false]) := by
  refine h.concat (fun e he ↦ ?_) rfl
  rcases e with _ | key | _ | _
  case changed => exact fun hsame ↦ h.not_changed hlive (hsame ▸ he)
  all_goals trivial

theorem Accounts.succeeded {key : String}
    (hkey : key ∈ file.appliedKeys) (hnew : .applied key ∉ log) : Accounts file nextId (log ++ [.applied key]) := by
  refine h.concat (fun e he ↦ ?_) hkey
  rcases e with _ | _ | _ | key'
  case applied => exact fun hsame ↦ hnew (hsame ▸ he)
  all_goals trivial

/-! ### Writes -/

end

section Written

variable {id : ℕ} {f : QueuedProposal → QueuedProposal}

theorem ids_written (hid : ∀ p, (f p).id = p.id) : (file.written id f).ids = file.ids := by
  rw [ProposalStoreFile.ids, ProposalStoreFile.written, List.map_map]
  refine map_congr_left fun p _ ↦ ?_
  rw [Function.comp_apply]
  split_ifs
  · exact hid p
  · rfl

theorem liveKeys_written (hkey : ∀ p, (f p).key = p.key) :
    (file.written id f).liveKeys = file.liveKeys := by
  rw [ProposalStoreFile.liveKeys, ProposalStoreFile.written, List.map_map]
  refine map_congr_left fun p _ ↦ ?_
  rw [Function.comp_apply]
  split_ifs
  · exact hkey p
  · rfl

theorem Accounts.written (h : Accounts file nextId log) (hid : ∀ p, (f p).id = p.id)
    (hkey : ∀ p, (f p).key = p.key)
    (hrests : ∀ p ∈ file.proposals, p.id = id → p.state = .pendingReconfirm →
      (f p).state = .pendingReconfirm) :
    Accounts (file.written id f) nextId log where
  ids := by
    rw [ids_written hid]
    exact h.ids
  fresh := by
    rw [ids_written hid]
    exact h.fresh
  keys := by
    rw [liveKeys_written hkey]
    exact h.keys
  apart := by
    rw [liveKeys_written hkey]
    exact h.apart
  ordered := h.ordered
  unheld := h.unheld
  kept := by
    rw [liveKeys_written hkey]
    exact h.kept
  applied := h.applied
  resting key hmem := by
    rcases h.resting key hmem with happlied | ⟨p, hp, hpkey, hstate⟩
    · exact Or.inl happlied
    · refine Or.inr ⟨_, List.mem_map_of_mem hp, ?_⟩
      split_ifs with hpid
      · exact ⟨(hkey p).trans hpkey, hrests p hp hpid hstate⟩
      · exact ⟨hpkey, hstate⟩

theorem Live.written (h : Live file p) (hid : ∀ p, (f p).id = p.id)
    (hkey : ∀ p, (f p).key = p.key)
    (hstate : ∀ p, p.state ≠ .pendingReconfirm → (f p).state ≠ .pendingReconfirm) :
    Live (file.written id f) p := by
  obtain ⟨p', hp', hpid, hpkey, hrests⟩ := h
  refine ⟨_, List.mem_map_of_mem hp', ?_⟩
  split_ifs
  · exact ⟨(hid p').trans hpid, (hkey p').trans hpkey, hstate p' hrests⟩
  · exact ⟨hpid, hpkey, hrests⟩

theorem Accounts.rests_of_live (h : Accounts file nextId log) (hlive : Live file p) :
    ∀ p' ∈ file.proposals, p'.id = p.id → p'.state = .pendingReconfirm →
      (f p').state = .pendingReconfirm := by
  obtain ⟨p'', hp'', hpid, -, hstate⟩ := hlive
  intro p' hp' hid hrests
  obtain rfl := h.eq_of_id hp' hp'' (hid.trans hpid.symm)
  exact absurd hrests hstate

end Written

theorem mem_appliedKeys_resolved {result : JsonValue} {key : String} :
    key ∈ (file.resolved p result).appliedKeys ↔ key ∈ file.appliedKeys ∨ key = p.key := by
  simp [ProposalStoreFile.appliedKeys, ProposalStoreFile.resolved]

theorem Accounts.resolved (h : Accounts file nextId log) (hlive : Live file p)
    (result : JsonValue) : Accounts (file.resolved p result) nextId log := by
  obtain ⟨p', hp', hpid, hpkey, hstate⟩ := hlive
  have hsub : (file.resolved p result).proposals.Sublist file.proposals := filter_sublist
  have hstays : ∀ p'' ∈ file.proposals, p'' ∈ (file.resolved p result).proposals ∨ p'' = p' := by
    intro p'' hp''
    by_cases hid : p''.id = p.id
    · exact Or.inr (h.eq_of_id hp'' hp' (hid.trans hpid.symm))
    · exact Or.inl (mem_filter.mpr ⟨hp'', by simpa using hid⟩)
  refine ⟨h.ids.sublist (hsub.map _), fun id hid ↦ h.fresh id ((hsub.map _).subset hid),
    h.keys.sublist (hsub.map _), ?_, h.ordered, h.unheld, ?_, ?_, ?_⟩
  · intro key hkey happlied
    obtain ⟨p'', hp'', rfl⟩ := List.mem_map.mp hkey
    rcases mem_appliedKeys_resolved.mp happlied with happlied | hsame
    · exact h.apart _ (List.mem_map_of_mem (hsub.subset hp'')) happlied
    · obtain rfl := h.eq_of_key (hsub.subset hp'') hp' (hsame.trans hpkey.symm)
      exact absurd hpid (by simpa using (mem_filter.mp hp'').2)
  · intro key hmem
    rcases h.kept key hmem with hkey | happlied
    · obtain ⟨p'', hp'', rfl⟩ := List.mem_map.mp hkey
      rcases hstays p'' hp'' with hin | rfl
      · exact Or.inl (List.mem_map_of_mem hin)
      · exact Or.inr (mem_appliedKeys_resolved.mpr (Or.inr hpkey))
    · exact Or.inr (mem_appliedKeys_resolved.mpr (Or.inl happlied))
  · exact fun key hmem ↦ mem_appliedKeys_resolved.mpr (Or.inl (h.applied key hmem))
  · intro key hmem
    rcases h.resting key hmem with happlied | ⟨p'', hp'', hkey, hrests⟩
    · exact Or.inl (mem_appliedKeys_resolved.mpr (Or.inl happlied))
    · rcases hstays p'' hp'' with hin | rfl
      · exact Or.inr ⟨p'', hin, hkey, hrests⟩
      · exact absurd hrests hstate

theorem Accounts.push (h : Accounts file nextId log) (hid : p.id = nextId)
    (hlive : p.key ∉ file.liveKeys) (happlied : p.key ∉ file.appliedKeys) :
    Accounts { file with proposals := file.proposals ++ [p] } (nextId + 1) log := by
  have hids : ({ file with proposals := file.proposals ++ [p] } : ProposalStoreFile).ids
      = file.ids ++ [p.id] := by
    simp [ProposalStoreFile.ids]
  have hkeys : ({ file with proposals := file.proposals ++ [p] } : ProposalStoreFile).liveKeys
      = file.liveKeys ++ [p.key] := by
    simp [ProposalStoreFile.liveKeys]
  refine ⟨?_, ?_, ?_, ?_, h.ordered, h.unheld, ?_, h.applied, ?_⟩
  · rw [hids, nodup_append]
    refine ⟨h.ids, nodup_singleton _, fun id hmem id' hid' hsame ↦ ?_⟩
    have hlt : id < nextId := h.fresh id hmem
    obtain rfl := mem_singleton.mp hid'
    omega
  · rw [hids]
    intro id hmem
    rcases mem_append.mp hmem with hmem | hmem
    · exact Nat.lt_succ_of_lt (h.fresh id hmem)
    · obtain rfl := mem_singleton.mp hmem
      omega
  · rw [hkeys, nodup_append]
    refine ⟨h.keys, nodup_singleton _, fun key hmem key' hkey' hsame ↦ ?_⟩
    obtain rfl := mem_singleton.mp hkey'
    exact hlive (hsame ▸ hmem)
  · rw [hkeys]
    intro key hmem
    rcases mem_append.mp hmem with hmem | hmem
    · exact h.apart key hmem
    · obtain rfl := mem_singleton.mp hmem
      exact happlied
  · intro key hmem
    rw [hkeys, mem_append]
    exact (h.kept key hmem).imp_left Or.inl
  · intro key hmem
    refine (h.resting key hmem).imp_right ?_
    rintro ⟨p', hp', hkey⟩
    exact ⟨p', mem_append_left _ hp', hkey⟩

end File

/-! ## The operations -/

namespace ProposalQueue

variable {options : ProposalQueueOptions} {q : ProposalQueue}

/-- The queue between two waits of a drain, or before it: nothing is in flight. -/
structure Ready (q : ProposalQueue) : Prop where
  accounts : Accounts q.file q.nextId q.log
  stored : q.stored = q.file
  single : q.duplicateApplies = 0
  inFlight : q.inFlight = []

theorem Ready.runDrain (h : q.Ready) (rest : List ℕ) (report : DrainReport) :
    (runDrain options rest report q).Sound := by
  induction rest generalizing q report with
  | nil => exact ⟨h.accounts, h.stored, h.single, h.inFlight⟩
  | cons id rest ih =>
    rw [ProposalQueue.runDrain]
    split
    case h_1 => exact ih h report
    case h_2 p hfind =>
      have hmem : p ∈ q.file.proposals := mem_of_find?_eq_some hfind
      split_ifs with hrests hblocked hstale
      · exact ih h _
      · exact ih h _
      · -- a rejection is noted, and nothing else
        refine ih ?_ _
        refine ⟨?_, rfl, h.single, h.inFlight⟩
        exact h.accounts.written (fun _ ↦ rfl) (fun _ ↦ rfl) fun _ _ _ hstate ↦ hstate
      · exact ⟨h.accounts, h.stored, h.single, h.inFlight, p, hmem, rfl, rfl, hrests⟩

theorem Sound.ready (h : q.Sound) (hnone : q.running = none) : q.Ready := by
  have hwaits := h.waits
  rw [hnone] at hwaits
  exact ⟨h.accounts, h.stored, h.single, hwaits⟩

theorem Sound.enqueue (h : q.Sound) (input : ProposalEnqueueInput) :
    (q.enqueue options input).Sound := by
  rw [ProposalQueue.enqueue]
  split_ifs with happlied hlive
  · exact ⟨h.accounts.enqueued (Or.inr happlied), h.stored, h.single, h.waits⟩
  · exact ⟨h.accounts.enqueued (Or.inl hlive), h.stored, h.single, h.waits⟩
  · refine ⟨Accounts.enqueued ?_ (Or.inl ?_), rfl, h.single, ?_⟩
    · exact h.accounts.push rfl hlive happlied
    · exact List.mem_map.mpr ⟨_, mem_append_right _ mem_cons_self, rfl⟩
    · refine h.waits.mono fun p hp ↦ ?_
      obtain ⟨p', hp', hlive⟩ := hp
      exact ⟨p', mem_append_left _ hp', hlive⟩

theorem Sound.start (h : q.Sound) : (q.start options).Sound := by
  rw [ProposalQueue.start]
  split
  case h_1 chained hnone _ =>
    have hready := h.ready hnone
    refine Ready.runDrain ?_ _ _
    exact ⟨hready.accounts, hready.stored, hready.single, hready.inFlight⟩
  case h_2 => exact h

theorem Ready.scheduleRetry (h : q.Ready) (attempts : ℕ) :
    (scheduleRetry options attempts q).Ready := by
  rw [ProposalQueue.scheduleRetry]
  split_ifs
  · exact h
  · exact ⟨h.accounts, h.stored, h.single, h.inFlight⟩

theorem Ready.applyProposal (h : q.Ready) {p : QueuedProposal} (hlive : Live q.file p)
    (hheld : q.holdActive = false) (report : DrainReport) (rest : List ℕ) :
    (applyProposal options p report rest q).Sound := by
  have hinFlight : p.key ∉ q.inFlight := by rw [h.inFlight]; exact not_mem_nil
  have happlied : p.key ∉ q.file.appliedKeys := h.accounts.apart _ hlive.key_mem
  rw [ProposalQueue.applyProposal, if_neg hinFlight, if_neg happlied]
  refine ⟨?_, h.stored, h.single, ?_, hlive⟩
  · rw [hheld]
    exact h.accounts.started hlive
  · rw [h.inFlight]

theorem Ready.verified (h : q.Ready) {p : QueuedProposal} (hlive : Live q.file p)
    (report : DrainReport) (rest : List ℕ) (actual : JsonValue) :
    (verified options p report rest actual q).Sound := by
  -- a blocked proposal is staged again
  obtain ⟨q', hq', hready, hlive'⟩ : ∃ q', q' = (if p.state = .blockedDegraded then
      save (update p.id (fun p ↦ { p with state := .staged }) q) else q)
      ∧ q'.Ready ∧ Live q'.file p := by
    refine ⟨_, rfl, ?_⟩
    split_ifs
    · refine ⟨⟨?_, rfl, h.single, h.inFlight⟩, ?_⟩
      · exact h.accounts.written (fun _ ↦ rfl) (fun _ ↦ rfl) (h.accounts.rests_of_live hlive)
      · exact hlive.written (fun _ ↦ rfl) (fun _ ↦ rfl) fun _ _ ↦ by simp
    · exact ⟨h, hlive⟩
  rw [ProposalQueue.verified, ← hq']
  split_ifs with hsurface hholds hchanged hheld
  · exact hready.runDrain _ _
  · refine Ready.runDrain ?_ _ _
    refine ⟨?_, rfl, hready.single, hready.inFlight⟩
    refine (hready.accounts.resolved hlive' _).changed (Or.inl ?_)
    exact mem_appliedKeys_resolved.mpr (Or.inr rfl)
  · refine Ready.runDrain ?_ _ _
    refine ⟨?_, rfl, hready.single, hready.inFlight⟩
    refine Accounts.changed ?_ (Or.inr ?_)
    · exact hready.accounts.written (fun _ ↦ rfl) (fun _ ↦ rfl)
        (hready.accounts.rests_of_live hlive')
    obtain ⟨p', hp', hid, hkey, -⟩ := hlive'
    exact ⟨_, List.mem_map_of_mem hp', by rw [if_pos hid]; exact ⟨hkey, rfl⟩⟩
  · exact hready.runDrain _ _
  · exact hready.applyProposal hlive' (by simpa using hheld) report rest

theorem Sound.fetched (h : q.Sound) (outcome : Except String JsonValue) :
    (q.fetched options outcome).Sound := by
  rw [ProposalQueue.fetched]
  split
  case h_1 report rest p hrunning =>
    have hwaits := h.waits
    rw [hrunning] at hwaits
    obtain ⟨hinFlight, hlive⟩ := hwaits
    have hready : q.Ready := ⟨h.accounts, h.stored, h.single, hinFlight⟩
    rcases outcome with message | actual
    · refine Ready.runDrain (Ready.scheduleRetry ?_ _) _ _
      refine ⟨?_, rfl, h.single, hinFlight⟩
      exact h.accounts.written (fun _ ↦ rfl) (fun _ ↦ rfl) (h.accounts.rests_of_live hlive)
    · exact hready.verified hlive report rest actual
  case h_2 => exact h

theorem Sound.executed (h : q.Sound) (outcome : Except String JsonValue) :
    (q.executed options outcome).Sound := by
  rw [ProposalQueue.executed]
  split
  case h_1 report rest p hrunning =>
    have hwaits := h.waits
    rw [hrunning] at hwaits
    obtain ⟨hinFlight, hlive⟩ := hwaits
    have herase : q.inFlight.erase p.key = [] := by rw [hinFlight]; simp
    rcases outcome with message | result
    · exact ⟨h.accounts, h.stored, h.single, herase⟩
    · refine Ready.runDrain ?_ _ _
      refine ⟨?_, rfl, h.single, herase⟩
      refine (h.accounts.resolved hlive result).succeeded ?_ ?_
      · exact mem_appliedKeys_resolved.mpr (Or.inr rfl)
      · exact fun hmem ↦ h.accounts.apart _ hlive.key_mem (h.accounts.applied _ hmem)
  case h_2 hrunning =>
    have hwaits := h.waits
    rw [hrunning] at hwaits
    exact hwaits.elim
  case h_3 => exact h

theorem Sound.reopen (h : q.Sound) : q.reopen.Sound := by
  rw [ProposalQueue.reopen]
  split
  · refine ⟨?_, rfl, rfl, rfl⟩
    rw [fromStore, h.stored]
    exact h.accounts
  · exact h

theorem Sound.step (h : q.Sound) (op : QueueOp) : (q.step options op).Sound := by
  rcases op
  case enqueue input => exact h.enqueue input
  case signal signal =>
    rw [ProposalQueue.step]
    split_ifs
    · exact h.enqueue signal.input
    · exact h
  case start => exact h.start
  case fetched outcome => exact h.fetched outcome
  case executed outcome => exact h.executed outcome
  case reopen => exact h.reopen
  case timer i =>
    rw [ProposalQueue.step, timer]
    split_ifs
    · exact ⟨h.accounts, h.stored, h.single, h.waits⟩
    · exact h
  all_goals exact ⟨h.accounts, h.stored, h.single, h.waits⟩

end ProposalQueue

/-! ## Runs -/

theorem sound_fresh (machine : Attach.ModeMachine) :
    (ProposalQueue.fromStore machine {} 0).Sound := by
  refine ⟨?_, rfl, rfl, rfl⟩
  constructor <;> simp [ProposalQueue.fromStore, ProposalStoreFile.ids, ProposalStoreFile.liveKeys]

end Amicode.Queue
