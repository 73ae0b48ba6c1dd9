import Amicode.Distill.Queue
import Amicode.Foundation.Exclusion
import Amicode.Foundation.StepMachine

/-!
# One drainer of the distill queue

Two parties must never be between taking the lock and removing it, no enqueue may write over the file of another,
a job must be handed to one live drainer only, and the lock of a process that has ended must be free to take once
the stale window has passed.

A party that has judged the lock moves aside whatever is at its path by then: of two that judged one abandoned
lock, the second takes away the lock that the first has created since. The directory exists before its owner is
written, and one whose owner cannot be read is never reclaimed, so that a process that ends in between leaves a
lock for good. The counter in the name of a job is that of its process, and two processes may come to the same
name in one millisecond. The law holds in every run that stays clear of these (`distillLaw_run`).
-/

namespace Amicode.Distill

open StepMachine Exclusion JsText List Option Function

variable {W : Type*}

/-! ## The law -/

section Law

variable [DecidableEq W]

/-- A party starts when the stale window has passed, and takes the lock. -/
def TakesOver (pid : W → ℕ) (s : DistillState W) (v : W) : Prop :=
  ((run (distillStep pid) s (.tick (STALE_LOCK_MS + 1) :: .start v :: List.replicate 6 (.step v false))).phases
    v).isInside = true

structure DistillLaw (pid : W → ℕ) (s : DistillState W) : Prop where
  exclusive : ∀ w w', (s.phases w).isInside = true → (s.phases w').isInside = true → w = w'
  kept : s.overwritten = []
  handedOnce : ∀ h ∈ s.handed, ∀ h' ∈ s.handed, h.job = h'.job → s.phases h.drainer ≠ .dead →
    s.phases h'.drainer ≠ .dead → h.drainer = h'.drainer
  reclaimable : ∀ lock ∈ s.lock, s.phases lock.holder = .dead → ∀ v, s.phases v = .idle → TakesOver pid s v

/-- What a step takes aside is not the lock of a party inside, an owner is written, and what cannot be listed is
empty. -/
def HarmlessAt (s : DistillState W) (fails : Bool) : Phase → Prop
  | .reclaiming => fails = false → ∀ lock ∈ s.lock, (s.phases lock.holder).isInside = false
  | .owning => fails = false
  | .checking => fails = true → s.queue.keys = []
  | _ => True

/-- Nor do two processes enqueue jobs of one kind with one counter in one millisecond, does a process end before it
has written the owner of its lock, or another program take the identifier of one that has left its lock. -/
def Harmless (pid : W → ℕ) (s : DistillState W) : DistillOp W → Prop
  | .enqueue w kind _ =>
    ∀ e ∈ s.enqueued, e.pid ≠ pid w → (e.ms, e.counter, e.kind) ≠ (s.clock, s.enqueueCounter (pid w), kind)
  | .step w fails => HarmlessAt s fails (s.phases w)
  | .exit p => ∀ lock ∈ s.lock, pid lock.holder = p → s.phases lock.holder ≠ .owning
  | .spawn p => ∀ lock ∈ s.lock, s.phases lock.holder = .dead → pid lock.holder ≠ p
  | _ => True

instance decidableHarmlessAt (s : DistillState W) (fails : Bool) : ∀ phase, Decidable (HarmlessAt s fails phase)
  | .reclaiming => inferInstanceAs
    (Decidable (fails = false → ∀ lock ∈ s.lock, (s.phases lock.holder).isInside = false))
  | .owning => inferInstanceAs (Decidable (fails = false))
  | .checking => inferInstanceAs (Decidable (fails = true → s.queue.keys = []))
  | .idle | .claiming _ | .contended | .looking _ | .judging _ | .listing | .draining _ | .discarding _ _ |
    .handing _ _ _ | .handling _ _ | .removing _ _ | .failing _ _ | .releasing | .rechecking | .thrown | .dead =>
    .isTrue trivial

instance decidableHarmless (pid : W → ℕ) (s : DistillState W) : ∀ op, Decidable (Harmless pid s op)
  | .enqueue w kind _ => inferInstanceAs (Decidable (∀ e ∈ s.enqueued, e.pid ≠ pid w →
      (e.ms, e.counter, e.kind) ≠ (s.clock, s.enqueueCounter (pid w), kind)))
  | .step w fails => inferInstanceAs (Decidable (HarmlessAt s fails (s.phases w)))
  | .exit p => inferInstanceAs (Decidable (∀ lock ∈ s.lock, pid lock.holder = p → s.phases lock.holder ≠ .owning))
  | .spawn p => inferInstanceAs (Decidable (∀ lock ∈ s.lock, s.phases lock.holder = .dead → pid lock.holder ≠ p))
  | .tick _ | .start _ => .isTrue trivial

end Law

/-! ## Names -/

theorem Kind.text_injective : Function.Injective Kind.text := by
  intro a b h
  cases a <;> cases b <;> first | rfl | exact absurd h (by decide)

theorem notMem_decimal_dash (n : ℕ) : '-' ∉ decimal n := fun h ↦ by
  have := isDigit_of_mem_decimal h
  simp [isDigit] at this

theorem jobName_inj {ms ms' counter counter' : ℕ} {kind kind' : Kind}
    (h : jobName ms counter kind = jobName ms' counter' kind') : ms = ms' ∧ counter = counter' ∧ kind = kind' := by
  have hpad : ∀ n, '-' ∉ padStart 4 '0' (decimal n) := fun n hmem ↦ by
    rcases mem_append.mp hmem with hmem | hmem
    · exact absurd (mem_replicate.mp hmem).2 (by decide)
    · exact notMem_decimal_dash n hmem
  obtain ⟨hms, hrest⟩ := append_cons_inj (notMem_decimal_dash ms) (notMem_decimal_dash ms') h
  obtain ⟨hcounter, hkind⟩ := append_cons_inj (hpad counter) (hpad counter') hrest
  have hms := congrArg decimal? hms
  have hcounter := congrArg decimal? hcounter
  rw [decimal?_decimal, decimal?_decimal] at hms
  rw [decimal?_padStart, decimal?_padStart] at hcounter
  exact ⟨Option.some.inj hms, Option.some.inj hcounter, Kind.text_injective (append_cancel_right hkind)⟩

/-! ## The lock -/

section Lock

variable {pid : W → ℕ} {s : DistillState W} {w v : W} {phase : Phase}

def DistillState.holder (s : DistillState W) : Option W := s.lock.map LockDir.holder

structure LockSound (pid : W → ℕ) (s : DistillState W) : Prop where
  held : Held s.holder fun w ↦ (s.phases w).isInside = true
  owned : ∀ lock ∈ s.lock, s.phases lock.holder ≠ .owning →
    ∃ owner ∈ lock.owner, owner.pid = pid lock.holder ∧ owner.ts ≤ s.clock
  gone : ∀ lock ∈ s.lock, s.phases lock.holder = .dead → s.isPidAlive (pid lock.holder) = false

theorem holder_eq_none_iff : s.holder = none ↔ s.lock = none := map_eq_none_iff

variable [DecidableEq W]

theorem phases_setPhase : (s.setPhase w phase).phases v = if v = w then phase else s.phases v := by
  simp [DistillState.setPhase, update_apply]

theorem isInside_setPhase (hv : ((s.setPhase w phase).phases v).isInside = true) :
    v = w ∧ phase.isInside = true ∨ v ≠ w ∧ (s.phases v).isInside = true := by
  rw [phases_setPhase] at hv
  split_ifs at hv with hvw
  · exact .inl ⟨hvw, hv⟩
  · exact .inr ⟨hvw, hv⟩

theorem LockSound.setPhase (hs : LockSound pid s) (hinside : phase.isInside = true → (s.phases w).isInside = true)
    (howning : phase ≠ .owning → s.phases w ≠ .owning) (hdead : phase ≠ .dead) :
    LockSound pid (s.setPhase w phase) where
  held := hs.held.mono fun v hv ↦ by
    rcases isInside_setPhase hv with ⟨rfl, hphase⟩ | ⟨-, hv⟩
    · exact hinside hphase
    · exact hv
  owned lock hlock hne := by
    rw [phases_setPhase] at hne
    split_ifs at hne with hw
    · exact hs.owned lock hlock (hw ▸ howning hne)
    · exact hs.owned lock hlock hne
  gone lock hlock hgone := by
    rw [phases_setPhase] at hgone
    split_ifs at hgone with hw
    · exact absurd hgone hdead
    · exact hs.gone lock hlock hgone

theorem LockSound.create (hs : LockSound pid s) (hlock : s.lock = none) :
    LockSound pid ({ s with lock := some ⟨w, none⟩ }.setPhase w .owning) := by
  have hfree := holder_eq_none_iff.mpr hlock ▸ hs.held
  refine ⟨hfree.enter fun v hv ↦ ?_, fun lock hmem hne ↦ ?_, fun lock hmem hgone ↦ ?_⟩
  · rcases isInside_setPhase hv with ⟨hvw, -⟩ | ⟨-, hv⟩
    · exact .inl hvw
    · exact .inr hv
  · obtain rfl := Option.some.inj hmem
    rw [phases_setPhase, if_pos rfl] at hne
    exact absurd rfl hne
  · obtain rfl := Option.some.inj hmem
    rw [phases_setPhase, if_pos rfl] at hgone
    exact absurd hgone (by simp)

theorem LockSound.own {lock : LockDir W} (hs : LockSound pid s) (hlock : s.lock = some lock)
    (hw : s.phases w = .owning) :
    LockSound pid ({ s with lock := some { lock with owner := some ⟨pid w, s.clock⟩ } }.setPhase w .checking) := by
  have hinside : (s.phases w).isInside = true := by rw [hw]; rfl
  have hholder : lock.holder = w := by
    have := hs.held w hinside
    rw [DistillState.holder, hlock] at this
    exact Option.some.inj this
  refine ⟨fun v hv ↦ ?_, fun lock' hmem _ ↦ ?_, fun lock' hmem hgone ↦ ?_⟩
  · refine congrArg some (hholder.trans ?_)
    rcases isInside_setPhase hv with ⟨hvw, -⟩ | ⟨-, hv⟩
    · exact hvw.symm
    · exact hs.held.unique hinside hv
  · obtain rfl := Option.some.inj hmem
    exact ⟨⟨pid w, s.clock⟩, rfl, congrArg pid hholder.symm, Nat.le_refl _⟩
  · obtain rfl := Option.some.inj hmem
    have hgone : (s.setPhase w .checking).phases lock.holder = .dead := hgone
    rw [phases_setPhase, if_pos hholder] at hgone
    exact absurd hgone (by simp)

theorem LockSound.clear (hfree : ∀ v, v ≠ w → (s.phases v).isInside = false) (hphase : phase.isInside = false) :
    LockSound pid ({ s with lock := none }.setPhase w phase) := by
  refine ⟨fun v hv ↦ ?_, fun _ hmem ↦ (nomatch hmem), fun _ hmem ↦ (nomatch hmem)⟩
  rcases isInside_setPhase hv with ⟨-, hv⟩ | ⟨hvw, hv⟩
  · simp [hphase] at hv
  · have hout : (s.phases v).isInside = false := hfree v hvw
    exact absurd hv (by simp [hout])

end Lock

/-! ## The jobs -/

section Jobs

variable {pid : W → ℕ} {s : DistillState W} {w v : W} {phase : Phase} {file : List Char} {job : Job}

/-- A live party that has handed a job which is still there is draining. -/
def Pending (s : DistillState W) : Prop :=
  ∀ file job, s.queue.get? file = some job → ∀ h ∈ s.handed, h.job = job.id →
    s.phases h.drainer ≠ .dead → (s.phases h.drainer).isDraining = true

/-- A job that a party has read is there. -/
def Read (s : DistillState W) : Prop :=
  ∀ w file job rest, s.phases w = .handing file job rest → s.queue.get? file = some job

structure QueueSound (s : DistillState W) : Prop where
  pending : Pending s
  read : Read s
  numbered : ∀ file job, s.queue.get? file = some job → job.id < s.enqueued.length
  handedBefore : ∀ h ∈ s.handed, h.job < s.enqueued.length
  named : ∀ file job, s.queue.get? file = some job → ∃ e ∈ s.enqueued, e.name = file
  counted : ∀ e ∈ s.enqueued, e.counter < s.enqueueCounter e.pid
  kept : s.overwritten = []
  once : ∀ h ∈ s.handed, ∀ h' ∈ s.handed, h.job = h'.job → s.phases h.drainer ≠ .dead →
    s.phases h'.drainer ≠ .dead → h.drainer = h'.drainer

theorem QueueSound.drop (hs : QueueSound s) (hread : ∀ v file' job rest, s.phases v ≠ .handing file' job rest) :
    QueueSound (s.drop file) := by
  have hkept : ∀ {file' job}, (s.queue.erase file).get? file' = some job → s.queue.get? file' = some job := by
    intro file' job hjob
    rw [InsertionMap.get?_erase] at hjob
    split_ifs at hjob
    exact hjob
  exact
    { pending := fun file' job hjob ↦ hs.pending file' job (hkept hjob)
      read := fun v file' job rest hv ↦ absurd hv (hread v file' job rest)
      numbered := fun file' job hjob ↦ hs.numbered file' job (hkept hjob)
      handedBefore := hs.handedBefore
      named := fun file' job hjob ↦ hs.named file' job (hkept hjob)
      counted := hs.counted
      kept := hs.kept
      once := hs.once }

theorem QueueSound.hand (hs : QueueSound s) (hw : (s.phases w).isDraining = true)
    (hjob : s.queue.get? file = some job)
    (honly : ∀ v, (s.phases v).isDraining = true → v = w) : QueueSound (s.hand w job) := by
  have hmem : ∀ {h : Handed W}, h ∈ (s.hand w job).handed → h ∈ s.handed ∨ h = ⟨job.id, w⟩ := fun h ↦ by
    simpa [DistillState.hand] using h
  have hown : ∀ h ∈ s.handed, h.job = job.id → s.phases h.drainer ≠ .dead → h.drainer = w := fun h hh hid hlive ↦
    honly _ (hs.pending file job hjob h hh hid hlive)
  refine ⟨fun file' job' hjob' h hh hid hlive ↦ ?_, hs.read, hs.numbered, fun h hh ↦ ?_, hs.named, hs.counted,
    hs.kept, fun h hh h' hh' hid hlive hlive' ↦ ?_⟩
  · rcases hmem hh with hh | rfl
    · exact hs.pending file' job' hjob' h hh hid hlive
    · exact hw
  · rcases hmem hh with hh | rfl
    · exact hs.handedBefore h hh
    · exact hs.numbered file job hjob
  · rcases hmem hh with hh | rfl <;> rcases hmem hh' with hh' | rfl
    · exact hs.once h hh h' hh' hid hlive hlive'
    · exact hown h hh hid hlive
    · exact (hown h' hh' hid.symm hlive').symm
    · rfl

theorem QueueSound.get?_newName (hs : QueueSound s) {kind : Kind} (hname : ∀ e ∈ s.enqueued, e.pid ≠ pid w →
      (e.ms, e.counter, e.kind) ≠ (s.clock, s.enqueueCounter (pid w), kind)) :
    s.queue.get? (jobName s.clock (s.enqueueCounter (pid w)) kind) = none := by
  rcases hget : s.queue.get? (jobName s.clock (s.enqueueCounter (pid w)) kind) with _ | job
  · rfl
  · obtain ⟨e, he, heq⟩ := hs.named _ _ hget
    obtain ⟨hms, hcounter, hkind⟩ := jobName_inj heq
    by_cases hpid : e.pid = pid w
    · have hlt := hs.counted e he
      rw [hpid, hcounter] at hlt
      omega
    · exact absurd (by rw [hms, hcounter, hkind]) (hname e he hpid)

theorem QueueSound.enqueueJob (hs : QueueSound s) (w : W) (kind : Kind) (whole : Bool)
    (hname : ∀ e ∈ s.enqueued, e.pid ≠ pid w →
      (e.ms, e.counter, e.kind) ≠ (s.clock, s.enqueueCounter (pid w), kind)) :
    QueueSound (enqueueJob pid s w kind whole) := by
  have hnew := hs.get?_newName hname
  have hget : ∀ {file job}, (Distill.enqueueJob pid s w kind whole).queue.get? file = some job →
      file = jobName s.clock (s.enqueueCounter (pid w)) kind ∧ job.id = s.enqueued.length ∨
        s.queue.get? file = some job := by
    intro file job hjob
    rw [Distill.enqueueJob, InsertionMap.get?_set] at hjob
    split_ifs at hjob with hfile
    · obtain rfl := Option.some.inj hjob
      exact .inl ⟨hfile.symm, rfl⟩
    · exact .inr hjob
  have hlength : (Distill.enqueueJob pid s w kind whole).enqueued.length = s.enqueued.length + 1 := by
    simp [Distill.enqueueJob]
  refine ⟨fun file job hjob h hh hid ↦ ?_, fun v file job rest hv ↦ ?_, fun file job hjob ↦ ?_, fun h hh ↦ ?_,
    fun file job hjob ↦ ?_, fun e he ↦ ?_, ?_, hs.once⟩
  · rcases hget hjob with ⟨-, hnumber⟩ | hjob
    · -- nobody has been handed what is new
      have hlt := hs.handedBefore h hh
      omega
    · exact hs.pending file job hjob h hh hid
  · have hold := hs.read v file job rest hv
    have hne : jobName s.clock (s.enqueueCounter (pid w)) kind ≠ file := by
      rintro rfl
      rw [hnew] at hold
      simp at hold
    exact (InsertionMap.get?_set_of_ne _ _ hne).trans hold
  · rw [hlength]
    rcases hget hjob with ⟨-, hnumber⟩ | hjob
    · omega
    · exact Nat.lt_succ_of_lt (hs.numbered file job hjob)
  · rw [hlength]
    exact Nat.lt_succ_of_lt (hs.handedBefore h hh)
  · rcases hget hjob with ⟨hfile, -⟩ | hjob
    · exact ⟨_, mem_append_right _ mem_cons_self, hfile.symm⟩
    · obtain ⟨e, he, hfile⟩ := hs.named file job hjob
      exact ⟨e, mem_append_left _ he, hfile⟩
  · simp only [Distill.enqueueJob, update_apply]
    rcases mem_append.mp he with he | he
    · have hlt := hs.counted e he
      split_ifs with hpid
      · rw [hpid] at hlt
        omega
      · exact hlt
    · obtain rfl := mem_singleton.mp he
      simp
  · have hfree : s.queue.contains (jobName s.clock (s.enqueueCounter (pid w)) kind) = false := by
      rw [InsertionMap.contains, hnew]
      rfl
    have hkept : (Distill.enqueueJob pid s w kind whole).overwritten = s.overwritten ++ [] :=
      congrArg (s.overwritten ++ ·) (if_neg (by simp [Enqueued.name, hfree]))
    rw [hkept, hs.kept]
    rfl

variable [DecidableEq W]

theorem QueueSound.setPhase (hs : QueueSound s) (hlive : s.phases w ≠ .dead)
    (hdraining : (s.phases w).isDraining = true → phase.isDraining = true ∨ ∀ file, s.queue.get? file = none)
    (hread : ∀ file job rest, phase = .handing file job rest → s.queue.get? file = some job) :
    QueueSound (s.setPhase w phase) where
  pending file job hjob h hmem hid hh := by
    rw [phases_setPhase] at hh ⊢
    split_ifs at hh ⊢ with hw
    · have hold := hs.pending file job hjob h hmem hid (hw ▸ hlive)
      rcases hdraining (hw ▸ hold) with hphase | hempty
      · exact hphase
      · exact nomatch (hempty file).symm.trans hjob
    · exact hs.pending file job hjob h hmem hid hh
  read v file job rest hv := by
    rw [phases_setPhase] at hv
    split_ifs at hv with hvw
    · exact hread file job rest hv
    · exact hs.read v file job rest hv
  numbered := hs.numbered
  handedBefore := hs.handedBefore
  named := hs.named
  counted := hs.counted
  kept := hs.kept
  once h hmem h' hmem' hid hh hh' := by
    have hold : ∀ v, (s.setPhase w phase).phases v ≠ .dead → s.phases v ≠ .dead := fun v hv ↦ by
      rw [phases_setPhase] at hv
      split_ifs at hv with hvw
      · exact hvw ▸ hlive
      · exact hv
    exact hs.once h hmem h' hmem' hid (hold _ hh) (hold _ hh')

theorem QueueSound.setPhase_outside (hs : QueueSound s) (hlive : s.phases w ≠ .dead)
    (hout : (s.phases w).isDraining = false) (hphase : phase.isDraining = false) : QueueSound (s.setPhase w phase) :=
  hs.setPhase hlive (fun h ↦ by simp [hout] at h) fun _ _ _ h ↦ by
    rw [h] at hphase
    simp [Phase.isDraining] at hphase

end Jobs

/-! ## Steps -/

section Steps

variable {pid : W → ℕ} {s : DistillState W} {w : W}

structure Sound (pid : W → ℕ) (s : DistillState W) : Prop where
  lock : LockSound pid s
  jobs : QueueSound s

theorem sound_start (pid : W → ℕ) (clock : ℕ) : Sound pid (.start W clock) where
  lock := ⟨fun _ hv ↦ (nomatch hv), fun _ hmem ↦ (nomatch hmem), fun _ hmem ↦ (nomatch hmem)⟩
  jobs :=
    { pending := fun _ _ hjob ↦ (nomatch hjob)
      read := fun _ _ _ _ hv ↦ (nomatch hv)
      numbered := fun _ _ hjob ↦ (nomatch hjob)
      handedBefore := fun _ hmem ↦ (nomatch hmem)
      named := fun _ _ hjob ↦ (nomatch hjob)
      counted := fun _ hmem ↦ (nomatch hmem)
      kept := rfl
      once := fun _ hmem ↦ (nomatch hmem) }

theorem isInside_of_isDraining {phase : Phase} (h : phase.isDraining = true) : phase.isInside = true := by
  cases phase <;> simp_all [Phase.isInside, Phase.isDraining]

theorem QueueSound.setLock (hs : QueueSound s) (lock : Option (LockDir W)) : QueueSound { s with lock } :=
  ⟨hs.pending, hs.read, hs.numbered, hs.handedBefore, hs.named, hs.counted, hs.kept, hs.once⟩

theorem Sound.drop {phase : Phase} {file : List Char} (hs : Sound pid s) (hw : s.phases w = phase)
    (hin : phase.isDraining = true) (hhanding : ∀ file job rest, phase ≠ .handing file job rest) :
    Sound pid (s.drop file) := by
  refine ⟨⟨hs.lock.held, hs.lock.owned, hs.lock.gone⟩, hs.jobs.drop fun v file' job rest hv ↦ ?_⟩
  have hv' : (s.phases v).isInside = true := by rw [hv]; rfl
  have hw' : (s.phases w).isInside = true := hw ▸ isInside_of_isDraining hin
  have hvw := hs.lock.held.unique hv' hw'
  exact hhanding file' job rest (hw ▸ hvw ▸ hv)

variable [DecidableEq W]

/-- Where a lock stands whose owner runs no more, a party that starts after the stale window takes it. -/
theorem takesOver_of_owner {lock : LockDir W} {owner : Owner} {v : W} (hlock : s.lock = some lock)
    (howner : lock.owner = some owner) (halive : s.isPidAlive owner.pid = false) (hts : owner.ts ≤ s.clock)
    (hv : s.phases v = .idle) : TakesOver pid s v := by
  have hstale : ¬ s.clock + (STALE_LOCK_MS + 1) - owner.ts ≤ STALE_LOCK_MS := by omega
  simp [TakesOver, distillStep, advance, List.replicate, hv, DistillState.setPhase, Claim.lost, hlock, howner,
    hstale, halive, Phase.isInside]

theorem Sound.law (hs : Sound pid s) : DistillLaw pid s where
  exclusive _ _ := hs.lock.held.unique
  kept := hs.jobs.kept
  handedOnce := hs.jobs.once
  reclaimable lock hlock hdead v hv := by
    obtain ⟨owner, howner, hpid, hts⟩ := hs.lock.owned lock hlock (by rw [hdead]; simp)
    exact takesOver_of_owner hlock howner (hpid ▸ hs.lock.gone lock hlock hdead) hts hv

theorem Sound.setPhase_outside {phase phase' : Phase} (hs : Sound pid s) (hw : s.phases w = phase)
    (hout : phase.isInside = false) (hdead : phase ≠ .dead) (hout' : phase'.isInside = false)
    (hdead' : phase' ≠ .dead) : Sound pid (s.setPhase w phase') := by
  have hne : ∀ {p : Phase}, p.isInside = false → p.isDraining = false := fun {p} h ↦ by
    cases p <;> simp_all [Phase.isInside, Phase.isDraining]
  refine ⟨hs.lock.setPhase (fun h ↦ by simp [hout'] at h) (fun _ h ↦ ?_) hdead', ?_⟩
  · rw [← hw, h] at hout
    simp [Phase.isInside] at hout
  · exact hs.jobs.setPhase_outside (hw ▸ hdead) (hne (hw ▸ hout)) (hne hout')

theorem Sound.setPhase_draining {phase phase' : Phase} (hs : Sound pid s) (hw : s.phases w = phase)
    (hin : phase.isDraining = true) (hin' : phase'.isDraining = true)
    (hread : ∀ file job rest, phase' = .handing file job rest → s.queue.get? file = some job) :
    Sound pid (s.setPhase w phase') := by
  have hdead : ∀ {p : Phase}, p.isDraining = true → p ≠ .dead ∧ p ≠ .owning := fun {p} h ↦ by
    cases p <;> simp_all [Phase.isDraining]
  refine ⟨hs.lock.setPhase (fun _ ↦ ?_) (fun _ ↦ hw ▸ (hdead hin).2) (hdead hin').1, ?_⟩
  · exact hw ▸ isInside_of_isDraining hin
  · exact hs.jobs.setPhase (hw ▸ (hdead hin).1) (fun _ ↦ .inl hin') hread

theorem Sound.advance (hs : Sound pid s) (w : W) (fails : Bool) (hharmless : HarmlessAt s fails (s.phases w)) :
    Sound pid (advance pid s w fails) := by
  unfold Distill.advance
  rcases hw : s.phases w with _ | c | _ | _ | now | owner | _ | _ | _ | files | ⟨file, rest⟩ | ⟨file, job, rest⟩ |
    ⟨file, rest⟩ | ⟨file, rest⟩ | ⟨file, rest⟩ | _ | _ | _ | _
  all_goals rw [hw] at hharmless
  · exact hs
  · -- claiming
    simp only
    split_ifs with hlock
    · cases c <;> exact hs.setPhase_outside hw rfl nofun rfl nofun
    · have hnone : s.lock = none := by
        rw [Bool.or_eq_true, not_or, Bool.not_eq_true, Bool.not_eq_true] at hlock
        exact isNone_iff_eq_none.mp (isSome_eq_false_iff.mp hlock.2)
      refine ⟨hs.lock.create hnone, (hs.jobs.setLock _).setPhase_outside ?_ ?_ rfl⟩
      · exact fun hdead ↦ nomatch hw.symm.trans hdead
      · exact congrArg Phase.isDraining hw
  · -- owning: the directory is its own, and there
    have hinside : (s.phases w).isInside = true := by rw [hw]; rfl
    have hholder := hs.lock.held w hinside
    obtain ⟨lock, hlock, -⟩ := map_eq_some_iff.mp hholder
    have hfails : fails = false := hharmless
    simp only [hfails, hlock, Bool.false_eq_true, if_false]
    refine ⟨hs.lock.own hlock hw, (hs.jobs.setLock _).setPhase ?_ (fun h ↦ ?_) nofun⟩
    · exact fun hdead ↦ nomatch hw.symm.trans hdead
    · exact nomatch (congrArg Phase.isDraining hw).symm.trans h
  · -- contended
    exact hs.setPhase_outside hw rfl nofun rfl nofun
  · -- looking
    simp only
    split
    · exact hs.setPhase_outside hw rfl nofun rfl nofun
    · split_ifs <;> exact hs.setPhase_outside hw rfl nofun rfl nofun
  · -- judging
    simp only
    split_ifs <;> exact hs.setPhase_outside hw rfl nofun rfl nofun
  · -- reclaiming
    simp only
    split_ifs with hfails
    · exact hs.setPhase_outside hw rfl nofun rfl nofun
    · rw [Bool.or_eq_true, not_or, Bool.not_eq_true, Bool.not_eq_true] at hfails
      have hfree : ∀ v, v ≠ w → (s.phases v).isInside = false := fun v _ ↦ by
        by_contra hv
        rw [Bool.not_eq_false] at hv
        obtain ⟨lock, hlock, rfl⟩ := map_eq_some_iff.mp (hs.lock.held v hv)
        rw [hharmless hfails.1 lock hlock] at hv
        simp at hv
      refine ⟨LockSound.clear hfree rfl, (hs.jobs.setLock _).setPhase_outside ?_ ?_ rfl⟩
      · exact fun hdead ↦ nomatch hw.symm.trans hdead
      · exact congrArg Phase.isDraining hw
  · -- checking
    simp only
    split_ifs with hempty
    · have hkeys : s.queue.keys = [] := by
        cases fails with
        | true => exact hharmless rfl
        | false =>
          have hsorted : s.queue.keys.insertionSort (le · ·) = [] := List.isEmpty_iff.mp hempty
          have hperm := perm_insertionSort (le · ·) s.queue.keys
          rw [hsorted] at hperm
          exact hperm.nil_eq.symm
      have hdead : s.phases w ≠ .dead := by rw [hw]; simp
      refine ⟨hs.lock.setPhase (fun _ ↦ by rw [hw]; rfl) (fun _ ↦ by rw [hw]; simp) nofun, ?_⟩
      refine hs.jobs.setPhase hdead (fun _ ↦ .inr fun file ↦ ?_) nofun
      rw [InsertionMap.get?_eq_none_iff, hkeys]
      exact not_mem_nil
    · exact hs.setPhase_draining hw rfl rfl nofun
  · -- listing
    exact hs.setPhase_draining hw rfl rfl nofun
  · -- draining
    rcases files with _ | ⟨file, rest⟩
    · exact hs.setPhase_draining hw rfl rfl nofun
    · simp only
      split
      · exact hs.setPhase_draining hw rfl rfl nofun
      · next job hjob =>
        refine hs.setPhase_draining hw rfl rfl fun file' job' rest' hphase ↦ ?_
        obtain ⟨rfl, rfl, -⟩ := Phase.handing.inj hphase
        split_ifs at hjob
        exact (filter_eq_some_iff.mp hjob).1
  · -- discarding
    simp only
    split_ifs
    · exact hs.setPhase_draining hw rfl rfl nofun
    · exact (hs.drop hw rfl nofun).setPhase_draining hw rfl rfl nofun
  · -- handing
    have hdraining : (s.phases w).isDraining = true := by rw [hw]; rfl
    have honly : ∀ v, (s.phases v).isDraining = true → v = w := fun v hv ↦
      hs.lock.held.unique (isInside_of_isDraining hv) (isInside_of_isDraining hdraining)
    have hjobs := hs.jobs.hand hdraining (hs.jobs.read w file job rest hw) honly
    have hhand : Sound pid (s.hand w job) := ⟨⟨hs.lock.held, hs.lock.owned, hs.lock.gone⟩, hjobs⟩
    exact hhand.setPhase_draining hw rfl rfl nofun
  · -- handling
    simp only
    split_ifs <;> exact hs.setPhase_draining hw rfl rfl nofun
  · -- removing
    simp only
    split_ifs
    · exact hs.setPhase_draining hw rfl rfl nofun
    · exact (hs.drop hw rfl nofun).setPhase_draining hw rfl rfl nofun
  · -- failing
    simp only
    split_ifs
    · exact hs.setPhase_draining hw rfl rfl nofun
    · exact (hs.drop hw rfl nofun).setPhase_draining hw rfl rfl nofun
  · -- releasing: the directory is its own, and nobody else is inside
    have hdead : s.phases w ≠ .dead := by rw [hw]; simp
    have hout : (s.phases w).isDraining = false := by rw [hw]; rfl
    simp only
    split_ifs
    · refine ⟨hs.lock.setPhase (fun h ↦ (nomatch h)) (fun _ ↦ by rw [hw]; simp) nofun, ?_⟩
      exact hs.jobs.setPhase_outside hdead hout rfl
    · have hfree : ∀ v, v ≠ w → (s.phases v).isInside = false := fun v hvw ↦ by
        by_contra hv
        rw [Bool.not_eq_false] at hv
        exact hvw (hs.lock.held.unique hv (by rw [hw]; rfl))
      exact ⟨LockSound.clear hfree rfl, (hs.jobs.setLock _).setPhase_outside hdead hout rfl⟩
  · -- rechecking
    simp only
    split_ifs <;> exact hs.setPhase_outside hw rfl nofun rfl nofun
  · exact hs
  · exact hs

theorem Sound.exit (hs : Sound pid s) (p : ℕ)
    (hwritten : ∀ lock ∈ s.lock, pid lock.holder = p → s.phases lock.holder ≠ .owning) :
    Sound pid (distillStep pid s (.exit p)) := by
  have hphase : ∀ v, (distillStep pid s (.exit p)).phases v = .dead ∨
      (distillStep pid s (.exit p)).phases v = s.phases v := fun v ↦ by
    simp only [distillStep]
    split_ifs <;> simp
  have hlive : ∀ v, (distillStep pid s (.exit p)).phases v ≠ .dead →
      (distillStep pid s (.exit p)).phases v = s.phases v := fun v hv ↦ (hphase v).resolve_left hv
  refine ⟨⟨hs.lock.held.mono fun v hv ↦ ?_, fun lock hlock hne ↦ ?_, fun lock hlock hgone ↦ ?_⟩, ?_⟩
  · rw [hlive v fun hdead ↦ by simp [hdead, Phase.isInside, Phase.isDraining] at hv] at hv
    exact hv
  · refine hs.lock.owned lock hlock fun howning ↦ ?_
    by_cases hpid : pid lock.holder = p
    · exact hwritten lock hlock hpid howning
    · simp only [distillStep, if_neg hpid] at hne
      exact hne howning
  · simp only [distillStep, update_apply] at hgone ⊢
    split_ifs at hgone ⊢ with hpid
    · rfl
    · exact hs.lock.gone lock hlock hgone
  · refine
      { pending := fun file job hjob h hh hid hne ↦ ?_
        read := fun v file job rest hv ↦ hs.jobs.read v file job rest ?_
        numbered := hs.jobs.numbered
        handedBefore := hs.jobs.handedBefore
        named := hs.jobs.named
        counted := hs.jobs.counted
        kept := hs.jobs.kept
        once := fun h hh h' hh' hid hne hne' ↦ ?_ }
    · have hsame := hlive _ hne
      rw [hsame] at hne ⊢
      exact hs.jobs.pending file job hjob h hh hid hne
    · rw [← hlive v (by rw [hv]; simp)]
      exact hv
    · have hsame := hlive _ hne
      have hsame' := hlive _ hne'
      rw [hsame] at hne
      rw [hsame'] at hne'
      exact hs.jobs.once h hh h' hh' hid hne hne'

theorem Sound.step (hs : Sound pid s) (op : DistillOp W) (hop : Harmless pid s op) :
    Sound pid (distillStep pid s op) := by
  rcases op with ms | ⟨w, kind, whole⟩ | w | ⟨w, fails⟩ | p | p
  · refine ⟨⟨hs.lock.held, fun lock hlock hne ↦ ?_, hs.lock.gone⟩, ⟨hs.jobs.pending, hs.jobs.read, hs.jobs.numbered,
      hs.jobs.handedBefore, hs.jobs.named, hs.jobs.counted, hs.jobs.kept, hs.jobs.once⟩⟩
    obtain ⟨owner, howner, hpid, hts⟩ := hs.lock.owned lock hlock hne
    exact ⟨owner, howner, hpid, hts.trans (Nat.le_add_right _ _)⟩
  · have henqueue : Sound pid (enqueueJob pid s w kind whole) :=
      ⟨⟨hs.lock.held, hs.lock.owned, hs.lock.gone⟩, hs.jobs.enqueueJob w kind whole hop⟩
    simp only [distillStep]
    split
    · exact hs
    · exact henqueue
  · simp only [distillStep]
    split
    · next hw => exact hs.setPhase_outside hw rfl nofun rfl nofun
    · exact hs
  · exact hs.advance w fails hop
  · exact hs.exit p hop
  · refine ⟨⟨hs.lock.held, hs.lock.owned, fun lock hlock hgone ↦ ?_⟩, ⟨hs.jobs.pending, hs.jobs.read,
      hs.jobs.numbered, hs.jobs.handedBefore, hs.jobs.named, hs.jobs.counted, hs.jobs.kept, hs.jobs.once⟩⟩
    simp only [distillStep]
    rw [update_of_ne (hop lock hlock hgone)]
    exact hs.lock.gone lock hlock hgone

end Steps

/-- In a run that takes aside no lock of a party inside, leaves no lock without its owner, and comes to no name
twice, there is one drainer, no job is lost to another or handed to two live drainers, and what a process leaves
when it ends can be reclaimed. -/
theorem distillLaw_run [DecidableEq W] (pid : W → ℕ) (clock : ℕ) (ops : List (DistillOp W))
    (h : Guarded (distillStep pid) (Harmless pid) (.start W clock) ops) (n : ℕ) :
    DistillLaw pid (run (distillStep pid) (.start W clock) (ops.take n)) := by
  have hprefix : Guarded (distillStep pid) (Harmless pid) (.start W clock) (ops.take n) := by
    rw [← List.take_append_drop n ops, guarded_append] at h
    exact h.1
  exact (invariant_run_of_guarded (fun s op hs hop ↦ hs.step op hop) (sound_start pid clock) hprefix).law

inductive Party where
  | first | second | third
  deriving DecidableEq, Repr

def threeProcesses : Party → ℕ
  | .first => 1
  | .second => 2
  | .third => 3

/-- One process dies with the lock; two others judge it, and the second takes the lock that the first has created
since. -/
def twoReclaimers : List (DistillOp Party) :=
  [.start .first, .step .first false, .step .first false, .exit 1, .tick 900001, .start .second, .start .third] ++
  List.replicate 4 (.step .second false) ++ List.replicate 4 (.step .third false) ++
  [.step .second false, .step .second false, .step .third false, .step .third false]

theorem not_distillLaw_twoReclaimers :
    ¬ DistillLaw threeProcesses (run (distillStep threeProcesses) (.start Party 1000) (twoReclaimers.take 19)) := by
  intro hlaw
  exact absurd (hlaw.exclusive .second .third (by decide) (by decide)) (by decide)

/-- A process dies while its handler runs; after the stale window another takes its lock and drains the queue, and
a job that is enqueued meanwhile. -/
def oneReclaimer : List (DistillOp Party) :=
  [.enqueue .first .run true, .start .first] ++ List.replicate 6 (.step .first false) ++
  [.exit 1, .tick 900001, .enqueue .second .sweep true, .start .second] ++ List.replicate 22 (.step .second false)

theorem distillLaw_oneReclaimer :
    DistillLaw threeProcesses (run (distillStep threeProcesses) (.start Party 1000) (oneReclaimer.take 34)) :=
  distillLaw_run threeProcesses 1000 oneReclaimer (by decide) 34

end Amicode.Distill
