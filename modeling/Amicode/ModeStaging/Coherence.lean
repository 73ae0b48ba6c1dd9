import Amicode.Foundation.Exclusion
import Amicode.Foundation.StepMachine
import Amicode.ModeStaging.Stage

/-!
# Exclusive and coherent staging

Two passes that are alive and within their TTL must not hold the lock together, and when a pass returns `staged`
with its lock never taken, the staging root must have what its receipt says.

The lock file exists before it is written, and then does not parse: another pass removes it and takes the lock
as well. A lock that was judged stale is removed whatever is at its path by then, and so are the lock that a
heartbeat replaces and the one that a release removes, each after a check of its own. Before it puts a file into
place a pass does not look at its lock at all, so that one that has stalled writes over the files of the thief;
and two declared files may have one destination. The law holds in every run in which a step that removes or
replaces the lock file does not hit that of another pass within its TTL, nobody changes the staging root under
the lock of another, and a pass does not write over what it has recorded (`stagingLaw_run`).
-/

namespace Amicode.ModeStaging

open StepMachine Exclusion List Function Bool

variable {W : Type*}

/-! ## The law -/

/-- It is between taking the lock and releasing it, alive and within the TTL since its last heartbeat. -/
def StagingState.holding (s : StagingState W) (w : W) : Bool :=
  (s.phases w).lease?.any fun lease ↦ s.clock - lease.beat ≤ lease.ttl

def Plan.declared (plan : Plan) : List (List Char × List Char) :=
  (plan.manifests.flatMap fun m ↦ plan.bundle m.1 m.2).map fun c ↦ (c.mode, c.inBundle)

def digestAt (h : Host W) (deployed : Path → Option Content) (mode path : List Char) : Option String :=
  match deployed (h.destination mode path) with
  | some (.component bytes) => some (h.sha256hex bytes)
  | _ => none

def AsRecorded (h : Host W) (deployed : Path → Option Content) (files : List StagedFile) : Prop :=
  ∀ f ∈ files, digestAt h deployed f.mode f.path = some f.sha256

def HasReceipt (h : Host W) (deployed : Path → Option Content) (files : List StagedFile) : Prop :=
  ∃ receipt, deployed h.receiptPath = some (.receipt receipt) ∧ receipt.files = files

/-- The receipt has every declared file, and what is deployed is as it says. -/
structure Returned.Coherent (h : Host W) (r : Returned) : Prop where
  complete : r.files.map (fun f ↦ (f.mode, f.path)) = r.plan.declared
  placed : AsRecorded h r.deployed r.files
  receipt : HasReceipt h r.deployed r.files

structure StagingLaw (h : Host W) (s : StagingState W) : Prop where
  exclusive : ∀ w w', s.holding w = true → s.holding w' = true → w = w'
  coherent : ∀ r ∈ s.returns, r.stolen = false → r.Coherent h

section Harm

variable [DecidableEq W]

/-- The lock file is not that of another pass within its TTL. -/
def SparesHolder (s : StagingState W) (w : W) : Prop := ∀ v ∈ s.holder, v ≠ w → s.holding v = false

/-- The lock file is not that of another pass at all. -/
def NotUnder (s : StagingState W) (w : W) : Prop := ∀ v ∈ s.holder, v ≠ w → (s.phases v).isInside = false

/-- What a pass puts into place leaves what it has recorded, and the lock. -/
def KeepsRecorded (h : Host W) (source : Path → Option (List UInt8)) (files : List StagedFile) : List Task → Prop
  | .component c :: _ =>
    h.destination c.mode c.inBundle ≠ h.lockPath ∧
      ∀ f ∈ files, h.destination f.mode f.path = h.destination c.mode c.inBundle →
        ∀ bytes ∈ c.source.bind source, h.sha256hex bytes = f.sha256
  | .parity :: _ => True
  | [] => ∀ f ∈ files, h.destination f.mode f.path ≠ h.receiptPath

def HarmlessAt (h : Host W) (s : StagingState W) (w : W) : Phase → Prop
  | .stealing _ | .refreshing _ _ _ | .unlinking _ _ => SparesHolder s w
  | .sweeping _ _ => NotUnder s w
  | .staging pass => NotUnder s w ∧ KeepsRecorded h s.source pass.files pass.todo
  | _ => True

/-- A step does no harm, or fails. -/
def Harmless (h : Host W) (s : StagingState W) : StagingOp W → Prop
  | .step w fails => fails = false → HarmlessAt h s w (s.phases w)
  | _ => True

instance decidableSparesHolder (s : StagingState W) (w : W) : Decidable (SparesHolder s w) :=
  inferInstanceAs (Decidable (∀ v ∈ s.holder, v ≠ w → s.holding v = false))

instance decidableNotUnder (s : StagingState W) (w : W) : Decidable (NotUnder s w) :=
  inferInstanceAs (Decidable (∀ v ∈ s.holder, v ≠ w → (s.phases v).isInside = false))

instance decidableKeepsRecorded (h : Host W) (source : Path → Option (List UInt8)) (files : List StagedFile) :
    ∀ todo, Decidable (KeepsRecorded h source files todo)
  | .component c :: _ => inferInstanceAs (Decidable (h.destination c.mode c.inBundle ≠ h.lockPath ∧
      ∀ f ∈ files, h.destination f.mode f.path = h.destination c.mode c.inBundle →
        ∀ bytes ∈ c.source.bind source, h.sha256hex bytes = f.sha256))
  | .parity :: _ => .isTrue trivial
  | [] => inferInstanceAs (Decidable (∀ f ∈ files, h.destination f.mode f.path ≠ h.receiptPath))

instance decidableHarmlessAt (h : Host W) (s : StagingState W) (w : W) : ∀ phase, Decidable (HarmlessAt h s w phase)
  | .stealing _ | .refreshing _ _ _ | .unlinking _ _ => decidableSparesHolder s w
  | .sweeping _ _ => decidableNotUnder s w
  | .staging pass => inferInstanceAs (Decidable (NotUnder s w ∧ KeepsRecorded h s.source pass.files pass.todo))
  | .idle | .asking _ | .opening _ _ | .created _ _ | .contended _ | .judging _ _ | .beating _ | .stamping _ _ |
    .releasing _ _ | .dead => .isTrue trivial

instance decidableHarmless (h : Host W) (s : StagingState W) : ∀ op, Decidable (Harmless h s op)
  | .step w fails => inferInstanceAs (Decidable (fails = false → HarmlessAt h s w (s.phases w)))
  | .tick _ | .start _ _ | .exit _ | .spawn _ _ | .edit _ _ => .isTrue trivial

end Harm

/-! ## What the passes know -/

section Invariant

variable {h : Host W} {s : StagingState W} {w v : W} {phase : Phase} {pass : Pass} {deployed : Path → Option Content}

/-- It has written its receipt. -/
def Phase.staged : Phase → Bool
  | .releasing _ staged | .unlinking _ staged => staged
  | _ => false

def Pass.Complete (pass : Pass) : Prop :=
  pass.files.map (fun f ↦ (f.mode, f.path)) ++
    (pass.todo.filterMap Task.component?).map (fun c ↦ (c.mode, c.inBundle)) = pass.plan.declared

structure PassSound (h : Host W) (stolen : Bool) (deployed : Path → Option Content) (staged : Bool) (pass : Pass) :
    Prop where
  complete : pass.Complete
  placed : stolen = false → AsRecorded h deployed pass.files
  done : staged = true → pass.todo = []
  receipt : staged = true → stolen = false → HasReceipt h deployed pass.files

/-- It has the lock, and nobody has taken it. -/
def StagingState.Keeps (s : StagingState W) (w : W) : Prop :=
  (s.phases w).isInside = true ∧ s.stolen w = false

structure Sound (h : Host W) (s : StagingState W) : Prop where
  holding : Held s.holder fun w ↦ s.holding w = true
  keeps : Held s.holder s.Keeps
  passes : ∀ w, ∀ pass ∈ (s.phases w).pass?, PassSound h (s.stolen w) s.deployed (s.phases w).staged pass
  returned : ∀ r ∈ s.returns, r.stolen = false → r.Coherent h

theorem Sound.law (hs : Sound h s) : StagingLaw h s where
  exclusive _ _ := hs.holding.unique
  coherent := hs.returned

theorem sound_start (h : Host W) (left : Option (Option StagingLock)) (clock : ℕ) (running : ℕ → Option ℕ)
    (source : Path → Option (List UInt8)) (deployed : Path → Option Content) (next : ℕ) :
    Sound h (.start W left clock running source deployed next) where
  holding _ hv := nomatch hv
  keeps _ hv := nomatch hv.1
  passes _ _ hpass := nomatch hpass
  returned _ hr := nomatch hr

theorem complete_tasks (plan : Plan) (token beat : ℕ) (steals : List StolenLock) :
    Pass.Complete ⟨plan, token, beat, plan.tasks, [], steals⟩ := by
  have htasks : plan.tasks.filterMap Task.component? = plan.manifests.flatMap fun m ↦ plan.bundle m.1 m.2 := by
    unfold Plan.tasks
    induction plan.manifests with
    | nil => rfl
    | cons m manifests ih =>
      rw [flatMap_cons, filterMap_append, ih, flatMap_cons, filterMap_append, filterMap_map]
      simp [comp_def, Task.component?]
  unfold Pass.Complete Plan.declared
  rw [htasks, map_nil, nil_append]

theorem PassSound.steal {stolen stolen' staged : Bool} (hpass : PassSound h stolen deployed staged pass)
    (hle : stolen' = false → stolen = false) : PassSound h stolen' deployed staged pass where
  complete := hpass.complete
  placed hstolen := hpass.placed (hle hstolen)
  done := hpass.done
  receipt hstaged hstolen := hpass.receipt hstaged (hle hstolen)

def Pass.lease (pass : Pass) : Lease := ⟨pass.beat, pass.plan.ttlMs⟩

theorem lease?_of_pass (hpass : phase.pass? = some pass) : phase.lease? = some pass.lease := by
  rcases phase <;> simp_all [Phase.pass?, Phase.lease?, Pass.lease]

theorem isInside_of_pass (hpass : phase.pass? = some pass) : phase.isInside = true := by
  rw [Phase.isInside, lease?_of_pass hpass]
  rfl

/-- What is put elsewhere changes no digest, and neither does a component with the same one. -/
theorem AsRecorded.deploy {files : List StagedFile} {path : Path} {content : Content}
    (hfiles : AsRecorded h deployed files)
    (hpath : ∀ f ∈ files, h.destination f.mode f.path = path →
      ∃ bytes, content = .component bytes ∧ h.sha256hex bytes = f.sha256) :
    AsRecorded h (Function.update deployed path (some content)) files := by
  intro f hf
  unfold digestAt
  by_cases hdest : h.destination f.mode f.path = path
  · obtain ⟨bytes, rfl, hsha⟩ := hpath f hf hdest
    rw [hdest, update_self]
    exact congrArg some hsha
  · rw [update_of_ne hdest]
    exact hfiles f hf

theorem holding_iff : s.holding w = true ↔ ∃ lease ∈ (s.phases w).lease?, s.clock - lease.beat ≤ lease.ttl := by
  unfold StagingState.holding
  cases (s.phases w).lease? <;> simp

theorem isInside_iff : phase.isInside = true ↔ ∃ lease, lease ∈ phase.lease? := by
  rw [Phase.isInside, Option.isSome_iff_exists]
  exact Iff.rfl

/-- Nobody's pass is concerned by what changes while nobody else keeps the lock. -/
theorem PassSound.deploy {staged : Bool} (hpass : PassSound h (s.stolen v) s.deployed staged pass)
    (hfree : s.stolen v = false → deployed = s.deployed) : PassSound h (s.stolen v) deployed staged pass where
  complete := hpass.complete
  placed hstolen := hfree hstolen ▸ hpass.placed hstolen
  done := hpass.done
  receipt hstaged hstolen := hfree hstolen ▸ hpass.receipt hstaged hstolen

theorem PassSound.coherent (hpass : PassSound h false deployed true pass) :
    Returned.Coherent h ⟨pass.plan, pass.files, false, deployed⟩ where
  complete := by
    have hcomplete := hpass.complete
    rw [Pass.Complete, hpass.done rfl, filterMap_nil, map_nil, append_nil] at hcomplete
    exact hcomplete
  placed := hpass.placed rfl
  receipt := hpass.receipt rfl rfl

theorem Sound.not_keeps (hs : Sound h s) (hunder : NotUnder s w) (hvw : v ≠ w) : ¬ s.Keeps v := by
  intro hkeeps
  have hout := hunder v (hs.keeps v hkeeps) hvw
  rw [hkeeps.1] at hout
  simp at hout

theorem Sound.current (hs : Sound h s) (hw : s.phases w = phase) (hphase : phase.pass? = some pass) :
    (s.phases w).pass? = some pass ∧ PassSound h (s.stolen w) s.deployed phase.staged pass := by
  subst hw
  exact ⟨hphase, hs.passes w pass hphase⟩

theorem Sound.tick (hs : Sound h s) (ms : ℕ) : Sound h { s with clock := s.clock + ms } where
  holding := hs.holding.mono fun v hv ↦ by
    obtain ⟨lease, hmem, hle⟩ := holding_iff.mp hv
    exact holding_iff.mpr ⟨lease, hmem, (Nat.sub_le_sub_right (Nat.le_add_right _ _) _).trans hle⟩
  keeps := hs.keeps
  passes := hs.passes
  returned := hs.returned

end Invariant

/-! ## Steps -/

section Steps

variable [DecidableEq W] {h : Host W} {s : StagingState W} {w v : W} {phase : Phase} {pass : Pass}
  {deployed : Path → Option Content}

theorem phases_setPhase : (s.setPhase w phase).phases v = if v = w then phase else s.phases v := by
  simp [StagingState.setPhase, update_apply]

/-- A pass goes on, and may put something into place if nobody else keeps the lock. -/
theorem Sound.deploy (hs : Sound h s) (hfree : ∀ v, v ≠ w → s.Keeps v → deployed = s.deployed)
    (hlease : ∀ lease ∈ phase.lease?, lease ∈ (s.phases w).lease?)
    (hpass : ∀ pass ∈ phase.pass?, PassSound h (s.stolen w) deployed phase.staged pass) :
    Sound h ({ s with deployed }.setPhase w phase) where
  holding := hs.holding.mono fun v hv ↦ by
    obtain ⟨lease, hmem, hle⟩ := holding_iff.mp hv
    rw [phases_setPhase] at hmem
    refine holding_iff.mpr ⟨lease, ?_, hle⟩
    split_ifs at hmem with hvw
    · exact hvw ▸ hlease lease hmem
    · exact hmem
  keeps := hs.keeps.mono fun v hv ↦ by
    obtain ⟨lease, hmem⟩ := isInside_iff.mp hv.1
    rw [phases_setPhase] at hmem
    refine ⟨isInside_iff.mpr ⟨lease, ?_⟩, hv.2⟩
    split_ifs at hmem with hvw
    · exact hvw ▸ hlease lease hmem
    · exact hmem
  passes v pass hmem := by
    rw [phases_setPhase] at hmem ⊢
    split_ifs at hmem ⊢ with hvw
    · subst hvw
      exact hpass pass hmem
    · have hold := hs.passes v pass hmem
      exact hold.deploy fun hstolen ↦ hfree v hvw ⟨isInside_of_pass hmem, hstolen⟩
  returned := hs.returned

theorem Sound.setPhase (hs : Sound h s) (hlease : ∀ lease ∈ phase.lease?, lease ∈ (s.phases w).lease?)
    (hpass : ∀ pass ∈ phase.pass?, PassSound h (s.stolen w) s.deployed phase.staged pass) :
    Sound h (s.setPhase w phase) :=
  hs.deploy (fun _ _ _ ↦ rfl) hlease hpass

theorem Sound.setPhase_outside (hs : Sound h s) (hphase : phase.lease? = none) : Sound h (s.setPhase w phase) := by
  refine hs.setPhase (by simp [hphase]) fun pass hmem ↦ ?_
  have hinside := isInside_of_pass hmem
  rw [Phase.isInside, hphase] at hinside
  simp at hinside

/-- A pass removes or replaces the lock, and leaves or has its own there. -/
theorem Sound.putLock {file : Option (LockFile W)} (hs : Sound h s) (hspares : SparesHolder s w)
    (hlock : ∀ lease ∈ phase.lease?, file.bind LockFile.holder = some w)
    (hpass : ∀ pass ∈ phase.pass?, PassSound h (s.stolen w) s.deployed phase.staged pass) :
    Sound h ((s.putLock w file).setPhase w phase) where
  holding := by
    have hothers : ∀ v ∈ s.holder, v ≠ w → ¬ s.holding v = true := fun v hv hvw ↦ by simp [hspares v hv hvw]
    refine hs.holding.replace hothers fun v hv ↦ ?_
    obtain ⟨lease, hmem, hle⟩ := holding_iff.mp hv
    rw [phases_setPhase] at hmem
    split_ifs at hmem with hvw
    · exact .inl ⟨hvw, hlock lease hmem⟩
    · exact .inr ⟨hvw, holding_iff.mpr ⟨lease, hmem, hle⟩⟩
  keeps := by
    rintro v ⟨hinside, hstolen⟩
    obtain ⟨lease, hmem⟩ := isInside_iff.mp hinside
    rw [phases_setPhase] at hmem
    split_ifs at hmem with hvw
    · exact hvw ▸ hlock lease hmem
    · -- another pass that still kept the lock had it at the path, and has lost it now
      have hstolen : (s.stolen v || (v != w && decide (s.holder = some v))) = false := hstolen
      obtain ⟨hkept, hother⟩ := or_eq_false_iff.mp hstolen
      have hholder := hs.keeps v ⟨isInside_iff.mpr ⟨lease, hmem⟩, hkept⟩
      simp [hvw, hholder] at hother
  passes v pass hmem := by
    rw [phases_setPhase] at hmem ⊢
    have hsteal : (s.putLock w file).stolen v = false → s.stolen v = false := fun hstolen ↦
      (or_eq_false_iff.mp hstolen).1
    split_ifs at hmem ⊢ with hvw
    · subst hvw
      exact (hpass pass hmem).steal hsteal
    · exact (hs.passes v pass hmem).steal hsteal
  returned := hs.returned

theorem Sound.createLock (hs : Sound h s) (hslot : s.slot = none) (hpass : phase.pass? = none) :
    Sound h ((s.createLock w).setPhase w phase) := by
  have hholder : s.holder = none := by rw [StagingState.holder, hslot]; rfl
  have hfree : ∀ v, v ≠ w → ((s.createLock w).setPhase w phase).phases v = s.phases v := fun v hvw ↦ by
    rw [phases_setPhase, if_neg hvw]
    rfl
  constructor
  · refine (hholder ▸ hs.holding).enter fun v hv ↦ ?_
    by_cases hvw : v = w
    · exact .inl hvw
    · obtain ⟨lease, hmem, hle⟩ := holding_iff.mp hv
      exact .inr (holding_iff.mpr ⟨lease, hfree v hvw ▸ hmem, hle⟩)
  · refine (hholder ▸ hs.keeps).enter fun v hv ↦ ?_
    by_cases hvw : v = w
    · exact .inl hvw
    · have hstolen : Function.update s.stolen w false v = false := hv.2
      rw [update_of_ne hvw] at hstolen
      exact .inr ⟨hfree v hvw ▸ hv.1, hstolen⟩
  · intro v pass hmem
    rw [phases_setPhase] at hmem ⊢
    split_ifs at hmem ⊢ with hvw
    · simp [hpass] at hmem
    · have hstolen : ((s.createLock w).setPhase w phase).stolen v = s.stolen v := update_of_ne hvw _ _
      rw [hstolen]
      exact hs.passes v pass hmem
  · exact hs.returned

/-- What is written to a lock file does not change whose it is. -/
theorem Sound.writeLock (hs : Sound h s) (w : W) (lock : StagingLock) : Sound h (s.writeLock w lock) := by
  have hholder : (s.writeLock w lock).holder = s.holder := by
    unfold StagingState.writeLock StagingState.holder
    rcases s.slot with _ | file
    · rfl
    · simp only [Option.map_some, Option.bind_some]
      split_ifs <;> rfl
  exact ⟨hholder ▸ hs.holding, hholder ▸ hs.keeps, hs.passes, hs.returned⟩

theorem Sound.finish_idle {staged : Bool} (hs : Sound h (s.setPhase w .idle))
    (hpass : PassSound h (s.stolen w) s.deployed staged pass) : Sound h (s.finish w pass staged) := by
  refine ⟨hs.holding, hs.keeps, hs.passes, fun r hr hstolen ↦ ?_⟩
  rcases mem_append.mp hr with hr | hr
  · exact hs.returned r hr hstolen
  · cases staged with
    | false => simp at hr
    | true =>
      obtain rfl := mem_singleton.mp hr
      have hstolen : s.stolen w = false := hstolen
      rw [hstolen] at hpass ⊢
      exact hpass.coherent

theorem Sound.finish {staged : Bool} (hs : Sound h s) (hpass : PassSound h (s.stolen w) s.deployed staged pass) :
    Sound h (s.finish w pass staged) :=
  (hs.setPhase_outside rfl).finish_idle hpass

theorem Sound.goOn {pass' : Pass} (hs : Sound h s) (hw : (s.phases w).pass? = some pass)
    (hphase : phase.pass? = some pass') (hlease : pass'.lease = pass.lease)
    (hpass : PassSound h (s.stolen w) s.deployed phase.staged pass') : Sound h (s.setPhase w phase) := by
  refine hs.setPhase (fun lease hmem ↦ ?_) fun p hp ↦ ?_
  · rw [lease?_of_pass hphase, hlease, ← lease?_of_pass hw] at hmem
    exact hmem
  · obtain rfl := Option.some.inj (hphase.symm.trans hp)
    exact hpass

/-- What a step of a pass preserves that writes a file or the receipt. -/
theorem Sound.stageNext (hs : Sound h s) (hw : s.phases w = .staging pass) (fails : Bool)
    (hharmless : fails = false → NotUnder s w ∧ KeepsRecorded h s.source pass.files pass.todo) :
    Sound h (stageNext h s w pass fails) := by
  obtain ⟨hinside, hpass⟩ := hs.current hw rfl
  have hfail : Sound h (s.setPhase w (.releasing pass false)) := hs.goOn hinside rfl rfl hpass
  unfold ModeStaging.stageNext
  rcases htodo : pass.todo with _ | ⟨c | _, todo⟩
  · -- the receipt
    simp only
    split_ifs with hfails
    · exact hfail
    · obtain ⟨hunder, hkeeps⟩ := hharmless (eq_false_iff.mpr hfails)
      rw [htodo] at hkeeps
      refine hs.deploy (fun v hvw hv ↦ absurd hv (hs.not_keeps hunder hvw)) (fun lease hmem ↦ ?_) fun p hp ↦ ?_
      · rw [lease?_of_pass hinside]
        exact hmem
      · obtain rfl := Option.some.inj hp
        refine ⟨hpass.complete, fun hstolen ↦ ?_, fun _ ↦ htodo, fun _ hstolen ↦ ?_⟩
        · exact (hpass.placed hstolen).deploy fun f hf hdest ↦ absurd hdest (hkeeps f hf)
        · exact ⟨⟨s.clock, pass.files, pass.steals⟩, update_self .., rfl⟩
  · -- a component
    simp only
    split
    · exact hfail
    · next bytes hbytes =>
      have hfails : fails = false := by
        cases fails with
        | false => rfl
        | true => simp at hbytes
      obtain ⟨hunder, hkeeps⟩ := hharmless hfails
      rw [htodo] at hkeeps
      obtain ⟨hlock, hsame⟩ := hkeeps
      rw [hfails] at hbytes
      unfold StagingState.place
      rw [if_neg hlock]
      refine hs.deploy (fun v hvw hv ↦ absurd hv (hs.not_keeps hunder hvw)) (fun lease hmem ↦ ?_) fun p hp ↦ ?_
      · rw [lease?_of_pass hinside]
        exact hmem
      · obtain rfl := Option.some.inj hp
        refine ⟨?_, fun hstolen f hf ↦ ?_, nofun, nofun⟩
        · have hcomplete := hpass.complete
          rw [Pass.Complete, htodo] at hcomplete
          simpa [Pass.Complete, Task.component?] using hcomplete
        · rcases mem_append.mp hf with hf | hf
          · have hfiles := hpass.placed hstolen
            exact hfiles.deploy (fun f hf hdest ↦ ⟨bytes, rfl, hsame f hf hdest bytes hbytes⟩) f hf
          · obtain rfl := mem_singleton.mp hf
            unfold digestAt
            rw [update_self]
  · -- the generated region
    simp only
    split_ifs
    · exact hfail
    · refine hs.goOn hinside rfl rfl ⟨?_, hpass.placed, nofun, nofun⟩
      have hcomplete := hpass.complete
      rw [Pass.Complete, htodo] at hcomplete
      exact hcomplete

theorem Sound.advance (hs : Sound h s) (w : W) (fails : Bool)
    (hharmless : fails = false → HarmlessAt h s w (s.phases w)) : Sound h (advance h s w fails) := by
  unfold ModeStaging.advance
  rcases hw : s.phases w with _ | q | ⟨q, lock⟩ | ⟨q, lock⟩ | q | ⟨q, held⟩ | q | ⟨q, lock⟩ | pass | pass |
    ⟨pass, lock⟩ | ⟨pass, lock, now⟩ | ⟨pass, staged⟩ | ⟨pass, staged⟩ | _
  all_goals rw [hw] at hharmless
  · exact hs
  · -- asking
    simp only
    split_ifs
    · have hnext : Sound h { s with next := s.next + 1 } := ⟨hs.holding, hs.keeps, hs.passes, hs.returned⟩
      exact hnext.setPhase_outside rfl
    · exact hs.setPhase_outside rfl
  · -- opening
    rcases hslot : s.slot with _ | file
    · simp only
      split_ifs
      · exact hs.setPhase_outside rfl
      · exact hs.createLock hslot rfl
    · exact hs.setPhase_outside rfl
  · -- created
    simp only
    split_ifs
    · exact hs.setPhase_outside rfl
    · refine (hs.writeLock w lock).setPhase (fun lease hmem ↦ ?_) nofun
      have hw' : (s.writeLock w lock).phases w = .created q lock := hw
      rw [hw']
      exact hmem
  · -- contended
    simp only
    split <;> exact hs.setPhase_outside rfl
  · -- judging
    simp only
    split <;> exact hs.setPhase_outside rfl
  · -- stealing
    simp only
    split_ifs with hfails
    · exact hs.setPhase_outside rfl
    · exact hs.putLock (hharmless (eq_false_iff.mpr hfails)) nofun nofun
  · -- sweeping
    simp only
    split_ifs with hfails
    · exact hs.setPhase_outside rfl
    · have hunder : NotUnder s w := hharmless (eq_false_iff.mpr hfails)
      refine hs.deploy (fun v hvw hv ↦ absurd hv (hs.not_keeps hunder hvw)) (fun lease hmem ↦ ?_) fun p hp ↦ ?_
      · rw [hw]
        exact hmem
      · obtain rfl := Option.some.inj hp
        exact ⟨complete_tasks _ _ _ _, fun _ f hf ↦ (nomatch hf), nofun, nofun⟩
  · -- staging
    exact hs.stageNext hw fails hharmless
  · -- beating
    obtain ⟨hinside, hpass⟩ := hs.current hw rfl
    simp only
    split
    · split_ifs
      · exact hs.goOn hinside rfl rfl hpass
      · exact hs.goOn hinside rfl rfl hpass
    · exact hs.goOn hinside rfl rfl hpass
  · -- stamping
    obtain ⟨hinside, hpass⟩ := hs.current hw rfl
    exact hs.goOn hinside rfl rfl hpass
  · -- refreshing
    obtain ⟨hinside, hpass⟩ := hs.current hw rfl
    simp only
    split_ifs with hfails
    · exact hs.goOn hinside rfl rfl hpass
    · refine hs.putLock (hharmless (eq_false_iff.mpr hfails)) (fun _ _ ↦ rfl) fun p hp ↦ ?_
      obtain rfl := Option.some.inj hp
      exact ⟨hpass.complete, hpass.placed, nofun, nofun⟩
  · -- releasing
    obtain ⟨hinside, hpass⟩ := hs.current hw rfl
    simp only
    split_ifs
    · exact hs.goOn hinside rfl rfl hpass
    · exact hs.finish hpass
  · -- unlinking: the pass ends with the removal, which nobody else is to see
    obtain ⟨-, hpass⟩ := hs.current hw rfl
    simp only
    split_ifs with hfails
    · exact hs.finish hpass
    · have hspares : SparesHolder s w := hharmless (eq_false_iff.mpr hfails)
      have hput : Sound h ((s.putLock w none).setPhase w .idle) := hs.putLock hspares nofun nofun
      exact hput.finish_idle (hpass.steal fun hstolen ↦ (or_eq_false_iff.mp hstolen).1)
  · exact hs

theorem Sound.exit (hs : Sound h s) (pid : ℕ) : Sound h (stagingStep h s (.exit pid)) := by
  have hphase : ∀ v, (stagingStep h s (.exit pid)).phases v = .dead ∨
      (stagingStep h s (.exit pid)).phases v = s.phases v := fun v ↦ by
    simp only [stagingStep]
    split_ifs <;> simp
  refine ⟨hs.holding.mono fun v hv ↦ ?_, hs.keeps.mono fun v hv ↦ ?_, fun v pass hpass ↦ ?_, hs.returned⟩
  · obtain ⟨lease, hmem, hle⟩ := holding_iff.mp hv
    rcases hphase v with hv | hv <;> rw [hv] at hmem
    · simp [Phase.lease?, Phase.pass?] at hmem
    · exact holding_iff.mpr ⟨lease, hmem, hle⟩
  · obtain ⟨hinside, hstolen⟩ := hv
    rcases hphase v with hv | hv <;> rw [hv] at hinside
    · simp [Phase.isInside, Phase.lease?, Phase.pass?] at hinside
    · exact ⟨hinside, hstolen⟩
  · rcases hphase v with hv | hv <;> rw [hv] at hpass ⊢
    · simp [Phase.pass?] at hpass
    · exact hs.passes v pass hpass

theorem Sound.step (hs : Sound h s) (op : StagingOp W) (hharmless : Harmless h s op) :
    Sound h (stagingStep h s op) := by
  rcases op with ms | ⟨w, plan⟩ | ⟨w, fails⟩ | pid | ⟨pid, started⟩ | ⟨path, bytes⟩
  · exact hs.tick ms
  · simp only [stagingStep]
    split_ifs
    · exact hs.setPhase_outside rfl
    · exact hs
  · exact hs.advance w fails hharmless
  · exact hs.exit pid
  · exact ⟨hs.holding, hs.keeps, hs.passes, hs.returned⟩
  · exact ⟨hs.holding, hs.keeps, hs.passes, hs.returned⟩

end Steps

/-- In a run in which no step takes away the lock of another pass within its TTL, nothing is put into place under
the lock of another, and no pass writes over what it has recorded, staging is exclusive and coherent. -/
theorem stagingLaw_run [DecidableEq W] (h : Host W) (left : Option (Option StagingLock)) (clock : ℕ)
    (running : ℕ → Option ℕ) (source : Path → Option (List UInt8)) (deployed : Path → Option Content) (next : ℕ)
    (ops : List (StagingOp W))
    (hops : Guarded (stagingStep h) (Harmless h) (.start W left clock running source deployed next) ops) (n : ℕ) :
    StagingLaw h (run (stagingStep h) (.start W left clock running source deployed next) (ops.take n)) := by
  have hprefix : Guarded (stagingStep h) (Harmless h) (.start W left clock running source deployed next)
      (ops.take n) := by
    rw [← List.take_append_drop n ops, guarded_append] at hops
    exact hops.1
  exact (invariant_run_of_guarded (fun s op hs hop ↦ hs.step op hop)
    (sound_start h left clock running source deployed next) hprefix).law

/-- One mode with a role and a seed, all of them empty files. -/
def oneMode : Plan :=
  ⟨["ext".toList], [("develop".toList,
    ⟨"card.md".toList, "pack.toml".toList, [⟨"scout".toList, "../../roles/scout.md".toList⟩],
      ["../../schemas/seed.json".toList]⟩)], 120000⟩

/-- Two processes on one host; the digest is that of the empty file. -/
def twoProcesses : Host Bool :=
  ⟨["dest".toList, "modes".toList], fun w ↦ if w then 2 else 1, fun w ↦ if w then 20 else 10,
    fun _ ↦ "sha256:e3b0c44298fc1c149afbf4c8996fb92427ae41e4649b934ca495991b7852b855"⟩

/-- The second process finds the lock that the first has created and not written. -/
def unwritten : List (StagingOp Bool) :=
  [.start false oneMode, .start true oneMode, .step false false, .step false false, .step true false,
    .step true false, .step true false, .step true false, .step true false, .step true false, .step true false]

theorem not_stagingLaw_unwritten :
    ¬ StagingLaw twoProcesses (run (stagingStep twoProcesses)
      (.start Bool none 1000 (fun pid ↦ if pid = 0 then none else some (pid * 10)) (fun _ ↦ some []) (fun _ ↦ none) 0)
      (unwritten.take 11)) := by
  intro hlaw
  exact absurd (hlaw.exclusive false true (by decide) (by decide)) (by decide)

/-- One process stages, with a heartbeat after its first file; another finds the lock and gives up. -/
def staging : List (StagingOp Bool) :=
  [.start false oneMode, .start true oneMode, .step false false, .step true false, .step false false,
    .step false false, .step true false, .step false false, .step true false, .step true false,
    .step false false, .tick 100, .step false false, .step false false, .step false false] ++
  (List.replicate 4 [.step false false, .step false true]).flatten ++ List.replicate 4 (.step false false)

theorem stagingLaw_staging :
    StagingLaw twoProcesses (run (stagingStep twoProcesses)
      (.start Bool none 1000 (fun pid ↦ if pid = 0 then none else some (pid * 10)) (fun _ ↦ some []) (fun _ ↦ none) 0)
      (staging.take 27)) :=
  stagingLaw_run twoProcesses none 1000 (fun pid ↦ if pid = 0 then none else some (pid * 10)) (fun _ ↦ some [])
    (fun _ ↦ none) 0 staging (by decide) 27

end Amicode.ModeStaging
