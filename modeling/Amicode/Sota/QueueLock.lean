import Amicode.Foundation.StepMachine
import Mathlib.Data.Fintype.Basic

/-!
# The lock of the routing queue

Fetchers take turns by a lock file at a fixed path. A worker takes the lock by creating the file exclusively and
then writing its lease, which has a token of its own and a time of expiry. A worker that finds the file reads
it, and removes it if it has no lease that can be read or one that has expired. A worker releases the lock by
renaming the file to a tombstone; if the lease it then reads there is not its own, it links the file back
unless the path has been taken again, and drops the tombstone (`sota_queue.ts`).

The path is a slot that refers to a file. Creating, removing, renaming and linking change what the slot refers
to; a lease is written to a file, and stays with it wherever the file is. Each of these is one step of a
worker, at a time of its own, and workers may stop at any point. There is one host and one clock.
-/

namespace Amicode.Sota

structure QueueLease where
  token : ℕ
  acquired_at : ℕ
  expires_at : ℕ
deriving DecidableEq

/-- What a worker knows of the lock it holds. -/
structure QueueLock where
  token : ℕ
  expiresAt : ℕ
deriving DecidableEq

/-- Where a worker is. Times are those at which it asked for the lock. -/
inductive Phase
  | idle
  /-- It asked for the lock. -/
  | starting (token now : ℕ)
  | created (token now file : ℕ)
  | holding (lock : QueueLock) (file : ℕ)
  /-- The file was there already. -/
  | contended (now : ℕ)
  /-- It read the file, which has this lease if it has one. -/
  | read (now : ℕ) (held : Option QueueLease)
  | renamed (lock : QueueLock) (tomb : ℕ)
  /-- The file is not its own. -/
  | restoring (tomb : ℕ)
  | dropping
  /-- It has stopped for good. -/
  | dead
deriving DecidableEq

/-- The file a worker created or holds. -/
def Phase.file? : Phase → Option ℕ
  | .created _ _ file => some file
  | .holding _ file => some file
  | _ => none

structure QueueState (W : Type*) where
  clock : ℕ
  /-- The file at the path of the lock. -/
  slot : Option ℕ
  /-- The lease that can be read from a file. -/
  contents : ℕ → Option QueueLease
  phases : W → Phase
  /-- The next token or file. -/
  next : ℕ

/-- No worker has asked yet. An earlier run left nothing at the path, or a file with a lease or without. -/
def QueueState.start (W : Type*) (left : Option (Option QueueLease)) (clock : ℕ) : QueueState W where
  clock
  slot := left.map fun _ ↦ 0
  contents _ := left.join
  phases _ := .idle
  next := 1

inductive QueueOp (W : Type*)
  | tick (ms : ℕ)
  /-- A worker takes its next step. -/
  | step (w : W)
  /-- A worker stops for good. -/
  | crash (w : W)

variable {W : Type*} [DecidableEq W]

def QueueState.setPhase (s : QueueState W) (w : W) (phase : Phase) : QueueState W :=
  { s with phases := Function.update s.phases w phase }

/-- The file has no lease that can be read, or one that had expired when the worker asked. -/
def reclaimable (held : Option QueueLease) (now : ℕ) : Bool := held.all fun lease ↦ lease.expires_at ≤ now

/-- The next step of a worker, which asks for the lock if it is free and releases it if it holds it. -/
def advance (leaseTtlMs : ℕ) (s : QueueState W) (w : W) : QueueState W :=
  match s.phases w with
  | .idle => { s with next := s.next + 1 }.setPhase w (.starting s.next s.clock)
  | .starting token now =>
    match s.slot with
    | none =>
      { s with
        slot := some s.next
        contents := Function.update s.contents s.next none
        next := s.next + 1 }.setPhase w (.created token now s.next)
    | some _ => s.setPhase w (.contended now)
  | .created token now file =>
    { s with contents := Function.update s.contents file (some ⟨token, now, now + leaseTtlMs⟩) }.setPhase w
      (.holding ⟨token, now + leaseTtlMs⟩ file)
  | .contended now => s.setPhase w (.read now (s.slot.bind s.contents))
  | .read now held =>
    if reclaimable held now then { s with slot := none }.setPhase w .idle else s.setPhase w .idle
  | .holding lock _ =>
    match s.slot with
    | none => s.setPhase w .idle
    | some tomb => { s with slot := none }.setPhase w (.renamed lock tomb)
  | .renamed lock tomb =>
    if (s.contents tomb).any fun held ↦ held.token = lock.token then s.setPhase w .dropping
    else s.setPhase w (.restoring tomb)
  | .restoring tomb => { s with slot := s.slot.or (some tomb) }.setPhase w .dropping
  | .dropping => s.setPhase w .idle
  | .dead => s

def queueStep (leaseTtlMs : ℕ) (s : QueueState W) : QueueOp W → QueueState W
  | .tick ms => { s with clock := s.clock + ms }
  | .step w => advance leaseTtlMs s w
  | .crash w => s.setPhase w .dead

end Amicode.Sota

/-!
# Mutual exclusion of the routing queue

At most one worker at a time may believe that it holds a lease that is neither expired nor released, and a
release must leave the live leases of other workers where they are.

A worker takes the file at the path away in two places, and in both it decides by what it read or knew
before. A contender removes the file after it read a lease that had expired, or an empty file whose lease was
still to be written; a release renames whatever is at the path. The law holds in every run in which the file
taken away is stale at that moment, or the worker's own (`lockLaw_run`). Each window breaks it: an empty file is
read before it is written, an expired lease is replaced before it is removed, and a lease is replaced before it
is released.

What carries the proof is that the file of a worker that is to write its lease, or holds it unexpired, is at
the path (`Sound`).
-/

namespace Amicode.Sota

open StepMachine

variable {W : Type*}

/-! ## The law -/

/-- The worker believes that it holds a lease that is neither expired nor released. -/
def Believes (s : QueueState W) (w : W) (file : ℕ) : Prop :=
  ∃ lock, s.phases w = .holding lock file ∧ s.clock < lock.expiresAt

def Exclusive (s : QueueState W) : Prop := ∀ w w' file file', Believes s w file → Believes s w' file' → w = w'

/-- The next step of the worker is one of a release. -/
def IsReleasing (s : QueueState W) (w : W) : Prop :=
  match s.phases w with
  | .holding _ _ | .renamed _ _ | .restoring _ | .dropping => True
  | _ => False

/-- A step of a release leaves the live leases of other workers at the path. -/
def ReleaseSafe [DecidableEq W] (leaseTtlMs : ℕ) (s : QueueState W) : QueueOp W → Prop
  | .step w => IsReleasing s w → ∀ v file, v ≠ w → Believes s v file → s.slot = some file →
      (advance leaseTtlMs s w).slot = some file
  | _ => True

/-- What is owed of a run. -/
structure LockLaw [DecidableEq W] (leaseTtlMs : ℕ) (start : QueueState W) (ops : List (QueueOp W)) : Prop where
  exclusive : ∀ n, Exclusive (run (queueStep leaseTtlMs) start (ops.take n))
  releases : Guarded (queueStep leaseTtlMs) (ReleaseSafe leaseTtlMs) start ops

/-- The file that a worker has created and is to write. -/
def Phase.writes? : Phase → Option ℕ
  | .created _ _ file => some file
  | _ => none

/-- No worker is to write the file, and it has no lease or an expired one. -/
structure IsStale (s : QueueState W) (file : ℕ) : Prop where
  written : ∀ w, (s.phases w).writes? ≠ some file
  expired : ∀ lease ∈ s.contents file, lease.expires_at ≤ s.clock

/-- The file that a worker of this phase takes away from the path is stale, or the one that it releases. -/
def TakesStaleAt (s : QueueState W) : Phase → Prop
  | .read now held => reclaimable held now = true → ∀ file ∈ s.slot, IsStale s file
  | .holding _ own => ∀ file ∈ s.slot, file = own ∨ IsStale s file
  | _ => True

def TakesStale (s : QueueState W) : QueueOp W → Prop
  | .step w => TakesStaleAt s (s.phases w)
  | _ => True

instance decidableIsStale [Fintype W] (s : QueueState W) (file : ℕ) : Decidable (IsStale s file) :=
  decidable_of_iff ((∀ w, (s.phases w).writes? ≠ some file) ∧
      ∀ lease ∈ s.contents file, lease.expires_at ≤ s.clock)
    ⟨fun h ↦ ⟨h.1, h.2⟩, fun h ↦ ⟨h.written, h.expired⟩⟩

instance decidableTakesStaleAt [Fintype W] (s : QueueState W) : ∀ phase, Decidable (TakesStaleAt s phase)
  | .read now held =>
    inferInstanceAs (Decidable (reclaimable held now = true → ∀ file ∈ s.slot, IsStale s file))
  | .holding _ own => inferInstanceAs (Decidable (∀ file ∈ s.slot, file = own ∨ IsStale s file))
  | .idle | .starting _ _ | .created _ _ _ | .contended _ | .renamed _ _ | .restoring _ | .dropping | .dead =>
    .isTrue trivial

instance decidableTakesStale [Fintype W] (s : QueueState W) : ∀ op, Decidable (TakesStale s op)
  | .step w => inferInstanceAs (Decidable (TakesStaleAt s (s.phases w)))
  | .tick _ | .crash _ => .isTrue trivial

/-! ## The invariant -/

/-- The file that a worker needs at the path: one that it is to write, or holds unexpired. -/
def Phase.needs (clock : ℕ) : Phase → Option ℕ
  | .created _ _ file => some file
  | .holding lock file => if clock < lock.expiresAt then some file else none
  | _ => none

/-- Files have one owner each, and what a worker needs is at the path. -/
structure Sound (s : QueueState W) : Prop where
  fresh : ∀ w file, (s.phases w).file? = some file → file < s.next
  owner : ∀ w w' file, (s.phases w).file? = some file → (s.phases w').file? = some file → w = w'
  lease : ∀ w lock file, s.phases w = .holding lock file →
    ∃ lease ∈ s.contents file, lease.expires_at = lock.expiresAt
  place : ∀ w file, (s.phases w).needs s.clock = some file → s.slot = some file

theorem Phase.file?_of_needs {phase : Phase} {clock file : ℕ} (h : phase.needs clock = some file) :
    phase.file? = some file := by
  rcases phase with _ | _ | _ | ⟨lock, file'⟩ | _ | _ | _ | _ | _ | _ <;> try exact h
  simp only [Phase.needs] at h
  split_ifs at h
  exact h

variable {s : QueueState W}

theorem Believes.needs {w : W} {file : ℕ} (h : Believes s w file) : (s.phases w).needs s.clock = some file := by
  obtain ⟨lock, hphase, hclock⟩ := h
  rw [hphase, Phase.needs, if_pos hclock]

theorem Sound.exclusive (hs : Sound s) : Exclusive s := by
  intro w w' file file' hw hw'
  have hfile : file = file' :=
    Option.some.inj ((hs.place w file hw.needs).symm.trans (hs.place w' file' hw'.needs))
  subst hfile
  exact hs.owner w w' file (Phase.file?_of_needs hw.needs) (Phase.file?_of_needs hw'.needs)

theorem Sound.not_needs_of_stale (hs : Sound s) {file : ℕ} (hstale : IsStale s file) (w : W) :
    (s.phases w).needs s.clock ≠ some file := by
  intro hneeds
  rcases hphase : s.phases w with _ | _ | ⟨token, now, file'⟩ | ⟨lock, file'⟩ | _ | _ | _ | _ | _ | _ <;>
    rw [hphase] at hneeds <;> try cases hneeds
  · exact hstale.written w (by rw [hphase]; rfl)
  · simp only [Phase.needs] at hneeds
    split_ifs at hneeds with hclock
    obtain rfl := Option.some.inj hneeds
    obtain ⟨lease, hlease, hexpires⟩ := hs.lease w lock file' hphase
    exact absurd (hstale.expired lease hlease) (by omega)

/-! ## Steps keep the invariant -/

theorem Sound.tick (hs : Sound s) (ms : ℕ) : Sound { s with clock := s.clock + ms } := by
  refine ⟨hs.fresh, hs.owner, hs.lease, fun v file hneeds ↦ hs.place v file ?_⟩
  rcases hphase : s.phases v with _ | _ | _ | ⟨lock, file'⟩ | _ | _ | _ | _ | _ | _ <;>
    simp only [hphase, Phase.needs] at hneeds ⊢ <;> try exact hneeds
  split_ifs at hneeds with hclock
  rw [if_pos (by omega), hneeds]

theorem Sound.draw (hs : Sound s) : Sound { s with next := s.next + 1 } :=
  ⟨fun v file hv ↦ Nat.lt_succ_of_lt (hs.fresh v file hv), hs.owner, hs.lease, hs.place⟩

theorem sound_start (left : Option (Option QueueLease)) (clock : ℕ) :
    Sound (QueueState.start W left clock) := by
  have hidle (w : W) : (QueueState.start W left clock).phases w = .idle := rfl
  refine ⟨?_, ?_, ?_, ?_⟩
  · intro w file h
    rw [hidle] at h
    cases h
  · intro w w' file h
    rw [hidle] at h
    cases h
  · intro w lock file h
    rw [hidle] at h
    cases h
  · intro w file h
    rw [hidle] at h
    cases h

theorem Sound.setContents (hs : Sound s) (own : ℕ) (lease : Option QueueLease)
    (hown : ∀ v lock, s.phases v ≠ .holding lock own) :
    Sound { s with contents := Function.update s.contents own lease } := by
  refine ⟨hs.fresh, hs.owner, fun v lock file hv ↦ ?_, hs.place⟩
  have hne : file ≠ own := by
    rintro rfl
    exact hown v lock hv
  dsimp only
  rw [Function.update_of_ne hne]
  exact hs.lease v lock file hv

variable [DecidableEq W]

theorem phases_setPhase_self (s : QueueState W) (w : W) (phase : Phase) :
    (s.setPhase w phase).phases w = phase := by
  simp only [QueueState.setPhase, Function.update_self]

theorem phases_setPhase_of_ne (s : QueueState W) {v w : W} (phase : Phase) (h : v ≠ w) :
    (s.setPhase w phase).phases v = s.phases v := by
  simp only [QueueState.setPhase, Function.update_of_ne h]

section Steps

variable {s : QueueState W} {w : W} {phase : Phase}

/-- The owners of files after a worker comes to a phase in which it owns none. -/
theorem file?_setPhase (hphase : phase.file? = none) {v : W} {file : ℕ}
    (h : ((s.setPhase w phase).phases v).file? = some file) : v ≠ w ∧ (s.phases v).file? = some file := by
  by_cases hv : v = w
  · subst hv
    rw [phases_setPhase_self, hphase] at h
    cases h
  · rw [phases_setPhase_of_ne s phase hv] at h
    exact ⟨hv, h⟩

/-- A worker comes to a phase in which it owns no file, and the other workers keep what they need. -/
theorem Sound.leave (hs : Sound s) (hphase : phase.file? = none) (slot : Option ℕ)
    (hslot : ∀ v file, v ≠ w → (s.phases v).needs s.clock = some file → slot = some file) :
    Sound ({ s with slot }.setPhase w phase) := by
  refine ⟨?_, ?_, ?_, ?_⟩
  · intro v file hv
    exact hs.fresh v file (file?_setPhase hphase hv).2
  · intro v v' file hv hv'
    exact hs.owner v v' file (file?_setPhase hphase hv).2 (file?_setPhase hphase hv').2
  · intro v lock file hv
    obtain ⟨hne, -⟩ := file?_setPhase hphase (congrArg Phase.file? hv)
    exact hs.lease v lock file ((phases_setPhase_of_ne s phase hne).symm.trans hv)
  · intro v file hneeds
    obtain ⟨hne, -⟩ := file?_setPhase hphase (Phase.file?_of_needs hneeds)
    refine hslot v file hne ?_
    rw [← phases_setPhase_of_ne s phase hne]
    exact hneeds

theorem Sound.setPhase (hs : Sound s) (hphase : phase.file? = none) : Sound (s.setPhase w phase) :=
  hs.leave hphase s.slot fun v file _ hneeds ↦ hs.place v file hneeds

/-- Whatever comes to the path, if what was there is stale or the worker's own. -/
theorem Sound.take (hs : Sound s) (hphase : phase.file? = none)
    (hslot : ∀ file ∈ s.slot, (s.phases w).file? = some file ∨ IsStale s file) (slot : Option ℕ) :
    Sound ({ s with slot }.setPhase w phase) := by
  refine hs.leave hphase slot fun v file hne hneeds ↦ ?_
  rcases hslot file (hs.place v file hneeds) with hown | hstale
  · exact absurd (hs.owner v w file (Phase.file?_of_needs hneeds) hown) hne
  · exact absurd hneeds (hs.not_needs_of_stale hstale v)

/-- The owners of files after a worker comes to a phase in which it owns one. -/
theorem file?_setPhase_some {own : ℕ} (hphase : phase.file? = some own) {v : W} {file : ℕ}
    (h : ((s.setPhase w phase).phases v).file? = some file) :
    (v = w ∧ file = own) ∨ (v ≠ w ∧ (s.phases v).file? = some file) := by
  by_cases hv : v = w
  · subst hv
    rw [phases_setPhase_self, hphase] at h
    exact .inl ⟨rfl, (Option.some.inj h).symm⟩
  · rw [phases_setPhase_of_ne s phase hv] at h
    exact .inr ⟨hv, h⟩

/-- A worker comes to a phase in which it owns the file at the path, which is no other worker's, and whose lease
is the one it holds. -/
theorem Sound.own (hs : Sound s) {own : ℕ} (hphase : phase.file? = some own) (hnext : own < s.next)
    (howner : ∀ v, v ≠ w → (s.phases v).file? ≠ some own)
    (hlease : ∀ lock, phase = .holding lock own → ∃ lease ∈ s.contents own, lease.expires_at = lock.expiresAt)
    (hslot : s.slot = some own) : Sound (s.setPhase w phase) := by
  refine ⟨?_, ?_, ?_, ?_⟩
  · intro v file hv
    rcases file?_setPhase_some hphase hv with ⟨-, rfl⟩ | ⟨-, hv⟩
    · exact hnext
    · exact hs.fresh v file hv
  · intro v v' file hv hv'
    rcases file?_setPhase_some hphase hv with ⟨hvw, hfile⟩ | ⟨hne, hvs⟩ <;>
      rcases file?_setPhase_some hphase hv' with ⟨hvw', hfile'⟩ | ⟨hne', hvs'⟩
    · rw [hvw, hvw']
    · exact absurd (hfile ▸ hvs') (howner v' hne')
    · exact absurd (hfile' ▸ hvs) (howner v hne)
    · exact hs.owner v v' file hvs hvs'
  · intro v lock file hv
    rcases file?_setPhase_some hphase (congrArg Phase.file? hv) with ⟨rfl, rfl⟩ | ⟨hne, -⟩
    · exact hlease lock ((phases_setPhase_self s v phase).symm.trans hv)
    · exact hs.lease v lock file ((phases_setPhase_of_ne s phase hne).symm.trans hv)
  · intro v file hneeds
    rcases file?_setPhase_some hphase (Phase.file?_of_needs hneeds) with ⟨-, rfl⟩ | ⟨hne, -⟩
    · exact hslot
    · rw [phases_setPhase_of_ne s phase hne] at hneeds
      exact hs.place v file hneeds

theorem Sound.create (hs : Sound s) (hslot : s.slot = none) (token now : ℕ) :
    Sound ({ s with
      slot := some s.next
      contents := Function.update s.contents s.next none
      next := s.next + 1 }.setPhase w (.created token now s.next)) := by
  have hnot : ∀ v, (s.phases v).file? ≠ some s.next := fun v hv ↦ absurd (hs.fresh v _ hv) (lt_irrefl _)
  have hcontents := hs.setContents s.next none fun v lock hv ↦ hnot v (congrArg Phase.file? hv)
  have hslot' : Sound { s with
      slot := some s.next
      contents := Function.update s.contents s.next none
      next := s.next + 1 } := by
    refine ⟨hcontents.draw.fresh, hcontents.owner, hcontents.lease, fun v file hneeds ↦ ?_⟩
    exact absurd ((hs.place v file hneeds).symm.trans hslot) (Option.some_ne_none file)
  exact hslot'.own rfl (Nat.lt_succ_self _) (fun v _ ↦ hnot v) (fun lock h ↦ by cases h) rfl

theorem Sound.write (hs : Sound s) {token now file : ℕ} (hcreated : s.phases w = .created token now file)
    (leaseTtlMs : ℕ) :
    Sound ({ s with contents := Function.update s.contents file (some ⟨token, now, now + leaseTtlMs⟩) }.setPhase w
      (.holding ⟨token, now + leaseTtlMs⟩ file)) := by
  have hfile : (s.phases w).file? = some file := by rw [hcreated]; rfl
  have howner : ∀ v, v ≠ w → (s.phases v).file? ≠ some file := fun v hne hv ↦ hne (hs.owner v w file hv hfile)
  have hcontents := hs.setContents file (some ⟨token, now, now + leaseTtlMs⟩) fun v lock hv ↦ by
    by_cases hvw : v = w
    · rw [hvw, hcreated] at hv
      cases hv
    · exact howner v hvw (congrArg Phase.file? hv)
  refine hcontents.own rfl (hs.fresh w file hfile) howner (fun lock h ↦ ?_) (hs.place w file ?_)
  · obtain ⟨rfl, -⟩ := Phase.holding.inj h
    exact ⟨_, Function.update_self .., rfl⟩
  · rw [hcreated]
    rfl

end Steps

variable {leaseTtlMs : ℕ}

theorem sound_advance {w : W} (hs : Sound s) (hop : TakesStale s (.step w)) : Sound (advance leaseTtlMs s w) := by
  rcases hphase : s.phases w with _ | ⟨token, now⟩ | ⟨token, now, file⟩ | ⟨lock, file⟩ | now | ⟨now, held⟩
    | ⟨lock, tomb⟩ | tomb | _ | _ <;> simp only [TakesStale, TakesStaleAt, hphase] at hop <;>
    simp only [advance, hphase]
  case idle => exact hs.draw.setPhase rfl
  case starting =>
    rcases hslot : s.slot with _ | file
    · exact hs.create hslot token now
    · exact hs.setPhase rfl
  case created => exact hs.write hphase leaseTtlMs
  case holding =>
    rcases hslot : s.slot with _ | tomb
    · exact hs.setPhase rfl
    · refine hs.take rfl (fun file' hfile' ↦ (hop file' hfile').imp_left fun hown ↦ ?_) none
      rw [hphase, hown]
      rfl
  case contended => exact hs.setPhase rfl
  case read =>
    split
    · rename_i hreclaimable
      exact hs.take rfl (fun file hfile ↦ .inr (hop hreclaimable file hfile)) none
    · exact hs.setPhase rfl
  case renamed =>
    split
    · exact hs.setPhase rfl
    · exact hs.setPhase rfl
  case restoring =>
    rcases hslot : s.slot with _ | file
    · refine hs.take rfl (fun file hfile ↦ ?_) _
      rw [hslot] at hfile
      cases hfile
    · have hsame : (some file).or (some tomb) = s.slot := hslot.symm
      rw [hsame]
      exact hs.setPhase rfl
  case dropping => exact hs.setPhase rfl
  case dead => exact hs

theorem sound_step {op : QueueOp W} (hs : Sound s) (hop : TakesStale s op) :
    Sound (queueStep leaseTtlMs s op) := by
  rcases op with ms | w | w
  · exact hs.tick ms
  · exact sound_advance hs hop
  · exact hs.setPhase rfl

theorem releaseSafe_step {op : QueueOp W} (hs : Sound s)
    (hop : TakesStale s op) : ReleaseSafe leaseTtlMs s op := by
  rcases op with ms | w | w
  · trivial
  · intro hreleasing v file hne hbelieves hslot
    rcases hphase : s.phases w with _ | ⟨token, now⟩ | ⟨token, now, own⟩ | ⟨lock, own⟩ | now | ⟨now, held⟩
      | ⟨lock, tomb⟩ | tomb | _ | _ <;> simp only [IsReleasing, hphase] at hreleasing <;>
      simp only [TakesStale, TakesStaleAt, hphase] at hop
    case holding =>
      -- the file at the path would be another worker's live lease
      rcases hop file hslot with rfl | hstale
      · exact absurd (hs.owner v w file (Phase.file?_of_needs hbelieves.needs) (by rw [hphase]; rfl)) hne
      · exact absurd hbelieves.needs (hs.not_needs_of_stale hstale v)
    case renamed =>
      simp only [advance, hphase]
      split
      · exact hslot
      · exact hslot
    case restoring =>
      simp only [advance, hphase, hslot]
      rfl
    case dropping =>
      simp only [advance, hphase]
      exact hslot
  · trivial

/-! ## The law -/

theorem lockLaw_run {leaseTtlMs clock : ℕ} {left : Option (Option QueueLease)} {ops : List (QueueOp W)}
    (h : Guarded (queueStep leaseTtlMs) TakesStale (.start W left clock) ops) :
    LockLaw leaseTtlMs (.start W left clock) ops := by
  have hstart := sound_start (W := W) left clock
  have hsound : Guarded (queueStep leaseTtlMs) (fun s op ↦ Sound (queueStep leaseTtlMs s op))
      (.start W left clock) ops :=
    h.of_invariant (fun s op hs hop ↦ sound_step hs hop) (fun s op hs hop ↦ sound_step hs hop) hstart
  refine ⟨fun n ↦ (run_take_of_guarded hstart hsound n).exclusive, ?_⟩
  exact h.of_invariant (fun s op hs hop ↦ sound_step hs hop) (fun s op hs hop ↦ releaseSafe_step hs hop) hstart

/-- A worker takes so many steps. -/
def steps (w : Fin 3) (n : ℕ) : List (QueueOp (Fin 3)) := List.replicate n (.step w)

/-- A lease expires, another worker takes the lock and releases it, and the first one releases too. -/
def staleRun : List (QueueOp (Fin 3)) :=
  steps 0 3 ++ [.tick 90000] ++ steps 1 7 ++ steps 1 3 ++ steps 0 1

theorem lockLaw_staleRun : LockLaw 90000 (.start (Fin 3) none 0) staleRun :=
  lockLaw_run (by decide)

/-! ## The windows -/

theorem not_lockLaw_of_believes {start : QueueState W} {ops : List (QueueOp W)} (w w' : W)
    (file file' : ℕ) (hne : w ≠ w') (hw : Believes (run (queueStep leaseTtlMs) start ops) w file)
    (hw' : Believes (run (queueStep leaseTtlMs) start ops) w' file') : ¬ LockLaw leaseTtlMs start ops := by
  intro h
  have hexclusive := h.exclusive ops.length
  rw [List.take_length] at hexclusive
  exact hne (hexclusive w w' file file' hw hw')

/-- A worker reads the file that another one has created and not written yet, removes it, and takes the lock.
The other one writes its lease to the file that is gone. -/
def emptyFileRun : List (QueueOp (Fin 3)) := steps 0 2 ++ steps 1 7 ++ steps 0 1

theorem not_lockLaw_emptyFile : ¬ LockLaw 90000 (.start (Fin 3) none 0) emptyFileRun :=
  not_lockLaw_of_believes 0 1 2 5 (by decide) ⟨⟨1, 90000⟩, by decide, by decide⟩
    ⟨⟨4, 90000⟩, by decide, by decide⟩

/-- Two workers read the lease that has expired. The first one takes the lock, and the second one removes its
file. -/
example : ¬ LockLaw 90000 (.start (Fin 3) none 0)
    (steps 0 3 ++ [.tick 90000] ++ steps 1 3 ++ steps 2 3 ++ steps 1 4 ++ steps 2 4) :=
  not_lockLaw_of_believes 1 2 6 8 (by decide) ⟨⟨5, 180000⟩, by decide, by decide⟩
    ⟨⟨7, 180000⟩, by decide, by decide⟩

/-- A worker releases after its lease has expired and another worker has taken the lock, and a third one takes
the lock before the file is linked back. -/
example : ¬ LockLaw 90000 (.start (Fin 3) none 0)
    (steps 0 3 ++ [.tick 90000] ++ steps 1 7 ++ steps 0 1 ++ steps 2 3 ++ steps 0 3) :=
  not_lockLaw_of_believes 1 2 5 7 (by decide) ⟨⟨4, 180000⟩, by decide, by decide⟩
    ⟨⟨6, 180000⟩, by decide, by decide⟩

end Amicode.Sota
