import Amicode.Foundation.StepMachine
import Mathlib.Data.Option.Basic

/-!
# Upgrading the server binary

`amico upgrade server-binary` has three files: the frozen binary `opencode`, the copy `opencode.prev` of what
was frozen before, and the sidecar with the digest of the frozen binary (`upgrade.ts`; the pre-flight is
`probeServerBinary` of `surfaces.ts`). A run that has an artifact to freeze

* copies the frozen binary to `opencode.prev`,
* copies the artifact over the frozen binary, makes it executable, hashes it and writes the sidecar,
* with `--no-kick` stops there, and otherwise restarts the server and polls its health,
* on success deletes `opencode.prev`, and on failure puts it back and rewrites the sidecar.

Binaries and the digest `sha` of them are parameters. A run comes with everything the machine answers: what is
being served, whether each file can be read, hashed, copied and written, and how each poll goes. A copy or a
write that fails may leave anything. What the model keeps besides the files is the list `passed` of the digests
that passed a health check, which asks the server for an answer and compares the digest of the binary it runs.

The steps up to the smoke test and the rebuild of the verb routers do not touch the three files. Of these the
model has the order and the outcomes. The texts of the log and the records of the doctor are left out.
-/

namespace Amicode.Upgrade

/-- How copying a file ended. -/
inductive Copied (β : Type*)
  | done
  | failed (left : Option β)
deriving DecidableEq

/-- What the target then holds. -/
def Copied.onto {β : Type*} (copied : Copied β) (source : β) : Option β :=
  match copied with
  | .done => some source
  | .failed left => left

inductive UpgradeOutcome
  | upgraded
  | noOp
  | restored
  | restoreFailed
  | abortedLocked
  | abortedUnknown
  | abortedError
  | abortedEnvironment
  | abortedDiverged
  | abortedBuild
deriving DecidableEq

inductive Verification
  | passed
  | failed
  | deferred
deriving DecidableEq

structure UpgradeReceipt where
  outcome : UpgradeOutcome
  verification : Option Verification
deriving DecidableEq

def UpgradeReceipt.aborted (outcome : UpgradeOutcome) : UpgradeReceipt := ⟨outcome, none⟩

/-- The files of the server, and the digests that passed a health check. A sidecar in which no digest is found
is as good as none. -/
structure Server (β δ : Type*) where
  frozen : Option β
  prev : Option β
  sidecar : Option δ
  passed : List δ
deriving DecidableEq

/-! ## What a run is told -/

/-- One poll of the server: whether it answered, and the binary it is running if that can be read. -/
structure Poll (β : Type*) where
  healthy : Bool
  running : Option β

/-- How putting a binary in the place of the frozen one went. -/
structure Replacing (β δ : Type*) where
  copied : Copied β
  executable : Bool
  readable : Bool
  sidecarWritten : Copied δ

/-- The answers of the steps that lead to an artifact. -/
structure Preparation (β : Type*) where
  repoFound : Bool
  bunFound : Bool
  fetched : Bool
  cleanTree : Bool
  refFound : Bool
  ancestor : Bool
  headIsRef : Bool
  fastForwarded : Bool
  /-- The artifact that `--skip-build` names, if it is there. -/
  skipBuild : Option (Option β)
  buildOk : Bool
  built : Option β
  smokeOk : Bool
  /-- The outcome with which rebuilding the verb routers failed. -/
  distsFailed : Option UpgradeOutcome

structure Run (β δ : Type*) where
  locked : Bool
  frozenReadable : Bool
  versionRuns : Bool
  /-- The binary that is being served when the run starts. -/
  serving : Option β
  servingReadable : Bool
  /-- How the frozen version compares with the upstream one, if that is available. -/
  upstream : Option Ordering
  preparation : Preparation β
  binDirMade : Bool
  currentReadable : Bool
  preserved : Copied β
  freeze : Replacing β δ
  noKick : Bool
  verify : List (Poll β)
  verifyRetry : List (Poll β)
  restore : Replacing β δ
  restoreVerify : List (Poll β)
  prevRemoved : Bool

/-! ## The pre-flight -/

inductive Verdict
  | current
  | stale
  | integrityFailure
  | unknown
deriving DecidableEq

inductive Gate
  | proceed
  | noOp
  | abort
deriving DecidableEq

def gatePreflight (records : List Verdict) : Gate :=
  if records.any (· = .unknown) then .abort
  else if records.all (· = .current) then .noOp
  else .proceed

section

variable {β δ : Type*} [DecidableEq δ] (sha : β → δ)

def fileSha (readable : Bool) (file : Option β) : Option δ :=
  if readable then file.map sha else none

def probeServerBinary (s : Server β δ) (r : Run β δ) : Verdict :=
  match fileSha sha r.frozenReadable s.frozen with
  | none => .stale
  | some frozenSha =>
    if s.sidecar ≠ some frozenSha then .integrityFailure
    else if !r.versionRuns then .integrityFailure
    else if fileSha sha r.servingReadable r.serving ≠ some frozenSha then .stale
    else
      match r.upstream with
      | none => .unknown
      | some .lt => .stale
      | some _ => .current

/-! ## The steps of a run -/

omit [DecidableEq δ] in
/-- Everything that has to go well before the files are touched, and the artifact then. -/
def Preparation.artifact (p : Preparation β) : Except UpgradeOutcome β :=
  if !p.repoFound then .error .abortedEnvironment
  else if p.skipBuild.isNone && !p.bunFound then .error .abortedEnvironment
  else if !p.fetched then .error .abortedUnknown
  else if !p.cleanTree then .error .abortedDiverged
  else if !p.refFound then .error .abortedUnknown
  else if !p.ancestor then .error .abortedDiverged
  else if !p.headIsRef && !p.fastForwarded then .error .abortedDiverged
  else do
    let artifact ←
      match p.skipBuild with
      | some artifact? => artifact?.elim (.error .abortedEnvironment) .ok
      | none =>
        if !p.buildOk then .error .abortedBuild
        else p.built.elim (.error .abortedBuild) .ok
    if !p.smokeOk then .error .abortedBuild
    else
      match p.distsFailed with
      | some outcome => .error outcome
      | none => .ok artifact

/-- The frozen binary is kept as `opencode.prev`. The digest says that it was; without it the run goes on as
a first freeze. -/
def preserve (s : Server β δ) (r : Run β δ) : Server β δ × Option δ :=
  match fileSha sha r.currentReadable s.frozen, s.frozen with
  | some prevSha, some current =>
    match r.preserved with
    | .done => ({ s with prev := some current }, some prevSha)
    | .failed left => ({ s with prev := left }, none)
  | _, _ => (s, none)

/-- Where replacing the frozen binary stops. -/
inductive Replaced (δ : Type*)
  | threw
  | unreadable
  | sealed (digest : δ)

/-- A binary is copied over the frozen one, and the sidecar is rewritten. -/
def replaceFrozen (s : Server β δ) (how : Replacing β δ) (source : β) : Server β δ × Replaced δ :=
  let s := { s with frozen := how.copied.onto source }
  match how.copied with
  | .failed _ => (s, .threw)
  | .done =>
    if !how.executable then (s, .threw)
    else if !how.readable then (s, .unreadable)
    else
      let s := { s with sidecar := how.sidecarWritten.onto (sha source) }
      match how.sidecarWritten with
      | .failed _ => (s, .threw)
      | .done => (s, .sealed (sha source))

/-- The server is healthy, and the binary it runs is the target. -/
def healthyAgainst (targetSha : δ) (answer : Poll β) : Bool :=
  answer.healthy && answer.running.map sha = some targetSha

def poll (targetSha : δ) : List (Poll β) → Bool
  | [] => false
  | answer :: answers => if healthyAgainst sha targetSha answer then true else poll targetSha answers

/-- The health check after a freeze, with its one retry. -/
def Run.verified (r : Run β δ) (frozenSha : δ) : Bool :=
  poll sha frozenSha r.verify || poll sha frozenSha r.verifyRetry

/-- A digest passed its health check, and `opencode.prev` is deleted. -/
def passWith (s : Server β δ) (r : Run β δ) (digest : δ) (receipt : UpgradeReceipt) :
    Server β δ × UpgradeReceipt :=
  let s := { s with passed := digest :: s.passed }
  if r.prevRemoved then ({ s with prev := none }, receipt) else (s, .aborted .abortedError)

/-- What the run does about a health check that failed. -/
def restorePrev (s : Server β δ) (r : Run β δ) (prevSha : Option δ) : Server β δ × UpgradeReceipt :=
  match prevSha, s.prev with
  | none, _ => (s, ⟨.restoreFailed, some .failed⟩)
  | some _, none => (s, .aborted .abortedError)
  | some _, some prev =>
    match replaceFrozen sha s r.restore prev with
    | (s, .threw) => (s, .aborted .abortedError)
    | (s, .unreadable) => (s, ⟨.restoreFailed, some .failed⟩)
    | (s, .sealed restoredSha) =>
      if poll sha restoredSha r.restoreVerify then
        passWith s r restoredSha ⟨.restored, some .failed⟩
      else (s, ⟨.restoreFailed, some .failed⟩)

def freezeAndVerify (s : Server β δ) (r : Run β δ) (artifact : β) : Server β δ × UpgradeReceipt :=
  let (s, prevSha) := preserve sha s r
  match replaceFrozen sha s r.freeze artifact with
  | (s, .threw) => (s, .aborted .abortedError)
  | (s, .unreadable) => (s, .aborted .abortedError)
  | (s, .sealed frozenSha) =>
    if r.noKick then (s, ⟨.upgraded, some .deferred⟩)
    else if r.verified sha frozenSha then passWith s r frozenSha ⟨.upgraded, some .passed⟩
    else restorePrev sha s r prevSha

def serverBinaryVerb (s : Server β δ) (r : Run β δ) : Server β δ × UpgradeReceipt :=
  if r.locked then (s, .aborted .abortedLocked)
  else
    match gatePreflight [probeServerBinary sha s r] with
    | .abort => (s, .aborted .abortedUnknown)
    | .noOp => (s, ⟨.noOp, some .passed⟩)
    | .proceed =>
      match r.preparation.artifact with
      | .error outcome => (s, .aborted outcome)
      | .ok artifact =>
        if !r.binDirMade then (s, .aborted .abortedError) else freezeAndVerify sha s r artifact

def upgradeStep (s : Server β δ) (r : Run β δ) : Server β δ := (serverBinaryVerb sha s r).1

/-! ## Whether a run gets to the freeze -/

/-- The artifact that a run freezes, if it gets that far. -/
def freezes (s : Server β δ) (r : Run β δ) : Option β :=
  if r.locked then none
  else
    match gatePreflight [probeServerBinary sha s r] with
    | .abort => none
    | .noOp => none
    | .proceed =>
      match r.preparation.artifact with
      | .error _ => none
      | .ok artifact => if !r.binDirMade then none else some artifact

/-- A run that does not get to the freeze leaves every file as it is. -/
theorem upgradeStep_eq (s : Server β δ) (r : Run β δ) :
    upgradeStep sha s r
      = (freezes sha s r).elim s fun artifact ↦ (freezeAndVerify sha s r artifact).1 := by
  rw [upgradeStep, serverBinaryVerb, freezes]
  cases hlocked : r.locked with
  | true => rfl
  | false =>
    cases hgate : gatePreflight [probeServerBinary sha s r] with
    | abort => rfl
    | noOp => rfl
    | proceed =>
      cases hartifact : r.preparation.artifact with
      | error outcome => rfl
      | ok artifact => cases hdir : r.binDirMade <;> rfl

end

end Amicode.Upgrade

/-!
# What upgrades keep of the server binary

Of the law below the sidecar needs no more than files that can be written. The other two parts fail after a run
with `--no-kick`. Such a run leaves `opencode.prev` to a later one, but the next freeze overwrites that copy with
a binary nobody has checked, and restores that binary if the health check fails. The copy that is overwritten may
be the last of the verified ones.

So what decides is the binary that the freeze keeps as `opencode.prev`. A run without a health check, or with one
that fails, has to keep a verified binary there, and a run whose health check fails has to keep the one being
served. Where files can be read and written this is also necessary (`upgrade_law_iff`).
-/

namespace Amicode.Upgrade

variable {β δ : Type*} (sha : β → δ)

/-- A binary whose health check passed after it was served. Binaries are told apart by their digests. -/
def Server.Verified (s : Server β δ) (file : Option β) : Prop := ∃ b ∈ file, sha b ∈ s.passed

/-- What holds between runs: once a binary has been verified, one of the two copies is verified, and the sidecar
is the digest of the frozen binary. -/
structure Kept (s : Server β δ) : Prop where
  verified : s.passed = [] ∨ s.Verified sha s.frozen ∨ s.Verified sha s.prev
  sidecar : s.sidecar = s.frozen.map sha

variable [DecidableEq δ]

instance (s : Server β δ) (file : Option β) : Decidable (s.Verified sha file) :=
  inferInstanceAs (Decidable (∃ b ∈ file, sha b ∈ s.passed))

instance (s : Server β δ) : Decidable (Kept sha s) :=
  decidable_of_iff ((s.passed = [] ∨ s.Verified sha s.frozen ∨ s.Verified sha s.prev)
    ∧ s.sidecar = s.frozen.map sha) ⟨fun h ↦ ⟨h.1, h.2⟩, fun h ↦ ⟨h.1, h.2⟩⟩

/-- The run polled the health of what it froze, and both polls failed. -/
def healthFailed (s : Server β δ) (r : Run β δ) : Bool :=
  (freezes sha s r).any fun artifact ↦
    match (replaceFrozen sha (preserve sha s r).1 r.freeze artifact).2 with
    | .threw => false
    | .unreadable => false
    | .sealed frozenSha => !r.noKick && !r.verified sha frozenSha

/-- What is asked of a run: what holds between runs holds after it, and a failed health check leaves the binary
that was served before. -/
structure UpgradeLaw (s : Server β δ) (r : Run β δ) : Prop where
  kept : Kept sha (upgradeStep sha s r)
  restores : healthFailed sha s r = true → (upgradeStep sha s r).frozen = r.serving

/-! ## The condition -/

/-- Each step of a replacement succeeds. -/
structure Replacing.Works (how : Replacing β δ) : Prop where
  copied : how.copied = .done
  executable : how.executable = true
  readable : how.readable = true
  sidecarWritten : how.sidecarWritten = .done

/-- The freeze can preserve the frozen binary and replace it, and a restore can put it back. -/
structure FilesWork (s : Server β δ) (r : Run β δ) (artifact : β) : Prop where
  preserves : s.frozen.isSome → r.currentReadable = true ∧ r.preserved = .done
  freezes : r.freeze.Works
  restores : s.frozen.isSome → r.verified sha (sha artifact) = false → r.restore.Works

/-- The frozen binary, which the freeze keeps as `opencode.prev`, or what is there already at a first freeze. -/
def Server.kept (s : Server β δ) : Option β := s.frozen.or s.prev

/-- A run that does not verify what it freezes keeps a verified binary, and its health check does not fail unless
the frozen binary was being served. -/
def Careful (s : Server β δ) (r : Run β δ) (artifact : β) : Prop :=
  if r.noKick then s.passed = [] ∨ s.Verified sha (some artifact) ∨ s.Verified sha s.kept
  else if r.verified sha (sha artifact) then True
  else s.frozen.or (some artifact) = r.serving
    ∧ (s.passed = [] ∨ s.Verified sha s.kept
      ∨ s.frozen.any fun current ↦ poll sha (sha current) r.restoreVerify)

variable {sha} {s : Server β δ} {r : Run β δ} {artifact : β}

/-! ## What each run leaves -/

omit [DecidableEq δ] in
theorem replaceFrozen_of_works {how : Replacing β δ} (h : how.Works) (s : Server β δ) (source : β) :
    replaceFrozen sha s how source
      = ({ s with frozen := some source, sidecar := some (sha source) }, .sealed (sha source)) := by
  simp [replaceFrozen, h.copied, h.executable, h.readable, h.sidecarWritten, Copied.onto]

theorem preserve_of_works (h : FilesWork sha s r artifact) :
    preserve sha s r = ({ s with prev := s.kept }, s.frozen.map sha) := by
  rcases s with ⟨frozen, prev, sidecar, passed⟩
  cases frozen with
  | none => simp [preserve, fileSha, Server.kept]
  | some current =>
    obtain ⟨hreadable, hdone⟩ := h.preserves rfl
    simp [preserve, fileSha, Server.kept, hreadable, hdone]

/-- The files as the freeze leaves them. -/
def Server.freeze (s : Server β δ) (sha : β → δ) (artifact : β) : Server β δ :=
  { s with frozen := some artifact, prev := s.kept, sidecar := some (sha artifact) }

theorem freezeAndVerify_of_works (h : FilesWork sha s r artifact) :
    freezeAndVerify sha s r artifact
      = if r.noKick then (s.freeze sha artifact, ⟨.upgraded, some .deferred⟩)
        else if r.verified sha (sha artifact) then
          passWith (s.freeze sha artifact) r (sha artifact) ⟨.upgraded, some .passed⟩
        else restorePrev sha (s.freeze sha artifact) r (s.frozen.map sha) := by
  rw [freezeAndVerify, preserve_of_works h]
  simp only [replaceFrozen_of_works h.freezes]
  rfl

theorem healthFailed_of_works (hfreezes : freezes sha s r = some artifact)
    (h : FilesWork sha s r artifact) :
    healthFailed sha s r = (!r.noKick && !r.verified sha (sha artifact)) := by
  simp [healthFailed, hfreezes, replaceFrozen_of_works h.freezes]

omit [DecidableEq δ] in
/-- A binary that has just passed is kept, whatever becomes of `opencode.prev`. -/
theorem kept_passWith (s : Server β δ) (r : Run β δ) {b : β} (receipt : UpgradeReceipt)
    (hfrozen : s.frozen = some b) (hsidecar : s.sidecar = some (sha b)) :
    Kept sha (passWith s r (sha b) receipt).1 := by
  rw [passWith]
  split_ifs with hremoved
  · exact ⟨.inr (.inl ⟨b, hfrozen, List.mem_cons_self⟩), by simp [hfrozen, hsidecar]⟩
  · exact ⟨.inr (.inl ⟨b, hfrozen, List.mem_cons_self⟩), by simp [hfrozen, hsidecar]⟩

omit [DecidableEq δ] in
@[simp] theorem passWith_frozen (s : Server β δ) (r : Run β δ) (digest : δ) (receipt : UpgradeReceipt) :
    (passWith s r digest receipt).1.frozen = s.frozen := by
  rw [passWith]
  split_ifs <;> rfl

omit [DecidableEq δ] in
theorem kept_freeze_iff :
    Kept sha (s.freeze sha artifact)
      ↔ s.passed = [] ∨ s.Verified sha (some artifact) ∨ s.Verified sha s.kept :=
  ⟨Kept.verified, fun h ↦ ⟨h, rfl⟩⟩

theorem restorePrev_none (s : Server β δ) (r : Run β δ) :
    restorePrev sha s r none = (s, ⟨.restoreFailed, some .failed⟩) := by
  rw [restorePrev]

theorem restorePrev_of_works {prev : β} (hprev : s.prev = some prev) (h : r.restore.Works) (prevSha : δ) :
    restorePrev sha s r (some prevSha)
      = if poll sha (sha prev) r.restoreVerify then
          passWith { s with frozen := some prev, sidecar := some (sha prev) } r (sha prev)
            ⟨.restored, some .failed⟩
        else ({ s with frozen := some prev, sidecar := some (sha prev) }, ⟨.restoreFailed, some .failed⟩) := by
  simp only [restorePrev, hprev, replaceFrozen_of_works h]

/-- After a failed health check the frozen binary of before is frozen again, if there was one. -/
theorem restored_of_works (h : FilesWork sha s r artifact)
    (hverified : r.verified sha (sha artifact) = false) (hkept : Kept sha s) :
    (restorePrev sha (s.freeze sha artifact) r (s.frozen.map sha)).1.frozen = s.frozen.or (some artifact)
      ∧ (Kept sha (restorePrev sha (s.freeze sha artifact) r (s.frozen.map sha)).1
        ↔ s.passed = [] ∨ s.Verified sha s.kept
          ∨ s.frozen.any fun current ↦ poll sha (sha current) r.restoreVerify) := by
  cases hfrozen : s.frozen with
  | none =>
    rw [Option.map_none, restorePrev_none]
    refine ⟨rfl, ?_⟩
    rw [kept_freeze_iff]
    -- a first freeze keeps the copy that is there, which the law before makes a verified one
    have hprev : s.passed = [] ∨ s.Verified sha s.kept := by
      rcases hkept.verified with h | ⟨b, hb, -⟩ | h
      · exact .inl h
      · simp [hfrozen] at hb
      · exact .inr (by rwa [Server.kept, hfrozen, Option.none_or])
    exact ⟨fun _ ↦ hprev.imp_right .inl, fun _ ↦ hprev.imp_right .inr⟩
  | some current =>
    have hprev : (s.freeze sha artifact).prev = some current := by simp [Server.freeze, Server.kept, hfrozen]
    have hworks := h.restores (by simp [hfrozen]) hverified
    rw [Option.map_some, restorePrev_of_works hprev hworks]
    have hkeptEq : s.kept = some current := by simp [Server.kept, hfrozen]
    split_ifs with hpoll
    · refine ⟨by simp, fun _ ↦ .inr (.inr hpoll), fun _ ↦ kept_passWith _ r _ rfl rfl⟩
    · refine ⟨rfl, ?_, ?_⟩
      · rintro ⟨hpassed | hfrozen' | hprev', -⟩
        · exact .inl hpassed
        · exact .inr (.inl (hkeptEq ▸ hfrozen'))
        · exact .inr (.inl hprev')
      · rintro (hpassed | hverified' | hpoll')
        · exact ⟨.inl hpassed, rfl⟩
        · exact ⟨.inr (.inr hverified'), rfl⟩
        · exact absurd hpoll' hpoll

/-! ## The law -/

theorem upgradeLaw_iff_careful (hkept : Kept sha s) (hfreezes : freezes sha s r = some artifact)
    (h : FilesWork sha s r artifact) : UpgradeLaw sha s r ↔ Careful sha s r artifact := by
  have hstep : upgradeStep sha s r = (freezeAndVerify sha s r artifact).1 := by
    rw [upgradeStep_eq, hfreezes, Option.elim_some]
  have hfailed := healthFailed_of_works hfreezes h
  rw [freezeAndVerify_of_works h] at hstep
  rw [Careful]
  cases hnoKick : r.noKick with
  | true =>
    have hstep : upgradeStep sha s r = s.freeze sha artifact := by rw [hstep, hnoKick, if_pos rfl]
    rw [if_pos rfl, ← kept_freeze_iff, ← hstep]
    exact ⟨UpgradeLaw.kept, fun hkept' ↦ ⟨hkept', fun hf ↦ by simp [hfailed, hnoKick] at hf⟩⟩
  | false =>
    rw [hnoKick, if_neg Bool.false_ne_true] at hstep
    rw [if_neg Bool.false_ne_true]
    cases hverified : r.verified sha (sha artifact) with
    | true =>
      rw [hverified, if_pos rfl] at hstep
      rw [if_pos rfl]
      refine iff_of_true ⟨?_, fun hf ↦ by simp [hfailed, hverified] at hf⟩ trivial
      rw [hstep]
      exact kept_passWith _ r _ rfl rfl
    | false =>
      rw [hverified, if_neg Bool.false_ne_true] at hstep
      rw [if_neg Bool.false_ne_true]
      obtain ⟨hrestored, hiff⟩ := restored_of_works h hverified hkept
      rw [← hstep] at hrestored hiff
      rw [← hiff, ← hrestored]
      exact ⟨fun hlaw ↦ ⟨hlaw.restores (by simp [hfailed, hnoKick, hverified]), hlaw.kept⟩,
        fun ⟨hserving, hkept'⟩ ↦ ⟨hkept', fun _ ↦ hserving⟩⟩

theorem upgradeLaw_of_freezes_eq_none (hkept : Kept sha s) (h : freezes sha s r = none) :
    UpgradeLaw sha s r := by
  refine ⟨?_, fun hf ↦ by simp [healthFailed, h] at hf⟩
  rwa [upgradeStep_eq, h, Option.elim_none]

variable (sha) in
def Working (s : Server β δ) (r : Run β δ) : Prop :=
  ∀ artifact ∈ freezes sha s r, FilesWork sha s r artifact

variable (sha) in
def CarefulRun (s : Server β δ) (r : Run β δ) : Prop :=
  ∀ artifact ∈ freezes sha s r, Careful sha s r artifact

theorem upgradeLaw_iff (hkept : Kept sha s) (hworking : Working sha s r) :
    UpgradeLaw sha s r ↔ CarefulRun sha s r := by
  cases hfreezes : freezes sha s r with
  | none => exact iff_of_true (upgradeLaw_of_freezes_eq_none hkept hfreezes) (by simp [CarefulRun, hfreezes])
  | some artifact =>
    rw [upgradeLaw_iff_careful hkept hfreezes (hworking artifact hfreezes)]
    simp [CarefulRun, hfreezes]

/-- A server that runs the binary it has verified. -/
def verifiedServer : Server ℕ ℕ := ⟨some 1, none, some 1, [1]⟩

/-- `amico upgrade server-binary --skip-build <artifact> --no-kick` while the server runs `serving`: nothing
fails. -/
def deferredRun (serving artifact : ℕ) : Run ℕ ℕ where
  locked := false
  frozenReadable := true
  versionRuns := true
  serving := some serving
  servingReadable := true
  upstream := some .lt
  preparation :=
    { repoFound := true, bunFound := true, fetched := true, cleanTree := true, refFound := true
      ancestor := true, headIsRef := true, fastForwarded := true, skipBuild := some (some artifact)
      buildOk := true, built := none, smokeOk := true, distsFailed := none }
  binDirMade := true
  currentReadable := true
  preserved := .done
  freeze := ⟨.done, true, true, .done⟩
  noKick := true
  verify := []
  verifyRetry := []
  restore := ⟨.done, true, true, .done⟩
  restoreVerify := []
  prevRemoved := true

end Amicode.Upgrade
