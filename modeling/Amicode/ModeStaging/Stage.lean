import Amicode.Foundation.JsText

/-!
# Staging the mode bundles

A pass copies the declared files of every mode from an extension into a staging root, each to a temporary file
and from there into place, and records the digests of what it has written in a receipt. Passes exclude each
other by a lock file at a fixed path: it is created exclusively and then written, with the process that owns it
and the time of its last heartbeat, which the pass renews after each file. A pass that finds the file reads it,
and removes it if it does not parse, its owner runs no more or its heartbeat is past its TTL (`mode_staging.ts`).

A process makes one pass after the other. Creating, writing, reading, removing and replacing the lock and
putting a file into place are steps of their own, at times of their own. A process may end at any of them, and
its identifier may be taken by another.
-/

namespace Amicode.ModeStaging

open JsText

/-! ## Bundles -/

/-- The names on the way from the root of the file system. -/
abbrev Path := List (List Char)

/-- `path.join` of an absolute path and a relative one. -/
def joinPath (base : Path) (path : List Char) : Path :=
  (splitOn ['/'] path).foldl (fun acc segment ↦
    if segment = [] ∨ segment = ['.'] then acc
    else if segment = ['.', '.'] then acc.dropLast
    else acc ++ [segment]) base

def resolvePath (base : Path) (path : List Char) : Path :=
  joinPath (if path.head? = some '/' then [] else base) path

/-- What `.` does not match in a pattern. -/
def isLineTerminator (c : Char) : Bool := ['\n', '\r', '\u2028', '\u2029'].contains c

/-- `replace(/^.*[\\/]/, "")`: what follows the last separator of the first line. -/
def baseOf (path : List Char) : List Char :=
  let line := path.takeWhile fun c ↦ !isLineTerminator c
  let rest := line.reverse.takeWhile fun c ↦ c != '/' && c != '\\'
  path.drop (line.length - rest.length)

structure ModeRole where
  name : List Char
  path : List Char
deriving DecidableEq

structure ModeManifest where
  card : List Char
  pack : List Char
  roles : List ModeRole
  handoff_seeds : List (List Char)
deriving DecidableEq

/-- What a pass is asked for: the modes of an extension, each with its manifest. -/
structure Plan where
  extensionRoot : Path
  manifests : List (List Char × ModeManifest)
  ttlMs : ℕ
deriving DecidableEq

/-- A file of a bundle. It has no source if its declared path leaves the extension. -/
structure Component where
  mode : List Char
  inBundle : List Char
  source : Option Path
deriving DecidableEq

def Plan.bundleSrc (plan : Plan) (mode : List Char) : Path := plan.extensionRoot ++ ["modes".toList, mode]

/-- A declared path, under the root of the extension. -/
def Plan.resolveUnder (plan : Plan) (mode rel : List Char) : Option Path :=
  let abs := resolvePath (plan.bundleSrc mode) rel
  if plan.extensionRoot.isPrefixOf abs then some abs else none

/-- A file that has the same name in the bundle of the extension. -/
def Plan.sameName (plan : Plan) (mode name : List Char) : Component :=
  ⟨mode, name, some (joinPath (plan.bundleSrc mode) name)⟩

/-- The files of a mode in the order they are written, the manifest last. -/
def Plan.bundle (plan : Plan) (mode : List Char) (manifest : ModeManifest) : List Component :=
  [plan.sameName mode manifest.card, plan.sameName mode manifest.pack] ++
    manifest.roles.map (fun role ↦
      ⟨mode, "roles/".toList ++ role.name ++ ".md".toList, plan.resolveUnder mode role.path⟩) ++
    manifest.handoff_seeds.map (fun schema ↦
      ⟨mode, "handoff-seeds/".toList ++ baseOf schema, plan.resolveUnder mode schema⟩) ++
    [plan.sameName mode "mode.toml".toList]

inductive Task
  | component (c : Component)
  /-- The generated region of a card that has been staged is the one of this build. -/
  | parity
deriving DecidableEq

def Task.component? : Task → Option Component
  | .component c => some c
  | .parity => none

def Plan.tasks (plan : Plan) : List Task :=
  plan.manifests.flatMap fun m ↦ (plan.bundle m.1 m.2).map .component ++ [.parity]

/-! ## The lock -/

structure StagingLock where
  owner_pid : ℕ
  /-- When the process of the owner began, where that can be read. -/
  owner_started : Option ℕ
  liveness_token : ℕ
  acquired_at : ℕ
  /-- None if it is no date. -/
  heartbeat_at : Option ℕ
  ttl_ms : ℕ
deriving DecidableEq

structure LockFile (W : Type*) where
  /-- The process that made it; none of an earlier run is left. -/
  holder : Option W
  /-- None if the file does not parse. -/
  lock : Option StagingLock

inductive StagingLockVerdict
  | live
  | stale
deriving DecidableEq

inductive StealReason
  | unparseable
  | ownerDead
  | reusedPid
  | pastTtl
deriving DecidableEq

structure StolenLock where
  source : Option StagingLock
  reason : StealReason
deriving DecidableEq

/-! ## Passes -/

structure StagedFile where
  mode : List Char
  path : List Char
  sha256 : String
deriving DecidableEq

structure Receipt where
  staged_at : ℕ
  files : List StagedFile
  steals : List StolenLock
deriving DecidableEq

inductive Content
  | component (bytes : List UInt8)
  | receipt (receipt : Receipt)
deriving DecidableEq

/-- A pass on its way to the lock. -/
structure Quest where
  plan : Plan
  attempt : ℕ
  steals : List StolenLock
deriving DecidableEq

def Quest.again (q : Quest) : Quest := { q with attempt := q.attempt + 1 }

structure Pass where
  plan : Plan
  token : ℕ
  /-- The last heartbeat it has given. -/
  beat : ℕ
  todo : List Task
  files : List StagedFile
  steals : List StolenLock
deriving DecidableEq

inductive Phase
  | idle
  | asking (q : Quest)
  | opening (q : Quest) (lock : StagingLock)
  /-- It has created the file, and has not written it. -/
  | created (q : Quest) (lock : StagingLock)
  /-- The file was there already. -/
  | contended (q : Quest)
  | judging (q : Quest) (held : Option StagingLock)
  | stealing (q : Quest)
  | sweeping (q : Quest) (lock : StagingLock)
  | staging (pass : Pass)
  | beating (pass : Pass)
  /-- It has read a lock of its process. -/
  | stamping (pass : Pass) (lock : StagingLock)
  | refreshing (pass : Pass) (lock : StagingLock) (now : ℕ)
  | releasing (pass : Pass) (staged : Bool)
  /-- It has read its own lock. -/
  | unlinking (pass : Pass) (staged : Bool)
  | dead
deriving DecidableEq

def Phase.pass? : Phase → Option Pass
  | .staging pass | .beating pass | .stamping pass _ | .refreshing pass _ _ | .releasing pass _ |
    .unlinking pass _ => some pass
  | _ => none

/-- For how long, and from when, a pass keeps the lock without another heartbeat. -/
structure Lease where
  beat : ℕ
  ttl : ℕ
deriving DecidableEq

def Phase.lease? : Phase → Option Lease
  | .created q lock | .sweeping q lock => some ⟨lock.acquired_at, q.plan.ttlMs⟩
  | phase => phase.pass?.map fun pass ↦ ⟨pass.beat, pass.plan.ttlMs⟩

/-- It is between creating the lock file and releasing it. -/
def Phase.isInside (phase : Phase) : Bool := phase.lease?.isSome

/-- A pass that returned `staged`, with what the staging root had then. -/
structure Returned where
  plan : Plan
  files : List StagedFile
  stolen : Bool
  deployed : Path → Option Content

structure Host (W : Type*) where
  modesDir : Path
  pid : W → ℕ
  /-- When a process began. -/
  started : W → ℕ
  sha256hex : List UInt8 → String

structure StagingState (W : Type*) where
  clock : ℕ
  slot : Option (LockFile W)
  /-- The identifiers in use, with when their processes began. -/
  running : ℕ → Option ℕ
  /-- The files of the extensions. -/
  source : Path → Option (List UInt8)
  deployed : Path → Option Content
  phases : W → Phase
  /-- The lock of the pass was removed or replaced by another one. -/
  stolen : W → Bool
  returns : List Returned
  next : ℕ

/-- No pass has begun. An earlier run may have left a lock and files. -/
def StagingState.start (W : Type*) (left : Option (Option StagingLock)) (clock : ℕ) (running : ℕ → Option ℕ)
    (source : Path → Option (List UInt8)) (deployed : Path → Option Content) (next : ℕ) : StagingState W where
  clock
  slot := left.map (⟨none, ·⟩)
  running
  source
  deployed
  phases _ := .idle
  stolen _ := false
  returns := []
  next

inductive StagingOp (W : Type*)
  | tick (ms : ℕ)
  /-- A process begins a pass; the modes of the extension have been validated. -/
  | start (w : W) (plan : Plan)
  /-- A process takes its next step; what it asks of its surroundings may fail. -/
  | step (w : W) (fails : Bool)
  | exit (pid : ℕ)
  | spawn (pid started : ℕ)
  /-- A file of an extension changes. -/
  | edit (path : Path) (bytes : Option (List UInt8))

section Reading

variable {W : Type*}

def StagingState.holder (s : StagingState W) : Option W := s.slot.bind LockFile.holder

def pidAlive (s : StagingState W) (pid : ℕ) : Bool := pid != 0 && (s.running pid).isSome

def processStartTimeToken (s : StagingState W) (fails : Bool) (pid : ℕ) : Option ℕ :=
  if fails then none else s.running pid

/-- The identifier is that of another process by now. -/
def startMismatch (s : StagingState W) (fails : Bool) (lock : StagingLock) : Bool :=
  lock.owner_started.any fun started ↦ (processStartTimeToken s fails lock.owner_pid).any (· != started)

def stagingLockVerdict (s : StagingState W) (fails : Bool) : Option StagingLock → StagingLockVerdict
  | none => .stale
  | some lock =>
    if !pidAlive s lock.owner_pid then .stale
    else if startMismatch s fails lock then .stale
    else match lock.heartbeat_at with
      | none => .stale
      | some heartbeat => if lock.ttl_ms < s.clock - heartbeat then .stale else .live

def stealReason (s : StagingState W) (fails : Bool) : Option StagingLock → StealReason
  | none => .unparseable
  | some lock =>
    if !pidAlive s lock.owner_pid then .ownerDead else if startMismatch s fails lock then .reusedPid else .pastTtl

/-- The lock file as it is read; none if there is none or it cannot be read. -/
def readStagingLock (s : StagingState W) (fails : Bool) : Option (Option StagingLock) :=
  if fails then none else s.slot.map LockFile.lock

def Host.lockPath (h : Host W) : Path := h.modesDir ++ [".staging-lock.json".toList]

def Host.receiptPath (h : Host W) : Path := h.modesDir ++ [".deploy-receipt.json".toList]

/-- Where a file of a bundle is deployed. -/
def Host.destination (h : Host W) (mode inBundle : List Char) : Path := joinPath (h.modesDir ++ [mode]) inBundle

/-- A temporary file, by its name: `/\.tmp-\d+$/`. -/
def isDebris (name : List Char) : Bool :=
  let rest := name.reverse.dropWhile isDigit
  rest.length < name.length && ".tmp-".toList.reverse.isPrefixOf rest

end Reading

/-! ## Steps -/

section Steps

variable {W : Type*} [DecidableEq W]

def StagingState.setPhase (s : StagingState W) (w : W) (phase : Phase) : StagingState W :=
  { s with phases := Function.update s.phases w phase }

/-- A process removes or replaces the lock file, whoever made it. -/
def StagingState.putLock (s : StagingState W) (w : W) (file : Option (LockFile W)) : StagingState W :=
  { s with
    slot := file
    stolen := fun v ↦ s.stolen v || (v != w && s.holder = some v) }

def StagingState.createLock (s : StagingState W) (w : W) : StagingState W :=
  { s with
    slot := some ⟨some w, none⟩
    stolen := Function.update s.stolen w false }

/-- Write to the file one has created, which need not be at the path any more. -/
def StagingState.writeLock (s : StagingState W) (w : W) (lock : StagingLock) : StagingState W :=
  { s with slot := s.slot.map fun file ↦ if file.holder = some w then { file with lock := some lock } else file }

def StagingState.deploy (s : StagingState W) (path : Path) (content : Content) : StagingState W :=
  { s with deployed := Function.update s.deployed path (some content) }

/-- Rename a component into place. -/
def StagingState.place (h : Host W) (s : StagingState W) (w : W) (path : Path) (bytes : List UInt8) :
    StagingState W :=
  if path = h.lockPath then s.putLock w (some ⟨none, none⟩) else s.deploy path (.component bytes)

/-- Remove what looks like a temporary file under the staging root. -/
def StagingState.sweepTmpDebris (h : Host W) (s : StagingState W) : StagingState W :=
  { s with
    deployed := fun path ↦
      if h.modesDir.isPrefixOf path && path.getLast?.any isDebris then none else s.deployed path }

/-- A pass returns, unless it throws what made it fail. -/
def StagingState.finish (s : StagingState W) (w : W) (pass : Pass) (staged : Bool) : StagingState W :=
  let returned : Returned := ⟨pass.plan, pass.files, s.stolen w, s.deployed⟩
  { s with returns := s.returns ++ if staged then [returned] else [] }.setPhase w .idle

/-- The next file of a pass, or the receipt after the last one. -/
def stageNext (h : Host W) (s : StagingState W) (w : W) (pass : Pass) (fails : Bool) : StagingState W :=
  match pass.todo with
  | .component c :: todo =>
    match if fails then none else c.source.bind s.source with
    | none => s.setPhase w (.releasing pass false)
    | some bytes =>
      (s.place h w (h.destination c.mode c.inBundle) bytes).setPhase w
        (.beating { pass with todo, files := pass.files ++ [⟨c.mode, c.inBundle, h.sha256hex bytes⟩] })
  | .parity :: todo =>
    if fails then s.setPhase w (.releasing pass false) else s.setPhase w (.staging { pass with todo })
  | [] =>
    if fails then s.setPhase w (.releasing pass false)
    else (s.deploy h.receiptPath (.receipt ⟨s.clock, pass.files, pass.steals⟩)).setPhase w (.releasing pass true)

/-- The next step of a process. -/
def advance (h : Host W) (s : StagingState W) (w : W) (fails : Bool) : StagingState W :=
  match s.phases w with
  | .asking q =>
    if q.attempt < 3 then
      { s with next := s.next + 1 }.setPhase w (.opening q
        { owner_pid := h.pid w
          owner_started := processStartTimeToken s fails (h.pid w)
          liveness_token := s.next
          acquired_at := s.clock
          heartbeat_at := some s.clock
          ttl_ms := q.plan.ttlMs })
    else s.setPhase w .idle
  | .opening q lock =>
    match s.slot with
    | some _ => s.setPhase w (.contended q)
    | none => if fails then s.setPhase w .idle else (s.createLock w).setPhase w (.created q lock)
  | .created q lock =>
    if fails then s.setPhase w .idle else (s.writeLock w lock).setPhase w (.sweeping q lock)
  | .contended q =>
    match readStagingLock s fails with
    | none => s.setPhase w (.asking q.again)
    | some held => s.setPhase w (.judging q held)
  | .judging q held =>
    match stagingLockVerdict s fails held with
    | .live => s.setPhase w .idle
    | .stale => s.setPhase w (.stealing { q with steals := q.steals ++ [⟨held, stealReason s fails held⟩] })
  | .stealing q =>
    if fails then s.setPhase w .idle else (s.putLock w none).setPhase w (.asking q.again)
  | .sweeping q lock =>
    -- outside the part of the code that releases the lock in the end
    if fails then s.setPhase w .idle
    else (s.sweepTmpDebris h).setPhase w
      (.staging
        { plan := q.plan
          token := lock.liveness_token
          beat := lock.acquired_at
          todo := q.plan.tasks
          files := []
          steals := q.steals })
  | .staging pass => stageNext h s w pass fails
  | .beating pass =>
    match (readStagingLock s fails).join with
    | some lock =>
      if lock.owner_pid = h.pid w then s.setPhase w (.stamping pass lock) else s.setPhase w (.staging pass)
    | none => s.setPhase w (.staging pass)
  | .stamping pass lock => s.setPhase w (.refreshing pass lock s.clock)
  | .refreshing pass lock now =>
    if fails then s.setPhase w (.releasing pass false)
    else (s.putLock w (some ⟨some w, some { lock with heartbeat_at := some now }⟩)).setPhase w
      (.staging { pass with beat := now })
  | .releasing pass staged =>
    if (readStagingLock s fails).join.any fun lock ↦ lock.liveness_token = pass.token then
      s.setPhase w (.unlinking pass staged)
    else s.finish w pass staged
  | .unlinking pass staged => (if fails then s else s.putLock w none).finish w pass staged
  | .idle | .dead => s

def stagingStep (h : Host W) (s : StagingState W) : StagingOp W → StagingState W
  | .tick ms => { s with clock := s.clock + ms }
  | .start w plan =>
    if s.running (h.pid w) = some (h.started w) ∧ s.phases w = .idle then s.setPhase w (.asking ⟨plan, 0, []⟩) else s
  | .step w fails => advance h s w fails
  | .exit pid =>
    { s with
      running := Function.update s.running pid none
      phases := fun w ↦ if h.pid w = pid ∧ s.running pid = some (h.started w) then .dead else s.phases w }
  | .spawn pid started => { s with running := Function.update s.running pid (some started) }
  | .edit path bytes => { s with source := Function.update s.source path bytes }

end Steps

end Amicode.ModeStaging
