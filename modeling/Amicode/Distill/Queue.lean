import Mathlib.Data.List.Sort
import Amicode.Foundation.InsertionMap
import Amicode.Foundation.JsText

/-!
# The queue of distill jobs

Jobs are files of a directory, each named by the time, a counter of the process that enqueued it and its kind.
One drainer at a time takes them in the order of their names. It takes the lock by creating a directory, and then
writes into it who it is and when; it hands each job to a handler and removes its file when the handler resolves,
or sets it aside when it does not; it removes the directory when it finds no more jobs, looks once more, and goes
on if there are jobs again and the lock is free. Who finds the directory reads its owner, and moves it aside if
that is older than the stale window and its process runs no more (`distill_queue.ts`).

A party is one run of the loop; those of a process share its identifier and its counter. Creating the directory,
writing, reading and judging its owner, moving it aside, listing, reading a job, calling its handler, removing or
setting aside its file and removing the directory are steps of their own. A process may end at any of them.
-/

namespace Amicode.Distill

open JsText

def STALE_LOCK_MS : ℕ := 900000

inductive Kind
  | run
  | sweep
  | onboarding
  | batch
deriving DecidableEq

def Kind.text : Kind → List Char
  | .run => "run".toList
  | .sweep => "sweep".toList
  | .onboarding => "onboarding".toList
  | .batch => "batch".toList

def jobName (ms counter : ℕ) (kind : Kind) : List Char :=
  decimal ms ++ '-' :: (padStart 4 '0' (decimal counter) ++ '-' :: (kind.text ++ ".json".toList))

/-- What a job file holds. The number tells the jobs apart. -/
structure Job where
  id : ℕ
  kind : Kind
  /-- The file parses. -/
  whole : Bool
deriving DecidableEq

structure Owner where
  pid : ℕ
  ts : ℕ
deriving DecidableEq

structure LockDir (W : Type*) where
  /-- The party that created it. -/
  holder : W
  owner : Option Owner

/-- For what a party takes the lock. -/
inductive Claim
  | first
  /-- It has moved a stale lock aside. -/
  | reclaim
  /-- It has found jobs after it had released the lock. -/
  | again
deriving DecidableEq

inductive Phase
  | idle
  | claiming (c : Claim)
  /-- It has created the directory. -/
  | owning
  /-- The directory was there already. -/
  | contended
  | looking (now : ℕ)
  /-- The owner it has read is older than the stale window. -/
  | judging (owner : Owner)
  /-- It has decided to move the directory aside. -/
  | reclaiming
  | checking
  | listing
  | draining (files : List (List Char))
  /-- It has found a file that it cannot read. -/
  | discarding (file : List Char) (rest : List (List Char))
  | handing (file : List Char) (job : Job) (rest : List (List Char))
  | handling (file : List Char) (rest : List (List Char))
  | removing (file : List Char) (rest : List (List Char))
  | failing (file : List Char) (rest : List (List Char))
  | releasing
  | rechecking
  /-- It has thrown while it had the lock. -/
  | thrown
  | dead
deriving DecidableEq

/-- It goes through the jobs, or has given up doing so. -/
def Phase.isDraining : Phase → Bool
  | .checking | .listing | .draining _ | .discarding _ _ | .handing _ _ _ | .handling _ _ | .removing _ _ |
    .failing _ _ | .thrown => true
  | _ => false

/-- It is between taking the lock and removing it. -/
def Phase.isInside : Phase → Bool
  | .owning | .releasing => true
  | phase => phase.isDraining

structure Enqueued where
  pid : ℕ
  ms : ℕ
  counter : ℕ
  kind : Kind
deriving DecidableEq

def Enqueued.name (e : Enqueued) : List Char := jobName e.ms e.counter e.kind

structure Handed (W : Type*) where
  job : ℕ
  drainer : W

structure DistillState (W : Type*) where
  clock : ℕ
  lock : Option (LockDir W)
  /-- The files of the queue that have not been set aside. -/
  queue : InsertionMap (List Char) Job
  enqueueCounter : ℕ → ℕ
  isPidAlive : ℕ → Bool
  phases : W → Phase
  enqueued : List Enqueued
  /-- The names of the files that another enqueue has written over. -/
  overwritten : List (List Char)
  /-- The calls of handlers, in this order. -/
  handed : List (Handed W)

/-- Nothing has happened yet. -/
def DistillState.start (W : Type*) (clock : ℕ) : DistillState W where
  clock
  lock := none
  queue := ∅
  enqueueCounter _ := 0
  isPidAlive _ := true
  phases _ := .idle
  enqueued := []
  overwritten := []
  handed := []

inductive DistillOp (W : Type*)
  | tick (ms : ℕ)
  /-- The process of a party enqueues a job, and may not write it to the end. -/
  | enqueue (w : W) (kind : Kind) (whole : Bool)
  /-- A party begins to drain. -/
  | start (w : W)
  /-- A party takes its next step; what it does to the file system, or the handler, may fail. -/
  | step (w : W) (fails : Bool)
  /-- A process ends. -/
  | exit (pid : ℕ)
  /-- Another program takes the identifier. -/
  | spawn (pid : ℕ)

variable {W : Type*}

/-- The names of the jobs in order. -/
def listJobs (s : DistillState W) (fails : Bool) : List (List Char) :=
  if fails then [] else s.queue.keys.insertionSort (le · ·)

def queueIsEmpty (s : DistillState W) (fails : Bool) : Bool := (listJobs s fails).isEmpty

def enqueueJob (pid : W → ℕ) (s : DistillState W) (w : W) (kind : Kind) (whole : Bool) : DistillState W :=
  let e : Enqueued := ⟨pid w, s.clock, s.enqueueCounter (pid w), kind⟩
  { s with
    queue := s.queue.set e.name ⟨s.enqueued.length, kind, whole⟩
    enqueueCounter := Function.update s.enqueueCounter (pid w) (e.counter + 1)
    enqueued := s.enqueued ++ [e]
    overwritten := s.overwritten ++ if s.queue.contains e.name then [e.name] else [] }

/-- Where a party is that did not get the lock. -/
def Claim.lost : Claim → Phase
  | .first => .contended
  | .reclaim | .again => .idle

variable [DecidableEq W]

def DistillState.setPhase (s : DistillState W) (w : W) (phase : Phase) : DistillState W :=
  { s with phases := Function.update s.phases w phase }

/-- Remove a job file or rename it to what is not listed. -/
def DistillState.drop (s : DistillState W) (file : List Char) : DistillState W :=
  { s with queue := s.queue.erase file }

def DistillState.hand (s : DistillState W) (w : W) (job : Job) : DistillState W :=
  { s with handed := s.handed ++ [⟨job.id, w⟩] }

/-- The next step of a party. -/
def advance (pid : W → ℕ) (s : DistillState W) (w : W) (fails : Bool) : DistillState W :=
  match s.phases w with
  | .claiming c =>
    if fails || s.lock.isSome then s.setPhase w c.lost else { s with lock := some ⟨w, none⟩ }.setPhase w .owning
  | .owning =>
    match if fails then none else s.lock with
    | none => s.setPhase w .thrown
    | some lock => { s with lock := some { lock with owner := some ⟨pid w, s.clock⟩ } }.setPhase w .checking
  | .contended => s.setPhase w (.looking s.clock)
  | .looking now =>
    match if fails then none else s.lock.bind LockDir.owner with
    | none => s.setPhase w .idle
    | some owner => s.setPhase w (if now - owner.ts ≤ STALE_LOCK_MS then .idle else .judging owner)
  | .judging owner => s.setPhase w (if s.isPidAlive owner.pid then .idle else .reclaiming)
  | .reclaiming =>
    if fails || s.lock.isNone then s.setPhase w .idle else { s with lock := none }.setPhase w (.claiming .reclaim)
  | .checking => s.setPhase w (if queueIsEmpty s fails then .releasing else .listing)
  | .listing => s.setPhase w (.draining (listJobs s fails))
  | .draining [] => s.setPhase w .checking
  | .draining (file :: rest) =>
    match if fails then none else (s.queue.get? file).filter Job.whole with
    | none => s.setPhase w (.discarding file rest)
    | some job => s.setPhase w (.handing file job rest)
  | .discarding file rest =>
    if fails || !s.queue.contains file then s.setPhase w .thrown else (s.drop file).setPhase w (.draining rest)
  | .handing file job rest => (s.hand w job).setPhase w (.handling file rest)
  | .handling file rest => s.setPhase w (if fails then .failing file rest else .removing file rest)
  | .removing file rest =>
    if fails || !s.queue.contains file then s.setPhase w (.failing file rest)
    else (s.drop file).setPhase w (.draining rest)
  | .failing file rest =>
    if fails then s.setPhase w (.draining rest) else (s.drop file).setPhase w (.draining rest)
  | .releasing => if fails then s.setPhase w .rechecking else { s with lock := none }.setPhase w .rechecking
  | .rechecking => s.setPhase w (if queueIsEmpty s fails then .idle else .claiming .again)
  | .idle | .thrown | .dead => s

def distillStep (pid : W → ℕ) (s : DistillState W) : DistillOp W → DistillState W
  | .tick ms => { s with clock := s.clock + ms }
  | .enqueue w kind whole =>
    match s.phases w with
    | .dead => s
    | _ => enqueueJob pid s w kind whole
  | .start w =>
    match s.phases w with
    | .idle => s.setPhase w (.claiming .first)
    | _ => s
  | .step w fails => advance pid s w fails
  | .exit p =>
    { s with
      isPidAlive := Function.update s.isPidAlive p false
      phases := fun w ↦ if pid w = p then .dead else s.phases w }
  | .spawn p => { s with isPidAlive := Function.update s.isPidAlive p true }

end Amicode.Distill
