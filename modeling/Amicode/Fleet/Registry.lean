import Mathlib.Data.List.Infix
import Mathlib.Data.List.Sort
import Mathlib.Data.String.Basic
import Amicode.Foundation.InsertionMap

/-!
# The fleet registry

The registry has one record for each session, in a file of its own (`fleet_registry.ts`). What may become of a
record is a table of states and events; four verbs write records (`fleet_verb.ts`).

* `launch` reads the file of a session and creates the record if there is none.
* `finish` reads the record and, for its holder, settles or crashes it.
* A kill applies a stop, a cancel or a respool to the record it has read. It is the session's own harness that
  does so, by the same table.
* `sweep` lists and reads all records, and then probes the holder of each that it may mark, and marks it crashed
  if the holder is gone.

A record is read in one step and written in one (a temporary file is renamed over it), and each probe is one.
Any number of processes take such steps in any order, while others start and exit. A record is written where its
own `session_id` says. The profile and the tokens of a record, which no verb here looks at, and the wording of
refusals are left out.
-/

namespace Amicode.Fleet

/-! ## States and events -/

inductive FleetState
  | spooling
  | running
  | blocked
  | settled
  | crashed
  | killed
deriving DecidableEq

inductive FleetEvent
  | inject
  | cancel
  | crash
  | block
  | settle
  | unblock
  | resume
  | stop
  | respool
deriving DecidableEq

def isTerminal (state : FleetState) : Bool := state = .killed

structure Edge where
  target : FleetState
  stampsRespooledTo : Bool

/-- The transition table. What is not in it is rejected. -/
def step : FleetState → FleetEvent → Option Edge
  | .spooling, .inject => some ⟨.running, false⟩
  | .spooling, .cancel => some ⟨.killed, false⟩
  | .spooling, .crash => some ⟨.crashed, false⟩
  | .running, .block => some ⟨.blocked, false⟩
  | .running, .settle => some ⟨.settled, false⟩
  | .running, .crash => some ⟨.crashed, false⟩
  | .running, .stop => some ⟨.killed, false⟩
  | .running, .respool => some ⟨.killed, true⟩
  | .blocked, .unblock => some ⟨.running, false⟩
  | .blocked, .stop => some ⟨.killed, false⟩
  | .blocked, .respool => some ⟨.killed, true⟩
  | .settled, .resume => some ⟨.running, false⟩
  | .settled, .stop => some ⟨.killed, false⟩
  | .settled, .respool => some ⟨.killed, true⟩
  | .crashed, .resume => some ⟨.running, false⟩
  | .crashed, .stop => some ⟨.killed, false⟩
  | .crashed, .respool => some ⟨.killed, true⟩
  | _, _ => none

/-! ## Records -/

structure FleetRecord where
  session_id : String
  state : FleetState
  current_step : String
  /-- The time in ms, if the record has one that can be read. -/
  started : Option ℤ
  runtime : ℤ
  respooled_to : String
  pid : ℕ
  host : String
deriving DecidableEq

/-- A file name stem: a letter or digit, then letters, digits, dots, underscores and dashes, and no two dots in
a row. -/
def isValidSessionId (id : String) : Bool :=
  match id.toList with
  | [] => false
  | first :: rest =>
    (first :: rest).length ≤ 128 && first.isAlphanum
      && rest.all (fun ch ↦ ch.isAlphanum || ch = '.' || ch = '_' || ch = '-')
      && !decide (['.', '.'] <:+: first :: rest)

inductive Refusal
  | invalidSession
  | pidRequired
  | alreadyExists
  | missing
  | unreadable
  | noEdge
  | unknownHolder
  | otherHolder
  | respoolTarget
deriving DecidableEq

/-- The record after an event; the pid, the step and the runtime may be given anew. -/
def applyEvent (rec : FleetRecord) (event : FleetEvent) (respooledTo : String) (pid : Option ℕ)
    (currentStep : Option String) (runtime : Option ℤ) : Except Refusal FleetRecord :=
  match step rec.state event with
  | none => .error .noEdge
  | some edge =>
    let stamped :=
      if edge.stampsRespooledTo then
        isValidSessionId respooledTo && respooledTo ≠ rec.session_id
      else respooledTo = ""
    if !stamped then .error .respoolTarget
    else .ok
      { rec with
        state := edge.target
        pid := if isTerminal edge.target || edge.target = .crashed then 0 else pid.getD rec.pid
        current_step := currentStep.getD rec.current_step
        runtime := runtime.getD rec.runtime
        respooled_to := if edge.stampsRespooledTo then respooledTo else rec.respooled_to }

/-- A file of the registry: its record, or nothing that can be read as one. -/
abbrev RecordFile := Option FleetRecord

def readRecord (file : Option RecordFile) : Except Refusal FleetRecord :=
  match file with
  | none => .error .missing
  | some none => .error .unreadable
  | some (some rec) => .ok rec

/-! ## What the verbs decide -/

/-- The record that `launch` creates, if there is nothing at its path. -/
def fleetLaunch (file : Option RecordFile) (session : String) (pid : ℕ) (host : String) (now : ℕ) :
    Except Refusal FleetRecord :=
  if !isValidSessionId session then .error .invalidSession
  else if pid = 0 then .error .pidRequired
  else if file.isSome then .error .alreadyExists
  else .ok
    { session_id := session, state := .running, current_step := "", started := some now, runtime := 0
      respooled_to := "", pid, host }

inductive Outcome
  | settled
  | crashed
deriving DecidableEq

def Outcome.event : Outcome → FleetEvent
  | .settled => .settle
  | .crashed => .crash

/-- The seconds since the record started, rounded, and no less than it has already. -/
def elapsed (rec : FleetRecord) (now : ℕ) : ℤ :=
  match rec.started with
  | none => rec.runtime
  | some started => max rec.runtime ((now - started + 500) / 1000)

def fleetFinish (file : Option RecordFile) (session : String) (outcome : Outcome) (pid : ℕ)
    (currentStep : Option String) (now : ℕ) : Except Refusal FleetRecord :=
  if !isValidSessionId session then .error .invalidSession
  else if pid = 0 then .error .pidRequired
  else do
    let rec ← readRecord file
    if (step rec.state outcome.event).isNone then .error .noEdge
    else if rec.pid = 0 then .error .unknownHolder
    else if rec.pid ≠ pid then .error .otherHolder
    else applyEvent rec outcome.event "" (some 0) currentStep (some (elapsed rec now))

inductive Kill
  | cancel
  | stop
  | respool (successor : String)
deriving DecidableEq

def killRecord (file : Option RecordFile) (kill : Kill) : Except Refusal FleetRecord := do
  let rec ← readRecord file
  match kill with
  | .cancel => applyEvent rec .cancel "" none none none
  | .stop => applyEvent rec .stop "" none none none
  | .respool successor => applyEvent rec .respool successor none none none

inductive SweepVerdict
  | sweep
  | terminal
  | noCrashEdge
  | foreignHost
  | pidUnknown
  | alive
deriving DecidableEq

def sweepVerdict (rec : FleetRecord) (localHost : String) (pidAlive : Bool) : SweepVerdict :=
  if isTerminal rec.state then .terminal
  else if (step rec.state .crash).isNone then .noCrashEdge
  else if rec.host ≠ "" && localHost ≠ "" && rec.host ≠ localHost then .foreignHost
  else if rec.pid = 0 then .pidUnknown
  else if pidAlive then .alive
  else .sweep

/-- Whether the verdict needs to know if the holder is alive. -/
def needsProbe (rec : FleetRecord) (localHost : String) : Bool :=
  !isTerminal rec.state && (step rec.state .crash).isSome && rec.pid ≠ 0
    && (rec.host = "" || rec.host = localHost)

/-! ## The processes -/

inductive Command
  | launch (session : String) (pid : ℕ)
  | finish (session : String) (outcome : Outcome) (pid : ℕ) (currentStep : Option String)
  | kill (session : String) (kill : Kill)
  | sweep (dryRun : Bool)

inductive Writer
  | launch
  | finish
  | kill
  | sweep
deriving DecidableEq

/-- Where a process is. -/
inductive Phase
  | idle
  | called (command : Command)
  /-- A sweep is reading the records of these sessions, and has read some. -/
  | scanning (dryRun : Bool) (sessions : List String) (records : List FleetRecord)
  /-- A sweep has these records left to judge. -/
  | judging (dryRun : Bool) (records : List FleetRecord)
  | probed (dryRun : Bool) (rec : FleetRecord) (alive : Bool) (rest : List FleetRecord)
  /-- A record is to be written; a sweep has more to judge then. -/
  | writing (writer : Writer) (rec : FleetRecord) (rest : List FleetRecord)

/-- A record that was written, and what was at its path. -/
structure Write where
  writer : Writer
  session : String
  found : Option RecordFile
  wrote : FleetState

structure FleetWorld (P : Type*) where
  clock : ℕ
  /-- The processes that are alive on a host. -/
  alive : String → ℕ → Bool
  registry : InsertionMap String RecordFile
  phases : P → Phase
  log : List Write

inductive FleetOp (P : Type*)
  | call (p : P) (command : Command)
  /-- A process takes its next step. -/
  | step (p : P)
  | tick (ms : ℕ)
  | started (host : String) (pid : ℕ)
  | exited (host : String) (pid : ℕ)

variable {P : Type*} [DecidableEq P]

def FleetWorld.setPhase (w : FleetWorld P) (p : P) (phase : Phase) : FleetWorld P :=
  { w with phases := Function.update w.phases p phase }

/-- The record, or the refusal, of a verb that reads one file and writes one. -/
def FleetWorld.proceed (w : FleetWorld P) (p : P) (writer : Writer) (outcome : Except Refusal FleetRecord) :
    FleetWorld P :=
  match outcome with
  | .error _ => w.setPhase p .idle
  | .ok rec => w.setPhase p (.writing writer rec [])

def listSessionIds (registry : InsertionMap String RecordFile) : List String :=
  (registry.keys.filter isValidSessionId).insertionSort (· ≤ ·)

def writeRecord (w : FleetWorld P) (writer : Writer) (rec : FleetRecord) : FleetWorld P :=
  { w with
    registry := w.registry.set rec.session_id (some rec)
    log := w.log ++ [⟨writer, rec.session_id, w.registry.get? rec.session_id, rec.state⟩] }

def isPidAlive (w : FleetWorld P) (host : String) (pid : ℕ) : Bool := pid ≠ 0 && w.alive host pid

/-- A sweep has the verdict on a record, and goes on to write it or to the next. -/
def afterVerdict (localHost : String) (dryRun : Bool) (rec : FleetRecord) (alive : Bool) (rest : List FleetRecord) :
    Phase :=
  match sweepVerdict rec localHost alive with
  | .sweep =>
    match applyEvent rec .crash "" none none none with
    | .error _ => .judging dryRun rest
    | .ok crashed => if dryRun then .judging dryRun rest else .writing .sweep crashed rest
  | _ => .judging dryRun rest

def FleetWorld.advance (hostOf : P → String) (w : FleetWorld P) (p : P) : FleetWorld P :=
  match w.phases p with
  | .idle => w
  | .called (.launch session pid) =>
    w.proceed p .launch (fleetLaunch (w.registry.get? session) session pid (hostOf p) w.clock)
  | .called (.finish session outcome pid currentStep) =>
    w.proceed p .finish (fleetFinish (w.registry.get? session) session outcome pid currentStep w.clock)
  | .called (.kill session kill) => w.proceed p .kill (killRecord (w.registry.get? session) kill)
  | .called (.sweep dryRun) => w.setPhase p (.scanning dryRun (listSessionIds w.registry) [])
  | .scanning dryRun [] records => w.setPhase p (.judging dryRun records)
  | .scanning dryRun (session :: sessions) records =>
    match readRecord (w.registry.get? session) with
    | .error _ => w.setPhase p (.scanning dryRun sessions records)
    | .ok rec => w.setPhase p (.scanning dryRun sessions (records ++ [rec]))
  | .judging _ [] => w.setPhase p .idle
  | .judging dryRun (rec :: rest) =>
    if needsProbe rec (hostOf p) then
      w.setPhase p (.probed dryRun rec (isPidAlive w (hostOf p) rec.pid) rest)
    else w.setPhase p (afterVerdict (hostOf p) dryRun rec false rest)
  | .probed dryRun rec alive rest => w.setPhase p (afterVerdict (hostOf p) dryRun rec alive rest)
  | .writing .sweep rec rest => (writeRecord w .sweep rec).setPhase p (.judging false rest)
  | .writing writer rec _ => (writeRecord w writer rec).setPhase p .idle

def fleetStep (hostOf : P → String) (w : FleetWorld P) : FleetOp P → FleetWorld P
  | .call p command =>
    match w.phases p with
    | .idle => w.setPhase p (.called command)
    | _ => w
  | .step p => w.advance hostOf p
  | .tick ms => { w with clock := w.clock + ms }
  | .started host pid => { w with alive := Function.update w.alive host (Function.update (w.alive host) pid true) }
  | .exited host pid => { w with alive := Function.update w.alive host (Function.update (w.alive host) pid false) }

/-- A registry from earlier runs, and nobody has called a verb. -/
def FleetWorld.start (P : Type*) (registry : InsertionMap String RecordFile) (alive : String → ℕ → Bool)
    (clock : ℕ) : FleetWorld P where
  clock
  alive
  registry
  phases _ := .idle
  log := []

end Amicode.Fleet
