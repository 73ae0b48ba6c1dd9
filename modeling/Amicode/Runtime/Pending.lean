import Amicode.Foundation.StepMachine

/-!
# Pending requests in the runtime-state store

Pending questions and permission requests are mirrored into a table that every component of the fleet
can read and write (`runtime-state/index.ts`), so that any of them can resolve a request. The table has
the request's id as its primary key.

Each database statement is one step. A `recordPending` prunes the session's dead rows and then inserts;
a `settlePending` looks the row up and then updates it; what a call still has to do is kept under the
number of the call, so that the steps of any number of calls interleave. The clock readings of a call
are part of its steps. A call that dies on a failing statement is one that does not go on.
-/

namespace Amicode.Runtime

/-- `TTL_MS`: rows whose heartbeat is older than this are dead. -/
def TTL_MS : ℤ := 15000

inductive PendingKind
  | question
  | permission
deriving DecidableEq

inductive PendingState
  | pending
  | replied
  | rejected
deriving DecidableEq

/-- What a settlement makes of a row. -/
inductive SettledState
  | replied
  | rejected
deriving DecidableEq

def SettledState.state : SettledState → PendingState
  | .replied => .replied
  | .rejected => .rejected

@[simp] theorem SettledState.state_ne_pending (state : SettledState) : state.state ≠ .pending := by
  rcases state <;> simp [SettledState.state]

structure Owner where
  ownerID : String
  pid : ℤ
deriving DecidableEq

variable {δ ρ : Type*}

/-- A row of the table, with the request `data` and, once it is settled, the `resolution`. -/
structure PendingRow (δ ρ : Type*) where
  id : String
  kind : PendingKind
  sessionID : String
  directory : Option String
  owner : Owner
  state : PendingState
  data : δ
  resolution : Option ρ
  timeCreated : ℤ
  timeUpdated : ℤ
  timeHeartbeat : ℤ

structure RecordInput (δ : Type*) where
  kind : PendingKind
  id : String
  sessionID : String
  directory : Option String
  data : δ
  owner : Owner

structure SettleInput (ρ : Type*) where
  kind : PendingKind
  id : String
  state : SettledState
  resolution : Option ρ

/-- What a call that is in flight still has to do. -/
inductive PendingCall (δ ρ : Type*)
  /-- `recordPending`, before its insert. -/
  | insert (input : RecordInput δ) (t : ℤ)
  /-- `settlePending`, after it has found the row pending. -/
  | update (input : SettleInput ρ)

/-- The table, and the calls in flight. -/
structure Store (δ ρ : Type*) where
  rows : String → Option (PendingRow δ ρ)
  calls : ℕ → Option (PendingCall δ ρ)
  nextCall : ℕ

/-- The table as it was created. -/
def Store.empty : Store δ ρ := ⟨fun _ ↦ none, fun _ ↦ none, 0⟩

def Store.begin (s : Store δ ρ) (call : PendingCall δ ρ) : Store δ ρ :=
  { s with calls := Function.update s.calls s.nextCall (some call), nextCall := s.nextCall + 1 }

/-- End a call. -/
def Store.finish (s : Store δ ρ) (n : ℕ) : Store δ ρ :=
  { s with calls := Function.update s.calls n none }

/-! ## Statements -/

/-- The rows a `recordPending` in this session deletes: long settled, or with a lapsed heartbeat. -/
def PendingRow.isPruned (row : PendingRow δ ρ) (sessionID : String) (t : ℤ) : Bool :=
  row.sessionID = sessionID &&
    ((row.state ≠ .pending && row.timeUpdated < t - TTL_MS)
      || (row.state = .pending && row.timeHeartbeat < t - TTL_MS))

/-- The first statement of `recordPending`. -/
def prune (rows : String → Option (PendingRow δ ρ)) (sessionID : String) (t : ℤ) :
    String → Option (PendingRow δ ρ) :=
  fun id ↦ (rows id).filter fun row ↦ !row.isPruned sessionID t

def RecordInput.row (input : RecordInput δ) (t : ℤ) : PendingRow δ ρ :=
  { id := input.id, kind := input.kind, sessionID := input.sessionID
    directory := input.directory, owner := input.owner, state := .pending, data := input.data
    resolution := none, timeCreated := t, timeUpdated := t, timeHeartbeat := t }

/-- The second statement of `recordPending`: a conflict on the id does nothing. -/
def insert (rows : String → Option (PendingRow δ ρ)) (input : RecordInput δ) (t : ℤ) :
    String → Option (PendingRow δ ρ) :=
  match rows input.id with
  | some _ => rows
  | none => Function.update rows input.id (some (input.row t))

/-- The row with this id and kind, if it is pending: what `settlePending` looks up, and what its
update is restricted to. -/
def pending? (rows : String → Option (PendingRow δ ρ)) (kind : PendingKind) (id : String) :
    Option (PendingRow δ ρ) :=
  (rows id).filter fun row ↦ row.kind = kind && row.state = .pending

/-- The second statement of `settlePending`. A resolution that is not given is not set. -/
def update (rows : String → Option (PendingRow δ ρ)) (input : SettleInput ρ) (t : ℤ) :
    String → Option (PendingRow δ ρ) :=
  match pending? rows input.kind input.id with
  | none => rows
  | some row =>
    Function.update rows input.id (some
      { row with
        state := input.state.state, resolution := input.resolution <|> row.resolution
        timeUpdated := t })

def discard (rows : String → Option (PendingRow δ ρ)) (kind : PendingKind) (id ownerID : String) :
    String → Option (PendingRow δ ρ) :=
  match pending? rows kind id with
  | none => rows
  | some row => if row.owner.ownerID = ownerID then Function.update rows id none else rows

def heartbeat (rows : String → Option (PendingRow δ ρ)) (kind : PendingKind) (id ownerID : String)
    (t : ℤ) : String → Option (PendingRow δ ρ) :=
  match rows id with
  | none => rows
  | some row =>
    if row.kind = kind ∧ row.owner.ownerID = ownerID then
      Function.update rows id (some { row with timeHeartbeat := t })
    else rows

/-! ## Steps -/

/-- A step of some call. -/
inductive StoreOp (δ ρ : Type*)
  /-- `recordPending` starts, and prunes. -/
  | record (input : RecordInput δ) (t : ℤ)
  | insert (call : ℕ)
  | lookup (input : SettleInput ρ)
  /-- A `settlePending` updates the row, and returns true. -/
  | update (call : ℕ) (t : ℤ)
  | discard (kind : PendingKind) (id ownerID : String)
  | heartbeat (kind : PendingKind) (id ownerID : String) (t : ℤ)

def Store.step (s : Store δ ρ) : StoreOp δ ρ → Store δ ρ
  | .record input t => { s with rows := prune s.rows input.sessionID t }.begin (.insert input t)
  | .insert call =>
    match s.calls call with
    | some (.insert input t) => { s with rows := Runtime.insert s.rows input t }.finish call
    | _ => s
  | .lookup input =>
    match pending? s.rows input.kind input.id with
    -- the call returns false
    | none => s
    | some _ => s.begin (.update input)
  | .update call t =>
    match s.calls call with
    | some (.update input) => { s with rows := Runtime.update s.rows input t }.finish call
    | _ => s
  | .discard kind id ownerID => { s with rows := Runtime.discard s.rows kind id ownerID }
  | .heartbeat kind id ownerID t => { s with rows := Runtime.heartbeat s.rows kind id ownerID t }

def Store.returns? (s : Store δ ρ) : StoreOp δ ρ → Option (SettleInput ρ)
  | .update call _ =>
    match s.calls call with
    | some (.update input) => some input
    | _ => none
  | _ => none

end Amicode.Runtime
