import Amicode.Foundation.JsonValue
import Mathlib.Algebra.BigOperators.Group.List.Basic
import Mathlib.Data.List.Sort
import Mathlib.Data.Rat.Defs

/-!
# The receipts of a session

What the operations of a session have done to its files is kept as receipts of the root of the session
(`session/receipt.ts`). An operation first reserves room for its receipts in the budget of the root, then commits
them, in two transactions; `publish` does both and writes the evidence of the receipts to a file in between. A
transaction leaves the tables as they were if it fails.
-/

namespace Amicode.SessionReceipt

structure Budget where
  maxReceipts : ℚ
  maxMetadataBytes : ℚ
  maxEvidenceBytes : Option ℚ

structure Fact where
  id : String
  resource : String
  operation : String
  outcome : String
  timeCreated : ℤ
  deriving DecidableEq

/-- A piece of evidence, `SessionEvidence.Entry`. -/
structure Evidence where
  receiptID : String
  content : String

structure ReservationInput where
  id : String
  sessionID : String
  origin : String
  receipts : List Fact
  budget : Budget
  evidence : List Evidence

/-! ## The tables -/

inductive OperationState
  | prepared
  | evidenceReady
  | committed
  deriving DecidableEq

/-- A row of `session_receipt_operation`. -/
structure Operation where
  id : String
  root_id : String
  session_id : String
  origin : String
  reserved_receipts : ℕ
  reserved_metadata_bytes : ℕ
  state : OperationState
  deriving DecidableEq

/-- A row of `session_receipt`. -/
structure Receipt where
  operation_id : String
  root_id : String
  creation_seq : ℕ
  fact : Fact
  deriving DecidableEq

/-- A row of `session_receipt_assessment`. -/
structure Assessment where
  receipt_id : String
  root_id : String
  confidence : String
  net_state : String
  evidence_state : String
  revision : ℕ
  time_created : ℤ
  deriving DecidableEq

/-- The tables, each in the order of insertion. -/
structure Db where
  /-- The roots of the sessions, `session_lineage`. -/
  lineage : String → Option String
  operations : List Operation
  receipts : List Receipt
  assessments : List Assessment

/-- Tables with no operation yet. -/
def Db.empty (lineage : String → Option String) : Db := ⟨lineage, [], [], []⟩

/-- Why a call fails. -/
inductive Failure
  | error (message : String)
  /-- A row with this key is there already. -/
  | constraint (table key : String)
  deriving DecidableEq

/-- The bytes of a text in UTF-8: `new TextEncoder().encode(text).byteLength`. -/
def byteLength (text : List Char) : ℕ := (text.map Char.utf8Size).sum

def Fact.toJson (fact : Fact) : JsonValue :=
  .obj [("id", .str fact.id), ("resource", .str fact.resource), ("operation", .str fact.operation),
    ("outcome", .str fact.outcome), ("timeCreated", .num (toString fact.timeCreated))]

def metadataSize (receipts : List Fact) : ℕ :=
  byteLength (JsText.stringify (.arr (receipts.map Fact.toJson)))

namespace Db

/-- The operations of a root, whatever their state. -/
def reservations (db : Db) (rootID : String) : List Operation := db.operations.filter (·.root_id = rootID)

def reservedReceipts (db : Db) (rootID : String) : ℕ := ((db.reservations rootID).map (·.reserved_receipts)).sum

def reservedMetadataBytes (db : Db) (rootID : String) : ℕ :=
  ((db.reservations rootID).map (·.reserved_metadata_bytes)).sum

def receiptsOf (db : Db) (rootID : String) : List Receipt := db.receipts.filter (·.root_id = rootID)

def root (db : Db) (sessionID : String) : Except Failure String :=
  match db.lineage sessionID with
  | some rootID => .ok rootID
  | none => .error (.error s!"Missing lineage root for {sessionID}")

/-! ## The calls -/

def preparedRow (input : ReservationInput) (rootID : String) : Operation where
  id := input.id
  root_id := rootID
  session_id := input.sessionID
  origin := input.origin
  reserved_receipts := input.receipts.length
  reserved_metadata_bytes := metadataSize input.receipts
  state := .prepared

def reserve (db : Db) (input : ReservationInput) : Except Failure Db :=
  match db.root input.sessionID with
  | .error failure => .error failure
  | .ok rootID =>
    let receiptCount := input.receipts.length
    let metadataBytes := metadataSize input.receipts
    let reservedReceipts := receiptCount + db.reservedReceipts rootID
    let reservedMetadataBytes := metadataBytes + db.reservedMetadataBytes rootID
    if input.budget.maxReceipts < receiptCount ∨ input.budget.maxMetadataBytes < metadataBytes then
      .error (.error s!"Receipt budget exceeded for {rootID}")
    else if input.budget.maxReceipts < reservedReceipts
        ∨ input.budget.maxMetadataBytes < reservedMetadataBytes then
      .error (.error s!"Receipt budget exhausted for {rootID}")
    else if input.id ∈ db.operations.map (·.id) then
      .error (.constraint "session_receipt_operation" input.id)
    else .ok { db with operations := db.operations ++ [preparedRow input rootID] }

def abort (db : Db) (id : String) : Db :=
  { db with operations := db.operations.filter fun row ↦ ¬ (row.id = id ∧ row.state = .prepared) }

def setState (db : Db) (id : String) (state : OperationState) : Db :=
  { db with operations := db.operations.map fun row ↦ if row.id = id then { row with state := state } else row }

/-- The rows of the receipts of an operation. -/
def newReceipts (id rootID : String) (latest : Option ℕ) (receipts : List Fact) : List Receipt :=
  receipts.mapIdx fun index receipt ↦ ⟨id, rootID, latest.getD 0 + index + 1, receipt⟩

/-- Receipts are added to their table, if their ids are new. -/
def insertReceipts (db : Db) (rows : List Receipt) : Except Failure Db :=
  match rows.find? fun row ↦ row.fact.id ∈ db.receipts.map (·.fact.id) with
  | some row => .error (.constraint "session_receipt" row.fact.id)
  | none =>
    if (rows.map (·.fact.id)).Nodup then .ok { db with receipts := db.receipts ++ rows }
    else .error (.constraint "session_receipt" "")

def newAssessments (rootID : String) (receipts : List Fact) (evidenceReceiptIDs : List String) : List Assessment :=
  (receipts.filter (·.id ∈ evidenceReceiptIDs)).map fun receipt ↦
    ⟨receipt.id, rootID, "observed", "unknown", "available", 1, receipt.timeCreated⟩

def commitTransaction (db : Db) (id : String) (receipts : List Fact) (evidenceReceiptIDs : List String) :
    Except Failure Db :=
  match db.operations.find? (·.id = id) with
  | none => .error (.error s!"No prepared receipt reservation {id}")
  | some reservation =>
    if reservation.state ≠ .prepared then .error (.error s!"No prepared receipt reservation {id}")
    else if reservation.reserved_receipts ≠ receipts.length
        ∨ reservation.reserved_metadata_bytes ≠ metadataSize receipts then
      .error (.error s!"Receipt reservation mismatch for {id}")
    else if ∃ receiptID ∈ evidenceReceiptIDs, receiptID ∉ receipts.map (·.id) then
      .error (.error s!"Evidence receipt mismatch for {id}")
    else
      let latest := ((db.receiptsOf reservation.root_id).map (·.creation_seq)).max?
      match (db.setState id .evidenceReady).insertReceipts
          (newReceipts id reservation.root_id latest receipts) with
      | .error failure => .error failure
      | .ok inserted =>
        let assessments := newAssessments reservation.root_id receipts evidenceReceiptIDs
        .ok ({ inserted with assessments := inserted.assessments ++ assessments }.setState id .committed)

/-- The tables after a call, and why it failed if it did. -/
structure Result where
  db : Db
  failure : Option Failure

def commit (db : Db) (id : String) (receipts : List Fact) (evidenceReceiptIDs : List String) : Result :=
  match db.commitTransaction id receipts evidenceReceiptIDs with
  | .ok db' => ⟨db', none⟩
  | .error failure => ⟨db.abort id, some failure⟩

/-- `SessionEvidence.write`: false if the entries are over the budget. Otherwise the file is written, or the write
throws. -/
def writeEvidence (entries : List Evidence) (maxBytes : ℚ) (throws : Bool) : Except Failure Bool :=
  if maxBytes < (entries.map fun entry ↦ byteLength entry.content.toList).sum then .ok false
  else if throws then .error (.error "write")
  else .ok true

def publishEvidence (input : ReservationInput) (throws : Bool) : Except Failure Bool :=
  if input.evidence.length ≠ 0 then
    (writeEvidence input.evidence (input.budget.maxEvidenceBytes.getD 0) throws).mapError fun _ ↦
      .error s!"Failed to publish receipt evidence for {input.id}"
  else .ok false

def publish (db : Db) (input : ReservationInput) (throws : Bool) : Result :=
  match db.reserve input with
  | .error failure => ⟨db, some failure⟩
  | .ok reserved =>
    match reserved.root input.sessionID with
    | .error failure => ⟨reserved, some failure⟩
    | .ok _ =>
      match publishEvidence input throws with
      | .error failure => ⟨reserved, some failure⟩
      | .ok evidence =>
        reserved.commit input.id input.receipts (if evidence then input.evidence.map (·.receiptID) else [])

/-- `Number.isSafeInteger`. -/
def isSafeInteger (n : ℤ) : Bool := n.natAbs < 2 ^ 53

/-- A page of receipts, and the cursor of the next one if there are more. -/
structure Page where
  rootID : String
  receipts : List Receipt
  nextCursor : Option ℕ

def page (db : Db) (sessionID : String) (cursor : Option ℤ) (limit : ℤ) : Except Failure Page :=
  if isSafeInteger limit = false ∨ limit < 1 then .error (.error s!"Invalid receipt page limit {limit}")
  else if ∃ c ∈ cursor, isSafeInteger c = false ∨ c < 0 then
    .error (.error s!"Invalid receipt page cursor {cursor.getD 0}")
  else
    match db.root sessionID with
    | .error failure => .error failure
    | .ok rootID =>
      let rows := (db.receiptsOf rootID).filter fun row ↦ cursor.getD 0 < row.creation_seq
      let receipts := (rows.mergeSort fun a b ↦ a.creation_seq ≤ b.creation_seq).take (limit.toNat + 1)
      let page := receipts.take limit.toNat
      .ok
        { rootID := rootID
          receipts := page
          nextCursor :=
            if limit.toNat < receipts.length then page.getLast?.map (·.creation_seq) else none }

end Db

end Amicode.SessionReceipt
