import Amicode.Foundation.JsObject

/-!
# Rows of the fleet roster

The roster has one row a machine, its reconciled self-report (`fleet_roster.ts`). A row or a document that
is read is validated, never coerced: one row that is not well formed rejects the whole document. What is
written is read back as it was.
-/

namespace Amicode.Roster

open JsObject

def ROSTER_SCHEMA_VERSION : String := "1"

inductive RosterHealth
  | reachable
  | degraded
  | down
deriving DecidableEq

def RosterHealth.name : RosterHealth → String
  | reachable => "reachable"
  | degraded => "degraded"
  | down => "down"

def HEALTH_VOCABULARY : List RosterHealth := [.reachable, .degraded, .down]

inductive IdentityState
  | verified
  | aliasConflict
  | keyChanged
  | staleAlias
deriving DecidableEq

def IdentityState.name : IdentityState → String
  | verified => "verified"
  | aliasConflict => "alias-conflict"
  | keyChanged => "key-changed"
  | staleAlias => "stale-alias"

def IDENTITY_STATE_VOCABULARY : List IdentityState := [.verified, .aliasConflict, .keyChanged, .staleAlias]

structure RosterRow where
  machine_id : String
  name : String
  server_mode : String
  capabilities : List String
  sshAlias : String
  transport : String
  last_report : String
  health : RosterHealth
  device_type : Option String
  peer_origin : Option String
  identity_key : Option String
  identity_state : Option IdentityState
deriving DecidableEq

structure RosterDocument where
  schema_version : String
  rows : List RosterRow

def emptyRoster : RosterDocument := ⟨ROSTER_SCHEMA_VERSION, []⟩

/-- `text.trim() === ""`. -/
def blank (text : String) : Bool := (JsText.trim text.toList).isEmpty

/-- The parser promises this of a row. -/
structure RosterRow.WellFormed (row : RosterRow) : Prop where
  machine_id : blank row.machine_id = false
  identity_key : ∀ key, row.identity_key = some key → blank key = false

/-! ## Reading -/

def describe : Option JsonValue → String
  | some (.arr _) => "array"
  | some .null => "null"
  | some value => String.ofList (JsText.stringify value)
  | none => "undefined"

/-- A member that must be a text. -/
def stringField (o : List (String × JsonValue)) (key : String) : Except String String :=
  match own? o key with
  | some (.str s) => .ok s
  | _ => .error ("roster row: \"" ++ key ++ "\" must be a string")

/-- A member that must be a text if it is there. -/
def optionalString (o : List (String × JsonValue)) (key : String) : Except String (Option String) :=
  match own? o key with
  | none => .ok none
  | some (.str s) => .ok (some s)
  | value => .error ("roster row: \"" ++ key ++ "\" must be a string when present (got " ++ describe value ++ ")")

def textsOf? : List JsonValue → Option (List String)
  | [] => some []
  | .str s :: rest => (textsOf? rest).map (s :: ·)
  | _ => none

def capabilitiesField (o : List (String × JsonValue)) : Except String (List String) :=
  match own? o "capabilities" with
  | some (.arr items) =>
    match textsOf? items with
    | some texts => .ok texts
    | none => .error "roster row: \"capabilities\" must be an array of strings"
  | _ => .error "roster row: \"capabilities\" must be an array of strings"

def ofHealthName? (name : Option JsonValue) : Option RosterHealth :=
  HEALTH_VOCABULARY.find? fun health ↦ match name with
    | some (.str s) => health.name = s
    | _ => false

def ofStateName? (name : Option JsonValue) : Option IdentityState :=
  IDENTITY_STATE_VOCABULARY.find? fun state ↦ match name with
    | some (.str s) => state.name = s
    | _ => false

def healthField (o : List (String × JsonValue)) : Except String RosterHealth :=
  match ofHealthName? (own? o "health") with
  | some health => .ok health
  | none => .error ("roster row: \"health\" must be one of reachable, degraded, down (got "
      ++ describe (own? o "health") ++ ")")

def identityKeyField (o : List (String × JsonValue)) : Except String (Option String) :=
  match optionalString o "identity_key" with
  | .ok (some key) =>
    if blank key then .error "roster row: \"identity_key\" must be a non-empty string when present"
    else .ok (some key)
  | result => result

def identityStateField (o : List (String × JsonValue)) : Except String (Option IdentityState) :=
  match own? o "identity_state" with
  | none => .ok none
  | value =>
    match ofStateName? value with
    | some state => .ok (some state)
    | none => .error ("roster row: \"identity_state\" must be one of verified, alias-conflict, key-changed, "
        ++ "stale-alias when present (got " ++ describe value ++ ")")

def parseRosterRow : JsonValue → Except String RosterRow
  | .obj o => do
    let machine_id ← stringField o "machine_id"
    let name ← stringField o "name"
    let server_mode ← stringField o "server_mode"
    let sshAlias ← stringField o "sshAlias"
    let transport ← stringField o "transport"
    let last_report ← stringField o "last_report"
    if blank machine_id then
      throw "roster row: \"machine_id\" must be a non-empty string (the single-writer key)"
    let capabilities ← capabilitiesField o
    let health ← healthField o
    let device_type ← optionalString o "device_type"
    let peer_origin ← optionalString o "peer_origin"
    let identity_key ← identityKeyField o
    let identity_state ← identityStateField o
    return { machine_id, name, server_mode, capabilities, sshAlias, transport, last_report, health, device_type,
             peer_origin, identity_key, identity_state }
  | candidate => .error ("roster row is not a JSON object: " ++ describe (some candidate))

/-- The rows of a document, from the row of an index on. -/
def parseRows : ℕ → List JsonValue → Except String (List RosterRow)
  | _, [] => .ok []
  | i, item :: items =>
    match parseRosterRow item with
    | .ok row => (parseRows (i + 1) items).map (row :: ·)
    | .error error => .error ("roster document: rows[" ++ toString i ++ "] — " ++ error)

def parseRosterDocument : JsonValue → Except String RosterDocument
  | .obj o =>
    match own? o "schema_version" with
    | some (.num version) =>
      match own? o "rows" with
      | some (.arr items) => (parseRows 0 items).map fun rows ↦ ⟨version, rows⟩
      | _ => .error "roster document: \"rows\" must be an array"
    | _ => .error "roster document: \"schema_version\" must be a number"
  | candidate => .error ("roster document is not a JSON object: " ++ describe (some candidate))

/-! ## Writing -/

def requiredMembers (row : RosterRow) : List (String × JsonValue) :=
  [("machine_id", .str row.machine_id), ("name", .str row.name), ("server_mode", .str row.server_mode),
    ("capabilities", .arr (row.capabilities.map .str)), ("sshAlias", .str row.sshAlias),
    ("transport", .str row.transport), ("last_report", .str row.last_report), ("health", .str row.health.name)]

def optionalMembers (row : RosterRow) : List (String × JsonValue) :=
  optional "device_type" (row.device_type.map .str) ++ optional "peer_origin" (row.peer_origin.map .str)
    ++ optional "identity_key" (row.identity_key.map .str)
    ++ optional "identity_state" (row.identity_state.map fun state ↦ .str state.name)

def rowJson (row : RosterRow) : JsonValue := .obj (requiredMembers row ++ optionalMembers row)

def documentJson (doc : RosterDocument) : JsonValue :=
  .obj [("schema_version", .num doc.schema_version), ("rows", .arr (doc.rows.map rowJson))]

/-! ## What is written is read back -/

theorem ofHealthName?_name (health : RosterHealth) : ofHealthName? (some (.str health.name)) = some health := by
  rcases health <;> decide

theorem ofStateName?_name (state : IdentityState) : ofStateName? (some (.str state.name)) = some state := by
  rcases state <;> decide

theorem textsOf?_map_str (texts : List String) : textsOf? (texts.map .str) = some texts := by
  induction texts with
  | nil => rfl
  | cons text texts ih => rw [List.map_cons, textsOf?, ih, Option.map_some]

theorem bind_ok {ε α β : Type} {x : Except ε α} {f : α → Except ε β} {b : β} :
    x >>= f = .ok b ↔ ∃ a, x = .ok a ∧ f a = .ok b := by
  rcases x with error | a
  · simp [bind, Except.bind]
  · simp [bind, Except.bind]

theorem identityKeyField_wellFormed {o : List (String × JsonValue)} {identity_key : Option String}
    (h : identityKeyField o = .ok identity_key) : ∀ key, identity_key = some key → blank key = false := by
  rintro key rfl
  unfold identityKeyField at h
  split at h
  · split at h
    · cases h
    · rename_i hblank
      cases h
      simpa using hblank
  · rename_i hnot
    exact absurd h (hnot key)

theorem wellFormed_of_parseRosterRow {candidate : JsonValue} {row : RosterRow}
    (h : parseRosterRow candidate = .ok row) : row.WellFormed := by
  rcases candidate with _ | _ | _ | _ | _ | o <;> try cases h
  simp only [parseRosterRow, bind_ok] at h
  obtain ⟨machine_id, -, name, -, server_mode, -, sshAlias, -, transport, -, last_report, -, h⟩ := h
  split at h
  · simp [bind_ok] at h
  · rename_i hblank
    simp only [bind_ok] at h
    obtain ⟨capabilities, -, health, -, device_type, -, peer_origin, -, identity_key, hkey, identity_state, -,
      h⟩ := h
    cases h
    exact ⟨by simpa using hblank, identityKeyField_wellFormed hkey⟩

section ReadBack

variable {o : List (String × JsonValue)} {key : String}

theorem stringField_of_own? {s : String} (h : own? o key = some (.str s)) : stringField o key = .ok s := by
  rw [stringField, h]

theorem optionalString_of_own? {value : Option String} (h : own? o key = value.map .str) :
    optionalString o key = .ok value := by
  rcases value with _ | s <;> rw [optionalString, h] <;> rfl

theorem identityKeyField_of_own? {value : Option String} (h : own? o "identity_key" = value.map .str)
    (hvalue : ∀ key, value = some key → blank key = false) : identityKeyField o = .ok value := by
  rw [identityKeyField, optionalString_of_own? h]
  rcases value with _ | key
  · rfl
  · exact if_neg (by simp [hvalue key rfl])

theorem identityStateField_of_own? {value : Option IdentityState}
    (h : own? o "identity_state" = value.map fun state ↦ .str state.name) : identityStateField o = .ok value := by
  rw [identityStateField, h]
  rcases value with _ | state
  · rfl
  · simp [ofStateName?_name]

theorem own?_rowMembers_required {row : RosterRow} {value : JsonValue}
    (h : own? (requiredMembers row) key = some value) :
    own? (requiredMembers row ++ optionalMembers row) key = some value := by
  rw [own?_append, h, Option.some_or]

theorem own?_rowMembers_optional {row : RosterRow} (h : own? (requiredMembers row) key = none) :
    own? (requiredMembers row ++ optionalMembers row) key = own? (optionalMembers row) key := by
  rw [own?_append, h, Option.none_or]

end ReadBack

theorem parseRosterRow_rowJson {row : RosterRow} (h : row.WellFormed) : parseRosterRow (rowJson row) = .ok row := by
  have hstring {key s : String} (hown : own? (requiredMembers row) key = some (.str s)) :
      stringField (requiredMembers row ++ optionalMembers row) key = .ok s :=
    stringField_of_own? (own?_rowMembers_required hown)
  have hcapabilities : capabilitiesField (requiredMembers row ++ optionalMembers row) = .ok row.capabilities := by
    rw [capabilitiesField, own?_rowMembers_required rfl]
    simp [textsOf?_map_str]
  have hhealth : healthField (requiredMembers row ++ optionalMembers row) = .ok row.health := by
    rw [healthField, own?_rowMembers_required rfl]
    simp [ofHealthName?_name]
  have hdevice : optionalString (requiredMembers row ++ optionalMembers row) "device_type" = .ok row.device_type :=
    optionalString_of_own? (by
      rw [own?_rowMembers_optional rfl]
      simp [optionalMembers, own?_append, own?_optional])
  have horigin : optionalString (requiredMembers row ++ optionalMembers row) "peer_origin" = .ok row.peer_origin :=
    optionalString_of_own? (by
      rw [own?_rowMembers_optional rfl]
      simp [optionalMembers, own?_append, own?_optional])
  have hkey : identityKeyField (requiredMembers row ++ optionalMembers row) = .ok row.identity_key :=
    identityKeyField_of_own? (by
      rw [own?_rowMembers_optional rfl]
      simp [optionalMembers, own?_append, own?_optional]) h.identity_key
  have hstate : identityStateField (requiredMembers row ++ optionalMembers row) = .ok row.identity_state :=
    identityStateField_of_own? (by
      rw [own?_rowMembers_optional rfl]
      simp [optionalMembers, own?_append, own?_optional])
  rw [rowJson, parseRosterRow, hstring rfl, hstring rfl, hstring rfl, hstring rfl, hstring rfl, hstring rfl,
    hcapabilities, hhealth, hdevice, horigin, hkey, hstate]
  simp [bind, Except.bind, h.machine_id, pure, Except.pure]

theorem parseRows_map_rowJson {rows : List RosterRow} (h : ∀ row ∈ rows, row.WellFormed) (i : ℕ) :
    parseRows i (rows.map rowJson) = .ok rows := by
  induction rows generalizing i with
  | nil => rfl
  | cons row rows ih =>
    rw [List.map_cons, parseRows, parseRosterRow_rowJson (h row List.mem_cons_self),
      ih (fun row hrow ↦ h row (List.mem_cons_of_mem _ hrow))]
    rfl

theorem wellFormed_of_parseRows {items : List JsonValue} {rows : List RosterRow} {i : ℕ}
    (h : parseRows i items = .ok rows) : ∀ row ∈ rows, row.WellFormed := by
  induction items generalizing i rows with
  | nil =>
    cases h
    simp
  | cons item items ih =>
    rw [parseRows] at h
    rcases hitem : parseRosterRow item with error | row
    · simp [hitem] at h
    · rcases hrest : parseRows (i + 1) items with error | rest
      · simp [hitem, hrest, Except.map] at h
      · obtain rfl : row :: rest = rows := by simpa [hitem, hrest, Except.map] using h
        intro other hother
        rcases List.mem_cons.mp hother with rfl | hother
        · exact wellFormed_of_parseRosterRow hitem
        · exact ih hrest other hother

theorem parseRosterDocument_documentJson {doc : RosterDocument} (h : ∀ row ∈ doc.rows, row.WellFormed) :
    parseRosterDocument (documentJson doc) = .ok doc := by
  have hrows : own? [("schema_version", JsonValue.num doc.schema_version), ("rows", .arr (doc.rows.map rowJson))]
      "rows" = some (.arr (doc.rows.map rowJson)) := rfl
  have hversion : own? [("schema_version", JsonValue.num doc.schema_version), ("rows", .arr (doc.rows.map rowJson))]
      "schema_version" = some (.num doc.schema_version) := rfl
  simp [documentJson, parseRosterDocument, hversion, hrows, parseRows_map_rowJson h, Except.map]

theorem wellFormed_of_parseRosterDocument {candidate : JsonValue} {doc : RosterDocument}
    (h : parseRosterDocument candidate = .ok doc) : ∀ row ∈ doc.rows, row.WellFormed := by
  rcases candidate with _ | _ | _ | _ | _ | o <;> try cases h
  rw [parseRosterDocument] at h
  split at h
  · split at h
    · rename_i version _ _ items _
      rcases hitems : parseRows 0 items with error | rows
      · simp [hitems, Except.map] at h
      · obtain rfl : (⟨version, rows⟩ : RosterDocument) = doc := by simpa [hitems, Except.map] using h
        exact wellFormed_of_parseRows hitems
    · cases h
  · cases h

end Amicode.Roster
