import Amicode.Foundation.StepMachine
import Amicode.Roster.Row

/-!
# Self-reports to the roster

Each machine reports its own row to the host, which keeps the roster in a file (`roster.ts`). The first
identity key a machine reports is its own: a report with another one is refused, and rows with different
keys that claim one alias are stamped as being in conflict, so that neither is selected as a peer
(`detectIdentityConflicts`, `servingReachablePeers`).

A report is one step. Whether the bind is a loopback one, and whether the write succeeds, is part of it.
-/

namespace Amicode.Roster

open JsObject StepMachine List Option InsertionMap

/-! ## The roster -/

def loadRoster : StoreFile → RosterDocument
  | .json parsed =>
    match parseRosterDocument parsed with
    | .ok doc => doc
    | .error _ => emptyRoster
  | _ => emptyRoster

def upsertRosterRow (doc : RosterDocument) (row : RosterRow) : RosterDocument :=
  let replaced := doc.rows.any fun existing ↦ existing.machine_id = row.machine_id
  let rows := doc.rows.map fun existing ↦ if existing.machine_id = row.machine_id then row else existing
  { doc with rows := if replaced then rows else rows ++ [row] }

def presentKey (row : RosterRow) : Option String := row.identity_key.filter (· ≠ "")

/-! ## Conflicts -/

inductive ConflictKind
  | aliasConflict
  | keyChanged
deriving DecidableEq

def ConflictKind.state : ConflictKind → IdentityState
  | aliasConflict => .aliasConflict
  | keyChanged => .keyChanged

structure IdentityConflict where
  kind : ConflictKind
  machine_id : String
  detail : String

def aliasByKey (rows : List RosterRow) : InsertionMap String (InsertionSet String) :=
  rows.foldl (fun claims row ↦ match presentKey row with
    | none => claims
    | some key => claims.set row.sshAlias (((claims.get? row.sshAlias).getD ∅).add key)) ∅

def aliasMachines (rows : List RosterRow) : InsertionMap String (List String) :=
  rows.foldl (fun machines row ↦ match presentKey row with
    | none => machines
    | some _ => machines.set row.sshAlias ((machines.get? row.sshAlias).getD [] ++ [row.machine_id])) ∅

def aliasConflict (sshAlias : String) (count : ℕ) (machine_id : String) : IdentityConflict where
  kind := .aliasConflict
  machine_id := machine_id
  detail := "sshAlias \"" ++ sshAlias ++ "\" is claimed by " ++ toString count ++ " different identities"

def aliasConflicts (rows : List RosterRow) : List IdentityConflict :=
  (aliasByKey rows).entries.flatMap fun (sshAlias, owners) ↦
    if owners.size > 1 then (((aliasMachines rows).get? sshAlias).getD []).map (aliasConflict sshAlias owners.size)
    else []

def prevKeyByMachine (rows : List RosterRow) : InsertionMap String String :=
  rows.foldl (fun keys row ↦ match presentKey row with
    | none => keys
    | some key => keys.set row.machine_id key) ∅

def keyConflicts (current previous : List RosterRow) : List IdentityConflict :=
  current.filterMap fun row ↦ match presentKey row, (prevKeyByMachine previous).get? row.machine_id with
    | some key, some prevKey =>
      if prevKey ≠ key then
        some ⟨.keyChanged, row.machine_id, "machine \"" ++ row.machine_id ++ "\" changed identity_key"⟩
      else none
    | _, _ => none

def detectIdentityConflicts (current : RosterDocument) (previous : Option RosterDocument) : List IdentityConflict :=
  aliasConflicts current.rows ++ previous.elim [] fun previous ↦ keyConflicts current.rows previous.rows

/-! ## The report -/

def MAX_BODY_BYTES : ℕ := 64 * 1024

structure RosterDeps where
  /-- The recorded bind hostname is a loopback one. -/
  loopback : Bool
  writable : Bool

/-- A body, as its length and what `JSON.parse` makes of it. -/
structure ReportBody where
  length : ℕ
  parsed : Option JsonValue

inductive ReportResponse
  | ok (machine_id : String)
  | refused (error : String)
deriving DecidableEq

def refuse (code detail : String) : ReportResponse := .refused (code ++ ": " ++ detail)

/-- The state each conflicted machine is stamped with: the last conflict of it counts. -/
def conflictedMachines (conflicts : List IdentityConflict) : InsertionMap String IdentityState :=
  conflicts.foldl (fun machines conflict ↦ machines.set conflict.machine_id conflict.kind.state) ∅

def stampRow (machines : InsertionMap String IdentityState) (row : RosterRow) : RosterRow :=
  match machines.get? row.machine_id with
  | some state => { row with identity_state := some state }
  | none => row

def stampConflicts (conflicts : List IdentityConflict) (doc : RosterDocument) : RosterDocument :=
  if conflicts.length > 0 then { doc with rows := doc.rows.map (stampRow (conflictedMachines conflicts)) } else doc

/-- The report has another key than the machine is registered with. -/
def changesKey (existing : RosterDocument) (row : RosterRow) : Bool :=
  match existing.rows.find? fun r ↦ r.machine_id = row.machine_id with
  | none => false
  | some existingRow =>
    match presentKey existingRow, presentKey row with
    | some existingKey, some key => existingKey ≠ key
    | _, _ => false

def rosterReportResponse (deps : RosterDeps) (body : ReportBody) (file : StoreFile) : StoreFile × ReportResponse :=
  if !deps.loopback then (file, refuse "non_loopback" "roster self-report serves loopback binds only")
  else if body.length > MAX_BODY_BYTES then (file, refuse "bad_request" "body too large")
  else match body.parsed with
    | none => (file, refuse "bad_request" "body must be a JSON roster row")
    | some parsed =>
      match parseRosterRow parsed with
      | .error _ => (file, refuse "bad_request" "body is not a well-formed roster row")
      | .ok row =>
        let existing := loadRoster file
        if changesKey existing row then
          (file, refuse "key_changed"
            "identity_key changed for an already-registered machine_id — explicit re-admit required")
        else
          let next := upsertRosterRow existing row
          let next := stampConflicts (detectIdentityConflicts next (some existing)) next
          if !deps.writable then
            (file, refuse "write_failed" "the roster self-report could not be persisted")
          else (.json (documentJson { next with schema_version := ROSTER_SCHEMA_VERSION }), .ok row.machine_id)

/-! ## Peer selection -/

structure PlacementDescriptor where
  machine_id : String
  serving : Bool
  reachable : Bool
  sshAlias : String
  transport : String

def placementDescriptor (row : RosterRow) : PlacementDescriptor where
  machine_id := row.machine_id
  serving := row.capabilities.contains "serving"
  reachable := row.health = .reachable
  sshAlias := row.sshAlias
  transport := row.transport

def BLOCKING_IDENTITY_STATES : List IdentityState := [.aliasConflict, .keyChanged]

def selectPeer? (row : RosterRow) : Option String :=
  let d := placementDescriptor row
  if !d.serving || !d.reachable then none
  else if row.identity_state.any BLOCKING_IDENTITY_STATES.contains then none
  else some (String.ofList (JsText.trim d.machine_id.toList))

def servingReachablePeers (rows : List RosterRow) : List String := rows.filterMap selectPeer?

/-! ## The law -/

abbrev ReportOp := RosterDeps × ReportBody

def reportStep (file : StoreFile) (op : ReportOp) : StoreFile := (rosterReportResponse op.1 op.2 file).1

/-- A peer's row is what it was, or has been stamped with a conflict. -/
def KeptRow (row row' : RosterRow) : Prop :=
  row' = row ∨ ∃ state ∈ BLOCKING_IDENTITY_STATES, row' = { row with identity_state := some state }

/-- Both rows of an alias that different keys claim are in conflict, and neither is selected. -/
def AliasesResolved (rows : List RosterRow) : Prop :=
  ∀ row ∈ rows, ∀ row' ∈ rows, ∀ key key', row.identity_key = some key → row'.identity_key = some key' →
    key ≠ key' → row.sshAlias = row'.sshAlias → row.sshAlias ≠ "" →
      row.identity_state = some .aliasConflict ∧ row'.identity_state = some .aliasConflict ∧
        selectPeer? row = none ∧ selectPeer? row' = none

structure KeyOwned (file : StoreFile) (op : ReportOp) : Prop where
  refused : ∀ error, (rosterReportResponse op.1 op.2 file).2 = .refused error → reportStep file op = file
  keys : ∀ machine_id, (rosterReportResponse op.1 op.2 file).2 = .ok machine_id →
    ∀ row ∈ (loadRoster file).rows, ∀ key, row.identity_key = some key →
      (∃ row' ∈ (loadRoster (reportStep file op)).rows, row'.machine_id = row.machine_id) ∧
      ∀ row' ∈ (loadRoster (reportStep file op)).rows, row'.machine_id = row.machine_id →
        row'.identity_key = some key
  /-- The rows of the other machines are kept, in their places. -/
  others : ∀ machine_id, (rosterReportResponse op.1 op.2 file).2 = .ok machine_id →
    ∀ (i : ℕ) (row : RosterRow), (loadRoster file).rows[i]? = some row → row.machine_id ≠ machine_id →
      ∃ row', (loadRoster (reportStep file op)).rows[i]? = some row' ∧ KeptRow row row'
  /-- And no other machine has a new row. -/
  added : ∀ machine_id, (rosterReportResponse op.1 op.2 file).2 = .ok machine_id →
    ∀ row' ∈ (loadRoster (reportStep file op)).rows, row'.machine_id ≠ machine_id →
      ∃ row ∈ (loadRoster file).rows, KeptRow row row'
  aliases : ∀ machine_id, (rosterReportResponse op.1 op.2 file).2 = .ok machine_id →
    AliasesResolved (loadRoster (reportStep file op)).rows

/-- Every machine has one row. -/
def OneRow (rows : List RosterRow) : Prop := (rows.map RosterRow.machine_id).Nodup

/-- A report leaves out the key of its machine, and nothing else refuses it. -/
def OmitsKey (file : StoreFile) (op : ReportOp) : Prop :=
  op.1.loopback = true ∧ op.1.writable = true ∧ op.2.length ≤ MAX_BODY_BYTES ∧
    ∃ parsed row, op.2.parsed = some parsed ∧ parseRosterRow parsed = .ok row ∧ row.identity_key = none ∧
      ∃ existing ∈ (loadRoster file).rows, existing.machine_id = row.machine_id ∧ existing.identity_key ≠ none

/-! ## What a report does -/

variable {file : StoreFile}

theorem wellFormed_of_mem_loadRoster {row : RosterRow} (h : row ∈ (loadRoster file).rows) : row.WellFormed := by
  rcases file with _ | _ | parsed
  · simp [loadRoster, emptyRoster] at h
  · simp [loadRoster, emptyRoster] at h
  · rcases hparsed : parseRosterDocument parsed with error | doc
    · simp [loadRoster, hparsed, emptyRoster] at h
    · rw [loadRoster, hparsed] at h
      exact wellFormed_of_parseRosterDocument hparsed row h

theorem report_cases (op : ReportOp) (file : StoreFile) :
    (∃ error, rosterReportResponse op.1 op.2 file = (file, .refused error)) ∨
    ∃ parsed row, op.2.parsed = some parsed ∧ parseRosterRow parsed = .ok row ∧ op.1.loopback = true ∧
      op.1.writable = true ∧ op.2.length ≤ MAX_BODY_BYTES ∧ changesKey (loadRoster file) row = false ∧
      rosterReportResponse op.1 op.2 file = (.json (documentJson { stampConflicts (detectIdentityConflicts
          (upsertRosterRow (loadRoster file) row) (some (loadRoster file))) (upsertRosterRow (loadRoster file) row)
        with schema_version := ROSTER_SCHEMA_VERSION }), .ok row.machine_id) := by
  rw [rosterReportResponse]
  by_cases hloopback : op.1.loopback = true
  · rw [if_neg (by simpa using hloopback)]
    by_cases hlength : op.2.length > MAX_BODY_BYTES
    · exact .inl ⟨_, if_pos hlength⟩
    · rw [if_neg hlength]
      rcases hparsed : op.2.parsed with _ | parsed
      · exact .inl ⟨_, rfl⟩
      · dsimp only
        rcases hrow : parseRosterRow parsed with error | row
        · exact .inl ⟨_, rfl⟩
        · dsimp only
          by_cases hkey : changesKey (loadRoster file) row = true
          · exact .inl ⟨_, if_pos hkey⟩
          · rw [if_neg hkey]
            by_cases hwritable : op.1.writable = true
            · exact .inr ⟨parsed, row, rfl, hrow, hloopback, hwritable, not_lt.mp hlength, by simpa using hkey,
                if_neg (by simpa using hwritable)⟩
            · exact .inl ⟨_, if_pos (by simpa using hwritable)⟩
  · exact .inl ⟨_, if_pos (by simpa using hloopback)⟩

section Upsert

variable {doc : RosterDocument} {row r : RosterRow}

theorem mem_upsertRosterRow :
    r ∈ (upsertRosterRow doc row).rows ↔ r = row ∨ r ∈ doc.rows ∧ r.machine_id ≠ row.machine_id := by
  have hmap : r ∈ doc.rows.map (fun existing ↦ if existing.machine_id = row.machine_id then row else existing) ↔
      (r = row ∧ ∃ existing ∈ doc.rows, existing.machine_id = row.machine_id) ∨
        r ∈ doc.rows ∧ r.machine_id ≠ row.machine_id := by
    simp only [List.mem_map]
    constructor
    · rintro ⟨existing, hmem, heq⟩
      split_ifs at heq with hid
      · exact .inl ⟨heq.symm, existing, hmem, hid⟩
      · subst heq
        exact .inr ⟨hmem, hid⟩
    · rintro (⟨rfl, existing, hmem, hid⟩ | ⟨hmem, hid⟩)
      · exact ⟨existing, hmem, if_pos hid⟩
      · exact ⟨r, hmem, if_neg hid⟩
  rw [upsertRosterRow]
  by_cases hreplaced : ∃ existing ∈ doc.rows, existing.machine_id = row.machine_id
  · rw [if_pos (by simpa using hreplaced), hmap]
    exact or_congr_left (and_iff_left hreplaced)
  · rw [if_neg (by simpa using hreplaced), mem_append, hmap, mem_singleton]
    constructor
    · rintro ((⟨-, hexists⟩ | h) | rfl)
      · exact absurd hexists hreplaced
      · exact .inr h
      · exact .inl rfl
    · rintro (rfl | h)
      · exact .inr rfl
      · exact .inl (.inr h)

theorem getElem?_upsertRosterRow {i : ℕ} (h : doc.rows[i]? = some r) (hid : r.machine_id ≠ row.machine_id) :
    (upsertRosterRow doc row).rows[i]? = some r := by
  have hmap : (doc.rows.map fun existing ↦ if existing.machine_id = row.machine_id then row else existing)[i]?
      = some r := by
    rw [getElem?_map, h, map_some, if_neg hid]
  rw [upsertRosterRow]
  split_ifs
  · exact hmap
  · obtain ⟨hlt, -⟩ := List.getElem?_eq_some_iff.mp hmap
    rw [getElem?_append_left hlt, hmap]

theorem oneRow_upsertRosterRow (h : OneRow doc.rows) (row : RosterRow) : OneRow (upsertRosterRow doc row).rows := by
  have hids : (doc.rows.map fun existing ↦ if existing.machine_id = row.machine_id then row else existing).map
      RosterRow.machine_id = doc.rows.map RosterRow.machine_id := by
    rw [List.map_map]
    refine map_congr_left fun existing _ ↦ ?_
    by_cases hid : existing.machine_id = row.machine_id <;> simp [hid]
  rw [OneRow, upsertRosterRow]
  split_ifs with hreplaced
  · rw [hids]
    exact h
  · rw [map_append, hids, map_singleton, nodup_append]
    refine ⟨h, nodup_singleton _, ?_⟩
    rintro id hmem other hother rfl
    obtain ⟨existing, hexisting, hid⟩ := List.mem_map.mp hmem
    refine hreplaced (List.any_eq_true.mpr ⟨existing, hexisting, ?_⟩)
    exact decide_eq_true (hid.trans (mem_singleton.mp hother))

theorem OneRow.eq {rows : List RosterRow} (h : OneRow rows) {r r' : RosterRow} (hr : r ∈ rows) (hr' : r' ∈ rows)
    (hid : r.machine_id = r'.machine_id) : r = r' :=
  inj_on_of_nodup_map h hr hr' hid

end Upsert

/-! ## What is stamped -/

section Stamp

variable {machines : InsertionMap String IdentityState} {row : RosterRow}

@[simp] theorem stampRow_machine_id : (stampRow machines row).machine_id = row.machine_id := by
  unfold stampRow
  split <;> rfl

@[simp] theorem stampRow_identity_key : (stampRow machines row).identity_key = row.identity_key := by
  unfold stampRow
  split <;> rfl

@[simp] theorem stampRow_sshAlias : (stampRow machines row).sshAlias = row.sshAlias := by
  unfold stampRow
  split <;> rfl

variable (conflicts : List IdentityConflict)

theorem stampConflicts_rows (doc : RosterDocument) :
    (stampConflicts conflicts doc).rows = doc.rows.map (stampRow (conflictedMachines conflicts)) := by
  unfold stampConflicts
  split_ifs with hlength
  · rfl
  · obtain rfl : conflicts = [] := length_eq_zero_iff.mp (by omega)
    have hstamp : stampRow (conflictedMachines []) = id := funext fun _ ↦ rfl
    rw [hstamp, List.map_id]

theorem get?_conflictedMachines {conflicts : List IdentityConflict} {id : String} {state : IdentityState}
    (h : (conflictedMachines conflicts).get? id = some state) :
    ∃ conflict ∈ conflicts, conflict.machine_id = id ∧ conflict.kind.state = state := by
  induction conflicts using List.reverseRecOn with
  | nil => cases h
  | append_singleton conflicts conflict ih =>
    rw [conflictedMachines, foldl_append, foldl_cons, foldl_nil, InsertionMap.get?_set] at h
    split at h
    · rename_i hid
      exact ⟨conflict, by simp, hid, Option.some.inj h⟩
    · obtain ⟨other, hmem, hother⟩ := ih h
      exact ⟨other, mem_append_left _ hmem, hother⟩

theorem get?_conflictedMachines_isSome {conflicts : List IdentityConflict} {conflict : IdentityConflict}
    (h : conflict ∈ conflicts) : ((conflictedMachines conflicts).get? conflict.machine_id).isSome = true := by
  induction conflicts using List.reverseRecOn with
  | nil => cases h
  | append_singleton conflicts last ih =>
    rw [conflictedMachines, foldl_append, foldl_cons, foldl_nil, InsertionMap.get?_set]
    split
    · rfl
    · rename_i hne
      rcases mem_append.mp h with hmem | hmem
      · exact ih hmem
      · rw [mem_singleton.mp hmem] at hne
        exact absurd rfl hne

theorem ConflictKind.state_mem (kind : ConflictKind) : kind.state ∈ BLOCKING_IDENTITY_STATES := by
  rcases kind <;> decide

theorem keptRow_stampRow (row : RosterRow) : KeptRow row (stampRow (conflictedMachines conflicts) row) := by
  unfold stampRow
  split
  · rename_i state hstate
    obtain ⟨conflict, -, -, rfl⟩ := get?_conflictedMachines hstate
    exact .inr ⟨conflict.kind.state, conflict.kind.state_mem, rfl⟩
  · exact .inl rfl

end Stamp

/-! ## The conflicts that are found -/

section Conflicts

variable {rows : List RosterRow} {row row' : RosterRow} {key key' : String}

/-- Where every row with a key changes the value at its alias, what its change brings about and later ones keep
holds of the value. -/
theorem exists_at_alias {γ : Type*} {g : RosterRow → String → Option γ → γ} {P : γ → Prop}
    (hnew : ∀ old, P (g row key old)) (hkeep : ∀ r k old, P old → P (g r k (some old)))
    (hrow : row ∈ rows) (hkey : presentKey row = some key) :
    ∃ value, (rows.foldl (fun (claims : InsertionMap String γ) r ↦ match presentKey r with
      | none => claims
      | some k => claims.set r.sshAlias (g r k (claims.get? r.sshAlias))) ∅).get? row.sshAlias = some value ∧
        P value := by
  induction rows using List.reverseRecOn with
  | nil => cases hrow
  | append_singleton rows last ih =>
    rw [foldl_append, foldl_cons, foldl_nil]
    obtain hold | hlast : row ∈ rows ∨ row = last := by simpa using hrow
    · obtain ⟨value, hvalue, hP⟩ := ih hold
      split
      · exact ⟨value, hvalue, hP⟩
      · by_cases halias : last.sshAlias = row.sshAlias
        · exact ⟨_, by rw [halias, get?_set_self, hvalue], hkeep _ _ _ hP⟩
        · exact ⟨value, by rw [get?_set_of_ne _ _ halias, hvalue], hP⟩
    · subst hlast
      rw [hkey]
      exact ⟨_, get?_set_self _ _ _, hnew _⟩

theorem aliasByKey_claims (hrow : row ∈ rows) (hkey : presentKey row = some key) :
    ∃ keys, (aliasByKey rows).get? row.sshAlias = some keys ∧ keys.contains key = true := by
  refine exists_at_alias (g := fun _ k (old : Option (InsertionSet String)) ↦ (old.getD ∅).add k)
    (fun old ↦ ?_) (fun r k old h ↦ ?_) hrow hkey
  · rw [InsertionSet.add, contains_set]
    simp
  · rw [getD_some, InsertionSet.add, contains_set]
    simp [h]

theorem aliasMachines_lists (hrow : row ∈ rows) (hkey : presentKey row = some key) :
    ∃ machines, (aliasMachines rows).get? row.sshAlias = some machines ∧ row.machine_id ∈ machines :=
  exists_at_alias (g := fun r _ old ↦ old.getD [] ++ [r.machine_id])
    (fun _ ↦ mem_append_right _ (mem_singleton_self _)) (fun _ _ _ h ↦ mem_append_left _ h) hrow hkey

theorem one_lt_size {keys : InsertionSet String} (hkey : keys.contains key = true)
    (hkey' : keys.contains key' = true) (hne : key ≠ key') : 1 < InsertionMap.size keys := by
  rw [InsertionMap.contains_iff] at hkey hkey'
  have hlength : InsertionMap.size keys = (InsertionMap.keys keys).length := by
    rw [InsertionMap.size, InsertionMap.keys, length_map]
  rw [hlength]
  rcases hlist : InsertionMap.keys keys with _ | ⟨first, _ | ⟨second, rest⟩⟩
  · rw [hlist] at hkey
    cases hkey
  · rw [hlist, mem_singleton] at hkey hkey'
    exact absurd (hkey.trans hkey'.symm) hne
  · rw [length_cons, length_cons]
    omega

theorem mem_aliasConflicts (hrow : row ∈ rows) (hrow' : row' ∈ rows) (hkey : presentKey row = some key)
    (hkey' : presentKey row' = some key') (hne : key ≠ key') (halias : row.sshAlias = row'.sshAlias) :
    ∃ conflict ∈ aliasConflicts rows, conflict.machine_id = row.machine_id := by
  obtain ⟨keys, hkeys, hcontains⟩ := aliasByKey_claims hrow hkey
  obtain ⟨keys', hkeys', hcontains'⟩ := aliasByKey_claims hrow' hkey'
  obtain rfl : keys = keys' := by
    rw [← halias, hkeys] at hkeys'
    exact Option.some.inj hkeys'
  obtain ⟨machines, hmachines, hlisted⟩ := aliasMachines_lists hrow hkey
  have hentry : (row.sshAlias, keys) ∈ (aliasByKey rows).entries := (InsertionMap.get?_eq_some_iff _ _ _).mp hkeys
  refine ⟨aliasConflict row.sshAlias keys.size row.machine_id,
    mem_flatMap.mpr ⟨(row.sshAlias, keys), hentry, ?_⟩, rfl⟩
  dsimp only
  rw [if_pos (one_lt_size hcontains hcontains' hne), hmachines]
  exact List.mem_map.mpr ⟨row.machine_id, hlisted, rfl⟩

theorem kind_of_mem_aliasConflicts {conflict : IdentityConflict} (h : conflict ∈ aliasConflicts rows) :
    conflict.kind = .aliasConflict := by
  obtain ⟨⟨sshAlias, keys⟩, -, hmem⟩ := mem_flatMap.mp h
  dsimp only at hmem
  split at hmem
  · obtain ⟨id, -, rfl⟩ := List.mem_map.mp hmem
    rfl
  · cases hmem

theorem mem_of_prevKeyByMachine {id : String} (h : (prevKeyByMachine rows).get? id = some key) :
    ∃ row ∈ rows, row.machine_id = id ∧ presentKey row = some key := by
  induction rows using List.reverseRecOn with
  | nil => cases h
  | append_singleton rows last ih =>
    rw [prevKeyByMachine, foldl_append, foldl_cons, foldl_nil, ← prevKeyByMachine] at h
    have hold (h : (prevKeyByMachine rows).get? id = some key) :
        ∃ row ∈ rows ++ [last], row.machine_id = id ∧ presentKey row = some key := by
      obtain ⟨row, hmem, hrow⟩ := ih h
      exact ⟨row, mem_append_left _ hmem, hrow⟩
    rcases hlast : presentKey last with _ | lastKey
    · rw [hlast] at h
      exact hold h
    · rw [hlast] at h
      rw [InsertionMap.get?_set] at h
      split at h
      · rename_i hid
        exact ⟨last, by simp, hid, hlast.trans h⟩
      · exact hold h

theorem keyConflicts_eq_nil {doc : RosterDocument} (hone : OneRow doc.rows) (hrow : changesKey doc row = false) :
    keyConflicts (upsertRosterRow doc row).rows doc.rows = [] := by
  refine filterMap_eq_nil_iff.mpr fun r hr ↦ ?_
  rcases hkey : presentKey r with _ | key
  · rfl
  rcases hprev : (prevKeyByMachine doc.rows).get? r.machine_id with _ | prevKey
  · rfl
  obtain ⟨p, hp, hid, hpkey⟩ := mem_of_prevKeyByMachine hprev
  have heq : prevKey = key := by
    rcases mem_upsertRosterRow.mp hr with rfl | ⟨hmem, -⟩
    · -- the row that is found is the only one of the machine
      rcases hfind : doc.rows.find? (fun existing ↦ existing.machine_id = r.machine_id) with _ | existing
      · exact absurd (by simpa using hid) (find?_eq_none.mp hfind p hp)
      · have hexisting : existing = p :=
          hone.eq (mem_of_find?_eq_some hfind) hp
            ((by simpa using find?_some hfind : existing.machine_id = r.machine_id).trans hid.symm)
        simpa [changesKey, hfind, hexisting, hpkey, hkey] using hrow
    · rw [hone.eq hp hmem hid, hkey] at hpkey
      exact (Option.some.inj hpkey).symm
  simp [heq]

end Conflicts

/-! ## Stored reports -/

structure Stored (file : StoreFile) (op : ReportOp) (row : RosterRow) : Prop where
  wellFormed : row.WellFormed
  unchanged : changesKey (loadRoster file) row = false
  response : (rosterReportResponse op.1 op.2 file).2 = .ok row.machine_id
  rows : (loadRoster (reportStep file op)).rows = (upsertRosterRow (loadRoster file) row).rows.map (stampRow
    (conflictedMachines (detectIdentityConflicts (upsertRosterRow (loadRoster file) row) (some (loadRoster file)))))

theorem stored_of_report {op : ReportOp} {parsed : JsonValue} {row : RosterRow}
    (hrow : parseRosterRow parsed = .ok row) (hkey : changesKey (loadRoster file) row = false)
    (h : rosterReportResponse op.1 op.2 file = (.json (documentJson { stampConflicts (detectIdentityConflicts
        (upsertRosterRow (loadRoster file) row) (some (loadRoster file))) (upsertRosterRow (loadRoster file) row)
      with schema_version := ROSTER_SCHEMA_VERSION }), .ok row.machine_id)) : Stored file op row := by
  have hwellFormed := wellFormed_of_parseRosterRow hrow
  refine ⟨hwellFormed, hkey, by rw [h], ?_⟩
  rw [reportStep, h, ← stampConflicts_rows, loadRoster, parseRosterDocument_documentJson]
  intro r hr
  rw [stampConflicts_rows, List.mem_map] at hr
  obtain ⟨r, hr, rfl⟩ := hr
  have hr' : r.WellFormed := by
    rcases mem_upsertRosterRow.mp hr with rfl | ⟨hmem, -⟩
    · exact hwellFormed
    · exact wellFormed_of_mem_loadRoster hmem
  exact ⟨by rw [stampRow_machine_id]; exact hr'.machine_id, by rw [stampRow_identity_key]; exact hr'.identity_key⟩

/-- A report is refused and changes nothing, or it is stored; one that leaves out a key and is refused for
nothing else is stored. -/
theorem refused_or_stored (file : StoreFile) (op : ReportOp) :
    (∃ error, rosterReportResponse op.1 op.2 file = (file, .refused error)) ∨
    ∃ parsed row, op.2.parsed = some parsed ∧ parseRosterRow parsed = .ok row ∧ op.1.loopback = true ∧
      op.1.writable = true ∧ op.2.length ≤ MAX_BODY_BYTES ∧ Stored file op row := by
  rcases report_cases op file with hrefused |
    ⟨parsed, row, hparsed, hrow, hloopback, hwritable, hlength, hkey, hreport⟩
  · exact .inl hrefused
  · exact .inr ⟨parsed, row, hparsed, hrow, hloopback, hwritable, hlength, stored_of_report hrow hkey hreport⟩

section Law

variable {file : StoreFile} {op : ReportOp} {row : RosterRow}

theorem RosterRow.WellFormed.presentKey_eq (h : row.WellFormed) : presentKey row = row.identity_key := by
  rcases hkey : row.identity_key with _ | key
  · simp [presentKey, hkey]
  · have hne : key ≠ "" := by
      rintro rfl
      have hblank := h.identity_key "" hkey
      exact absurd hblank (by decide)
    simp [presentKey, hkey, hne]

theorem Stored.oneRow (h : Stored file op row) (hone : OneRow (loadRoster file).rows) :
    OneRow (loadRoster (reportStep file op)).rows := by
  have hids : ∀ rows : List RosterRow, ∀ machines, (rows.map (stampRow machines)).map RosterRow.machine_id
      = rows.map RosterRow.machine_id := by
    intro rows machines
    rw [List.map_map]
    exact map_congr_left fun _ _ ↦ stampRow_machine_id
  rw [h.rows, OneRow, hids]
  exact oneRow_upsertRosterRow hone row

variable {r : RosterRow}

section

variable (h : Stored file op row)

include h

theorem Stored.mem_rows (hr : r ∈ (loadRoster (reportStep file op)).rows) :
    ∃ r' ∈ (upsertRosterRow (loadRoster file) row).rows, r'.machine_id = r.machine_id ∧
      r'.identity_key = r.identity_key ∧ r'.sshAlias = r.sshAlias ∧ KeptRow r' r := by
  rw [h.rows, List.mem_map] at hr
  obtain ⟨r', hr', rfl⟩ := hr
  exact ⟨r', hr', by simp, by simp, by simp, keptRow_stampRow _ r'⟩

theorem Stored.exists_mem_rows (hr : r ∈ (upsertRosterRow (loadRoster file) row).rows) :
    ∃ r' ∈ (loadRoster (reportStep file op)).rows,
      r'.machine_id = r.machine_id ∧ r'.identity_key = r.identity_key := by
  rw [h.rows]
  exact ⟨_, List.mem_map_of_mem hr, stampRow_machine_id, stampRow_identity_key⟩

theorem Stored.wellFormed_upsert (hr : r ∈ (upsertRosterRow (loadRoster file) row).rows) : r.WellFormed := by
  rcases mem_upsertRosterRow.mp hr with rfl | ⟨hmem, -⟩
  · exact h.wellFormed
  · exact wellFormed_of_mem_loadRoster hmem

theorem Stored.keys (hone : OneRow (loadRoster file).rows) {existing r : RosterRow}
    {key : String} (hexisting : existing ∈ (loadRoster file).rows) (hkey : existing.identity_key = some key)
    (hcarries : existing.machine_id = row.machine_id → row.identity_key ≠ none)
    (hr : r ∈ (loadRoster (reportStep file op)).rows) (hid : r.machine_id = existing.machine_id) :
    r.identity_key = some key := by
  obtain ⟨r', hr', hid', hkey', -, -⟩ := h.mem_rows hr
  rw [← hkey']
  rcases mem_upsertRosterRow.mp hr' with rfl | ⟨hmem, -⟩
  · -- the machine's own report: it has a key, and it was not refused for another one
    have hmachine : existing.machine_id = r'.machine_id := (hid'.trans hid).symm
    obtain ⟨newKey, hnew⟩ := ne_none_iff_exists'.mp (hcarries hmachine)
    rcases hfind : (loadRoster file).rows.find? (fun other ↦ other.machine_id = r'.machine_id) with _ | found
    · exact absurd (by simpa using hmachine) (find?_eq_none.mp hfind existing hexisting)
    · have hfound : found = existing :=
        hone.eq (mem_of_find?_eq_some hfind) hexisting
          ((by simpa using find?_some hfind : found.machine_id = r'.machine_id).trans hmachine.symm)
      have hunchanged := h.unchanged
      rw [changesKey, hfind] at hunchanged
      dsimp only at hunchanged
      rw [hfound, (wellFormed_of_mem_loadRoster hexisting).presentKey_eq, hkey, h.wellFormed.presentKey_eq,
        hnew] at hunchanged
      rw [decide_eq_false_iff_not, not_not] at hunchanged
      rw [hnew, hunchanged]
  · rw [hone.eq hmem hexisting (hid'.trans hid), hkey]

theorem Stored.aliases (hone : OneRow (loadRoster file).rows) :
    AliasesResolved (loadRoster (reportStep file op)).rows := by
  -- every conflict that is found is of an alias, so every stamp is
  have hkinds : ∀ conflict ∈ detectIdentityConflicts (upsertRosterRow (loadRoster file) row)
      (some (loadRoster file)), conflict.kind = .aliasConflict := by
    intro conflict hmem
    rw [detectIdentityConflicts, elim_some, keyConflicts_eq_nil hone h.unchanged, append_nil] at hmem
    exact kind_of_mem_aliasConflicts hmem
  have hstamped : ∀ r ∈ (upsertRosterRow (loadRoster file) row).rows,
      ∀ r' ∈ (upsertRosterRow (loadRoster file) row).rows, ∀ key key', r.identity_key = some key →
      r'.identity_key = some key' → key ≠ key' → r.sshAlias = r'.sshAlias →
      (stampRow (conflictedMachines (detectIdentityConflicts (upsertRosterRow (loadRoster file) row)
        (some (loadRoster file)))) r).identity_state = some .aliasConflict := by
    intro r hr r' hr' key key' hkey hkey' hne halias
    obtain ⟨conflict, hmem, hid⟩ := mem_aliasConflicts hr hr'
      ((h.wellFormed_upsert hr).presentKey_eq.trans hkey) ((h.wellFormed_upsert hr').presentKey_eq.trans hkey')
      hne halias
    have hdetected : conflict ∈ detectIdentityConflicts (upsertRosterRow (loadRoster file) row)
        (some (loadRoster file)) := mem_append_left _ hmem
    have hsome := get?_conflictedMachines_isSome hdetected
    rw [hid] at hsome
    obtain ⟨state, hstate⟩ := isSome_iff_exists.mp hsome
    obtain ⟨other, hother, -, hkind⟩ := get?_conflictedMachines hstate
    rw [hkinds other hother] at hkind
    rw [stampRow, hstate, ← hkind]
    rfl
  have hblocked : ∀ r : RosterRow, r.identity_state = some .aliasConflict → selectPeer? r = none := by
    intro r hstate
    have hblocking : r.identity_state.any BLOCKING_IDENTITY_STATES.contains = true := by
      rw [hstate]
      decide
    unfold selectPeer?
    dsimp only
    rw [hblocking]
    split <;> rfl
  intro r hr r' hr' key key' hkey hkey' hne halias _
  rw [h.rows, List.mem_map] at hr hr'
  obtain ⟨r, hmem, rfl⟩ := hr
  obtain ⟨r', hmem', rfl⟩ := hr'
  rw [stampRow_identity_key] at hkey hkey'
  rw [stampRow_sshAlias, stampRow_sshAlias] at halias
  have hfirst := hstamped r hmem r' hmem' key key' hkey hkey' hne halias
  have hsecond := hstamped r' hmem' r hmem key' key hkey' hkey hne.symm halias.symm
  exact ⟨hfirst, hsecond, hblocked _ hfirst, hblocked _ hsecond⟩

end

end Law

theorem keyOwned_iff_carriesKey (hone : OneRow (loadRoster file).rows) (op : ReportOp) :
    KeyOwned file op ↔ ¬ OmitsKey file op := by
  rcases refused_or_stored file op with ⟨error, hrefused⟩ |
    ⟨parsed, row, hparsed, hrow, hloopback, hwritable, hlength, hstored⟩
  · have hnot : ¬ OmitsKey file op := by
      rintro ⟨hloopback, hwritable, hlength, parsed, row, hparsed, hrow, hkey, -⟩
      have hchanges : changesKey (loadRoster file) row = false := by
        unfold changesKey
        split
        · rfl
        · split
          · rename_i hnew
            simp [presentKey, hkey] at hnew
          · rfl
      have haccepted : (rosterReportResponse op.1 op.2 file).2 = .ok row.machine_id := by
        simp [rosterReportResponse, hloopback, hwritable, not_lt.mpr hlength, hparsed, hrow, hchanges]
      rw [hrefused] at haccepted
      cases haccepted
    refine iff_of_true ⟨fun _ _ ↦ by rw [reportStep, hrefused], ?_, ?_, ?_, ?_⟩ hnot <;>
    · intro machine_id hok
      rw [hrefused] at hok
      cases hok
  · constructor
    · rintro hlaw ⟨-, -, -, parsed', row', hparsed', hrow', hnone, existing, hexisting, hid, hkey⟩
      obtain rfl : parsed = parsed' := Option.some.inj (hparsed.symm.trans hparsed')
      obtain rfl : row = row' := Except.ok.inj (hrow.symm.trans hrow')
      obtain ⟨key, hkey⟩ := ne_none_iff_exists'.mp hkey
      obtain ⟨r, hr, hrid, hrkey⟩ := hstored.exists_mem_rows (mem_upsertRosterRow.mpr (.inl rfl))
      have hkept := (hlaw.keys row.machine_id hstored.response existing hexisting key hkey).2 r hr
        (hrid.trans hid.symm)
      rw [hrkey, hnone] at hkept
      cases hkept
    · intro hcarries
      have hok : ∀ machine_id, (rosterReportResponse op.1 op.2 file).2 = .ok machine_id →
          row.machine_id = machine_id := by
        intro machine_id hok
        rw [hstored.response] at hok
        exact ReportResponse.ok.inj hok
      refine ⟨?_, ?_, ?_, ?_, fun _ _ ↦ hstored.aliases hone⟩
      · intro error hrefused
        rw [hstored.response] at hrefused
        cases hrefused
      · intro machine_id _ existing hexisting key hkey
        have hown : existing.machine_id = row.machine_id → row.identity_key ≠ none := by
          intro hid hnone
          exact hcarries ⟨hloopback, hwritable, hlength, parsed, row, hparsed, hrow, hnone, existing, hexisting, hid,
            by simp [hkey]⟩
        refine ⟨?_, fun r hr hid ↦ hstored.keys hone hexisting hkey hown hr hid⟩
        have hmem : ∃ r ∈ (upsertRosterRow (loadRoster file) row).rows, r.machine_id = existing.machine_id := by
          by_cases hid : existing.machine_id = row.machine_id
          · exact ⟨row, mem_upsertRosterRow.mpr (.inl rfl), hid.symm⟩
          · exact ⟨existing, mem_upsertRosterRow.mpr (.inr ⟨hexisting, hid⟩), rfl⟩
        obtain ⟨r, hr, hid⟩ := hmem
        obtain ⟨r', hr', hid', -⟩ := hstored.exists_mem_rows hr
        exact ⟨r', hr', hid'.trans hid⟩
      · intro machine_id hresponse i existing hexisting hne
        obtain rfl := hok machine_id hresponse
        exact ⟨_, by rw [hstored.rows, getElem?_map, getElem?_upsertRosterRow hexisting hne, map_some],
          keptRow_stampRow _ existing⟩
      · intro machine_id hresponse r hr hne
        obtain rfl := hok machine_id hresponse
        obtain ⟨r', hr', hid, -, -, hkept⟩ := hstored.mem_rows hr
        rcases mem_upsertRosterRow.mp hr' with rfl | ⟨hmem, -⟩
        · exact absurd hid.symm hne
        · exact ⟨r', hmem, hkept⟩

theorem oneRow_reportStep (hone : OneRow (loadRoster file).rows) (op : ReportOp) :
    OneRow (loadRoster (reportStep file op)).rows := by
  rcases refused_or_stored file op with ⟨error, hrefused⟩ | ⟨-, row, -, -, -, -, -, hstored⟩
  · rw [reportStep, hrefused]
    exact hone
  · exact hstored.oneRow hone

/-- **From a roster with one row a machine, the identity of every machine is owned by its first key exactly in
the runs in which no machine that has a key leaves it out of a report.** -/
theorem keyOwned_iff {start : StoreFile} (hone : OneRow (loadRoster start).rows) (reports : List ReportOp) :
    Guarded reportStep KeyOwned start reports ↔
      Guarded reportStep (fun file op ↦ ¬ OmitsKey file op) start reports :=
  guarded_iff_of_invariant (I := fun file ↦ OneRow (loadRoster file).rows)
    (fun _ op hone ↦ keyOwned_iff_carriesKey hone op) (fun _ op hone _ ↦ oneRow_reportStep hone op) hone

/-- A report of a machine, with or without its key. -/
def reportOf (identity_key : Option String) : ReportOp :=
  (⟨true, true⟩, ⟨300, some (rowJson ⟨"laptop", "Laptop", "client", [], "lap", "ssh", "2026-01-01", .reachable, none,
    none, identity_key, none⟩)⟩)

theorem keyOwned_refreshed : OneRow (loadRoster .absent).rows ∧
    (Guarded reportStep KeyOwned .absent [reportOf (some "SHA256:a"), reportOf (some "SHA256:a")] ↔
      Guarded reportStep (fun file op ↦ ¬ OmitsKey file op) .absent
        [reportOf (some "SHA256:a"), reportOf (some "SHA256:a")]) := by
  have hone : OneRow (loadRoster .absent).rows := List.nodup_nil
  exact ⟨hone, keyOwned_iff hone _⟩

/-- A machine that reports again without its key has none. -/
theorem not_keyOwned_omitted : ¬ ∀ (start : StoreFile) (reports : List ReportOp), OneRow (loadRoster start).rows →
    Guarded reportStep KeyOwned start reports := by
  intro h
  have hrun := h .absent [reportOf (some "SHA256:a"), reportOf none] List.nodup_nil
  have hkeys := hrun.2.1.keys "laptop" (by decide +kernel)
    ⟨"laptop", "Laptop", "client", [], "lap", "ssh", "2026-01-01", .reachable, none, none, some "SHA256:a", none⟩
    (by decide +kernel) "SHA256:a" rfl
  have hrow := hkeys.2
    ⟨"laptop", "Laptop", "client", [], "lap", "ssh", "2026-01-01", .reachable, none, none, none, none⟩
    (by decide +kernel) rfl
  cases hrow

end Amicode.Roster
