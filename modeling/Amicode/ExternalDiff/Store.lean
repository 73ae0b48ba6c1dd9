import Mathlib.Data.Int.Notation
import Mathlib.Data.List.Nodup

/-!
# The files a session has changed outside its directory

For each session, the files outside its directory that its tools change are tracked (`session/external-diff.ts`): what
a file was at first, and what the last committed change has left. A change is prepared before it is made and committed
or aborted afterwards. What is tracked is kept in memory and in a manifest, with the first contents in artifact files
beside it, so that a restart can read it again. Any write of a manifest or an artifact can fail, with an exception
that leaves the call.

Times and answers of the file system are given with the calls. A JSON text that is read back is the value it was
written from, so the manifest is kept as that value.
-/

namespace Amicode.ExternalDiff

/-! ## What is kept -/

inductive Endpoint
  | present (content : String)
  | absent
  deriving DecidableEq

structure Expected where
  present : Bool
  digest : Option String
  deriving DecidableEq

/-- A tracked file. Its reference is the number of the UUID it is made from. -/
structure Entry where
  reference : ℕ
  file : String
  baseline : Endpoint
  expected : Option Expected
  revision : ℕ
  unavailable : Bool
  deriving DecidableEq

structure PersistedBaseline where
  present : Bool
  artifact : Option ℕ

structure PersistedEntry where
  reference : ℕ
  file : String
  baseline : PersistedBaseline
  expected : Option Expected
  revision : ℕ
  unavailable : Bool

structure Manifest where
  generation : ℕ
  entries : List PersistedEntry
  leases : List ℕ

structure ReservedEndpoint where
  reference : ℕ
  file : String
  revision : ℕ
  capability : ℕ
  created : Bool
  deriving DecidableEq

/-- What a caller of `prepare` is given. -/
structure PreparedReservation where
  id : ℕ
  sessionID : String
  expiresAt : ℤ
  endpoints : List ReservedEndpoint

inductive ReservationState
  | prepared
  | committed
  deriving DecidableEq

structure Reservation extends PreparedReservation where
  state : ReservationState

/-- The files of one session: its tombstone, its manifest and its artifacts. -/
structure SessionDisk where
  tombstone : Bool
  manifest : Option Manifest
  artifacts : ℕ → Option String

structure State where
  /-- The tracked files as they are now, `none` if one cannot be read. -/
  files : String → Option Endpoint
  disk : String → SessionDisk
  entries : String → List Entry
  reservations : List Reservation
  hydrated : List String
  /-- The UUIDs drawn so far. -/
  uuids : ℕ

/-- Nothing has been tracked. -/
def State.start (files : String → Option Endpoint) : State where
  files := files
  disk := fun _ ↦ ⟨false, none, fun _ ↦ none⟩
  entries := fun _ ↦ []
  reservations := []
  hydrated := []
  uuids := 0

/-! ## Writes -/

/-- How a write ends: done, refused for a tombstone, or with an exception. -/
inductive Outcome
  | done
  | refused
  | threw
  deriving DecidableEq

def Entry.persisted (entry : Entry) : PersistedEntry where
  reference := entry.reference
  file := entry.file
  baseline :=
    match entry.baseline with
    | .present _ => ⟨true, some entry.reference⟩
    | .absent => ⟨false, none⟩
  expected := entry.expected
  revision := entry.revision
  unavailable := entry.unavailable

def SessionDisk.persist (disk : SessionDisk) (session : List Entry) (leases : List ℕ) (fails : Bool) :
    SessionDisk × Outcome :=
  if disk.tombstone then (disk, .refused)
  else if fails then (disk, .threw)
  else
    ({ disk with
        manifest := some
          { generation := (disk.manifest.elim 0 (·.generation)) + 1
            entries := session.map (·.persisted)
            leases := leases } }, .done)

def SessionDisk.writeArtifact (disk : SessionDisk) (entry : Entry) (fails : Bool) : SessionDisk × Outcome :=
  match entry.baseline with
  | .absent => (disk, .done)
  | .present content =>
    if disk.tombstone then (disk, .refused)
    else if fails then (disk, .threw)
    else ({ disk with artifacts := Function.update disk.artifacts entry.reference (some content) }, .done)

/-- A write of `prepare`: the manifest with the leases, the artifact of a file, the manifest without leases. -/
inductive Write
  | lease
  | artifact (file : String)
  | manifest
  deriving DecidableEq

def SessionDisk.writeArtifacts (disk : SessionDisk) (fails : List Write) : List Entry → SessionDisk × Outcome
  | [] => (disk, .done)
  | entry :: created =>
    match disk.writeArtifact entry (Write.artifact entry.file ∈ fails) with
    | (disk, .done) => disk.writeArtifacts fails created
    | result => result

/-- The lease is published before the artifacts. -/
def SessionDisk.publish (disk : SessionDisk) (session created : List Entry) (fails : List Write) :
    SessionDisk × Outcome :=
  match disk.persist session (created.map (·.reference)) (Write.lease ∈ fails) with
  | (disk, .done) =>
    match disk.writeArtifacts fails created with
    | (disk, .done) => disk.persist session [] (Write.manifest ∈ fails)
    | result => result
  | result => result

/-! ## Reading back -/

def setEntry (session : List Entry) (entry : Entry) : List Entry :=
  if entry.file ∈ session.map (·.file) then session.map fun e ↦ if e.file = entry.file then entry else e
  else session ++ [entry]

def PersistedEntry.restore (artifacts : ℕ → Option String) (stored : PersistedEntry) : Entry :=
  let content := if stored.baseline.present then stored.baseline.artifact.bind artifacts else none
  { reference := stored.reference
    file := stored.file
    baseline := content.elim .absent .present
    expected := stored.expected
    revision := stored.revision
    unavailable := stored.unavailable || (stored.baseline.present && content.isNone) }

/-- The entries `hydrate` reads. -/
def SessionDisk.restored (disk : SessionDisk) : List Entry :=
  if disk.tombstone then []
  else
    match disk.manifest with
    | none => []
    | some manifest => (manifest.entries.map (·.restore disk.artifacts)).foldl setEntry []

/-- A directory without a manifest, or with a tombstone, is removed. -/
def SessionDisk.swept (disk : SessionDisk) : SessionDisk :=
  if disk.tombstone ∨ disk.manifest = none then { disk with manifest := none, artifacts := fun _ ↦ none } else disk

instance (disk : SessionDisk) : Decidable (disk.tombstone ∨ disk.manifest = none) :=
  match disk.manifest with
  | none => .isTrue (.inr rfl)
  | some _ => decidable_of_iff (disk.tombstone = true) (by simp)

namespace State

def sweep (s : State) (now : ℤ) : State :=
  { s with
    disk := fun id ↦ (s.disk id).swept
    reservations := s.reservations.filter fun reservation ↦ ¬ reservation.expiresAt < now }

def hydrate (s : State) (sessionID : String) (now : ℤ) : State :=
  let s := s.sweep now
  if sessionID ∈ s.hydrated then s
  else
    let session := (s.disk sessionID).restored
    { s with
      hydrated := sessionID :: s.hydrated
      entries := if session = [] then s.entries else Function.update s.entries sessionID session }

/-- Memory is lost, and the files are kept. -/
def restart (s : State) : State := { s with entries := fun _ ↦ [], reservations := [], hydrated := [] }

/-- What a session tracks: what it has in memory, or else what it will read. -/
def tracked (s : State) (sessionID : String) : List Entry :=
  if sessionID ∈ s.hydrated then s.entries sessionID else (s.disk sessionID).restored

end State

/-! ## Reservations -/

/-- What a call returns, unless an exception leaves it. -/
inductive Returned (α : Type)
  | value (value : α)
  | thrown

/-- The entries and endpoints of a reservation, in the order of its files. -/
def reserveFiles (s : State) (session : List Entry) : ℕ → List String → List Entry × List ReservedEndpoint
  | _, [] => ([], [])
  | uuid, file :: files =>
    match session.find? (·.file = file) with
    | some existing =>
      let (created, endpoints) := reserveFiles s session (uuid + 1) files
      (created, ⟨existing.reference, file, existing.revision, uuid, false⟩ :: endpoints)
    | none =>
      let entry : Entry := ⟨uuid, file, (s.files file).getD .absent, none, 0, false⟩
      let (created, endpoints) := reserveFiles s session (uuid + 2) files
      (entry :: created, ⟨uuid, file, 0, uuid + 1, true⟩ :: endpoints)

section Calls

variable (canonical : String → String) (sha256 : String → String)

namespace State

def prepare (s : State) (sessionID : String) (files : List String) (ttlMs now : ℤ) (fails : List Write) :
    State × Returned (Option PreparedReservation) :=
  if (s.disk sessionID).tombstone then (s, .value none)
  else
    let s := s.hydrate sessionID now
    let files := files.map canonical
    let current := s.entries sessionID
    if files = [] ∨ ¬ files.Nodup then (s, .value none)
    else if ∃ file ∈ files, file ∉ current.map (·.file) ∧ s.files file = none then (s, .value none)
    else
      let (created, endpoints) := reserveFiles s current s.uuids files
      let session := current ++ created
      -- two for each file at most, and one for the reservation
      let uuids := s.uuids + 2 * files.length + 1
      match (s.disk sessionID).publish session created fails with
      | (disk, .done) =>
        let reservation : PreparedReservation := ⟨uuids - 1, sessionID, now + ttlMs, endpoints⟩
        ({ s with
            disk := Function.update s.disk sessionID disk
            entries := Function.update s.entries sessionID session
            reservations := s.reservations ++ [⟨reservation, .prepared⟩]
            uuids := uuids }, .value (some reservation))
      | (disk, .refused) =>
        ({ s with
            disk := Function.update s.disk sessionID disk
            entries := Function.update s.entries sessionID (session.filter fun e ↦ e.file ∉ created.map (·.file))
            uuids := uuids }, .value none)
      | (disk, .threw) =>
        ({ s with
            disk := Function.update s.disk sessionID disk
            entries := Function.update s.entries sessionID session
            uuids := uuids }, .thrown)

/-- The endpoints of the caller are those of the reservation. -/
def sameEndpoints (stored candidates : List ReservedEndpoint) : Bool :=
  stored.length = candidates.length ∧ ∀ pair ∈ stored.zip candidates,
    pair.1.reference = pair.2.reference ∧ pair.1.capability = pair.2.capability ∧
      pair.1.revision = pair.2.revision ∧ pair.1.file = pair.2.file

def revision? (s : State) (sessionID file : String) : Option ℕ :=
  ((s.entries sessionID).find? (·.file = file)).map (·.revision)

def valid (s : State) (sessionID : String) (reservation : PreparedReservation) (now : ℤ) : Option Reservation :=
  if (s.disk sessionID).tombstone then none
  else
    match s.reservations.find? (·.id = reservation.id) with
    | none => none
    | some stored =>
      if stored.sessionID ≠ sessionID ∨ stored.sessionID ≠ reservation.sessionID then none
      else if stored.expiresAt ≠ reservation.expiresAt then none
      else if sameEndpoints stored.endpoints reservation.endpoints = false then none
      else if stored.state = .committed then some stored
      else if stored.expiresAt < now then none
      else if s.entries sessionID = [] ∨
          ∃ endpoint ∈ stored.endpoints, s.revision? sessionID endpoint.file ≠ some endpoint.revision then none
      else some stored

def digest : Endpoint → Expected
  | .present content => ⟨true, some (sha256 content)⟩
  | .absent => ⟨false, none⟩

def commitEndpoint (s : State) (session : List Entry) (endpoint : ReservedEndpoint) : List Entry :=
  session.map fun entry ↦
    if entry.file = endpoint.file then
      { entry with expected := (s.files endpoint.file).map (digest sha256), revision := entry.revision + 1 }
    else entry

def commit (s : State) (sessionID : String) (reservation : PreparedReservation) (now : ℤ) (fails : Bool) :
    State × Returned Bool :=
  match s.valid sessionID reservation now with
  | none => (s, .value false)
  | some stored =>
    if stored.state = .committed then (s, .value true)
    else if ∃ endpoint ∈ stored.endpoints, s.files endpoint.file = none then (s, .value false)
    else
      let session := stored.endpoints.foldl (commitEndpoint sha256 s) (s.entries sessionID)
      let s := { s with entries := Function.update s.entries sessionID session }
      match (s.disk sessionID).persist session [] fails with
      | (disk, .done) =>
        ({ s with
            disk := Function.update s.disk sessionID disk
            reservations := s.reservations.map fun r ↦ if r.id = stored.id then { r with state := .committed } else r },
          .value true)
      | (_, .refused) => (s, .value false)
      | (_, .threw) => (s, .thrown)

/-- The entry was created for the endpoint, and nothing has been committed to it. -/
def dropped (session : List Entry) (endpoint : ReservedEndpoint) : Bool :=
  endpoint.created && ((session.find? (·.file = endpoint.file)).bind (·.expected)).isNone

def abort (s : State) (sessionID : String) (reservation : PreparedReservation) (now : ℤ) (fails : Bool) :
    State × Returned Bool :=
  match s.valid sessionID reservation now with
  | none => (s, .value false)
  | some stored =>
    if stored.state ≠ .prepared then (s, .value false)
    else
      let endpoints := stored.endpoints.filter (dropped (s.entries sessionID))
      let session := (s.entries sessionID).filter fun e ↦ e.file ∉ endpoints.map (·.file)
      let disk := s.disk sessionID
      let disk : SessionDisk :=
        { disk with
          artifacts := fun reference ↦
            if reference ∈ endpoints.map (·.reference) then none else disk.artifacts reference }
      let s := { s with entries := Function.update s.entries sessionID session }
      let written := if session = [] then (disk, .done) else disk.persist session [] fails
      let s := { s with disk := Function.update s.disk sessionID written.1 }
      if written.2 = .threw then (s, .thrown)
      else ({ s with reservations := s.reservations.filter (·.id ≠ stored.id) }, .value true)

def remove (s : State) (sessionID : String) : State :=
  { s with
    disk := Function.update s.disk sessionID ⟨true, none, fun _ ↦ none⟩
    entries := Function.update s.entries sessionID []
    hydrated := if sessionID ∈ s.hydrated then s.hydrated else sessionID :: s.hydrated
    reservations := s.reservations.filter (·.sessionID ≠ sessionID) }

end State

end Calls

end Amicode.ExternalDiff
