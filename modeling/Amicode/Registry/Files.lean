import Amicode.Foundation.StepMachine
import Amicode.Hashing.ProblemSpec
import Amicode.Registry.Law

/-!
# The files of the registry

A verb reads records from their files and decides what to write (`fleet_verb.ts`), and a record is written to the file
of its session. Here a verb is one step; what other processes do between its reads and its writes is in
`Fleet.SingleWriter`. Files can be read and written, and the wording of refusals is left out.

Verbs are given over a codec. With the records themselves in place of their TOML, the same verbs keep a registry in
memory: both go through the same states and answer the same (`files_run`).
-/

namespace Amicode.Registry

open JsonTree JsData List Option
open Amicode.Fleet (FleetState FleetEvent Refusal isTerminal)

variable {ν φ : Type}

/-- How a record stands in its file. Reading is none where it throws. -/
structure Codec (ν φ : Type) where
  write : FleetRecord ν → φ
  read : φ → Option (Validated ν)

def tomlFiles (N : RecordNumbers ν) [DecidableEq ν] (toml : Toml ν) : Codec ν Text := ⟨toToml toml, fromToml N toml⟩

def inMemory (ν : Type) : Codec ν (FleetRecord ν) := ⟨id, fun rec ↦ some (.ok rec (profileWarnings rec.toData))⟩

/-- The record files, by session id. -/
abbrev Root (φ : Type) := InsertionMap Text φ

/-- What was read, and whether the file is missing. -/
def readRecord (c : Codec ν φ) (root : Text) (files : Root φ) (session_id : Text) : Option (Validated ν × Bool) :=
  if !isValidSessionId (JsData.str (ν := ν) session_id) then
    some (.err [ascii "session_id " ++ quoteJson session_id ++ ascii " is not a valid session id"] [], false)
  else match files.get? session_id with
    | none =>
      some (.err [ascii "no such session record: " ++ root ++ unit '/' :: session_id ++ ascii ".toml"] [], true)
    | some file => (c.read file).map fun r ↦ (r, false)

def writeRecord (c : Codec ν φ) (files : Root φ) (rec : FleetRecord ν) : Root φ :=
  files.set rec.session_id (c.write rec)

def listSessionIds (files : Root φ) : List Text :=
  Hashing.sortTexts (files.keys.filter fun id ↦ isValidSessionId (JsData.str (ν := Empty) id))

/-! ## The verbs -/

structure Host (ν : Type) where
  localHost : Text
  /-- `new Date().toISOString()`. -/
  now : Text
  /-- The runtime a record is finished with, from when it started and what it has. -/
  runtime : Text → ν → ν
  isPidAlive : ν → Bool

inductive Verb (ν : Type)
  | launch (session : Text) (pid : ν)
  | finish (session : Text) (settled : Bool) (pid : ν) (step : Option Text)
  | sweep (dryRun : Bool)

inductive Answer (ν : Type)
  | failed (refusal : Refusal)
  | written (rec : FleetRecord ν)
  | swept (marked : List (FleetRecord ν)) (unreadable : List (Text × List Text))

/-- The records that a verb writes, and its answer. -/
abbrev Decision (ν : Type) := List (FleetRecord ν) × Answer ν

section Verbs

variable (N : RecordNumbers ν) [DecidableEq ν] (host : Host ν) (read : Text → Option (Validated ν × Bool))

def launchedBy (session : Text) (pid : ν) : FleetRecord ν :=
  normalizeRecord N {
    schema := none, session_id := session, state := .running, current_step := none, started := some host.now
    tokens := none, runtime := none, respooled_to := none, pid := some pid, host := some host.localHost
    profile := {
      name := some (ascii "hunt"), base := some (ascii "hunt"), model := some [], variant := some []
      task_type := some (ascii "hunt"), skills := some [], gates := some [], permissions := some [] } }

/-- A record that is there is not written over, whether it can be read or not. -/
def fleetLaunch (session : Text) (pid : ν) : Option (Decision ν) :=
  if !isValidSessionId (JsData.str (ν := ν) session) then some ([], .failed .invalidSession)
  else (read session).map fun
    | (.err _ _, true) => ([launchedBy N host session pid], .written (launchedBy N host session pid))
    | _ => ([], .failed .alreadyExists)

/-- The holder's terminal write. -/
def finishRecord (rec : FleetRecord ν) (event : FleetEvent) (pid : ν) (step : Option Text) : Decision ν :=
  if Fleet.step rec.state event = none then ([], .failed .noEdge)
  else if rec.pid = N.zero then ([], .failed .unknownHolder)
  else if rec.pid ≠ pid then ([], .failed .otherHolder)
  else
    match applyEvent N rec event {
      respooled_to := none, pid := some N.zero, host := none, current_step := some (step.getD rec.current_step)
      tokens := none, runtime := some (host.runtime rec.started rec.runtime) } with
    | .error _ => ([], .failed .noEdge)
    | .ok rec' => ([rec'], .written rec')

def fleetFinish (session : Text) (settled : Bool) (pid : ν) (step : Option Text) : Option (Decision ν) :=
  if !isValidSessionId (JsData.str (ν := ν) session) then some ([], .failed .invalidSession)
  else (read session).map fun
    | (.err _ _, missing) => ([], .failed (if missing then .missing else .unreadable))
    | (.ok record _, _) => finishRecord N host record (if settled then .settle else .crash) pid step

/-- The verdict on a record, after its holder was probed where that is called for. -/
def sweeps (rec : FleetRecord ν) : Bool :=
  !isTerminal rec.state && (Fleet.step rec.state .crash).isSome
    && !(rec.host ≠ [] && host.localHost ≠ [] && rec.host ≠ host.localHost) && rec.pid ≠ N.zero
    && !((rec.host = [] || rec.host = host.localHost) && host.isPidAlive rec.pid)

/-- The record of an orphan, marked crashed. -/
def swept? (rec : FleetRecord ν) : Option (FleetRecord ν) :=
  if sweeps N host rec then (applyEvent N rec .crash ⟨none, none, none, none, none, none⟩).toOption else none

def readAllRecords : List Text → Option (List (FleetRecord ν) × List (Text × List Text))
  | [] => some ([], [])
  | id :: ids => do
    let (r, _) ← read id
    let (records, unreadable) ← readAllRecords ids
    return match r with
      | .ok record _ => (record :: records, unreadable)
      | .err errors _ => (records, (id, errors) :: unreadable)

def fleetSweep (dryRun : Bool) (ids : List Text) : Option (Decision ν) :=
  (readAllRecords read ids).map fun (records, unreadable) ↦
    (if dryRun then [] else records.filterMap (swept? N host), .swept (records.filterMap (swept? N host)) unreadable)

def decisionOf (ids : List Text) : Verb ν → Option (Decision ν)
  | .launch session pid => fleetLaunch N host read session pid
  | .finish session settled pid step => fleetFinish N host read session settled pid step
  | .sweep dryRun => fleetSweep N host read dryRun ids

end Verbs

/-- The files, and what the verbs have answered; none where one threw. -/
structure RegistryState (ν φ : Type) where
  files : Root φ
  answers : List (Option (Answer ν))

def registryStep (N : RecordNumbers ν) [DecidableEq ν] (c : Codec ν φ) (root : Text) (s : RegistryState ν φ)
    (op : Host ν × Verb ν) : RegistryState ν φ :=
  match decisionOf N op.1 (readRecord c root s.files) (listSessionIds s.files) op.2 with
  | none => { s with answers := s.answers ++ [none] }
  | some (written, answer) => ⟨written.foldl (writeRecord c) s.files, s.answers ++ [some answer]⟩

/-! ## Reading -/

/-- The records are valid, and each is filed under its own id. -/
def Kept (N : RecordNumbers ν) (files : Root (FleetRecord ν)) : Prop :=
  ∀ id rec, files.get? id = some rec → Valid N rec ∧ rec.session_id = id

/-- Reading does not throw, and what is read is valid. -/
def ReadsValid (N : RecordNumbers ν) (read : Text → Option (Validated ν × Bool)) : Prop :=
  ∀ id, ∃ r missing, read id = some (r, missing) ∧ ∀ rec warnings, r = .ok rec warnings → Valid N rec

/-- The holder has a pid, and time runs forward. -/
structure Checked (N : RecordNumbers ν) (op : Host ν × Verb ν) : Prop where
  pid : ∀ session pid, op.2 = .launch session pid → IsCount N pid
  runtime : ∀ started x, IsCount N x → IsCount N (op.1.runtime started x)

section

variable {N : RecordNumbers ν} [DecidableEq ν] {toml : Toml ν} {root : Text} {files : Root (FleetRecord ν)}
  {rec rec' : FleetRecord ν} {host : Host ν} {read : Text → Option (Validated ν × Bool)}

theorem readRecord_map (htoml : toml.Correct N.toNumbers) (h : Kept N files) (id : Text) :
    readRecord (tomlFiles N toml) root (files.map (toToml toml)) id = readRecord (inMemory ν) root files id := by
  rw [readRecord, readRecord, InsertionMap.get?_map]
  split
  · rfl
  · rcases hget : files.get? id with _ | rec
    · rfl
    · exact congrArg (·.map fun r ↦ (r, false)) (fromToml_toToml htoml (h id rec hget).1)

omit [DecidableEq ν] in
theorem readsValid (h : Kept N files) : ReadsValid N (readRecord (inMemory ν) root files) := by
  intro id
  rw [readRecord]
  split
  · exact ⟨_, _, rfl, fun _ _ h ↦ by cases h⟩
  · rcases hget : files.get? id with _ | rec
    · exact ⟨_, _, rfl, fun _ _ h ↦ by cases h⟩
    · refine ⟨_, _, rfl, fun r warnings hr ↦ ?_⟩
      cases hr
      exact (h id _ hget).1

/-! ## What the verbs write -/

theorem valid_finishRecord (hrec : Valid N rec)
    (hruntime : ∀ started x, IsCount N x → IsCount N (host.runtime started x)) {event : FleetEvent} {pid : ν}
    {step : Option Text} : ∀ r ∈ (finishRecord N host rec event pid step).1, Valid N r := by
  rw [finishRecord]
  split_ifs
  · exact forall_mem_nil _
  · exact forall_mem_nil _
  · exact forall_mem_nil _
  · split
    · exact forall_mem_nil _
    next happlied =>
      refine forall_mem_singleton.mpr (hrec.applyEvent ⟨?_, ?_, ?_⟩ happlied)
      · exact fun x hx ↦ Option.some.inj hx ▸ isCount_zero
      · exact fun x hx ↦ absurd hx (by simp)
      · exact fun x hx ↦ Option.some.inj hx ▸ hruntime _ _ hrec.runtime

theorem valid_swept (hrec : Valid N rec) (h : swept? N host rec = some rec') : Valid N rec' := by
  rw [swept?] at h
  split_ifs at h
  rcases happlied : applyEvent N rec .crash ⟨none, none, none, none, none, none⟩ with _ | r <;> rw [happlied] at h
  · cases h
  · obtain rfl := Option.some.inj h
    exact hrec.applyEvent (by constructor <;> simp) happlied

omit [DecidableEq ν] in
theorem readAllRecords_some (hread : ReadsValid N read) (ids : List Text) :
    ∃ records unreadable, readAllRecords read ids = some (records, unreadable) ∧ ∀ rec ∈ records, Valid N rec := by
  induction ids with
  | nil => exact ⟨[], [], rfl, forall_mem_nil _⟩
  | cons id ids ih =>
    obtain ⟨records, unreadable, hall, hvalid⟩ := ih
    obtain ⟨r, missing, hr, hok⟩ := hread id
    rcases r with ⟨record, warnings⟩ | ⟨errors, warnings⟩
    · exact ⟨record :: records, unreadable, by simp [readAllRecords, hr, hall],
        forall_mem_cons.mpr ⟨hok record warnings rfl, hvalid⟩⟩
    · exact ⟨records, (id, errors) :: unreadable, by simp [readAllRecords, hr, hall], hvalid⟩

theorem decisionOf_some {op : Host ν × Verb ν} (hread : ReadsValid N read) (hop : Checked N op) (ids : List Text) :
    ∃ d, decisionOf N op.1 read ids op.2 = some d ∧ ∀ rec ∈ d.1, Valid N rec := by
  obtain ⟨host, verb⟩ := op
  cases verb with
  | launch session pid =>
    obtain ⟨r, missing, hr, -⟩ := hread session
    rw [decisionOf, fleetLaunch, hr]
    split
    · exact ⟨_, rfl, forall_mem_nil _⟩
    next hsession =>
      have hid : isValidSessionId (JsData.str (ν := ν) session) = true := by simpa using hsession
      have hlaunched : Valid N (launchedBy N host session pid) :=
        ⟨rfl, isValidSessionId_str.mp hid, isCount_zero, isCount_zero, hop.pid session pid rfl, absurd rfl⟩
      rcases r with _ | _ <;> cases missing
      · exact ⟨_, rfl, forall_mem_nil _⟩
      · exact ⟨_, rfl, forall_mem_nil _⟩
      · exact ⟨_, rfl, forall_mem_nil _⟩
      · exact ⟨_, rfl, forall_mem_singleton.mpr hlaunched⟩
  | finish session settled pid step =>
    obtain ⟨r, missing, hr, hok⟩ := hread session
    rw [decisionOf, fleetFinish, hr]
    split
    · exact ⟨_, rfl, forall_mem_nil _⟩
    · rcases r with ⟨record, warnings⟩ | ⟨errors, warnings⟩
      · exact ⟨_, rfl, valid_finishRecord (hok record warnings rfl) hop.runtime⟩
      · exact ⟨_, rfl, forall_mem_nil _⟩
  | sweep dryRun =>
    obtain ⟨records, unreadable, hall, hvalid⟩ := readAllRecords_some hread ids
    refine ⟨_, by rw [decisionOf, fleetSweep, hall, Option.map_some], ?_⟩
    cases dryRun with
    | true => exact forall_mem_nil _
    | false =>
      intro rec' hrec'
      obtain ⟨rec, hrec, hswept⟩ := mem_filterMap.mp hrec'
      exact valid_swept (hvalid rec hrec) hswept

/-! ## Runs -/

omit [DecidableEq ν] in
theorem Kept.write (h : Kept N files) {written : List (FleetRecord ν)} (hvalid : ∀ rec ∈ written, Valid N rec) :
    Kept N (written.foldl (writeRecord (inMemory ν)) files) := by
  induction written generalizing files with
  | nil => exact h
  | cons rec written ih =>
    obtain ⟨hrec, hwritten⟩ := forall_mem_cons.mp hvalid
    refine ih (fun id r hget ↦ ?_) hwritten
    rw [writeRecord, InsertionMap.get?_set] at hget
    split_ifs at hget with hid
    · cases hget
      exact ⟨hrec, hid⟩
    · exact h id r hget

theorem foldl_write_map (written : List (FleetRecord ν)) (files : Root (FleetRecord ν)) :
    written.foldl (writeRecord (tomlFiles N toml)) (files.map (toToml toml)) =
      (written.foldl (writeRecord (inMemory ν)) files).map (toToml toml) := by
  induction written generalizing files with
  | nil => rfl
  | cons rec written ih =>
    rw [foldl_cons, foldl_cons, ← ih, writeRecord, writeRecord, InsertionMap.map_set]
    rfl

/-- A registry in memory, as it is on disk. -/
def RegistryState.onDisk (toml : Toml ν) (s : RegistryState ν (FleetRecord ν)) : RegistryState ν Text :=
  ⟨s.files.map (toToml toml), s.answers⟩

theorem registryStep_onDisk (htoml : toml.Correct N.toNumbers) {s : RegistryState ν (FleetRecord ν)}
    (h : Kept N s.files) {op : Host ν × Verb ν} (hop : Checked N op) :
    registryStep N (tomlFiles N toml) root (s.onDisk toml) op = (registryStep N (inMemory ν) root s op).onDisk toml ∧
      Kept N (registryStep N (inMemory ν) root s op).files ∧
      ∃ answer, (registryStep N (inMemory ν) root s op).answers = s.answers ++ [some answer] := by
  obtain ⟨⟨written, answer⟩, hd, hvalid⟩ := decisionOf_some (readsValid h) hop (listSessionIds s.files)
  have hids : listSessionIds (s.onDisk toml).files = listSessionIds s.files := by
    rw [listSessionIds, RegistryState.onDisk, InsertionMap.keys_map, listSessionIds]
  have hread : readRecord (tomlFiles N toml) root (s.onDisk toml).files = readRecord (inMemory ν) root s.files :=
    funext (readRecord_map htoml h)
  rw [registryStep, registryStep, hids, hread, hd]
  exact ⟨congrArg (RegistryState.mk · _) (foldl_write_map written s.files), h.write hvalid, answer, rfl⟩

/-- In every run of the verbs, the files are those of the records that the same run keeps in memory: valid ones, each
under its own id. The answers are the same, and no verb throws. -/
theorem files_run (htoml : toml.Correct N.toNumbers) (root : Text) (h : Kept N files) (ops : List (Host ν × Verb ν))
    (hops : ∀ op ∈ ops, Checked N op) :
    let s := StepMachine.run (registryStep N (inMemory ν) root) ⟨files, []⟩ ops
    StepMachine.run (registryStep N (tomlFiles N toml) root) ⟨files.map (toToml toml), []⟩ ops = s.onDisk toml ∧
      Kept N s.files ∧ none ∉ s.answers := by
  induction ops using List.reverseRecOn with
  | nil => exact ⟨rfl, h, not_mem_nil⟩
  | append_singleton ops op ih =>
    obtain ⟨hfiles, hkept, hanswers⟩ := ih fun op hop ↦ hops op (mem_append_left _ hop)
    have hop := hops op (mem_append_right _ (mem_singleton_self op))
    obtain ⟨hstep, hkept', answer, hanswer⟩ := registryStep_onDisk htoml hkept hop
    rw [StepMachine.run_concat, StepMachine.run_concat, hfiles]
    refine ⟨hstep, hkept', ?_⟩
    rw [hanswer, mem_append, mem_singleton]
    exact not_or.mpr ⟨hanswers, fun h ↦ by cases h⟩

end

/-- Someone who does not hold a record tries to finish it. -/
def strangers : List (Host ℕ × Verb ℕ) := [(⟨[], [], fun _ x ↦ x, fun _ ↦ true⟩, .finish (ascii "s1") true 2 none)]

theorem files_run_strangers :
    let s := StepMachine.run (registryStep natRecords (inMemory ℕ) [])
      ⟨InsertionMap.empty.set (ascii "s1") launchedRecord, []⟩ strangers
    StepMachine.run (registryStep natRecords (tomlFiles natRecords sampleToml) [])
        ⟨(InsertionMap.empty.set (ascii "s1") launchedRecord).map (toToml sampleToml), []⟩ strangers
        = s.onDisk sampleToml ∧
      Kept natRecords s.files ∧ none ∉ s.answers := by
  refine files_run correct_sampleToml [] (fun id rec hget ↦ ?_) strangers (forall_mem_singleton.mpr ⟨?_, ?_⟩)
  · rw [InsertionMap.get?_set] at hget
    split_ifs at hget with hid
    · cases hget
      exact ⟨⟨rfl, (isValidSessionId_str (ν := ℕ)).mp (by decide), isCount_zero, isCount_zero, ⟨rfl, rfl⟩, absurd rfl⟩,
        hid⟩
    · cases hget
  · exact fun _ _ h ↦ by cases h
  · exact fun _ _ hx ↦ hx

end Amicode.Registry
