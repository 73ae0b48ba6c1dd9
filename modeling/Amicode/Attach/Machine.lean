import Amicode.Foundation.InsertionMap
import Amicode.Foundation.StepMachine

/-!
# The attach-state record

The attach state of a machine (`attach_state.ts`) is an open record. It has a human-confirmed
`mode`, a transport-derived `posture`, and a frozen legacy field `state` in which old readers find
the projection of the two; every other field is overlay data.

Reading is tolerant: a field outside its vocabulary reads as absent, and an absent field falls back
to what the legacy field says. So the resolved mode of a record without a `mode` field can change
when only the legacy field is written.
-/

namespace Amicode.Attach

/-! ## Values and vocabularies -/

/-- A property value. Strings are compared with the vocabularies; of anything else the code only
tests whether it is undefined, or identical to another value. -/
inductive JsValue where
  | undefined
  | string (s : String)
  | other (ref : ℕ)
deriving DecidableEq

/-- Human-confirmed membership. -/
inductive AttachMode where
  | standalone
  | fleet
deriving DecidableEq

/-- Transport-derived rendering. -/
inductive AttachPosture where
  | ok
  | degraded
  | hubDown
deriving DecidableEq

/-- The frozen vocabulary. -/
inductive LegacyFleetPostureState where
  | fleet
  | degraded
  | standalone
deriving DecidableEq

def AttachMode.name : AttachMode → String
  | .standalone => "standalone"
  | .fleet => "fleet"

def AttachPosture.name : AttachPosture → String
  | .ok => "ok"
  | .degraded => "degraded"
  | .hubDown => "hub-down"

def LegacyFleetPostureState.name : LegacyFleetPostureState → String
  | .fleet => "fleet"
  | .degraded => "degraded"
  | .standalone => "standalone"

namespace JsValue

/-- The mode a value names: `typeof v === "string" && MODES.has(v)`. -/
def mode? : JsValue → Option AttachMode
  | .string s =>
    if s = "standalone" then some .standalone else if s = "fleet" then some .fleet else none
  | .undefined | .other _ => none

def posture? : JsValue → Option AttachPosture
  | .string s =>
    if s = "ok" then some .ok
    else if s = "degraded" then some .degraded
    else if s = "hub-down" then some .hubDown
    else none
  | .undefined | .other _ => none

/-- The mode a legacy value maps to: the frozen fleet and degraded were fleet-enrolled. -/
def legacyMode : JsValue → AttachMode
  | .string s => if s = "fleet" ∨ s = "degraded" then .fleet else .standalone
  | .undefined | .other _ => .standalone

/-- The posture a legacy value maps to: a frozen standalone was the hub-down entry. -/
def legacyPosture : JsValue → AttachPosture
  | .string s =>
    if s = "degraded" then .degraded else if s = "standalone" then .hubDown else .ok
  | .undefined | .other _ => .ok

end JsValue

def AttachMode.value (mode : AttachMode) : JsValue := .string mode.name

def AttachPosture.value (posture : AttachPosture) : JsValue := .string posture.name

def LegacyFleetPostureState.value (state : LegacyFleetPostureState) : JsValue := .string state.name

@[simp] theorem mode?_value (mode : AttachMode) : mode.value.mode? = some mode := by
  rcases mode <;> decide

@[simp] theorem posture?_value (posture : AttachPosture) :
    posture.value.posture? = some posture := by
  rcases posture <;> decide

theorem mode?_eq_some {v : JsValue} {mode : AttachMode} (h : v.mode? = some mode) :
    v = mode.value := by
  rcases v with _ | s | _
  · exact absurd h (by simp [JsValue.mode?])
  · rw [JsValue.mode?] at h
    split_ifs at h with hs hf
    · obtain rfl := Option.some.inj h
      rw [hs]
      rfl
    · obtain rfl := Option.some.inj h
      rw [hf]
      rfl
  · exact absurd h (by simp [JsValue.mode?])

/-! ## Records -/

abbrev AttachStateRecord := InsertionMap String JsValue

/-- A property read. -/
def field (record : AttachStateRecord) (key : String) : JsValue :=
  (record.get? key).getD .undefined

structure ResolvedAttachState where
  mode : AttachMode
  posture : AttachPosture
deriving DecidableEq

/-- `resolveAttachState`: the new fields are preferred, the old values mapped. -/
def resolveAttachState (record : AttachStateRecord) : ResolvedAttachState :=
  { mode := (field record "mode").mode?.getD (field record "state").legacyMode
    posture := (field record "posture").posture?.getD (field record "state").legacyPosture }

/-- `legacyStateOf`, on whatever value stands for the mode: a restore may pass one that names no
mode, and the source only compares it with standalone. -/
def legacyStateOfValue (mode : JsValue) (posture : AttachPosture) : LegacyFleetPostureState :=
  if mode = .string "standalone" then .standalone
  else match posture with
    | .ok => .fleet
    | .degraded => .degraded
    | .hubDown => .standalone

/-- `legacyStateOf`: the legacy projection of a mode and a posture. -/
def legacyStateOf (mode : AttachMode) (posture : AttachPosture) : LegacyFleetPostureState :=
  legacyStateOfValue mode.value posture

/-- `mergeAttachState`: every field of the record but those the patch names. -/
def mergeAttachState (record : AttachStateRecord) (patch : List (String × JsValue)) :
    AttachStateRecord :=
  record.setAll patch

theorem field_set (record : AttachStateRecord) (key : String) (value : JsValue) (k : String) :
    field (record.set key value) k = if key = k then value else field record k := by
  rw [field, InsertionMap.get?_set, field]
  split_ifs <;> rfl

theorem resolve_congr {r r' : AttachStateRecord} (hmode : field r "mode" = field r' "mode")
    (hposture : field r "posture" = field r' "posture")
    (hstate : field r "state" = field r' "state") :
    resolveAttachState r = resolveAttachState r' := by
  rw [resolveAttachState, resolveAttachState, hmode, hposture, hstate]

theorem legacyMode_legacyStateOf (mode : AttachMode) (posture : AttachPosture) :
    (legacyStateOf mode posture).value.legacyMode
      = if posture = .hubDown then .standalone else mode := by
  rcases mode <;> rcases posture <;> decide

/-- The legacy projection is its own projection once the posture is read back from it. -/
theorem legacyStateOf_legacyPosture (mode : AttachMode) (posture : AttachPosture) :
    legacyStateOf mode (legacyStateOf mode posture).value.legacyPosture
      = legacyStateOf mode posture := by
  rcases mode <;> rcases posture <;> decide

end Amicode.Attach

/-!
# The mode machine

`ModeMachine` (`attach_state.ts`) is the only writer of an attach-state record. It has four write
paths: the transport's `writePosture`, the human `confirmMode`, the data path `overlayRewrite`, and
`restoreModeScoped`, by which a rollback puts a snapshot back. It also owns the mode journal.

The first law is about the transport path alone. A posture write cannot name the mode field, so it
was meant never to change the mode; `posture_writes_iff` says when it does not. A record of the
old shape, which says fleet only through its legacy field, loses its membership at the first
hub-down, because the legacy projection of fleet under hub-down is standalone.
-/

namespace Amicode.Attach

/-! ## Snapshots, proposals and the journal -/

/-- The pre-stage snapshot of the mode-scoped state: the mode, and the fields a rollback restores.
The two machine-owned fields come first, and the posture is never among them. -/
structure TransitionSnapshot where
  mode : AttachMode
  fields : AttachStateRecord
  shape : ∃ m s rest, fields.entries = ("mode", m) :: ("state", s) :: rest
  unpostured : fields.contains "posture" = false

/-- The confirmed proposal the engine executes. -/
structure TransitionProposalRecord where
  id : ℕ
  fromMode : AttachMode
  toMode : AttachMode
  /-- Overlay fields the commit applies. -/
  apply : Option (List (String × JsValue))
  modeScopedFields : List String
deriving DecidableEq

/-- How an attach test ended. -/
inductive VerifyKind where
  | pass
  | transientFail
  | structuralFail
deriving DecidableEq

inductive ResolveAction where
  | abort
  | resume
deriving DecidableEq

inductive ResolveVia where
  | force
  | capChoice
deriving DecidableEq

inductive ModeJournalEntry where
  | humanConfirm (mode : AttachMode)
  | transitionStage (snapshot : TransitionSnapshot) (proposal : TransitionProposalRecord)
  | transitionVerify (outcome : VerifyKind)
  | transitionCommitPending (snapshot : TransitionSnapshot)
      (proposal : TransitionProposalRecord) (sinceMs : ℤ)
  | transitionCommit (toMode : AttachMode)
  | transitionRollback (restored : AttachMode)
  | transitionResolve (action : ResolveAction) (via : ResolveVia)

/-! ## The writes -/

/-- The machine-owned fields: overlay rewrites never name them. -/
def MACHINE_OWNED_FIELDS : List String := ["mode", "posture", "state"]

def posturePatch (posture : AttachPosture) (record : AttachStateRecord) :
    List (String × JsValue) :=
  [("posture", posture.value),
    ("state", (legacyStateOf (resolveAttachState record).mode posture).value)]

def modePatch (mode : AttachMode) (record : AttachStateRecord) : List (String × JsValue) :=
  [("mode", mode.value),
    ("state", (legacyStateOf mode (resolveAttachState record).posture).value)]

/-- One field of a restore: nothing when it has the value already, and the legacy field follows
the mode. -/
def restoreField (record : AttachStateRecord) (e : String × JsValue) : AttachStateRecord :=
  if e.1 = "mode" then
    if (resolveAttachState record).mode.value = e.2 then record
    else mergeAttachState record
      [("mode", e.2), ("state", (legacyStateOfValue e.2 (resolveAttachState record).posture).value)]
  else if field record e.1 = e.2 then record
  else mergeAttachState record [e]

structure ModeMachine where
  record : AttachStateRecord
  journal : List ModeJournalEntry := []

namespace ModeMachine

def writePosture (m : ModeMachine) (posture : AttachPosture) : ModeMachine :=
  { m with record := mergeAttachState m.record (posturePatch posture m.record) }

def confirmMode (m : ModeMachine) (mode : AttachMode) : ModeMachine :=
  { record := mergeAttachState m.record (modePatch mode m.record)
    journal := m.journal ++ [.humanConfirm mode] }

def overlayRewrite (m : ModeMachine) (patch : List (String × JsValue)) : ModeMachine :=
  let dataOnly := patch.filter fun e ↦ decide (e.1 ∉ MACHINE_OWNED_FIELDS)
  { m with record := mergeAttachState m.record dataOnly }

/-- `restoreModeScoped`, with the posture refused. -/
def restoreModeScoped (m : ModeMachine) (fields : AttachStateRecord) :
    Except String ModeMachine :=
  if fields.contains "posture" then
    .error ("restoreModeScoped: posture is transport-owned render state and is never " ++
      "mode-scoped (ADR-0005)")
  else .ok { m with record := fields.entries.foldl restoreField m.record }

def appendJournal (m : ModeMachine) (entry : ModeJournalEntry) : ModeMachine :=
  { m with journal := m.journal ++ [entry] }

def resolve (m : ModeMachine) : ResolvedAttachState := resolveAttachState m.record

end ModeMachine

/-! ## The machine-owned fields after a write -/

section Fields

variable (record : AttachStateRecord) (posture : AttachPosture) (mode : AttachMode)

theorem field_posturePatch (k : String) :
    field (mergeAttachState record (posturePatch posture record)) k
      = if k = "state" then (legacyStateOf (resolveAttachState record).mode posture).value
        else if k = "posture" then posture.value else field record k := by
  rw [mergeAttachState, posturePatch]
  simp only [InsertionMap.setAll, List.foldl_cons, List.foldl_nil, field_set, eq_comm]

theorem field_modePatch (k : String) :
    field (mergeAttachState record (modePatch mode record)) k
      = if k = "state" then (legacyStateOf mode (resolveAttachState record).posture).value
        else if k = "mode" then mode.value else field record k := by
  rw [mergeAttachState, modePatch]
  simp only [InsertionMap.setAll, List.foldl_cons, List.foldl_nil, field_set, eq_comm]

variable (m : ModeMachine) (patch : List (String × JsValue))

theorem field_overlayRewrite {k : String}
    (hk : k ∈ MACHINE_OWNED_FIELDS) : field (m.overlayRewrite patch).record k = field m.record k := by
  have hnot : k ∉ (patch.filter fun e ↦ decide (e.1 ∉ MACHINE_OWNED_FIELDS)).map Prod.fst := by
    intro hmem
    obtain ⟨e, he, rfl⟩ := List.mem_map.mp hmem
    exact absurd hk (of_decide_eq_true (List.mem_filter.mp he).2)
  have hget := InsertionMap.get?_setAll_of_not_mem m.record hnot
  exact congrArg (Option.getD · JsValue.undefined) hget

theorem resolve_overlayRewrite : (m.overlayRewrite patch).resolve = m.resolve :=
  resolve_congr (field_overlayRewrite m patch (by decide))
    (field_overlayRewrite m patch (by decide)) (field_overlayRewrite m patch (by decide))

/-- The mode after a posture write: as before, unless the record says fleet through its legacy
field only and the posture is hub-down. -/
theorem mode_writePosture : (m.writePosture posture).resolve.mode
      = if (field m.record "mode").mode? = none ∧ posture = .hubDown then .standalone else m.resolve.mode := by
  rw [ModeMachine.resolve, resolveAttachState, ModeMachine.writePosture]
  simp only [field_posturePatch, String.reduceEq, if_true, if_false, legacyMode_legacyStateOf]
  rcases hmode : (field m.record "mode").mode? with _ | mode
  · simp [ModeMachine.resolve]
  · simp [ModeMachine.resolve, resolveAttachState, hmode]

theorem posture_writePosture : (m.writePosture posture).resolve.posture = posture := by
  rw [ModeMachine.resolve, resolveAttachState, ModeMachine.writePosture]
  simp [field_posturePatch]

theorem resolve_confirmMode : (m.confirmMode mode).resolve.mode = mode := by
  rw [ModeMachine.resolve, resolveAttachState, ModeMachine.confirmMode]
  simp [field_modePatch]

end Fields

/-! ## Sequences of posture writes -/

variable (m : ModeMachine) (postures : List AttachPosture)

theorem mode?_writePosture_run : (field (StepMachine.run ModeMachine.writePosture m postures).record "mode").mode?
      = (field m.record "mode").mode? := by
  refine StepMachine.invariant_run
    (I := fun m' : ModeMachine ↦ (field m'.record "mode").mode? = (field m.record "mode").mode?)
    (fun m' posture h ↦ ?_) rfl postures
  rw [ModeMachine.writePosture, field_posturePatch]
  simpa using h

theorem mode_writePosture_run : (StepMachine.run ModeMachine.writePosture m postures).resolve.mode
      = if (field m.record "mode").mode? = none ∧ .hubDown ∈ postures then .standalone else m.resolve.mode := by
  induction postures generalizing m with
  | nil => simp
  | cons posture postures ih =>
    have hfield := mode?_writePosture_run m [posture]
    rw [StepMachine.run_cons, StepMachine.run_nil] at hfield
    rw [StepMachine.run_cons, ih, hfield, mode_writePosture]
    by_cases hnone : (field m.record "mode").mode? = none
    · by_cases hdown : posture = .hubDown
      · simp [hnone, hdown]
      · simp [hnone, hdown, Ne.symm hdown]
    · simp [hnone]

theorem posture_writePosture_run (posture : AttachPosture) (h : postures.getLast? = some posture) :
    (StepMachine.run ModeMachine.writePosture m postures).resolve.posture = posture := by
  obtain ⟨before, rfl⟩ := List.getLast?_eq_some_iff.mp h
  rw [StepMachine.run_concat]
  exact posture_writePosture posture _

/-- Any sequence of posture writes on any record keeps the mode and shows the last posture, if and
only if the record does not say fleet through its legacy field alone, or no write is hub-down. -/
theorem posture_writes_iff (record : AttachStateRecord) (postures : List AttachPosture) :
    ((StepMachine.run ModeMachine.writePosture { record := record } postures).resolve.mode
        = (resolveAttachState record).mode
      ∧ ∀ posture, postures.getLast? = some posture →
        (StepMachine.run ModeMachine.writePosture { record := record } postures).resolve.posture
          = posture)
      ↔ ((field record "mode").mode? ≠ none ∨ (field record "state").legacyMode ≠ .fleet
        ∨ .hubDown ∉ postures) := by
  rw [and_iff_left (posture_writePosture_run _ postures), mode_writePosture_run]
  rw [ModeMachine.resolve, resolveAttachState]
  rcases (field record "mode").mode? with _ | mode
  · rcases (field record "state").legacyMode with _ | _
    · simp
    · by_cases hdown : AttachPosture.hubDown ∈ postures <;> simp [hdown]
  · simp

/-- A legacy fleet record whose hub goes down. -/
theorem not_posture_writes_legacy :
    (StepMachine.run ModeMachine.writePosture
      { record := (∅ : AttachStateRecord).set "state" (.string "fleet") } [.hubDown]).resolve.mode
      ≠ (resolveAttachState ((∅ : AttachStateRecord).set "state" (.string "fleet"))).mode := by
  decide

end Amicode.Attach
