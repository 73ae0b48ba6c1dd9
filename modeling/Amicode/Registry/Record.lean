import Amicode.Fleet.Registry
import Amicode.Foundation.JsData

/-!
# Records of the fleet registry

A record is a TOML table in a file of its own (`fleet_registry.ts`). `validateRecord` reads whatever was parsed, of
which nothing is known, and says what is wrong with it or fills in what is absent. Its result is none where it throws.
`applyEvent` makes a new record from one; that the old one stays as it is goes without saying here, as a record is
a value.

The rows of the transition table are those of `Fleet.step`. A TOML datetime, which is not data as JSON has it, is
left out.
-/

namespace Amicode.Registry

open JsonTree JsData
open Amicode.Fleet (FleetState FleetEvent isTerminal)

variable {ν : Type}

structure RecordNumbers (ν : Type) extends Numbers ν where
  zero : ν
  /-- `FLEET_RECORD_SCHEMA`. -/
  one : ν
  /-- `x < 0`. -/
  isNegative : ν → Bool
  isFinite_zero : isFinite zero = true
  isFinite_one : isFinite one = true
  isNegative_zero : isNegative zero = false

/-- The copy of the loadout that a record has. -/
structure FleetProfile where
  name : Text
  base : Text
  model : Text
  variant : Text
  task_type : Text
  skills : List Text
  gates : List Text
  permissions : InsertionMap Text Text

structure FleetRecord (ν : Type) where
  schema : ν
  session_id : Text
  state : FleetState
  current_step : Text
  started : Text
  tokens : ν
  runtime : ν
  respooled_to : Text
  pid : ν
  host : Text
  profile : FleetProfile

/-! ## Reading values -/

def FLEET_STATES : List FleetState := [.spooling, .running, .blocked, .settled, .crashed, .killed]

def stateName : FleetState → Text
  | .spooling => ascii "spooling"
  | .running => ascii "running"
  | .blocked => ascii "blocked"
  | .settled => ascii "settled"
  | .crashed => ascii "crashed"
  | .killed => ascii "killed"

def stateOf? (value : JsData ν) : Option FleetState :=
  match value with
  | .str s => FLEET_STATES.find? fun state ↦ stateName state = s
  | _ => none

def str? : JsData ν → Option Text
  | .str s => some s
  | _ => none

def strList? : JsData ν → Option (List Text)
  | .arr items => items.mapM str?
  | _ => none

def isUndefined : JsData ν → Bool
  | .undefined => true
  | _ => false

def isLetterOrDigit (u : UInt16) : Bool :=
  (unit '0' ≤ u && u ≤ unit '9') || (unit 'A' ≤ u && u ≤ unit 'Z') || (unit 'a' ≤ u && u ≤ unit 'z')

/-- `SESSION_ID`. -/
def isStem : Text → Bool
  | [] => false
  | u :: rest =>
    isLetterOrDigit u && rest.all fun u ↦ isLetterOrDigit u || u = unit '.' || u = unit '_' || u = unit '-'

def isValidSessionId : JsData ν → Bool
  | .str id => id.length ≤ 128 && isStem id && !decide (ascii ".." <:+: id)
  | _ => false

/-! ## Defaults -/

/-- A profile of which things may be absent. -/
structure PartialProfile where
  name : Option Text
  base : Option Text
  model : Option Text
  variant : Option Text
  task_type : Option Text
  skills : Option (List Text)
  gates : Option (List Text)
  permissions : Option (List (Text × Text))

structure PartialRecord (ν : Type) where
  schema : Option ν
  session_id : Text
  state : FleetState
  current_step : Option Text
  started : Option Text
  tokens : Option ν
  runtime : Option ν
  respooled_to : Option Text
  pid : Option ν
  host : Option Text
  profile : PartialProfile

def normalizeRecord (N : RecordNumbers ν) (partialRecord : PartialRecord ν) : FleetRecord ν where
  schema := partialRecord.schema.getD N.one
  session_id := partialRecord.session_id
  state := partialRecord.state
  current_step := partialRecord.current_step.getD []
  started := partialRecord.started.getD []
  tokens := partialRecord.tokens.getD N.zero
  runtime := partialRecord.runtime.getD N.zero
  respooled_to := partialRecord.respooled_to.getD []
  pid := partialRecord.pid.getD N.zero
  host := partialRecord.host.getD []
  profile := {
    name := partialRecord.profile.name.getD []
    base := partialRecord.profile.base.getD []
    model := partialRecord.profile.model.getD []
    variant := partialRecord.profile.variant.getD []
    task_type := partialRecord.profile.task_type.getD []
    skills := partialRecord.profile.skills.getD []
    gates := partialRecord.profile.gates.getD []
    permissions := (∅ : InsertionMap Text Text).setAll (partialRecord.profile.permissions.getD []) }

def number? : JsData ν → Option ν
  | .number x => some x
  | _ => none

def strMembers? : JsData ν → Option (List (Text × Text))
  | .obj members => members.mapM fun e ↦ (str? e.2).map fun s ↦ (e.1, s)
  | _ => none

/-- `o as Partial<FleetRecord>`, of what has been checked. -/
def partialOf (o : JsData ν) (session_id : Text) (state : FleetState) : PartialRecord ν where
  schema := number? (o.get "schema")
  session_id := session_id
  state := state
  current_step := str? (o.get "current_step")
  started := str? (o.get "started")
  tokens := number? (o.get "tokens")
  runtime := number? (o.get "runtime")
  respooled_to := str? (o.get "respooled_to")
  pid := number? (o.get "pid")
  host := str? (o.get "host")
  profile := {
    name := str? ((o.get "profile").get "name")
    base := str? ((o.get "profile").get "base")
    model := str? ((o.get "profile").get "model")
    variant := str? ((o.get "profile").get "variant")
    task_type := str? ((o.get "profile").get "task_type")
    skills := strList? ((o.get "profile").get "skills")
    gates := strList? ((o.get "profile").get "gates")
    permissions := strMembers? ((o.get "profile").get "permissions") }

/-! ## Nulls -/

def memberPath (path key : Text) : Text := if path = [] then key else path ++ unit '.' :: key

def itemPath (path : Text) (i : ℕ) : Text := path ++ unit '[' :: ((Nat.toDigits 10 i).map unit ++ [unit ']'])

mutual

def nullPaths (path : Text) : JsData ν → List Text
  | .null => [path]
  | .arr items => nullItems path 0 items
  | .obj members => nullMembers path members
  | _ => []
termination_by structural value => value

def nullItems (path : Text) (i : ℕ) : List (JsData ν) → List Text
  | [] => []
  | item :: items => nullPaths (itemPath path i) item ++ nullItems path (i + 1) items
termination_by structural items => items

def nullMembers (path : Text) : List (Text × JsData ν) → List Text
  | [] => []
  | (key, value) :: members => nullPaths (memberPath path key) value ++ nullMembers path members
termination_by structural members => members

end

/-! ## What is wrong with a value -/

section

variable (N : RecordNumbers ν) [DecidableEq ν]

def nullErrors (o : JsData ν) : List Text :=
  (nullPaths [] o).map fun path ↦
    path ++ ascii (" is null — the ops TOML convention has NO nulls (empty string for an absent string, 0 for an "
      ++ "absent integer)")

def isSchema : JsData ν → Bool
  | .undefined => true
  | .number x => x = N.one
  | _ => false

def schemaErrors (o : JsData ν) : List Text :=
  if isSchema N (o.get "schema") then []
  else [ascii "schema must be " ++ N.toText N.one ++ ascii " (got " ++ printed N.toNumbers (o.get "schema")
    ++ ascii ")"]

def sessionErrors (o : JsData ν) : List Text :=
  if isValidSessionId (o.get "session_id") then []
  else [ascii "session_id " ++ printed N.toNumbers (o.get "session_id")
    ++ ascii (" is missing or not a safe filename stem (/^[A-Za-z0-9][A-Za-z0-9._-]*$/, no \"..\") — the record "
      ++ "path is <root>/<session_id>.toml")]

def stateErrors (o : JsData ν) : List Text :=
  if (stateOf? (o.get "state")).isSome then []
  else [ascii "state " ++ printed N.toNumbers (o.get "state") ++ ascii " must be one of ("
    ++ join (ascii ", ") (FLEET_STATES.map stateName) ++ ascii ")"]

/-- What is wrong with a member that may be absent. -/
def memberErrors {α : Type} (read : JsData ν → Option α) (o : JsData ν) (key path : String) (must : String) :
    List Text :=
  if !isUndefined (o.get key) && (read (o.get key)).isNone then [ascii path ++ ascii " must be " ++ ascii must]
  else []

def numberErrors (o : JsData ν) (key : String) : List Text :=
  match o.get key with
  | .undefined => []
  | .number x =>
    if !N.isFinite x then [ascii key ++ ascii " must be a number (0 when absent)"]
    else if N.isNegative x then [ascii key ++ ascii " must be >= 0 (got " ++ N.toText x ++ ascii ")"]
    else []
  | _ => [ascii key ++ ascii " must be a number (0 when absent)"]

def permissionErrors (pr : JsData ν) : List Text :=
  match pr.get "permissions" with
  | .undefined => []
  | .obj members =>
    members.flatMap fun e ↦
      if (str? e.2).isSome then [] else [ascii "profile.permissions." ++ e.1 ++ ascii " must be a string"]
  | _ => [ascii "profile.permissions must be a table of strings"]

/-- None where it throws: a member of null is read. -/
def profileErrors (o : JsData ν) : Option (List Text) :=
  match o.get "profile" with
  | .null => none
  | .obj members =>
    let pr := JsData.obj members
    some ((["name", "base", "model", "variant", "task_type"].flatMap fun k ↦
        memberErrors str? pr k ("profile." ++ k) "a string")
      ++ (["skills", "gates"].flatMap fun k ↦ memberErrors strList? pr k ("profile." ++ k) "a list of strings")
      ++ permissionErrors pr)
  | _ => some [ascii ("missing required table \"profile\" (the inline loadout copy a crashed session relaunches on)")]

def profileWarnings (o : JsData ν) : List Text :=
  match o.get "profile" with
  | .obj members =>
    let pr := JsData.obj members
    if (str? (pr.get "model")).getD [] = [] ∨ (str? (pr.get "variant")).getD [] = [] then
      [ascii ("profile.model / profile.variant are the tier stamp and should ALWAYS be co-stamped (§2) — an empty one "
        ++ "loses effort control silently")]
    else []
  | _ => []

/-- The successor's id on a record that is not killed; none where it throws, at `String(o.state)`. -/
def stampErrors (o : JsData ν) (respooled : Text) : Option (List Text) :=
  if respooled ≠ [] ∧ str? (o.get "state") ≠ some (stateName .killed) then
    (toText? N.toNumbers (o.get "state")).map fun state ↦
      [ascii "respooled_to = " ++ quoteJson respooled ++ ascii " on a \"" ++ state
        ++ ascii "\" record — it is stamped ONLY on a killed-by-respool record (§3.2)"]
  else some []

def successorErrors (o : JsData ν) (respooled : Text) : List Text :=
  (if respooled ≠ [] ∧ !isValidSessionId (JsData.str (ν := ν) respooled) then
    [ascii "respooled_to " ++ quoteJson respooled
      ++ ascii " must be a valid session id (it names the successor session's record file)"]
  else [])
  ++ if respooled ≠ [] ∧ str? (o.get "session_id") = some respooled then
    [ascii ("respooled_to must name a DIFFERENT session — a respool opens a new session, it is not a rebind (§3.3)")]
  else []

inductive Validated (ν : Type) where
  | ok (record : FleetRecord ν) (warnings : List Text)
  | err (errors warnings : List Text)

/-- The errors that are found before the profile is looked at. -/
def fieldErrors (o : JsData ν) : List Text :=
  nullErrors o ++ schemaErrors N o ++ sessionErrors N o ++ stateErrors N o
    ++ (["current_step", "respooled_to", "host"].flatMap fun k ↦
      memberErrors str? o k k "a string (\"\" when absent)")
    ++ memberErrors str? o "started" "started" "an ISO-8601 string (\"\" when absent)"
    ++ ["tokens", "runtime", "pid"].flatMap (numberErrors N o)

def validateRecord (value : JsData ν) : Option (Validated ν) :=
  match value with
  | .obj members => do
    let o := JsData.obj members
    let respooled := (str? (o.get "respooled_to")).getD []
    let errors := fieldErrors N o ++ (← profileErrors o) ++ (← stampErrors N o respooled) ++ successorErrors o respooled
    match errors, str? (o.get "session_id"), stateOf? (o.get "state") with
    | [], some session_id, some state =>
      return .ok (normalizeRecord N (partialOf o session_id state)) (profileWarnings o)
    | _, _, _ => return .err errors (profileWarnings o)
  | _ => some (.err [ascii "record must be a TOML table"] [])

end

end Amicode.Registry

/-!
# Events on records, and records as TOML

`applyEvent` is the only place where the id of a successor is written to a record; `toToml` and `fromToml` are how
records are kept in files (`fleet_registry.ts`). The TOML library is a parameter.
-/

namespace Amicode.Registry

open JsonTree JsData
open Amicode.Fleet (FleetState FleetEvent isTerminal)

variable {ν : Type}

/-! ## Events -/

def LIVE_STATES : List FleetState := [.running, .blocked, .settled, .crashed]

def eventName : FleetEvent → Text
  | .inject => ascii "inject"
  | .cancel => ascii "cancel"
  | .crash => ascii "crash"
  | .block => ascii "block"
  | .settle => ascii "settle"
  | .unblock => ascii "unblock"
  | .resume => ascii "resume"
  | .stop => ascii "stop"
  | .respool => ascii "respool"

/-- Why the table has no such transition. -/
def rejection (from_ : FleetState) (event : FleetEvent) : Text :=
  if from_ = .killed then
    ascii ("`killed` is terminal (§3.2) — a killed record accepts no event; a resident respool continues in the "
      ++ "SUCCESSOR session named by `respooled_to`, in its own file")
  else if event = .stop ∧ from_ = .spooling then
    ascii ("`stop` is a harness-applied signal and `spooling` predates the harness — a user stop during triage is the "
      ++ "`cancel` event, applied by the extension directly (§3.2 single-writer handoff). Use stopEventFor() to map "
      ++ "the user action to the right event")
  else
    match event with
    | .cancel =>
      ascii ("`cancel` is the spooling-time kill, applied by the extension before the handoff (§3.2); after injection "
        ++ "the kill edge is `stop`")
    | .inject =>
      ascii ("`inject` is the spooling → running handoff and applies only to a `spooling` record (§3.1); there is no "
        ++ "mid-session agent rebinding in v1")
    | .crash =>
      ascii "§3.2's transition table has no `" ++ stateName from_ ++ ascii ("` → crashed edge: a blocked record is a "
        ++ "HUMAN DECISION POINT and a settled record concluded normally — neither may be laundered into a crash. "
        ++ "`fleet sweep` reports such an orphaned record instead of rewriting it")
    | .unblock =>
      ascii ("`unblock` applies only to a `blocked` record — it is the edge that re-arms the replan budget (§5.3), so "
        ++ "it must not be reachable from a state that never spent it")
    | .resume =>
      ascii ("`resume` applies only to an idle (`settled`) or dead (`crashed`) record — the user returning to the chat "
        ++ "(§3.2)")
    | .block | .settle =>
      ascii "`" ++ eventName event
        ++ ascii "` is a running-session outcome and applies only to a `running` record (§3.2)"
    | .respool =>
      ascii "`respool` is a kill from a LIVE state (" ++ join (ascii " | ") (LIVE_STATES.map stateName)
        ++ ascii ("); a `spooling` session has not opened yet, so there is nothing to reopen — cancel and re-triage "
          ++ "instead (§3.3)")
    | .stop =>
      ascii "no `" ++ stateName from_ ++ ascii "` → `" ++ eventName event
        ++ ascii "` edge in the §3.2 transition table"

structure ApplyOptions (ν : Type) where
  respooled_to : Option Text
  pid : Option ν
  host : Option Text
  current_step : Option Text
  tokens : Option ν
  runtime : Option ν

/-- What is wrong with the successor that the options name. -/
def respoolErrors (rec : FleetRecord ν) (event : FleetEvent) (stamps : Bool) (respooled : Text) : List Text :=
  if stamps then
    if respooled = [] then
      [ascii ("`respool` requires the successor session id — `respooled_to` is what distinguishes a respool-kill from "
        ++ "a plain stop (§3.2)")]
    else if !isValidSessionId (JsData.str (ν := ν) respooled) then
      [ascii "respooled_to " ++ quoteJson respooled ++ ascii " is not a valid session id"]
    else if respooled = rec.session_id then
      [ascii ("respooled_to must name a DIFFERENT session — a respool opens a new session, it is not a mid-session "
        ++ "rebind (§3.3)")]
    else []
  else if respooled ≠ [] then
    [ascii "respooled_to was supplied on a `" ++ eventName event
      ++ ascii ("` transition — it is stamped ONLY on a respool-kill (§3.2). A plain stop leaves it empty, which is how "
        ++ "the fleet view tells a retired session from a re-tiered one")]
  else []

def applyEvent (N : RecordNumbers ν) (rec : FleetRecord ν) (event : FleetEvent) (opts : ApplyOptions ν) :
    Except (List Text) (FleetRecord ν) :=
  match Fleet.step rec.state event with
  | none => .error [rejection rec.state event]
  | some edge =>
    let respooled := opts.respooled_to.getD []
    match respoolErrors rec event edge.stampsRespooledTo respooled with
    | [] =>
      .ok { rec with
        state := edge.target
        -- nobody holds a record that is killed or crashed
        pid := if isTerminal edge.target || edge.target = .crashed then N.zero else opts.pid.getD rec.pid
        host := opts.host.getD rec.host
        current_step := opts.current_step.getD rec.current_step
        tokens := opts.tokens.getD rec.tokens
        runtime := opts.runtime.getD rec.runtime
        respooled_to := if edge.stampsRespooledTo then respooled else rec.respooled_to }
    | errors => .error errors

/-! ## TOML -/

def FleetProfile.toData (p : FleetProfile) : JsData ν :=
  .obj [(ascii "name", .str p.name), (ascii "base", .str p.base), (ascii "model", .str p.model),
    (ascii "variant", .str p.variant), (ascii "task_type", .str p.task_type),
    (ascii "skills", .arr (p.skills.map .str)), (ascii "gates", .arr (p.gates.map .str)),
    (ascii "permissions", .obj (p.permissions.entries.map fun e ↦ (e.1, .str e.2)))]

/-- The record as a table, its keys in the order in which they are written. -/
def FleetRecord.toData (rec : FleetRecord ν) : JsData ν :=
  .obj [(ascii "schema", .number rec.schema), (ascii "session_id", .str rec.session_id),
    (ascii "state", .str (stateName rec.state)), (ascii "current_step", .str rec.current_step),
    (ascii "started", .str rec.started), (ascii "tokens", .number rec.tokens), (ascii "runtime", .number rec.runtime),
    (ascii "respooled_to", .str rec.respooled_to), (ascii "pid", .number rec.pid), (ascii "host", .str rec.host),
    (ascii "profile", rec.profile.toData)]

/-- The TOML library; parsing fails with a message. -/
structure Toml (ν : Type) where
  stringify : JsData ν → Text
  parse : Text → Except Text (JsData ν)

/-- What TOML can write: a JSON value without nulls. -/
def TomlTable (N : Numbers ν) (table : JsData ν) : Prop := table.IsJson N ∧ nullPaths [] table = []

/-- What is written is read back. -/
def Toml.Correct (toml : Toml ν) (N : Numbers ν) : Prop :=
  ∀ table, TomlTable N table → toml.parse (toml.stringify table ++ [unit '\n']) = .ok table

def toToml (toml : Toml ν) (rec : FleetRecord ν) : Text := toml.stringify rec.toData ++ [unit '\n']

/-- None where it throws. -/
def fromToml (N : RecordNumbers ν) [DecidableEq ν] (toml : Toml ν) (text : Text) : Option (Validated ν) :=
  match toml.parse text with
  | .error message => some (.err [ascii "TOML parse error — " ++ message] [])
  | .ok parsed => validateRecord N parsed

end Amicode.Registry
