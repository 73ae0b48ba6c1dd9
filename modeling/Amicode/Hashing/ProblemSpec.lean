import Amicode.Hashing.CanonicalJson

/-!
# The projections of a problem spec

A problem spec is the table a TOML text is read to. `fullDict` fills in the defaults of the parser and keeps what
identifies the problem; `structureFields` keeps what identifies its shape (`hashing.ts`). Each dictionary of
`fullDict` is made field by field, by a rule for the field: what of the value is kept, or that the field is left out.

A conversion to text throws for some objects, and then so does the projection: none. The number a literal of the
source denotes is a parameter. Dates, which specs never carry, are left out.
-/

namespace Amicode.Hashing

open JsonTree JsData

variable {ν : Type}

/-! ## Helpers -/

/-- `obj`: the value, to read fields of. -/
def obj (v : JsData ν) : JsData ν := v.orElse (.obj [])

def nonEmptyObj : JsData ν → Bool
  | .obj members => !members.isEmpty
  | _ => false

def isNum : JsData ν → Bool
  | .number _ => true
  | _ => false

def isFiniteNum (N : Numbers ν) : JsData ν → Bool
  | .number x => N.isFinite x
  | _ => false

/-- The items of an array: `Array.isArray(v) ? v : []`. -/
def itemsOf : JsData ν → List (JsData ν)
  | .arr items => items
  | _ => []

def isArray : JsData ν → Bool
  | .arr _ => true
  | _ => false

/-- `String(v)`, as a value. -/
def text (N : Numbers ν) (v : JsData ν) : Option (JsData ν) := (toText? N v).map .str

/-! ## Rules for fields -/

/-- What becomes of a field: none where it throws, `some none` where the field is left out. -/
abbrev Rule (ν : Type) := JsData ν → Option (Option (JsData ν))

namespace Rule

/-- A constant, whatever the field is. -/
def const (w : JsData ν) : Rule ν := fun _ ↦ some (some w)

/-- The field as it is, absent or not. -/
def raw : Rule ν := fun v ↦ some (some v)

/-- `v ?? w`. -/
def orElse (w : JsData ν) : Rule ν := fun v ↦ some (some (v.orElse w))

/-- `isNum(v) ? v : w`. -/
def numberOr (w : JsData ν) : Rule ν := fun v ↦ some (some (if isNum v then v else w))

/-- `Array.isArray(v) ? v : w`. -/
def arrayOr (w : JsData ν) : Rule ν := fun v ↦ some (some (if isArray v then v else w))

/-- The field where the test holds. -/
def keepIf (test : JsData ν → Bool) : Rule ν := fun v ↦ some (if test v then some v else none)

/-- The field where it is not null. -/
def ifPresent : Rule ν := keepIf fun v ↦ !v.isNullish

/-- The field where it is an array with items. -/
def nonEmptyArray : Rule ν := keepIf fun v ↦ !(itemsOf v).isEmpty

/-- What a function makes of the field. -/
def make (f : JsData ν → Option (JsData ν)) : Rule ν := fun v ↦ (f v).map some

/-- What a function makes of the field, where it is not null. -/
def makeIfPresent (f : JsData ν → Option (JsData ν)) : Rule ν := fun v ↦
  if v.isNullish then some none else (f v).map some

/-- What a function makes of the items, where the field is an array with items. -/
def makeItems (f : JsData ν → Option (JsData ν)) : Rule ν := fun v ↦
  if (itemsOf v).isEmpty then some none else ((itemsOf v).mapM f).map fun items ↦ some (.arr items)

/-- `String(v ?? w)`. -/
def textOr (N : Numbers ν) (w : String) : Rule ν := make fun v ↦ text N (v.orElse (.str (ascii w)))

end Rule

/-- The fields a dictionary is made of. -/
def fields : List (String × Rule ν) → JsData ν → Option (List (Text × JsData ν))
  | [], _ => some []
  | (key, rule) :: rules, value => do
    let field ← rule (value.get key)
    let rest ← fields rules value
    return (field.map fun w ↦ (ascii key, w)).toList ++ rest

def dict (rules : List (String × Rule ν)) (value : JsData ν) : Option (JsData ν) :=
  (fields rules (obj value)).map .obj

/-! ## `fullDict` -/

section

variable (N : Numbers ν) (lit : ℚ → ν)

open Rule

def systemRules : List (String × Rule ν) :=
  [("kind", textOr N "template"), ("template", makeIfPresent (text N)), ("params", keepIf nonEmptyObj),
    ("global_params", keepIf nonEmptyObj), ("components", ifPresent), ("H_drift", ifPresent), ("H_drives", ifPresent)]

def goalRules : List (String × Rule ν) :=
  [("kind", make (text N)), ("gate", makeIfPresent (text N)), ("matrix", ifPresent), ("target", ifPresent),
    ("initial", ifPresent), ("subsystem_levels", ifPresent), ("subspace", ifPresent)]

def pulseRules : List (String × Rule ν) :=
  [("kind", make (text N)), ("T", raw), ("init", textOr N "default"), ("seed", orElse (.number (lit 0)))]

def objectiveRules : List (String × Rule ν) :=
  [("kind", make (text N)), ("weight", orElse (.number (lit 1)))]

def problemRules : List (String × Rule ν) :=
  [("template", make (text N)), ("N", raw), ("goal_treatment", textOr N "objective"),
    ("free_dt", arrayOr (.bool false)), ("Q", numberOr (.number (lit 100))), ("R", numberOr (.number (lit (1 / 100)))),
    ("free_phase", orElse (.bool false)), ("final_fidelity", ifPresent), ("R_u", ifPresent), ("R_du", ifPresent),
    ("R_ddu", ifPresent), ("du_bound", keepIf (isFiniteNum N)), ("ddu_bound", ifPresent),
    ("initial_phases", ifPresent), ("calibration_targets", makeItems (text N)), ("global_names", makeItems (text N)),
    ("global_bounds", keepIf nonEmptyObj), ("objectives", makeItems (dict (objectiveRules N lit))),
    ("options", keepIf nonEmptyObj)]

def integratorRules : List (String × Rule ν) := [("kind", textOr N "bilinear"), ("alg", textOr N "tsit5")]

def wrapperRules : List (String × Rule ν) :=
  [("kind", make (text N)), ("variants", nonEmptyArray), ("weights", ifPresent)]

def solverRules : List (String × Rule ν) :=
  [("backend", textOr N "madnlp"), ("device", textOr N "cpu"), ("precision", textOr N "f64"),
    ("max_iter", orElse (.number (lit 500))), ("strategy", textOr N "direct"), ("tol", ifPresent)]

def warmStartRules : List (String × Rule ν) := [("catalog_ref", ifPresent), ("pulse_hash", ifPresent)]

/-- The trajectory: its kind, where it has one. -/
def trajectoryRule : Rule ν := fun v ↦
  let kind := (obj v).get "kind"
  if kind.isNullish then some none else (text N kind).map fun kind ↦ some (.obj [(ascii "kind", kind)])

def fullRules : List (String × Rule ν) :=
  [("schema_version", numberOr (.number (lit 1))), ("kind", const (.str (ascii "control"))),
    ("system", make (dict (systemRules N))), ("goal", makeIfPresent (dict (goalRules N))),
    ("pulse", makeIfPresent (dict (pulseRules N lit))), ("trajectory", trajectoryRule N),
    ("problem", makeIfPresent (dict (problemRules N lit))), ("integrator", makeIfPresent (dict (integratorRules N))),
    ("wrappers", makeItems (dict (wrapperRules N))), ("solver", make (dict (solverRules N lit))),
    ("warm_start", makeIfPresent (dict warmStartRules))]

def fullDict (spec : JsData ν) : Option (JsData ν) := dict (fullRules N lit) spec

end

/-! ## `structureFields` -/

section

variable (N : Numbers ν)

/-- A property that is set only where there is a value. -/
def entry (key : String) (value : Option (JsData ν)) : List (Text × JsData ν) :=
  (value.map fun v ↦ (ascii key, v)).toList

/-- The value, where it is not null. -/
def present? (v : JsData ν) : Option (JsData ν) := if v.isNullish then none else some v

/-- `texts.sort()`. -/
def sortTexts (texts : List Text) : List Text := texts.insertionSort fun a b ↦ (compare a b).isLE = true

def sortedKinds (v : JsData ν) : Option (JsData ν) := do
  let kinds ← (itemsOf v).mapM fun item ↦ toText? N ((obj item).get "kind")
  return .arr ((sortTexts kinds).map .str)

def systemStructure (sysIn : JsData ν) : Option (JsData ν) := do
  let kind ← text N ((sysIn.get "kind").orElse (.str (ascii "template")))
  let template ← (present? (sysIn.get "template")).mapM (text N)
  let params := obj (sysIn.get "params")
  return .obj ([(ascii "kind", kind)] ++ entry "template" template ++ entry "levels" (present? (params.get "levels")))

/-- The kind of the trajectory, or else of the goal. -/
def trajectoryKind (s : JsData ν) : Option (Option (JsData ν)) :=
  match present? ((obj (s.get "trajectory")).get "kind") with
  | some kind => (text N kind).map some
  | none => (present? (s.get "goal")).mapM fun goal ↦ text N ((obj goal).get "kind")

def problemStructure (problem : JsData ν) : Option (JsData ν) := do
  let p := obj problem
  let template ← text N (p.get "template")
  let goalTreatment ← text N ((p.get "goal_treatment").orElse (.str (ascii "objective")))
  let objectiveKinds ← sortedKinds N (p.get "objectives")
  let options := obj (p.get "options")
  return .obj ([(ascii "template", template), (ascii "goal_treatment", goalTreatment),
    (ascii "free_dt", .str (ascii (if isArray (p.get "free_dt") then "free" else "fixed"))),
    (ascii "free_phase", (p.get "free_phase").orElse (.bool false)), (ascii "objective_kinds", objectiveKinds)]
      ++ entry "leakage_constraint" (present? (options.get "leakage_constraint")))

def solverStructureRules : List (String × Rule ν) :=
  [("backend", .textOr N "madnlp"), ("device", .textOr N "cpu"), ("precision", .textOr N "f64"),
    ("strategy", .textOr N "direct")]

def structureFields (spec : JsData ν) : Option (JsData ν) := do
  let s := obj spec
  let system ← systemStructure N (obj (s.get "system"))
  let trajectory ← trajectoryKind N s
  let pulse ← (present? (s.get "pulse")).mapM fun pulse ↦ text N ((obj pulse).get "kind")
  let problem ← (present? (s.get "problem")).mapM (problemStructure N)
  let integrator ← (present? (s.get "integrator")).mapM (dict (integratorRules N))
  let wrapperKinds ← sortedKinds N (s.get "wrappers")
  let solver ← dict (solverStructureRules N) (s.get "solver")
  return .obj ([(ascii "kind", .str (ascii "control")), (ascii "system", system)]
    ++ entry "trajectory_kind" trajectory ++ entry "pulse_kind" pulse ++ entry "problem" problem
    ++ entry "integrator" integrator ++ [(ascii "wrapper_kinds", wrapperKinds), (ascii "solver", solver)])

end

/-! ## The hashes -/

section

variable {δ : Type*} (N : Numbers ν) (lit : ℚ → ν) (sha256 : List UInt8 → δ)

def problemHash (spec : JsData ν) : Option δ :=
  ((fullDict N lit spec).bind (canonicalJson N)).map (sha256hex sha256)

def structureHash (spec : JsData ν) : Option δ :=
  ((structureFields N spec).bind (canonicalJson N)).map (sha256hex sha256)

end

end Amicode.Hashing
