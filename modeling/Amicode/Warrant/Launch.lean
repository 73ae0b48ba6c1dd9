import Amicode.Foundation.JsNumber
import Amicode.Foundation.JsonValue
import Amicode.RunLedger.Query

/-!
# The warrant check

A launch inside the free set needs no warrant. Any other one states the hash of an approved plan, and each
capability it reaches for must be declared by the live approval of that plan and cover the launch; a bound on
the number of solves is checked if it is declared (`warrant.ts`). An absent bound or plan only ever restricts.

The clock and the approvals are arguments. How the host reads a time stamp (`Date.parse`) is a parameter, with
no value where it answers `NaN`.
-/

namespace Amicode.Warrant

open RunLedger

/-- What the gate knows of a launch. -/
structure LaunchFacts where
  plan_hash : Option String
  tier : Option String
  executor : Option String
  /-- Absent if the size is not resolved, which counts as over any threshold. -/
  sizeClass : Option SizeClass
  device : Option DeviceAccess
  solvesSoFar : Option ℕ

inductive BoundKey
  | tier | max_size_class | device
deriving DecidableEq

def BoundKey.name : BoundKey → String
  | .tier => "tier"
  | .max_size_class => "max_size_class"
  | .device => "device"

structure WarrantRefusal where
  reason : String
  /-- The bounds a covering warrant would have to declare. -/
  required : List BoundKey
  plan_hash : Option String

def SIZE_ORDER : SizeClass → ℕ
  | .SMALL => 0
  | .MEDIUM => 1

def sizeName : SizeClass → String
  | .SMALL => "SMALL"
  | .MEDIUM => "MEDIUM"

def DEVICE_ORDER : DeviceAccess → ℕ
  | .none => 0
  | .ro => 1
  | .rw => 2

def deviceName : DeviceAccess → String
  | .none => "none"
  | .ro => "ro"
  | .rw => "rw"

/-! ## Live warrants -/

section Live

variable (dateParse : String → Option ℤ)

/-- An expiry that cannot be read has passed already. -/
def expired (now : ℤ) (a : ApprovalRecord) : Bool := (dateParse a.expires_at).elim true fun t ↦ t ≤ now

def expiresLater (a b : ApprovalRecord) : Bool :=
  match dateParse a.expires_at, dateParse b.expires_at with
  | some x, some y => y < x
  | some _, none => true
  | none, _ => false

def liveWarrant (planHash : String) (approvals : List ApprovalRecord) (now : ℤ) : Option ApprovalRecord :=
  approvals.foldl (fun best a ↦
    if a.plan_hash ≠ planHash || expired dateParse now a then best
    else if best.all (expiresLater dateParse a) then some a else best) none

def hasLapsed (planHash : String) (approvals : List ApprovalRecord) (now : ℤ) : Bool :=
  approvals.any fun a ↦ a.plan_hash = planHash && expired dateParse now a

/-- The newest row of a plan, and of rows with the same time stamp the last one. -/
def newestCompiled (planHash : String) (planCompiled : List PlanCompiledRecord) : Option PlanCompiledRecord :=
  (planCompiled.filter fun r ↦ r.plan_hash = planHash).foldl (fun newest r ↦
    if newest.all fun n ↦ JsText.le n.ts.toList r.ts.toList then some r else newest) none

/-- Another plan for the same design has a live warrant. -/
def supersededPlan (planHash : String) (approvals : List ApprovalRecord)
    (planCompiled : List PlanCompiledRecord) (now : ℤ) : Bool :=
  (newestCompiled planHash planCompiled).any fun mine ↦ planCompiled.any fun r ↦
    r.design_hash = mine.design_hash && r.plan_hash ≠ planHash
      && (liveWarrant dateParse r.plan_hash approvals now).isSome

end Live

/-! ## Capabilities -/

/-- The capabilities a launch reaches for; none if it is inside the free set. -/
def gatedCapabilities (facts : LaunchFacts) : List BoundKey :=
  (if (facts.tier.any fun t ↦ t ≠ "free") || facts.executor = some "remote" then [.tier] else [])
    ++ (if facts.sizeClass ≠ some .SMALL then [.max_size_class] else [])
    ++ (if facts.device.any fun d ↦ d ≠ .none then [.device] else [])

/-- The needs of a launch as a reason has them. -/
def needText (needs : List BoundKey) : String := String.intercalate ", " (needs.map BoundKey.name)

def tierRefusal (planHash : String) (facts : LaunchFacts) (bounds : WarrantBounds) : Option String :=
  match bounds.tier with
  | none => some ("warrant for " ++ planHash ++ " does not declare tier, which this launch needs — approve it "
      ++ "with --tier " ++ facts.tier.getD "<tier>")
  | some tier =>
    if some tier ≠ facts.tier then
      some ("tier: launch is \"" ++ facts.tier.getD "undefined" ++ "\" but the warrant authorises \"" ++ tier
        ++ "\"")
    else none

def sizeRefusal (planHash : String) (facts : LaunchFacts) (bounds : WarrantBounds) : Option String :=
  match bounds.max_size_class, facts.sizeClass with
  | none, size => some ("warrant for " ++ planHash ++ " does not declare max_size_class, which this launch needs "
      ++ "— approve it with --max-size-class " ++ sizeName (size.getD .MEDIUM))
  | some max, none => some ("solve size is unresolved, so it cannot be shown to fit the warrant's max_size_class "
      ++ sizeName max ++ " — make the spec's levels resolvable")
  | some max, some size =>
    if SIZE_ORDER max < SIZE_ORDER size then
      some ("max_size_class: launch is " ++ sizeName size ++ " but the warrant authorises up to " ++ sizeName max)
    else none

/-- Why a warrant does not cover the device access of a launch. -/
def deviceRefusal (planHash : String) (facts : LaunchFacts) (bounds : WarrantBounds) : Option String :=
  match bounds.device, facts.device with
  | none, device => some ("warrant for " ++ planHash ++ " does not declare device, which this launch needs — "
      ++ "approve it with --device " ++ deviceName (device.getD .ro))
  | some max, some device =>
    if DEVICE_ORDER max < DEVICE_ORDER device then
      some ("device: launch needs \"" ++ deviceName device ++ "\" but the warrant authorises \"" ++ deviceName max
        ++ "\"")
    else none
  | some _, none => none

/-- Why a warrant has no solve left. A warrant that declares no bound does not cap the count. -/
def countRefusal (planHash : String) (facts : LaunchFacts) (bounds : WarrantBounds) : Option String :=
  bounds.max_solves.bind fun max ↦
    let used := facts.solvesSoFar.getD 0
    if max ≤ used then
      some ("max_solves: " ++ toString used ++ " of " ++ toString max ++ " already used under plan " ++ planHash
        ++ " — re-approve to extend")
    else none

/-- The first reason why a warrant does not cover a launch. -/
def boundRefusal (planHash : String) (facts : LaunchFacts) (bounds : WarrantBounds) : Option String :=
  let needs := gatedCapabilities facts
  (if .tier ∈ needs then tierRefusal planHash facts bounds else none)
    <|> (if .max_size_class ∈ needs then sizeRefusal planHash facts bounds else none)
    <|> (if .device ∈ needs then deviceRefusal planHash facts bounds else none)
    <|> countRefusal planHash facts bounds

/-! ## The check -/

def checkWarrant (dateParse : String → Option ℤ) (facts : LaunchFacts) (approvals : List ApprovalRecord)
    (now : ℤ) (planCompiled : List PlanCompiledRecord) : Except WarrantRefusal Unit :=
  let needs := gatedCapabilities facts
  if needs = [] then .ok ()
  else match truthy facts.plan_hash with
    | none =>
      .error
        { required := needs, plan_hash := none
          reason :=
            if facts.sizeClass = none then
              "solve size is unresolved (estimate.ts could not resolve levels), so it is treated as "
                ++ "over-threshold and needs an approved plan — declare max_size_class, or make the spec's "
                ++ "levels resolvable"
            else "this launch needs an approved plan covering " ++ needText needs ++ " — it is outside the "
              ++ "ungated free set (local, free tier, SMALL, device none). Set solvespec.plan_hash to an "
              ++ "approved plan" }
    | some planHash =>
      match liveWarrant dateParse planHash approvals now with
      | none =>
        .error
          { required := needs, plan_hash := some planHash
            reason :=
              if hasLapsed dateParse planHash approvals now then
                "the warrant for plan " ++ planHash ++ " has expired — re-approve it (needs " ++ needText needs
                  ++ ")"
              else if supersededPlan dateParse planHash approvals planCompiled now then
                "the plan was recompiled (" ++ planHash ++ " supersedes an approved plan for the same design) — "
                  ++ "re-approve it declaring " ++ needText needs
              else "no approved warrant for plan " ++ planHash ++ " — approve it declaring " ++ needText needs }
      | some w =>
        match boundRefusal planHash facts w.bounds with
        | some reason => .error { reason, required := needs, plan_hash := some planHash }
        | none => .ok ()

variable {facts : LaunchFacts}

theorem boundRefusal_eq_none_iff {planHash : String} {bounds : WarrantBounds} :
    boundRefusal planHash facts bounds = none ↔
      (.tier ∈ gatedCapabilities facts → tierRefusal planHash facts bounds = none)
        ∧ (.max_size_class ∈ gatedCapabilities facts → sizeRefusal planHash facts bounds = none)
        ∧ (.device ∈ gatedCapabilities facts → deviceRefusal planHash facts bounds = none)
        ∧ countRefusal planHash facts bounds = none := by
  simp only [boundRefusal, Option.orElse_eq_orElse, Option.orElse_eq_or, Option.or_eq_none_iff,
    ite_eq_right_iff]

theorem countRefusal_eq_none_iff {planHash : String} {bounds : WarrantBounds} :
    countRefusal planHash facts bounds = none ↔
      ∀ max ∈ bounds.max_solves, facts.solvesSoFar.getD 0 < max := by
  rcases hmax : bounds.max_solves with _ | max <;> simp [countRefusal, hmax]

theorem checkWarrant_eq_ok_iff {dateParse : String → Option ℤ}
    {approvals : List ApprovalRecord} {now : ℤ} {planCompiled : List PlanCompiledRecord}
    (hneeds : gatedCapabilities facts ≠ []) : checkWarrant dateParse facts approvals now planCompiled = .ok () ↔
      ∃ planHash ∈ truthy facts.plan_hash, ∃ w ∈ liveWarrant dateParse planHash approvals now,
        boundRefusal planHash facts w.bounds = none := by
  rw [checkWarrant, if_neg hneeds]
  rcases hplan : truthy facts.plan_hash with _ | planHash
  · refine iff_of_false (by rintro ⟨⟩) ?_
    rintro ⟨_, ⟨⟩, _⟩
  · simp only [Option.mem_some_iff, exists_eq_left']
    rcases hlive : liveWarrant dateParse planHash approvals now with _ | w
    · refine iff_of_false (by rintro ⟨⟩) ?_
      rintro ⟨_, ⟨⟩, _⟩
    · simp only [Option.mem_some_iff, exists_eq_left']
      rcases hrefusal : boundRefusal planHash facts w.bounds with _ | reason
      · exact iff_of_true rfl rfl
      · exact iff_of_false (by rintro ⟨⟩) (by rintro ⟨⟩)

theorem checkWarrant_unresolved (dateParse : String → Option ℤ)
    (approvals : List ApprovalRecord) (now : ℤ) (planCompiled : List PlanCompiledRecord)
    (hsize : facts.sizeClass = none) : checkWarrant dateParse facts approvals now planCompiled ≠ .ok () := by
  have hneed : .max_size_class ∈ gatedCapabilities facts := by simp [gatedCapabilities, hsize]
  have hneeds : gatedCapabilities facts ≠ [] := List.ne_nil_of_mem hneed
  intro hok
  obtain ⟨planHash, -, w, -, hbounds⟩ := (checkWarrant_eq_ok_iff hneeds).mp hok
  have hrefusal := (boundRefusal_eq_none_iff.mp hbounds).2.1 hneed
  rw [sizeRefusal, hsize] at hrefusal
  rcases hmax : w.bounds.max_size_class with _ | max <;> simp [hmax] at hrefusal

end Amicode.Warrant

/-!
# A launch and its solve record

A launch states its plan in its solvespec. The gate assembles what the warrant check needs from the ledger, the
clock and the script (`warrant_context.ts`, `gate.ts`), and the executor writes a manifest with the path of
what it runs. When the run settles, the executor reads the result and the manifest back, reads a problem spec
from the path in the manifest, and appends a solve row to the ledger if nothing is missing
(`local_executor.ts`). The rows of a plan are what its bound on solves is counted by.

How a file is read as TOML and how a script is sized are parameters.
-/

namespace Amicode.Warrant

open RunLedger

/-! ## The solvespec -/

/-- What a launch runs. -/
inductive SpecBody
  /-- An authored script, with its text when the gate read it. -/
  | script (path text : String)
  /-- A typed problem spec in a file. -/
  | problemPath (path : String)
  | problemInline (spec : JsonValue)

structure SolveSpec where
  plan_hash : Option String
  tier : Option String
  executor : Option String
  body : SpecBody

/-- A launch with a problem spec has no script. -/
def SolveSpec.scriptText (spec : SolveSpec) : String :=
  match spec.body with
  | .script _ text => text
  | .problemPath _ | .problemInline _ => ""

/-! ## The warrant step of the gate -/

structure WarrantContext where
  approvals : List ApprovalRecord
  now : ℤ
  sizeClass : Option SizeClass
  device : Option DeviceAccess
  solvesSoFar : Option ℕ
  planCompiled : List PlanCompiledRecord

def solvesUnderPlan (planHash : String) (records : List LedgerRecord) : ℕ :=
  ((records.filterMap LedgerRecord.solve?).filter fun r ↦ r.plan_hash = some planHash).length

def sizeClassFor (estimate : String → Option SizeClass) (scriptText : String) : Option SizeClass :=
  if JsText.trim scriptText.toList = [] then none else estimate scriptText

/-- `assembleWarrantContext`, with warrants enabled. A ledger that cannot be read has no rows. -/
def assembleWarrantContext (estimate : String → Option SizeClass) (ledger : Option (List LedgerRecord))
    (scriptText : String) (planHash : Option String) (now : ℤ) : WarrantContext :=
  let all := ledger.getD []
  { approvals := all.filterMap LedgerRecord.approval?
    planCompiled := all.filterMap LedgerRecord.planCompiled?
    now
    sizeClass := sizeClassFor estimate scriptText
    device := some .none
    solvesSoFar := (truthy planHash).map fun planHash ↦ solvesUnderPlan planHash all }

def launchFacts (spec : SolveSpec) (context : WarrantContext) : LaunchFacts :=
  { plan_hash := spec.plan_hash
    tier := spec.tier
    executor := spec.executor
    sizeClass := context.sizeClass
    device := context.device
    solvesSoFar := context.solvesSoFar }

/-- The warrant step of `runGate`; it does not exist without a context. -/
def warrantStep (dateParse : String → Option ℤ) (spec : SolveSpec) (context : Option WarrantContext) :
    Except WarrantRefusal Unit :=
  match context with
  | none => .ok ()
  | some context =>
    checkWarrant dateParse (launchFacts spec context) context.approvals context.now context.planCompiled

/-! ## The run directory -/

/-- What the executor records of a run. -/
structure Manifest where
  script_path : String
  tier : Option String
deriving DecidableEq

/-- The manifest of a launch. An inline problem spec is written to the run directory. -/
def manifestOf (runDir : String) (spec : SolveSpec) : Manifest where
  script_path :=
    match spec.body with
    | .script path _ => path
    | .problemPath path => path
    | .problemInline _ => runDir ++ "/problem.toml"
  tier := spec.tier

/-! ## The solve record -/

/-- A record, as a TOML table is one. -/
def isRecord (value : Option JsonValue) : Bool :=
  match value with
  | some (.obj _) => true
  | _ => false

/-- The value of a path of keys. -/
def field? (value : JsonValue) : List String → Option JsonValue
  | [] => some value
  | key :: keys => (value.get? key).bind (field? · keys)

def textAt (value : JsonValue) (keys : List String) : Option String := (field? value keys).bind JsonValue.str?

/-- A finite number. A record with another number is not valid. -/
def finite? : JsonValue → Option ℚ
  | .num text => JsNumber.ofText? text.toList
  | _ => none

def numberAt (value : JsonValue) (keys : List String) : Option ℚ := (field? value keys).bind finite?

/-- A number that may be absent: it is not valid if it is one that is not finite. -/
def optionalNumberAt (value : JsonValue) (keys : List String) : Option (Option ℚ) :=
  match field? value keys with
  | some (.num text) => (JsNumber.ofText? text.toList).map some
  | _ => some none

/-- `replace(/([a-z0-9])([A-Z])/g, "$1_$2")`, in lower case. -/
def snakeCase : List Char → List Char
  | c :: d :: rest =>
    if (c.isLower || c.isDigit) && d.isUpper then c.toLower :: '_' :: snakeCase (d :: rest)
    else c.toLower :: snakeCase (d :: rest)
  | [c] => [c.toLower]
  | [] => []

/-- The platform of a system template, as `MultiTransmonSystem`. -/
def platformFromTemplate (template : String) : String :=
  let suffix := "System".toList
  let text := template.toList
  let base := if suffix.isSuffixOf text then text.take (text.length - suffix.length) else text
  String.ofList (snakeCase base)

/-- The problem spec at the path of a manifest: a file that reads as TOML and has a system. -/
def readSpecFromScriptPath (readToml : String → Option JsonValue) (scriptPath : String) : Option JsonValue :=
  (readToml scriptPath).filter fun spec ↦ isRecord (spec.get? "system")

/-- `summaryFromProblemSpec`, where the summary is complete and valid. -/
def summaryFromProblemSpec (spec : JsonValue) : Option SolveSummary := do
  let platform ← (textAt spec ["system", "template"]).map platformFromTemplate
  let template ← textAt spec ["problem", "template"]
  let trajectory ← (textAt spec ["trajectory", "kind"]).or (textAt spec ["goal", "kind"])
  let N ← numberAt spec ["problem", "N"]
  let T ← numberAt spec ["pulse", "T"]
  let goal ← (textAt spec ["goal", "gate"]).or (textAt spec ["goal", "kind"])
  let levels ← optionalNumberAt spec ["system", "params", "levels"]
  return {
    platform, template, trajectory, N, T, goal, levels
    solver := (textAt spec ["solver", "backend"]).getD "madnlp"
    strategy := (textAt spec ["solver", "strategy"]).getD "direct"
    Q := numberAt spec ["problem", "Q"]
    R := numberAt spec ["problem", "R"]
    du_bound := numberAt spec ["problem", "du_bound"]
    max_iter := numberAt spec ["solver", "max_iter"]
    integrator := textAt spec ["integrator", "alg"] }

/-- What a run leaves when it settles. -/
structure Settlement where
  result : Option JsonValue
  readToml : String → Option JsonValue
  ts : String
  /-- The lane from the environment. -/
  ledgerSource : Option String
  /-- The row with its remaining fields is short enough for one append, which succeeds. -/
  appends : Bool

/-- The lane of a record; it is not valid in any other. -/
def sourceOf : Option String → Option Source
  | none => some .user
  | some "user" => some .user
  | some "replay" => some .replay
  | some "simulated" => some .simulated
  | some _ => none

/-- What of a result a record needs. -/
structure ResultFields where
  structure_hash : String
  problem_hash : String
  outcome : SolveOutcome

/-- The fields of a result, where it is complete. -/
def resultFields (result : JsonValue) : Option ResultFields := do
  let structure_hash ← textAt result ["params", "structure_hash"]
  let problem_hash ← textAt result ["params", "problem_hash"]
  let fidelity ← numberAt result ["fidelity"]
  let iterations ← numberAt result ["iterations"]
  let wall_s ← optionalNumberAt result ["wall_seconds"]
  let converged := match field? result ["params", "converged"] with
    | some (.bool b) => b
    | _ => true
  return { structure_hash, problem_hash, outcome := { converged, fidelity, iterations, wall_s } }

/-- `emitSolveStanza`: the row appended when a run settles. Its plan is the one that the problem spec states. -/
def emitSolveStanza (manifest : Manifest) (s : Settlement) : Option SolveRecord := do
  let result ← s.result
  let fields ← resultFields result
  let spec ← readSpecFromScriptPath s.readToml manifest.script_path
  let summary ← summaryFromProblemSpec spec
  let source ← sourceOf s.ledgerSource
  if s.appends then
    some
      { ts := s.ts
        structure_hash := fields.structure_hash
        problem_hash := fields.problem_hash
        kind := (textAt result ["params", "kind"]).getD "control"
        tier := (manifest.tier.or (textAt result ["params", "tier"])).getD "unspecified"
        summary
        source
        outcome := fields.outcome
        plan_hash := truthy (textAt spec ["plan_hash"]) }
  else none

end Amicode.Warrant
