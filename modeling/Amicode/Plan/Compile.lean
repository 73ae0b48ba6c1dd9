import Amicode.Foundation.JsNumber
import Amicode.Queue.Drain
import Amicode.RunLedger.Query

/-!
# The spec of a deliberation

A spec is a note whose YAML frontmatter is the contract (`frontmatter.ts`). Its decision surface is the task
type, the acceptance criteria and the budget, and the design hash is the hash of those three in canonical
form (`hashing.ts`). The YAML parser and SHA-256 are parameters.
-/

namespace Amicode.Plan

/-! ## The frontmatter -/

def isBlank (c : Char) : Bool := c = ' ' || c = '\t'

/-- What follows a fence line: `---`, blanks, and a line end. -/
def afterFence? (text : List Char) : Option (List Char) :=
  (JsText.stripPrefix? "---".toList text).bind fun rest ↦
    match rest.dropWhile isBlank with
    | '\r' :: '\n' :: rest => some rest
    | '\n' :: rest => some rest
    | _ => none

/-- The line terminators of ECMAScript, which `^` and `$` look for under the flag `m`. -/
def isLineTerminator (c : Char) : Bool := c = '\n' || c = '\r' || c = '\u2028' || c = '\u2029'

/-- `/^---[ \t]*(\r?\n|$)/m` matches here, at the start of a line. -/
def isClosingFence (text : List Char) : Bool :=
  match JsText.stripPrefix? "---".toList text with
  | some rest => (rest.dropWhile isBlank).head?.all isLineTerminator
  | none => false

/-- The text before the first closing fence. -/
def beforeFence? : Bool → List Char → Option (List Char)
  | _, [] => none
  | lineStart, c :: text =>
    if lineStart && isClosingFence (c :: text) then some []
    else (beforeFence? (isLineTerminator c) text).map (c :: ·)

/-- `parseFrontmatter`: the fields of a note, or what is wrong with it. -/
def parseFrontmatter (parseYaml : List Char → Except String JsonValue) (raw : String) :
    Except String JsonValue :=
  match afterFence? raw.toList with
  | none => .error "no YAML frontmatter: the note must open with a `---` fence on its first line"
  | some afterOpen =>
    match beforeFence? true afterOpen with
    | none => .error "unterminated YAML frontmatter: no closing `---` fence"
    | some block =>
      match parseYaml block with
      | .error message => .error ("malformed YAML frontmatter: " ++ message)
      | .ok .null => .error "empty YAML frontmatter: expected a mapping of fields"
      | .ok (.arr _) => .error "YAML frontmatter must be a mapping of fields, got a list"
      | .ok (.bool _) => .error "YAML frontmatter must be a mapping of fields, got boolean"
      | .ok (.num _) => .error "YAML frontmatter must be a mapping of fields, got number"
      | .ok (.str _) => .error "YAML frontmatter must be a mapping of fields, got string"
      | .ok (.obj members) => .ok (.obj members)

/-! ## The design hash -/

/-- Canonical JSON, as the hashes are taken of it. -/
def canonicalJson (value : JsonValue) : List Char := Queue.canonicalize value

/-- `compact`: drop every member that is absent or null. -/
def compact (members : List (String × Option JsonValue)) : JsonValue :=
  .obj (members.filterMap fun e ↦
    match e.2 with
    | none | some .null => none
    | some value => some (e.1, value))

/-- `text.replace(/\s+/g, " ")`. -/
def collapseSpace : List Char → List Char
  | [] => []
  | c :: text =>
    if JsText.isSpace c then
      match collapseSpace text with
      | ' ' :: rest => ' ' :: rest
      | rest => ' ' :: rest
    else c :: collapseSpace text

/-- The acceptance criteria, trimmed and collapsed, in the order of their texts. -/
def acceptanceOf (spec : JsonValue) : List JsonValue :=
  match spec.get? "acceptance" with
  | some (.arr items) =>
    let lines := items.map fun item ↦ collapseSpace (JsText.trim (JsText.toText item))
    (JsText.sortByKey (lines.map fun line ↦ (line, ()))).map fun e ↦ .str (String.ofList e.1)
  | _ => []

def decisionSurface (spec : JsonValue) : JsonValue :=
  compact [("task_type", spec.get? "task_type"), ("acceptance", some (.arr (acceptanceOf spec))),
    ("budget", spec.get? "budget")]

def designHash (sha256hex : List Char → String) (spec : JsonValue) : String :=
  sha256hex (canonicalJson (decisionSurface spec))

/-- `/^[0-9a-f]{64}$/`. -/
def isHex64 (text : String) : Bool :=
  text.toList.length = 64 && text.toList.all fun c ↦ JsText.isDigit c || ('a' ≤ c && c ≤ 'f')

/-- `requireDesignHash`: the hash the review stamped into the frontmatter, if there is one, and the hash of
the text otherwise. -/
def requireDesignHash (sha256hex : List Char → String) (spec : JsonValue) : String :=
  match ((spec.get? "review").bind fun review ↦ review.get? "design_hash").bind JsonValue.str? with
  | some stamp => if isHex64 stamp then stamp else designHash sha256hex spec
  | none => designHash sha256hex spec

end Amicode.Plan

/-!
# Compiling a spec into a plan

A spec is compiled by a planner subprocess into steps (`plan_compile.ts`). Before the planner is asked, the
ledger must have a review of the spec that allows it; after it answered, the steps must have their shape and
stay within the budget of the spec; only then is the plan written and recorded.

The planner's answer, the schema validator, the clock and the write of the plan note are parameters. The text
of the note, its identifier and the posture recommendation are left out: nothing reads them back.
-/

namespace Amicode.Plan

open RunLedger

/-! ## Steps -/

def TASK_TYPES : List String :=
  ["triage", "plan", "author-script", "implement-slice", "bookkeeping", "insight", "review",
    "experiment-sim", "experiment-hw", "converse"]

/-- The task types that consume a solve. -/
def SOLVE_BEARING : List String := ["experiment-sim", "experiment-hw"]

def DEVICE_ORDER : List String := ["none", "ro", "rw"]

structure CompiledStep where
  id : String
  model : String
  task_type : String
  variant : Option String
  gates : Option (List String)
  needs : Option (List String)
  optional : Bool
  device : Option JsonValue

/-- A value in a template literal. -/
def inText (value : Option JsonValue) : String :=
  match value with
  | some value => String.ofList (JsText.toText value)
  | none => "undefined"

/-- `/^[A-Za-z0-9._-]+\/[A-Za-z0-9._-]+$/`: a provider and a model. -/
def isModelId (text : String) : Bool :=
  let isPart (c : Char) : Bool := c.isAlphanum || c = '.' || c = '_' || c = '-'
  let provider := text.toList.takeWhile isPart
  match text.toList.dropWhile isPart with
  | '/' :: model => provider ≠ [] && model ≠ [] && model.all isPart
  | _ => false

/-- `/opus/i`. -/
def isFrontier (model : String) : Bool :=
  JsText.includes (model.toList.map Char.toLower) "opus".toList

def textItems? (value : Option JsonValue) : Option (List String) :=
  match value with
  | some (.arr items) => some (items.map fun item ↦ String.ofList (JsText.toText item))
  | _ => none

/-- The step of an object of the planner. -/
def readStep (raw : JsonValue) : CompiledStep where
  id := ((raw.get? "id").bind JsonValue.str?).getD ""
  model := inText (raw.get? "model")
  task_type := inText (raw.get? "task_type")
  variant := (raw.get? "variant").bind JsonValue.str?
  gates := textItems? (raw.get? "gates")
  needs := textItems? (raw.get? "needs")
  optional := match raw.get? "optional" with
    | some (.bool true) => true
    | _ => false
  device := (raw.get? "permissions").bind (JsonValue.get? · "device")

/-- What is wrong with an object of the planner, given the ids before it. -/
def stepErrors (i : ℕ) (raw : JsonValue) (seen : List String) : List String :=
  let step := readStep raw
  let quoted := "step \"" ++ step.id ++ "\""
  let modelText := (raw.get? "model").bind JsonValue.str?
  let taskText := (raw.get? "task_type").bind JsonValue.str?
  (if step.id = "" then ["step " ++ toString i ++ ": missing id"]
    else if step.id ∈ seen then
      ["step " ++ toString i ++ ": duplicate id \"" ++ step.id
        ++ "\" — derivation keys on it, so ids must be unique"]
    else [])
  ++ (if modelText.any isModelId then []
    else [quoted ++ ": model must be a provider/model-id — without it no tier demand can be determined"])
  ++ (if taskText.any (· ∈ TASK_TYPES) then []
    else [quoted ++ ": task_type must be one of (" ++ String.intercalate ", " TASK_TYPES
      ++ ") — it decides whether the step consumes a solve"])
  ++ (match step.device with
    | some device =>
      if String.ofList (JsText.toText device) ∈ DEVICE_ORDER then []
      else [quoted ++ ": permissions.device must be one of (none, ro, rw)"]
    | none => [])

/-- The loop over the objects of the planner. -/
def readSteps (i : ℕ) (seen : List String) : List JsonValue → List String × List CompiledStep
  | [] => ([], [])
  | raw :: rest =>
    match raw with
    | .obj _ | .arr _ =>
      let tail := readSteps (i + 1) ((readStep raw).id :: seen) rest
      (stepErrors i raw seen ++ tail.1, readStep raw :: tail.2)
    | _ =>
      let tail := readSteps (i + 1) seen rest
      (("step " ++ toString i ++ ": not an object") :: tail.1, tail.2)

/-- A step of a model below the frontier needs a gate. -/
def gateErrors (step : CompiledStep) : List String :=
  if isFrontier step.model || (step.gates.getD []) ≠ [] then []
  else ["step \"" ++ step.id ++ "\": model " ++ step.model
    ++ " is below the frontier tier and declares no gates — unverified cheap work is refused here and"
    ++ " again by the harness at dispatch"]

def checkStepShape (steps : Option JsonValue) : Except (List String) (List CompiledStep) :=
  match steps with
  | some (.arr (raw :: rest)) =>
    let read := readSteps 0 [] (raw :: rest)
    let errors := read.1 ++ read.2.flatMap gateErrors
    if errors = [] then .ok read.2 else .error errors
  | _ => .error ["the planner returned no steps"]

/-! ## The budget -/

/-- `step.permissions?.device ?? "none"`, as a text. -/
def CompiledStep.deviceText (step : CompiledStep) : String :=
  match step.device with
  | some device => String.ofList (JsText.toText device)
  | none => "none"

/-- `DEVICE_ORDER[a] > DEVICE_ORDER[b]`, which is false if one of them is not in the order. -/
def deviceExceeds (a b : String) : Bool :=
  a ∈ DEVICE_ORDER && b ∈ DEVICE_ORDER && DEVICE_ORDER.idxOf b < DEVICE_ORDER.idxOf a

def demandedDevice (steps : List CompiledStep) : String :=
  steps.foldl (fun acc step ↦ if deviceExceeds step.deviceText acc then step.deviceText else acc) "none"

/-- What is wrong with the device access. -/
def deviceErrors (steps : List CompiledStep) (budget : JsonValue) : List String :=
  let demanded := demandedDevice steps
  if demanded = "none" then []
  else
    match budget.get? "device" with
    | none =>
      ["device: the plan demands \"" ++ demanded ++ "\" (step "
        ++ ((steps.find? fun step ↦ step.deviceText = demanded).map CompiledStep.id).getD "undefined"
        ++ ") but the budget does not declare device at all — an omitted bound is not permission"]
    | some authorised =>
      if deviceExceeds demanded (inText (some authorised)) then
        ["device: the plan demands \"" ++ demanded ++ "\" but the budget authorises \""
          ++ inText (some authorised) ++ "\""]
      else []

/-- What is wrong with the number of solves. -/
def solveErrors (needed : ℕ) (budget : JsonValue) : List String :=
  if needed = 0 then []
  else
    match budget.get? "max_solves" with
    | some (.num text) =>
      match JsNumber.ofText? text.toList with
      | some authorised =>
        if authorised < needed then
          ["max_solves: the plan needs " ++ toString needed ++ " solve(s) but the budget authorises "
            ++ text ++ " — over by " ++ toString (needed - authorised)]
        else []
      | none => []
    | _ =>
      ["max_solves: the plan has " ++ toString needed ++ " solve-bearing step(s) but the budget does not"
        ++ " declare max_solves — an omitted bound is not permission"]

def checkBudget (steps : List CompiledStep) (budget : Option JsonValue) : List String :=
  let solveSteps := steps.filter fun step ↦ step.task_type ∈ SOLVE_BEARING
  let deviceSteps := steps.filter fun step ↦ step.deviceText ≠ "none"
  match budget with
  | none =>
    let demands := (if solveSteps ≠ [] then [toString solveSteps.length ++ " solve(s)"] else [])
      ++ (if deviceSteps ≠ [] then ["device access"] else [])
    if demands = [] then []
    else ["the spec declares no budget, but the compiled plan demands "
      ++ String.intercalate " and " demands ++ " — add a budget to the spec, or restructure the plan"]
  | some budget => deviceErrors steps budget ++ solveErrors solveSteps.length budget

/-! ## The compiled plan -/

/-- An advisory that survived the review, which the plan must see closed. -/
structure Advisory where
  id : String
  lens : Option String
  claim : Option String
  remedy : Option String
  round : Option JsonValue

/-- `advisoriesFrom`: one that the review left without an id is numbered. -/
def advisoriesFrom (spec : JsonValue) : List Advisory :=
  match (spec.get? "review").bind fun review ↦ review.get? "advisories" with
  | some (.arr raw) =>
    let objects := raw.filter fun a ↦
      match a with
      | .obj _ | .arr _ => true
      | _ => false
    objects.mapIdx fun i a ↦
      let text (key : String) := (a.get? key).bind JsonValue.str?
      { id := ((text "id").filter (· ≠ "")).getD ("adv-" ++ toString (i + 1))
        lens := text "lens"
        claim := text "claim"
        remedy := text "remedy"
        round := (a.get? "round").bind fun round ↦
          match round with
          | .num _ => some round
          | _ => none }
  | _ => []

/-- A step as the plan writes it. -/
def CompiledStep.toJson (step : CompiledStep) : JsonValue :=
  let texts (items : List String) : JsonValue := .arr (items.map .str)
  compact [("id", some (.str step.id)), ("model", some (.str step.model)),
    ("task_type", some (.str step.task_type)), ("variant", step.variant.map .str),
    ("gates", step.gates.map texts), ("needs", step.needs.map texts),
    ("optional", if step.optional then some (.bool true) else none),
    ("permissions", step.device.map fun device ↦ .obj [("device", device)])]

def planHash (sha256hex : List Char → String) (goal : String) (steps : List CompiledStep) : String :=
  sha256hex (canonicalJson (compact [("goal", some (.str goal)),
    ("steps", some (.arr (steps.map CompiledStep.toJson)))]))

/-- `suggestedTtlFor`: an hour for each step, at least one and at most a day's worth. -/
def suggestedTtlFor (stepCount : ℕ) : ℕ := min (max stepCount 1 * 3600) (24 * 3600)

structure PlanObject where
  goal : String
  plan_hash : String
  design_hash : String
  compiled_at : String
  compiled_by : Option CompiledBy
  suggested_ttl_s : ℕ
  spec : String
  steps : List CompiledStep
  advisories : List Advisory

/-! ## Compiling -/

/-- What the planner answers. -/
inductive AgentOutcome
  /-- It named its model, perhaps with a variant, and gave a payload. -/
  | ran (model variant : Option String) (payload : JsonValue)
  | skipped (reason : Option String)

/-- The libraries a compile uses. -/
structure Libraries where
  parseYaml : List Char → Except String JsonValue
  sha256hex : List Char → String
  /-- `validate(spec, "spec")`. -/
  validateSpec : JsonValue → Except (List String) Unit

/-- The options of a compile, and what the world answers it. -/
structure CompileRun where
  recompile : Bool
  allowUnreviewed : Bool
  /-- The planner, if an agent binary was found. -/
  runPlanner : Option (String → AgentOutcome)
  now : String
  /-- `validate(plan, "plan")`. -/
  validatePlan : PlanObject → Except (List String) Unit
  write : PlanObject → Except String Unit

structure CompileRefusal where
  exit_code : ℕ
  errors : List String

structure CompileSuccess where
  plan : PlanObject
  allow_unreviewed : Bool
  /-- The row appended to the ledger. -/
  record : PlanCompiledRecord

def latestReview (records : List LedgerRecord) (designHash : String) : Option SpecReviewRecord :=
  ((records.filterMap LedgerRecord.specReview?).filter fun r ↦ r.design_hash = designHash).getLast?

/-- The spec of a note, if it has one that is valid. -/
def readSpec (lib : Libraries) (raw : String) : Except CompileRefusal JsonValue :=
  match parseFrontmatter lib.parseYaml raw with
  | .error message => .error ⟨65, ["the spec's frontmatter could not be read: " ++ message]⟩
  | .ok spec =>
    match lib.validateSpec spec with
    | .error errors => .error ⟨65, errors.map ("spec: " ++ ·)⟩
    | .ok () => .ok spec

/-- The review precondition: whether the plan is to be recorded as unreviewed. -/
def reviewPrecondition (review : Option SpecReviewRecord) (design_hash : String)
    (allowUnreviewed : Bool) : Except CompileRefusal Bool :=
  match review with
  | none =>
    if allowUnreviewed then .ok true
    else .error ⟨65, ["no review on record for this spec (design "
      ++ String.ofList (design_hash.toList.take 12) ++ ") — run `amico spec review` first, or pass"
      ++ " --allow-unreviewed to compile anyway"]⟩
  | some review =>
    if review.review_verdict = .blocking ∨ review.review_verdict = .exhausted then
      .error ⟨65, ["the latest review of this spec is `" ++ review.review_verdict.name ++ "` with "
        ++ toString review.blocking_count ++ " blocking finding(s) — revise the spec;"
        ++ " --allow-unreviewed does NOT override a blocking review"]⟩
    else if review.review_verdict ≠ .approved then
      if allowUnreviewed then .ok true
      else .error ⟨65, ["the latest review is `" ++ review.review_verdict.name ++ "` — no critic"
        ++ " actually reviewed this spec. Pass --allow-unreviewed to compile anyway (it will be recorded)"]⟩
    else .ok false

/-- A plan of this design has been approved. -/
def priorApproved (records : List LedgerRecord) (design_hash : String) : Bool :=
  (records.filterMap LedgerRecord.approval?).any fun r ↦
    (records.filterMap LedgerRecord.planCompiled?).any fun p ↦
      p.design_hash = design_hash && p.plan_hash = r.plan_hash

def refuseIf (errors : List String) : Except CompileRefusal Unit :=
  if errors = [] then .ok () else .error ⟨65, errors⟩

/-- The planner's goal and steps, in shape and within the budget of the spec. -/
def plannedSteps (run : CompileRun) (raw : String) (spec : JsonValue) :
    Except CompileRefusal (String × List CompiledStep × Option CompiledBy) := do
  let runPlanner ← run.runPlanner.elim
    (.error ⟨64, ["no agent binary available to compile a plan (set $AMICO_CRITIC_BIN, or install the agent"
      ++ " CLI on PATH). Nothing was written."]⟩) .ok
  match runPlanner raw with
  | .skipped reason =>
    .error ⟨64, ["the planner produced no usable plan: " ++ reason.getD "unknown"
      ++ ". Nothing was written."]⟩
  | .ran model variant payload =>
    let steps ← (checkStepShape (payload.get? "steps")).mapError fun errors ↦ ⟨65, errors⟩
    let goal := ((payload.get? "goal").bind JsonValue.str?).elim [] fun goal ↦ JsText.trim goal.toList
    refuseIf (if goal = [] then ["the planner returned no goal"] else [])
    let launchShaped := inText (spec.get? "task_type")
      ∈ ["experiment-sim", "experiment-hw", "author-script"]
    let mislabelled :=
      if ¬ launchShaped ∧ ∃ step ∈ steps, step.task_type ∈ SOLVE_BEARING then
        ["task_type: the spec is `" ++ inText (spec.get? "task_type") ++ "` (not launch-shaped) but"
          ++ " compiled to a solve-bearing step — relabel the spec, or the budget and baseline lenses stay"
          ++ " switched off for work that spends"]
      else []
    refuseIf (checkBudget steps (spec.get? "budget") ++ mislabelled)
    .ok (String.ofList goal, steps, model.bind fun m ↦
      if m = "" then none else some ⟨m, variant.getD "default"⟩)

def compilePlan (lib : Libraries) (records : List LedgerRecord) (raw : String) (run : CompileRun) :
    Except CompileRefusal CompileSuccess := do
  let spec ← readSpec lib raw
  let spec_id := inText (spec.get? "spec_id")
  let design_hash := requireDesignHash lib.sha256hex spec
  let allow_unreviewed ←
    reviewPrecondition (latestReview records design_hash) design_hash run.allowUnreviewed
  refuseIf (if priorApproved records design_hash ∧ ¬ run.recompile then
    ["a plan for this spec has already been APPROVED. Recompiling mints a new plan_hash and invalidates that"
      ++ " approval — pass --recompile if that is what you want"] else [])
  let (goal, steps, compiled_by) ← plannedSteps run raw spec
  let plan : PlanObject :=
    { goal, plan_hash := planHash lib.sha256hex goal steps, design_hash, compiled_at := run.now, compiled_by
      suggested_ttl_s := suggestedTtlFor steps.length, spec := spec_id, steps
      advisories := advisoriesFrom spec }
  (run.validatePlan plan).mapError fun errors ↦ ⟨65, errors.map ("compiled plan: " ++ ·)⟩
  (run.write plan).mapError fun message ↦ ⟨64, ["could not write the compiled plan: " ++ message]⟩
  .ok
    { plan, allow_unreviewed
      record :=
        { ts := run.now, plan_hash := plan.plan_hash, spec_id, design_hash, compiled_by
          step_count := steps.length, advisory_count := plan.advisories.length
          suggested_ttl_s := plan.suggested_ttl_s, allow_unreviewed, source := .user } }

end Amicode.Plan
