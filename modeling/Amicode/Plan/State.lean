import Amicode.Foundation.JsonValue
import Amicode.Foundation.Observation
import Amicode.RunLedger.Query

/-!
# The derived state of a plan

There is no write path for the state of a step: it is a function of the rows the gates append
(`plan_state.ts`). A step is passed by an agreeing verdict, failed by gate exhaustion, skipped by a bypass
that the plan permits, and running while it is dispatched or a gate disagrees. An advisory is open until a row
closes it, and the last row by time stamp counts. Rows of replayed or simulated work are not admitted.

Verdicts, dispatches and advisories are looked up under the hash of the plan, never by id alone.
-/

namespace Amicode.Plan

open RunLedger Observation

inductive StepState
  | pending | running | passed | failed | skipped
deriving DecidableEq

def StepState.name : StepState → String
  | .pending => "pending"
  | .running => "running"
  | .passed => "passed"
  | .failed => "failed"
  | .skipped => "skipped"

inductive PlanState
  | active | complete | stalled
deriving DecidableEq

inductive AdvisoryState
  | «open» | closed (state : TodoState)
deriving DecidableEq

/-- A step as the plan declares it. -/
structure StepShape where
  id : String
  optional : Bool

/-- An advisory as the plan declares it. -/
structure AdvisoryShape where
  id : String
  lens : Option String
  claim : Option String

structure PlanShape where
  plan_hash : String
  steps : List StepShape
  advisories : List AdvisoryShape
  max_replans : Option ℕ

structure StepView where
  id : String
  state : StepState
  optional : Bool
  /-- Set when a bypass names a step that the plan does not mark optional. -/
  error : Option String
deriving DecidableEq

structure AdvisoryView where
  id : String
  state : AdvisoryState
  reason : Option String
  lens : Option String
  claim : Option String
deriving DecidableEq

structure PlanView where
  plan_hash : String
  state : PlanState
  steps : List StepView
  advisories : List AdvisoryView
  open_advisories : ℕ
  /-- Why the plan is not complete. -/
  blockers : List String
deriving DecidableEq

/-! ## Rows -/

/-- `inLane`: real work; an absent source counts as real. -/
def inLane (source : Option Source) : Bool := source = none || source = some .user

def planVerdicts (records : List LedgerRecord) (planHash : String) : List VerdictRecord :=
  (records.filterMap LedgerRecord.verdict?).filter fun r ↦
    r.plan_hash = some planHash && r.step_id.isSome && inLane r.source

def planDispatches (records : List LedgerRecord) (planHash : String) : List DispatchRecord :=
  (records.filterMap LedgerRecord.dispatch?).filter fun r ↦
    r.plan_hash = some planHash && r.step_id.isSome && inLane (some r.source)

/-- The advisory rows of a plan. -/
def planTodos (records : List LedgerRecord) (planHash : String) : List TodoRecord :=
  (records.filterMap LedgerRecord.todo?).filter fun r ↦
    r.plan_hash = planHash && inLane (some r.source)

/-- What the rows say of a step. -/
@[ext] structure StepEvidence where
  bypassed : Bool
  agreed : Bool
  exhausted : Bool
  disagreed : Bool
  dispatched : Bool

def stepEvidence (verdicts : List VerdictRecord) (dispatches : List DispatchRecord) (id : String) :
    StepEvidence :=
  let some? (kind : VerdictKind) := verdicts.any fun v ↦ v.step_id = some id && v.verdict = kind
  { bypassed := some? .bypassed
    agreed := some? .agree
    exhausted := some? .exhausted
    disagreed := some? .disagree
    dispatched := dispatches.any fun d ↦ d.step_id = some id }

/-! ## Steps -/

/-- The error on a bypass the plan does not permit. -/
def bypassError (id : String) : String :=
  "a \x60bypassed\x60 verdict names step \"" ++ id ++ "\", but the compiled plan does not mark it "
    ++ "\x60optional: true\x60 — the bypass was NOT honoured"

/-- The view of a step. A bypass is honoured if the plan permits it, and has its own cascade if not. -/
def stepView (step : StepShape) (e : StepEvidence) : StepView :=
  if e.bypassed then
    if step.optional then ⟨step.id, .skipped, true, none⟩
    else
      let state : StepState :=
        if e.exhausted then .failed
        else if e.agreed then .passed
        else if e.dispatched then .running
        else .pending
      ⟨step.id, state, false, some (bypassError step.id)⟩
  else if e.agreed then ⟨step.id, .passed, step.optional, none⟩
  else if e.exhausted then ⟨step.id, .failed, step.optional, none⟩
  else if e.dispatched || e.disagreed then ⟨step.id, .running, step.optional, none⟩
  else ⟨step.id, .pending, step.optional, none⟩

def deriveStepStates (records : List LedgerRecord) (planHash : String) (steps : List StepShape) :
    List StepView :=
  steps.map fun step ↦
    stepView step (stepEvidence (planVerdicts records planHash) (planDispatches records planHash) step.id)

/-! ## Advisories -/

/-- The last row of each id, by time stamp; rows of the same time stamp count in their order. -/
def latestTodo (rows : List TodoRecord) (id : String) : Option TodoRecord :=
  (((JsText.sortByKey (rows.map fun r ↦ (r.ts.toList, r))).map Prod.snd).filter fun r ↦
    r.id = id).getLast?

def advisoryView (declared : AdvisoryShape) (row : Option TodoRecord) : AdvisoryView where
  id := declared.id
  state := row.elim .open fun r ↦ .closed r.state
  reason := truthy (row.bind TodoRecord.reason)
  lens := truthy declared.lens
  claim := truthy declared.claim

def deriveAdvisories (records : List LedgerRecord) (planHash : String) (declared : List AdvisoryShape) :
    List AdvisoryView :=
  declared.map fun a ↦ advisoryView a (latestTodo (planTodos records planHash) a.id)

/-! ## The plan -/

def StepView.isDone (s : StepView) : Bool := s.state = .passed || s.state = .skipped

def replansExhausted (plan : PlanShape) (replans : Option ℕ) : Bool :=
  match replans, plan.max_replans with
  | some used, some max => max < used
  | _, _ => false

def planStateOf (steps : List StepView) (openAdvisories : List AdvisoryView) (exhausted : Bool) :
    PlanState :=
  if (steps.any fun s ↦ s.state = .failed) || exhausted then .stalled
  else if (steps.all StepView.isDone) && openAdvisories.isEmpty then .complete
  else .active

/-- What stands in the way, in the order a reader should act on. -/
def planBlockers (plan : PlanShape) (steps : List StepView) (openAdvisories : List AdvisoryView)
    (exhausted : Bool) : List String :=
  let failed := steps.filter fun s ↦ s.state = .failed
  let notDone := steps.filter fun s ↦ !s.isDone
  (match planStateOf steps openAdvisories exhausted with
    | .stalled =>
      (failed.map fun s ↦
        "step \"" ++ s.id ++ "\" failed (gate exhaustion) — replan or revise the spec")
        ++ (if exhausted then ["the replan budget ("
          ++ (plan.max_replans.map toString).getD "undefined"
          ++ ") is exhausted — this needs a human decision"] else [])
    | .complete => []
    | .active =>
      (if notDone ≠ [] then [toString notDone.length ++ " step(s) not finished: "
        ++ String.intercalate ", " (notDone.map fun s ↦ s.id ++ " (" ++ s.state.name ++ ")")] else [])
        ++ openAdvisories.map fun a ↦
          "advisory \"" ++ a.id ++ "\" is open — close it with \x60amico plan advisory " ++ a.id
            ++ " --state fixed|waived --reason <r>|obsolete\x60")
  ++ steps.filterMap StepView.error

def derivePlanState (records : List LedgerRecord) (plan : PlanShape) (replans : Option ℕ) : PlanView :=
  let steps := deriveStepStates records plan.plan_hash plan.steps
  let advisories := deriveAdvisories records plan.plan_hash plan.advisories
  let openAdvisories := advisories.filter fun a ↦ a.state = .open
  let exhausted := replansExhausted plan replans
  { plan_hash := plan.plan_hash
    state := planStateOf steps openAdvisories exhausted
    steps
    advisories
    open_advisories := openAdvisories.length
    blockers := planBlockers plan steps openAdvisories exhausted }

/-! ## The rows that count -/

/-- Whether a record is a row of a plan: a verdict on a step, a dispatch of one, or an advisory row, in the
lane of real work. -/
def isRowOf (planHash : String) : LedgerRecord → Bool
  | .verdict r => r.plan_hash = some planHash && inLane r.source
  | .dispatch r => r.plan_hash = some planHash && inLane (some r.source)
  | .todo r => r.plan_hash = planHash && inLane (some r.source)
  | _ => false

section Reads

variable {planHash : String}

theorem reads_planVerdicts : Reads (isRowOf planHash) (planVerdicts · planHash) := by
  refine reads_filterMap_filter fun a r hr hq ↦ ?_
  obtain rfl := LedgerRecord.verdict?_eq_some.mp hr
  simp only [Bool.and_eq_true, decide_eq_true_eq] at hq
  simp only [isRowOf, Bool.and_eq_true, decide_eq_true_eq]
  exact ⟨hq.1.1, hq.2⟩

theorem reads_planDispatches : Reads (isRowOf planHash) (planDispatches · planHash) := by
  refine reads_filterMap_filter fun a r hr hq ↦ ?_
  obtain rfl := LedgerRecord.dispatch?_eq_some.mp hr
  simp only [Bool.and_eq_true, decide_eq_true_eq] at hq
  simp only [isRowOf, Bool.and_eq_true, decide_eq_true_eq]
  exact ⟨hq.1.1, hq.2⟩

theorem reads_planTodos : Reads (isRowOf planHash) (planTodos · planHash) := by
  refine reads_filterMap_filter fun a r hr hq ↦ ?_
  obtain rfl := LedgerRecord.todo?_eq_some.mp hr
  exact hq

theorem reads_deriveStepStates (steps : List StepShape) :
    Reads (isRowOf planHash) (deriveStepStates · planHash steps) :=
  reads_planVerdicts.comp₂ reads_planDispatches fun verdicts dispatches ↦
    steps.map fun step ↦ stepView step (stepEvidence verdicts dispatches step.id)

theorem reads_deriveAdvisories (declared : List AdvisoryShape) :
    Reads (isRowOf planHash) (deriveAdvisories · planHash declared) :=
  reads_planTodos.comp fun rows ↦ declared.map fun a ↦ advisoryView a (latestTodo rows a.id)

end Reads

theorem reads_derivePlanState (plan : PlanShape) (replans : Option ℕ) :
    Reads (isRowOf plan.plan_hash) (derivePlanState · plan replans) := by
  intro records records' hedits
  have hsteps := reads_deriveStepStates plan.steps _ _ hedits
  have hadvisories := reads_deriveAdvisories plan.advisories _ _ hedits
  simp only [derivePlanState, hsteps, hadvisories]

end Amicode.Plan
