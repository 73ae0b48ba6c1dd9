import Mathlib.Data.List.Sort
import Mathlib.Data.Rat.Floor

/-!
# The run ledger

The ledger is an append-only list of records (`ledger.ts`). Each kind has its own fields; the record types
below have the fields that some modelled function reads or writes. The kinds that none of them reads
(receipts, attempt errors, fallbacks, overrides, burns, claims) are `other`.

Records are validated when they are appended. An integer field is a natural number here, a number field a
rational, and a task type is a text, as the source's own `TaskType | string` is.
-/

namespace Amicode.RunLedger

/-- Where the work of a record was done. -/
inductive Source
  | user | replay | simulated
deriving DecidableEq

def truthy (text : Option String) : Option String := text.filter (· ≠ "")

/-! ## Solves -/

/-- What was solved, with the knobs a query recommends. -/
structure SolveSummary where
  platform : String
  template : String
  trajectory : String
  N : ℚ
  T : ℚ
  goal : String
  solver : String
  strategy : String
  levels : Option ℚ
  Q : Option ℚ
  R : Option ℚ
  du_bound : Option ℚ
  max_iter : Option ℚ
  integrator : Option String

structure SolveOutcome where
  converged : Bool
  fidelity : ℚ
  iterations : ℚ
  wall_s : Option ℚ

structure SolveRecord where
  ts : String
  structure_hash : String
  problem_hash : String
  kind : String
  tier : String
  summary : SolveSummary
  source : Source
  outcome : SolveOutcome
  /-- The approved plan the solve ran under. -/
  plan_hash : Option String

/-! ## Verdicts and dispatches -/

inductive VerdictKind
  | agree | disagree | exhausted | bypassed
deriving DecidableEq

structure VerdictRecord where
  ts : String
  problem_hash : Option String
  verdict : VerdictKind
  plan_hash : Option String
  step_id : Option String
  source : Option Source

/-- One gated attempt, one row for each gate. -/
structure DispatchRecord where
  ts : String
  task_type : String
  work_id : String
  model : String
  variant : String
  gate : String
  pass : Bool
  tokens : ℕ
  /-- The position on the ladder; 1 is the first attempt. -/
  attempt_index : ℕ
  source : Source
  plan_hash : Option String
  step_id : Option String

/-! ## Approvals and deliberation -/

inductive SizeClass
  | SMALL | MEDIUM
deriving DecidableEq

inductive DeviceAccess
  | none | ro | rw
deriving DecidableEq

/-- What a warrant authorises. An absent key is no permission. -/
structure WarrantBounds where
  max_solves : Option ℕ
  tier : Option String
  max_size_class : Option SizeClass
  device : Option DeviceAccess

structure ApprovalRecord where
  ts : String
  plan_hash : String
  bounds : WarrantBounds
  expires_at : String
  issued_by : String

inductive ReviewVerdict
  | approved | approvedMechanical | degraded | blocking | exhausted
deriving DecidableEq

def ReviewVerdict.name : ReviewVerdict → String
  | .approved => "approved"
  | .approvedMechanical => "approved-mechanical"
  | .degraded => "degraded"
  | .blocking => "blocking"
  | .exhausted => "exhausted"

/-- One completed adversarial review. -/
structure SpecReviewRecord where
  ts : String
  /-- The spec's immutable identity; a design hash alone is none. -/
  spec_id : String
  design_hash : String
  review_verdict : ReviewVerdict
  blocking_count : ℕ
  source : Source
deriving DecidableEq

structure CompiledBy where
  model : String
  variant : String

structure PlanCompiledRecord where
  ts : String
  plan_hash : String
  spec_id : String
  design_hash : String
  compiled_by : Option CompiledBy
  step_count : ℕ
  advisory_count : ℕ
  suggested_ttl_s : ℕ
  allow_unreviewed : Bool
  source : Source

inductive TodoState
  | fixed | waived | obsolete
deriving DecidableEq

/-- One transition of an advisory. -/
structure TodoRecord where
  ts : String
  plan_hash : String
  id : String
  state : TodoState
  reason : Option String
  source : Source

/-! ## Records -/

inductive LedgerRecord
  | solve (r : SolveRecord)
  | verdict (r : VerdictRecord)
  | dispatch (r : DispatchRecord)
  | approval (r : ApprovalRecord)
  | specReview (r : SpecReviewRecord)
  | planCompiled (r : PlanCompiledRecord)
  | todo (r : TodoRecord)
  /-- A kind no function of the model reads. -/
  | other (type : String)

namespace LedgerRecord

def solve? : LedgerRecord → Option SolveRecord
  | .solve r => some r
  | _ => none

def verdict? : LedgerRecord → Option VerdictRecord
  | .verdict r => some r
  | _ => none

def dispatch? : LedgerRecord → Option DispatchRecord
  | .dispatch r => some r
  | _ => none

def approval? : LedgerRecord → Option ApprovalRecord
  | .approval r => some r
  | _ => none

def specReview? : LedgerRecord → Option SpecReviewRecord
  | .specReview r => some r
  | _ => none

def planCompiled? : LedgerRecord → Option PlanCompiledRecord
  | .planCompiled r => some r
  | _ => none

def todo? : LedgerRecord → Option TodoRecord
  | .todo r => some r
  | _ => none

variable {a : LedgerRecord}

@[simp] theorem solve?_eq_some {r : SolveRecord} : a.solve? = some r ↔ a = .solve r := by
  cases a <;> simp [solve?]

@[simp] theorem verdict?_eq_some {r : VerdictRecord} :
    a.verdict? = some r ↔ a = .verdict r := by
  cases a <;> simp [verdict?]

@[simp] theorem dispatch?_eq_some {r : DispatchRecord} :
    a.dispatch? = some r ↔ a = .dispatch r := by
  cases a <;> simp [dispatch?]

@[simp] theorem todo?_eq_some {r : TodoRecord} : a.todo? = some r ↔ a = .todo r := by
  cases a <;> simp [todo?]

def source? : LedgerRecord → Option Source
  | .solve r => some r.source
  | .verdict r => r.source
  | .dispatch r => some r.source
  | .specReview r => some r.source
  | .planCompiled r => some r.source
  | .todo r => some r.source
  | .approval _ | .other _ => none

def planHash? : LedgerRecord → Option String
  | .solve r => r.plan_hash
  | .verdict r => r.plan_hash
  | .dispatch r => r.plan_hash
  | .approval r => some r.plan_hash
  | .planCompiled r => some r.plan_hash
  | .todo r => some r.plan_hash
  | .specReview _ | .other _ => none

end LedgerRecord

end Amicode.RunLedger

/-!
# Defaults and precedents from the run ledger

`aggregate` answers what parameters worked for solves of a structure at a problem size: the median and the
quartiles of each numeric parameter and the most frequent integrator over the matching solves of real work,
with how many of these are verified and how far the answer can be trusted. `precedentIn` counts the attempts
at a structure whatever their size (`ledger_query.ts`).

Numbers are exact here; the source computes with doubles.
-/

namespace Amicode.RunLedger

/-! ## Buckets and bounds -/

def N_EDGES : List ℚ := [25, 50, 100, 200, 400]

def T_EDGES : List ℚ := [10, 30, 100, 300, 1000]

/-- A value on an edge is in the higher bucket. -/
def bucketN (n : ℚ) : ℕ := (N_EDGES.filter fun e ↦ e ≤ n).length

def bucketT (t : ℚ) : ℕ := (T_EDGES.filter fun e ↦ e ≤ t).length

/-- The number of runs below which a key is relaxed to the fallback key. -/
def K_MIN : ℕ := 2

/-- The number of runs from which a prior can be trusted highly. -/
def N_HIGH : ℕ := 5

/-- The relative spread up to which a parameter is tight. -/
def IQR_TIGHT : ℚ := 1 / 2

/-- The relative spread above which it is wide. -/
def IQR_WIDE : ℚ := 3 / 2

inductive Confidence
  | high | medium | low
deriving DecidableEq

/-! ## Statistics -/

structure ParamStat where
  /-- The median. -/
  value : ℚ
  q1 : ℚ
  q3 : ℚ
  n : ℕ
deriving DecidableEq

structure CategoricalStat where
  /-- The most frequent value. -/
  value : String
  n : ℕ
  total : ℕ
deriving DecidableEq

/-- The quantile of a sorted list, by linear interpolation; there is none of the empty list. -/
def quantile (sorted : List ℚ) (p : ℚ) : Option ℚ :=
  match sorted with
  | [] => none
  | [value] => some value
  | sorted =>
    let idx := (sorted.length - 1 : ℕ) * p
    let lo := ⌊idx⌋.toNat
    let hi := ⌈idx⌉.toNat
    if lo = hi then sorted[lo]?
    else do
      let low ← sorted[lo]?
      let high ← sorted[hi]?
      return low + (high - low) * (idx - lo)

/-- The median and the quartiles of values, if there are any. -/
def numericStat (values : List ℚ) : Option ParamStat := do
  let sorted := values.insertionSort (· ≤ ·)
  let value ← quantile sorted (1 / 2)
  let q1 ← quantile sorted (1 / 4)
  let q3 ← quantile sorted (3 / 4)
  return { value, q1, q3, n := sorted.length }

/-- The spread of values relative to their median, if there are two of them and the median is not zero. -/
def relIQR (stat : ParamStat) : Option ℚ :=
  if 2 ≤ stat.n ∧ stat.value ≠ 0 then some ((stat.q3 - stat.q1) / |stat.value|) else none

/-- The most frequent integrator; of those as frequent, the one met first. -/
def integratorMode (solves : List SolveRecord) : Option CategoricalStat :=
  let values := solves.filterMap fun s ↦ s.summary.integrator
  match values with
  | [] => none
  | _ =>
    let keys := values.reverse.dedup.reverse
    let best := keys.foldl (fun (best : String × ℕ) k ↦
      if best.2 < values.count k then (k, values.count k) else best) ("", 0)
    some { value := best.1, n := best.2, total := values.length }

/-! ## Matching -/

structure QueryKey where
  structure_hash : String
  n_bucket : ℕ
  t_bucket : ℕ
  /-- The structure hash does not cover the goal. -/
  goal : Option String
  platform : Option String
  template : Option String
  trajectory : Option String
  levels : Option ℚ

def bucketMatch (key : QueryKey) (s : SolveRecord) : Bool :=
  bucketN s.summary.N = key.n_bucket && bucketT s.summary.T = key.t_bucket

/-- Any goal matches if the key states none. -/
def goalMatch (key : QueryKey) (s : SolveRecord) : Bool := key.goal.elim true fun goal ↦ s.summary.goal = goal

def primaryMatch (key : QueryKey) (s : SolveRecord) : Bool :=
  s.structure_hash = key.structure_hash && bucketMatch key s && goalMatch key s

/-- The fallback key needs a platform, a template and a trajectory. -/
def fallbackMatch (key : QueryKey) (s : SolveRecord) : Bool :=
  match truthy key.platform, truthy key.template, truthy key.trajectory with
  | some platform, some template, some trajectory =>
    s.summary.platform = platform && s.summary.template = template && s.summary.trajectory = trajectory
      && (key.levels.elim true fun levels ↦ s.summary.levels = some levels)
      && bucketMatch key s && goalMatch key s
  | _, _, _ => false

/-! ## Aggregation -/

inductive NumericParam
  | Q | R | du_bound | N | max_iter
deriving DecidableEq

def NUMERIC_PARAMS : List NumericParam := [.Q, .R, .du_bound, .N, .max_iter]

def pull (s : SolveRecord) : NumericParam → Option ℚ
  | .Q => s.summary.Q
  | .R => s.summary.R
  | .du_bound => s.summary.du_bound
  | .N => some s.summary.N
  | .max_iter => s.summary.max_iter

inductive UsedKey
  | primary | fallback | «none»
deriving DecidableEq

def UsedKey.name : UsedKey → String
  | .primary => "primary"
  | .fallback => "fallback"
  | .none => "none"

structure QueryParams where
  numeric : List (NumericParam × ParamStat)
  integrator : Option CategoricalStat
deriving DecidableEq

structure QueryResult where
  key : UsedKey
  structure_hash : String
  n_bucket : ℕ
  t_bucket : ℕ
  total : ℕ
  verified : ℕ
  params : QueryParams
  provenance : String
  confidence : Confidence

/-- How far an answer can be trusted: never highly while a run is unverified. -/
def rankConfidence (total verified : ℕ) (relIQRs : List ℚ) : Confidence :=
  let wide := relIQRs.any fun r ↦ IQR_WIDE < r
  let tight := relIQRs ≠ [] && relIQRs.all fun r ↦ r ≤ IQR_TIGHT
  let verifiedMajority := total < verified * 2
  let c : Confidence :=
    if total < K_MIN || wide then .low
    else if N_HIGH ≤ total && tight && verifiedMajority then .high
    else .medium
  if c = .high && verified < total then .medium else c

/-- The solves of real work. -/
def userSolves (records : List LedgerRecord) : List SolveRecord :=
  (records.filterMap LedgerRecord.solve?).filter fun s ↦ s.source = .user

def matchedSolves (solves : List SolveRecord) (key : QueryKey) : List SolveRecord × UsedKey :=
  let primary := solves.filter (primaryMatch key)
  let fallback := solves.filter (fallbackMatch key)
  let (matched, usedKey) : List SolveRecord × UsedKey :=
    if primary.length < K_MIN ∧ primary.length < fallback.length then (fallback, .fallback)
    else (primary, .primary)
  (matched, if matched = [] then .none else usedKey)

def agreedProblems (verdicts : List VerdictRecord) : List (Option String) :=
  (verdicts.filter fun r ↦ r.verdict = .agree).map VerdictRecord.problem_hash

/-- The solves whose problem is among these. -/
def verifiedCount (solves : List SolveRecord) (agreed : List (Option String)) : ℕ :=
  (solves.filter fun s ↦ some s.problem_hash ∈ agreed).length

def queryParams (matched : List SolveRecord) : QueryParams where
  numeric := NUMERIC_PARAMS.filterMap fun p ↦ (numericStat (matched.filterMap (pull · p))).map fun stat ↦ (p, stat)
  integrator := integratorMode matched

/-- `aggregate`: a verdict counts whatever its source. -/
def aggregate (records : List LedgerRecord) (key : QueryKey) : QueryResult :=
  let (matched, usedKey) := matchedSolves (userSolves records) key
  let verified := verifiedCount matched (agreedProblems (records.filterMap LedgerRecord.verdict?))
  let params := queryParams matched
  { key := usedKey
    structure_hash := key.structure_hash
    n_bucket := key.n_bucket
    t_bucket := key.t_bucket
    total := matched.length
    verified
    params
    provenance := "n=" ++ toString matched.length ++ " runs, " ++ toString verified ++ " verified ("
      ++ usedKey.name ++ " key" ++ (key.goal.elim ", goal not keyed" fun goal ↦ ", goal=" ++ goal) ++ ")"
    confidence :=
      if matched = [] then .low
      else rankConfidence matched.length verified (params.numeric.filterMap fun e ↦ relIQR e.2) }

/-! ## Precedent -/

structure Precedent where
  total : ℕ
  verified : ℕ
deriving DecidableEq

/-- `precedentIn`: a verdict of replayed or simulated work does not count. -/
def precedentIn (records : List LedgerRecord) (structureHash : String) : Precedent :=
  let solves := (userSolves records).filter fun s ↦ s.structure_hash = structureHash
  let verdicts := (records.filterMap LedgerRecord.verdict?).filter fun r ↦ r.source = none || r.source = some .user
  { total := solves.length
    verified := verifiedCount solves (agreedProblems verdicts) }

end Amicode.RunLedger
