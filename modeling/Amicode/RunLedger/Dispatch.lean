import Amicode.Foundation.InsertionMap
import Amicode.Foundation.Observation
import Amicode.RunLedger.Query

/-!
# Tier dispatch

Which model should author work of a given kind is read off the dispatch rows of the ledger: the first gated
attempts of each model and variant at the work, or at the task type where these are too few, give a pass rate,
the tokens of its rows give a cost, and the cheapest sufficient cell per success is selected. Where no cell is
sufficient the escalation ladder governs (`ledger_dispatch.ts`).

Simulated, hardware and authoring rows are three lanes, whose pass rates never pool. Costs pool across lanes.
Numbers are exact here; the source computes with doubles. The order of texts in a tie is the host's
(`localeCompare`).
-/

namespace Amicode.RunLedger

/-! ## Lanes and the ladder -/

inductive Lane
  | sim | hw | authoring
deriving DecidableEq

def Lane.name : Lane → String
  | .sim => "sim"
  | .hw => "hw"
  | .authoring => "authoring"

def laneOf (task_type : String) : Lane :=
  if task_type = "experiment-sim" then .sim
  else if task_type = "experiment-hw" then .hw
  else .authoring

/-- The rungs below the frontier, cheap ones first. -/
def LADDER : List String :=
  ["anthropic/claude-haiku-4-5", "anthropic/claude-sonnet-5", "anthropic/claude-opus-4-8"]

def FRONTIER_RUNG : String := "anthropic/claude-opus-5"

def ladderRungs (frontier : String) : List String := LADDER ++ [frontier]

/-- The rungs without those equal to the one before. -/
def distinctRungs (current : String) : List String → List String
  | [] => []
  | rung :: rest => if rung = current then distinctRungs current rest else rung :: distinctRungs rung rest

/-- The rungs that an attempt escalates through; a model off the ladder escalates to the frontier. -/
def escalationLadder (stamp frontier : String) : List String :=
  let rungs := ladderRungs frontier
  if stamp ∈ rungs then distinctRungs stamp (rungs.drop (rungs.idxOf stamp + 1))
  else if stamp = frontier then [] else [frontier]

/-- The cost of a model without observed tokens: its place on the ladder, the last one if it is off. -/
def ladderCost (model : String) : ℕ :=
  let rungs := ladderRungs FRONTIER_RUNG
  if model ∈ rungs then rungs.idxOf model + 1 else rungs.length

/-! ## Costs and confidence -/

structure CostEstimate where
  cost : ℚ
  observed : Bool
  rel_iqr : Option ℚ

/-- `costFor`: the tokens of the model and variant, or of the model, or the place on the ladder. -/
def costFor (rows : List DispatchRecord) (model variant : String) : CostEstimate :=
  let priced := rows.filter fun r ↦ 0 < r.tokens
  let own := (priced.filter fun r ↦ r.model = model && r.variant = variant).map fun r ↦ (r.tokens : ℚ)
  let samples :=
    if own = [] then (priced.filter fun r ↦ r.model = model).map fun r ↦ (r.tokens : ℚ) else own
  match numericStat samples with
  | none => { cost := ladderCost model, observed := false, rel_iqr := none }
  | some stat => { cost := stat.value, observed := true, rel_iqr := relIQR stat }

/-- How far a cell can be trusted: never highly while its cost is not observed. -/
def rankDispatchConfidence (n : ℕ) (relIQR : Option ℚ) (costObserved : Bool) : Confidence :=
  let wide := relIQR.any fun r ↦ IQR_WIDE < r
  let tight := relIQR.any fun r ↦ r ≤ IQR_TIGHT
  let c : Confidence :=
    if n < K_MIN || wide then .low
    else if N_HIGH ≤ n && tight then .high
    else .medium
  if c = .high && !costObserved then .medium else c

/-! ## Shapes -/

structure DispatchKey where
  work_id : String
  task_type : String
  variant : Option String
  /-- The model the escalation starts from. -/
  stamp : Option String

structure DispatchOptions where
  include_simulated : Bool
  frontier : Option String

structure DispatchCell where
  model : String
  variant : String
  key : UsedKey
  lane : Lane
  n : ℕ
  passes : ℕ
  p : ℚ
  cost : ℚ
  cost_observed : Bool
  cost_rel_iqr : Option ℚ
  /-- The cost divided by the pass rate; none is infinity. -/
  cost_per_success : Option ℚ
  confidence : Confidence
  eligible : Bool
  provenance : String

structure DispatchSelection where
  model : String
  variant : String
  key : UsedKey
  p : ℚ
  cost : ℚ
  cost_per_success : Option ℚ
  n : ℕ
  confidence : Confidence

/-- The rows that were refused. -/
structure Excluded where
  replay : ℕ
  simulated : ℕ
  cross_lane : ℕ
  escalated : ℕ

structure DispatchResult where
  work_id : String
  task_type : String
  lane : Lane
  key : UsedKey
  include_simulated : Bool
  cells : List DispatchCell
  selection : Option DispatchSelection
  ladder_fallback : Bool
  ladder : List String
  stamp : Option String
  excluded : Excluded
  provenance : String
  confidence : Confidence

/-! ## Numbers as texts -/

/-- `toFixed(4)` of a number that is not negative. -/
def toFixed4 (v : ℚ) : List Char :=
  let scaled := ⌊v * 10000 + 1 / 2⌋.toNat
  let fraction := (Nat.repr (scaled % 10000)).toList
  (Nat.repr (scaled / 10000)).toList ++ '.' :: (List.replicate (4 - fraction.length) '0' ++ fraction)

/-- A number as the provenance has it; none is infinity. -/
def fmt : Option ℚ → String
  | none => "inf"
  | some v =>
    if v.den = 1 then toString v.num
    else
      let digits := (toFixed4 v).reverse.dropWhile (· = '0')
      String.ofList ((if digits.head? = some '.' then digits.drop 1 else digits).reverse)

/-! ## Admissible rows -/

inductive Refusal
  | replay | simulated | cross_lane
deriving DecidableEq

/-- Why a row is refused. Simulated evidence is opt-in and counts in its own lane only. -/
def refusal (includeSim : Bool) (r : DispatchRecord) : Option Refusal :=
  if r.source = .replay then some .replay
  else if r.source = .simulated && !includeSim then some .simulated
  else if r.source = .simulated && laneOf r.task_type ≠ .sim then some .cross_lane
  else if laneOf r.task_type = .sim && !includeSim then some .simulated
  else none

def admissibleRows (records : List LedgerRecord) (includeSim : Bool) : List DispatchRecord :=
  (records.filterMap LedgerRecord.dispatch?).filter fun r ↦ refusal includeSim r = none

def sameLane (key : DispatchKey) (r : DispatchRecord) : Bool := laneOf r.task_type = laneOf key.task_type

/-- The row is in the lane of the query and of its work or of its task type. -/
def inScope (key : DispatchKey) (r : DispatchRecord) : Bool :=
  (sameLane key r && r.work_id = key.work_id) || (sameLane key r && r.task_type = key.task_type)

def firstAttempts (admissible : List DispatchRecord) (key : DispatchKey) : List DispatchRecord :=
  (admissible.filter (inScope key)).filter fun r ↦ r.attempt_index = 1

/-! ## Cells -/

/-- The rows of a cell, of the work or, where these are too few, of the task type. -/
def cellRows (firstAttempt : List DispatchRecord) (key : DispatchKey) (model variant : String) :
    List DispatchRecord × UsedKey :=
  let mine := firstAttempt.filter fun r ↦ r.model = model && r.variant = variant
  let primary := mine.filter fun r ↦ r.work_id = key.work_id
  let fallback := mine.filter fun r ↦ r.task_type = key.task_type
  if primary.length < K_MIN ∧ primary.length < fallback.length then (fallback, .fallback)
  else (primary, .primary)

def cellFor (firstAttempt admissible : List DispatchRecord) (key : DispatchKey) (model variant : String) :
    Option DispatchCell :=
  let (matched, usedKey) := cellRows firstAttempt key model variant
  if matched = [] then none
  else
    let n := matched.length
    let passes := (matched.filter DispatchRecord.pass).length
    let p : ℚ := passes / n
    let estimate := costFor admissible model variant
    let confidence := rankDispatchConfidence n estimate.rel_iqr estimate.observed
    some
      { model, variant, key := usedKey, lane := laneOf key.task_type, n, passes, p
        cost := estimate.cost
        cost_observed := estimate.observed
        cost_rel_iqr := estimate.rel_iqr
        cost_per_success := if 0 < p then some (estimate.cost / p) else none
        confidence
        eligible := K_MIN ≤ n && confidence ≠ .low && 0 < p
        provenance := "n=" ++ toString n ++ " first-attempt rows, " ++ toString passes ++ " passed, p="
          ++ fmt (some p) ++ ", c=" ++ fmt (some estimate.cost)
          ++ (if estimate.observed then "" else " (ladder-position default)")
          ++ " (" ++ usedKey.name ++ " key, lane=" ++ (laneOf key.task_type).name ++ ")" }

/-- The models and variants of the rows, under the text the source keys them by. -/
def cellPairs (firstAttempt : List DispatchRecord) (key : DispatchKey) : List (String × String) :=
  let rows := firstAttempt.filter fun r ↦ key.variant.elim true fun variant ↦ r.variant = variant
  (InsertionMap.empty.setAll (rows.map fun r ↦
    (r.model ++ "\x00" ++ r.variant, (r.model, r.variant)))).values

/-- A cost per success is less than another; none is infinity. -/
def costLt : Option ℚ → Option ℚ → Bool
  | some a, some b => a < b
  | some _, none => true
  | none, _ => false

def compareCells (localeCompare : String → String → Ordering) (a b : DispatchCell) : Ordering :=
  if costLt a.cost_per_success b.cost_per_success then .lt
  else if costLt b.cost_per_success a.cost_per_success then .gt
  else (compare b.n a.n).then (localeCompare a.model b.model)

def dispatchCells (localeCompare : String → String → Ordering) (admissible : List DispatchRecord)
    (key : DispatchKey) : List DispatchCell :=
  let firstAttempt := firstAttempts admissible key
  ((cellPairs firstAttempt key).filterMap fun e ↦ cellFor firstAttempt admissible key e.1 e.2).insertionSort
    fun a b ↦ compareCells localeCompare a b ≠ .gt

/-! ## Selection -/

/-- The better of two cells: cheaper per success, then cheaper per attempt, then first by its model. -/
def betterCell (localeCompare : String → String → Ordering) (acc c : DispatchCell) : DispatchCell :=
  if costLt c.cost_per_success acc.cost_per_success then c
  else if costLt acc.cost_per_success c.cost_per_success then acc
  else if c.cost ≠ acc.cost then (if c.cost < acc.cost then c else acc)
  else if localeCompare c.model acc.model = .lt then c else acc

def bestCell (localeCompare : String → String → Ordering) (cells : List DispatchCell) : Option DispatchCell :=
  (cells.filter DispatchCell.eligible).foldl
    (fun acc c ↦ some (acc.elim c fun acc ↦ betterCell localeCompare acc c)) none

def selectionOf (best : DispatchCell) : DispatchSelection :=
  { model := best.model, variant := best.variant, key := best.key, p := best.p, cost := best.cost
    cost_per_success := best.cost_per_success, n := best.n, confidence := best.confidence }

def resultKey (cells : List DispatchCell) (selection : Option DispatchSelection) : UsedKey :=
  if cells = [] then .none
  else selection.elim (if cells.any fun c ↦ c.key = .primary then .primary else .fallback)
    DispatchSelection.key

def excludedRows (records : List LedgerRecord) (key : DispatchKey) (includeSim : Bool) : Excluded :=
  let rows := records.filterMap LedgerRecord.dispatch?
  { replay := rows.countP fun r ↦ refusal includeSim r = some .replay
    simulated := rows.countP fun r ↦ refusal includeSim r = some .simulated
    cross_lane := rows.countP fun r ↦ refusal includeSim r = some .cross_lane
    escalated := ((admissibleRows records includeSim).filter (inScope key)).countP fun r ↦ r.attempt_index ≠ 1 }

def aggregateDispatch (localeCompare : String → String → Ordering) (records : List LedgerRecord)
    (key : DispatchKey) (opts : DispatchOptions) : DispatchResult :=
  let qlane := laneOf key.task_type
  let includeSim := opts.include_simulated
  let cells := dispatchCells localeCompare (admissibleRows records includeSim) key
  let selection := (bestCell localeCompare cells).map selectionOf
  { work_id := key.work_id
    task_type := key.task_type
    lane := qlane
    key := resultKey cells selection
    include_simulated := includeSim
    cells
    selection
    ladder_fallback := selection.isNone
    ladder := (truthy key.stamp).elim [] fun stamp ↦ escalationLadder stamp (opts.frontier.getD FRONTIER_RUNG)
    stamp := key.stamp
    excluded := excludedRows records key includeSim
    provenance := selection.elim
      ("no sufficient cell (" ++ toString cells.length ++ " seen, lane=" ++ qlane.name
        ++ ") — the escalation ladder governs" ++ (truthy key.stamp).elim "" fun stamp ↦ " from " ++ stamp)
      fun s ↦ "m*=" ++ s.model ++ "/" ++ s.variant ++ " at c/p=" ++ fmt s.cost_per_success ++ " from n="
        ++ toString s.n ++ " first-attempt rows (" ++ s.key.name ++ " key, lane=" ++ qlane.name
        ++ (if includeSim then ", simulated rows counted" else "") ++ ")"
    confidence := selection.elim .low DispatchSelection.confidence }

end Amicode.RunLedger

/-!
# The boundary between simulation and hardware

A pass on a simulator says nothing about a board, so the pass rate of a cell must come from rows of the lane of
the query alone. Rows of other lanes may change what a model costs, and with it the order of the cells and the
selection, but not which cells there are nor how often each was tried and passed. Without the opt-in,
simulated evidence changes nothing at all but the counters of refused rows.

Both parts hold for every ledger, query and option (`dispatchBoundary`).
-/

namespace Amicode.RunLedger

open Observation

/-! ## The law -/

/-- What a cell says of a model and variant, but for its cost. -/
structure CellEvidence where
  model : String
  variant : String
  key : UsedKey
  n : ℕ
  passes : ℕ
  p : ℚ

def DispatchCell.evidence (c : DispatchCell) : CellEvidence :=
  { model := c.model, variant := c.variant, key := c.key, n := c.n, passes := c.passes, p := c.p }

/-- A record that is no dispatch row of another lane. -/
def notOfOtherLane (lane : Lane) : LedgerRecord → Bool
  | .dispatch r => laneOf r.task_type = lane
  | _ => true

/-- A record that is neither simulated nor of the lane of simulated work. -/
def notSimulated (r : LedgerRecord) : Bool :=
  r.source? ≠ some .simulated && (r.dispatch?.elim true fun d ↦ laneOf d.task_type ≠ .sim)

/-- A result but for its counters of refused rows. -/
def DispatchResult.withoutExcluded (result : DispatchResult) : DispatchResult :=
  { result with excluded := ⟨0, 0, 0, 0⟩ }

/-- What is owed of a query at a ledger. -/
structure DispatchBoundary (localeCompare : String → String → Ordering) (records : List LedgerRecord)
    (key : DispatchKey) (opts : DispatchOptions) : Prop where
  /-- Rows of other lanes can be inserted and deleted without a change to the cells but for their costs and
  their order. -/
  cells : ∀ records', Edits (notOfOtherLane (laneOf key.task_type)) records records' →
    ((aggregateDispatch localeCompare records key opts).cells.map DispatchCell.evidence).Perm
      ((aggregateDispatch localeCompare records' key opts).cells.map DispatchCell.evidence)
  /-- Without the opt-in, simulated rows and rows of the lane of simulated work can be inserted and deleted
  without a change to the result. -/
  result : opts.include_simulated = false → ∀ records', Edits notSimulated records records' →
    (aggregateDispatch localeCompare records key opts).withoutExcluded
      = (aggregateDispatch localeCompare records' key opts).withoutExcluded

/-! ## What the rows of a query are read from -/

variable {key : DispatchKey}

theorem sameLane_of_inScope {r : DispatchRecord} (h : inScope key r = true) :
    laneOf r.task_type = laneOf key.task_type := by
  simp only [inScope, sameLane, Bool.or_eq_true, Bool.and_eq_true, decide_eq_true_eq] at h
  exact h.elim And.left And.left

theorem reads_firstAttempts (includeSim : Bool) : Reads (notOfOtherLane (laneOf key.task_type)) fun records ↦
    firstAttempts (admissibleRows records includeSim) key := by
  simp only [firstAttempts, admissibleRows, List.filter_filter]
  refine reads_filterMap_filter fun a r hr hq ↦ ?_
  obtain rfl := LedgerRecord.dispatch?_eq_some.mp hr
  simp only [Bool.and_eq_true] at hq
  simpa only [notOfOtherLane, decide_eq_true_eq] using sameLane_of_inScope hq.2.1

/-- Without the opt-in, an admissible row is neither simulated nor in the lane of simulated work. -/
theorem of_refusal_eq_none {r : DispatchRecord} (h : refusal false r = none) :
    r.source ≠ .simulated ∧ laneOf r.task_type ≠ .sim := by
  rw [refusal] at h
  split_ifs at h with hreplay hsimulated hcross hlane
  exact ⟨fun hsource ↦ hsimulated (by simp [hsource]), fun hsim ↦ hlane (by simp [hsim])⟩

theorem reads_admissibleRows : Reads notSimulated (admissibleRows · false) := by
  refine reads_filterMap_filter fun a r hr hq ↦ ?_
  obtain rfl := LedgerRecord.dispatch?_eq_some.mp hr
  have hrow := of_refusal_eq_none (of_decide_eq_true hq)
  simp [notSimulated, LedgerRecord.source?, LedgerRecord.dispatch?, hrow.1, hrow.2]

/-! ## Cells -/

/-- The evidence of a cell comes from the first attempts alone. -/
def evidenceFor (firstAttempt : List DispatchRecord) (key : DispatchKey) (model variant : String) :
    Option CellEvidence :=
  let (matched, usedKey) := cellRows firstAttempt key model variant
  let passes := (matched.filter DispatchRecord.pass).length
  if matched = [] then none
  else some { model, variant, key := usedKey, n := matched.length, passes, p := (passes : ℚ) / matched.length }

theorem evidence_cellFor (firstAttempt admissible : List DispatchRecord) (key : DispatchKey)
    (model variant : String) : (cellFor firstAttempt admissible key model variant).map DispatchCell.evidence
      = evidenceFor firstAttempt key model variant := by
  simp only [cellFor, evidenceFor]
  split_ifs <;> rfl

theorem perm_evidence_dispatchCells (localeCompare : String → String → Ordering) (key : DispatchKey)
    (admissible : List DispatchRecord) : ((dispatchCells localeCompare admissible key).map DispatchCell.evidence).Perm
      ((cellPairs (firstAttempts admissible key) key).filterMap fun e ↦
        evidenceFor (firstAttempts admissible key) key e.1 e.2) := by
  have hperm := (List.perm_insertionSort (fun a b ↦ compareCells localeCompare a b ≠ .gt)
    ((cellPairs (firstAttempts admissible key) key).filterMap fun e ↦
      cellFor (firstAttempts admissible key) admissible key e.1 e.2)).map DispatchCell.evidence
  rw [List.map_filterMap] at hperm
  simp only [evidence_cellFor] at hperm
  exact hperm

theorem dispatchBoundary (localeCompare : String → String → Ordering) (records : List LedgerRecord)
    (key : DispatchKey) (opts : DispatchOptions) : DispatchBoundary localeCompare records key opts := by
  refine ⟨?_, ?_⟩
  · intro records' hedits
    have hfirst : firstAttempts (admissibleRows records opts.include_simulated) key
        = firstAttempts (admissibleRows records' opts.include_simulated) key :=
      reads_firstAttempts opts.include_simulated _ _ hedits
    have hperm := perm_evidence_dispatchCells localeCompare key
      (admissibleRows records opts.include_simulated)
    rw [hfirst] at hperm
    exact hperm.trans (perm_evidence_dispatchCells localeCompare key _).symm
  · intro hopts records' hedits
    have hadmissible : admissibleRows records false = admissibleRows records' false :=
      reads_admissibleRows _ _ hedits
    simp only [DispatchResult.withoutExcluded, aggregateDispatch, hopts, hadmissible]

end Amicode.RunLedger
