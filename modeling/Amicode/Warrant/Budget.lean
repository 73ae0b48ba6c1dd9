import Amicode.Foundation.StepMachine
import Amicode.Warrant.Launch

/-!
# The solve budget of a warrant

A warrant with `max_solves` allows so many launches of its plan. The gate counts the solve rows of the plan, so
the bound holds as far as each launch that passes leaves such a row when it settles.

The row states the plan that the problem spec at the path in the manifest states, not the plan of the
solvespec, and there is a row at all only if that file is a problem spec. So every settlement grows the count,
and the bound holds, exactly if each run that settles left a problem spec of this plan at that path
(`budgetLaw_iff`). An authored script is none, and what the gate lets through is scripts only: the size of a
problem spec is never resolved, and an unresolved size never passes (`warrantStep_problemSpec`).
-/

namespace Amicode.Warrant

open RunLedger StepMachine List Option

/-! ## Launches and settlements -/

/-- What the model takes from the host: how it reads a time stamp and what it estimates of a script. -/
structure Host where
  dateParse : String → Option ℤ
  estimate : String → Option SizeClass

structure BudgetState where
  ledger : List LedgerRecord
  /-- The runs that have not settled. -/
  pending : List Manifest
  /-- The launches that needed a gated capability and passed. -/
  passed : ℕ

def BudgetState.start (ledger : List LedgerRecord) : BudgetState := ⟨ledger, [], 0⟩

inductive BudgetOp
  /-- A local launch, at a time, which meets the other steps of the gate or not. -/
  | launch (spec : SolveSpec) (runDir : String) (now : ℤ) (consistent : Bool)
  /-- A run settles, of those that have not. -/
  | settle (i : ℕ) (s : Settlement)
  | append (r : LedgerRecord)

variable (host : Host)

/-- What the gate takes from the ledger for a launch. -/
def contextAt (ledger : List LedgerRecord) (spec : SolveSpec) (now : ℤ) : WarrantContext :=
  assembleWarrantContext host.estimate (some ledger) spec.scriptText spec.plan_hash now

/-- The launch passes the warrant step. -/
def Passes (ledger : List LedgerRecord) (spec : SolveSpec) (now : ℤ) : Bool :=
  match warrantStep host.dateParse spec (some (contextAt host ledger spec now)) with
  | .ok _ => true
  | .error _ => false

/-- The launch needs a gated capability. -/
def IsGated (ledger : List LedgerRecord) (spec : SolveSpec) (now : ℤ) : Bool :=
  gatedCapabilities (launchFacts spec (contextAt host ledger spec now)) ≠ []

def budgetStep (s : BudgetState) : BudgetOp → BudgetState
  | .launch spec runDir now consistent =>
    if consistent && Passes host s.ledger spec now then
      { s with
        pending := s.pending ++ [manifestOf runDir spec]
        passed := s.passed + (if IsGated host s.ledger spec now then 1 else 0) }
    else s
  | .settle i settlement =>
    match s.pending[i]? with
    | none => s
    | some manifest =>
      { s with
        ledger := s.ledger ++ ((emitSolveStanza manifest settlement).map LedgerRecord.solve).toList
        pending := s.pending.eraseIdx i }
  | .append r => { s with ledger := s.ledger ++ [r] }

/-! ## The law -/

/-- What the law takes for granted: each launch states the plan and comes after the last settlement, while the
live approval of the plan has this bound, and each run settles with a complete result. -/
def Granted (planHash : String) (max : ℕ) (s : BudgetState) : BudgetOp → Prop
  | .launch spec _ now _ => s.pending = [] ∧ spec.plan_hash = some planHash
      ∧ ∃ w ∈ liveWarrant host.dateParse planHash (s.ledger.filterMap LedgerRecord.approval?) now,
        w.bounds.max_solves = some max
  | .settle _ settlement => ∃ result ∈ settlement.result, (resultFields result).isSome = true
  | .append _ => True

/-- A settlement grows the count of the plan by one. -/
def Grows (planHash : String) (s : BudgetState) : BudgetOp → Prop
  | .settle i settlement => i < s.pending.length →
      solvesUnderPlan planHash (budgetStep host s (.settle i settlement)).ledger
        = solvesUnderPlan planHash s.ledger + 1
  | _ => True

/-- What is owed of a run. -/
structure BudgetLaw (planHash : String) (max : ℕ) (ledger : List LedgerRecord) (ops : List BudgetOp) : Prop where
  grows : Guarded (budgetStep host) (Grows host planHash) (.start ledger) ops
  bounded : (run (budgetStep host) (.start ledger) ops).passed ≤ max

/-- A settlement finds a complete problem spec of the plan at the path in the manifest, and its row is valid and
can be appended. -/
def FindsSpec (planHash : String) (manifest : Manifest) (settlement : Settlement) : Prop :=
  (∃ spec ∈ readSpecFromScriptPath settlement.readToml manifest.script_path,
    (summaryFromProblemSpec spec).isSome = true ∧ textAt spec ["plan_hash"] = some planHash)
  ∧ (sourceOf settlement.ledgerSource).isSome = true ∧ settlement.appends = true

/-- The run that settles left a problem spec of the plan. -/
def Counted (planHash : String) (s : BudgetState) : BudgetOp → Prop
  | .settle i settlement => ∀ manifest ∈ s.pending[i]?, FindsSpec planHash manifest settlement
  | _ => True

/-! ## What a settlement appends -/

section Settle

variable {planHash : String} {manifest : Manifest} {settlement : Settlement}

theorem truthy_eq_some_iff {text : Option String} (h : planHash ≠ "") :
    truthy text = some planHash ↔ text = some planHash := by
  rw [truthy, filter_eq_some_iff]
  exact and_iff_left (decide_eq_true h)

theorem emitSolveStanza_plan_iff (h : planHash ≠ "")
    (hresult : ∃ result ∈ settlement.result, (resultFields result).isSome = true) :
    (∃ r ∈ emitSolveStanza manifest settlement, r.plan_hash = some planHash)
      ↔ FindsSpec planHash manifest settlement := by
  obtain ⟨result, hresult, hfields⟩ := hresult
  obtain ⟨fields, hfields⟩ := isSome_iff_exists.mp hfields
  simp only [emitSolveStanza, mem_def.mp hresult, hfields, FindsSpec, bind_eq_bind,
    bind_some]
  constructor
  · rintro ⟨r, hr, hplan⟩
    simp only [mem_def, bind_eq_some_iff, ite_none_right_eq_some] at hr
    obtain ⟨spec, hspec, summary, hsummary, source, hsource, happends, hr⟩ := hr
    obtain rfl := Option.some.inj hr
    exact ⟨⟨spec, hspec, by rw [hsummary]; rfl, (truthy_eq_some_iff h).mp hplan⟩, by rw [hsource]; rfl,
      happends⟩
  · rintro ⟨⟨spec, hspec, hsummary, hplan⟩, hsource, happends⟩
    obtain ⟨summary, hsummary⟩ := isSome_iff_exists.mp hsummary
    obtain ⟨source, hsource⟩ := isSome_iff_exists.mp hsource
    simp only [mem_def.mp hspec, hsummary, hsource, happends, bind_some, if_true,
      mem_some_iff, exists_eq_left']
    exact (truthy_eq_some_iff h).mpr hplan

theorem solvesUnderPlan_append (records records' : List LedgerRecord) :
    solvesUnderPlan planHash (records ++ records')
      = solvesUnderPlan planHash records + solvesUnderPlan planHash records' := by
  simp only [solvesUnderPlan, filterMap_append, filter_append, length_append]

/-- The row of a settlement counts for the plan it states, if there is one. -/
theorem solvesUnderPlan_emitted (emitted : Option SolveRecord) :
    solvesUnderPlan planHash (emitted.map LedgerRecord.solve).toList = 1
      ↔ ∃ r ∈ emitted, r.plan_hash = some planHash := by
  rcases emitted with _ | r
  · simp [solvesUnderPlan]
  · by_cases hplan : r.plan_hash = some planHash <;> simp [solvesUnderPlan, LedgerRecord.solve?, hplan]

end Settle

/-! ## Steps -/

section Step

variable {host} {planHash : String} {max : ℕ} {s : BudgetState} {op : BudgetOp}

theorem ledger_settle {i : ℕ} {settlement : Settlement} {manifest : Manifest}
    (h : s.pending[i]? = some manifest) : budgetStep host s (.settle i settlement) =
      { s with
        ledger := s.ledger ++ ((emitSolveStanza manifest settlement).map LedgerRecord.solve).toList
        pending := s.pending.eraseIdx i } := by
  simp only [budgetStep, h]

/-- The count grows with a settlement exactly if the settlement finds its spec. -/
theorem grows_iff_counted (h : planHash ≠ "") (hgranted : Granted host planHash max s op) :
    Grows host planHash s op ↔ Counted planHash s op := by
  rcases op with ⟨spec, runDir, now, consistent⟩ | ⟨i, settlement⟩ | r
  · exact Iff.rfl
  · rw [Grows, Counted]
    by_cases hi : i < s.pending.length
    · have hmanifest := getElem?_eq_getElem hi
      rw [ledger_settle hmanifest, hmanifest]
      simp only [hi, forall_const, solvesUnderPlan_append, Nat.add_left_cancel_iff, solvesUnderPlan_emitted,
        mem_some_iff, forall_eq']
      exact emitSolveStanza_plan_iff h hgranted
    · simp [hi]
  · exact Iff.rfl

theorem solves_left_of_passes {spec : SolveSpec} {now : ℤ} (h : planHash ≠ "")
    (hplan : spec.plan_hash = some planHash)
    (hlive : ∃ w ∈ liveWarrant host.dateParse planHash (s.ledger.filterMap LedgerRecord.approval?) now,
      w.bounds.max_solves = some max)
    (hpasses : Passes host s.ledger spec now = true) (hgated : IsGated host s.ledger spec now = true) :
    solvesUnderPlan planHash s.ledger < max := by
  have hok : warrantStep host.dateParse spec (some (contextAt host s.ledger spec now)) = .ok () := by
    rw [Passes] at hpasses
    split at hpasses
    · assumption
    · exact absurd hpasses Bool.false_ne_true
  have htruthy : truthy (some planHash) = some planHash := (truthy_eq_some_iff h).mpr rfl
  obtain ⟨planHash', hplan', w, hw, hbounds⟩ := (checkWarrant_eq_ok_iff (of_decide_eq_true hgated)).mp hok
  obtain ⟨w', hw', hmax⟩ := hlive
  simp only [launchFacts, hplan, htruthy, mem_some_iff] at hplan'
  obtain rfl := hplan'
  obtain rfl := Option.some.inj (hw.symm.trans hw')
  have hcount := countRefusal_eq_none_iff.mp (boundRefusal_eq_none_iff.mp hbounds).2.2.2 max hmax
  simpa only [launchFacts, contextAt, assembleWarrantContext, hplan, htruthy, map_some, getD_some]
    using hcount

/-- The launches that passed are covered by the bound, and by the rows and the runs to come. -/
structure Covered (planHash : String) (max : ℕ) (s : BudgetState) : Prop where
  bounded : s.passed ≤ max
  counted : s.passed ≤ solvesUnderPlan planHash s.ledger + s.pending.length

theorem covered_step (h : planHash ≠ "") (hs : Covered planHash max s)
    (hop : Granted host planHash max s op ∧ Grows host planHash s op) :
    Covered planHash max (budgetStep host s op) := by
  obtain ⟨hgranted, hgrows⟩ := hop
  have hcounted := hs.counted
  rcases op with ⟨spec, runDir, now, consistent⟩ | ⟨i, settlement⟩ | r
  · obtain ⟨hpending, hplan, hlive⟩ := hgranted
    rw [budgetStep]
    split
    · rename_i hpasses
      rw [Bool.and_eq_true] at hpasses
      rw [hpending, length_nil] at hcounted
      split
      · rename_i hgated
        have hleft := solves_left_of_passes h hplan hlive hpasses.2 hgated
        refine ⟨?_, ?_⟩
        · dsimp only
          omega
        · simp only [hpending, nil_append, length_singleton]
          omega
      · refine ⟨hs.bounded, ?_⟩
        simp only [hpending, nil_append, length_singleton]
        omega
    · exact hs
  · by_cases hi : i < s.pending.length
    · have hgrown := hgrows hi
      have hmanifest := getElem?_eq_getElem hi
      rw [ledger_settle hmanifest] at hgrown ⊢
      refine ⟨hs.bounded, ?_⟩
      dsimp only at hgrown ⊢
      rw [hgrown, length_eraseIdx_of_lt hi]
      omega
    · rw [budgetStep, getElem?_eq_none (Nat.le_of_not_lt hi)]
      exact hs
  · refine ⟨hs.bounded, ?_⟩
    dsimp only [budgetStep]
    rw [solvesUnderPlan_append]
    omega

end Step

/-! ## The law holds exactly if every run that settles left its spec -/

theorem budgetLaw_iff {planHash : String} {max : ℕ} {ledger : List LedgerRecord} {ops : List BudgetOp}
    (h : planHash ≠ "") (hgranted : Guarded (budgetStep host) (Granted host planHash max) (.start ledger) ops) :
    BudgetLaw host planHash max ledger ops
      ↔ Guarded (budgetStep host) (Counted planHash) (.start ledger) ops := by
  constructor
  · intro hlaw
    exact (hgranted.and hlaw.grows).imp fun s op hop ↦ (grows_iff_counted h hop.1).mp hop.2
  · intro hcounted
    have hgrows : Guarded (budgetStep host) (Grows host planHash) (.start ledger) ops :=
      (hgranted.and hcounted).imp fun s op hop ↦ (grows_iff_counted h hop.1).mpr hop.2
    have hstart : Covered planHash max (.start ledger) := ⟨Nat.zero_le _, Nat.zero_le _⟩
    have hcovered := invariant_run_of_guarded (fun s op hs hop ↦ covered_step h hs hop) hstart
      (hgranted.and hgrows)
    exact ⟨hgrows, hcovered.bounded⟩

/-! ## Authored scripts -/

theorem emitSolveStanza_of_not_spec {manifest : Manifest} {settlement : Settlement}
    (h : readSpecFromScriptPath settlement.readToml manifest.script_path = none) :
    emitSolveStanza manifest settlement = none := by
  rcases hresult : settlement.result with _ | result
  · simp [emitSolveStanza, hresult]
  · simp [emitSolveStanza, hresult, h]

/-- Launches of a script, each followed by its settlement. -/
def scriptRuns (spec : SolveSpec) (runDir : String) (now : ℤ) (settlement : Settlement) (n : ℕ) :
    List BudgetOp :=
  (List.replicate n [.launch spec runDir now true, .settle 0 settlement]).flatten

section Script

variable {host} {spec : SolveSpec} {runDir : String} {now : ℤ} {settlement : Settlement} {s : BudgetState}

section

variable (hpending : s.pending = []) (hpasses : Passes host s.ledger spec now = true)
  (hgated : IsGated host s.ledger spec now = true)
  (hspec : readSpecFromScriptPath settlement.readToml (manifestOf runDir spec).script_path = none)

include hpending hpasses hgated hspec

theorem run_scriptRound : run (budgetStep host) s [.launch spec runDir now true, .settle 0 settlement]
      = { s with passed := s.passed + 1 } := by
  simp [budgetStep, hpasses, hgated, hpending, emitSolveStanza_of_not_spec hspec]

/-- A script that passes once passes as often as it is launched, whatever the bound. -/
theorem passed_scriptRuns (n : ℕ) :
    (run (budgetStep host) s (scriptRuns spec runDir now settlement n)).passed = s.passed + n := by
  induction n generalizing s with
  | zero => rfl
  | succ n ih =>
    have hrounds := ih (s := { s with passed := s.passed + 1 }) hpending hpasses hgated
    rw [scriptRuns, replicate_succ, flatten_cons, run_append,
      run_scriptRound hpending hpasses hgated hspec, ← scriptRuns, hrounds, Nat.add_right_comm, Nat.add_assoc]

end

theorem granted_scriptRuns {planHash : String} {max : ℕ} (hpending : s.pending = [])
    (hpasses : Passes host s.ledger spec now = true) (hgated : IsGated host s.ledger spec now = true)
    (hspec : readSpecFromScriptPath settlement.readToml (manifestOf runDir spec).script_path = none)
    (hplan : spec.plan_hash = some planHash)
    (hlive : ∃ w ∈ liveWarrant host.dateParse planHash (s.ledger.filterMap LedgerRecord.approval?) now,
      w.bounds.max_solves = some max)
    (hresult : ∃ result ∈ settlement.result, (resultFields result).isSome = true) (n : ℕ) :
    Guarded (budgetStep host) (Granted host planHash max) s (scriptRuns spec runDir now settlement n) := by
  induction n generalizing s with
  | zero => exact guarded_nil s
  | succ n ih =>
    rw [scriptRuns, replicate_succ, flatten_cons, guarded_append,
      run_scriptRound hpending hpasses hgated hspec, ← scriptRuns]
    exact ⟨⟨⟨hpending, hplan, hlive⟩, hresult, trivial⟩, ih hpending hpasses hgated hlive⟩

end Script

/-! A warrant for one solve, and a script that needs it. -/

/-- The host on the texts below. -/
def sampleHost : Host where
  dateParse text := if text = "2026-07-29T00:00:00.000Z" then some 1785283200000 else none
  estimate text := if text = "N = 50\nlevels = 3\n" then some .SMALL else none

def sampleApproval : ApprovalRecord :=
  { ts := "2026-07-28T00:00:00.000Z", plan_hash := "9f2c"
    bounds := { max_solves := some 1, tier := some "vetted", max_size_class := none, device := none }
    expires_at := "2026-07-29T00:00:00.000Z", issued_by := "user:cli" }

def sampleScript : SolveSpec :=
  { plan_hash := some "9f2c", tier := some "vetted", executor := some "local"
    body := .script "/work/solve.jl" "N = 50\nlevels = 3\n" }

/-- A complete result. The script does not read as TOML. -/
def sampleSettlement : Settlement where
  result := some (.obj [("fidelity", .num "0.99"), ("iterations", .num "12"),
    ("params", .obj [("structure_hash", .str "s"), ("problem_hash", .str "p")])])
  readToml _ := none
  ts := "2026-07-28T12:00:00.000Z"
  ledgerSource := none
  appends := true

def sampleRun : List BudgetOp := scriptRuns sampleScript "/runs/r1" 1785240000000 sampleSettlement 2

theorem passes_sampleScript :
    Passes sampleHost [.approval sampleApproval] sampleScript 1785240000000 = true := by
  decide +kernel

theorem isGated_sampleScript :
    IsGated sampleHost [.approval sampleApproval] sampleScript 1785240000000 = true := by
  decide +kernel

theorem granted_sampleRun : Guarded (budgetStep sampleHost) (Granted sampleHost "9f2c" 1)
    (.start [.approval sampleApproval]) sampleRun :=
  granted_scriptRuns rfl passes_sampleScript isGated_sampleScript rfl rfl ⟨sampleApproval, rfl, rfl⟩
    ⟨_, rfl, by decide +kernel⟩ 2

theorem budgetLaw_iff_sampleRun : BudgetLaw sampleHost "9f2c" 1 [.approval sampleApproval] sampleRun
    ↔ Guarded (budgetStep sampleHost) (Counted "9f2c") (.start [.approval sampleApproval]) sampleRun :=
  budgetLaw_iff sampleHost (by decide) granted_sampleRun

/-- Both launches pass under a warrant for one. -/
theorem not_budgetLaw_script : Guarded (budgetStep sampleHost) (Granted sampleHost "9f2c" 1)
      (.start [.approval sampleApproval]) sampleRun
    ∧ ¬ BudgetLaw sampleHost "9f2c" 1 [.approval sampleApproval] sampleRun := by
  refine ⟨granted_sampleRun, fun h ↦ ?_⟩
  have hpassed : (run (budgetStep sampleHost) (.start [.approval sampleApproval]) sampleRun).passed = 0 + 2 :=
    passed_scriptRuns rfl passes_sampleScript isGated_sampleScript rfl 2
  exact absurd (hpassed ▸ h.bounded) (by decide)

end Amicode.Warrant
