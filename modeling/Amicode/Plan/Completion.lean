import Amicode.Plan.State

/-!
# The completion law of a plan

A plan is complete exactly if every step is passed or skipped, every advisory is closed and nothing is
stalled. A step is skipped only with the permission of the plan and a bypass of its own. A row of another plan
has no effect.

A bypass of a step that is not optional is not honoured, and owes it to the step to leave its state as it is.
The states on the bypass branch come from a cascade of their own, which differs from the other one in two
places: exhaustion comes before agreement, and a step under way by disagreement alone is pending. The law
holds exactly if no bypass that counts is alone in changing the branch of a step in one of the two places
(`completionLaw_iff`).
-/

namespace Amicode.Plan

open RunLedger Observation List

/-! ## The law -/

def PlanView.stateAt (view : PlanView) (i : ℕ) : Option StepState := view.steps[i]?.map StepView.state

/-- The view of the step at a place of the plan, but for its error. -/
def PlanView.stepAt (view : PlanView) (i : ℕ) : Option StepView :=
  view.steps[i]?.map fun v ↦ { v with error := none }

def PlanView.errorAt (view : PlanView) (i : ℕ) : Option String := view.steps[i]?.bind StepView.error

def HasVerdict (records : List LedgerRecord) (planHash id : String) (kind : VerdictKind) : Prop :=
  ∃ r, .verdict r ∈ records ∧ r.plan_hash = some planHash ∧ inLane r.source = true ∧ r.step_id = some id
    ∧ r.verdict = kind

def HasDispatch (records : List LedgerRecord) (planHash id : String) : Prop :=
  ∃ r, .dispatch r ∈ records ∧ r.plan_hash = some planHash ∧ inLane (some r.source) = true
    ∧ r.step_id = some id

/-- An advisory row counts for an id. -/
def HasTodo (records : List LedgerRecord) (planHash id : String) : Prop :=
  ∃ r, .todo r ∈ records ∧ r.plan_hash = planHash ∧ inLane (some r.source) = true ∧ r.id = id

/-- A step failed, or the replan budget is exhausted. -/
def IsStalled (view : PlanView) (plan : PlanShape) (replans : Option ℕ) : Prop :=
  (∃ v ∈ view.steps, v.state = .failed) ∨
    ∃ used max, replans = some used ∧ plan.max_replans = some max ∧ max < used

/-- What is owed of the state derived from a ledger. -/
structure CompletionLaw (records : List LedgerRecord) (plan : PlanShape) (replans : Option ℕ) : Prop where
  complete : (derivePlanState records plan replans).state = .complete ↔
    (∀ i < plan.steps.length, (derivePlanState records plan replans).stateAt i = some .passed
        ∨ (derivePlanState records plan replans).stateAt i = some .skipped)
      ∧ (∀ a ∈ plan.advisories, HasTodo records plan.plan_hash a.id)
      ∧ ¬ IsStalled (derivePlanState records plan replans) plan replans
  skipped : ∀ i step, plan.steps[i]? = some step →
    (derivePlanState records plan replans).stateAt i = some .skipped →
      step.optional = true ∧ HasVerdict records plan.plan_hash step.id .bypassed
  /-- A bypass of a step that is not optional changes neither the step but for its error nor the state of the
  plan. -/
  inert : ∀ before r after, records = before ++ .verdict r :: after → r.verdict = .bypassed →
    ∀ i step, plan.steps[i]? = some step → step.optional = false → r.step_id = some step.id →
      (derivePlanState records plan replans).stepAt i
          = (derivePlanState (before ++ after) plan replans).stepAt i
        ∧ (derivePlanState records plan replans).state = (derivePlanState (before ++ after) plan replans).state
  /-- Such a bypass is shown as an error. -/
  flagged : ∀ i step, plan.steps[i]? = some step → step.optional = false →
    HasVerdict records plan.plan_hash step.id .bypassed →
      (derivePlanState records plan replans).errorAt i = some (bypassError step.id)
  /-- Rows that do not state this plan can be inserted and deleted. -/
  foreign : ∀ records', Edits (fun r ↦ r.planHash? = some plan.plan_hash) records records' →
    derivePlanState records plan replans = derivePlanState records' plan replans

/-- The rows on a step for which the two cascades differ. -/
def CascadesDiffer (records : List LedgerRecord) (planHash id : String) : Prop :=
  (HasVerdict records planHash id .agree ∧ HasVerdict records planHash id .exhausted) ∨
    (HasVerdict records planHash id .disagree ∧ ¬ HasVerdict records planHash id .agree
      ∧ ¬ HasVerdict records planHash id .exhausted ∧ ¬ HasDispatch records planHash id)

/-- No bypass that counts is alone in taking a step that is not optional to the other cascade, where they
differ. -/
def BypassesAgree (records : List LedgerRecord) (plan : PlanShape) : Prop :=
  ∀ before r after, records = before ++ .verdict r :: after → r.verdict = .bypassed →
    r.plan_hash = some plan.plan_hash → inLane r.source = true →
    ∀ step ∈ plan.steps, step.optional = false → r.step_id = some step.id →
      CascadesDiffer (before ++ after) plan.plan_hash step.id →
        HasVerdict (before ++ after) plan.plan_hash step.id .bypassed

/-! ## The evidence on a step -/

section Evidence

variable {records : List LedgerRecord} {planHash id : String}

theorem mem_planVerdicts {r : VerdictRecord} :
    r ∈ planVerdicts records planHash ↔ .verdict r ∈ records ∧ r.plan_hash = some planHash
      ∧ r.step_id.isSome = true ∧ inLane r.source = true := by
  simp only [planVerdicts, mem_filter, mem_filterMap, LedgerRecord.verdict?_eq_some,
    exists_eq_right, Bool.and_eq_true, decide_eq_true_eq, and_assoc]

theorem any_verdict_iff {kind : VerdictKind} :
    ((planVerdicts records planHash).any fun v ↦ v.step_id = some id && v.verdict = kind) = true
      ↔ HasVerdict records planHash id kind := by
  simp only [List.any_eq_true, mem_planVerdicts, Bool.and_eq_true, decide_eq_true_eq]
  constructor
  · rintro ⟨r, ⟨hr, hplan, -, hlane⟩, hid, hkind⟩
    exact ⟨r, hr, hplan, hlane, hid, hkind⟩
  · rintro ⟨r, hr, hplan, hlane, hid, hkind⟩
    exact ⟨r, ⟨hr, hplan, by rw [hid]; rfl, hlane⟩, hid, hkind⟩

theorem any_dispatch_iff :
    ((planDispatches records planHash).any fun d ↦ d.step_id = some id) = true
      ↔ HasDispatch records planHash id := by
  simp only [List.any_eq_true, planDispatches, mem_filter, mem_filterMap,
    LedgerRecord.dispatch?_eq_some, exists_eq_right, Bool.and_eq_true, decide_eq_true_eq]
  constructor
  · rintro ⟨r, ⟨hr, ⟨hplan, -⟩, hlane⟩, hid⟩
    exact ⟨r, hr, hplan, hlane, hid⟩
  · rintro ⟨r, hr, hplan, hlane, hid⟩
    exact ⟨r, ⟨hr, ⟨hplan, by rw [hid]; rfl⟩, hlane⟩, hid⟩

/-- The evidence on the step with an id, as it is read off a ledger. -/
def evidenceIn (records : List LedgerRecord) (planHash id : String) : StepEvidence :=
  stepEvidence (planVerdicts records planHash) (planDispatches records planHash) id

@[simp] theorem evidenceIn_bypassed :
    (evidenceIn records planHash id).bypassed = true ↔ HasVerdict records planHash id .bypassed :=
  any_verdict_iff

@[simp] theorem evidenceIn_agreed :
    (evidenceIn records planHash id).agreed = true ↔ HasVerdict records planHash id .agree :=
  any_verdict_iff

@[simp] theorem evidenceIn_exhausted :
    (evidenceIn records planHash id).exhausted = true ↔ HasVerdict records planHash id .exhausted :=
  any_verdict_iff

@[simp] theorem evidenceIn_disagreed :
    (evidenceIn records planHash id).disagreed = true ↔ HasVerdict records planHash id .disagree :=
  any_verdict_iff

@[simp] theorem evidenceIn_dispatched :
    (evidenceIn records planHash id).dispatched = true ↔ HasDispatch records planHash id :=
  any_dispatch_iff

end Evidence

section Insert

variable {before after : List LedgerRecord} {r : VerdictRecord} {planHash id : String}

theorem hasVerdict_insert_iff {kind : VerdictKind} :
    HasVerdict (before ++ .verdict r :: after) planHash id kind ↔ HasVerdict (before ++ after) planHash id kind
      ∨ (r.plan_hash = some planHash ∧ inLane r.source = true ∧ r.step_id = some id ∧ r.verdict = kind) := by
  constructor
  · rintro ⟨v, hv, hcounts⟩
    rcases mem_append.mp hv with hv | hv
    · exact .inl ⟨v, mem_append_left _ hv, hcounts⟩
    · rcases mem_cons.mp hv with hv | hv
      · obtain rfl := LedgerRecord.verdict.inj hv
        exact .inr hcounts
      · exact .inl ⟨v, mem_append_right _ hv, hcounts⟩
  · rintro (⟨v, hv, hcounts⟩ | hcounts)
    · exact ⟨v, (Sublist.append (Sublist.refl _) (sublist_cons_self _ _)).subset hv, hcounts⟩
    · exact ⟨r, by simp, hcounts⟩

theorem hasDispatch_insert_iff :
    HasDispatch (before ++ .verdict r :: after) planHash id ↔ HasDispatch (before ++ after) planHash id := by
  simp [HasDispatch]

theorem evidenceIn_insert_of_not
    (h : ¬ (r.plan_hash = some planHash ∧ inLane r.source = true ∧ r.step_id = some id)) :
    evidenceIn (before ++ .verdict r :: after) planHash id = evidenceIn (before ++ after) planHash id := by
  have hverdict : ∀ kind, HasVerdict (before ++ .verdict r :: after) planHash id kind
      ↔ HasVerdict (before ++ after) planHash id kind := by
    refine fun kind ↦ hasVerdict_insert_iff.trans (or_iff_left ?_)
    exact fun hcounts ↦ h ⟨hcounts.1, hcounts.2.1, hcounts.2.2.1⟩
  ext <;> rw [Bool.eq_iff_iff] <;> simp [hverdict, hasDispatch_insert_iff]

theorem evidenceIn_insert_bypassed (hplan : r.plan_hash = some planHash) (hlane : inLane r.source = true)
    (hid : r.step_id = some id) (hkind : r.verdict = .bypassed) :
    evidenceIn (before ++ .verdict r :: after) planHash id
      = { evidenceIn (before ++ after) planHash id with bypassed := true } := by
  have hverdict : ∀ kind, HasVerdict (before ++ .verdict r :: after) planHash id kind
      ↔ HasVerdict (before ++ after) planHash id kind ∨ kind = .bypassed := by
    intro kind
    rw [hasVerdict_insert_iff, hkind]
    simp [hplan, hlane, hid, eq_comm]
  ext <;> rw [Bool.eq_iff_iff] <;> simp [hverdict, hasDispatch_insert_iff]

end Insert

/-! ## The two cascades -/

/-- The evidence takes a step that is not optional to different states in the two cascades. -/
def StepEvidence.differs (e : StepEvidence) : Bool :=
  (e.agreed && e.exhausted) || (e.disagreed && !e.agreed && !e.exhausted && !e.dispatched)

/-- On a step that is not optional, a bypass changes the state exactly if it is the first one and the cascades
differ. -/
theorem stepView_bypassed_iff {step : StepShape} (h : step.optional = false) (e : StepEvidence) :
    (stepView step { e with bypassed := true }).state = (stepView step e).state
      ↔ (e.differs = true → e.bypassed = true) := by
  rcases e with ⟨_ | _, _ | _, _ | _, _ | _, _ | _⟩ <;> simp [stepView, StepEvidence.differs, h]

/-! ## The state of the plan -/

section PlanState

variable {records : List LedgerRecord} {plan : PlanShape} {replans : Option ℕ}

def viewIn (records : List LedgerRecord) (plan : PlanShape) (step : StepShape) : StepView :=
  stepView step (evidenceIn records plan.plan_hash step.id)

theorem steps_derivePlanState :
    (derivePlanState records plan replans).steps = plan.steps.map (viewIn records plan) := rfl

variable {step : StepShape}

theorem getElem?_steps {i : ℕ} (h : plan.steps[i]? = some step) :
    (derivePlanState records plan replans).steps[i]? = some (viewIn records plan step) := by
  rw [steps_derivePlanState, getElem?_map, h, Option.map_some]

theorem replansExhausted_iff : replansExhausted plan replans = true ↔
    ∃ used max, replans = some used ∧ plan.max_replans = some max ∧ max < used := by
  rcases hmax : plan.max_replans with _ | max <;> rcases replans with _ | used <;>
    simp [replansExhausted, hmax]

theorem isStalled_iff : IsStalled (derivePlanState records plan replans) plan replans ↔
    (((derivePlanState records plan replans).steps.any fun s ↦ s.state = .failed)
      || replansExhausted plan replans) = true := by
  rw [IsStalled, Bool.or_eq_true, replansExhausted_iff]
  simp

theorem mem_planTodos {planHash : String} {r : TodoRecord} : r ∈ planTodos records planHash ↔
    .todo r ∈ records ∧ r.plan_hash = planHash ∧ inLane (some r.source) = true := by
  simp only [planTodos, mem_filter, mem_filterMap, LedgerRecord.todo?_eq_some, exists_eq_right,
    Bool.and_eq_true, decide_eq_true_eq]

theorem isSome_latestTodo {planHash id : String} :
    (latestTodo (planTodos records planHash) id).isSome = true ↔ HasTodo records planHash id := by
  have hmem (r : TodoRecord) :
      r ∈ (JsText.sortByKey ((planTodos records planHash).map fun r ↦ (r.ts.toList, r))).map Prod.snd
        ↔ r ∈ planTodos records planHash := by
    rw [((JsText.perm_sortByKey _).map Prod.snd).mem_iff, List.map_map]
    simp
  rw [latestTodo, getLast?_isSome, ← length_pos_iff, length_pos_iff_exists_mem]
  simp only [mem_filter, hmem, decide_eq_true_eq, mem_planTodos, HasTodo, and_assoc]

theorem openAdvisories_eq_nil_iff {planHash : String} {declared : List AdvisoryShape} :
    ((deriveAdvisories records planHash declared).filter fun a ↦ a.state = .open) = []
      ↔ ∀ a ∈ declared, HasTodo records planHash a.id := by
  have hopen (a : AdvisoryShape) (row : Option TodoRecord) :
      (advisoryView a row).state = .open ↔ ¬ row.isSome = true := by
    rcases row with _ | r <;> simp [advisoryView]
  simp only [deriveAdvisories, filter_eq_nil_iff, List.mem_map, forall_exists_index, and_imp,
    forall_apply_eq_imp_iff₂, decide_eq_true_eq, hopen, not_not, isSome_latestTodo]

theorem complete_iff : (derivePlanState records plan replans).state = .complete ↔
    (∀ v ∈ (derivePlanState records plan replans).steps, v.state = .passed ∨ v.state = .skipped)
      ∧ (∀ a ∈ plan.advisories, HasTodo records plan.plan_hash a.id)
      ∧ ¬ IsStalled (derivePlanState records plan replans) plan replans := by
  rw [← openAdvisories_eq_nil_iff, isStalled_iff]
  have hdone : ((derivePlanState records plan replans).steps.all StepView.isDone) = true ↔
      ∀ v ∈ (derivePlanState records plan replans).steps, v.state = .passed ∨ v.state = .skipped := by
    simp [List.all_eq_true, StepView.isDone]
  rw [← hdone, ← List.isEmpty_iff]
  change planStateOf _ _ _ = _ ↔ _
  rw [planStateOf]
  split_ifs with hstalled hcomplete
  · exact iff_of_false (by simp) fun h ↦ h.2.2 hstalled
  · exact iff_of_true rfl ⟨(Bool.and_eq_true_iff.mp hcomplete).1, (Bool.and_eq_true_iff.mp hcomplete).2, hstalled⟩
  · exact iff_of_false (by simp) fun h ↦ hcomplete (Bool.and_eq_true_iff.mpr ⟨h.1, h.2.1⟩)

theorem stateAt_eq {i : ℕ} (h : plan.steps[i]? = some step) :
    (derivePlanState records plan replans).stateAt i = some (viewIn records plan step).state := by
  rw [PlanView.stateAt, getElem?_steps h, Option.map_some]

theorem forall_mem_steps_iff {P : Option StepState → Prop} :
    (∀ i < plan.steps.length, P ((derivePlanState records plan replans).stateAt i))
      ↔ ∀ v ∈ (derivePlanState records plan replans).steps, P (some v.state) := by
  rw [steps_derivePlanState, List.forall_mem_map]
  constructor
  · intro h step hstep
    obtain ⟨i, hi⟩ := mem_iff_getElem?.mp hstep
    rw [← stateAt_eq hi]
    exact h i (List.getElem?_eq_some_iff.mp hi).1
  · intro h i hi
    rw [stateAt_eq (getElem?_eq_getElem hi)]
    exact h _ (getElem_mem hi)

theorem skipped_of_stepView {e : StepEvidence}
    (h : (stepView step e).state = .skipped) : step.optional = true ∧ e.bypassed = true := by
  rcases step with ⟨id, _ | _⟩ <;> rcases e with ⟨_ | _, _ | _, _ | _, _ | _, _ | _⟩ <;>
    simp_all [stepView]

theorem error_of_bypassed {e : StepEvidence} (hoptional : step.optional = false)
    (h : e.bypassed = true) : (stepView step e).error = some (bypassError step.id) := by
  simp [stepView, h, hoptional]

theorem planStateOf_congr {steps steps' : List StepView} (openAdvisories : List AdvisoryView)
    (exhausted : Bool) (hfailed : (∃ v ∈ steps, v.state = .failed) ↔ ∃ v ∈ steps', v.state = .failed)
    (hdone : (∀ v ∈ steps, v.isDone = true) ↔ ∀ v ∈ steps', v.isDone = true) :
    planStateOf steps openAdvisories exhausted = planStateOf steps' openAdvisories exhausted := by
  have hfailed' : (steps.any fun s ↦ s.state = .failed) = (steps'.any fun s ↦ s.state = .failed) := by
    rw [Bool.eq_iff_iff, List.any_eq_true, List.any_eq_true]
    simpa only [decide_eq_true_eq] using hfailed
  have hdone' : steps.all StepView.isDone = steps'.all StepView.isDone := by
    rw [Bool.eq_iff_iff, List.all_eq_true, List.all_eq_true]
    exact hdone
  rw [planStateOf, hfailed', hdone', planStateOf]

theorem planStateOf_of_skipped {steps : List StepShape} {f g : StepShape → StepView}
    (hstep : step ∈ steps) (h : ∀ s ∈ steps, (f s).state = (g s).state
      ∨ ((f s).state = .skipped ∧ (g s).state = (f step).state)) (openAdvisories : List AdvisoryView) (exhausted : Bool) :
    planStateOf (steps.map f) openAdvisories exhausted = planStateOf (steps.map g) openAdvisories exhausted := by
  have hskipped {s : StepShape} (hs : (f s).state = .skipped) : (f s).isDone = true := by
    simp [StepView.isDone, hs]
  have hdone {v v' : StepView} (hv : v.state = v'.state) (hv' : v'.isDone = true) : v.isDone = true := by
    rwa [StepView.isDone, hv]
  refine planStateOf_congr openAdvisories exhausted ?_ ?_
  · simp only [List.mem_map, exists_exists_and_eq_and]
    constructor
    · rintro ⟨s, hs, hfailed⟩
      rcases h s hs with hfg | ⟨hf, -⟩
      · exact ⟨s, hs, hfg ▸ hfailed⟩
      · exact absurd (hf.symm.trans hfailed) (by decide)
    · rintro ⟨s, hs, hfailed⟩
      rcases h s hs with hfg | ⟨-, hg⟩
      · exact ⟨s, hs, hfg.trans hfailed⟩
      · exact ⟨step, hstep, hg.symm.trans hfailed⟩
  · simp only [List.forall_mem_map]
    constructor
    · intro hall s hs
      rcases h s hs with hfg | ⟨-, hg⟩
      · exact hdone hfg.symm (hall s hs)
      · exact hdone hg (hall step hstep)
    · intro hall s hs
      rcases h s hs with hfg | ⟨hf, -⟩
      · exact hdone hfg (hall s hs)
      · exact hskipped hf

end PlanState

/-! ## A bypass that is not honoured -/

section Bypass

variable {before after : List LedgerRecord} {r : VerdictRecord} {plan : PlanShape}

def Counts (r : VerdictRecord) (plan : PlanShape) (id : String) : Prop :=
  r.plan_hash = some plan.plan_hash ∧ inLane r.source = true ∧ r.step_id = some id

variable {step : StepShape}

theorem viewIn_insert_of_not (h : ¬ Counts r plan step.id) :
    viewIn (before ++ .verdict r :: after) plan step = viewIn (before ++ after) plan step := by
  rw [viewIn, evidenceIn_insert_of_not h, viewIn]

theorem viewIn_insert_bypassed (h : Counts r plan step.id) (hkind : r.verdict = .bypassed) :
    viewIn (before ++ .verdict r :: after) plan step
      = stepView step { evidenceIn (before ++ after) plan.plan_hash step.id with bypassed := true } := by
  rw [viewIn, evidenceIn_insert_bypassed h.1 h.2.1 h.2.2 hkind]

theorem differs_iff {records : List LedgerRecord} {planHash id : String} :
    (evidenceIn records planHash id).differs = true ↔ CascadesDiffer records planHash id := by
  simp only [StepEvidence.differs, Bool.or_eq_true, Bool.and_eq_true, Bool.not_eq_true',
    ← Bool.not_eq_true, evidenceIn_agreed, evidenceIn_exhausted, evidenceIn_disagreed,
    evidenceIn_dispatched, and_assoc, CascadesDiffer]

/-- A step that is not optional keeps its state under a bypass that counts exactly if the bypass is not the
first one where the cascades differ. -/
theorem state_insert_bypassed_iff (h : Counts r plan step.id)
    (hkind : r.verdict = .bypassed) (hoptional : step.optional = false) :
    (viewIn (before ++ .verdict r :: after) plan step).state = (viewIn (before ++ after) plan step).state
      ↔ (CascadesDiffer (before ++ after) plan.plan_hash step.id →
        HasVerdict (before ++ after) plan.plan_hash step.id .bypassed) := by
  rw [viewIn_insert_bypassed h hkind, viewIn, stepView_bypassed_iff hoptional, differs_iff,
    evidenceIn_bypassed]

theorem state_of_not_bypassed {step step' : StepShape} {e : StepEvidence} (h : e.bypassed = false) :
    (stepView step e).state = (stepView step' e).state := by
  simp only [stepView, h, Bool.false_eq_true, if_false]
  split_ifs <;> rfl

theorem state_insert_bypassed (s : StepShape) (hkind : r.verdict = .bypassed)
    (hid : r.step_id = some step.id) (hoptional : step.optional = false)
    (hkeeps : (viewIn (before ++ .verdict r :: after) plan step).state
      = (viewIn (before ++ after) plan step).state) :
    (viewIn (before ++ .verdict r :: after) plan s).state = (viewIn (before ++ after) plan s).state
      ∨ ((viewIn (before ++ .verdict r :: after) plan s).state = .skipped
        ∧ (viewIn (before ++ after) plan s).state
          = (viewIn (before ++ .verdict r :: after) plan step).state) := by
  by_cases hcounts : Counts r plan s.id
  · have hsid : s.id = step.id := Option.some.inj (hcounts.2.2.symm.trans hid)
    rcases hs : s.optional with _ | _
    · obtain rfl : s = step := by
        rcases s
        rcases step
        simp_all
      exact .inl hkeeps
    · have hskipped : (viewIn (before ++ .verdict r :: after) plan s).state = .skipped := by
        rw [viewIn_insert_bypassed hcounts hkind]
        simp [stepView, hs]
      rcases hbypassed : (evidenceIn (before ++ after) plan.plan_hash s.id).bypassed with _ | _
      · refine .inr ⟨hskipped, ?_⟩
        rw [hkeeps, viewIn, viewIn, ← hsid]
        exact state_of_not_bypassed hbypassed
      · left
        rw [hskipped, viewIn]
        simp [stepView, hs, hbypassed]
  · exact .inl (congrArg StepView.state (viewIn_insert_of_not hcounts))

theorem planTodos_insert_verdict {planHash : String} :
    planTodos (before ++ .verdict r :: after) planHash = planTodos (before ++ after) planHash := by
  rw [planTodos, filterMap_append, filterMap_cons_none (by rfl), ← filterMap_append, planTodos]

theorem withoutError_eq {e : StepEvidence} (h : step.optional = false) :
    { stepView step e with error := none } = (⟨step.id, (stepView step e).state, false, none⟩ : StepView) := by
  simp only [stepView, h, Bool.false_eq_true, if_false]
  split_ifs <;> rfl

theorem stepAt_eq {records : List LedgerRecord} {replans : Option ℕ} {i : ℕ}
    (h : plan.steps[i]? = some step) (hoptional : step.optional = false) :
    (derivePlanState records plan replans).stepAt i
      = some ⟨step.id, (viewIn records plan step).state, false, none⟩ := by
  rw [PlanView.stepAt, getElem?_steps h, Option.map_some, viewIn, withoutError_eq hoptional]

theorem inert_of_keeps {replans : Option ℕ} (hkind : r.verdict = .bypassed) {i : ℕ}
    (hi : plan.steps[i]? = some step) (hoptional : step.optional = false) (hid : r.step_id = some step.id)
    (hkeeps : (viewIn (before ++ .verdict r :: after) plan step).state
      = (viewIn (before ++ after) plan step).state) :
    (derivePlanState (before ++ .verdict r :: after) plan replans).stepAt i
        = (derivePlanState (before ++ after) plan replans).stepAt i
      ∧ (derivePlanState (before ++ .verdict r :: after) plan replans).state
        = (derivePlanState (before ++ after) plan replans).state := by
  refine ⟨?_, ?_⟩
  · rw [stepAt_eq hi hoptional, stepAt_eq hi hoptional, hkeeps]
  · have hadvisories : deriveAdvisories (before ++ .verdict r :: after) plan.plan_hash plan.advisories
        = deriveAdvisories (before ++ after) plan.plan_hash plan.advisories := by
      rw [deriveAdvisories, planTodos_insert_verdict, deriveAdvisories]
    have hstate := planStateOf_of_skipped (mem_of_getElem? hi) fun s _ ↦
      state_insert_bypassed s hkind hid hoptional hkeeps
    simp only [derivePlanState, hadvisories]
    exact hstate _ _

/-- A step that is not optional keeps its state under a bypass that names it exactly if the bypass does not
count, is not the first one that does, or meets cascades that agree. -/
theorem keeps_iff (hkind : r.verdict = .bypassed) (hoptional : step.optional = false)
    (hid : r.step_id = some step.id) :
    (viewIn (before ++ .verdict r :: after) plan step).state = (viewIn (before ++ after) plan step).state
      ↔ (r.plan_hash = some plan.plan_hash → inLane r.source = true →
        CascadesDiffer (before ++ after) plan.plan_hash step.id →
          HasVerdict (before ++ after) plan.plan_hash step.id .bypassed) := by
  by_cases hcounts : r.plan_hash = some plan.plan_hash ∧ inLane r.source = true
  · rw [state_insert_bypassed_iff ⟨hcounts.1, hcounts.2, hid⟩ hkind hoptional]
    simp [hcounts]
  · refine iff_of_true ?_ fun hplan hlane ↦ absurd ⟨hplan, hlane⟩ hcounts
    exact congrArg StepView.state (viewIn_insert_of_not fun h ↦ hcounts ⟨h.1, h.2.1⟩)

end Bypass

/-! ## The law holds exactly if no bypass is alone where the cascades differ -/

theorem reads_ofPlan (plan : PlanShape) (replans : Option ℕ) :
    Reads (fun r : LedgerRecord ↦ r.planHash? = some plan.plan_hash) (derivePlanState · plan replans) := by
  refine (reads_derivePlanState plan replans).mono fun r hr ↦ ?_
  cases r <;> simp_all [isRowOf, LedgerRecord.planHash?]

theorem completionLaw_iff (records : List LedgerRecord) (plan : PlanShape) (replans : Option ℕ) :
    CompletionLaw records plan replans ↔ BypassesAgree records plan := by
  constructor
  · rintro h before r after rfl hkind hplan hlane step hstep hoptional hid
    obtain ⟨i, hi⟩ := List.mem_iff_getElem?.mp hstep
    have hstate := (h.inert before r after rfl hkind i step hi hoptional hid).1
    rw [stepAt_eq hi hoptional, stepAt_eq hi hoptional] at hstate
    exact (keeps_iff hkind hoptional hid).mp (StepView.mk.inj (Option.some.inj hstate)).2.1 hplan hlane
  · intro h
    refine ⟨?_, ?_, ?_, ?_, ?_⟩
    · rw [complete_iff]
      refine and_congr ?_ Iff.rfl
      have hsteps := @forall_mem_steps_iff records plan replans fun s ↦ s = some .passed ∨ s = some .skipped
      simpa only [Option.some.injEq] using hsteps.symm
    · intro i step hi hskipped
      rw [stateAt_eq hi] at hskipped
      obtain ⟨hoptional, hbypassed⟩ := skipped_of_stepView (Option.some.inj hskipped)
      exact ⟨hoptional, evidenceIn_bypassed.mp hbypassed⟩
    · rintro before r after rfl hkind i step hi hoptional hid
      refine inert_of_keeps hkind hi hoptional hid ((keeps_iff hkind hoptional hid).mpr fun hplan hlane ↦ ?_)
      exact h before r after rfl hkind hplan hlane step (List.mem_of_getElem? hi) hoptional hid
    · intro i step hi hoptional hbypassed
      rw [PlanView.errorAt, getElem?_steps hi]
      exact error_of_bypassed hoptional (evidenceIn_bypassed.mpr hbypassed)
    · exact fun records' hedits ↦ reads_ofPlan plan replans records records' hedits

/-- A verdict on the step `s` of the plan `p`. -/
def gateVerdict (kind : VerdictKind) : VerdictRecord :=
  { ts := "t", problem_hash := some "h", verdict := kind, plan_hash := some "p", step_id := some "s"
    source := some .user }

/-- The plan `p` with its one step, which is not optional. -/
def oneStep : PlanShape := { plan_hash := "p", steps := [⟨"s", false⟩], advisories := [], max_replans := none }

/-- A step that a gate disagreed with is under way. The bypass takes it back to pending. -/
theorem not_completionLaw_disagree :
    ¬ CompletionLaw [.verdict (gateVerdict .disagree), .verdict (gateVerdict .bypassed)] oneStep none := by
  intro h
  have hstep := (h.inert [.verdict (gateVerdict .disagree)] (gateVerdict .bypassed) [] rfl rfl 0 _ rfl rfl
    rfl).1
  revert hstep
  decide

/-- After exhaustion and agreement the plan is complete. The bypass makes the step failed and stalls it. -/
example :
    (derivePlanState [.verdict (gateVerdict .exhausted), .verdict (gateVerdict .agree)] oneStep none).state
        = .complete
      ∧ (derivePlanState [.verdict (gateVerdict .exhausted), .verdict (gateVerdict .agree),
          .verdict (gateVerdict .bypassed)] oneStep none).state = .stalled := by
  decide

end Amicode.Plan
