import Amicode.Plan.Compile

/-!
# The review a plan is bound to

A plan may be compiled as reviewed only if the text being compiled was reviewed: the last review of this spec
with the design hash of this text approved it. Whatever else is asked for, a text whose last review blocks it
must not be compiled.

The compile looks a review up by design hash alone, and takes the hash from the stamp in the frontmatter when
there is one. So it may find the review of another spec with the same decision surface, or of the text as it
was before it was edited. What is owed holds, for every planner and every option, exactly if the review found
and the review owed have the same standing (`reviewLaw_iff`).
-/

namespace Amicode.Plan

open RunLedger

/-! ## The law -/

def latestOwnReview (records : List LedgerRecord) (spec_id design_hash : String) :
    Option SpecReviewRecord :=
  ((records.filterMap LedgerRecord.specReview?).filter fun r ↦
    r.spec_id = spec_id ∧ r.design_hash = design_hash).getLast?

/-- The review of the text being compiled. -/
def ownReview (lib : Libraries) (records : List LedgerRecord) (spec : JsonValue) :
    Option SpecReviewRecord :=
  latestOwnReview records (inText (spec.get? "spec_id")) (designHash lib.sha256hex spec)

/-- The review the compile finds. -/
def foundReview (lib : Libraries) (records : List LedgerRecord) (spec : JsonValue) :
    Option SpecReviewRecord :=
  latestReview records (requireDesignHash lib.sha256hex spec)

def Approves (review : Option SpecReviewRecord) : Prop :=
  ∃ r ∈ review, r.review_verdict = .approved

def Blocks (review : Option SpecReviewRecord) : Prop :=
  ∃ r ∈ review, r.review_verdict = .blocking ∨ r.review_verdict = .exhausted

/-- What is owed of a compile that succeeds. -/
structure ReviewLaw (lib : Libraries) (records : List LedgerRecord) (raw : String) (run : CompileRun) :
    Prop where
  reviewed : ∀ spec success, readSpec lib raw = .ok spec → compilePlan lib records raw run = .ok success →
    success.record.allow_unreviewed = false → Approves (ownReview lib records spec)
  unblocked : ∀ spec success, readSpec lib raw = .ok spec → compilePlan lib records raw run = .ok success →
    ¬ Blocks (ownReview lib records spec)

/-- The review the compile finds approves only if the review of the text does, and blocks if it does. -/
structure SameStanding (lib : Libraries) (records : List LedgerRecord) (spec : JsonValue) : Prop where
  approves : Approves (foundReview lib records spec) → Approves (ownReview lib records spec)
  blocks : Blocks (ownReview lib records spec) → Blocks (foundReview lib records spec)

/-! ## What a compile that succeeds went through -/

variable {lib : Libraries} {records : List LedgerRecord} {raw : String} {run : CompileRun}
  {spec : JsonValue}

theorem exists_of_bind_eq_ok {ε α β : Type} {x : Except ε α} {f : α → Except ε β} {b : β}
    (h : x >>= f = .ok b) : ∃ a, x = .ok a ∧ f a = .ok b := by
  rcases x with e | a
  · exact absurd h (by simp [bind, Except.bind])
  · exact ⟨a, rfl, h⟩

theorem passes_of_compilePlan {success : CompileSuccess}
    (h : compilePlan lib records raw run = .ok success) :
    ∃ spec, readSpec lib raw = .ok spec
      ∧ reviewPrecondition (foundReview lib records spec) (requireDesignHash lib.sha256hex spec)
        run.allowUnreviewed = .ok success.record.allow_unreviewed := by
  obtain ⟨spec, hspec, h⟩ := exists_of_bind_eq_ok h
  obtain ⟨allow_unreviewed, hreview, h⟩ := exists_of_bind_eq_ok h
  obtain ⟨-, -, h⟩ := exists_of_bind_eq_ok h
  obtain ⟨planned, -, h⟩ := exists_of_bind_eq_ok h
  obtain ⟨-, -, h⟩ := exists_of_bind_eq_ok h
  obtain ⟨-, -, h⟩ := exists_of_bind_eq_ok h
  refine ⟨spec, hspec, ?_⟩
  obtain rfl := Except.ok.inj h
  exact hreview

variable {review : Option SpecReviewRecord}

theorem approves_of_precondition {design_hash : String}
    {allowUnreviewed : Bool} (h : reviewPrecondition review design_hash allowUnreviewed = .ok false) :
    Approves review := by
  rcases review with _ | r
  · rw [reviewPrecondition] at h
    split at h
    · exact absurd (Except.ok.inj h) (by simp)
    · cases h
  · rw [reviewPrecondition] at h
    split_ifs at h with hblocks hother hallow
    · exact absurd (Except.ok.inj h) (by simp)
    · exact ⟨r, rfl, not_not.mp hother⟩

theorem not_blocks_of_precondition {design_hash : String}
    {allowUnreviewed allow : Bool} (h : reviewPrecondition review design_hash allowUnreviewed = .ok allow) :
    ¬ Blocks review := by
  rintro ⟨r, rfl, hblocks⟩
  rw [reviewPrecondition, if_pos hblocks] at h
  cases h

theorem precondition_of_not_blocks (design_hash : String)
    (h : ¬ Blocks review) : ∃ allow, reviewPrecondition review design_hash true = .ok allow := by
  rcases review with _ | r
  · exact ⟨true, rfl⟩
  · have hnot : ¬ (r.review_verdict = .blocking ∨ r.review_verdict = .exhausted) :=
      fun hblocks ↦ h ⟨r, rfl, hblocks⟩
    rw [reviewPrecondition, if_neg hnot]
    by_cases happroved : r.review_verdict = .approved
    · exact ⟨false, if_neg (not_not.mpr happroved)⟩
    · exact ⟨true, if_pos happroved⟩

theorem precondition_of_approves (design_hash : String)
    (allowUnreviewed : Bool) (h : Approves review) :
    reviewPrecondition review design_hash allowUnreviewed = .ok false := by
  obtain ⟨r, rfl, happroved⟩ := h
  rw [reviewPrecondition, happroved]
  simp

/-! ## A planner that a compile accepts for every spec -/

/-- A step of a frontier model that needs nothing. -/
def triageJson : JsonValue :=
  .obj [("id", .str "s"), ("model", .str "anthropic/claude-opus-5"), ("task_type", .str "triage")]

def triageStep : CompiledStep :=
  ⟨"s", "anthropic/claude-opus-5", "triage", none, none, none, false, none⟩

/-- A planner that answers with that step. -/
def triagePlanner (_specText : String) : AgentOutcome :=
  .ran none none (.obj [("goal", .str "triage"), ("steps", .arr [triageJson])])

/-- A compile that only the review can refuse. -/
def triageRun (allowUnreviewed : Bool) : CompileRun :=
  { recompile := true, allowUnreviewed, runPlanner := some triagePlanner, now := ""
    validatePlan := fun _ ↦ .ok (), write := fun _ ↦ .ok () }

theorem checkBudget_triage (budget : Option JsonValue) : checkBudget [triageStep] budget = [] := by
  have hsolves : [triageStep].filter (fun step ↦ step.task_type ∈ SOLVE_BEARING) = [] := by
    simp [triageStep, SOLVE_BEARING]
  have hdevices : [triageStep].filter (fun step ↦ step.deviceText ≠ "none") = [] := by
    simp [triageStep, CompiledStep.deviceText]
  have hdemanded : demandedDevice [triageStep] = "none" := by decide +kernel
  unfold checkBudget
  rcases budget with _ | budget
  · simp only [hsolves, hdevices, ne_eq, not_true_eq_false, if_false, List.append_nil, if_true]
  · simp [hsolves, deviceErrors, hdemanded, solveErrors]

theorem readStep_triage : readStep triageJson = triageStep := rfl

theorem checkStepShape_triage : checkStepShape (some (.arr [triageJson])) = .ok [triageStep] := by
  have herrors : stepErrors 0 triageJson [] = [] := by decide +kernel
  have hgate : gateErrors triageStep = [] := by decide +kernel
  have hread : readSteps 0 [] [triageJson] = ([], [triageStep]) := by
    change (stepErrors 0 triageJson [] ++ [], [readStep triageJson]) = _
    rw [herrors, readStep_triage, List.append_nil]
  simp [checkStepShape, hread, hgate]

theorem plannedSteps_triage (allowUnreviewed : Bool) (raw : String) (spec : JsonValue) :
    plannedSteps (triageRun allowUnreviewed) raw spec = .ok ("triage", [triageStep], none) := by
  have hsolve : triageStep.task_type ∉ SOLVE_BEARING := by simp [triageStep, SOLVE_BEARING]
  have hgoal : JsText.trim ['t', 'r', 'i', 'a', 'g', 'e'] = ['t', 'r', 'i', 'a', 'g', 'e'] := by decide
  have hsteps : (JsonValue.obj [("goal", .str "triage"), ("steps", .arr [triageJson])]).get? "steps"
      = some (.arr [triageJson]) := rfl
  have hgoalText : (JsonValue.obj [("goal", .str "triage"), ("steps", .arr [triageJson])]).get? "goal"
      = some (.str "triage") := rfl
  simp [plannedSteps, triageRun, triagePlanner, hsteps, hgoalText, checkStepShape_triage, JsonValue.str?,
    hgoal, hsolve, checkBudget_triage, refuseIf, Except.mapError, bind, Except.bind]

theorem compilePlan_triage {allowUnreviewed allow : Bool} (hspec : readSpec lib raw = .ok spec)
    (hreview : reviewPrecondition (foundReview lib records spec) (requireDesignHash lib.sha256hex spec)
      allowUnreviewed = .ok allow) :
    ∃ success, compilePlan lib records raw (triageRun allowUnreviewed) = .ok success
      ∧ success.record.allow_unreviewed = allow := by
  rw [foundReview] at hreview
  have hrefuse : refuseIf (if priorApproved records (requireDesignHash lib.sha256hex spec) = true
      ∧ ¬ (triageRun allowUnreviewed).recompile = true then
    ["a plan for this spec has already been APPROVED. Recompiling mints a new plan_hash and invalidates that"
      ++ " approval — pass --recompile if that is what you want"] else []) = .ok () := by
    rw [if_neg fun h ↦ h.2 rfl, refuseIf, if_pos rfl]
  simp only [compilePlan, hspec, bind, Except.bind]
  rw [show (triageRun allowUnreviewed).allowUnreviewed = allowUnreviewed from rfl, hreview]
  rw [hrefuse]
  rw [plannedSteps_triage]
  exact ⟨_, rfl, rfl⟩

/-! ## The law and the condition -/

theorem reviewLaw_of_sameStanding (h : ∀ spec, readSpec lib raw = .ok spec → SameStanding lib records spec)
    (run : CompileRun) : ReviewLaw lib records raw run := by
  constructor
  · intro spec success hspec hcompile hallow
    obtain ⟨spec', hspec', hreview⟩ := passes_of_compilePlan hcompile
    obtain rfl := Except.ok.inj (hspec.symm.trans hspec')
    rw [hallow] at hreview
    exact (h spec hspec).approves (approves_of_precondition hreview)
  · intro spec success hspec hcompile hblocks
    obtain ⟨spec', hspec', hreview⟩ := passes_of_compilePlan hcompile
    obtain rfl := Except.ok.inj (hspec.symm.trans hspec')
    exact not_blocks_of_precondition hreview ((h spec hspec).blocks hblocks)

/-- Whatever is planned and whatever is asked for, a compile is bound to a review of its own text, exactly if
the review it finds has the standing of that review. -/
theorem reviewLaw_iff (lib : Libraries) (records : List LedgerRecord) (raw : String) :
    (∀ run, ReviewLaw lib records raw run)
      ↔ ∀ spec, readSpec lib raw = .ok spec → SameStanding lib records spec := by
  constructor
  · intro h spec hspec
    constructor
    · intro happroves
      have hreview := precondition_of_approves (requireDesignHash lib.sha256hex spec) false happroves
      obtain ⟨success, hcompile, hallow⟩ := compilePlan_triage hspec hreview
      exact (h (triageRun false)).reviewed spec success hspec hcompile hallow
    · intro hblocks
      by_contra hfound
      obtain ⟨allow, hreview⟩ :=
        precondition_of_not_blocks (requireDesignHash lib.sha256hex spec) hfound
      obtain ⟨success, hcompile, -⟩ := compilePlan_triage hspec hreview
      exact (h (triageRun true)).unblocked spec success hspec hcompile hblocks
  · exact fun h run ↦ reviewLaw_of_sameStanding h run

/-! ## The two ways to go wrong -/

/-- A spec with one criterion, perhaps stamped by a review. -/
def criterionSpec (spec_id criterion : String) (stamp : Option String) : JsonValue :=
  .obj ([("schema_version", .str "1"), ("spec_id", .str spec_id), ("task_type", .str "triage"),
    ("acceptance", .arr [.str criterion])]
    ++ (stamp.map fun hash ↦ ("review", JsonValue.obj [("design_hash", .str hash)])).toList)

/-- A digest of 64 hexadecimal digits that tells one decision surface from the others. -/
def digest (text : List Char) : String :=
  String.ofList (List.replicate 64
    (if text = canonicalJson (decisionSurface (criterionSpec "a" "error < 0.1" none)) then 'a' else 'b'))

/-- Libraries by which every note has this spec, and it is valid. -/
def librariesOf (spec : JsonValue) : Libraries :=
  ⟨fun _ ↦ .ok spec, digest, fun _ ↦ .ok ()⟩

def approvedReview (spec_id : String) : LedgerRecord :=
  .specReview ⟨"", spec_id, String.ofList (List.replicate 64 'a'), .approved, 0, .user⟩

theorem not_reviewLaw_of_found {raw : String} {spec : JsonValue}
    (hspec : readSpec (librariesOf spec) raw = .ok spec)
    (hfound : (foundReview (librariesOf spec) records spec).map SpecReviewRecord.review_verdict
      = some .approved)
    (hown : ownReview (librariesOf spec) records spec = none) :
    ¬ ReviewLaw (librariesOf spec) records raw (triageRun false) := by
  intro hlaw
  obtain ⟨r, hr, happroved⟩ := Option.map_eq_some_iff.mp hfound
  have hreview := precondition_of_approves (requireDesignHash digest spec) false
    (⟨r, hr, happroved⟩ : Approves (foundReview (librariesOf spec) records spec))
  obtain ⟨success, hcompile, hallow⟩ := compilePlan_triage hspec hreview
  obtain ⟨r', hr', -⟩ := hlaw.reviewed spec success hspec hcompile hallow
  rw [hown] at hr'
  cases hr'

/-- The approving review of another spec with the same criterion passes for a review of this one; and so does
the stamp of the text before its criterion was weakened. -/
theorem not_reviewLaw_otherReview :
    ¬ ReviewLaw (librariesOf (criterionSpec "a" "error < 0.1" none)) [approvedReview "b"] "---\n---\n"
        (triageRun false)
      ∧ ¬ ReviewLaw (librariesOf (criterionSpec "a" "error < 0.5"
          (some (String.ofList (List.replicate 64 'a'))))) [approvedReview "a"] "---\n---\n"
        (triageRun false) := by
  constructor
  · exact not_reviewLaw_of_found rfl (by decide +kernel) (by decide +kernel)
  · exact not_reviewLaw_of_found rfl (by decide +kernel) (by decide +kernel)

end Amicode.Plan
