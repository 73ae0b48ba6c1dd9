import Amicode.SpecReview.AgentOutput

/-!
# Spec review

A spec passes the mechanical lenses of its task type, and then critics, one a lens (`spec_review.ts`,
`agent_spawn.ts`, `lens_registry.ts`). A finding names its lens itself, and a blocking one is downgraded unless it
names `contradiction`.

The mechanical lenses and what is read of the frontmatter are parameters. The reasons of skipped lenses, the
variant of a critic, the sidecar and the ledger record are left out: nothing reads them back.
-/

namespace Amicode.SpecReview

open JsText

inductive Severity
  | blocking
  | advisory
deriving DecidableEq

structure Finding where
  lens : String
  severity : Severity
  claim : String
  evidence : String
  remedy : String
  round : ℕ

def Finding.blocks (f : Finding) : Bool := f.severity = .blocking

/-! ## Critics -/

/-- `absent`: the mechanism was never available; `failed`: this critic did not deliver. -/
inductive SkipClass
  | absent
  | failed
deriving DecidableEq

inductive AgentOutcome
  | ran (model : String) (findings : List Finding) (dropped_no_remedy : ℕ)
  | skipped (skip_class : SkipClass)

/-- What becomes of a child process. -/
inductive Collected
  /-- No working directory can be made for it. -/
  | unstaged
  | spawnError
  | timeout
  | signal
  | exit (stdout : List Char)

/-- The text of a member, or the empty one. -/
def textOf (o : JsonValue) (key : String) : String := (((o.get? key).bind JsonValue.str?)).getD ""

/-- A finding as it is read: one without a remedy is dropped. -/
def readFinding (lens : String) (round : ℕ) (o : JsonValue) : Option Finding :=
  let remedy := trim (textOf o "remedy").toList
  if remedy = [] then none
  else some
    { lens := if textOf o "lens" = "" then lens else textOf o "lens"
      severity := if textOf o "severity" = "blocking" then .blocking else .advisory
      claim := textOf o "claim"
      evidence := textOf o "evidence"
      remedy := String.ofList remedy
      round }

def readFindings (payload : JsonValue) (lens : String) (round : ℕ) : List Finding × ℕ :=
  let raw := match payload.get? "findings" with
    | some (.arr items) => items
    | _ => []
  (raw.filterMap (readFinding lens round), raw.countP fun o ↦ (readFinding lens round o).isNone)

/-- `[A-Za-z0-9._-]+\/[A-Za-z0-9._-]+`. -/
def isModelName (model : String) : Bool :=
  match splitOn ['/'] model.toList with
  | [provider, name] => [provider, name].all fun part ↦
      part ≠ [] ∧ part.all fun c ↦ c.isAlphanum || c = '.' || c = '_' || c = '-'
  | _ => false

/-- A child that names its model and gives a payload has run, whatever its exit code. -/
def runAgent (parse : List Char → Option JsonValue) (lens : String) (round : ℕ) : Collected → AgentOutcome
  | .spawnError => .skipped .absent
  | .unstaged | .timeout | .signal => .skipped .failed
  | .exit stdout =>
    if trim stdout = [] then .skipped .failed
    else
      match parseAgentOutput parse stdout with
      | none => .skipped .failed
      | some payload =>
        if isModelName (textOf payload "model") then
          let (findings, dropped) := readFindings payload lens round
          .ran (textOf payload "model") findings dropped
        else .skipped .failed

/-! ## The registry of lenses -/

inductive TaskType
  | triage
  | plan
  | authorScript
  | implementSlice
  | bookkeeping
  | insight
  | review
  | experimentSim
  | experimentHw
  | converse

def TaskType.ofName? : String → Option TaskType
  | "triage" => some triage
  | "plan" => some plan
  | "author-script" => some authorScript
  | "implement-slice" => some implementSlice
  | "bookkeeping" => some bookkeeping
  | "insight" => some insight
  | "review" => some review
  | "experiment-sim" => some experimentSim
  | "experiment-hw" => some experimentHw
  | "converse" => some converse
  | _ => none

structure LensSet where
  tier1 : List String
  tier2 : List String

def T1_UNIVERSAL : List String := ["schema", "falsifiable", "provenance"]

def T1_LAUNCH : List String := T1_UNIVERSAL ++ ["budget", "baseline", "precedent"]

def T2_ALWAYS : List String := ["hidden-failure", "decomposition"]

def LENS_REGISTRY : TaskType → LensSet
  | .experimentSim | .experimentHw | .authorScript => ⟨T1_LAUNCH, T2_ALWAYS ++ ["physics-adequacy", "cost-realism"]⟩
  | .implementSlice => ⟨T1_UNIVERSAL, T2_ALWAYS ++ ["interface-boundary", "test-adequacy"]⟩
  | .plan => ⟨T1_UNIVERSAL, T2_ALWAYS ++ ["sequencing", "dependency-order"]⟩
  | .review | .insight => ⟨T1_UNIVERSAL, T2_ALWAYS ++ ["evidence-adequacy"]⟩
  | .triage | .bookkeeping | .converse => ⟨T1_UNIVERSAL, []⟩

/-- The task type of a spec; one that names none is a conversation. -/
def taskTypeOf (spec : JsonValue) : TaskType :=
  (((spec.get? "task_type").bind JsonValue.str?).bind TaskType.ofName?).getD .converse

/-! ## The review -/

inductive LensStatus
  | ran
  | notApplicable
  | skipped
  | unverified
deriving DecidableEq

structure LensResult where
  status : LensStatus
  findings : List Finding

inductive ReviewVerdict
  | approved
  | approvedMechanical
  | degraded
  | blocking
  | exhausted
deriving DecidableEq

def ReviewVerdict.exitCode : ReviewVerdict → ℕ
  | blocking => 65
  | exhausted => 66
  | _ => 0

structure ReviewResult where
  review_verdict : ReviewVerdict
  lens_status : List (String × LensStatus)
  /-- By their models. -/
  critics : List String
  findings : List Finding
  critic_spawns : ℕ

structure ReviewOptions where
  round : ℕ := 1
  critics : ℕ := 3
  /-- What the clock of the review says before the critic of a lens. -/
  elapsedMs : Option (String → ℕ) := none

def ROUND_BUDGET : ℕ := 3

def REVIEW_CEILING_MS : ℕ := 600000

def BLOCKING_LENSES : List String := ["schema", "falsifiable", "budget", "baseline"]

def finish (round : ℕ) (lens_status : List (String × LensStatus)) (critics : List String) (findings : List Finding)
    (critic_spawns : ℕ) (forced : Option ReviewVerdict) : ReviewResult where
  review_verdict := forced.getD
    (if 0 < findings.countP Finding.blocks then if ROUND_BUDGET ≤ round then .exhausted else .blocking
      else .approvedMechanical)
  lens_status := lens_status
  critics := critics
  findings := findings
  critic_spawns := critic_spawns

def unreadable (error : String) (round : ℕ) : Finding :=
  ⟨"schema", .blocking, "the spec's frontmatter could not be read", error,
    "open the note with a `---` fence on line 1 and a mapping of fields inside", round⟩

def unverifiedFinding (round : ℕ) (lens : String) : Finding :=
  ⟨lens, .blocking, "the blocking lens `" ++ lens ++ "` could not be verified", "the lens reported `unverified`",
    "make the lens's input available (or scope the lens out for this task type) — an unverified blocking lens is "
      ++ "not a pass", round⟩

variable (LENSES : String → JsonValue → LensResult) (spawnCritic : Option (String → AgentOutcome))
  (o : ReviewOptions)

/-- The mechanical lenses of a spec, with what they say of it. -/
def tier1 (spec : JsonValue) : List (String × LensResult) :=
  (LENS_REGISTRY (taskTypeOf spec)).tier1.map fun name ↦ (name, LENSES name spec)

/-- The blocking lenses that could not be verified. -/
def unverifiedBlocking (spec : JsonValue) : List String :=
  ((tier1 LENSES spec).filter fun r ↦ r.2.status = .unverified ∧ r.1 ∈ BLOCKING_LENSES).map Prod.fst

def tier1Findings (spec : JsonValue) : List Finding := (tier1 LENSES spec).flatMap fun r ↦ r.2.findings

/-- The lenses that a review wants critics for. -/
def wanted (spec : JsonValue) : List String := (LENS_REGISTRY (taskTypeOf spec)).tier2.take o.critics

/-- The ceiling of the review is reached before the critic of a lens starts. -/
def ceilingReached (lens : String) : Bool := (o.elapsedMs.map fun elapsed ↦ elapsed lens).any (REVIEW_CEILING_MS ≤ ·)

/-- A critic's blocking finding stays one only if it names the lens `contradiction`. -/
def downgrade (f : Finding) : Finding :=
  if f.blocks ∧ f.lens ≠ "contradiction" then { f with severity := .advisory } else f

def AgentOutcome.status : AgentOutcome → LensStatus
  | ran _ _ _ => .ran
  | skipped _ => .skipped

def AgentOutcome.model? : AgentOutcome → Option String
  | ran model _ _ => some model
  | skipped _ => none

def AgentOutcome.findings : AgentOutcome → List Finding
  | ran _ findings _ => findings
  | skipped _ => []

def AgentOutcome.failed : AgentOutcome → Bool
  | skipped .failed => true
  | _ => false

/-- The critics of a review, started in parallel unless the ceiling is reached. -/
def reviewTier2 (spec : JsonValue) (spawn : String → AgentOutcome) : ReviewResult :=
  let lenses := wanted o spec
  let started := lenses.filter fun lens ↦ !ceilingReached o lens
  let late := lenses.filter (ceilingReached o)
  let lens_status := (tier1 LENSES spec).map (fun r ↦ (r.1, r.2.status)) ++ late.map (fun lens ↦ (lens, .skipped))
    ++ started.map fun lens ↦ (lens, (spawn lens).status)
  let critics := started.filterMap fun lens ↦ (spawn lens).model?
  let findings := tier1Findings LENSES spec ++ started.flatMap fun lens ↦ (spawn lens).findings.map downgrade
  let anyFailedSkip := late ≠ [] ∨ started.any fun lens ↦ (spawn lens).failed
  if findings.any Finding.blocks then finish o.round lens_status critics findings started.length none
  else
    finish o.round lens_status critics findings started.length
      (if lenses = [] ∨ critics = [] ∧ ¬ anyFailedSkip then some .approvedMechanical
        else if anyFailedSkip then some .degraded else some .approved)

def reviewSpec (frontmatter : Except String JsonValue) : ReviewResult :=
  match frontmatter with
  | .error error => finish o.round [("schema", .ran)] [] [unreadable error o.round] 0 none
  | .ok spec =>
    let lens_status := (tier1 LENSES spec).map fun r ↦ (r.1, r.2.status)
    let findings := tier1Findings LENSES spec
    if findings.any Finding.blocks ∨ unverifiedBlocking LENSES spec ≠ [] then
      finish o.round lens_status [] (findings ++ (unverifiedBlocking LENSES spec).map (unverifiedFinding o.round)) 0 none
    else
      match spawnCritic with
      | none => finish o.round lens_status [] findings 0 (some .approvedMechanical)
      | some spawn => reviewTier2 LENSES o spec spawn

/-! ## The law -/

/-- The frontmatter cannot be read, or a mechanical lens blocks or is a blocking one that could not be verified. -/
def MechanicallyBlocked (frontmatter : Except String JsonValue) : Prop :=
  ∀ spec, frontmatter = .ok spec →
    (∃ f ∈ tier1Findings LENSES spec, f.severity = .blocking) ∨ unverifiedBlocking LENSES spec ≠ []

/-- A critic was started for a lens, and this came of it. -/
def Answered (spec : JsonValue) (lens : String) (outcome : AgentOutcome) : Prop :=
  lens ∈ wanted o spec ∧ ceilingReached o lens = false ∧ spawnCritic.map (fun spawn ↦ spawn lens) = some outcome

/-- The law of a review: which finding of the critic of a lens may block, and which outcomes do for approval. -/
structure ReviewLaw (mayBlock : String → Finding → Prop) (does : AgentOutcome → Prop)
    (frontmatter : Except String JsonValue) : Prop where
  unspawned : MechanicallyBlocked LENSES frontmatter → (reviewSpec LENSES spawnCritic o frontmatter).critic_spawns = 0
  authority : (reviewSpec LENSES spawnCritic o frontmatter).review_verdict ∈ [.blocking, .exhausted] →
    MechanicallyBlocked LENSES frontmatter ∨ ∃ spec lens outcome, frontmatter = .ok spec ∧
      Answered spawnCritic o spec lens outcome ∧ ∃ f ∈ outcome.findings, f.severity = .blocking ∧ mayBlock lens f
  complete : (reviewSpec LENSES spawnCritic o frontmatter).review_verdict = .approved →
    ∀ spec, frontmatter = .ok spec → ∀ lens ∈ wanted o spec,
      ∃ outcome, Answered spawnCritic o spec lens outcome ∧ does outcome

section Proof

variable {LENSES spawnCritic o} {spec : JsonValue} {f : Finding}

theorem blocks_downgrade (h : (downgrade f).blocks = true) : f.severity = .blocking ∧ f.lens = "contradiction" := by
  unfold downgrade at h
  split_ifs at h with hdown
  · simp [Finding.blocks] at h
  · have hblocks : f.severity = .blocking := of_decide_eq_true h
    exact ⟨hblocks, by simpa [h] using hdown⟩

theorem mechanicallyBlocked_ok_iff : MechanicallyBlocked LENSES (.ok spec) ↔
    (tier1Findings LENSES spec).any Finding.blocks ∨ unverifiedBlocking LENSES spec ≠ [] := by
  simp [MechanicallyBlocked, Finding.blocks]

theorem reviewTier2_blocks {spawn : String → AgentOutcome}
    (hclean : (tier1Findings LENSES spec).any Finding.blocks = false)
    (h : (reviewTier2 LENSES o spec spawn).review_verdict ∈ [.blocking, .exhausted]) :
    ∃ lens ∈ wanted o spec, ceilingReached o lens = false ∧
      ∃ f ∈ (spawn lens).findings, f.severity = .blocking ∧ f.lens = "contradiction" := by
  unfold reviewTier2 at h
  dsimp only at h
  rw [List.any_append, hclean, Bool.false_or] at h
  split_ifs at h with hany
  · obtain ⟨f, hf, hblocks⟩ := List.any_eq_true.mp hany
    obtain ⟨lens, hlens, hf⟩ := List.mem_flatMap.mp hf
    obtain ⟨f', hf', rfl⟩ := List.mem_map.mp hf
    obtain ⟨hwanted, hceiling⟩ := List.mem_filter.mp hlens
    exact ⟨lens, hwanted, by simpa using hceiling, f', hf', blocks_downgrade hblocks⟩
  all_goals simp [finish] at h

/-- Critics approve only if every one was started in time and none failed. -/
theorem reviewTier2_approved {spawn : String → AgentOutcome}
    (h : (reviewTier2 LENSES o spec spawn).review_verdict = .approved) :
    ∀ lens ∈ wanted o spec, ceilingReached o lens = false ∧ (spawn lens).failed = false := by
  unfold reviewTier2 at h
  dsimp only at h
  split_ifs at h with hany hmechanical hfailed
  · simp only [finish, Option.getD_none] at h
    split_ifs at h
  · simp [finish] at h
  · simp [finish] at h
  · intro lens hlens
    rw [not_or, not_not, List.filter_eq_nil_iff] at hfailed
    have hceiling : ceilingReached o lens = false := by simpa using hfailed.1 lens hlens
    refine ⟨hceiling, ?_⟩
    by_contra hne
    have hstarted : lens ∈ (wanted o spec).filter fun lens ↦ !ceilingReached o lens :=
      List.mem_filter.mpr ⟨hlens, by simp [hceiling]⟩
    exact hfailed.2 (List.any_eq_true.mpr ⟨lens, hstarted, by simpa using hne⟩)

/-- **Only a mechanical lens or a finding that names `contradiction` blocks, and an approval has all critics that
could be started.** -/
theorem review_law (LENSES : String → JsonValue → LensResult) (spawnCritic : Option (String → AgentOutcome))
    (o : ReviewOptions) (frontmatter : Except String JsonValue) :
    ReviewLaw LENSES spawnCritic o (fun _ f ↦ f.lens = "contradiction")
      (fun outcome ↦ outcome.status = .ran ∨ outcome = .skipped .absent) frontmatter := by
  rcases frontmatter with error | spec
  · exact ⟨fun _ ↦ rfl, fun _ ↦ .inl nofun, fun _ _ hok ↦ nomatch hok⟩
  · by_cases hblocked : MechanicallyBlocked LENSES (.ok spec)
    · have hreview := mechanicallyBlocked_ok_iff.mp hblocked
      refine ⟨fun _ ↦ ?_, fun _ ↦ .inl hblocked, fun happroved ↦ ?_⟩
      · simp only [reviewSpec, if_pos hreview, finish]
      · simp only [reviewSpec, if_pos hreview, finish, Option.getD_none] at happroved
        split_ifs at happroved
    · have hreview := mt mechanicallyBlocked_ok_iff.mpr hblocked
      have hclean : (tier1Findings LENSES spec).any Finding.blocks = false := by
        simpa using fun h ↦ hreview (.inl h)
      refine ⟨fun h ↦ absurd h hblocked, fun hverdict ↦ .inr ?_, fun happroved _ hok lens hlens ↦ ?_⟩
      · simp only [reviewSpec, if_neg hreview] at hverdict
        rcases spawnCritic with _ | spawn
        · simp [finish] at hverdict
        · obtain ⟨lens, hlens, hceiling, hf⟩ := reviewTier2_blocks hclean hverdict
          exact ⟨spec, lens, spawn lens, rfl, ⟨hlens, hceiling, rfl⟩, hf⟩
      · obtain rfl := Except.ok.inj hok
        simp only [reviewSpec, if_neg hreview] at happroved
        rcases spawnCritic with _ | spawn
        · simp [finish] at happroved
        · obtain ⟨hceiling, hfailed⟩ := reviewTier2_approved happroved lens hlens
          refine ⟨spawn lens, ⟨hlens, hceiling, rfl⟩, ?_⟩
          generalize spawn lens = outcome at hfailed
          rcases outcome with ⟨model, findings, dropped⟩ | _ | _
          · exact .inl rfl
          · exact .inr rfl
          · cases hfailed

end Proof

/-- The payload of a critic that names another lens than its own. -/
def strayPayload : JsonValue :=
  .obj [("model", .str "m/n"), ("findings", .arr [.obj [("lens", .str "contradiction"), ("severity", .str "blocking"),
    ("remedy", .str "r")]])]

def parseStray (text : List Char) : Option JsonValue :=
  if text = stringify strayPayload then some strayPayload else none

/-- The critic of the first lens of a plan blocks it. -/
theorem not_review_law_strayLens : ¬ ∀ (parse : List Char → Option JsonValue)
    (LENSES : String → JsonValue → LensResult) (collect : String → Collected) (o : ReviewOptions)
    (frontmatter : Except String JsonValue),
    ReviewLaw LENSES (some fun lens ↦ runAgent parse lens o.round (collect lens)) o
      (fun lens _ ↦ lens = "contradiction") (fun outcome ↦ outcome.status = .ran) frontmatter := by
  intro h
  have hlaw := h parseStray (fun _ _ ↦ ⟨.ran, []⟩) (fun _ ↦ .exit (stringify strayPayload)) {}
    (.ok (.obj [("task_type", .str "plan")]))
  rcases hlaw.authority (by decide +kernel) with hblocked | ⟨spec, lens, outcome, hspec, hanswered, f, -, -, rfl⟩
  · exact absurd (mechanicallyBlocked_ok_iff.mp hblocked) (by decide +kernel)
  · obtain rfl := Except.ok.inj hspec
    exact absurd hanswered.1 (by decide +kernel)

end Amicode.SpecReview
