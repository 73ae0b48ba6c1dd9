import Amicode.Mutation.Mediate
import Amicode.Mutation.Receipts

/-!
# Retries of mediated mutations

A call that is made again with the same intent should be answered like the first, and nothing should
be written for it. The ledger keeps its part: what was recorded stays recorded (`Grows`), and a group
with the recorded fingerprint is answered from the record. But the targets are resolved before the
ledger is asked, on the host as it is after the first call. The fingerprint holds the physical
identities (`groupFingerprint_inj`), so a retry finds its record exactly if every target still
resolves to what it resolved to then. Where the operation itself changed that (a file created where
there was none, a file deleted or moved), the retry is denied.
-/

namespace Amicode.Mutation

open StepMachine JsText List

/-! ## Fingerprints -/

theorem EndpointKind.name_injective : Function.Injective EndpointKind.name := by
  intro a b
  cases a <;> cases b <;> decide

theorem ResourceOperation.name_injective : Function.Injective ResourceOperation.name := by
  intro a b
  cases a <;> cases b <;> decide

theorem ResourceRole.name_injective : Function.Injective ResourceRole.name := by
  intro a b
  cases a <;> cases b <;> decide

theorem Endpoint.json_append_inj {a b : Endpoint} {x y : List Char}
    (h : stringify a.json ++ x = stringify b.json ++ y) : a = b ∧ x = y := by
  simp only [Endpoint.json, stringify, stringifyMembers, join, append_assoc, cons_append,
    List.cons.injEq, true_and, append_cancel_left_eq, nil_append] at h
  obtain ⟨hvalue, h₁⟩ := jsonString_append_inj h
  simp only [List.cons.injEq, true_and, append_cancel_left_eq] at h₁
  obtain ⟨hkind, h₂⟩ := jsonString_append_inj h₁
  refine ⟨?_, (List.cons.inj h₂).2⟩
  rw [Endpoint.mk.injEq]
  exact ⟨String.toList_injective hvalue,
    EndpointKind.name_injective (String.toList_injective hkind)⟩

theorem DeclaredResource.json_append_inj {a b : DeclaredResource} {x y : List Char}
    (h : stringify a.json ++ x = stringify b.json ++ y) : a = b ∧ x = y := by
  simp only [DeclaredResource.json, stringify, stringifyMembers, join, append_assoc,
    cons_append, List.cons.injEq, true_and, append_cancel_left_eq, nil_append] at h
  obtain ⟨hid, h₁⟩ := jsonString_append_inj h
  simp only [List.cons.injEq, true_and, append_cancel_left_eq] at h₁
  obtain ⟨hendpoint, h₂⟩ := Endpoint.json_append_inj h₁
  simp only [List.cons.injEq, true_and, append_cancel_left_eq] at h₂
  obtain ⟨hoperation, h₃⟩ := jsonString_append_inj h₂
  simp only [List.cons.injEq, true_and, append_cancel_left_eq] at h₃
  obtain ⟨hrole, h₄⟩ := jsonString_append_inj h₃
  refine ⟨?_, (List.cons.inj h₄).2⟩
  rw [DeclaredResource.mk.injEq]
  exact ⟨String.toList_injective hid, hendpoint,
    ResourceOperation.name_injective (String.toList_injective hoperation),
    ResourceRole.name_injective (String.toList_injective hrole)⟩

theorem stringify_json_eq_cons (a : DeclaredResource) :
    ∃ text, stringify a.json = '{' :: text :=
  ⟨_, by rw [DeclaredResource.json, stringify]⟩

theorem stringifyItems_map_json (resources : List DeclaredResource) :
    stringifyItems (resources.map DeclaredResource.json)
      = resources.map fun resource ↦ stringify resource.json := by
  induction resources with
  | nil => rfl
  | cons a rest ih => rw [map_cons, stringifyItems, ih, map_cons]

theorem resourcesJson_inj {a b : List DeclaredResource}
    (h : stringify (resourcesJson a) = stringify (resourcesJson b)) : a = b := by
  simp only [resourcesJson, stringify, stringifyItems_map_json, List.cons.injEq, true_and] at h
  induction a generalizing b with
  | nil =>
    rcases b with _ | ⟨head, rest⟩
    · rfl
    · obtain ⟨text, htext⟩ := stringify_json_eq_cons head
      rcases rest with _ | ⟨next, rest⟩ <;> simp [join, htext] at h
  | cons a₀ a ih =>
    rcases b with _ | ⟨b₀, b⟩
    · obtain ⟨text, htext⟩ := stringify_json_eq_cons a₀
      rcases a with _ | ⟨next, rest⟩ <;> simp [join, htext] at h
    · -- after an item comes a comma or the end of the list
      rcases a with _ | ⟨a₁, a⟩ <;> rcases b with _ | ⟨b₁, b⟩
      · obtain ⟨rfl, -⟩ := DeclaredResource.json_append_inj h
        rfl
      · simp only [map_cons, map_nil, join, append_assoc, cons_append,
          nil_append] at h
        exact absurd (DeclaredResource.json_append_inj h).2 (by simp)
      · simp only [map_cons, map_nil, join, append_assoc, cons_append,
          nil_append] at h
        exact absurd (DeclaredResource.json_append_inj h).2 (by simp)
      · simp only [map_cons, join, append_assoc, cons_append, nil_append] at h
        obtain ⟨rfl, hrest⟩ := DeclaredResource.json_append_inj h
        rw [ih (b := b₁ :: b) (List.cons.inj hrest).2]

/-- Two requests that differ at most in their resources have the same fingerprint only if they do
not differ. -/
theorem groupFingerprint_inj {request : GroupRequest} {resources : List DeclaredResource}
    (h : groupFingerprint { request with resources } = groupFingerprint request) :
    resources = request.resources := by
  refine resourcesJson_inj ?_
  rcases hrecursive : request.recursive with _ | n <;>
    simpa [groupFingerprint, hrecursive, stringify, stringifyMembers, join, member?] using h

/-! ## The law -/

namespace MediateCall

/-- The same call, made again where and when another was made. -/
def again (c later : MediateCall) : MediateCall :=
  { later with intent := c.intent, capability := c.capability, snapshot := c.snapshot }

/-- The answer of the checks before the targets are resolved. -/
def unmediated? (c : MediateCall) : Option MediationResult :=
  if c.capability = .legacy then some .legacy
  else if c.capability = .unavailable then some (.denied .unavailable)
  else if c.snapshot.origin ≠ "user" then some (.denied .nonUserOrigin)
  else none

/-- What the targets resolve to. -/
def plan? (c : MediateCall) : Except Unit (Option Plan) :=
  planResources c.intent.action c.provider.resolveTarget

/-- A context is issued. -/
def IsGranted (c : MediateCall) (plan : Plan) : Prop :=
  Ledger.grantsGroup c.issuing (c.groupIssue plan) = true

/-- The context has not expired, and the session still belongs to its root. -/
def IsLive (c : MediateCall) : Prop :=
  c.executing.now < c.now + c.ttl.getD 30000
    ∧ c.executing.rootForSession c.snapshot.sessionID = some c.snapshot.rootID

/-- The provider can do without following links. -/
def IsSafe (c : MediateCall) : Prop :=
  c.provider.capabilities.safeResolve = true ∧ c.provider.capabilities.noFollowWrite = true

/-- The key the operation is recorded under. -/
def key (c : MediateCall) : String := operationKey c.snapshot.rootID c.intent.idempotencyKey

/-- What the operation is recorded with. -/
def fingerprint (c : MediateCall) (plan : Plan) : List Char := groupFingerprint (c.groupRequest plan)

/-- Everything the ledger asks for before it looks for a record. -/
structure Admitted (c : MediateCall) (plan : Plan) : Prop where
  granted : c.IsGranted plan
  live : c.IsLive
  safe : c.IsSafe

/-- The context is not valid, or the operation has a record with another fingerprint. -/
def IsInvalid (s : Ledger) (c : MediateCall) (plan : Plan) : Prop :=
  c.IsGranted plan ∧ (¬ c.IsLive ∨ c.IsSafe ∧ ∃ previous,
    s.operations.get? c.key = some previous ∧ previous.fingerprint ≠ c.fingerprint plan)

/-- The context is valid, and the provider is not safe. -/
def IsUnsafe (c : MediateCall) (plan : Plan) : Prop := c.IsGranted plan ∧ c.IsLive ∧ ¬ c.IsSafe

def IsOverBudget (s : Ledger) (c : MediateCall) (plan : Plan) : Prop :=
  c.Admitted plan ∧ s.operations.get? c.key = none
    ∧ Ledger.overBudget plan.resources plan.recursive = true

/-- The group is executed within its budget, without an exception, or its record is found. -/
def IsAnswered (s : Ledger) (c : MediateCall) (plan : Plan) : Prop :=
  c.Admitted plan ∧
    ((s.operations.get? c.key = none ∧ Ledger.overBudget plan.resources plan.recursive = false
        ∧ ∃ changed, (Ledger.identityChanged c.groupProvider 0 plan.resources).2 = .ok changed)
      ∨ ∃ result, s.operations.get? c.key = some ⟨c.fingerprint plan, .group result⟩)

end MediateCall

/-- A retry is answered like the call, once that has completed, and writes nothing. -/
def RetryLaw (s : Ledger) (c : MediateCall) (between : List LedgerOp) (d : MediateCall) : Prop :=
  ∀ result, (s.mediate c).result = some result →
    let r := (run Ledger.step (s.mediate c).ledger between).mediate d
    r.result = some result ∧ writes r.calls = []

/-- The second call gets as far as the first, and where that was answered by the ledger, the targets
resolve to the same resources. -/
structure Retriable (s t : Ledger) (c d : MediateCall) : Prop where
  unresolved : c.plan? = .ok none → d.plan? = .ok none
  ungranted : ∀ plan, c.plan? = .ok (some plan) → ¬ c.IsGranted plan →
    ∃ plan', d.plan? = .ok (some plan') ∧ ¬ d.IsGranted plan'
  invalid : ∀ plan, c.plan? = .ok (some plan) → c.IsInvalid s plan →
    ∃ plan', d.plan? = .ok (some plan') ∧ d.IsInvalid t plan'
  isUnsafe : ∀ plan, c.plan? = .ok (some plan) → c.IsUnsafe plan →
    ∃ plan', d.plan? = .ok (some plan') ∧ d.IsUnsafe plan'
  overBudget : ∀ plan, c.plan? = .ok (some plan) → ¬ c.IsOverBudget s plan
  answered : ∀ plan, c.plan? = .ok (some plan) → c.IsAnswered s plan →
    d.plan? = .ok (some plan) ∧ d.Admitted plan

/-! ## The ways a call ends -/

variable {s t : Ledger} {c d : MediateCall} {plan plan' : Plan}

/-- One case for each way a call ends. -/
inductive MediateStep (s : Ledger) (c : MediateCall) : Mediation → Prop
  | unmediated {result : MediationResult} (h : c.unmediated? = some result) :
      MediateStep s c ⟨s, some result, []⟩
  | planThrew {e : Unit} (h : c.unmediated? = none) (hplan : c.plan? = .error e) :
      MediateStep s c ⟨s, none, []⟩
  | unresolved (h : c.unmediated? = none) (hplan : c.plan? = .ok none) :
      MediateStep s c ⟨s, some (.denied .unresolvedTarget), []⟩
  | ungranted {plan : Plan} (h : c.unmediated? = none) (hplan : c.plan? = .ok (some plan))
      (hgrant : ¬ c.IsGranted plan) :
      MediateStep s c ⟨s, some (.denied .contextUnavailable), []⟩
  | invalid {plan : Plan} (h : c.unmediated? = none) (hplan : c.plan? = .ok (some plan))
      (hinvalid : c.IsInvalid s plan) (ledger : Ledger) :
      MediateStep s c ⟨ledger, some (.denied .invalidContext), []⟩
  | isUnsafe {plan : Plan} (h : c.unmediated? = none) (hplan : c.plan? = .ok (some plan))
      (hrisky : c.IsUnsafe plan) (ledger : Ledger) :
      MediateStep s c ⟨ledger, some (.denied .unsafeProvider), []⟩
  | replayed {plan : Plan} {previous : OperationRecord} {ledger : Ledger}
      (h : c.unmediated? = none) (hplan : c.plan? = .ok (some plan)) (hadmitted : c.Admitted plan)
      (hget : s.operations.get? c.key = some previous)
      (hsame : previous.fingerprint = c.fingerprint plan)
      (hledger : ledger.operations = s.operations) :
      MediateStep s c ⟨ledger, c.present previous.result, []⟩
  | overBudget {plan : Plan} {ledger : Ledger} {result : RecordedResult}
      (h : c.unmediated? = none) (hplan : c.plan? = .ok (some plan))
      (hover : c.IsOverBudget s plan)
      (hledger : ledger.operations.get? c.key = some ⟨c.fingerprint plan, result⟩) :
      MediateStep s c ⟨ledger, some (.denied .resourceBudgetExceeded), []⟩
  | threw {plan : Plan} {e : Unit} (h : c.unmediated? = none) (hplan : c.plan? = .ok (some plan))
      (hadmitted : c.Admitted plan) (hget : s.operations.get? c.key = none)
      (hwithin : Ledger.overBudget plan.resources plan.recursive = false)
      (hthrew : (Ledger.identityChanged c.groupProvider 0 plan.resources).2 = .error e)
      (ledger : Ledger) (calls : List ProviderCall) :
      MediateStep s c ⟨ledger, none, calls⟩
  | executed {plan : Plan} {changed : Bool} {ledger : Ledger} {result : GroupResult}
      (h : c.unmediated? = none) (hplan : c.plan? = .ok (some plan)) (hadmitted : c.Admitted plan)
      (hget : s.operations.get? c.key = none)
      (hwithin : Ledger.overBudget plan.resources plan.recursive = false)
      (hchanged : (Ledger.identityChanged c.groupProvider 0 plan.resources).2 = .ok changed)
      (hledger : ledger.operations.get? c.key = some ⟨c.fingerprint plan, .group result⟩)
      (calls : List ProviderCall) :
      MediateStep s c ⟨ledger, c.present (.group result), calls⟩

theorem validateGroup_issued (hgrant : c.IsGranted plan) :
    (s.issueGroup c.issuing (c.groupIssue plan)).validateGroup
        (c.groupExecution plan s.nextContext)
      = if c.now + c.ttl.getD 30000 ≤ c.executing.now then .error .expiredContext
        else if c.executing.rootForSession c.snapshot.sessionID ≠ some c.snapshot.rootID then
          .error .invalidContext
        else .ok (⟨c.scope, .group plan.resources plan.recursive, c.now + c.ttl.getD 30000⟩,
          plan.resources, plan.recursive) := by
  have hissued : s.issueGroup c.issuing (c.groupIssue plan) = s.addContext
      ⟨c.scope, .group plan.resources plan.recursive, c.now + c.ttl.getD 30000⟩ := if_pos hgrant
  have hget : (s.issueGroup c.issuing (c.groupIssue plan)).contexts.get? s.nextContext
      = some ⟨c.scope, .group plan.resources plan.recursive, c.now + c.ttl.getD 30000⟩ := by
    rw [hissued]
    exact InsertionMap.get?_set_self _ _ _
  unfold Ledger.validateGroup Ledger.liveContext
  simp only [MediateCall.groupExecution, hget, MediateCall.groupRequest]
  by_cases hexpired : c.now + c.ttl.getD 30000 ≤ c.executing.now
  · simp [hexpired]
  · by_cases hroot : c.executing.rootForSession c.snapshot.sessionID = some c.snapshot.rootID
    · simp [hexpired, hroot, MediateCall.scope]
    · simp [hexpired, hroot, MediateCall.scope]

theorem mediateStep_runGroup (h : c.unmediated? = none) (hplan : c.plan? = .ok (some plan))
    (hadmitted : c.Admitted plan) (hget : s.operations.get? c.key = none) (handle : ℕ) :
    let r := t.runGroup (c.groupExecution plan handle) plan.resources plan.recursive c.key
      (c.fingerprint plan)
    MediateStep s c ⟨r.ledger, c.resultOf r.answer, r.calls⟩ := by
  unfold Ledger.runGroup
  split
  · rename_i hover
    exact .overBudget h hplan ⟨hadmitted, hget, hover⟩ (InsertionMap.get?_set_self _ _ _)
  · rename_i hwithin
    have hwithin' := Bool.eq_false_iff.mpr hwithin
    split
    · rename_i calls e heq
      exact .threw h hplan hadmitted hget hwithin' (congrArg Prod.snd heq) _ _
    · rename_i calls heq
      exact .executed h hplan hadmitted hget hwithin' (congrArg Prod.snd heq)
        (InsertionMap.get?_set_self _ _ _) _
    · rename_i calls heq
      exact .executed h hplan hadmitted hget hwithin' (congrArg Prod.snd heq)
        (InsertionMap.get?_set_self _ _ _) _

theorem mediateStep_mediatePlan (h : c.unmediated? = none) (hplan : c.plan? = .ok (some plan)) :
    MediateStep s c (s.mediatePlan c plan) := by
  unfold Ledger.mediatePlan
  split
  · rename_i hgrant
    have hoperations : (s.issueGroup c.issuing (c.groupIssue plan)).operations = s.operations := by
      rw [Ledger.issueGroup, if_pos hgrant]
      rfl
    unfold Ledger.executeGroup
    rw [validateGroup_issued hgrant]
    by_cases hexpired : c.now + c.ttl.getD 30000 ≤ c.executing.now
    · rw [if_pos hexpired]
      exact .invalid h hplan ⟨hgrant, .inl fun hlive ↦ absurd hlive.1 (Int.not_lt.mpr hexpired)⟩ _
    rw [if_neg hexpired]
    by_cases hroot : c.executing.rootForSession c.snapshot.sessionID = some c.snapshot.rootID
    · have hlive : c.IsLive := ⟨Int.not_le.mp hexpired, hroot⟩
      rw [if_neg (not_not.mpr hroot)]
      dsimp only
      split
      · rename_i hrisky
        refine .isUnsafe h hplan ⟨hgrant, hlive, ?_⟩ _
        rintro ⟨hresolve, hfollow⟩
        simp [MediateCall.groupExecution, MediateCall.groupProvider, hresolve, hfollow] at hrisky
      · rename_i hsafe
        have hsafe' : c.IsSafe := by
          simpa [MediateCall.IsSafe, MediateCall.groupExecution, MediateCall.groupProvider]
            using hsafe
        have hadmitted : c.Admitted plan := ⟨hgrant, hlive, hsafe'⟩
        split
        · rename_i previous hget
          rw [hoperations] at hget
          unfold Ledger.replay
          split
          · rename_i hother
            exact .invalid h hplan ⟨hgrant, .inr ⟨hsafe', previous, hget, hother⟩⟩ _
          · rename_i hsame
            exact .replayed h hplan hadmitted hget (not_not.mp hsame) hoperations
        · rename_i hget
          rw [hoperations] at hget
          exact mediateStep_runGroup h hplan hadmitted hget _
    · rw [if_pos hroot]
      exact .invalid h hplan ⟨hgrant, .inl fun hlive ↦ hroot hlive.2⟩ _
  · rename_i hgrant
    exact .ungranted h hplan hgrant

theorem mediateStep (s : Ledger) (c : MediateCall) : MediateStep s c (s.mediate c) := by
  unfold Ledger.mediate
  split
  · rename_i hlegacy
    exact .unmediated (if_pos hlegacy)
  rename_i hlegacy
  split
  · rename_i hunavailable
    exact .unmediated ((if_neg hlegacy).trans (if_pos hunavailable))
  rename_i hunavailable
  split
  · rename_i horigin
    exact .unmediated
      ((if_neg hlegacy).trans ((if_neg hunavailable).trans (if_pos horigin)))
  · rename_i horigin
    have h : c.unmediated? = none :=
      (if_neg hlegacy).trans ((if_neg hunavailable).trans (if_neg horigin))
    split
    · rename_i hplan
      exact .planThrew h hplan
    · rename_i hplan
      exact .unresolved h hplan
    · rename_i plan hplan
      exact mediateStep_mediatePlan h hplan

/-! ## What an answer says about the call -/

theorem MediateCall.admitted_iff :
    c.Admitted plan ↔ c.IsGranted plan ∧ c.IsLive ∧ c.IsSafe :=
  ⟨fun h ↦ ⟨h.granted, h.live, h.safe⟩, fun h ↦ ⟨h.1, h.2.1, h.2.2⟩⟩

theorem MediateCall.IsInvalid.excludes (h : c.IsInvalid s plan) :
    c.IsGranted plan ∧ ¬ c.IsUnsafe plan ∧ ¬ c.IsOverBudget s plan ∧ ¬ c.IsAnswered s plan := by
  grind [MediateCall.IsInvalid, MediateCall.IsUnsafe, MediateCall.IsOverBudget,
    MediateCall.IsAnswered, MediateCall.admitted_iff]

theorem MediateCall.IsUnsafe.excludes (h : c.IsUnsafe plan) :
    c.IsGranted plan ∧ ¬ c.IsInvalid s plan ∧ ¬ c.IsOverBudget s plan ∧ ¬ c.IsAnswered s plan := by
  grind [MediateCall.IsInvalid, MediateCall.IsUnsafe, MediateCall.IsOverBudget,
    MediateCall.IsAnswered, MediateCall.admitted_iff]

theorem MediateCall.Admitted.excludes (h : c.Admitted plan)
    (hget : ∀ previous, s.operations.get? c.key = some previous →
      previous.fingerprint = c.fingerprint plan) :
    c.IsGranted plan ∧ ¬ c.IsInvalid s plan ∧ ¬ c.IsUnsafe plan := by
  grind [MediateCall.IsInvalid, MediateCall.IsUnsafe, MediateCall.admitted_iff]

@[simp] theorem MediateCall.present_ne_denied (c : MediateCall) (recorded : RecordedResult)
    (reason : DenyReason) : c.present recorded ≠ some (.denied reason) := by
  rcases recorded <;> simp [MediateCall.present]

def Denies (t : Ledger) (d : MediateCall) : DenyReason → Prop
  | .unresolvedTarget => d.plan? = .ok none
  | .contextUnavailable => ∃ plan, d.plan? = .ok (some plan) ∧ ¬ d.IsGranted plan
  | .invalidContext => ∃ plan, d.plan? = .ok (some plan) ∧ d.IsInvalid t plan
  | .unsafeProvider => ∃ plan, d.plan? = .ok (some plan) ∧ d.IsUnsafe plan
  | .resourceBudgetExceeded => ∃ plan, d.plan? = .ok (some plan) ∧ d.IsOverBudget t plan
  | .unavailable => False
  | .nonUserOrigin => False

/-- What a call is denied for whose targets resolve. -/
def DeniesPlan (t : Ledger) (d : MediateCall) (plan : Plan) : DenyReason → Prop
  | .contextUnavailable => ¬ d.IsGranted plan
  | .invalidContext => d.IsInvalid t plan
  | .unsafeProvider => d.IsUnsafe plan
  | .resourceBudgetExceeded => d.IsOverBudget t plan
  | .unresolvedTarget | .unavailable | .nonUserOrigin => False

theorem denies_iff (hplan : d.plan? = .ok (some plan)) (reason : DenyReason) :
    Denies t d reason ↔ DeniesPlan t d plan reason := by
  rcases reason <;> simp [Denies, DeniesPlan, hplan]

theorem denied_iff (h : d.unmediated? = none) (reason : DenyReason) :
    (t.mediate d).result = some (.denied reason) ↔ Denies t d reason := by
  have hstep := mediateStep t d
  generalize t.mediate d = r at hstep
  cases hstep with
  | unmediated hunmediated => exact absurd (h.symm.trans hunmediated) (by simp)
  | planThrew _ hplan => rcases reason <;> simp [Denies, hplan]
  | unresolved _ hplan => rcases reason <;> simp [Denies, hplan]
  | ungranted _ hplan hgrant =>
    rw [denies_iff hplan]
    rcases reason <;> simp [DeniesPlan, hgrant, MediateCall.IsInvalid, MediateCall.IsUnsafe,
      MediateCall.IsOverBudget, MediateCall.admitted_iff]
  | invalid _ hplan hinvalid =>
    obtain ⟨hgranted, hrisky, hover, -⟩ := hinvalid.excludes
    rw [denies_iff hplan]
    rcases reason <;> simp [DeniesPlan, hinvalid, hgranted, hrisky, hover]
  | isUnsafe _ hplan hrisky =>
    obtain ⟨hgranted, hinvalid, hover, -⟩ := hrisky.excludes (s := t)
    rw [denies_iff hplan]
    rcases reason <;> simp [DeniesPlan, hrisky, hgranted, hinvalid, hover]
  | @replayed plan previous ledger _ hplan hadmitted hget hsame =>
    obtain ⟨hgranted, hinvalid, hrisky⟩ := hadmitted.excludes (s := t) (by simp [hget, hsame])
    rw [denies_iff hplan]
    rcases reason <;>
      simp [DeniesPlan, hgranted, hinvalid, hrisky, MediateCall.IsOverBudget, hget]
  | overBudget _ hplan hover =>
    obtain ⟨hgranted, hinvalid, hrisky⟩ := hover.1.excludes (s := t) (by simp [hover.2.1])
    rw [denies_iff hplan]
    rcases reason <;> simp [DeniesPlan, hgranted, hinvalid, hrisky, hover]
  | threw _ hplan hadmitted hget hwithin =>
    obtain ⟨hgranted, hinvalid, hrisky⟩ := hadmitted.excludes (s := t) (by simp [hget])
    rw [denies_iff hplan]
    rcases reason <;>
      simp [DeniesPlan, hgranted, hinvalid, hrisky, MediateCall.IsOverBudget, hwithin]
  | executed _ hplan hadmitted hget hwithin =>
    obtain ⟨hgranted, hinvalid, hrisky⟩ := hadmitted.excludes (s := t) (by simp [hget])
    rw [denies_iff hplan]
    rcases reason <;>
      simp [DeniesPlan, hgranted, hinvalid, hrisky, MediateCall.IsOverBudget, hwithin]

theorem result_of_unmediated {result : MediationResult} (h : d.unmediated? = some result) :
    (t.mediate d).result = some result ∧ (t.mediate d).calls = [] := by
  have hstep := mediateStep t d
  generalize t.mediate d = r at hstep
  rcases hstep <;> simp_all

theorem calls_of_denied {reason : DenyReason}
    (h : (t.mediate d).result = some (.denied reason)) : (t.mediate d).calls = [] := by
  have hstep := mediateStep t d
  generalize t.mediate d = r at hstep h
  rcases hstep <;> simp_all

theorem calls_of_recorded {previous : OperationRecord}
    (hget : t.operations.get? d.key = some previous) : (t.mediate d).calls = [] := by
  have hstep := mediateStep t d
  generalize t.mediate d = r at hstep
  rcases hstep <;> simp_all

theorem presented_iff {fingerprint : List Char} {result : GroupResult} (h : d.unmediated? = none)
    (hget : t.operations.get? d.key = some ⟨fingerprint, .group result⟩) :
    (t.mediate d).result = d.present (.group result)
      ↔ ∃ plan, d.plan? = .ok (some plan) ∧ d.Admitted plan ∧ d.fingerprint plan = fingerprint := by
  have hstep := mediateStep t d
  generalize t.mediate d = r at hstep
  cases hstep with
  | unmediated hunmediated => exact absurd (h.symm.trans hunmediated) (by simp)
  | planThrew _ hplan => simp [hplan, MediateCall.present]
  | unresolved _ hplan => simp [hplan, MediateCall.present]
  | ungranted _ hplan hgrant => simp [hplan, MediateCall.present, MediateCall.admitted_iff, hgrant]
  | @invalid plan _ hplan hinvalid =>
    -- the call is not admitted, or under another fingerprint than the recorded one
    refine iff_of_false (by simp [MediateCall.present]) ?_
    rintro ⟨plan', hplan', hadmitted, hsame⟩
    obtain rfl : plan = plan' := by simpa using hplan.symm.trans hplan'
    refine (hadmitted.excludes (s := t) fun previous hprevious ↦ ?_).2.1 hinvalid
    obtain rfl := Option.some.inj (hget.symm.trans hprevious)
    exact hsame.symm
  | isUnsafe _ hplan hrisky =>
    simp [hplan, MediateCall.present, MediateCall.admitted_iff, hrisky.2.2]
  | @replayed plan previous ledger _ hplan hadmitted hprevious hsame =>
    obtain rfl := Option.some.inj (hget.symm.trans hprevious)
    exact iff_of_true rfl ⟨plan, hplan, hadmitted, hsame.symm⟩
  | overBudget _ _ hover => exact nomatch hget.symm.trans hover.2.1
  | threw _ _ _ hnone => exact nomatch hget.symm.trans hnone
  | executed _ _ _ hnone => exact nomatch hget.symm.trans hnone

/-! ## The plan of an intent -/

def IntentAction.bound : IntentAction → Option ℤ
  | .recursiveDelete _ maxResources => some maxResources
  | _ => none

theorem recursive_of_planResources {action : IntentAction}
    {resolveTarget : ℕ → String → Except Unit (Option Endpoint)}
    (h : planResources action resolveTarget = .ok (some plan)) : plan.recursive = action.bound := by
  unfold planResources at h
  grind [IntentAction.bound]

theorem plan_eq_of_fingerprint (later : MediateCall) (hplan : c.plan? = .ok (some plan))
    (hplan' : (c.again later).plan? = .ok (some plan'))
    (h : (c.again later).fingerprint plan' = c.fingerprint plan) : plan' = plan := by
  have hrecursive : plan'.recursive = plan.recursive :=
    (recursive_of_planResources hplan').trans (recursive_of_planResources hplan).symm
  have hrequest : (c.again later).groupRequest plan'
      = { c.groupRequest plan with resources := plan'.resources } := by
    simp [MediateCall.groupRequest, MediateCall.again, MediateCall.scope, hrecursive]
  have hresources : plan'.resources = plan.resources := by
    unfold MediateCall.fingerprint at h
    rw [hrequest] at h
    exact groupFingerprint_inj h
  rcases plan with ⟨resources, recursive⟩
  rcases plan' with ⟨resources', recursive'⟩
  obtain rfl : resources' = resources := hresources
  obtain rfl : recursive' = recursive := hrecursive
  rfl

/-! ## When a retry is answered like the call -/

theorem retriable_iff (hplan : c.plan? = .ok (some plan)) :
    Retriable s t c d ↔ (¬ c.IsGranted plan → Denies t d .contextUnavailable)
      ∧ (c.IsInvalid s plan → Denies t d .invalidContext)
      ∧ (c.IsUnsafe plan → Denies t d .unsafeProvider)
      ∧ ¬ c.IsOverBudget s plan
      ∧ (c.IsAnswered s plan → d.plan? = .ok (some plan) ∧ d.Admitted plan) := by
  have hother : ∀ plan', c.plan? = .ok (some plan') → plan' = plan := by
    intro plan' hplan'
    simpa using hplan'.symm.trans hplan
  constructor
  · intro h
    exact ⟨h.ungranted plan hplan, h.invalid plan hplan, h.isUnsafe plan hplan,
      h.overBudget plan hplan, h.answered plan hplan⟩
  · rintro ⟨hungranted, hinvalid, hrisky, hover, hanswered⟩
    constructor
    · intro hnone
      simp [hplan] at hnone
    all_goals
      intro plan' hplan'
      obtain rfl := hother plan' hplan'
      assumption

theorem retriable_iff_of_unresolved (hplan : c.plan? = .ok none) :
    Retriable s t c d ↔ Denies t d .unresolvedTarget := by
  constructor
  · exact fun h ↦ h.unresolved hplan
  · intro hnone
    constructor
    · exact fun _ ↦ hnone
    all_goals simp [hplan]

/-- What is asked of the retry of an admitted call that meets no other record. -/
theorem retriable_iff_of_admitted (hplan : c.plan? = .ok (some plan)) (hadmitted : c.Admitted plan)
    (hget : ∀ previous, s.operations.get? c.key = some previous →
      previous.fingerprint = c.fingerprint plan) :
    Retriable s t c d ↔ ¬ c.IsOverBudget s plan
      ∧ (c.IsAnswered s plan → d.plan? = .ok (some plan) ∧ d.Admitted plan) := by
  obtain ⟨hgranted, hinvalid, hrisky⟩ := hadmitted.excludes hget
  rw [retriable_iff hplan]
  simp [hgranted, hinvalid, hrisky]

theorem retry_denied_iff (h : d.unmediated? = none) (reason : DenyReason) :
    (∀ result, some (.denied reason) = some result →
        (t.mediate d).result = some result ∧ writes (t.mediate d).calls = [])
      ↔ Denies t d reason := by
  rw [← denied_iff h]
  constructor
  · intro hlaw
    exact (hlaw _ rfl).1
  · intro hdenied result hresult
    obtain rfl := Option.some.inj hresult
    exact ⟨hdenied, by rw [calls_of_denied hdenied, writes_nil]⟩

/-- Where the call has a record, its retry is answered from the record if its targets still resolve
to what they resolved to. -/
theorem retry_recorded_iff {result : GroupResult} (later : MediateCall)
    (h : c.unmediated? = none) (hplan : c.plan? = .ok (some plan))
    (hget : t.operations.get? c.key = some ⟨c.fingerprint plan, .group result⟩) :
    (∀ shown, c.present (.group result) = some shown →
        (t.mediate (c.again later)).result = some shown
          ∧ writes (t.mediate (c.again later)).calls = [])
      ↔ (c.again later).plan? = .ok (some plan) ∧ (c.again later).Admitted plan := by
  have hretry : (c.again later).unmediated? = none := h
  have hpresented := presented_iff hretry hget
  constructor
  · intro hlaw
    obtain ⟨plan', hplan', hadmitted, hsame⟩ := hpresented.mp (hlaw _ rfl).1
    obtain rfl := plan_eq_of_fingerprint later hplan hplan' hsame
    exact ⟨hplan', hadmitted⟩
  · rintro ⟨hplan', hadmitted⟩ shown hshown
    have hcalls : (t.mediate (c.again later)).calls = [] := calls_of_recorded hget
    refine ⟨?_, by rw [hcalls, writes_nil]⟩
    rw [← hshown]
    exact hpresented.mpr ⟨plan, hplan', hadmitted, rfl⟩

/-- A retry after any other calls is answered like the call, and writes nothing, exactly if it is
retriable. -/
theorem retryLaw_iff (s : Ledger) (c : MediateCall) (between : List LedgerOp)
    (later : MediateCall) :
    RetryLaw s c between (c.again later) ↔ (c.unmediated? = none →
      Retriable s (run Ledger.step (s.mediate c).ledger between) c (c.again later)) := by
  have hstep := mediateStep s c
  have hretry : (c.again later).unmediated? = c.unmediated? := rfl
  unfold RetryLaw
  generalize s.mediate c = r at hstep
  cases hstep with
  | @unmediated result h =>
    obtain ⟨hresult, hcalls⟩ :=
      result_of_unmediated (t := run Ledger.step s between) (hretry.trans h)
    simp [h, hresult, hcalls]
  | planThrew h hplan =>
    simp only [h, true_imp_iff]
    exact ⟨fun _ ↦ by constructor <;> simp [hplan], fun _ ↦ nofun⟩
  | unresolved h hplan =>
    simp only [h, true_imp_iff]
    rw [retry_denied_iff (hretry.trans h), retriable_iff_of_unresolved hplan]
  | ungranted h hplan hgrant =>
    simp only [h, true_imp_iff]
    rw [retry_denied_iff (hretry.trans h), retriable_iff hplan]
    simp [MediateCall.IsInvalid, MediateCall.IsUnsafe, MediateCall.IsOverBudget,
      MediateCall.IsAnswered, MediateCall.admitted_iff, hgrant]
  | invalid h hplan hinvalid =>
    obtain ⟨hgranted, hrisky, hover, hanswered⟩ := hinvalid.excludes
    simp only [h, true_imp_iff]
    rw [retry_denied_iff (hretry.trans h), retriable_iff hplan]
    simp [hinvalid, hgranted, hrisky, hover, hanswered]
  | isUnsafe h hplan hrisky =>
    obtain ⟨hgranted, hinvalid, hover, hanswered⟩ := hrisky.excludes (s := s)
    simp only [h, true_imp_iff]
    rw [retry_denied_iff (hretry.trans h), retriable_iff hplan]
    simp [hrisky, hgranted, hinvalid, hover, hanswered]
  | @replayed plan previous ledger h hplan hadmitted hget hsame hledger =>
    obtain ⟨fingerprint, recorded⟩ := previous
    obtain rfl : fingerprint = c.fingerprint plan := hsame
    have hgrown := grows_run ledger between c.key _ (hledger ▸ hget)
    have hover : ¬ c.IsOverBudget s plan := by simp [MediateCall.IsOverBudget, hget]
    simp only [h, true_imp_iff]
    rw [retriable_iff_of_admitted hplan hadmitted (by simp [hget])]
    simp only [hover, not_false_eq_true, true_and]
    rcases recorded with ⟨groupID, outcome⟩ | result | ⟨groupID, receipt⟩
    · simp [MediateCall.present, MediateCall.IsAnswered, hget]
    · have hanswered : c.IsAnswered s plan := ⟨hadmitted, .inr ⟨result, hget⟩⟩
      rw [retry_recorded_iff later h hplan hgrown]
      simp [hanswered]
    · simp [MediateCall.present, MediateCall.IsAnswered, hget]
  | @overBudget plan ledger recorded h hplan hover hledger =>
    -- the record that was left says failed, and no retry is denied over its budget
    have hgrown := grows_run ledger between c.key _ hledger
    simp only [h, true_imp_iff]
    rw [retry_denied_iff (hretry.trans h),
      retriable_iff_of_admitted hplan hover.1 (by simp [hover.2.1])]
    simp only [hover, not_true_eq_false, false_and, iff_false]
    rintro ⟨plan', hplan', hadmitted', hnone, hover'⟩
    exact nomatch hgrown.symm.trans hnone
  | @threw plan e h hplan hadmitted hget hwithin hthrew =>
    simp only [h, true_imp_iff]
    rw [retriable_iff_of_admitted hplan hadmitted (by simp [hget])]
    simp [MediateCall.IsOverBudget, MediateCall.IsAnswered, hget, hwithin, hthrew]
  | @executed plan changed ledger result h hplan hadmitted hget hwithin hchanged hledger =>
    have hgrown := grows_run ledger between c.key _ hledger
    have hanswered : c.IsAnswered s plan := ⟨hadmitted, .inl ⟨hget, hwithin, changed, hchanged⟩⟩
    simp only [h, true_imp_iff]
    rw [retry_recorded_iff later h hplan hgrown,
      retriable_iff_of_admitted hplan hadmitted (by simp [hget])]
    simp [MediateCall.IsOverBudget, hanswered, hwithin]

/-- The creation of a file in the sidebar, its target resolving to this identity. -/
def createNotes (identity : String) : MediateCall where
  intent := ⟨.onTarget .create "notes.md", .sidebar, "op-create"⟩
  capability := .full
  snapshot := ⟨"panel-sidebar", "session-1", "root-1", "user"⟩
  provider :=
    { capabilities := ⟨true, true⟩
      resolveTarget := fun _ _ ↦ .ok (some ⟨identity, .file⟩)
      safeResolve := fun _ endpoint ↦ .ok (some endpoint)
      execute := fun _ _ ↦ .applied }
  now := 10
  ttl := none
  issuing := ⟨fun _ ↦ some "root-1", 10⟩
  executing := ⟨fun _ ↦ some "root-1", 10⟩

/-- The created file has another identity than the missing one, so the retry of its creation is
denied. -/
theorem not_retryLaw_createdFile :
    ¬ RetryLaw (.create ∅) (createNotes "local:missing:1:2:notes.md:file") []
      ((createNotes "local:missing:1:2:notes.md:file").again
        (createNotes "local:existing:1:9")) := by
  intro h
  have hretry := h (.mediated .applied .sidebar [⟨.write, .target, .applied⟩] false)
    (by decide +kernel)
  exact absurd hretry.1 (by decide +kernel)

end Amicode.Mutation
