import Amicode.Mutation.Ledger

/-!
# The receipts of a mutation group

A group that was executed has one receipt for each declared resource, in the order of declaration:
some applied, then at most one failed, and the rest not started. What comes before the loop decides
without a write: a request that no context authorises is denied before the provider is asked
anything, a group over its budget is denied and recorded as denied, and a group of which a resource
is no longer what was declared is recorded with nothing started.

An operation is recorded once. `Grows` says that no call changes a record of the store, from which
every later execution under the same root and operation id is answered without the provider.
-/

namespace Amicode.Mutation

open StepMachine List

/-! ## The law -/

def GroupExecution.key (x : GroupExecution) : String :=
  operationKey x.request.rootID x.request.operationID

/-- The provider can do without following links. -/
def GroupExecution.isSafe (x : GroupExecution) : Bool :=
  x.provider.capabilities.safeResolve && x.provider.capabilities.noFollowWrite

/-- The execution hands in a context that was issued for its request, has not expired, and whose
session still belongs to its root. -/
def Authorised (s : Ledger) (x : GroupExecution) : Prop :=
  ∃ handle context, x.context = some handle ∧ s.contexts.get? handle = some context
    ∧ x.host.now < context.expiresAt
    ∧ x.host.rootForSession context.sessionID = some context.rootID
    ∧ x.request.toScope = context.toScope
    ∧ context.binding = .group x.request.resources x.request.recursive

/-- Some resource does not resolve to what was declared. -/
def IdentityChanged (x : GroupExecution) : Prop :=
  ∃ n resource, x.request.resources[n]? = some resource
    ∧ x.provider.safeResolve n resource.endpoint ≠ .ok (some resource.endpoint)

/-- Some resources were applied, then at most one failed, and the rest was not started. -/
def Shaped (receipts : List ResourceReceipt) : Prop :=
  ∃ applied failed notStarted, failed ≤ 1 ∧ receipts.map ResourceReceipt.outcome
    = List.replicate applied .applied
      ++ (List.replicate failed .failed ++ List.replicate notStarted .notStarted)

def shapeOutcome (receipts : List ResourceReceipt) : GroupOutcome :=
  if ∀ receipt ∈ receipts, receipt.outcome = .applied then .applied
  else if ∃ receipt ∈ receipts, receipt.outcome = .applied then .partly
  else .failed

/-- The resources of which a write was tried. -/
def started (receipts : List ResourceReceipt) : List DeclaredResource :=
  (receipts.filter fun receipt ↦ receipt.outcome ≠ .notStarted).map
    ResourceReceipt.toDeclaredResource

def writes (calls : List ProviderCall) : List DeclaredResource :=
  calls.filterMap fun call ↦
    match call with
    | .execute resource => some resource
    | _ => none

def Outcome.recorded? (r : Outcome) : Option RecordedResult :=
  match r.answer with
  | .executed result => some result
  | .denied _ (some result) => some (.group result)
  | _ => none

structure ReceiptLaw (x : GroupExecution) (r : Outcome) (result : GroupResult) : Prop where
  groupID : result.groupID = x.request.operationID
  declared : result.receipts.map ResourceReceipt.toDeclaredResource = x.request.resources
  distinct : (result.receipts.map fun receipt ↦ receipt.id).Nodup
  shaped : Shaped result.receipts
  outcome : result.outcome = shapeOutcome result.receipts
  writes : writes r.calls = started result.receipts

/-- What an execution answers where the same operation has a record already. -/
structure ReplayLaw (t : Ledger) (y : GroupExecution) (fingerprint : List Char)
    (recorded : RecordedResult) : Prop where
  calls : (t.executeGroup y).calls = []
  ledger : (t.executeGroup y).ledger = t
  answer : (t.executeGroup y).answer = .replayed recorded
    ∨ ∃ reason, (t.executeGroup y).answer = .denied reason none
  replayed : Authorised t y → y.isSafe = true → groupFingerprint y.request = fingerprint →
    (t.executeGroup y).answer = .replayed recorded

/-- The result of a group that was recorded with nothing started. -/
def notStartedResult (x : GroupExecution) : GroupResult :=
  ⟨x.request.operationID, .failed,
    x.request.resources.map fun resource ↦ resource.receipt .notStarted⟩

def overBudgetResult (x : GroupExecution) : GroupResult :=
  ⟨x.request.operationID, .denied, []⟩

structure GroupLaw (s : Ledger) (x : GroupExecution) : Prop where
  executed : ∀ recorded, (s.executeGroup x).answer = .executed recorded →
    ∃ result, recorded = .group result ∧ ReceiptLaw x (s.executeGroup x) result
  overBudget : Ledger.overBudget x.request.resources x.request.recursive = true →
    ∀ recorded, (s.executeGroup x).recorded? = some recorded →
      recorded = .group (overBudgetResult x)
        ∧ ∃ result, (s.executeGroup x).answer = .denied .resourceBudgetExceeded (some result)
  unauthorised : ¬ Authorised s x → ∃ reason, (s.executeGroup x).answer = .denied reason none
  denied : ∀ reason result, (s.executeGroup x).answer = .denied reason result →
    (s.executeGroup x).calls = []
  changed : IdentityChanged x → writes (s.executeGroup x).calls = [] ∧
    ∀ recorded, (s.executeGroup x).answer = .executed recorded →
      recorded = .group (notStartedResult x)
  recorded : ∀ resource ∈ writes (s.executeGroup x).calls,
    (s.executeGroup x).recorded?.isSome = true
  unrecorded : (s.executeGroup x).recorded? = none → (s.executeGroup x).ledger = s
  once : ∀ recorded, (s.executeGroup x).recorded? = some recorded → ∀ between y, y.key = x.key →
    ReplayLaw (run Ledger.step (s.executeGroup x).ledger between) y (groupFingerprint x.request)
      recorded

/-! ## The ways an execution ends -/

variable {s s' : Ledger} {x : GroupExecution}

/-- The group is authorised, and its operation has no record. -/
structure Admitted (s : Ledger) (x : GroupExecution) : Prop where
  authorised : Authorised s x
  unrecorded : s.operations.get? x.key = none

/-- What the loop leaves, after these calls. -/
def committed (x : GroupExecution) (calls : List ProviderCall) :
    List ResourceReceipt × List ProviderCall :=
  Ledger.commit x.provider x.request.resources x.request.resources [] calls

/-- The result of a group that went through the loop. -/
def committedResult (x : GroupExecution) (calls : List ProviderCall) : GroupResult :=
  ⟨x.request.operationID, Ledger.groupOutcome (committed x calls).1, (committed x calls).1⟩

/-- Record a result under the operation of an execution. -/
def Ledger.recordGroup (s : Ledger) (x : GroupExecution) (result : GroupResult) : Ledger :=
  s.record x.key (groupFingerprint x.request) (.group result)

/-- One case for each way an execution ends. -/
inductive GroupStep (s : Ledger) (x : GroupExecution) : Outcome → Prop
  | refused (reason : DenialReason)
      (cause : ¬ Authorised s x ∨ x.isSafe = false
        ∨ ∃ previous, s.operations.get? x.key = some previous
          ∧ previous.fingerprint ≠ groupFingerprint x.request) :
      GroupStep s x (s.deny reason)
  | replayed (previous : OperationRecord) (authorised : Authorised s x)
      (hget : s.operations.get? x.key = some previous)
      (same : previous.fingerprint = groupFingerprint x.request) :
      GroupStep s x ⟨s, .replayed previous.result, []⟩
  | overBudget (admitted : Admitted s x) :
      GroupStep s x
        ⟨s.recordGroup x (overBudgetResult x),
          .denied .resourceBudgetExceeded (some (overBudgetResult x)), []⟩
  | threw (calls : List ProviderCall) (admitted : Admitted s x) (nothing : writes calls = []) :
      GroupStep s x ⟨s, .threw, calls⟩
  | changed (calls : List ProviderCall) (admitted : Admitted s x)
      (within : Ledger.overBudget x.request.resources x.request.recursive = false)
      (nothing : writes calls = []) :
      GroupStep s x
        ⟨s.recordGroup x (notStartedResult x), .executed (.group (notStartedResult x)), calls⟩
  | committed (calls : List ProviderCall) (admitted : Admitted s x)
      (within : Ledger.overBudget x.request.resources x.request.recursive = false)
      (same : ¬ IdentityChanged x) (nothing : writes calls = []) :
      GroupStep s x
        ⟨s.recordGroup x (committedResult x calls), .executed (.group (committedResult x calls)),
          (committed x calls).2⟩

variable {context : StoredContext}

theorem authorised_of_validateGroup {resources : List DeclaredResource}
    {recursive : Option ℤ} (h : s.validateGroup x = .ok (context, resources, recursive)) :
    Authorised s x ∧ context.rootID = x.request.rootID ∧ resources = x.request.resources
      ∧ recursive = x.request.recursive := by
  unfold Ledger.validateGroup Ledger.liveContext at h
  rcases hcontext : x.context with _ | handle
  · simp [hcontext] at h
  · rcases hget : s.contexts.get? handle with _ | stored
    · simp [hcontext, hget] at h
    · simp only [hcontext, hget] at h
      split at h
      · cases h
      · rename_i live hlive
        split at hlive
        · cases hlive
        rename_i hexpired
        split at hlive
        · cases hlive
        rename_i hroot
        obtain rfl : stored = live := by simpa using hlive
        split at h
        · rename_i declared bound hbinding
          split at h
          · rename_i hsame
            obtain ⟨hscope, rfl, rfl⟩ := hsame
            obtain ⟨rfl, rfl, rfl⟩ : stored = context ∧ x.request.resources = resources
              ∧ x.request.recursive = recursive := by simpa using h
            refine ⟨⟨handle, stored, hcontext, hget, Int.not_le.mp hexpired, not_not.mp hroot, hscope,
              hbinding⟩, ?_, rfl, rfl⟩
            exact (congrArg Scope.rootID hscope).symm
          · cases h
        · cases h

theorem not_authorised_of_validateGroup {reason : DenialReason}
    (h : s.validateGroup x = .error reason) : ¬ Authorised s x := by
  rintro ⟨handle, context, hcontext, hget, hexpires, hroot, hscope, hbinding⟩
  unfold Ledger.validateGroup Ledger.liveContext at h
  simp [hcontext, hget, Int.not_le.mpr hexpires, hroot, hscope, hbinding] at h

/-! ### The identities -/

@[simp] theorem writes_nil : writes [] = [] := rfl

@[simp] theorem writes_safeResolve_cons (endpoint : Endpoint) (calls : List ProviderCall) :
    writes (.safeResolve endpoint :: calls) = writes calls := rfl

@[simp] theorem writes_execute_concat (calls : List ProviderCall) (resource : DeclaredResource) :
    writes (calls ++ [.execute resource]) = writes calls ++ [resource] := by
  simp [writes]

/-- The check of the identities writes nothing, and passes exactly if every resource resolves to
what was declared. -/
theorem identityChanged_spec (provider : GroupProvider) (n : ℕ) (resources : List DeclaredResource) :
    writes (Ledger.identityChanged provider n resources).1 = []
      ∧ ((Ledger.identityChanged provider n resources).2 = .ok false
        ↔ ∀ i resource, resources[i]? = some resource →
          provider.safeResolve (n + i) resource.endpoint = .ok (some resource.endpoint)) := by
  induction resources generalizing n with
  | nil => simp [Ledger.identityChanged]
  | cons head rest ih =>
    obtain ⟨hwrites, hrest⟩ := ih (n + 1)
    have hsplit : (∀ i resource, (head :: rest)[i]? = some resource →
          provider.safeResolve (n + i) resource.endpoint = .ok (some resource.endpoint))
        ↔ provider.safeResolve n head.endpoint = .ok (some head.endpoint)
          ∧ ∀ i resource, rest[i]? = some resource →
            provider.safeResolve (n + 1 + i) resource.endpoint = .ok (some resource.endpoint) := by
      constructor
      · intro h
        refine ⟨h 0 head rfl, fun i resource hi ↦ ?_⟩
        rw [Nat.add_right_comm]
        exact h (i + 1) resource hi
      · rintro ⟨hhead, hrest⟩ i resource hi
        rcases i with _ | i
        · obtain rfl : head = resource := by simpa using hi
          exact hhead
        · rw [← Nat.add_assoc, Nat.add_right_comm]
          exact hrest i resource hi
    -- the check stops at the first throw and at the first resource that is not the same
    rw [hsplit, Ledger.identityChanged]
    split
    · rename_i e hresolve
      simp [hresolve]
    · rename_i endpoint hresolve
      split
      · rename_i hother
        simp [hresolve, hother]
      · rename_i hsame
        obtain rfl : endpoint = some head.endpoint := not_not.mp hsame
        simp only [hresolve, writes_safeResolve_cons, hwrites, true_and]
        exact hrest

/-! ### The loop -/

def Applied (receipts : List ResourceReceipt) : Prop :=
  ∀ receipt ∈ receipts, receipt.outcome = .applied

/-- Receipts as the loop leaves them: all applied, or up to the one that failed. -/
inductive Committed : List ResourceReceipt → Prop
  | all {receipts : List ResourceReceipt} (applied : Applied receipts) : Committed receipts
  | upTo {before after : List ResourceReceipt} {receipt : ResourceReceipt} (applied : Applied before)
      (failed : receipt.outcome = .failed)
      (notStarted : ∀ receipt ∈ after, receipt.outcome = .notStarted) :
      Committed (before ++ receipt :: after)

variable {receipts : List ResourceReceipt}

theorem commit_spec (provider : GroupProvider) (resources rest : List DeclaredResource)
    (receipts : List ResourceReceipt) (calls : List ProviderCall)
    (hresources : resources = receipts.map ResourceReceipt.toDeclaredResource ++ rest)
    (happlied : Applied receipts) (hcalls : writes calls = started receipts) :
    let r := Ledger.commit provider resources rest receipts calls
    r.1.map ResourceReceipt.toDeclaredResource = resources ∧ Committed r.1
      ∧ writes r.2 = started r.1 := by
  induction rest generalizing receipts calls with
  | nil => exact ⟨by simpa [Ledger.commit] using hresources.symm, .all happlied, hcalls⟩
  | cons resource rest ih =>
    have hlength : receipts.length = (receipts.map ResourceReceipt.toDeclaredResource).length :=
      (length_map _).symm
    have hdrop : resources.drop (receipts.length + 1) = rest := by
      rw [hresources, hlength, ← drop_drop, drop_left]
      rfl
    unfold Ledger.commit
    dsimp only
    split
    -- a failure ends the loop, and what is left of the resources is not started
    · rename_i hfailed
      rw [length_append, length_singleton, hdrop, hfailed]
      refine ⟨?_, ?_, ?_⟩
      · simp [hresources, DeclaredResource.receipt, Function.comp_def]
      · rw [append_assoc]
        refine .upTo happlied rfl fun receipt hreceipt ↦ ?_
        obtain ⟨next, -, rfl⟩ := List.mem_map.mp hreceipt
        rfl
      · rw [writes_execute_concat, hcalls]
        simp [started, DeclaredResource.receipt]
    · rename_i hnot
      have houtcome : (provider.execute receipts.length resource).receipt = .applied := by
        generalize provider.execute receipts.length resource = outcome at hnot
        cases outcome with
        | applied => rfl
        | failed => exact absurd rfl hnot
        | threw => exact absurd rfl hnot
      -- the invariant goes on with one more receipt that says applied
      rw [houtcome]
      refine ih (receipts ++ [resource.receipt .applied]) (calls ++ [.execute resource]) ?_ ?_ ?_
      · simp [hresources, DeclaredResource.receipt]
      · intro receipt hreceipt
        rcases mem_append.mp hreceipt with hold | hnew
        · exact happlied receipt hold
        · rw [mem_singleton.mp hnew]
          rfl
      · rw [writes_execute_concat, hcalls]
        simp [started, DeclaredResource.receipt]

theorem map_outcome_eq_replicate {outcome : ReceiptOutcome}
    (h : ∀ receipt ∈ receipts, receipt.outcome = outcome) :
    receipts.map ResourceReceipt.outcome = List.replicate receipts.length outcome := by
  rw [eq_replicate_iff]
  refine ⟨length_map _, fun o ho ↦ ?_⟩
  obtain ⟨receipt, hreceipt, rfl⟩ := List.mem_map.mp ho
  exact h receipt hreceipt

theorem Committed.shaped (h : Committed receipts) : Shaped receipts := by
  cases h with
  | all applied =>
    exact ⟨receipts.length, 0, 0, Nat.zero_le 1, by simp [map_outcome_eq_replicate applied]⟩
  | @upTo before after receipt applied failed notStarted =>
    refine ⟨before.length, 1, after.length, le_rfl, ?_⟩
    rw [map_append, map_cons, map_outcome_eq_replicate applied,
      map_outcome_eq_replicate notStarted, failed]
    rfl

theorem Committed.outcome (h : Committed receipts) : Ledger.groupOutcome receipts = shapeOutcome receipts := by
  cases h with
  | all applied =>
    have hnone : receipts.any (fun receipt ↦ receipt.outcome = .failed) = false := by
      rw [List.any_eq_false]
      intro receipt hreceipt
      simp [applied receipt hreceipt]
    have hall : ∀ receipt ∈ receipts, receipt.outcome = .applied := applied
    rw [Ledger.groupOutcome, hnone, shapeOutcome, if_pos hall]
    rfl
  | @upTo before after receipt applied failed notStarted =>
    -- the receipt that failed decides both first questions, and the second one is the same
    have hfailed : ¬ ∀ r ∈ before ++ receipt :: after, r.outcome = .applied := by
      intro hall
      have happlied := hall receipt (by simp)
      rw [failed] at happlied
      cases happlied
    have hany : (before ++ receipt :: after).any (fun r ↦ r.outcome = .failed) = true := by
      simp [failed]
    rw [Ledger.groupOutcome, hany, shapeOutcome, if_neg hfailed, if_pos rfl]
    simp only [List.any_eq_true, decide_eq_true_eq]

/-! ### The inversion -/

theorem groupStep_runGroup (admitted : Admitted s x) :
    GroupStep s x (s.runGroup x x.request.resources x.request.recursive x.key
      (groupFingerprint x.request)) := by
  have hspec := identityChanged_spec x.provider 0 x.request.resources
  unfold Ledger.runGroup
  split
  · exact .overBudget admitted
  · rename_i hwithin
    have hwithin' := Bool.eq_false_iff.mpr hwithin
    split
    · rename_i calls e heq
      rw [heq] at hspec
      exact .threw calls admitted hspec.1
    · rename_i calls heq
      rw [heq] at hspec
      exact .changed calls admitted hwithin' hspec.1
    · rename_i calls heq
      rw [heq] at hspec
      refine .committed calls admitted hwithin' ?_ hspec.1
      rintro ⟨n, resource, hresource, hchanged⟩
      have hsame := hspec.2.mp rfl n resource hresource
      rw [Nat.zero_add] at hsame
      exact hchanged hsame

theorem groupStep (s : Ledger) (x : GroupExecution) : GroupStep s x (s.executeGroup x) := by
  unfold Ledger.executeGroup
  rcases hvalidate : s.validateGroup x with reason | ⟨context, resources, recursive⟩
  · exact .refused reason (.inl (not_authorised_of_validateGroup hvalidate))
  · obtain ⟨hauthorised, hroot, rfl, rfl⟩ := authorised_of_validateGroup hvalidate
    dsimp only
    rw [hroot, ← GroupExecution.key]
    split
    · rename_i hunsafe
      refine .refused _ (.inr (.inl ?_))
      rw [GroupExecution.isSafe, ← Bool.not_eq_true', Bool.not_and]
      exact hunsafe
    · split
      · rename_i previous hget
        unfold Ledger.replay
        split
        · rename_i hother
          exact .refused _ (.inr (.inr ⟨previous, hget, hother⟩))
        · rename_i hsame
          exact .replayed previous hauthorised hget (not_not.mp hsame)
      · rename_i hget
        exact groupStep_runGroup ⟨hauthorised, hget⟩

/-! ## Records are kept -/

/-- Every record of the first ledger is one of the second. -/
def Grows (s s' : Ledger) : Prop :=
  ∀ key record, s.operations.get? key = some record → s'.operations.get? key = some record

theorem Grows.of_eq (h : s'.operations = s.operations) : Grows s s' :=
  fun _ _ hget ↦ h ▸ hget

theorem Grows.trans {t : Ledger} (h : Grows s s') (h' : Grows s' t) : Grows s t :=
  fun key record hget ↦ h' key record (h key record hget)

/-- An execution records nothing, or one operation that had no record. -/
def Records (s s' : Ledger) : Prop :=
  s' = s ∨ ∃ key fingerprint result, s.operations.get? key = none
    ∧ s' = s.record key fingerprint result

theorem Records.refl (s : Ledger) : Records s s := .inl rfl

theorem Records.record {key : String} (h : s.operations.get? key = none) (fingerprint : List Char)
    (result : RecordedResult) : Records s (s.record key fingerprint result) :=
  .inr ⟨key, fingerprint, result, h, rfl⟩

theorem Records.contexts (h : Records s s') : s'.contexts = s.contexts := by
  rcases h with rfl | ⟨key, fingerprint, result, -, rfl⟩
  · rfl
  · rfl

theorem Records.grows (h : Records s s') : Grows s s' := by
  rcases h with rfl | ⟨key, fingerprint, result, hget, rfl⟩
  · exact .of_eq rfl
  · intro other record hrecord
    have hne : key ≠ other := by
      rintro rfl
      rw [hget] at hrecord
      cases hrecord
    exact (s.operations.get?_set_of_ne _ hne).trans hrecord

variable (s)

theorem records_replay (previous : OperationRecord) (normalized : List Char) :
    Records s (s.replay previous normalized).ledger := by
  unfold Ledger.replay
  split
  · exact .refl s
  · exact .refl s

theorem records_executeOpaque (x : OpaqueExecution) : Records s (s.executeOpaque x).ledger := by
  unfold Ledger.executeOpaque
  split
  · exact .refl s
  · dsimp only
    split
    · exact records_replay s _ _
    · rename_i hget
      exact .record hget _ _

theorem records_writeLocal (provider : LocalProvider) (binding : ContextBinding)
    (source destination : Option Endpoint) {key : String} (hget : s.operations.get? key = none)
    (normalized : List Char) (calls : List ProviderCall) :
    Records s (s.writeLocal provider binding source destination key normalized calls).ledger := by
  unfold Ledger.writeLocal
  split
  · split
    · exact .refl s
    · dsimp only
      split
      · exact .refl s
      · exact .refl s
      · exact .record hget _ _
  · exact .refl s

theorem records_executeLocal (x : LocalExecution) : Records s (s.executeLocal x).ledger := by
  unfold Ledger.executeLocal
  split
  · exact .refl s
  · split
    · exact .refl s
    · dsimp only
      split
      · exact records_replay s _ _
      · rename_i hget
        split
        · exact .refl s
        · unfold Ledger.resolveLocal
          split
          · exact .refl s
          · split
            · exact records_writeLocal s _ _ _ _ hget _ _
            · dsimp only
              split
              · exact .refl s
              · exact records_writeLocal s _ _ _ _ hget _ _

variable {s}

theorem Admitted.records (h : Admitted s x) (result : GroupResult) :
    Records s (s.recordGroup x result) :=
  .record h.unrecorded _ _

variable {r : Outcome}

theorem GroupStep.records (h : GroupStep s x r) : Records s r.ledger := by
  cases h with
  | refused => exact .refl s
  | replayed => exact .refl s
  | threw => exact .refl s
  | overBudget admitted => exact admitted.records _
  | changed _ admitted => exact admitted.records _
  | committed _ admitted => exact admitted.records _

theorem grows_step (s : Ledger) (op : LedgerOp) : Grows s (s.step op) := by
  have haddContext (context : StoredContext) : Grows s (s.addContext context) := .of_eq rfl
  cases op with
  | recreate => exact .of_eq rfl
  | issue host request =>
    unfold Ledger.step Ledger.issue
    dsimp only
    split
    · exact .of_eq rfl
    · exact haddContext _
  | issueGroup host request =>
    unfold Ledger.step Ledger.issueGroup
    dsimp only
    split
    · exact haddContext _
    · exact .of_eq rfl
  | revoke context => exact .of_eq rfl
  | executeOpaque x => exact (records_executeOpaque s x).grows
  | executeLocal x => exact (records_executeLocal s x).grows
  | executeGroup x => exact (groupStep s x).records.grows

theorem grows_run (s : Ledger) (ops : List LedgerOp) : Grows s (run Ledger.step s ops) :=
  invariant_run (I := Grows s) (fun t op h ↦ h.trans (grows_step t op)) (.of_eq rfl) ops

/-! ## What contexts declare -/

/-- Every context of a group declares resources that were checked. -/
def Declared (s : Ledger) : Prop :=
  ∀ handle context, s.contexts.get? handle = some context →
    ∀ resources recursive, context.binding = .group resources recursive →
      validResources resources = true

theorem Declared.addContext (h : Declared s)
    (hcontext : ∀ resources recursive, context.binding = .group resources recursive →
      validResources resources = true) : Declared (s.addContext context) := by
  intro handle stored hget
  rw [Ledger.addContext, InsertionMap.get?_set] at hget
  split at hget
  · obtain rfl := Option.some.inj hget
    exact hcontext
  · exact h handle stored hget

theorem binding_of_granted {host : Host} {request : Issue}
    (h : Ledger.granted host request = some context) (resources : List DeclaredResource)
    (recursive : Option ℤ) : context.binding ≠ .group resources recursive := by
  unfold Ledger.granted at h
  split at h
  · cases h
  · split at h
    · cases h
    · split at h
      · split at h
        · obtain rfl := Option.some.inj h
          exact ContextBinding.noConfusion
        · cases h
      · split at h
        · cases h
        · split at h
          · cases h
          · obtain rfl := Option.some.inj h
            exact ContextBinding.noConfusion

theorem Declared.of_contexts (h : Declared s) (hcontexts : s'.contexts = s.contexts) :
    Declared s' := by
  unfold Declared
  rw [hcontexts]
  exact h

theorem declared_of_empty (h : s.contexts = ∅) : Declared s := by
  intro handle context hget
  rw [h] at hget
  cases hget

theorem Declared.step (h : Declared s) (op : LedgerOp) : Declared (s.step op) := by
  cases op with
  | recreate => exact declared_of_empty rfl
  | issue host request =>
    unfold Ledger.step Ledger.issue
    dsimp only
    split
    · exact h
    · rename_i context hgranted
      exact h.addContext fun resources recursive hbinding ↦
        absurd hbinding (binding_of_granted hgranted resources recursive)
  | issueGroup host request =>
    unfold Ledger.step Ledger.issueGroup
    dsimp only
    split
    · rename_i hgrants
      refine h.addContext fun resources recursive hbinding ↦ ?_
      obtain ⟨rfl, -⟩ := ContextBinding.group.inj hbinding
      simp only [Ledger.grantsGroup, Bool.and_eq_true] at hgrants
      exact hgrants.1.1.2
    · exact h
  | revoke context =>
    intro handle stored hget
    unfold Ledger.step Ledger.revoke at hget
    rw [InsertionMap.get?_erase] at hget
    split at hget
    · cases hget
    · exact h handle stored hget
  | executeOpaque x => exact h.of_contexts (records_executeOpaque s x).contexts
  | executeLocal x => exact h.of_contexts (records_executeLocal s x).contexts
  | executeGroup x => exact h.of_contexts (groupStep s x).records.contexts

theorem declared_run (operations : InsertionMap String OperationRecord) (ops : List LedgerOp) :
    Declared (run Ledger.step (.create operations) ops) :=
  invariant_run (fun _ op h ↦ h.step op) (declared_of_empty rfl) ops

theorem Declared.validResources (h : Declared s) (hx : Authorised s x) :
    validResources x.request.resources = true := by
  obtain ⟨handle, context, -, hget, -, -, -, hbinding⟩ := hx
  exact h handle context hget _ _ hbinding

/-! ## The law holds -/

theorem started_of_notStarted
    (h : ∀ receipt ∈ receipts, receipt.outcome = .notStarted) : started receipts = [] := by
  rw [started, filter_eq_nil_iff.mpr, map_nil]
  intro receipt hreceipt
  simp [h receipt hreceipt]

theorem receiptLaw_notStarted (hvalid : validResources x.request.resources = true)
    (hwrites : writes r.calls = []) : ReceiptLaw x r (notStartedResult x) := by
  have hnot : ∀ receipt ∈ (notStartedResult x).receipts, receipt.outcome = .notStarted := by
    intro receipt hreceipt
    obtain ⟨resource, -, rfl⟩ := List.mem_map.mp hreceipt
    rfl
  simp only [validResources, Bool.and_eq_true, decide_eq_true_eq] at hvalid
  refine ⟨rfl, ?_, ?_, ?_, ?_, ?_⟩
  · simp [notStartedResult, DeclaredResource.receipt, Function.comp_def]
  · simpa [notStartedResult, DeclaredResource.receipt, Function.comp_def] using hvalid.2
  · exact ⟨0, 0, _, Nat.zero_le 1, map_outcome_eq_replicate hnot⟩
  · obtain ⟨resource, hresource⟩ := exists_mem_of_length_pos hvalid.1.1
    have hmem : resource.receipt .notStarted ∈ (notStartedResult x).receipts :=
      List.mem_map_of_mem hresource
    -- the group is not empty, so that not all of it was applied
    rw [shapeOutcome, if_neg, if_neg]
    · rfl
    · rintro ⟨receipt, hreceipt, happlied⟩
      exact ReceiptOutcome.noConfusion ((hnot receipt hreceipt).symm.trans happlied)
    · intro hall
      exact ReceiptOutcome.noConfusion (hall _ hmem)
  · rw [hwrites, started_of_notStarted hnot]

theorem receiptLaw_committed {calls : List ProviderCall}
    (hvalid : validResources x.request.resources = true) (hwrites : writes calls = [])
    (hcalls : r.calls = (committed x calls).2) : ReceiptLaw x r (committedResult x calls) := by
  obtain ⟨hdeclared, hcommitted, hstarted⟩ :=
    commit_spec x.provider x.request.resources x.request.resources [] calls rfl (by simp [Applied])
      (by simpa [started] using hwrites)
  simp only [validResources, Bool.and_eq_true, decide_eq_true_eq] at hvalid
  refine ⟨rfl, hdeclared, ?_, hcommitted.shaped, hcommitted.outcome, ?_⟩
  · have hids := hvalid.2
    rw [← hdeclared, List.map_map] at hids
    exact hids
  · rw [hcalls]
    exact hstarted

theorem replayLaw_of_record {t : Ledger} {y : GroupExecution} {fingerprint : List Char}
    {recorded : RecordedResult} (hget : t.operations.get? y.key = some ⟨fingerprint, recorded⟩) :
    ReplayLaw t y fingerprint recorded := by
  have hstep := groupStep t y
  suffices h : (t.executeGroup y).calls = [] ∧ (t.executeGroup y).ledger = t
      ∧ ((t.executeGroup y).answer = .replayed recorded
        ∨ ∃ reason, (t.executeGroup y).answer = .denied reason none)
      ∧ (Authorised t y → y.isSafe = true → groupFingerprint y.request = fingerprint →
        (t.executeGroup y).answer = .replayed recorded) from ⟨h.1, h.2.1, h.2.2.1, h.2.2.2⟩
  generalize t.executeGroup y = r at hstep
  cases hstep with
  | refused reason cause =>
    refine ⟨rfl, rfl, .inr ⟨reason, rfl⟩, fun hauthorised hsafe hsame ↦ ?_⟩
    rcases cause with hnot | hunsafe | ⟨previous, hprevious, hother⟩
    · exact absurd hauthorised hnot
    · rw [hsafe] at hunsafe
      cases hunsafe
    · obtain rfl := Option.some.inj (hget.symm.trans hprevious)
      exact absurd hsame.symm hother
  | replayed previous authorised hprevious same =>
    obtain rfl := Option.some.inj (hget.symm.trans hprevious)
    exact ⟨rfl, rfl, .inl rfl, fun _ _ _ ↦ rfl⟩
  | overBudget admitted => exact nomatch hget.symm.trans admitted.unrecorded
  | threw calls admitted => exact nomatch hget.symm.trans admitted.unrecorded
  | changed calls admitted => exact nomatch hget.symm.trans admitted.unrecorded
  | committed calls admitted => exact nomatch hget.symm.trans admitted.unrecorded

section

variable (h : GroupStep s x r)

include h

theorem GroupStep.stored {recorded : RecordedResult} (hr : r.recorded? = some recorded) :
    r.ledger.operations.get? x.key = some ⟨groupFingerprint x.request, recorded⟩ := by
  have hput (result : GroupResult) (hresult : some (.group result) = some recorded) :
      (s.recordGroup x result).operations.get? x.key
        = some ⟨groupFingerprint x.request, recorded⟩ := by
    rw [← Option.some.inj hresult]
    exact InsertionMap.get?_set_self _ _ _
  cases h with
  | refused => exact nomatch hr
  | replayed => exact nomatch hr
  | threw => exact nomatch hr
  | overBudget => exact hput _ hr
  | changed => exact hput _ hr
  | committed => exact hput _ hr

theorem GroupStep.executed (hs : Declared s) {recorded : RecordedResult} (hr : r.answer = .executed recorded) :
    ∃ result, recorded = .group result ∧ ReceiptLaw x r result := by
  cases h with
  | refused => exact nomatch hr
  | replayed => exact nomatch hr
  | overBudget => exact nomatch hr
  | threw => exact nomatch hr
  | changed calls admitted within nothing =>
    have hvalid := hs.validResources admitted.authorised
    exact ⟨_, (Answer.executed.inj hr).symm, receiptLaw_notStarted hvalid nothing⟩
  | committed calls admitted within same nothing =>
    have hvalid := hs.validResources admitted.authorised
    exact ⟨_, (Answer.executed.inj hr).symm, receiptLaw_committed hvalid nothing rfl⟩

theorem GroupStep.identityChanged (hx : IdentityChanged x) :
    writes r.calls = [] ∧ ∀ recorded, r.answer = .executed recorded → recorded = .group (notStartedResult x) := by
  cases h with
  | refused => exact ⟨rfl, nofun⟩
  | replayed => exact ⟨rfl, nofun⟩
  | overBudget => exact ⟨rfl, nofun⟩
  | threw calls admitted nothing => exact ⟨nothing, nofun⟩
  | changed calls admitted within nothing =>
    exact ⟨nothing, fun _ hr ↦ (Answer.executed.inj hr).symm⟩
  | committed calls admitted within same => exact absurd hx same

theorem GroupStep.overBudget_recorded (hx : Ledger.overBudget x.request.resources x.request.recursive = true)
    {recorded : RecordedResult} (hr : r.recorded? = some recorded) : recorded = .group (overBudgetResult x)
      ∧ ∃ result, r.answer = .denied .resourceBudgetExceeded (some result) := by
  cases h with
  | refused => exact nomatch hr
  | replayed => exact nomatch hr
  | threw => exact nomatch hr
  | overBudget => exact ⟨(Option.some.inj hr).symm, overBudgetResult x, rfl⟩
  | changed calls admitted within => exact nomatch hx.symm.trans within
  | committed calls admitted within => exact nomatch hx.symm.trans within

theorem GroupStep.denied {reason : DenialReason}
    {result : Option GroupResult} (hr : r.answer = .denied reason result) : r.calls = [] := by
  cases h with
  | refused => rfl
  | overBudget => rfl
  | replayed => exact nomatch hr
  | threw => exact nomatch hr
  | changed => exact nomatch hr
  | committed => exact nomatch hr

theorem GroupStep.unauthorised (hx : ¬ Authorised s x) : ∃ reason, r.answer = .denied reason none := by
  cases h with
  | refused reason => exact ⟨reason, rfl⟩
  | replayed previous authorised => exact absurd authorised hx
  | overBudget admitted => exact absurd admitted.authorised hx
  | threw calls admitted => exact absurd admitted.authorised hx
  | changed calls admitted => exact absurd admitted.authorised hx
  | committed calls admitted => exact absurd admitted.authorised hx

/-- An execution that has written something has recorded it, and one that has recorded nothing
leaves the ledger as it was. -/
theorem GroupStep.recorded : (∀ resource ∈ writes r.calls, r.recorded?.isSome = true)
      ∧ (r.recorded? = none → r.ledger = s) := by
  have hnothing {calls : List ProviderCall} (hcalls : writes calls = []) {P : Prop} :
      ∀ resource ∈ writes calls, P := by
    rw [hcalls]
    exact fun _ hmem ↦ absurd hmem not_mem_nil
  cases h with
  | refused => exact ⟨hnothing rfl, fun _ ↦ rfl⟩
  | replayed => exact ⟨hnothing rfl, fun _ ↦ rfl⟩
  | threw calls admitted nothing => exact ⟨hnothing nothing, fun _ ↦ rfl⟩
  | overBudget => exact ⟨hnothing rfl, nofun⟩
  | changed => exact ⟨fun _ _ ↦ rfl, nofun⟩
  | committed => exact ⟨fun _ _ ↦ rfl, nofun⟩

end

/-- The law holds of every group that is executed after any calls of a ledger over any store. -/
theorem groupLaw_run (operations : InsertionMap String OperationRecord) (ops : List LedgerOp)
    (x : GroupExecution) : GroupLaw (run Ledger.step (.create operations) ops) x := by
  set s := run Ledger.step (.create operations) ops with hs
  have hdeclared : Declared s := declared_run operations ops
  have hstep := groupStep s x
  constructor
  · exact fun recorded hr ↦ hstep.executed hdeclared hr
  · exact fun hx recorded hr ↦ hstep.overBudget_recorded hx hr
  · exact hstep.unauthorised
  · exact fun reason result hr ↦ hstep.denied hr
  · exact hstep.identityChanged
  · exact hstep.recorded.1
  · exact hstep.recorded.2
  · intro recorded hrecorded between y hkey
    refine replayLaw_of_record (grows_run _ between _ _ ?_)
    rw [hkey]
    exact hstep.stored hrecorded

def twoFiles : List DeclaredResource :=
  [⟨"first", ⟨"provider:first", .file⟩, .patch, .target⟩,
    ⟨"second", ⟨"provider:second", .file⟩, .patch, .target⟩]

/-- A host on which every session belongs to one root. -/
def oneRoot : Host := ⟨fun _ ↦ some "root", 10⟩

/-- A patch of the two files with this bound, by a provider that resolves the files or does not. -/
def patchTwoFiles (recursive : Option ℤ) (resolves : Bool) : GroupExecution where
  host := oneRoot
  context := some 0
  request :=
    ⟨⟨"tool-apply-patch", "panel", "session", "root", "agent", "patch"⟩, "operation", twoFiles,
      recursive⟩
  provider :=
    { capabilities := ⟨true, true⟩
      safeResolve := fun _ endpoint ↦ .ok (if resolves then some endpoint else none)
      execute := fun _ _ ↦ .applied }

/-- The context of such a patch. -/
def issueTwoFiles (recursive : Option ℤ) : LedgerOp :=
  .issueGroup oneRoot
    ⟨⟨"tool-apply-patch", "panel", "session", "root", "agent", "patch"⟩, twoFiles, recursive, 20⟩

/-- A group over its budget has no receipts, a changed identity is no denial, and another request
under the same operation id is not answered from the record. -/
theorem not_groupReceipts_twoFiles :
    (¬ ∀ (ops : List LedgerOp) (x : GroupExecution) (result : GroupResult),
      ((run Ledger.step (.create ∅) ops).executeGroup x).recorded? = some (.group result) →
        result.receipts.map ResourceReceipt.toDeclaredResource = x.request.resources)
    ∧ (¬ ∀ (ops : List LedgerOp) (x : GroupExecution), IdentityChanged x →
      ∃ reason result,
        ((run Ledger.step (.create ∅) ops).executeGroup x).answer = .denied reason result)
    ∧ ¬ ∀ (before between : List LedgerOp) (x y : GroupExecution) (recorded : RecordedResult),
      ((run Ledger.step (.create ∅) before).executeGroup x).recorded? = some recorded →
        y.key = x.key →
          ((run Ledger.step (.create ∅) (before ++ .executeGroup x :: between)).executeGroup y).answer
            = .replayed recorded := by
  refine ⟨fun h ↦ ?_, fun h ↦ ?_, fun h ↦ ?_⟩
  · have hnone := h [issueTwoFiles (some 1)] (patchTwoFiles (some 1) true)
      ⟨"operation", .denied, []⟩ (by decide +kernel)
    exact absurd hnone (by decide +kernel)
  · have hchanged : IdentityChanged (patchTwoFiles none false) :=
      ⟨0, ⟨"first", ⟨"provider:first", .file⟩, .patch, .target⟩, rfl, fun heq ↦ by cases heq⟩
    obtain ⟨reason, result, hdenied⟩ := h [issueTwoFiles none] _ hchanged
    have hexecuted : ((run Ledger.step (.create ∅) [issueTwoFiles none]).executeGroup
        (patchTwoFiles none false)).answer = .executed (.group ⟨"operation", .failed,
          twoFiles.map fun resource ↦ resource.receipt .notStarted⟩) := by decide +kernel
    rw [hexecuted] at hdenied
    cases hdenied
  · have hreplayed := h [issueTwoFiles none] [.revoke 0, issueTwoFiles (some 2)]
      (patchTwoFiles none true) { patchTwoFiles (some 2) true with context := some 1 }
      (.group ⟨"operation", .applied, twoFiles.map fun resource ↦ resource.receipt .applied⟩)
      (by decide +kernel) rfl
    exact absurd hreplayed (by decide +kernel)

end Amicode.Mutation
