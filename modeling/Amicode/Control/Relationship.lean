import Amicode.Control.Revocation

/-!
# Relationships

A grant is meant for a relationship, one requester at one target, and what happens to one relationship
is to leave the others alone. The store has one record per requester. Other requesters are indeed left
alone; a grant of the same requester for another target is not: issuing and readmitting write over it,
and a revocation or an acknowledgement, which name the requester only, fall on whatever is stored.

An operation disturbs no other relationship exactly when it is refused, or the requester's grant, if
there is one, is for the target in question (`Harmless`). A grant for another target only ever moves
away from what it was (`stage`), so that nothing makes up for a disturbance later in the run.

A token leads to one target for good. This rests on the tokens being distinct, as random ones are.
-/

namespace Amicode.Control

open StepMachine List

/-! ## Relationships and their tokens -/

def relationship? (store : GrantStore) (requester target : String) : Option LifecycleGrant :=
  (readLifecycleGrant store requester).filter (·.targetMachineId = target)

/-- Looked up, the token is one of the relationship. -/
def FoundFor (store : GrantStore) (requester target token : String) : Prop :=
  ∃ g, findGrantByToken store token = some g
    ∧ g.requesterMachineId = requester ∧ g.targetMachineId = target

/-- Validated under the generation, the token is one of the relationship. -/
def ValidFor (store : GrantStore) (requester target token : String) (generation : ℚ) : Prop :=
  (∃ g, relationship? store requester target = some g) ∧ Accepts store requester token generation

/-- The operation is addressed to the relationship. A revocation and an acknowledgement name the
requester alone. -/
def AddressedTo (requester target : String) : GrantOp → Prop
  | .issue req .. => req.requesterMachineId = requester ∧ req.targetMachineId = target
  | .revoke peerId _ => peerId = requester
  | .acknowledge peerId => peerId = requester
  | .readmitPeer req .. => req.peerId = requester ∧ req.targetMachineId = target
  | .validate peerId .. => peerId = requester

instance decidableAddressedTo (requester target : String) :
    ∀ op, Decidable (AddressedTo requester target op)
  | .issue .. => inferInstanceAs (Decidable (_ ∧ _))
  | .revoke .. => inferInstanceAs (Decidable (_ = _))
  | .acknowledge _ => inferInstanceAs (Decidable (_ = _))
  | .readmitPeer .. => inferInstanceAs (Decidable (_ ∧ _))
  | .validate .. => inferInstanceAs (Decidable (_ = _))

/-- A token together with the target it is issued for. -/
def LifecycleGrant.issued (g : LifecycleGrant) : String × String := (g.token, g.targetMachineId)

/-- The token an operation issues. -/
def issuedBy (store : GrantStore) : GrantOp → List (String × String)
  | .issue req token issuedAt =>
    match (issueLifecycleGrant store req token issuedAt).2 with
    | .ok g => [g.issued]
    | .error _ => []
  | .readmitPeer req token issuedAt =>
    match (readmitPeer store req token issuedAt).2 with
    | .ok g => [g.issued]
    | .error _ => []
  | _ => []

def issuedOver : GrantStore → List GrantOp → List (String × String)
  | _, [] => []
  | store, op :: ops => issuedBy store op ++ issuedOver (grantStep store op) ops

/-- The tokens issued until the end of a run: those of the store it starts from, and its own. -/
def issuedUntil (store : GrantStore) (ops : List GrantOp) : List (String × String) :=
  (readAllLifecycleGrants store).map LifecycleGrant.issued ++ issuedOver store ops

/-- No token is drawn twice. -/
def DistinctTokens (store : GrantStore) (ops : List GrantOp) : Prop :=
  ((issuedUntil store ops).map Prod.fst).Nodup

instance (store : GrantStore) (ops : List GrantOp) : Decidable (DistinctTokens store ops) :=
  inferInstanceAs (Decidable (List.Nodup _))

/-- Operations on one relationship, after any others, leave every other relationship alone; and a
token issued for one target goes through for no other. -/
structure RelationshipLaw (requester target : String) (store : GrantStore)
    (before ops : List GrantOp) : Prop where
  kept : ∀ r t, (r, t) ≠ (requester, target) →
    relationship? (run grantStep store (before ++ ops)) r t
      = relationship? (run grantStep store before) r t
  found : ∀ r t, (r, t) ≠ (requester, target) → ∀ token,
    (FoundFor (run grantStep store (before ++ ops)) r t token
      ↔ FoundFor (run grantStep store before) r t token)
  validated : ∀ r t, (r, t) ≠ (requester, target) → ∀ token generation,
    (ValidFor (run grantStep store (before ++ ops)) r t token generation
      ↔ ValidFor (run grantStep store before) r t token generation)
  bound : ∀ token t, (token, t) ∈ issuedUntil store (before ++ ops) →
    ∀ method pathname scope, enforceScopeForRequest (run grantStep store (before ++ ops))
        token method pathname = .ok scope →
      ∃ g, findGrantByToken (run grantStep store (before ++ ops)) token = some g
        ∧ g.targetMachineId = t

/-! ## Harmless operations -/

/-- The operation changes nothing about the requester's grant. -/
def Ineffective (g : LifecycleGrant) : GrantOp → Prop
  | .issue req .. => g.requesterIdentityKey ≠ req.requesterIdentityKey ∨ g.state = .revoked
  | .revoke .. => g.state ≠ .active
  | .acknowledge _ => g.state ≠ .revocationPending
  | .readmitPeer req .. =>
    g.state ≠ .revoked ∨ req.targetApproved = false
      ∨ g.requesterIdentityKey ≠ req.requesterIdentityKey
  | .validate .. => True

/-- The requester has a grant for another target only where the operation does nothing to it. -/
def Harmless (requester target : String) (store : GrantStore) (op : GrantOp) : Prop :=
  ∀ g ∈ readLifecycleGrant store requester, g.targetMachineId ≠ target → Ineffective g op

variable {store : GrantStore} {op : GrantOp} {before ops : List GrantOp} {r t r' t' : String}
  {g w : LifecycleGrant}

theorem Writes.requesterMachineId (h : Writes store op w) (haddr : AddressedTo r t op) :
    w.requesterMachineId = r := by
  cases h with
  | first => exact haddr.1
  | again => exact haddr.1
  | revoke hread => exact (requesterMachineId_of_read hread).trans haddr
  | acknowledge hread => exact (requesterMachineId_of_read hread).trans haddr
  | readmission => exact haddr.1

theorem relationship?_eq_some :
    relationship? store r t = some g
      ↔ readLifecycleGrant store r = some g ∧ g.targetMachineId = t := by
  simp [relationship?, Option.filter_eq_some_iff]

theorem relationship?_of_ne (haddr : AddressedTo r t op) (hr : r' ≠ r) :
    relationship? (grantStep store op) r' t' = relationship? store r' t' := by
  rcases grantStep_cases store op with ⟨hkept, -⟩ | ⟨w, hw⟩
  · rw [hkept]
  · rw [hw.grantStep_eq.1, hw.requesterMachineId haddr, relationship?,
      read_writeGrant_of_ne w hr.symm]
    rfl

/-- How far the grant of a relationship has come. -/
def stage : Option LifecycleGrant → ℕ
  | none => 3
  | some g =>
    match g.state with
    | .active => 0
    | .revocationPending => 1
    | .revoked => 2

theorem relationship?_written (hid : w.requesterMachineId = r) (ht : w.targetMachineId ≠ t) :
    relationship? (writeGrant store w.requesterMachineId w) r t = none := by
  rw [Option.eq_none_iff_forall_ne_some]
  intro g hg
  obtain ⟨hread, htarget⟩ := relationship?_eq_some.mp hg
  rw [hid] at hread
  rw [eq_of_read_writeGrant hread] at htarget
  exact ht htarget

theorem stage_some_lt (g : LifecycleGrant) : stage (some g) < stage none := by
  cases hstate : g.state <;> simp [stage, hstate]

section

variable (h : Writes store op w) (haddr : AddressedTo r t op)

include h haddr

theorem Writes.target : w.targetMachineId = t ∨ ∃ g, readLifecycleGrant store r = some g
      ∧ w.targetMachineId = g.targetMachineId ∧ stage (some g) < stage (some w) := by
  cases h with
  | first => exact .inl haddr.2
  | again => exact .inl haddr.2
  | revoke hread hstate =>
    obtain rfl : _ = r := haddr
    exact .inr ⟨_, hread, rfl, by simp [stage, hstate]⟩
  | acknowledge hread hstate =>
    obtain rfl : _ = r := haddr
    exact .inr ⟨_, hread, rfl, by simp [stage, hstate]⟩
  | readmission => exact .inl haddr.2

theorem Writes.stage_lt (hread : readLifecycleGrant store r = some g) (ht : g.targetMachineId ≠ t) :
    stage (relationship? store r g.targetMachineId)
      < stage (relationship? (grantStep store op) r g.targetMachineId) := by
  have hid := h.requesterMachineId haddr
  rw [h.grantStep_eq.1, relationship?_eq_some.mpr ⟨hread, rfl⟩]
  rcases h.target haddr with htarget | ⟨g', hread', htarget, hlt⟩
  · rw [relationship?_written hid (fun heq ↦ ht (heq.symm.trans htarget))]
    exact stage_some_lt g
  · obtain rfl : g' = g := Option.some.inj (hread'.symm.trans hread)
    cases hnew : relationship? (writeGrant store w.requesterMachineId w) r g'.targetMachineId with
    | none => exact stage_some_lt g'
    | some w' =>
      have hw' := (relationship?_eq_some.mp hnew).1
      rw [hid] at hw'
      rw [eq_of_read_writeGrant hw']
      exact hlt

theorem Writes.relationship?_eq
    (hread : ∀ g, readLifecycleGrant store r = some g → g.targetMachineId ≠ t') (ht : t' ≠ t) :
    relationship? (grantStep store op) r t' = relationship? store r t' := by
  have hnone : relationship? store r t' = none := by
    rw [Option.eq_none_iff_forall_ne_some]
    intro g hg
    obtain ⟨hg, htarget⟩ := relationship?_eq_some.mp hg
    exact hread g hg htarget
  rw [hnone, h.grantStep_eq.1]
  refine relationship?_written (h.requesterMachineId haddr) ?_
  rcases h.target haddr with htarget | ⟨g, hg, htarget, -⟩
  · exact fun heq ↦ ht (heq.symm.trans htarget)
  · exact fun heq ↦ hread g hg (htarget.symm.trans heq)

end

theorem exists_writes_iff (haddr : AddressedTo r t op) (hread : readLifecycleGrant store r = some g) :
    (∃ w, Writes store op w) ↔ ¬ Ineffective g op := by
  constructor
  · rintro ⟨w, hw⟩ hineffective
    have hg : ∀ {r' g'}, readLifecycleGrant store r' = some g' → r' = r → g' = g :=
      fun h hr ↦ Option.some.inj (h.symm.trans (hr ▸ hread))
    cases hw with
    | first hread' =>
      rw [haddr.1, hread] at hread'
      cases hread'
    | again hread' hkey hstate =>
      obtain rfl := hg hread' haddr.1
      exact hineffective.elim (fun hne ↦ hne hkey) hstate
    | revoke hread' hstate =>
      obtain rfl := hg hread' haddr
      exact hineffective hstate
    | acknowledge hread' hstate =>
      obtain rfl := hg hread' haddr
      exact hineffective hstate
    | readmission hread' hstate happroved hkey =>
      obtain rfl := hg hread' haddr.1
      rcases hineffective with hne | hne | hne
      · exact hne hstate
      · exact absurd happroved (by simp [hne])
      · exact hne hkey
  · intro heffective
    cases op with
    | issue req token issuedAt =>
      obtain ⟨hkey, hstate⟩ := not_or.mp heffective
      exact ⟨_, .again (haddr.1 ▸ hread) (not_not.mp hkey) hstate⟩
    | revoke p time =>
      obtain rfl : p = r := haddr
      exact ⟨_, .revoke hread (not_not.mp heffective)⟩
    | acknowledge p =>
      obtain rfl : p = r := haddr
      exact ⟨_, .acknowledge hread (not_not.mp heffective)⟩
    | readmitPeer req token issuedAt =>
      obtain ⟨hstate, hrest⟩ := not_or.mp heffective
      obtain ⟨happroved, hkey⟩ := not_or.mp hrest
      exact ⟨_, .readmission (haddr.1 ▸ hread) (not_not.mp hstate)
        (Bool.eq_true_of_not_eq_false happroved) (not_not.mp hkey)⟩
    | validate => exact absurd trivial heffective

/-- An operation leaves the grant for another target as it is or moves it on. -/
theorem relationship?_eq_or_stage_lt (haddr : AddressedTo r t op) (ht : t' ≠ t) :
    relationship? (grantStep store op) r t' = relationship? store r t'
      ∨ stage (relationship? store r t') < stage (relationship? (grantStep store op) r t') := by
  rcases grantStep_cases store op with ⟨hkept, -⟩ | ⟨w, hw⟩
  · exact .inl (by rw [hkept])
  by_cases hread : ∃ g, readLifecycleGrant store r = some g ∧ g.targetMachineId = t'
  · obtain ⟨g, hread, rfl⟩ := hread
    exact .inr (hw.stage_lt haddr hread ht)
  · exact .inl (hw.relationship?_eq haddr (fun g hg htarget ↦ hread ⟨g, hg, htarget⟩) ht)

theorem stage_le_run (haddr : ∀ op ∈ ops, AddressedTo r t op) (ht : t' ≠ t) :
    stage (relationship? store r t') ≤ stage (relationship? (run grantStep store ops) r t') := by
  induction ops generalizing store with
  | nil => exact le_rfl
  | cons op ops ih =>
    have hrest : ∀ op ∈ ops, AddressedTo r t op := fun op hop ↦ haddr op (.tail _ hop)
    refine le_trans ?_ (ih hrest)
    rcases relationship?_eq_or_stage_lt (haddr op (.head _)) ht with heq | hlt
    · rw [heq]
    · exact hlt.le

/-- An operation is harmless exactly when it leaves the other relationships of the requester alone. -/
theorem harmless_iff (haddr : AddressedTo r t op) : Harmless r t store op
    ↔ ∀ t', t' ≠ t → relationship? (grantStep store op) r t' = relationship? store r t' := by
  constructor
  · intro hharmless t' ht
    rcases grantStep_cases store op with ⟨hkept, -⟩ | ⟨w, hw⟩
    · rw [hkept]
    refine hw.relationship?_eq haddr (fun g hread htarget ↦ ?_) ht
    exact (exists_writes_iff haddr hread).mp ⟨w, hw⟩ (hharmless g hread (htarget ▸ ht))
  · intro hkept g hread ht
    by_contra heffective
    obtain ⟨w, hw⟩ := (exists_writes_iff haddr hread).mpr heffective
    exact (hw.stage_lt haddr hread ht).ne (by rw [hkept _ ht])

/-! ## Runs -/

/-- The requester's other relationships are left alone by a run exactly when every operation leaves
them alone. -/
theorem kept_iff (haddr : ∀ op ∈ ops, AddressedTo r t op) :
    (∀ t', t' ≠ t → relationship? (run grantStep store ops) r t' = relationship? store r t')
      ↔ Guarded grantStep (Harmless r t) store ops := by
  induction ops generalizing store with
  | nil => simp
  | cons op ops ih =>
    have hop := haddr op (.head _)
    have hrest : ∀ op ∈ ops, AddressedTo r t op := fun op hop ↦ haddr op (.tail _ hop)
    rw [guarded_cons, ← ih hrest, harmless_iff hop]
    constructor
    · intro hkept
      -- what a step has moved on stays moved on
      have hstep : ∀ t', t' ≠ t →
          relationship? (grantStep store op) r t' = relationship? store r t' := fun t' ht ↦ by
        refine (relationship?_eq_or_stage_lt hop ht).resolve_right fun hlt ↦ ?_
        have hle : stage (relationship? (grantStep store op) r t') ≤ _ := stage_le_run hrest ht
        rw [run_cons] at hkept
        rw [hkept t' ht] at hle
        omega
      exact ⟨hstep, fun t' ht ↦ (hkept t' ht).trans (hstep t' ht).symm⟩
    · rintro ⟨hstep, hkept⟩ t' ht
      exact (hkept t' ht).trans (hstep t' ht)

theorem kept_of_ne (haddr : ∀ op ∈ ops, AddressedTo r t op) (hr : r' ≠ r) :
    relationship? (run grantStep store ops) r' t' = relationship? store r' t' := by
  induction ops generalizing store with
  | nil => rfl
  | cons op ops ih =>
    rw [run_cons, ih fun op hop ↦ haddr op (.tail _ hop), relationship?_of_ne (haddr op (.head _)) hr]

/-! ## Tokens -/

/-- Every grant of the store has a token that was issued, for its target; and no two have the same. -/
structure Accounted (issued : List (String × String)) (store : GrantStore) : Prop where
  mem : ∀ p g, readLifecycleGrant store p = some g → g.issued ∈ issued
  inj : ∀ p p' g g', readLifecycleGrant store p = some g → readLifecycleGrant store p' = some g' →
    g.token = g'.token → p = p'

theorem Writes.issued (h : Writes store op w) :
    (∃ g, readLifecycleGrant store w.requesterMachineId = some g ∧ w.issued = g.issued
        ∧ issuedBy store op = [])
      ∨ issuedBy store op = [w.issued] := by
  cases h with
  | first hread => exact .inr (by simp [issuedBy, issueLifecycleGrant, hread])
  | again hread hkey hstate =>
    exact .inr (by simp [issuedBy, issueLifecycleGrant, hread, hkey, hstate])
  | revoke hread =>
    obtain rfl := requesterMachineId_of_read hread
    exact .inl ⟨_, hread, rfl, rfl⟩
  | acknowledge hread =>
    obtain rfl := requesterMachineId_of_read hread
    exact .inl ⟨_, hread, rfl, rfl⟩
  | readmission hread hstate happroved hkey =>
    exact .inr (by simp [issuedBy, readmitPeer, hread, hstate, happroved, hkey])

section Tokens

variable {issued : List (String × String)} {token : String}

theorem Accounted.step (h : Accounted issued store)
    (hnodup : ((issued ++ issuedBy store op).map Prod.fst).Nodup) :
    Accounted (issued ++ issuedBy store op) (grantStep store op) := by
  rcases grantStep_cases store op with ⟨hkept, -⟩ | ⟨w, hw⟩
  · rw [hkept]
    exact ⟨fun p g hg ↦ mem_append_left _ (h.mem p g hg), h.inj⟩
  rw [hw.grantStep_eq.1]
  -- what the written grant is read as, and the others
  have hcases : ∀ p g, readLifecycleGrant (writeGrant store w.requesterMachineId w) p = some g →
      (p = w.requesterMachineId ∧ g.issued = w.issued)
        ∨ (p ≠ w.requesterMachineId ∧ readLifecycleGrant store p = some g) := by
    intro p g hg
    by_cases hp : p = w.requesterMachineId
    · subst hp
      exact .inl ⟨rfl, by rw [eq_of_read_writeGrant hg]; rfl⟩
    · exact .inr ⟨hp, by rwa [read_writeGrant_of_ne w (Ne.symm hp)] at hg⟩
  -- no other grant has the written token
  have hapart : ∀ p g, p ≠ w.requesterMachineId → readLifecycleGrant store p = some g →
      g.token ≠ w.token := by
    intro p g hp hg htoken
    rcases hw.issued with ⟨g₀, hread, hsame, -⟩ | hnew
    · exact hp (h.inj p _ g g₀ hg hread (htoken.trans (congrArg Prod.fst hsame)))
    · rw [hnew, map_append, nodup_append] at hnodup
      exact hnodup.2.2 _ (List.mem_map_of_mem (h.mem p g hg)) w.token (by simp [LifecycleGrant.issued])
        htoken
  refine ⟨fun p g hg ↦ ?_, fun p p' g g' hg hg' htoken ↦ ?_⟩
  · rcases hcases p g hg with ⟨-, hsame⟩ | ⟨-, hread⟩
    · rcases hw.issued with ⟨g₀, hread, hsame', -⟩ | hnew
      · exact mem_append_left _ (hsame.trans hsame' ▸ h.mem _ g₀ hread)
      · simp [hnew, hsame]
    · exact mem_append_left _ (h.mem p g hread)
  · rcases hcases p g hg with ⟨rfl, hsame⟩ | ⟨hp, hread⟩ <;>
      rcases hcases p' g' hg' with ⟨rfl, hsame'⟩ | ⟨hp', hread'⟩
    · rfl
    · exact absurd (htoken.symm.trans (congrArg Prod.fst hsame)) (hapart p' g' hp' hread')
    · exact absurd (htoken.trans (congrArg Prod.fst hsame')) (hapart p g hp hread)
    · exact h.inj p p' g g' hread hread' htoken

theorem Accounted.over (h : Accounted issued store)
    (hnodup : ((issued ++ issuedOver store ops).map Prod.fst).Nodup) :
    Accounted (issued ++ issuedOver store ops) (run grantStep store ops) := by
  induction ops generalizing store issued with
  | nil => simpa [issuedOver] using h
  | cons op ops ih =>
    rw [issuedOver, ← append_assoc] at hnodup ⊢
    refine ih (h.step ?_) hnodup
    rw [map_append] at hnodup
    exact (nodup_append.mp hnodup).1

theorem accounted_until (hdistinct : DistinctTokens store ops) :
    Accounted (issuedUntil store ops) (run grantStep store ops) := by
  refine Accounted.over ⟨fun p g hg ↦ ?_, fun p p' g g' hg hg' htoken ↦ ?_⟩ hdistinct
  · refine List.mem_map_of_mem (mem_readAllLifecycleGrants.mpr ?_)
    rwa [requesterMachineId_of_read hg]
  · have hdrawn : ((readAllLifecycleGrants store).map LifecycleGrant.token).Nodup := by
      rw [DistinctTokens, issuedUntil, map_append, List.map_map] at hdistinct
      exact (nodup_append.mp hdistinct).1
    have hmem : ∀ {p g}, readLifecycleGrant store p = some g →
        g ∈ readAllLifecycleGrants store := fun h ↦
      mem_readAllLifecycleGrants.mpr (by rwa [requesterMachineId_of_read h])
    obtain rfl := inj_on_of_nodup_map hdrawn (hmem hg) (hmem hg') htoken
    rw [← requesterMachineId_of_read hg, ← requesterMachineId_of_read hg']

theorem Accounted.foundFor_iff (h : Accounted issued store) : FoundFor store r t token
    ↔ ∃ g, relationship? store r t = some g ∧ g.token = token ∧ g.state = .active := by
  constructor
  · rintro ⟨g, hfound, rfl, rfl⟩
    obtain ⟨hread, htoken, hactive⟩ := findGrantByToken_spec hfound
    exact ⟨g, relationship?_eq_some.mpr ⟨hread, rfl⟩, htoken, hactive⟩
  · rintro ⟨g, hg, rfl, hactive⟩
    obtain ⟨hread, rfl⟩ := relationship?_eq_some.mp hg
    have hid := requesterMachineId_of_read hread
    have hmem : g ∈ readAllLifecycleGrants store :=
      mem_readAllLifecycleGrants.mpr (by rwa [hid])
    cases hfound : findGrantByToken store g.token with
    | none =>
      have := find?_eq_none.mp hfound g hmem
      simp [hactive] at this
    | some g' =>
      obtain ⟨hread', htoken, -⟩ := findGrantByToken_spec hfound
      have hsame := h.inj _ _ _ _ hread' hread htoken
      obtain rfl : g' = g := Option.some.inj (hread'.symm.trans (hsame ▸ hread))
      exact ⟨g', hfound, hid, rfl⟩

theorem Accounted.bound (h : Accounted issued store) (hnodup : (issued.map Prod.fst).Nodup)
    (hissued : (token, t) ∈ issued) {method pathname : String} {scope : GrantScope}
    (hok : enforceScopeForRequest store token method pathname = .ok scope) :
    ∃ g, findGrantByToken store token = some g ∧ g.targetMachineId = t := by
  obtain ⟨g, hfound, -⟩ := enforceScopeForRequest_ok hok
  obtain ⟨hread, htoken, -⟩ := findGrantByToken_spec hfound
  have hsame : g.issued = (token, t) :=
    inj_on_of_nodup_map hnodup (h.mem _ g hread) hissued htoken
  exact ⟨g, hfound, congrArg Prod.snd hsame⟩

end Tokens

theorem validFor_congr {store' : GrantStore}
    (h : relationship? store' r t = relationship? store r t) (token : String) (generation : ℚ) :
    ValidFor store' r t token generation ↔ ValidFor store r t token generation := by
  unfold ValidFor
  rw [h]
  refine and_congr_right ?_
  rintro ⟨g, hg⟩
  have hread := (relationship?_eq_some.mp hg).1
  have hread' := (relationship?_eq_some.mp (h.trans hg)).1
  rw [Accepts, validateLifecycleGrant, hread', ← hread]
  rfl

theorem issuedOver_append (store : GrantStore) (before ops : List GrantOp) :
    issuedOver store (before ++ ops)
      = issuedOver store before ++ issuedOver (run grantStep store before) ops := by
  induction before generalizing store with
  | nil => rfl
  | cons op before ih => rw [cons_append, issuedOver, issuedOver, ih, run_cons, append_assoc]

/-- Where tokens are distinct, operations on one relationship leave every other alone exactly when
each of them is harmless. -/
theorem relationshipLaw_iff (haddr : ∀ op ∈ ops, AddressedTo r t op)
    (hdistinct : DistinctTokens store (before ++ ops)) :
    RelationshipLaw r t store before ops
      ↔ Guarded grantStep (Harmless r t) (run grantStep store before) ops := by
  constructor
  · intro h
    rw [← kept_iff haddr, ← run_append]
    exact fun t' ht ↦ h.kept r t' (by simpa using ht)
  · intro h
    have hkept : ∀ r' t', (r', t') ≠ (r, t) →
        relationship? (run grantStep store (before ++ ops)) r' t'
          = relationship? (run grantStep store before) r' t' := by
      intro r' t' hne
      rw [run_append]
      by_cases hr : r' = r
      · subst hr
        exact (kept_iff haddr).mpr h t' (by simpa using hne)
      · exact kept_of_ne haddr hr
    have hafter := accounted_until hdistinct
    have hbefore : Accounted (issuedUntil store before) (run grantStep store before) :=
      accounted_until (by
        rw [DistinctTokens, issuedUntil, issuedOver_append, ← List.append_assoc,
          List.map_append] at hdistinct
        exact (List.nodup_append.mp hdistinct).1)
    exact
      { kept := hkept
        found := fun r' t' hne token ↦ by
          rw [hafter.foundFor_iff, hbefore.foundFor_iff, hkept r' t' hne]
        validated := fun r' t' hne ↦ validFor_congr (hkept r' t' hne)
        bound := fun token t' hissued method pathname scope ↦ hafter.bound hdistinct hissued }

/-! ## Two targets of one requester -/

theorem relationshipLaw_iff_laptop :
    RelationshipLaw "laptop" "studio" ∅ [.issue laptopRequest "t1" "09:00"] [.revoke "laptop" "10:00"]
      ↔ Guarded grantStep (Harmless "laptop" "studio")
          (run grantStep ∅ [.issue laptopRequest "t1" "09:00"]) [.revoke "laptop" "10:00"] :=
  relationshipLaw_iff (by decide +kernel) (by decide +kernel)

/-- Enabling control of a second target takes the grant for the first one away. -/
theorem not_relationshipLaw_secondTarget :
    ¬ ∀ (requester target : String) (store : GrantStore) (before ops : List GrantOp),
      (∀ op ∈ ops, AddressedTo requester target op) → DistinctTokens store (before ++ ops) →
        RelationshipLaw requester target store before ops := by
  intro h
  have hlaw := h "laptop" "desk" ∅ [.issue laptopRequest "t1" "09:00"]
    [.issue { laptopRequest with targetMachineId := "desk" } "t2" "10:00"]
    (by decide +kernel) (by decide +kernel)
  have hkept := hlaw.kept "laptop" "studio" (by decide)
  exact absurd hkept (by decide +kernel)

end Amicode.Control
