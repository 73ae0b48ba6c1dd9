import Amicode.Control.Grant
import Amicode.Foundation.StepMachine

/-!
# Revocation of lifecycle grants

A peer whose grant was revoked is to be shut out until it has acknowledged the revocation and been
readmitted with the target's approval, under a larger generation. The stored state goes round
active, revocation-pending, revoked, active; what each operation does to the grant of one peer is
`regular_turn`, and everything about runs follows from it.

The circle is cut short where a grant is issued for a peer that has not acknowledged yet: issuing
refuses a revoked grant but not a pending one, which it makes active again under the old generation.
Two more steps lose the generation: a write that is not legible, after which the peer counts as
unknown, and a readmission from a generation too large to be counted up.
-/

namespace Amicode.Control

open StepMachine

/-- One operation on the grants, with the token and the time it draws. -/
inductive GrantOp where
  | issue (req : LifecycleGrantRequest) (token issuedAt : String)
  | revoke (peerId revokedAt : String)
  | acknowledge (peerId : String)
  | readmitPeer (req : ReadmitRequest) (token issuedAt : String)
  | validate (peerId presentedToken : String) (presentedGeneration : ℚ)
deriving DecidableEq

/-- What is seen of the operations that go through. -/
inductive GrantEvent where
  | acknowledged (peerId : String)
  | readmitted (peerId : String) (targetApproved : Bool)
deriving DecidableEq

/-- The collection after an operation. -/
def grantStep (store : GrantStore) : GrantOp → GrantStore
  | .issue req token issuedAt => (issueLifecycleGrant store req token issuedAt).1
  | .revoke peerId revokedAt => (revokeLifecycleGrant store peerId revokedAt).1
  | .acknowledge peerId => (acknowledgeRevocation store peerId).1
  | .readmitPeer req token issuedAt => (readmitPeer store req token issuedAt).1
  | .validate .. => store

/-- What is seen of an operation. -/
def grantEvents (store : GrantStore) : GrantOp → List GrantEvent
  | .acknowledge peerId =>
    match (acknowledgeRevocation store peerId).2 with
    | .ok _ => [.acknowledged peerId]
    | .error _ => []
  | .readmitPeer req token issuedAt =>
    match (readmitPeer store req token issuedAt).2 with
    | .ok _ => [.readmitted req.peerId req.targetApproved]
    | .error _ => []
  | _ => []

/-- What is seen of a run. -/
def grantTrace : GrantStore → List GrantOp → List GrantEvent
  | _, [] => []
  | store, op :: ops => grantEvents store op ++ grantTrace (grantStep store op) ops

/-! ## The law -/

def Accepts (store : GrantStore) (peerId token : String) (generation : ℚ) : Prop :=
  validateLifecycleGrant store peerId token generation = .ok ()

def Revokes (store : GrantStore) (peerId revokedAt : String) : Prop :=
  ∃ generation, (revokeLifecycleGrant store peerId revokedAt).2 = .ok generation

def generation? (store : GrantStore) (peerId : String) : Option ℚ :=
  (readLifecycleGrant store peerId).map LifecycleGrant.generation

/-- The operation decreases no generation, and loses none. -/
def Grows (store : GrantStore) (op : GrantOp) : Prop :=
  ∀ p g, generation? store p = some g → ∃ g', generation? (grantStep store op) p = some g' ∧ g ≤ g'

/-- The operation, if it is a readmission that goes through, increases the peer's generation. -/
def Bumps (store : GrantStore) (op : GrantOp) : Prop :=
  ∀ p approved, .readmitted p approved ∈ grantEvents store op →
    ∃ g g', generation? store p = some g ∧ generation? (grantStep store op) p = some g' ∧ g < g'

/-- Revocation is final until readmission, over a run. -/
structure RevocationLaw (store : GrantStore) (ops : List GrantOp) : Prop where
  final : ∀ before after p t, ops = before ++ .revoke p t :: after →
    Revokes (run grantStep store before) p t →
    ∀ token g, Accepts (run grantStep store ops) p token g →
      [.acknowledged p, .readmitted p true].Sublist
        (grantTrace (run grantStep store (before ++ [.revoke p t])) after)
  bumps : Guarded grantStep Bumps store ops
  grows : Guarded grantStep Grows store ops
  spent : ∀ earlier before after p t, ops = earlier ++ before ++ .revoke p t :: after →
    Revokes (run grantStep store (earlier ++ before)) p t →
    ∀ token g, Accepts (run grantStep store earlier) p token g →
      ¬ Accepts (run grantStep store ops) p token g

/-! ## Regular operations -/

/-- What a write of an issued or readmitted grant takes to be legible, besides the identity key that
the peer's grant already has. -/
def Nonempty (targetMachineId targetIdentityKey token issuedAt : String) : Prop :=
  targetMachineId ≠ "" ∧ targetIdentityKey ≠ "" ∧ token ≠ "" ∧ issuedAt ≠ ""

instance (a b c d : String) : Decidable (Nonempty a b c d) :=
  inferInstanceAs (Decidable (_ ∧ _ ∧ _ ∧ _))

/-- Issuing over a grant of the peer, unless it is refused, finds it active and writes a legible one;
readmitting, unless it is refused, does so too, from a generation that can be counted up. -/
def Regular (store : GrantStore) : GrantOp → Prop
  | .issue req token issuedAt =>
    ∀ g ∈ readLifecycleGrant store req.requesterMachineId,
      g.requesterIdentityKey = req.requesterIdentityKey → g.state ≠ .revoked →
        g.state ≠ .revocationPending
          ∧ Nonempty req.targetMachineId req.targetIdentityKey token issuedAt
  | .readmitPeer req token issuedAt =>
    ∀ g ∈ readLifecycleGrant store req.peerId,
      g.state = .revoked → req.targetApproved = true →
        g.requesterIdentityKey = req.requesterIdentityKey →
          g.generation < 2 ^ 53
            ∧ Nonempty req.targetMachineId req.targetIdentityKey token issuedAt
  | _ => True

instance decidableRegular (store : GrantStore) : ∀ op, Decidable (Regular store op)
  | .issue req .. =>
    inferInstanceAs (Decidable (∀ g ∈ readLifecycleGrant store req.requesterMachineId, _ → _ → _))
  | .readmitPeer req .. =>
    inferInstanceAs (Decidable (∀ g ∈ readLifecycleGrant store req.peerId, _ → _ → _ → _))
  | .revoke .. => .isTrue trivial
  | .acknowledge .. => .isTrue trivial
  | .validate .. => .isTrue trivial

/-! ## What an operation does -/

inductive Writes (store : GrantStore) : GrantOp → LifecycleGrant → Prop
  | first {req token issuedAt} (hread : readLifecycleGrant store req.requesterMachineId = none) :
      Writes store (.issue req token issuedAt) (req.grant 1 token issuedAt)
  | again {req token issuedAt g} (hread : readLifecycleGrant store req.requesterMachineId = some g)
      (hkey : g.requesterIdentityKey = req.requesterIdentityKey) (hstate : g.state ≠ .revoked) :
      Writes store (.issue req token issuedAt) (req.grant g.generation token issuedAt)
  | revoke {p t g} (hread : readLifecycleGrant store p = some g) (hstate : g.state = .active) :
      Writes store (.revoke p t) { g with state := .revocationPending, revokedAt := some t }
  | acknowledge {p g} (hread : readLifecycleGrant store p = some g)
      (hstate : g.state = .revocationPending) :
      Writes store (.acknowledge p) { g with state := .revoked }
  | readmission {req token issuedAt g} (hread : readLifecycleGrant store req.peerId = some g)
      (hstate : g.state = .revoked) (happroved : req.targetApproved = true)
      (hkey : g.requesterIdentityKey = req.requesterIdentityKey) :
      Writes store (.readmitPeer req token issuedAt)
        (req.grant (JsNumber.addOne g.generation) token issuedAt)

/-- What is seen of the operation that writes a grant. -/
def writeEvents : GrantOp → List GrantEvent
  | .acknowledge p => [.acknowledged p]
  | .readmitPeer req _ _ => [.readmitted req.peerId true]
  | _ => []

theorem Writes.grantStep_eq {store : GrantStore} {op : GrantOp} {g : LifecycleGrant}
    (h : Writes store op g) : grantStep store op = writeGrant store g.requesterMachineId g
      ∧ grantEvents store op = writeEvents op := by
  cases h with
  | first hread =>
    simp only [grantStep, issueLifecycleGrant, hread]
    exact ⟨rfl, rfl⟩
  | again hread hkey hstate =>
    simp only [grantStep, issueLifecycleGrant, hread, hkey, ne_eq, not_true, if_false, hstate]
    exact ⟨rfl, rfl⟩
  | revoke hread hstate =>
    simp only [grantStep, revokeLifecycleGrant, hread, hstate, requesterMachineId_of_read hread]
    exact ⟨trivial, rfl⟩
  | acknowledge hread hstate =>
    simp only [grantStep, grantEvents, acknowledgeRevocation, hread, hstate, ne_eq, not_true,
      if_false, requesterMachineId_of_read hread]
    exact ⟨trivial, rfl⟩
  | readmission hread hstate happroved hkey =>
    simp only [grantStep, grantEvents, readmitPeer, hread, hstate, happroved, hkey, ne_eq,
      not_true, if_false, Bool.true_eq_false]
    exact ⟨rfl, by simp [writeEvents]⟩

theorem grantStep_cases (store : GrantStore) (op : GrantOp) :
    (grantStep store op = store ∧ grantEvents store op = []) ∨ ∃ g, Writes store op g := by
  cases op with
  | issue req token issuedAt =>
    cases hread : readLifecycleGrant store req.requesterMachineId with
    | none => exact .inr ⟨_, .first hread⟩
    | some g =>
      by_cases hkey : g.requesterIdentityKey = req.requesterIdentityKey
      · by_cases hstate : g.state = .revoked
        · exact .inl ⟨by simp [grantStep, issueLifecycleGrant, hread, hkey, hstate], rfl⟩
        · exact .inr ⟨_, .again hread hkey hstate⟩
      · exact .inl ⟨by simp [grantStep, issueLifecycleGrant, hread, hkey], rfl⟩
  | revoke p t =>
    cases hread : readLifecycleGrant store p with
    | none => exact .inl ⟨by simp [grantStep, revokeLifecycleGrant, hread], rfl⟩
    | some g =>
      cases hstate : g.state with
      | active => exact .inr ⟨_, .revoke hread hstate⟩
      | revocationPending =>
        exact .inl ⟨by simp [grantStep, revokeLifecycleGrant, hread, hstate], rfl⟩
      | revoked => exact .inl ⟨by simp [grantStep, revokeLifecycleGrant, hread, hstate], rfl⟩
  | acknowledge p =>
    cases hread : readLifecycleGrant store p with
    | none => exact .inl (by simp [grantStep, grantEvents, acknowledgeRevocation, hread])
    | some g =>
      by_cases hstate : g.state = .revocationPending
      · exact .inr ⟨_, .acknowledge hread hstate⟩
      · exact .inl (by simp [grantStep, grantEvents, acknowledgeRevocation, hread, hstate])
  | readmitPeer req token issuedAt =>
    cases hread : readLifecycleGrant store req.peerId with
    | none => exact .inl (by simp [grantStep, grantEvents, readmitPeer, hread])
    | some g =>
      by_cases hstate : g.state = .revoked
      · cases happroved : req.targetApproved with
        | false =>
          exact .inl (by simp [grantStep, grantEvents, readmitPeer, hread, hstate, happroved])
        | true =>
          by_cases hkey : g.requesterIdentityKey = req.requesterIdentityKey
          · exact .inr ⟨_, .readmission hread hstate happroved hkey⟩
          · exact .inl (by simp [grantStep, grantEvents, readmitPeer, hread, hstate, happroved, hkey])
      · exact .inl (by simp [grantStep, grantEvents, readmitPeer, hread, hstate])
  | validate p token g => exact .inl ⟨rfl, rfl⟩

/-- The ways the grant of a peer turns, with what is seen of it. -/
inductive Turn (p : String) (g g' : LifecycleGrant) (seen : List GrantEvent) : Prop
  | kept (hstate : g'.state = g.state) (hgeneration : g'.generation = g.generation)
  | revoked (hstate : g.state = .active) (hstate' : g'.state = .revocationPending)
      (hgeneration : g'.generation = g.generation)
  | acknowledged (hstate : g.state = .revocationPending) (hstate' : g'.state = .revoked)
      (hgeneration : g'.generation = g.generation) (hseen : seen = [.acknowledged p])
  | readmitted (hstate : g.state = .revoked) (hstate' : g'.state = .active)
      (hgeneration : g.generation < g'.generation) (hseen : seen = [.readmitted p true])

variable {store : GrantStore} {op : GrantOp} {ops : List GrantOp} {p : String}
  {g g' : LifecycleGrant}

theorem Turn.generation_le {seen : List GrantEvent} (h : Turn p g g' seen) :
    g.generation ≤ g'.generation := by
  cases h with
  | kept _ hgeneration => exact hgeneration.ge
  | revoked _ _ hgeneration => exact hgeneration.ge
  | acknowledged _ _ hgeneration => exact hgeneration.ge
  | readmitted _ _ hgeneration => exact hgeneration.le

theorem regular_turn (hreg : Regular store op) (h : readLifecycleGrant store p = some g) :
    ∃ g', readLifecycleGrant (grantStep store op) p = some g'
      ∧ Turn p g g' (grantEvents store op) := by
  rcases grantStep_cases store op with ⟨hkept, -⟩ | ⟨w, hw⟩
  · exact ⟨g, hkept.symm ▸ h, .kept rfl rfl⟩
  obtain ⟨hstep, hseen⟩ := hw.grantStep_eq
  rw [hstep, hseen]
  by_cases hp : w.requesterMachineId = p
  case neg => exact ⟨g, (read_writeGrant_of_ne w hp).trans h, .kept rfl rfl⟩
  subst hp
  obtain ⟨hlegible, -⟩ := readLifecycleGrant_spec h
  -- every write is legible, and what it says is the turn
  cases hw with
  | first hread => exact absurd h (by simp [LifecycleGrantRequest.grant, hread])
  | @again req token issuedAt g₀ hread hkey hstate =>
    obtain rfl : g₀ = g := Option.some.inj (hread.symm.trans h)
    obtain ⟨hpending, h₁, h₂, h₃, h₄⟩ := hreg g₀ hread hkey hstate
    refine ⟨_, read_writeGrant ⟨?_, h₁, h₂, hlegible.generation, h₃, h₄⟩, .kept ?_ rfl⟩
    · exact fun hempty ↦ hlegible.requesterIdentityKey (hkey.trans hempty)
    · cases hactive : g₀.state <;> simp_all [LifecycleGrant.normalized, LifecycleGrantRequest.grant]
  | @revoke p' t g₀ hread hstate =>
    obtain rfl : g₀ = g := Option.some.inj
      (hread.symm.trans (requesterMachineId_of_read hread ▸ h))
    exact ⟨_, read_writeGrant (hlegible.turned _ _), .revoked hstate rfl rfl⟩
  | @acknowledge p' g₀ hread hstate =>
    obtain rfl := requesterMachineId_of_read hread
    obtain rfl : g₀ = g := Option.some.inj (hread.symm.trans h)
    exact ⟨_, read_writeGrant (hlegible.turned _ _), .acknowledged hstate rfl rfl rfl⟩
  | @readmission req token issuedAt g₀ hread hstate happroved hkey =>
    obtain rfl : g₀ = g := Option.some.inj (hread.symm.trans h)
    obtain ⟨hlt, h₁, h₂, h₃, h₄⟩ := hreg g₀ hread hstate happroved hkey
    have hbump := JsNumber.lt_addOne hlegible.generation hlt
    refine ⟨_, read_writeGrant ⟨?_, h₁, h₂, hlegible.generation.trans hbump.le, h₃, h₄⟩,
      .readmitted hstate rfl hbump rfl⟩
    exact fun hempty ↦ hlegible.requesterIdentityKey (hkey.trans hempty)

/-! ## Runs -/

/-- What must still be seen of a peer before its grant is active. -/
def owed (p : String) : GrantState → List GrantEvent
  | .active => []
  | .revoked => [.readmitted p true]
  | .revocationPending => [.acknowledged p, .readmitted p true]

theorem Turn.owed_sublist {seen : List GrantEvent} (h : Turn p g g' seen) :
    (owed p g.state).Sublist (seen ++ owed p g'.state) := by
  cases h with
  | kept hstate _ =>
    rw [hstate]
    exact List.sublist_append_right _ _
  | revoked hstate _ _ =>
    rw [hstate]
    exact List.nil_sublist _
  | acknowledged hstate hstate' _ hseen =>
    rw [hstate, hstate', hseen]
    exact List.Sublist.refl _
  | readmitted hstate hstate' _ hseen =>
    rw [hstate, hstate', hseen]
    exact List.Sublist.refl _

theorem owed_sublist_trace (hreg : Guarded grantStep Regular store ops)
    (h : readLifecycleGrant store p = some g) {token : String} {generation : ℚ}
    (haccepts : Accepts (run grantStep store ops) p token generation) :
    (owed p g.state).Sublist (grantTrace store ops) := by
  induction ops generalizing store g with
  | nil =>
    obtain ⟨g', hread, hactive, -⟩ := validateLifecycleGrant_ok.mp haccepts
    obtain rfl : g' = g := Option.some.inj (hread.symm.trans h)
    rw [hactive]
    exact List.nil_sublist _
  | cons op ops ih =>
    obtain ⟨g', hread, hturn⟩ := regular_turn hreg.1 h
    exact hturn.owed_sublist.trans ((ih hreg.2 hread haccepts).append_left _)

/-- The pair is behind the peer's grant: its generation is past, or is the grant's while the grant
is not active. -/
def Spent (p : String) (generation : ℚ) (store : GrantStore) : Prop :=
  ∃ g, readLifecycleGrant store p = some g ∧ generation ≤ g.generation
    ∧ (g.state = .active → generation < g.generation)

theorem Spent.step {generation : ℚ} (hreg : Regular store op) (h : Spent p generation store) :
    Spent p generation (grantStep store op) := by
  obtain ⟨g, hread, hle, hlt⟩ := h
  obtain ⟨g', hread', hturn⟩ := regular_turn hreg hread
  refine ⟨g', hread', hle.trans hturn.generation_le, fun hactive ↦ ?_⟩
  cases hturn with
  | kept hstate hgeneration => exact hgeneration ▸ hlt (hstate ▸ hactive)
  | revoked _ hstate' _ => simp [hactive] at hstate'
  | acknowledged _ hstate' _ _ => simp [hactive] at hstate'
  | readmitted _ _ hgeneration _ => exact hle.trans_lt hgeneration

theorem Spent.not_accepts {generation : ℚ} (h : Spent p generation store) (token : String) :
    ¬ Accepts store p token generation := by
  intro haccepts
  obtain ⟨g, hread, -, hlt⟩ := h
  obtain ⟨g', hread', hactive, hgeneration, -⟩ := validateLifecycleGrant_ok.mp haccepts
  obtain rfl : g' = g := Option.some.inj (hread'.symm.trans hread)
  exact (hlt hactive).ne hgeneration.symm

theorem Revokes.read {t : String} (h : Revokes store p t) :
    ∃ g g', readLifecycleGrant store p = some g
      ∧ readLifecycleGrant (grantStep store (.revoke p t)) p = some g'
      ∧ g'.state = .revocationPending ∧ g'.generation = g.generation := by
  obtain ⟨generation, hok⟩ := h
  cases hread : readLifecycleGrant store p with
  | none => simp [revokeLifecycleGrant, hread] at hok
  | some g =>
    cases hstate : g.state with
    | revoked => simp [revokeLifecycleGrant, hread, hstate] at hok
    | revocationPending =>
      exact ⟨g, g, rfl, by simp [grantStep, revokeLifecycleGrant, hread, hstate], hstate, rfl⟩
    | active =>
      obtain rfl := requesterMachineId_of_read hread
      have hstep := (Writes.revoke (t := t) hread hstate).grantStep_eq.1
      rw [hstep]
      exact ⟨g, _, rfl, read_writeGrant ((readLifecycleGrant_spec hread).1.turned _ _), rfl, rfl⟩

/-- Over a run, the grant of a peer stays legible and its generation does not decrease. -/
theorem grown_of_regular (hreg : Guarded grantStep Regular store ops)
    (h : readLifecycleGrant store p = some g) :
    ∃ g', readLifecycleGrant (run grantStep store ops) p = some g'
      ∧ g.generation ≤ g'.generation := by
  induction ops generalizing store g with
  | nil => exact ⟨g, h, le_rfl⟩
  | cons op ops ih =>
    obtain ⟨g₁, hread, hturn⟩ := regular_turn hreg.1 h
    obtain ⟨g₂, hread', hle⟩ := ih hreg.2 hread
    exact ⟨g₂, hread', hturn.generation_le.trans hle⟩

theorem grows_of_regular (hreg : Regular store op) : Grows store op := by
  intro p generation h
  obtain ⟨g, hread, rfl⟩ := Option.map_eq_some_iff.mp h
  obtain ⟨g', hread', hturn⟩ := regular_turn hreg hread
  exact ⟨g'.generation, by rw [generation?, hread']; rfl, hturn.generation_le⟩

theorem bumps_of_regular (hreg : Regular store op) : Bumps store op := by
  intro p approved hmem
  rcases grantStep_cases store op with ⟨-, hnone⟩ | ⟨w, hw⟩
  · simp [hnone] at hmem
  rw [hw.grantStep_eq.2] at hmem
  cases hw with
  | @readmission req token issuedAt g hread hstate happroved hkey =>
    obtain ⟨rfl, -⟩ : p = req.peerId ∧ approved = true := by simpa [writeEvents] using hmem
    obtain ⟨g', hread', hturn⟩ := regular_turn hreg hread
    refine ⟨g.generation, g'.generation, by rw [generation?, hread]; rfl,
      by rw [generation?, hread']; rfl, ?_⟩
    have hactive : g'.state = .active := by
      rw [(Writes.readmission hread hstate happroved hkey).grantStep_eq.1] at hread'
      rw [eq_of_read_writeGrant hread']
      rfl
    cases hturn with
    | kept hstate' _ => simp [hactive, hstate] at hstate'
    | revoked hstate' _ _ => simp [hstate] at hstate'
    | acknowledged hstate' _ _ _ => simp [hstate] at hstate'
    | readmitted _ _ hgeneration _ => exact hgeneration
  | first | again | revoke | acknowledge => simp [writeEvents] at hmem

/-- Where every operation is regular, revocation is final until readmission. -/
theorem revocationLaw_of_regular (hreg : Guarded grantStep Regular store ops) :
    RevocationLaw store ops where
  final := by
    rintro before after p t rfl hrevokes token generation haccepts
    obtain ⟨-, hrest⟩ := (guarded_append store before _).mp hreg
    obtain ⟨g, g', -, hread, hpending, -⟩ := hrevokes.read
    rw [run_append, run_cons] at haccepts
    have howed := owed_sublist_trace hrest.2 hread haccepts
    rw [hpending] at howed
    rwa [run_concat]
  bumps := hreg.imp fun _ _ ↦ bumps_of_regular
  grows := hreg.imp fun _ _ ↦ grows_of_regular
  spent := by
    rintro earlier before after p t rfl hrevokes token generation haccepts
    obtain ⟨hbefore, hrest⟩ := (guarded_append store (earlier ++ before) _).mp hreg
    obtain ⟨g, g', hread, hread', hpending, hgeneration⟩ := hrevokes.read
    -- up to the revocation, the generation has not decreased
    have hle : generation ≤ g.generation := by
      obtain ⟨g₀, hread₀, -, rfl, -⟩ := validateLifecycleGrant_ok.mp haccepts
      obtain ⟨g₁, hread₁, hle⟩ := grown_of_regular ((guarded_append ..).mp hbefore).2 hread₀
      rw [← run_append] at hread₁
      obtain rfl : g₁ = g := Option.some.inj (hread₁.symm.trans hread)
      exact hle
    -- from there on, the pair is spent
    have hspent : Spent p generation
        (grantStep (run grantStep store (earlier ++ before)) (.revoke p t)) :=
      ⟨g', hread', hgeneration ▸ hle, fun hactive ↦ by simp [hactive] at hpending⟩
    rw [run_append, run_cons]
    exact (invariant_run_of_guarded (fun _ _ h hr ↦ Spent.step hr h) hspent hrest.2).not_accepts token

/-! ## Two runs -/

/-- A request of one fixed peer for a control grant. -/
def laptopRequest : LifecycleGrantRequest :=
  ⟨"laptop", "laptop-key", "studio", "studio-key", .control⟩

/-- The readmission of the same peer, with approval. -/
def laptopReadmission : ReadmitRequest :=
  ⟨"laptop", true, .control, "laptop-key", "studio", "studio-key"⟩

/-- A whole turn of the circle. -/
def laptopRound : List GrantOp :=
  [.issue laptopRequest "t1" "09:00", .revoke "laptop" "10:00", .acknowledge "laptop",
    .readmitPeer laptopReadmission "t2" "11:00", .validate "laptop" "t2" 2]

theorem revocationLaw_laptopRound :
    Guarded grantStep Regular ∅ laptopRound ∧ RevocationLaw ∅ laptopRound :=
  have h : Guarded grantStep Regular ∅ laptopRound := by decide +kernel
  ⟨h, revocationLaw_of_regular h⟩

/-- A grant issued again before the revocation is acknowledged is accepted, under the generation that
was revoked. -/
theorem not_revocationLaw_reissued :
    ¬ ∀ (store : GrantStore) (ops : List GrantOp), RevocationLaw store ops := by
  intro h
  have hfinal := (h ∅ [.issue laptopRequest "t1" "09:00", .revoke "laptop" "10:00",
    .issue laptopRequest "t2" "11:00"]).final [.issue laptopRequest "t1" "09:00"]
    [.issue laptopRequest "t2" "11:00"] "laptop" "10:00" rfl
    ⟨1, by decide +kernel⟩ "t2" 1 (by unfold Accepts; decide +kernel)
  exact absurd hfinal (by decide +kernel)

end Amicode.Control
