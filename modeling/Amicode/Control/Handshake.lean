import Amicode.Control.Request
import Amicode.Foundation.StepMachine

/-!
# The control-request handshake

Runs of submitting, approving and denying, from empty stores, with a log of what came of each. The
handshake is fail-closed if an active control grant always goes back to an approval, the last decision
there was, of a request that was pending and that the same identity had submitted; if nothing is
approved after a denial without a new submission; and if no grant outlives a denial.

Approving looks at the status of the request only to answer an approved one again, and denying does
not look at the grant. The law holds in the runs where an approval that issues a grant finds the
request pending, a denial finds no active grant of the pair, and the requesters can be read back from
their keys (`Orderly`).
-/

namespace Amicode.Control

open StepMachine

/-- One operation, with what it draws. -/
inductive HandshakeOp where
  | submit (req : ControlRequest) (now : String)
  | approve (requester target token issuedAt now : String)
  | deny (requester target now : String)
deriving DecidableEq

/-- What comes of an operation. -/
inductive HandshakeEvent where
  /-- A new pending request is stored. -/
  | submitted (requester target identityKey : String)
  /-- A grant is issued, for a request with the status it was found in. -/
  | approved (requester target identityKey : String) (was : ControlRequestStatus)
  /-- The grant of an approved request is answered again. -/
  | confirmed (requester target : String)
  | denied (requester target : String)
deriving DecidableEq

/-- Is the event the storing of a request of the pair? -/
def HandshakeEvent.submits (requester target : String) : HandshakeEvent → Bool
  | .submitted r t _ => r = requester && t = target
  | _ => false

/-- Is the event a decision about a request of the pair? -/
def HandshakeEvent.decides (requester target : String) : HandshakeEvent → Bool
  | .approved r t .. => r = requester && t = target
  | .denied r t => r = requester && t = target
  | _ => false

/-- Does the event open or close a request of the pair? -/
def HandshakeEvent.files (requester target : String) : HandshakeEvent → Bool
  | .submitted r t _ => r = requester && t = target
  | .denied r t => r = requester && t = target
  | _ => false

def HandshakeEvent.pair : HandshakeEvent → String × String
  | .submitted r t _ => (r, t)
  | .approved r t .. => (r, t)
  | .confirmed r t => (r, t)
  | .denied r t => (r, t)

def handshakeStores (stores : ControlStores) : HandshakeOp → ControlStores
  | .submit req now => (submitControlRequest stores req now).1
  | .approve r t token issuedAt now => (approveControlRequest stores r t token issuedAt now).1
  | .deny r t now => (denyControlRequest stores r t now).1

/-- What comes of an operation. -/
def handshakeEvents (stores : ControlStores) : HandshakeOp → List HandshakeEvent
  | .submit req now =>
    match (submitControlRequest stores req now).2 with
    | .alreadyGranted => []
    | .pending =>
      if ∃ existing ∈ readControlRequest stores.requests req.requesterMachineId req.targetMachineId,
          existing.status = .pending then []
      else [.submitted req.requesterMachineId req.targetMachineId req.requesterIdentityKey]
  | .approve r t token issuedAt now =>
    match readControlRequest stores.requests r t with
    | none => []
    | some existing =>
      match (approveControlRequest stores r t token issuedAt now).2 with
      | .ok ⟨_, true⟩ => [.confirmed r t]
      | .ok ⟨_, false⟩ => [.approved r t existing.requesterIdentityKey existing.status]
      | .error _ => []
  | .deny r t now =>
    match (denyControlRequest stores r t now).2 with
    | .ok _ => [.denied r t]
    | .error _ => []

/-- The stores, and what has happened. -/
structure Handshake where
  stores : ControlStores
  log : List HandshakeEvent

/-- Nothing is stored and nothing has happened. -/
def Handshake.start : Handshake := ⟨⟨∅, ∅⟩, []⟩

def Handshake.step (h : Handshake) (op : HandshakeOp) : Handshake :=
  ⟨handshakeStores h.stores op, h.log ++ handshakeEvents h.stores op⟩

/-! ## The law -/

/-- After these events, the event is in order: a grant is issued for the request that was submitted
last, and nothing is approved that was denied last. -/
def Justified (before : List HandshakeEvent) : HandshakeEvent → Prop
  | .approved r t key was =>
    (was = .pending →
        latest (HandshakeEvent.submits r t) before = some (.submitted r t key))
      ∧ latest (HandshakeEvent.files r t) before ≠ some (.denied r t)
  | .confirmed r t => latest (HandshakeEvent.files r t) before ≠ some (.denied r t)
  | _ => True

/-- The handshake is fail-closed. -/
structure HandshakeLaw (h : Handshake) : Prop where
  granted : ∀ r g, readLifecycleGrant h.stores.grants r = some g → g.scope = .control →
    g.state = .active → latest (HandshakeEvent.decides r g.targetMachineId) h.log
      = some (.approved r g.targetMachineId g.requesterIdentityKey .pending)
  justified : ∀ before event after, h.log = before ++ event :: after → Justified before event
  denied : ∀ r t request, readControlRequest h.stores.requests r t = some request →
    request.status = .denied → ∀ g, readLifecycleGrant h.stores.grants r = some g →
      g.targetMachineId = t → g.scope = .control → g.state ≠ .active

/-- The operation does not reach the gaps of the handshake. -/
def Orderly (h : Handshake) : HandshakeOp → Prop
  | .submit req _ => Separated req.requesterMachineId
  | .approve r t .. =>
    Separated r ∧ ∀ request ∈ readControlRequest h.stores.requests r t, request.status ≠ .pending →
      (request.status = .approved ∧ (ownControlGrant? h.stores.grants r t).isSome)
        ∨ ∃ g ∈ readLifecycleGrant h.stores.grants r,
          g.requesterIdentityKey ≠ request.requesterIdentityKey ∨ g.state = .revoked
  | .deny r t _ =>
    Separated r ∧ ∀ request ∈ readControlRequest h.stores.requests r t, request.status ≠ .denied →
      ∀ g ∈ readLifecycleGrant h.stores.grants r,
        ¬ (g.targetMachineId = t ∧ g.scope = .control ∧ g.state = .active)

instance decidableOrderly (h : Handshake) : ∀ op, Decidable (Orderly h op)
  | .submit .. => inferInstanceAs (Decidable (Separated _))
  | .approve r t .. =>
    inferInstanceAs (Decidable (Separated r
      ∧ ∀ request ∈ readControlRequest h.stores.requests r t, _ → _ ∨
        ∃ g ∈ readLifecycleGrant h.stores.grants r, _ ∨ _))
  | .deny r t _ =>
    inferInstanceAs (Decidable (Separated r
      ∧ ∀ request ∈ readControlRequest h.stores.requests r t, _ →
        ∀ g ∈ readLifecycleGrant h.stores.grants r, ¬ (_ ∧ _ ∧ _)))

/-! ## What an operation does -/

/-- What an operation does to the stores, and what comes of it. -/
inductive Act (stores : ControlStores) : HandshakeOp → ControlStores → List HandshakeEvent → Prop
  | nothing (op) : Act stores op stores []
  | submitted (req now) : Act stores (.submit req now)
      { stores with requests := writeRequest stores.requests (req.record now) }
      [.submitted req.requesterMachineId req.targetMachineId req.requesterIdentityKey]
  | confirmed {r t request} (token issuedAt now)
      (hread : readControlRequest stores.requests r t = some request)
      (hstatus : request.status = .approved) :
      Act stores (.approve r t token issuedAt now) stores [.confirmed r t]
  | approved {r t request token issuedAt grants g} (now)
      (hread : readControlRequest stores.requests r t = some request)
      (hgone : request.status = .approved → ownControlGrant? stores.grants r t = none)
      (hissue : issueLifecycleGrant stores.grants (request.grantRequest r t) token issuedAt
        = (grants, .ok g)) :
      Act stores (.approve r t token issuedAt now)
        ⟨writeRequest stores.requests (request.resolved .approved now), grants⟩
        [.approved r t request.requesterIdentityKey request.status]
  | deniedAgain {r t request} (now)
      (hread : readControlRequest stores.requests r t = some request)
      (hstatus : request.status = .denied) : Act stores (.deny r t now) stores [.denied r t]
  | denied {r t request} (now) (hread : readControlRequest stores.requests r t = some request)
      (hstatus : request.status ≠ .denied) :
      Act stores (.deny r t now)
        { stores with requests := writeRequest stores.requests (request.resolved .denied now) }
        [.denied r t]

theorem act_mint {stores : ControlStores} {r t : String} {request : ControlRequestRecord}
    (token issuedAt now : String) (hread : readControlRequest stores.requests r t = some request)
    (hgone : request.status = .approved → ownControlGrant? stores.grants r t = none) :
    Act stores (.approve r t token issuedAt now)
      (mintControlGrant stores request r t token issuedAt now).1
      (match (mintControlGrant stores request r t token issuedAt now).2 with
        | .ok ⟨_, true⟩ => [.confirmed r t]
        | .ok ⟨_, false⟩ => [.approved r t request.requesterIdentityKey request.status]
        | .error _ => []) := by
  unfold mintControlGrant
  split
  · exact .nothing _
  · exact .approved now hread hgone ‹_›

theorem handshake_act (stores : ControlStores) (op : HandshakeOp) :
    Act stores op (handshakeStores stores op) (handshakeEvents stores op) := by
  cases op with
  | submit req now =>
    by_cases hgranted :
        (ownControlGrant? stores.grants req.requesterMachineId req.targetMachineId).isSome
    · simpa [handshakeStores, handshakeEvents, submitControlRequest, hgranted] using .nothing _
    by_cases hpending : ∃ existing ∈ readControlRequest stores.requests req.requesterMachineId
        req.targetMachineId, existing.status = .pending
    · simp only [handshakeStores, handshakeEvents, submitControlRequest, hgranted, hpending,
        if_true]
      exact .nothing _
    · simp only [handshakeStores, handshakeEvents, submitControlRequest, hgranted, hpending,
        if_false]
      exact .submitted req now
  | approve r t token issuedAt now =>
    cases hread : readControlRequest stores.requests r t with
    | none =>
      simpa [handshakeStores, handshakeEvents, approveControlRequest, hread] using .nothing _
    | some request =>
      by_cases hstatus : request.status = .approved
      · cases hown : ownControlGrant? stores.grants r t with
        | some g =>
          simpa [handshakeStores, handshakeEvents, approveControlRequest, hread, hstatus, hown]
            using .confirmed token issuedAt now hread hstatus
        | none =>
          have hmint := act_mint token issuedAt now hread fun _ ↦ hown
          simpa only [handshakeStores, handshakeEvents, approveControlRequest, hread, hstatus, hown,
            if_true] using hmint
      · have hmint := act_mint token issuedAt now hread fun h ↦ absurd h hstatus
        simpa only [handshakeStores, handshakeEvents, approveControlRequest, hread, hstatus,
          if_false] using hmint
  | deny r t now =>
    cases hread : readControlRequest stores.requests r t with
    | none => simpa [handshakeStores, handshakeEvents, denyControlRequest, hread] using .nothing _
    | some request =>
      by_cases hstatus : request.status = .denied
      · simpa [handshakeStores, handshakeEvents, denyControlRequest, hread, hstatus]
          using .deniedAgain now hread hstatus
      · simpa [handshakeStores, handshakeEvents, denyControlRequest, hread, hstatus]
          using .denied now hread hstatus

/-! ## The invariant -/

/-- What the log says of a stored request of a pair. -/
structure Filed (log : List HandshakeEvent) (r t : String) (request : ControlRequestRecord) :
    Prop where
  target : request.targetMachineId = t
  submitted : latest (HandshakeEvent.submits r t) log
    = some (.submitted r t request.requesterIdentityKey)
  opened : request.status ≠ .denied →
    latest (HandshakeEvent.files r t) log ≠ some (.denied r t)
  closed : request.status = .denied →
    latest (HandshakeEvent.decides r t) log = some (.denied r t)

structure Granted (log : List HandshakeEvent) (r : String) (g : LifecycleGrant) : Prop where
  separated : Separated r
  approved : g.scope = .control → g.state = .active →
    latest (HandshakeEvent.decides r g.targetMachineId) log
      = some (.approved r g.targetMachineId g.requesterIdentityKey .pending)

structure Handshake.Sound (h : Handshake) : Prop where
  filed : ∀ r t request, Separated r → readControlRequest h.stores.requests r t = some request →
    Filed h.log r t request
  granted : ∀ r g, readLifecycleGrant h.stores.grants r = some g → Granted h.log r g
  justified : ∀ before event after, h.log = before ++ event :: after → Justified before event

section Events

variable {log : List HandshakeEvent} {event : HandshakeEvent} {r t : String}
  {request : ControlRequestRecord} {g : LifecycleGrant}

theorem HandshakeEvent.other (h : event.pair ≠ (r, t)) :
    event.submits r t = false ∧ event.decides r t = false ∧ event.files r t = false := by
  cases event <;> simp_all [pair, submits, decides, files]

theorem Filed.other (h : Filed log r t request) (hevent : event.pair ≠ (r, t)) :
    Filed (log ++ [event]) r t request := by
  obtain ⟨hsubmits, hdecides, hfiles⟩ := HandshakeEvent.other hevent
  constructor
  · exact h.target
  · rw [latest_concat_of_neg log hsubmits, h.submitted]
  · rw [latest_concat_of_neg log hfiles]
    exact h.opened
  · rw [latest_concat_of_neg log hdecides]
    exact h.closed

theorem Granted.other (h : Granted log r g) (hevent : event.decides r g.targetMachineId = false) :
    Granted (log ++ [event]) r g := by
  constructor
  · exact h.separated
  · rw [latest_concat_of_neg log hevent]
    exact h.approved

theorem justified_concat
    (h : ∀ before event after, log = before ++ event :: after → Justified before event)
    (hevent : Justified log event) :
    ∀ before event' after, log ++ [event] = before ++ event' :: after →
      Justified before event' := by
  intro before event' after heq
  rcases List.eq_nil_or_concat after with rfl | ⟨after, last, rfl⟩
  · obtain ⟨rfl, hlast⟩ := List.append_inj' heq rfl
    obtain rfl := List.singleton_inj.mp hlast
    exact hevent
  · have heq' : log ++ [event] = (before ++ event' :: after) ++ [last] := by simpa using heq
    exact h _ _ _ (List.append_inj' heq' rfl).1

theorem filed_write {requests : RequestStore}
    (h : ∀ r t request, Separated r → readControlRequest requests r t = some request →
      Filed log r t request)
    (hseparated : Separated request.requesterMachineId)
    (hpair : event.pair = (request.requesterMachineId, request.targetMachineId))
    (hnew : Filed (log ++ [event]) request.requesterMachineId request.targetMachineId request) :
    ∀ r t request', Separated r →
      readControlRequest (writeRequest requests request) r t = some request' →
        Filed (log ++ [event]) r t request' := by
  intro r t request' hr hread
  by_cases hsame : (request.requesterMachineId, request.targetMachineId) = (r, t)
  · obtain ⟨rfl, rfl⟩ := Prod.mk.inj hsame
    obtain rfl := eq_of_read_writeRequest hseparated hread
    exact ⟨hnew.target, hnew.submitted, hnew.opened, hnew.closed⟩
  · rw [read_writeRequest_of_ne hseparated hr hsame] at hread
    exact (h r t request' hr hread).other (hpair ▸ hsame)

theorem filed_keep {requests : RequestStore}
    (h : ∀ r t request, Separated r → readControlRequest requests r t = some request →
      Filed log r t request)
    (hread : readControlRequest requests event.pair.1 event.pair.2 = some request)
    (hnew : Filed (log ++ [event]) event.pair.1 event.pair.2 request) :
    ∀ r t request', Separated r → readControlRequest requests r t = some request' →
      Filed (log ++ [event]) r t request' := by
  intro r t request' hr hread'
  by_cases hsame : event.pair = (r, t)
  · rw [hsame] at hread hnew
    obtain rfl := Option.some.inj (hread.symm.trans hread')
    exact hnew
  · exact (h r t request' hr hread').other hsame

end Events

/-! ## Steps -/

section Steps

variable {stores : ControlStores} {log : List HandshakeEvent} {r t : String}
  {request : ControlRequestRecord}

section

variable (hs : Handshake.Sound ⟨stores, log⟩)

include hs

theorem Handshake.Sound.pair_eq (hr : Separated r)
    (hread : readControlRequest stores.requests r t = some request) :
    request.requesterMachineId = r ∧ request.targetMachineId = t :=
  ⟨requesterMachineId_of_readControlRequest hr hread, (hs.filed r t request hr hread).target⟩

theorem sound_submitted (req : ControlRequest) (now : String) (hr : Separated req.requesterMachineId) :
    Handshake.Sound ⟨{ stores with requests := writeRequest stores.requests (req.record now) },
      log ++ [.submitted req.requesterMachineId req.targetMachineId req.requesterIdentityKey]⟩ where
  filed := by
    refine filed_write hs.filed hr rfl ⟨rfl, ?_, fun _ ↦ ?_, ?_⟩
    · exact latest_concat_of_pos log (by simp [HandshakeEvent.submits, ControlRequest.record])
    · rw [latest_concat_of_pos log (by simp [HandshakeEvent.files, ControlRequest.record])]
      simp
    · rintro ⟨⟩
  granted := fun r g hread ↦ (hs.granted r g hread).other rfl
  justified := justified_concat hs.justified trivial

theorem sound_confirmed (hr : Separated r) (hread : readControlRequest stores.requests r t = some request)
    (hstatus : request.status = .approved) : Handshake.Sound ⟨stores, log ++ [.confirmed r t]⟩ where
  filed := by
    obtain ⟨htarget, hsubmitted, hopened, hclosed⟩ := hs.filed r t request hr hread
    refine filed_keep hs.filed hread ⟨htarget, ?_, ?_, ?_⟩
    · rwa [latest_concat_of_neg log rfl]
    · rwa [latest_concat_of_neg log rfl]
    · rwa [latest_concat_of_neg log rfl]
  granted := fun r g hread ↦ (hs.granted r g hread).other rfl
  justified := justified_concat hs.justified
    ((hs.filed r t request hr hread).opened (by simp [hstatus]))

theorem granted_denied (hnone : ∀ g, readLifecycleGrant stores.grants r = some g →
      ¬ (g.targetMachineId = t ∧ g.scope = .control ∧ g.state = .active)) :
    ∀ r' g, readLifecycleGrant stores.grants r' = some g → Granted (log ++ [.denied r t]) r' g := by
  intro r' g hread
  by_cases hpair : (r, t) = (r', g.targetMachineId)
  · obtain ⟨rfl, rfl⟩ := Prod.mk.inj hpair
    exact ⟨(hs.granted r g hread).separated,
      fun hscope hstate ↦ absurd ⟨rfl, hscope, hstate⟩ (hnone g hread)⟩
  · exact (hs.granted r' g hread).other (HandshakeEvent.other (by exact hpair)).2.1

theorem sound_deniedAgain (hr : Separated r) (hread : readControlRequest stores.requests r t = some request)
    (hstatus : request.status = .denied) : Handshake.Sound ⟨stores, log ++ [.denied r t]⟩ where
  filed := by
    obtain ⟨htarget, hsubmitted, -, -⟩ := hs.filed r t request hr hread
    refine filed_keep hs.filed hread ⟨htarget, ?_, fun h ↦ absurd hstatus h, fun _ ↦ ?_⟩
    · rwa [latest_concat_of_neg log rfl]
    · exact latest_concat_of_pos log (by simp [HandshakeEvent.decides, HandshakeEvent.pair])
  granted := granted_denied hs fun g hg ↦ by
    -- the last decision was a denial already
    rintro ⟨rfl, hscope, hstate⟩
    have hclosed := (hs.filed r _ request hr hread).closed hstatus
    have happroved := (hs.granted r g hg).approved hscope hstate
    simp [hclosed] at happroved
  justified := justified_concat hs.justified trivial

theorem sound_denied (now : String) (hr : Separated r)
    (hread : readControlRequest stores.requests r t = some request)
    (hnone : ∀ g, readLifecycleGrant stores.grants r = some g →
      ¬ (g.targetMachineId = t ∧ g.scope = .control ∧ g.state = .active)) : Handshake.Sound
      ⟨{ stores with requests := writeRequest stores.requests (request.resolved .denied now) },
        log ++ [.denied r t]⟩ where
  filed := by
    obtain ⟨rfl, rfl⟩ := hs.pair_eq hr hread
    obtain ⟨-, hsubmitted, -, -⟩ := hs.filed _ _ request hr hread
    refine filed_write hs.filed hr rfl ⟨rfl, ?_, fun h ↦ absurd rfl h, fun _ ↦ ?_⟩
    · rw [latest_concat_of_neg log rfl]
      exact hsubmitted
    · exact latest_concat_of_pos log
        (by simp [HandshakeEvent.decides, ControlRequestRecord.resolved])
  granted := fun r' g hg ↦ granted_denied hs hnone r' g hg
  justified := justified_concat hs.justified trivial

theorem sound_approved {token issuedAt : String}
    {grants : GrantStore} {g : LifecycleGrant} (now : String) (hr : Separated r)
    (hread : readControlRequest stores.requests r t = some request) (hstatus : request.status = .pending)
    (hissue : issueLifecycleGrant stores.grants (request.grantRequest r t) token issuedAt = (grants, .ok g)) :
    Handshake.Sound ⟨⟨writeRequest stores.requests (request.resolved .approved now), grants⟩,
        log ++ [.approved r t request.requesterIdentityKey request.status]⟩ where
  filed := by
    obtain ⟨rfl, rfl⟩ := hs.pair_eq hr hread
    obtain ⟨-, hsubmitted, hopened, -⟩ := hs.filed _ _ request hr hread
    refine filed_write hs.filed hr rfl ⟨rfl, ?_, fun _ ↦ ?_, ?_⟩
    · rw [latest_concat_of_neg log rfl]
      exact hsubmitted
    · rw [latest_concat_of_neg log rfl]
      exact hopened (by simp [hstatus])
    · rintro ⟨⟩
  granted := by
    obtain ⟨-, ⟨generation, rfl⟩, rfl⟩ := issueLifecycleGrant_ok hissue
    intro r' g' hg'
    by_cases hsame : r = r'
    · subst hsame
      rw [eq_of_read_writeGrant hg']
      refine ⟨hr, fun _ _ ↦ ?_⟩
      rw [hstatus]
      exact latest_concat_of_pos log (by
        simp [HandshakeEvent.decides, LifecycleGrant.normalized, LifecycleGrantRequest.grant,
          ControlRequestRecord.grantRequest])
    · refine (hs.granted r' g' ?_).other ?_
      · rwa [read_writeGrant_of_ne _ (by exact hsame)] at hg'
      · exact (HandshakeEvent.other (by simp [HandshakeEvent.pair, hsame])).2.1
  justified := by
    obtain ⟨-, hsubmitted, hopened, -⟩ := hs.filed r t request hr hread
    exact justified_concat hs.justified ⟨fun _ ↦ hsubmitted, hopened (by simp [hstatus])⟩

end

end Steps

theorem Handshake.Sound.step {h : Handshake} {op : HandshakeOp} (hs : h.Sound)
    (horderly : Orderly h op) : (h.step op).Sound := by
  obtain ⟨stores, log⟩ := h
  have hact := handshake_act stores op
  simp only [Handshake.step]
  revert hact
  generalize handshakeStores stores op = stores'
  generalize handshakeEvents stores op = events
  intro hact
  cases hact with
  | nothing => simpa using hs
  | submitted req now => exact sound_submitted hs req now horderly
  | confirmed token issuedAt now hread hstatus => exact sound_confirmed hs horderly.1 hread hstatus
  | @approved r t request token issuedAt grants g now hread hgone hissue =>
    -- the grant was issued, so that the request was neither denied nor approved
    refine sound_approved hs now horderly.1 hread ?_ hissue
    by_contra hstatus
    rcases horderly.2 request hread hstatus with ⟨happroved, hown⟩ | ⟨g₀, hg₀, hrefused⟩
    · simp [hgone happroved] at hown
    · obtain ⟨hkey, hstate⟩ := (issueLifecycleGrant_ok hissue).1 g₀ hg₀
      exact hrefused.elim (fun hne ↦ hne hkey) hstate
  | deniedAgain now hread hstatus => exact sound_deniedAgain hs horderly.1 hread hstatus
  | @denied r t request now hread hstatus =>
    exact sound_denied hs now horderly.1 hread (horderly.2 request hread hstatus)

theorem Handshake.Sound.law {h : Handshake} (hs : h.Sound) : HandshakeLaw h where
  granted := fun r g hread ↦ (hs.granted r g hread).approved
  justified := hs.justified
  denied := by
    rintro r t request hread hstatus g hg rfl hscope hstate
    have hgranted := hs.granted r g hg
    have hclosed := (hs.filed r _ request hgranted.separated hread).closed hstatus
    have happroved := hgranted.approved hscope hstate
    simp [hclosed] at happroved

theorem sound_start : Handshake.start.Sound where
  filed := by
    rintro r t request - hread
    cases hread
  granted := by
    rintro r g hread
    cases hread
  justified := by
    intro before event after h
    simp [Handshake.start] at h

/-- In runs that stay clear of its gaps, the handshake is fail-closed. -/
theorem handshakeLaw_of_orderly {ops : List HandshakeOp}
    (h : Guarded Handshake.step Orderly Handshake.start ops) :
    HandshakeLaw (run Handshake.step Handshake.start ops) :=
  (invariant_run_of_guarded (fun _ _ hs ho ↦ hs.step ho) sound_start h).law

/-! ## Two runs -/

/-- A request of one fixed peer. -/
def laptopControlRequest : ControlRequest := ⟨"laptop", "laptop-key", "studio", "studio-key"⟩

/-- The peer is denied first, asks again and is approved. -/
def secondAttempt : List HandshakeOp :=
  [.submit laptopControlRequest "09:00", .deny "laptop" "studio" "10:00",
    .submit laptopControlRequest "11:00", .approve "laptop" "studio" "t1" "12:00" "12:00"]

theorem handshakeLaw_secondAttempt :
    Guarded Handshake.step Orderly Handshake.start secondAttempt
      ∧ HandshakeLaw (run Handshake.step Handshake.start secondAttempt) :=
  have h : Guarded Handshake.step Orderly Handshake.start secondAttempt := by decide +kernel
  ⟨h, handshakeLaw_of_orderly h⟩

/-- A denied request is approved, with nothing submitted in between. -/
theorem not_handshakeLaw_deniedThenApproved :
    ¬ ∀ ops : List HandshakeOp, HandshakeLaw (run Handshake.step Handshake.start ops) := by
  intro h
  have hjustified := (h [.submit laptopControlRequest "09:00", .deny "laptop" "studio" "10:00",
    .approve "laptop" "studio" "t1" "11:00" "11:00"]).justified
    [.submitted "laptop" "studio" "laptop-key", .denied "laptop" "studio"]
    (.approved "laptop" "studio" "laptop-key" .denied) [] (by decide +kernel)
  exact hjustified.2 (by decide +kernel)

end Amicode.Control
