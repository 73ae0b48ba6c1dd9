import Amicode.Peer.Supervisor

/-!
# The transports of the supervisor

A transport that the factory has returned is a running forward until its `stop` is called. While its
endpoint is being probed the connecting call has it; from then on it should be the live handle of its
identity's entry or have been stopped. And live transports of two identities should not be on one
port.

A handle is lost where the entry that has it is dropped or replaced without a stop: at a child exit and
at a rotation, which forget the handle; where a disconnect or a second connect comes back from its
await to an entry that has changed; where a connect that was overtaken writes its result; and where a
probe fails. The runs without any of this (`Tidy`) keep what a connecting call relies on: as long as
the entry it has registered is there, that entry has no handle and the port the call was given.
-/

namespace Amicode.Peer

open StepMachine PeerTransportSupervisor List

/-- The entry a connecting call has registered: its identity, its port and which object it is. -/
def CallPhase.registered? : CallPhase → Option (String × ℕ × ℕ)
  | .standingUp peer port ref => some (peer.identityKey, port, ref)
  | .probing peer port ref _ => some (peer.identityKey, port, ref)
  | .stoppingUntrusted peer port ref _ _ => some (peer.identityKey, port, ref)
  | _ => none

/-- A call waits for the probe of the handle, for the identity. -/
def Held (s : PeerTransportSupervisor) (key : String) (handle : TransportHandle) : Prop :=
  ∃ call peer port ref, s.calls.get? call = some (.probing peer port ref handle)
    ∧ peer.identityKey = key

/-- The handle of the identity's entry, if it has one, was stopped. -/
def Released (s : PeerTransportSupervisor) (key : String) : Prop :=
  ∀ h ∈ s.liveHandle? key, h.id ∈ s.stopCalled

/-- The identity's entry is this object. -/
def HasEntry (s : PeerTransportSupervisor) (key : String) (ref : ℕ) : Prop :=
  ∃ e ∈ s.entries.get? key, e.ref = ref

instance (s : PeerTransportSupervisor) (key : String) : Decidable (Released s key) :=
  inferInstanceAs (Decidable (∀ h ∈ s.liveHandle? key, h.id ∈ s.stopCalled))

instance (s : PeerTransportSupervisor) (key : String) (ref : ℕ) : Decidable (HasEntry s key ref) :=
  inferInstanceAs (Decidable (∃ e ∈ s.entries.get? key, e.ref = ref))

structure NoOrphans (s : PeerTransportSupervisor) : Prop where
  kept : ∀ key h, (key, h) ∈ s.returned → ¬ Held s key h →
    s.liveHandle? key = some h ∨ h.id ∈ s.stopCalled
  ports : ∀ k k', k ≠ k' → (s.liveHandle? k).isSome → (s.liveHandle? k').isSome →
    ∀ p, s.localPort? k = some p → s.localPort? k' ≠ some p

/-- What a call that waits for a stop finds when it goes on. -/
def TidyAfterStop (s : PeerTransportSupervisor) : CallPhase → Prop
  | .stoppingPrevious peer => Released s peer.identityKey
  | .stoppingUntrusted peer _ ref _ _ => HasEntry s peer.identityKey ref
  | .disconnecting key => Released s key
  | _ => True

/-- What a call that waits for the factory finds when the factory fails. -/
def TidyAfterFailure (s : PeerTransportSupervisor) : CallPhase → Prop
  | .standingUp peer _ ref => HasEntry s peer.identityKey ref
  | _ => True

/-- What a call that waits for the probe finds when it goes on: the probe has not failed, and if the
answer passes, the entry is the one the call has registered. -/
def TidyAfterProbe (s : PeerTransportSupervisor) :
    Except Unit (Option String) → CallPhase → Prop
  | .ok observed, .probing peer _ ref _ =>
    verifyEndpointIdentity peer.identityKey observed = .ok → HasEntry s peer.identityKey ref
  | .error _, .probing .. => False
  | _, _ => True

/-- The operation drops no handle that was not stopped, and a connecting call that goes on to write
its result finds the entry it has registered. -/
def Tidy (s : PeerTransportSupervisor) : SupervisorOp → Prop
  | .noteChildExit key _ => Released s key
  | .observeEndpoint key resolvedUrl =>
    (∃ e ∈ s.entries.get? key, resolvedUrl ≠ none ∧ resolvedUrl = e.state.verifiedEndpoint)
      ∨ Released s key
  | .stopSettles call true _ => ∀ phase ∈ s.calls.get? call, TidyAfterStop s phase
  | .factorySettles call (.error _) => ∀ phase ∈ s.calls.get? call, TidyAfterFailure s phase
  | .probeSettles call outcome => ∀ phase ∈ s.calls.get? call, TidyAfterProbe s outcome phase
  | _ => True

/-! ## The invariant -/

structure Sound (s : PeerTransportSupervisor) : Prop where
  numbered : ∀ call phase, s.calls.get? call = some phase → call < s.nextId
  registered : ∀ call phase, s.calls.get? call = some phase →
    ∀ key port ref, phase.registered? = some (key, port, ref) → ref < s.nextId
      ∧ ∀ e, s.entries.get? key = some e → e.ref = ref →
        e.handle = none ∧ e.state.localPort = some port
  kept : ∀ key h, (key, h) ∈ s.returned →
    Held s key h ∨ s.liveHandle? key = some h ∨ h.id ∈ s.stopCalled
  ports : ∀ k k' p, k ≠ k' → s.localPort? k = some p → s.localPort? k' ≠ some p

theorem Sound.noOrphans {s : PeerTransportSupervisor} (h : Sound s) : NoOrphans s where
  kept := fun key handle hreturned hheld ↦ (h.kept key handle hreturned).resolve_left hheld
  ports := fun k k' hne _ _ p ↦ h.ports k k' p hne

section Steps

variable {options : SupervisorOptions} {s s' : PeerTransportSupervisor} {key : String} {call : ℕ}

variable {phase : CallPhase} {port ref : ℕ}

/-- The entry that a waiting call has registered, where it is still there, has its port and no
handle. -/
theorem Sound.own (h : Sound s) (hcall : s.calls.get? call = some phase)
    (hregistered : phase.registered? = some (key, port, ref))
    (hentry : HasEntry s key ref) : Released s key ∧ s.localPort? key = some port := by
  obtain ⟨e, he, href⟩ := hentry
  obtain ⟨hhandle, hport⟩ := (h.registered call phase hcall key port ref hregistered).2 e he href
  have he' : s.entries.get? key = some e := he
  constructor
  · simp [Released, liveHandle?, he', hhandle]
  · simp [localPort?, he', hport]

/-- What a step has to show for the handles that were returned before it: one that a call held, and
one that was live, is still kept. -/
theorem Sound.kept_step (h : Sound s) (hreturned : s'.returned = s.returned)
    (hheld : ∀ c peer port ref handle,
      s.calls.get? c = some (.probing peer port ref handle) → Held s' peer.identityKey handle
        ∨ s'.liveHandle? peer.identityKey = some handle ∨ handle.id ∈ s'.stopCalled)
    (hlive : ∀ k handle, s.liveHandle? k = some handle →
      s'.liveHandle? k = some handle ∨ handle.id ∈ s'.stopCalled)
    (hstop : ∀ id ∈ s.stopCalled, id ∈ s'.stopCalled) :
    ∀ k handle, (k, handle) ∈ s'.returned →
      Held s' k handle ∨ s'.liveHandle? k = some handle ∨ handle.id ∈ s'.stopCalled := by
  intro k handle hmem
  rw [hreturned] at hmem
  rcases h.kept k handle hmem with ⟨c, peer, port, ref, hc, rfl⟩ | hl | hstopped
  · exact hheld c peer port ref handle hc
  · exact .inr (hlive k handle hl)
  · exact .inr (.inr (hstop _ hstopped))

/-- Where only one entry changes, and its handle was stopped, a live handle stays live or was
stopped. -/
theorem live_or_stopped (hother : ∀ k, k ≠ key → s'.entries.get? k = s.entries.get? k)
    (hstop : s'.stopCalled = s.stopCalled) (hreleased : Released s key) (k : String)
    (handle : TransportHandle) (hlive : s.liveHandle? k = some handle) :
    s'.liveHandle? k = some handle ∨ handle.id ∈ s'.stopCalled := by
  by_cases hk : k = key
  · rw [hstop]
    exact .inr (hreleased handle (hk ▸ hlive))
  · rw [liveHandle?, hother k hk]
    exact .inl hlive

/-- A new entry takes the place of one whose handle, if any, was stopped; its port is no other
identity's. -/
theorem Sound.put (h : Sound s) (call : ℕ) (state : PeerTransportState)
    (handle : Option TransportHandle)
    (hentries : s'.entries = s.entries.set key ⟨s.nextId + 1, state, handle⟩)
    (hcalls : ∀ c, c ≠ call → s'.calls.get? c = s.calls.get? c)
    (hcall : ∀ phase, s'.calls.get? call = some phase → call ≤ s.nextId ∧ ∃ peer port,
      phase = .standingUp peer port (s.nextId + 1) ∧ peer.identityKey = key ∧ handle = none
        ∧ state.localPort = some port)
    (hnext : s'.nextId = s.nextId + 2) (hreturned : s'.returned = s.returned)
    (hstop : s'.stopCalled = s.stopCalled) (hreleased : Released s key)
    (hheld : ∀ peer port ref h, s.calls.get? call = some (.probing peer port ref h) →
      peer.identityKey = key ∧ handle = some h)
    (hports : ∀ p, state.localPort = some p → ∀ k, k ≠ key → s.localPort? k ≠ some p) :
    Sound s' := by
  have hkey : s'.entries.get? key = some ⟨s.nextId + 1, state, handle⟩ := by
    rw [hentries, InsertionMap.get?_set_self]
  have hother : ∀ k, k ≠ key → s'.entries.get? k = s.entries.get? k := fun k hk ↦ by
    rw [hentries, InsertionMap.get?_set_of_ne _ _ (Ne.symm hk)]
  have hport : ∀ k, k ≠ key → s'.localPort? k = s.localPort? k := fun k hk ↦ by
    rw [localPort?, hother k hk]
    rfl
  have hportKey : s'.localPort? key = state.localPort := by
    rw [localPort?, hkey]
    rfl
  refine ⟨fun c phase hc ↦ ?_, fun c phase hc k port ref hphase ↦ ?_, fun k h₀ hmem ↦ ?_,
    fun k k' p hne hp ↦ ?_⟩
  · rw [hnext]
    by_cases hsame : c = call
    · exact hsame ▸ Nat.lt_add_right 1 (Nat.lt_succ_of_le (hcall phase (hsame ▸ hc)).1)
    · exact Nat.lt_add_right 2 (h.numbered c phase (hcalls c hsame ▸ hc))
  · rw [hnext]
    by_cases hsame : c = call
    · obtain ⟨-, peer, port', rfl, rfl, rfl, hstate⟩ := hcall phase (hsame ▸ hc)
      obtain ⟨rfl, rfl, rfl⟩ : peer.identityKey = k ∧ port' = port ∧ s.nextId + 1 = ref := by
        simpa [CallPhase.registered?] using hphase
      refine ⟨Nat.lt_succ_self _, fun e he _ ↦ ?_⟩
      obtain rfl := Option.some.inj (hkey.symm.trans he)
      exact ⟨rfl, hstate⟩
    · obtain ⟨hlt, hentry⟩ := h.registered c phase (hcalls c hsame ▸ hc) k port ref hphase
      refine ⟨by omega, fun e he href ↦ ?_⟩
      by_cases hk : k = key
      · -- the new entry is none that a call has registered before
        subst hk
        obtain rfl := Option.some.inj (hkey.symm.trans he)
        simp only at href
        omega
      · exact hentry e (hother k hk ▸ he) href
  · refine h.kept_step hreturned (fun c peer port ref handle hc ↦ ?_)
      (live_or_stopped hother hstop hreleased) (fun id hid ↦ hstop ▸ hid) k h₀ hmem
    by_cases hsame : c = call
    · obtain ⟨hpeer, hhandle⟩ := hheld peer port ref handle (hsame ▸ hc)
      exact .inr (.inl (by rw [liveHandle?, hpeer, hkey]; exact hhandle))
    · exact .inl ⟨c, peer, port, ref, (hcalls c hsame).trans hc, rfl⟩
  · by_cases hk : k = key
    · rw [hk, hportKey] at hp
      rw [hport k' (hk ▸ hne.symm)]
      exact hports p hp k' (hk ▸ hne.symm)
    · rw [hport k hk] at hp
      by_cases hk' : k' = key
      · rw [hk', hportKey]
        exact fun hp' ↦ hports p hp' k hk hp
      · rw [hport k' hk']
        exact h.ports k k' p hne hp

theorem Sound.drop (h : Sound s) (key : String)
    (hother : ∀ k, k ≠ key → s'.entries.get? k = s.entries.get? k)
    (hkey : ∀ e', s'.entries.get? key = some e' → ∃ e, s.entries.get? key = some e
      ∧ e'.ref = e.ref ∧ e'.handle = none ∧ e'.state.localPort = e.state.localPort)
    (hcalls : ∀ c phase, s'.calls.get? c = some phase → s.calls.get? c = some phase)
    (hheld : ∀ c peer port ref h, s.calls.get? c = some (.probing peer port ref h) →
      s'.calls.get? c = some (.probing peer port ref h))
    (hnext : s.nextId ≤ s'.nextId) (hreturned : s'.returned = s.returned)
    (hstop : s'.stopCalled = s.stopCalled) (hreleased : Released s key) : Sound s' := by
  have hport : ∀ k p, s'.localPort? k = some p → s.localPort? k = some p := by
    intro k p hp
    obtain ⟨e', he', hstate⟩ := Option.bind_eq_some_iff.mp hp
    by_cases hk : k = key
    · subst hk
      obtain ⟨e, he, -, -, hsame⟩ := hkey e' he'
      rw [localPort?, he]
      exact hsame.symm.trans hstate
    · rw [localPort?, ← hother k hk, he']
      exact hstate
  refine ⟨fun c phase hc ↦ ?_, fun c phase hc k port ref hphase ↦ ?_, fun k h₀ hmem ↦ ?_,
    fun k k' p hne hp hp' ↦ h.ports k k' p hne (hport k p hp) (hport k' p hp')⟩
  · exact (h.numbered c phase (hcalls c phase hc)).trans_le hnext
  · obtain ⟨hlt, hentry⟩ := h.registered c phase (hcalls c phase hc) k port ref hphase
    refine ⟨hlt.trans_le hnext, fun e' he' href ↦ ?_⟩
    by_cases hk : k = key
    · subst hk
      obtain ⟨e, he, href', hhandle, hstate⟩ := hkey e' he'
      exact ⟨hhandle, hstate.trans (hentry e he (href'.symm.trans href)).2⟩
    · exact hentry e' (hother k hk ▸ he') href
  · refine h.kept_step hreturned (fun c peer port ref handle hc ↦ ?_)
      (live_or_stopped hother hstop hreleased) (fun id hid ↦ hstop ▸ hid) k h₀ hmem
    exact .inl ⟨c, peer, port, ref, hheld c peer port ref handle hc, rfl⟩

/-- A call waits for something else, or is over; the handle it held, if any, is stopped. -/
theorem Sound.goOn (h : Sound s) (call : ℕ) (hentries : s'.entries = s.entries)
    (hcalls : ∀ c, c ≠ call → s'.calls.get? c = s.calls.get? c)
    (hcall : ∀ phase, s'.calls.get? call = some phase → call < s'.nextId
      ∧ (phase.registered? = none ∨ ∃ phase', s.calls.get? call = some phase'
        ∧ phase.registered? = phase'.registered?))
    (hnext : s.nextId ≤ s'.nextId) (hreturned : s'.returned = s.returned)
    (hstop : ∀ id ∈ s.stopCalled, id ∈ s'.stopCalled)
    (hheld : ∀ peer port ref h, s.calls.get? call = some (.probing peer port ref h) →
      h.id ∈ s'.stopCalled) : Sound s' := by
  have hlive : ∀ k, s'.liveHandle? k = s.liveHandle? k := fun k ↦ by rw [liveHandle?, hentries]; rfl
  have hport : ∀ k, s'.localPort? k = s.localPort? k := fun k ↦ by rw [localPort?, hentries]; rfl
  refine ⟨fun c phase hc ↦ ?_, fun c phase hc k port ref hphase ↦ ?_, fun k h₀ hmem ↦ ?_,
    fun k k' p hne ↦ by rw [hport, hport]; exact h.ports k k' p hne⟩
  · by_cases hsame : c = call
    · exact hsame ▸ (hcall phase (hsame ▸ hc)).1
    · exact (h.numbered c phase (hcalls c hsame ▸ hc)).trans_le hnext
  · rw [hentries]
    by_cases hsame : c = call
    · rcases (hcall phase (hsame ▸ hc)).2 with hnone | ⟨phase', hc', heq⟩
      · simp [hnone] at hphase
      · obtain ⟨hlt, hentry⟩ := h.registered call phase' hc' k port ref (heq ▸ hphase)
        exact ⟨hlt.trans_le hnext, hentry⟩
    · obtain ⟨hlt, hentry⟩ := h.registered c phase (hcalls c hsame ▸ hc) k port ref hphase
      exact ⟨hlt.trans_le hnext, hentry⟩
  · refine h.kept_step hreturned (fun c peer port ref handle hc ↦ ?_)
      (fun k handle hl ↦ .inl ((hlive k).trans hl)) hstop k h₀ hmem
    by_cases hsame : c = call
    · exact .inr (.inr (hheld peer port ref handle (hsame ▸ hc)))
    · exact .inl ⟨c, peer, port, ref, (hcalls c hsame).trans hc, rfl⟩

/-! ### The acts -/

theorem ne_of_allocated {base range p : ℕ} {isPortFree : ℕ → Bool} {reserved : List ℕ}
    (h : allocateLoopbackPort base range (fun p ↦
      !reserved.contains p && !(s.handedOut key).contains p && isPortFree p) = some p) :
    ∀ k, k ≠ key → s.localPort? k ≠ some p := by
  intro k hk hport
  obtain ⟨e, he, hstate⟩ := Option.bind_eq_some_iff.mp hport
  have havailable := find?_some h
  have hmem : p ∈ s.handedOut key := by
    rw [handedOut, mem_filterMap]
    refine ⟨(k, e), (s.entries.get?_eq_some_iff k e).mp he, ?_⟩
    rw [if_neg hk]
    exact hstate
  simp [hmem] at havailable

section

variable (h : Sound s)

include h

theorem Sound.note (events : List PeerEvent) : Sound (s.note events) :=
  ⟨h.numbered, h.registered, h.kept, h.ports⟩

theorem Sound.bump : Sound { s with nextId := s.nextId + 2 } :=
  h.goOn s.nextId rfl (fun _ _ ↦ rfl)
    (fun _ hc ↦ absurd (h.numbered _ _ hc) (lt_irrefl _)) (Nat.le_add_right _ 2) rfl
    (fun _ hid ↦ hid) (fun _ _ _ _ hc ↦ absurd (h.numbered _ _ hc) (lt_irrefl _))

theorem Sound.register (peer : PeerIdentity) (isPortFree : ℕ → Bool)
    (hreleased : Released s peer.identityKey) (hcall : call ≤ s.nextId)
    (hheld : ∀ peer port ref h, s.calls.get? call ≠ some (.probing peer port ref h)) :
    Sound { s.register options call peer isPortFree with nextId := s.nextId + 2 } := by
  unfold PeerTransportSupervisor.register
  split
  · refine h.put call _ none rfl ?_ ?_ rfl rfl rfl hreleased
      (fun _ _ _ _ hc ↦ absurd hc (hheld _ _ _ _)) ?_
    · exact fun c hc ↦ s.calls.get?_erase_of_ne (Ne.symm hc)
    · intro phase hphase
      simp [endCall, putEntry] at hphase
    · intro p hp
      simp [connectingState] at hp
  · rename_i port halloc
    refine h.put call _ none rfl ?_ ?_ rfl rfl rfl hreleased
      (fun _ _ _ _ hc ↦ absurd hc (hheld _ _ _ _)) ?_
    · exact fun c hc ↦ s.calls.get?_set_of_ne _ (Ne.symm hc)
    · intro phase hphase
      rw [InsertionMap.get?_set_self] at hphase
      obtain rfl := Option.some.inj hphase
      exact ⟨hcall, peer, port, rfl, rfl, rfl, rfl⟩
    · intro p hp
      obtain rfl := Option.some.inj hp
      exact ne_of_allocated halloc

theorem Sound.write (hc : s.calls.get? call = some phase)
    (hregistered : phase.registered? = some (key, port, ref))
    (hentry : HasEntry s key ref) (state : PeerTransportState) (hport : state.localPort = some port)
    (handle : Option TransportHandle)
    (hheld : ∀ peer port ref h, phase = .probing peer port ref h → handle = some h) :
    Sound { (s.putEntry key state handle).endCall call with nextId := s.nextId + 2 } := by
  obtain ⟨hreleased, hown⟩ := h.own hc hregistered hentry
  refine h.put call state handle rfl ?_ ?_ rfl rfl rfl hreleased ?_ ?_
  · exact fun c hc ↦ s.calls.get?_erase_of_ne (Ne.symm hc)
  · intro phase hphase
    simp [endCall, putEntry] at hphase
  · intro peer port' ref' h₀ hc'
    obtain rfl := Option.some.inj (hc.symm.trans hc')
    obtain ⟨hpeer, -⟩ : peer.identityKey = key ∧ _ := by
      simpa [CallPhase.registered?] using hregistered
    exact ⟨hpeer, hheld peer port' ref' h₀ rfl⟩
  · intro p hp k hk hsame
    obtain rfl : port = p := Option.some.inj (hport.symm.trans hp)
    exact h.ports key k port (Ne.symm hk) hown hsame

theorem Sound.endCall (call : ℕ)
    (hheld : ∀ peer port ref h, s.calls.get? call ≠ some (.probing peer port ref h)) :
    Sound (s.endCall call) := by
  refine h.goOn call rfl ?_ ?_ le_rfl rfl (fun _ hid ↦ hid) ?_
  · exact fun c hc ↦ s.calls.get?_erase_of_ne (Ne.symm hc)
  · intro phase hphase
    simp [PeerTransportSupervisor.endCall] at hphase
  · exact fun _ _ _ _ hc ↦ absurd hc (hheld _ _ _ _)

theorem Sound.awaitStop_new (handle : TransportHandle) (hphase : phase.registered? = none) :
    Sound { s.awaitStop s.nextId handle phase with nextId := s.nextId + 2 } := by
  refine h.goOn s.nextId rfl ?_ ?_ (Nat.le_add_right _ 2) rfl ?_ ?_
  · exact fun c hc ↦ s.calls.get?_set_of_ne _ (Ne.symm hc)
  · intro phase' hphase'
    obtain rfl := Option.some.inj ((s.calls.get?_set_self _ _).symm.trans hphase')
    exact ⟨Nat.lt_add_right 1 (Nat.lt_succ_self _), .inl hphase⟩
  · exact fun id hid ↦ mem_append_left _ hid
  · exact fun _ _ _ _ hc ↦ absurd (h.numbered _ _ hc) (lt_irrefl _)

theorem Sound.awaitStop_untrusted {peer : PeerIdentity}
    {handle : TransportHandle} (hc : s.calls.get? call = some (.probing peer port ref handle))
    (check : EndpointIdentityCheck) :
    Sound (s.awaitStop call handle (.stoppingUntrusted peer port ref handle check)) := by
  refine h.goOn call rfl ?_ ?_ le_rfl rfl ?_ ?_
  · exact fun c hc ↦ s.calls.get?_set_of_ne _ (Ne.symm hc)
  · intro phase' hphase'
    obtain rfl := Option.some.inj ((s.calls.get?_set_self _ _).symm.trans hphase')
    exact ⟨h.numbered call _ hc, .inr ⟨_, hc, rfl⟩⟩
  · exact fun id hid ↦ mem_append_left _ hid
  · intro peer' port' ref' h₀ hc'
    obtain ⟨-, -, -, rfl⟩ := CallPhase.probing.inj (Option.some.inj (hc.symm.trans hc'))
    exact mem_append_right _ (mem_singleton.mpr rfl)

theorem Sound.startProbe {peer : PeerIdentity}
    (hc : s.calls.get? call = some (.standingUp peer port ref)) (localUrl : String) :
    Sound { s.startProbe call peer port ref localUrl with nextId := s.nextId + 2 } := by
  -- apart from the new handle, the call goes on waiting with the entry it has registered
  have hgoOn : Sound { s.startProbe call peer port ref localUrl with
      nextId := s.nextId + 2, returned := s.returned } := by
    refine h.goOn call rfl ?_ ?_ (Nat.le_add_right _ 2) rfl (fun _ hid ↦ hid) ?_
    · exact fun c hc ↦ s.calls.get?_set_of_ne _ (Ne.symm hc)
    · intro phase' hphase'
      obtain rfl := Option.some.inj ((s.calls.get?_set_self _ _).symm.trans hphase')
      exact ⟨Nat.lt_add_right 2 (h.numbered call _ hc), .inr ⟨_, hc, rfl⟩⟩
    · intro peer' port' ref' h₀ hc'
      cases hc.symm.trans hc'
  refine ⟨hgoOn.numbered, hgoOn.registered, fun key h₀ hmem ↦ ?_, hgoOn.ports⟩
  rcases mem_append.mp hmem with hold | hnew
  · exact hgoOn.kept key h₀ hold
  · obtain ⟨rfl, rfl⟩ := Prod.mk.inj (mem_singleton.mp hnew)
    exact .inl ⟨call, peer, port, ref, s.calls.get?_set_self _ _, rfl⟩

theorem Sound.forget (call : ℕ) (hreleased : Released s key)
    (hheld : ∀ peer port ref h, s.calls.get? call ≠ some (.probing peer port ref h)) :
    Sound (s.forget call key) := by
  refine h.drop key ?_ ?_ ?_ ?_ le_rfl rfl rfl hreleased
  · exact fun k hk ↦ s.entries.get?_erase_of_ne (Ne.symm hk)
  · intro e he
    simp [PeerTransportSupervisor.forget, PeerTransportSupervisor.note,
      PeerTransportSupervisor.endCall] at he
  · intro c phase hc
    by_cases hsame : c = call
    · subst hsame
      simp [PeerTransportSupervisor.forget, PeerTransportSupervisor.note,
        PeerTransportSupervisor.endCall] at hc
    · rwa [← s.calls.get?_erase_of_ne (Ne.symm hsame)]
  · intro c peer port ref h₀ hc
    have hne : call ≠ c := by
      rintro rfl
      exact hheld peer port ref h₀ hc
    exact (s.calls.get?_erase_of_ne hne).trans hc

theorem Sound.updateEntry {e : PeerEntry} (he : s.entries.get? key = some e)
    {state : PeerTransportState} (hport : state.localPort = e.state.localPort)
    (hreleased : Released s key) : Sound (s.updateEntry key e state) := by
  refine h.drop key ?_ ?_ (fun _ _ hc ↦ hc) (fun _ _ _ _ _ hc ↦ hc) le_rfl rfl rfl hreleased
  · exact fun k hk ↦ s.entries.get?_set_of_ne _ (Ne.symm hk)
  · intro e' he'
    rw [PeerTransportSupervisor.updateEntry, InsertionMap.get?_set_self] at he'
    obtain rfl := Option.some.inj he'
    exact ⟨e, he, rfl, rfl, hport⟩

theorem Sound.connect (peer : PeerIdentity) (isPortFree : ℕ → Bool) :
    Sound { s.connect options s.nextId peer isPortFree with nextId := s.nextId + 2 } := by
  have hnote := h.note [.connectCalled peer.identityKey]
  unfold PeerTransportSupervisor.connect
  dsimp only
  split
  · exact hnote.awaitStop_new _ rfl
  · rename_i hnone
    refine hnote.register peer isPortFree ?_ le_rfl ?_
    · simp [Released, hnone]
    · exact fun _ _ _ _ hc ↦ absurd (h.numbered _ _ hc) (lt_irrefl _)

theorem Sound.disconnect (key : String) : Sound { s.disconnect s.nextId key with nextId := s.nextId + 2 } := by
  have hheld : ∀ peer port ref h, s.calls.get? s.nextId ≠ some (.probing peer port ref h) :=
    fun _ _ _ _ hc ↦ absurd (h.numbered _ _ hc) (lt_irrefl _)
  unfold PeerTransportSupervisor.disconnect
  split
  · exact (h.note _).bump
  · split
    · exact h.awaitStop_new _ rfl
    · rename_i e he _ hnone
      refine (h.forget s.nextId ?_ hheld).bump
      simp [Released, liveHandle?, he, hnone]

theorem Sound.noteChildExit (reason : Option String) (hreleased : Released s key) :
    Sound { s.noteChildExit options key reason with nextId := s.nextId + 2 } := by
  have hnote := h.note [.disturbed key]
  unfold PeerTransportSupervisor.noteChildExit
  dsimp only
  split
  · exact hnote.bump
  · rename_i e he
    split
    · exact hnote.bump
    · refine (hnote.updateEntry he ?_ hreleased).bump
      unfold exitedState
      dsimp only
      split <;> rfl

theorem Sound.observeEndpoint (resolvedUrl : Option String) (htidy : Tidy s (.observeEndpoint key resolvedUrl)) :
    Sound { s.observeEndpoint key resolvedUrl with nextId := s.nextId + 2 } := by
  unfold PeerTransportSupervisor.observeEndpoint
  split
  · exact h.bump
  · rename_i e he
    split
    · exact h.bump
    · rename_i hrotated
      have hport : (rotatedState e.state resolvedUrl).localPort = e.state.localPort := rfl
      refine ((h.note [.disturbed key]).updateEntry he hport ?_).bump
      rcases htidy with ⟨e', he', hsame⟩ | hreleased
      · obtain rfl : e' = e := Option.some.inj (Eq.trans (Eq.symm he') he)
        exact absurd hsame hrotated
      · exact hreleased

theorem Sound.stopSettles (call : ℕ) (resolves : Bool) (isPortFree : ℕ → Bool)
    (htidy : Tidy s (.stopSettles call resolves isPortFree)) :
    Sound { s.stopSettles options call resolves isPortFree with nextId := s.nextId + 2 } := by
  unfold PeerTransportSupervisor.stopSettles
  split
  · rename_i peer hc
    exact h.register peer isPortFree (htidy _ hc) (h.numbered call _ hc).le (by simp [hc])
  · rename_i hc
    exact (h.endCall call (by simp [hc])).bump
  · rename_i peer port ref handle check hc
    exact h.write hc rfl (htidy _ hc) _ rfl none (by simp)
  · rename_i hc
    exact (h.endCall call (by simp [hc])).bump
  · rename_i key hc
    exact (h.forget call (htidy _ hc) (by simp [hc])).bump
  · rename_i hc
    exact (h.endCall call (by simp [hc])).bump
  · exact h.bump

theorem Sound.factorySettles (call : ℕ) (outcome : Except String String)
    (htidy : Tidy s (.factorySettles call outcome)) :
    Sound { s.factorySettles call outcome with nextId := s.nextId + 2 } := by
  unfold PeerTransportSupervisor.factorySettles
  split
  · exact h.startProbe ‹_› _
  · rename_i peer port ref message hc
    exact h.write hc rfl (htidy _ hc) _ rfl none (by simp)
  · exact h.bump

theorem Sound.probeSettles (call : ℕ) (outcome : Except Unit (Option String))
    (htidy : Tidy s (.probeSettles call outcome)) :
    Sound { s.probeSettles call outcome with nextId := s.nextId + 2 } := by
  unfold PeerTransportSupervisor.probeSettles
  split
  · rename_i peer port ref handle observed hc
    split
    · rename_i hcheck
      have hprobed : ∀ peer' port' ref' h₀, CallPhase.probing peer port ref handle
          = .probing peer' port' ref' h₀ → some handle = some h₀ := by
        rintro _ _ _ _ ⟨⟩
        rfl
      exact (h.write hc rfl (htidy _ hc hcheck) _ rfl (some handle) hprobed).note _
    · exact (h.awaitStop_untrusted hc _).bump
  · rename_i hc
    exact (htidy _ hc).elim
  · exact h.bump

theorem Sound.step {op : SupervisorOp} (htidy : Tidy s op) : Sound (s.step options op) := by
  unfold PeerTransportSupervisor.step PeerTransportSupervisor.act
  cases op with
  | connect peer isPortFree => exact h.connect peer isPortFree
  | disconnect key => exact h.disconnect key
  | noteChildExit key reason => exact h.noteChildExit reason htidy
  | observeEndpoint key resolvedUrl => exact h.observeEndpoint resolvedUrl htidy
  | stopSettles call resolves isPortFree => exact h.stopSettles call resolves isPortFree htidy
  | factorySettles call outcome => exact h.factorySettles call outcome htidy
  | probeSettles call outcome => exact h.probeSettles call outcome htidy

end

end Steps

theorem sound_fresh : Sound .fresh where
  numbered := by
    rintro call phase hc
    cases hc
  registered := by
    rintro call phase hc
    cases hc
  kept := by
    rintro key h hmem
    cases hmem
  ports := by
    rintro k k' p - hp
    cases hp

/-- A run whose operations are all tidy orphans no transport. -/
theorem noOrphans_of_tidy (options : SupervisorOptions) {ops : List SupervisorOp}
    (h : Guarded (PeerTransportSupervisor.step options) Tidy .fresh ops) :
    NoOrphans (run (PeerTransportSupervisor.step options) .fresh ops) :=
  (invariant_run_of_guarded (fun _ _ hs ht ↦ hs.step ht) sound_fresh h).noOrphans

/-! ## Two runs -/

def studio : PeerIdentity := ⟨"studio-key", "studio", "studio", "ssh"⟩

/-- The peer is connected, and its endpoint verified. -/
def connectStudio : List SupervisorOp :=
  [.connect studio fun _ ↦ true, .factorySettles 0 (.ok "http://127.0.0.1:43200"),
    .probeSettles 0 (.ok (some "studio-key"))]

theorem noOrphans_connectStudio :
    Guarded (PeerTransportSupervisor.step {}) Tidy .fresh connectStudio
      ∧ NoOrphans (run (PeerTransportSupervisor.step {}) .fresh connectStudio) :=
  have h : Guarded (PeerTransportSupervisor.step {}) Tidy .fresh connectStudio := by
    refine ⟨trivial, trivial, ?_, trivial⟩
    rintro _ ⟨⟩ -
    exact ⟨_, rfl, rfl⟩
  ⟨h, noOrphans_of_tidy {} h⟩

/-- The peer is connected, and then its endpoint is seen to have moved. -/
def rotateStudio : List SupervisorOp :=
  connectStudio ++ [.observeEndpoint "studio-key" (some "http://127.0.0.1:9")]

/-- After a rotation the transport is forgotten without having been stopped. -/
theorem not_noOrphans_rotateStudio :
    ¬ ∀ (options : SupervisorOptions) (ops : List SupervisorOp),
      NoOrphans (run (PeerTransportSupervisor.step options) .fresh ops) := by
  intro h
  have hidle : (run (PeerTransportSupervisor.step {}) .fresh rotateStudio).calls.entries = [] := by
    decide +kernel
  have hheld : ¬ Held (run (PeerTransportSupervisor.step {}) .fresh rotateStudio) "studio-key"
      ⟨2, "http://127.0.0.1:43200"⟩ := by
    rintro ⟨call, peer, port, ref, hc, -⟩
    rw [InsertionMap.get?, hidle] at hc
    cases hc
  exact absurd ((h {} rotateStudio).kept "studio-key" ⟨2, "http://127.0.0.1:43200"⟩
    (by decide +kernel) hheld) (by decide +kernel)

end Amicode.Peer
