import Amicode.Peer.Supervisor

/-!
# The credential gate of a peer transport

The gate of an identity may be open only for an endpoint that was verified by a probe which started
after the last child exit, rotation or disconnect of that identity; and a disconnected identity must
not come back without a new call of `connect`.

Only one step opens a gate: the settlement of a probe whose answer passes the check. That step looks
neither at the entry nor at anything else that happened while the probe was running, so that the law
is kept by a run exactly when no such settlement comes too late (`Timely`).
-/

namespace Amicode.Peer

open StepMachine

/-- The endpoint of the entry is live, and was verified by a probe that started after the last
disturbance of the identity. -/
structure PeerEntry.Verified (e : PeerEntry) (log : List PeerEvent) (identityKey : String) :
    Prop where
  healthy : e.state.status = .healthy
  endpoint : ∃ h, e.handle = some h ∧ e.state.localUrl = some h.localUrl
    ∧ e.state.verifiedEndpoint = some h.localUrl
    ∧ Since (.disturbed identityKey) [.probeStarted identityKey h.id, .verified identityKey h.id] log

structure GateLaw (s : PeerTransportSupervisor) : Prop where
  gate : ∀ key, s.canForwardCredential key = true →
    ∃ e, s.entries.get? key = some e ∧ e.Verified s.log key
  healthy : ∀ key e, s.entries.get? key = some e → e.state.status = .healthy →
    Since (.disconnected key) [.connectCalled key] s.log
  forwarded : ∀ before key h after, s.log = before ++ .forwarded key h :: after →
    Since (.disconnected key) [.connectCalled key] before

/-- A probe that settles with an answer that passes the check started after the last disturbance of
the identity, and `connect` was called after its last disconnect. -/
def Timely (s : PeerTransportSupervisor) : SupervisorOp → Prop
  | .probeSettles call (.ok observed) =>
    match s.calls.get? call with
    | some (.probing peer _ _ handle) =>
      verifyEndpointIdentity peer.identityKey observed = .ok →
        Since (.disturbed peer.identityKey) [.probeStarted peer.identityKey handle.id] s.log
          ∧ Since (.disconnected peer.identityKey) [.connectCalled peer.identityKey] s.log
    | _ => True
  | _ => True

section Steps

variable {options : SupervisorOptions} {s s' : PeerTransportSupervisor} {key : String}
  {events : List PeerEvent}

/-- The event neither forwards a credential nor disturbs an identity. -/
def PeerEvent.calm : PeerEvent → Bool
  | .connectCalled _ => true
  | .probeStarted .. => true
  | .verified .. => true
  | _ => false

/-- The event forwards nothing, and disturbs no other identity. -/
def PeerEvent.Closes (key : String) (event : PeerEvent) : Prop :=
  event.calm = true ∨ event = .disturbed key ∨ event = .disconnected key

theorem PeerEvent.Closes.ne_forwarded {event : PeerEvent} (h : event.Closes key) (k : String)
    (handle : ℕ) : event ≠ .forwarded k handle := by
  rintro rfl
  rcases h with hcalm | hsame | hsame
  · cases hcalm
  · cases hsame
  · cases hsame

/-- Events that close an identity's gate are no barrier for another identity. -/
theorem PeerEvent.Closes.not_mem {k : String} (h : ∀ event ∈ events, event.Closes key) (hk : k ≠ key) :
    .disturbed k ∉ events ∧ .disconnected k ∉ events := by
  constructor <;> intro hmem <;> rcases h _ hmem with hcalm | hsame | hsame <;>
    simp_all [PeerEvent.calm]

theorem forwarded_append (h : ∀ before key h after, s.log = before ++ .forwarded key h :: after →
      Since (.disconnected key) [.connectCalled key] before)
    (hevents : ∀ event ∈ events, event.Closes key) :
    ∀ before key h after, s.log ++ events = before ++ .forwarded key h :: after →
      Since (.disconnected key) [.connectCalled key] before := by
  intro before key' handle after heq
  rcases List.append_eq_append_iff.mp heq with ⟨more, rfl, hmore⟩ | ⟨more, hlog, hmore⟩
  · have hmem : .forwarded key' handle ∈ events := by simp [hmore]
    exact absurd rfl ((hevents _ hmem).ne_forwarded key' handle)
  · rcases List.cons_eq_append_iff.mp hmore with ⟨rfl, hhead⟩ | ⟨more', rfl, -⟩
    · have hmem : .forwarded key' handle ∈ events := by simp [hhead]
      exact absurd rfl ((hevents _ hmem).ne_forwarded key' handle)
    · exact h before key' handle more' hlog

variable {e : PeerEntry} {state : PeerTransportState}

theorem PeerEntry.Verified.append {log : List PeerEvent} (h : e.Verified log key)
    (hevents : .disturbed key ∉ events) : e.Verified (log ++ events) key := by
  obtain ⟨handle, hhandle, hlocalUrl, hverified, hsince⟩ := h.endpoint
  exact ⟨h.healthy, handle, hhandle, hlocalUrl, hverified, hsince.append hevents⟩

theorem canForwardCredential_iff : s.canForwardCredential key = true
    ↔ ∃ e, s.entries.get? key = some e ∧ e.state.credentialForwardingAllowed = true := by
  unfold PeerTransportSupervisor.canForwardCredential
  cases s.entries.get? key <;> simp

theorem GateLaw.verified (h : GateLaw s) (he : s.entries.get? key = some e)
    (hopen : e.state.credentialForwardingAllowed = true) : e.Verified s.log key := by
  obtain ⟨e', he', hverified⟩ := h.gate key (canForwardCredential_iff.mpr ⟨e, he, hopen⟩)
  obtain rfl : e' = e := Option.some.inj (he'.symm.trans he)
  exact hverified

/-- The entry can neither be used nor counts as healthy. -/
def PeerEntry.Closed (e : PeerEntry) : Prop :=
  e.state.credentialForwardingAllowed = false ∧ e.state.status ≠ .healthy

/-- A step that changes at most the entry of one identity, which is closed afterwards, keeps the
law. -/
theorem GateLaw.closing (h : GateLaw s) (key : String) (events : List PeerEvent)
    (hothers : ∀ k, k ≠ key → s'.entries.get? k = s.entries.get? k)
    (hkey : ∀ e, s'.entries.get? key = some e → e.Closed)
    (hlog : s'.log = s.log ++ events) (hevents : ∀ event ∈ events, event.Closes key) :
    GateLaw s' where
  gate := by
    intro k hopen
    obtain ⟨e, he, hallowed⟩ := canForwardCredential_iff.mp hopen
    by_cases hk : k = key
    · subst hk
      simp [(hkey e he).1] at hallowed
    · have he' := (hothers k hk).symm.trans he
      refine ⟨e, he, hlog ▸ (h.verified he' hallowed).append ?_⟩
      exact (PeerEvent.Closes.not_mem hevents hk).1
  healthy := by
    intro k e he hhealthy
    by_cases hk : k = key
    · subst hk
      exact absurd hhealthy (hkey e he).2
    · exact hlog ▸ (h.healthy k e ((hothers k hk).symm.trans he) hhealthy).append
        (PeerEvent.Closes.not_mem hevents hk).2
  forwarded := hlog ▸ forwarded_append h.forwarded hevents

theorem GateLaw.calm (h : GateLaw s) (events : List PeerEvent) (hentries : s'.entries = s.entries)
    (hlog : s'.log = s.log ++ events) (hevents : ∀ event ∈ events, event.calm = true) :
    GateLaw s' where
  gate := by
    intro k hopen
    obtain ⟨e, he, hallowed⟩ := canForwardCredential_iff.mp hopen
    refine ⟨e, he, hlog ▸ (h.verified (hentries ▸ he) hallowed).append fun hmem ↦ ?_⟩
    cases hevents _ hmem
  healthy := by
    intro k e he hhealthy
    refine hlog ▸ (h.healthy k e (hentries ▸ he) hhealthy).append fun hmem ↦ ?_
    cases hevents _ hmem
  forwarded := hlog ▸ forwarded_append h.forwarded fun event hevent ↦
    (.inl (hevents event hevent) : event.Closes "")

/-! ### The acts -/

open PeerTransportSupervisor

theorem get?_putEntry_of_ne {k : String} (state : PeerTransportState)
    (handle : Option TransportHandle) (hk : k ≠ key) :
    (s.putEntry key state handle).entries.get? k = s.entries.get? k :=
  s.entries.get?_set_of_ne _ (Ne.symm hk)

theorem closed_putEntry {handle : Option TransportHandle}
    (hgate : state.credentialForwardingAllowed = false) (hstatus : state.status ≠ .healthy)
    (he : (s.putEntry key state handle).entries.get? key = some e) : e.Closed := by
  rw [putEntry, InsertionMap.get?_set_self] at he
  obtain rfl := Option.some.inj he
  exact ⟨hgate, hstatus⟩

section

variable (h : GateLaw s)

include h

theorem GateLaw.endCall (call : ℕ) : GateLaw (s.endCall call) :=
  h.calm [] rfl (by simp [PeerTransportSupervisor.endCall]) (by simp)

theorem GateLaw.awaitStop (call : ℕ) (handle : TransportHandle) (phase : CallPhase) :
    GateLaw (s.awaitStop call handle phase) :=
  h.calm [] rfl (by simp [PeerTransportSupervisor.awaitStop]) (by simp)

theorem GateLaw.putClosed {handle : Option TransportHandle} (hgate : state.credentialForwardingAllowed = false)
    (hstatus : state.status ≠ .healthy) : GateLaw (s.putEntry key state handle) :=
  h.closing key [] (fun _ ↦ get?_putEntry_of_ne state handle) (fun _ ↦ closed_putEntry hgate hstatus)
    (by simp [putEntry]) (by simp)

theorem GateLaw.register (call : ℕ) (peer : PeerIdentity) (isPortFree : ℕ → Bool) :
    GateLaw (s.register options call peer isPortFree) := by
  unfold PeerTransportSupervisor.register
  split
  · exact (h.putClosed rfl (by simp)).endCall call
  · exact (h.putClosed rfl (by simp [registeredState, connectingState])).calm [] rfl (by simp) (by simp)

theorem GateLaw.connect (call : ℕ) (peer : PeerIdentity) (isPortFree : ℕ → Bool) :
    GateLaw (s.connect options call peer isPortFree) := by
  have hnote : GateLaw (s.note [.connectCalled peer.identityKey]) :=
    h.calm [.connectCalled peer.identityKey] rfl rfl (by simp [PeerEvent.calm])
  unfold PeerTransportSupervisor.connect
  dsimp only
  split
  · exact hnote.awaitStop call _ _
  · exact hnote.register call peer isPortFree

theorem GateLaw.forget (call : ℕ) : GateLaw (s.forget call key) := by
  refine h.closing key [.disturbed key, .disconnected key] ?_ ?_ rfl ?_
  · exact fun k hk ↦ s.entries.get?_erase_of_ne (Ne.symm hk)
  · intro e he
    simp [PeerTransportSupervisor.forget, note, PeerTransportSupervisor.endCall] at he
  · simp [PeerEvent.Closes]

theorem GateLaw.disconnect (call : ℕ) : GateLaw (s.disconnect call key) := by
  unfold PeerTransportSupervisor.disconnect
  split
  · refine h.closing key [.disturbed key, .disconnected key] (fun _ _ ↦ rfl) ?_ rfl
      (by simp [PeerEvent.Closes])
    intro e he
    simp_all [note]
  · split
    · exact h.awaitStop call _ _
    · exact h.forget call

theorem GateLaw.updateEntry
    (hgate : state.credentialForwardingAllowed = false) (hstatus : state.status ≠ .healthy) :
    GateLaw ((s.note [.disturbed key]).updateEntry key e state) := by
  refine h.closing key [.disturbed key] ?_ ?_ rfl (by simp [PeerEvent.Closes])
  · exact fun k hk ↦ s.entries.get?_set_of_ne _ (Ne.symm hk)
  · intro e' he'
    rw [PeerTransportSupervisor.updateEntry, InsertionMap.get?_set_self] at he'
    obtain rfl := Option.some.inj he'
    exact ⟨hgate, hstatus⟩

end

theorem exitedState_closed (state : PeerTransportState) (reason : Option String) :
    (exitedState options state reason).credentialForwardingAllowed = false
      ∧ (exitedState options state reason).status ≠ .healthy := by
  unfold exitedState
  dsimp only
  split <;> simp

theorem GateLaw.noteChildExit (h : GateLaw s) (reason : Option String) :
    GateLaw (s.noteChildExit options key reason) := by
  have hnote (hclosed : ∀ e, s.entries.get? key = some e → e.Closed) :
      GateLaw (s.note [.disturbed key]) :=
    h.closing key [.disturbed key] (fun _ _ ↦ rfl) hclosed rfl (by simp [PeerEvent.Closes])
  unfold PeerTransportSupervisor.noteChildExit
  dsimp only
  split
  · rename_i hnone
    exact hnote fun e he ↦ by simp [note] at hnone; simp [hnone] at he
  · rename_i e he
    split
    · -- a failed entry is closed already
      rename_i hfailed
      refine hnote fun e' he' ↦ ?_
      obtain rfl : e' = e := Option.some.inj (he'.symm.trans he)
      refine ⟨?_, by simp [hfailed]⟩
      by_contra hopen
      have hhealthy := (h.verified he' (by simpa using hopen)).healthy
      simp [hfailed] at hhealthy
    · exact h.updateEntry (exitedState_closed _ _).1 (exitedState_closed _ _).2

theorem GateLaw.observeEndpoint (h : GateLaw s) (resolvedUrl : Option String) :
    GateLaw (s.observeEndpoint key resolvedUrl) := by
  unfold PeerTransportSupervisor.observeEndpoint
  split
  · exact h
  · split
    · exact h
    · exact h.updateEntry rfl (by simp [rotatedState])

theorem GateLaw.stopSettles (h : GateLaw s) (call : ℕ) (resolves : Bool) (isPortFree : ℕ → Bool) :
    GateLaw (s.stopSettles options call resolves isPortFree) := by
  unfold PeerTransportSupervisor.stopSettles
  split
  · exact h.register call _ isPortFree
  · exact h.endCall call
  · exact (h.putClosed rfl (by simp)).endCall call
  · exact h.endCall call
  · exact h.forget call
  · exact h.endCall call
  · exact h

theorem GateLaw.factorySettles (h : GateLaw s) (call : ℕ) (outcome : Except String String) :
    GateLaw (s.factorySettles call outcome) := by
  unfold PeerTransportSupervisor.factorySettles
  split
  · rename_i peer port ref localUrl _
    exact h.calm [.probeStarted peer.identityKey s.nextId] rfl rfl (by simp [PeerEvent.calm])
  · exact (h.putClosed rfl (by simp)).endCall call
  · exact h

/-- Opening the gate keeps the law exactly if the probe comes in time. -/
theorem gateLaw_becomeHealthy_iff (h : GateLaw s) (call : ℕ) (peer : PeerIdentity) (port : ℕ)
    (handle : TransportHandle) : GateLaw (s.becomeHealthy call peer port handle)
      ↔ Since (.disturbed peer.identityKey) [.probeStarted peer.identityKey handle.id] s.log
        ∧ Since (.disconnected peer.identityKey) [.connectCalled peer.identityKey] s.log := by
  set key := peer.identityKey with hkey
  have hlog : (s.becomeHealthy call peer port handle).log
      = (s.log ++ [.verified key handle.id]) ++ [.forwarded key handle.id] := by
    simp [becomeHealthy, note, putEntry, PeerTransportSupervisor.endCall, hkey]
  have hentry : ∃ e, (s.becomeHealthy call peer port handle).entries.get? key = some e
      ∧ e.handle = some handle ∧ e.state.status = .healthy
      ∧ e.state.localUrl = some handle.localUrl ∧ e.state.verifiedEndpoint = some handle.localUrl
      ∧ e.state.credentialForwardingAllowed = true :=
    ⟨_, InsertionMap.get?_set_self .., rfl, rfl, rfl, rfl, rfl⟩
  have hothers : ∀ k, k ≠ key →
      (s.becomeHealthy call peer port handle).entries.get? k = s.entries.get? k :=
    fun k hk ↦ get?_putEntry_of_ne _ _ hk
  obtain ⟨e, he, hhandle, hhealthy, hlocalUrl, hverified, hopen⟩ := hentry
  constructor
  · intro hlaw
    constructor
    · obtain ⟨handle', hhandle', -, -, hsince⟩ := (hlaw.verified he hopen).endpoint
      obtain rfl : handle' = handle := Option.some.inj (hhandle'.symm.trans hhandle)
      rw [hlog] at hsince
      have hprobe := (hsince.of_concat (by simp)).sublist
        (List.sublist_append_left [PeerEvent.probeStarted key handle'.id] [.verified key handle'.id])
      exact hprobe.of_concat (by simp)
    · exact (hlaw.forwarded _ key handle.id [] hlog).of_concat (by simp)
  · rintro ⟨hprobe, hconnect⟩
    constructor
    · intro k hk
      obtain ⟨e', he', hopen'⟩ := canForwardCredential_iff.mp hk
      by_cases hsame : k = key
      · subst hsame
        obtain rfl : e' = e := Option.some.inj (he'.symm.trans he)
        refine ⟨e', he', hhealthy, handle, hhandle, hlocalUrl, hverified, ?_⟩
        rw [hlog]
        exact (hprobe.concat (by simp)).append (by simp)
      · refine ⟨e', he', ?_⟩
        rw [hlog, List.append_assoc]
        exact (h.verified ((hothers k hsame).symm.trans he') hopen').append (by simp)
    · intro k e' he' hhealthy'
      rw [hlog, List.append_assoc]
      by_cases hsame : k = key
      · exact hsame ▸ hconnect.append (by simp)
      · exact (h.healthy k e' ((hothers k hsame).symm.trans he') hhealthy').append (by simp)
    · intro before k handle' after heq
      rw [hlog] at heq
      rcases List.eq_nil_or_concat after with rfl | ⟨after, last, rfl⟩
      · obtain ⟨rfl, hlast⟩ := List.append_inj' heq rfl
        obtain ⟨rfl, -⟩ : key = k ∧ handle.id = handle' := by simpa using hlast
        exact hconnect.append (by simp)
      · have heq' : s.log ++ [.verified key handle.id] ++ [.forwarded key handle.id]
            = (before ++ .forwarded k handle' :: after) ++ [last] := by simpa using heq
        have hcloses : ∀ event ∈ [PeerEvent.verified key handle.id], event.Closes key := by
          simp [PeerEvent.Closes, PeerEvent.calm]
        exact forwarded_append h.forwarded hcloses _ _ _ _ (List.append_inj' heq' rfl).1

theorem gateLaw_step_iff (h : GateLaw s) (op : SupervisorOp) :
    GateLaw (s.step options op) ↔ Timely s op := by
  have hact : GateLaw (s.step options op) ↔ GateLaw (s.act options op) :=
    ⟨fun hlaw ↦ ⟨hlaw.1, hlaw.2, hlaw.3⟩, fun hlaw ↦ ⟨hlaw.1, hlaw.2, hlaw.3⟩⟩
  rw [hact]
  cases op with
  | connect peer isPortFree => exact iff_of_true (h.connect _ peer isPortFree) trivial
  | disconnect key => exact iff_of_true (h.disconnect _) trivial
  | noteChildExit key reason => exact iff_of_true (h.noteChildExit reason) trivial
  | observeEndpoint key resolvedUrl => exact iff_of_true (h.observeEndpoint resolvedUrl) trivial
  | stopSettles call resolves isPortFree =>
    exact iff_of_true (h.stopSettles call resolves isPortFree) trivial
  | factorySettles call outcome => exact iff_of_true (h.factorySettles call outcome) trivial
  | probeSettles call outcome =>
    rcases outcome with ⟨⟩ | observed
    · refine iff_of_true ?_ trivial
      unfold PeerTransportSupervisor.act PeerTransportSupervisor.probeSettles
      dsimp only
      split
      · rename_i heq
        cases heq
      · exact h.endCall call
      · exact h
    · unfold PeerTransportSupervisor.act PeerTransportSupervisor.probeSettles Timely
      dsimp only
      rcases hcall : s.calls.get? call with _ | _ | _ | ⟨peer, port, ref, handle⟩ | _ | _
      case some.probing =>
        dsimp only
        split
        · rename_i hcheck
          rw [gateLaw_becomeHealthy_iff h]
          simp [hcheck]
        · rename_i hcheck
          exact iff_of_true (h.awaitStop call handle _) fun hok ↦ absurd hok hcheck
      all_goals exact iff_of_true h trivial

end Steps

theorem gateLaw_fresh : GateLaw .fresh where
  gate := by
    rintro key hopen
    cases hopen
  healthy := by
    rintro key e he
    cases he
  forwarded := by
    intro before key h after heq
    simp [PeerTransportSupervisor.fresh] at heq

/-- The law holds in every state of a run exactly if every step of the run is timely. -/
theorem gateLaw_run_iff (options : SupervisorOptions) (ops : List SupervisorOp) :
    Guarded (PeerTransportSupervisor.step options)
        (fun s op ↦ GateLaw (s.step options op)) .fresh ops
      ↔ Guarded (PeerTransportSupervisor.step options) Timely .fresh ops :=
  guarded_iff_of_invariant (fun _ op h ↦ gateLaw_step_iff h op) (fun _ _ _ h ↦ h) gateLaw_fresh

/-- A peer whose child exits while its endpoint is being probed. -/
def exitDuringProbe : List SupervisorOp :=
  [.connect ⟨"studio-key", "studio", "studio", "ssh"⟩ fun _ ↦ true,
    .factorySettles 0 (.ok "http://127.0.0.1:43200"),
    .noteChildExit "studio-key" none,
    .probeSettles 0 (.ok (some "studio-key"))]

/-- The gate opens although the child has exited since the probe started. -/
theorem not_gateLaw_exitDuringProbe :
    ¬ ∀ (options : SupervisorOptions) (ops : List SupervisorOp),
      Guarded (PeerTransportSupervisor.step options)
        (fun s op ↦ GateLaw (s.step options op)) .fresh ops := by
  intro h
  obtain ⟨-, -, hexit, hlaw, -⟩ := h {} exitDuringProbe
  have htimely := (gateLaw_step_iff hexit _).mp hlaw
  have hsince : Since (PeerEvent.disturbed "studio-key") [.probeStarted "studio-key" 2]
      [.connectCalled "studio-key", .probeStarted "studio-key" 2, .disturbed "studio-key"] :=
    (htimely (by decide +kernel)).1
  exact absurd hsince (by decide +kernel)

end Amicode.Peer
