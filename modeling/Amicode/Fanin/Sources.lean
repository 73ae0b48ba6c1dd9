import Amicode.Fanin.Driver
import Amicode.Fanin.Moves

/-!
# One live upstream per namespace

A source is live from its opening until it is closed by the connection or its pump has read its end.
The law of the sources map is that it holds, for each namespace, the live source opened last, and
that no namespace has two live sources.

Opening, closing and re-opening arms keep the law. A pump that leaves its loop does so if what it
removes is its own: it removes by namespace, so that a pump whose source was closed and replaced
before it came back removes the replacement from the map, which stays open and unknown
(`sourcesLaw_run_iff`).
-/

namespace Amicode

open StepMachine List

namespace FanInConnection

/-- The source was opened for the namespace, and was neither closed nor has it ended. -/
def isLive (s : FanInConnection) (ns : String) (source : ℕ) : Bool :=
  s.opened[source]?.any (fun request ↦ request.ns == ns)
    && source ∉ s.closedByUs && source ∉ s.ended

/-- The live source of the namespace opened last. -/
def newestLive (s : FanInConnection) (ns : String) : Option ℕ :=
  ((List.range s.opened.length).filter (s.isLive ns)).getLast?

end FanInConnection

structure SourcesLaw (s : FanInConnection) : Prop where
  newest : ∀ ns, s.sources.get? ns = s.newestLive ns
  single : ∀ ns source source', s.isLive ns source = true → s.isLive ns source' = true →
    source = source'

/-- A pump that has read the end of its source finds no other source of its namespace in the map. -/
def PumpsItsOwn (s : FanInConnection) : FanInOp → Prop
  | .pumpSettles _ (.frame _) => True
  | .pumpSettles source _ =>
    ∀ request ∈ s.opened[source]?, source ∉ s.returned →
      ∀ current ∈ s.sources.get? request.ns, current = source
  | _ => True

section Steps

variable {s s' : FanInConnection} {ns : String} {source : ℕ}

theorem isLive_iff : s.isLive ns source = true
    ↔ (∃ request, s.opened[source]? = some request ∧ request.ns = ns)
      ∧ source ∉ s.closedByUs ∧ source ∉ s.ended := by
  simp [FanInConnection.isLive, Option.any_eq_true, and_assoc]

theorem mem_live_iff :
    source ∈ (List.range s.opened.length).filter (s.isLive ns) ↔ s.isLive ns source = true := by
  rw [mem_filter, mem_range, and_iff_right_iff_imp]
  intro h
  obtain ⟨⟨request, hrequest, -⟩, -⟩ := isLive_iff.mp h
  exact (List.getElem?_eq_some_iff.mp hrequest).1

theorem newestLive_mem (h : s.newestLive ns = some source) : s.isLive ns source = true :=
  mem_live_iff.mp (mem_of_getLast? h)

theorem newestLive_eq (hsingle : ∀ source', s.isLive ns source' = true → source' = source)
    (hlive : s.isLive ns source = true) : s.newestLive ns = some source := by
  have hsome : s.newestLive ns ≠ none := fun hnone ↦
    ne_nil_of_mem (mem_live_iff.mpr hlive) (getLast?_eq_none_iff.mp hnone)
  obtain ⟨last, hlast⟩ := Option.ne_none_iff_exists'.mp hsome
  rw [hlast, hsingle last (newestLive_mem hlast)]

/-- The law says that the map holds exactly what is live. -/
theorem sourcesLaw_iff : SourcesLaw s
    ↔ ∀ ns source, s.sources.get? ns = some source ↔ s.isLive ns source = true := by
  constructor
  · intro h ns source
    rw [h.newest]
    constructor
    · exact newestLive_mem
    · intro hlive
      exact newestLive_eq (fun source' hlive' ↦ h.single ns source' source hlive' hlive) hlive
  · intro h
    have hsingle : ∀ ns source source', s.isLive ns source = true → s.isLive ns source' = true →
        source = source' := by
      intro ns source source' hlive hlive'
      have hsome := ((h ns source).mpr hlive).symm.trans ((h ns source').mpr hlive')
      exact Option.some.inj hsome
    refine ⟨fun ns ↦ Option.ext fun source ↦ ?_, hsingle⟩
    rw [h ns source]
    constructor
    · intro hlive
      exact newestLive_eq (fun source' hlive' ↦ hsingle ns source' source hlive' hlive) hlive
    · exact newestLive_mem

/-- The law, with what keeps a new source apart from the old ones, and a closed connection empty. -/
structure Tracked (s : FanInConnection) : Prop where
  live : ∀ ns source, s.sources.get? ns = some source ↔ s.isLive ns source = true
  bound : ∀ source, source ∈ s.closedByUs ∨ source ∈ s.ended → source < s.opened.length
  shut : s.closed = true → ∀ ns, s.sources.get? ns = none

theorem Tracked.law (h : Tracked s) : SourcesLaw s := sourcesLaw_iff.mpr h.live

theorem Tracked.request (h : Tracked s) (hget : s.sources.get? ns = some source) :
    ∃ request, s.opened[source]? = some request ∧ request.ns = ns :=
  (isLive_iff.mp ((h.live ns source).mp hget)).1

theorem Tracked.congr (h : Tracked s) (hsources : ∀ ns, s'.sources.get? ns = s.sources.get? ns)
    (hopened : s'.opened = s.opened) (hclosedByUs : s'.closedByUs = s.closedByUs)
    (hended : s'.ended = s.ended) (hclosed : s'.closed = s.closed) : Tracked s' where
  live ns source := by
    rw [hsources, h.live, FanInConnection.isLive, FanInConnection.isLive, hopened, hclosedByUs,
      hended]
  bound := by
    rw [hopened, hclosedByUs, hended]
    exact h.bound
  shut hshut ns := (hsources ns).trans (h.shut (hclosed ▸ hshut) ns)

/-- A step that removes one source from the map and from what is live. -/
theorem Tracked.remove (h : Tracked s) {request : FanInUpstreamRequest}
    (hrequest : s.opened[source]? = some request)
    (hown : ∀ current, s.sources.get? request.ns = some current → current = source)
    (hsources : s'.sources = s.sources.erase request.ns) (hopened : s'.opened = s.opened)
    (hgone : ∀ x, x ∈ s'.closedByUs ∨ x ∈ s'.ended
      ↔ (x ∈ s.closedByUs ∨ x ∈ s.ended) ∨ x = source)
    (hclosed : s'.closed = s.closed) : Tracked s' where
  live ns x := by
    have hlive : s'.isLive ns x = true ↔ s.isLive ns x = true ∧ x ≠ source := by
      have := hgone x
      rw [isLive_iff, isLive_iff, hopened]
      tauto
    rw [hsources, InsertionMap.get?_erase, hlive, ← h.live]
    by_cases hns : request.ns = ns
    · subst hns
      simpa using hown x
    -- another namespace has lost nothing: a source is opened for one namespace only
    · rw [if_neg hns, iff_self_and]
      rintro hget rfl
      obtain ⟨request', hrequest', hns'⟩ := h.request hget
      obtain rfl : request = request' := Option.some.inj (hrequest.symm.trans hrequest')
      exact hns hns'
  bound x hx := by
    rw [hopened]
    rcases (hgone x).mp hx with hold | rfl
    · exact h.bound x hold
    · exact (List.getElem?_eq_some_iff.mp hrequest).1
  shut hshut ns := by
    rw [hsources, InsertionMap.get?_erase, h.shut (hclosed ▸ hshut) ns, ite_self]

/-! ### The acts -/

open FanInConnection

theorem getElem?_concat_of_ne {α : Type*} {l : List α} {a : α} {i : ℕ} (h : i ≠ l.length) :
    (l ++ [a])[i]? = l[i]? := by
  rcases Nat.lt_or_gt_of_ne h with hlt | hgt
  · exact getElem?_append_left hlt
  · rw [getElem?_eq_none (by simp; omega), getElem?_eq_none (by omega)]

theorem Tracked.openArm (h : Tracked s) (hclosed : s.closed = false)
    (url authHeader lastEventId : Option String) :
    Tracked (s.openArm ns url authHeader lastEventId) := by
  unfold FanInConnection.openArm
  split
  · exact h
  · rename_i habsent
    have hnone : s.sources.get? ns = none := by
      simpa [InsertionMap.contains] using habsent
    split
    · exact h
    · rename_i url
      -- a source is numbered by its opening, so that the new one was neither closed nor has it ended
      have hfresh : s.opened.length ∉ s.closedByUs ∧ s.opened.length ∉ s.ended := by
        constructor <;> intro hmem
        · exact lt_irrefl _ (h.bound _ (.inl hmem))
        · exact lt_irrefl _ (h.bound _ (.inr hmem))
      refine ⟨fun ns' source ↦ ?_, fun source hsource ↦ ?_, fun hshut ↦ ?_⟩
      · rw [InsertionMap.get?_set, isLive_iff]
        by_cases hsource : source = s.opened.length
        · subst hsource
          have hold : s.sources.get? ns' ≠ some s.opened.length := by
            intro hget
            obtain ⟨request, hrequest, -⟩ := h.request hget
            simp at hrequest
          rw [getElem?_concat_length]
          simp [hfresh, hold]
        · rw [getElem?_concat_of_ne hsource, ← isLive_iff, ← h.live]
          split
          · rename_i hns
            subst hns
            rw [hnone]
            simp [Ne.symm hsource]
          · rfl
      · have := h.bound source hsource
        simp only [length_append, length_singleton]
        omega
      · exact absurd (hclosed.symm.trans hshut) Bool.false_ne_true

theorem foldl_closeSource (entries : List (String × ℕ)) (reason : FanInCloseReason) :
    ∃ lastClose, entries.foldl (fun s e ↦ s.closeSource e.1 e.2 reason) s
      = { s with
        closedByUs := s.closedByUs ++ entries.map Prod.snd
        lastClose := lastClose } := by
  induction entries generalizing s with
  | nil => exact ⟨s.lastClose, by simp⟩
  | cons e entries ih =>
    obtain ⟨lastClose, heq⟩ := ih (s := s.closeSource e.1 e.2 reason)
    exact ⟨lastClose, by rw [foldl_cons, heq]; simp [closeSource, noteArmClosed]⟩

theorem Tracked.close (h : Tracked s) (reason : FanInCloseReason) : Tracked (s.close reason) := by
  unfold FanInConnection.close
  split
  · exact h
  · obtain ⟨lastClose, heq⟩ := foldl_closeSource (s := { s with closed := true }) s.sources.entries
      reason
    dsimp only
    rw [heq]
    refine ⟨fun ns source ↦ ?_, fun source hsource ↦ ?_, fun _ ns ↦ rfl⟩
    · refine iff_of_false (by simp) fun hlive ↦ ?_
      obtain ⟨hopened, hclosed, hended⟩ := isLive_iff.mp hlive
      simp only [mem_append, not_or] at hclosed
      have hget := (h.live ns source).mpr (isLive_iff.mpr ⟨hopened, hclosed.1, hended⟩)
      exact hclosed.2 (List.mem_map_of_mem ((s.sources.get?_eq_some_iff ns source).mp hget))
    · rcases hsource with hsource | hsource
      · rcases mem_append.mp hsource with hold | hnew
        · exact h.bound source (.inl hold)
        · obtain ⟨e, he, rfl⟩ := List.mem_map.mp hnew
          obtain ⟨request, hrequest, -⟩ := h.request ((s.sources.get?_eq_some_iff e.1 e.2).mpr he)
          exact (List.getElem?_eq_some_iff.mp hrequest).1
      · exact h.bound source (.inr hsource)

theorem Tracked.reopenAndTrack (h : Tracked s) (hclosed : s.closed = false)
    (url authHeader : Option String) : Tracked (s.reopenAndTrack ns url authHeader) := by
  unfold FanInConnection.reopenAndTrack
  split
  · exact h
  · have hagg : Tracked { s with agg := (s.agg.reopenArm ns).1 } :=
      h.congr (fun _ ↦ rfl) rfl rfl rfl rfl
    dsimp only
    split
    · exact hagg.close _
    · exact hagg.openArm hclosed _ _ _

theorem reopenArm_ne_sever {a : Aggregator} (h : a.peerArms.size ≠ 0) :
    (a.reopenArm ns).2 ≠ .sever := by
  rw [Aggregator.reopenArm]
  split
  · exact ReopenVerdict.noConfusion
  · split
    · exact ReopenVerdict.noConfusion
    · exact ReopenVerdict.noConfusion

structure Running (s : FanInConnection) : Prop where
  tracked : Tracked s
  running : s.closed = false

/-- The connection is open, and its aggregator has a peer arm. -/
structure Composite (s : FanInConnection) : Prop extends Running s where
  peers : s.agg.peerArms.size ≠ 0

theorem Composite.openPeer (h : Composite s) (deps : SseFanInDriverDeps) (answers : DepsAnswers)
    (machineId : String) : Composite (openPeer deps answers s machineId) := by
  unfold FanInConnection.openPeer
  split
  · exact h
  · refine ⟨⟨h.tracked.reopenAndTrack h.running _ _, ?_⟩, ?_⟩
    all_goals
      unfold FanInConnection.reopenAndTrack FanInConnection.openArm
      rename_i habsent
      rw [if_neg habsent]
      rw [if_neg (reopenArm_ne_sever h.peers), if_neg habsent]
      split
    · exact h.running
    · exact h.running
    · rw [(s.agg.reopenArm_arms machineId).1]
      exact h.peers
    · dsimp only
      rw [(s.agg.reopenArm_arms machineId).1]
      exact h.peers

theorem Running.openPeers (h : Running s) (deps : SseFanInDriverDeps) (answers : DepsAnswers) :
    Running (s.agg.peerArms.keys.foldl (openPeer deps answers) s) := by
  by_cases hpeers : s.agg.peerArms.size = 0
  -- with no peer arm the loop does nothing
  · have hnone : s.agg.peerArms.keys = [] := by
      rw [InsertionMap.keys, map_eq_nil_iff]
      exact eq_nil_of_length_eq_zero hpeers
    rw [hnone]
    exact h
  -- with one, it stays in composite mode, where no re-open severs the listener
  · have hcomposite : Composite (run (openPeer deps answers) s s.agg.peerArms.keys) :=
      invariant_run (fun s machineId h ↦ h.openPeer deps answers machineId) ⟨h, hpeers⟩ _
    exact hcomposite.toRunning

theorem Running.closeInactive (h : Running s) (active : List String) (machineId : String) :
    Running (closeInactive active s machineId) := by
  unfold FanInConnection.closeInactive
  split
  · exact h
  split
  · exact h
  split
  · exact h
  · rename_i source hget
    obtain ⟨request, hrequest, rfl⟩ := h.tracked.request hget
    refine ⟨h.tracked.remove hrequest ?_ rfl rfl ?_ rfl, h.running⟩
    · intro current hcurrent
      exact Option.some.inj (hcurrent.symm.trans hget)
    · intro x
      simp only [closeSource, noteArmClosed, mem_append, mem_singleton]
      tauto

theorem Running.closeInactives (h : Running s) (active machineIds : List String) :
    Running (run (FanInConnection.closeInactive active) s machineIds) :=
  invariant_run (fun _ machineId h ↦ h.closeInactive active machineId) h machineIds

theorem Tracked.reconcile (h : Tracked s) (deps : SseFanInDriverDeps) (answers : DepsAnswers) :
    Tracked (s.reconcile deps answers) := by
  unfold FanInConnection.reconcile
  split
  · exact h
  · rename_i hclosed
    have hstart : Running { s with agg := s.agg.setMembership (deriveMembership
        answers.ownerMachineIds deps.localMachineId answers.isReachable answers.peerToken) } :=
      ⟨h.congr (fun _ ↦ rfl) rfl rfl rfl rfl, by simpa using hclosed⟩
    have hopened := hstart.openPeers deps answers
    dsimp only
    split
    · exact (hopened.closeInactives _ _).tracked
    · exact (hopened.closeInactives _ _).tracked.reopenAndTrack
        (hopened.closeInactives _ _).running _ _

/-! ### The pumps -/

theorem endPump_eq (s : FanInConnection) (ns : String) (source : ℕ) (reason : FanInCloseReason) :
    ∃ lastClose, s.endPump ns source reason
      = { s with
        sources := s.sources.erase ns
        ended := s.ended ++ [source]
        returned := s.returned ++ [source]
        lastClose := lastClose } := by
  unfold endPump
  dsimp only
  split
  · exact ⟨_, rfl⟩
  · exact ⟨_, rfl⟩

/-- A pump that has read the end of its source, and finds no other source of its namespace in the
map, keeps the law. -/
theorem Tracked.endPump (h : Tracked s) {request : FanInUpstreamRequest}
    (hrequest : s.opened[source]? = some request)
    (hown : ∀ current ∈ s.sources.get? request.ns, current = source) (reason : FanInCloseReason) :
    Tracked (s.endPump request.ns source reason) := by
  obtain ⟨lastClose, heq⟩ := endPump_eq s request.ns source reason
  rw [heq]
  refine h.remove hrequest hown rfl rfl (fun x ↦ ?_) rfl
  simp only [mem_append, mem_singleton]
  tauto

/-- If the law holds afterwards, the pump has found no other source of its namespace in the map. -/
theorem own_of_endPump (h : Tracked s) {reason : FanInCloseReason}
    (hlaw : SourcesLaw (s.endPump ns source reason)) :
    ∀ current ∈ s.sources.get? ns, current = source := by
  intro current hcurrent
  by_contra hother
  obtain ⟨lastClose, heq⟩ := endPump_eq s ns source reason
  rw [heq] at hlaw
  -- the other source is as live as before, but the map has no entry of the namespace any more
  have hlive : FanInConnection.isLive { s with
      sources := s.sources.erase ns
      ended := s.ended ++ [source]
      returned := s.returned ++ [source]
      lastClose := lastClose } ns current = true := by
    have hbefore := isLive_iff.mp ((h.live ns current).mp hcurrent)
    rw [isLive_iff]
    exact ⟨hbefore.1, hbefore.2.1, by simp [hbefore.2.2, hother]⟩
  have hget := (sourcesLaw_iff.mp hlaw ns current).mpr hlive
  rw [InsertionMap.get?_erase_self] at hget
  cases hget

theorem Tracked.ingestFrame (h : Tracked s) (raw : String) :
    Tracked (s.ingestFrame ns source raw) := by
  unfold FanInConnection.ingestFrame
  split
  · rename_i hclosed
    -- after a close there is nothing in the map that the pump could remove
    refine h.congr (fun ns' ↦ ?_) rfl rfl rfl rfl
    rw [finishPump, InsertionMap.get?_erase, h.shut hclosed ns', ite_self]
  · have hingested : Tracked { s with
        agg := (s.agg.ingest ns ⟨raw, s.frames⟩).1
        frames := s.frames + 1 } := h.congr (fun _ ↦ rfl) rfl rfl rfl rfl
    dsimp only
    split
    · exact (hingested.close _).congr (fun _ ↦ rfl) rfl rfl rfl rfl
    · exact hingested

theorem Tracked.step (h : Tracked s) {deps : SseFanInDriverDeps} {op : FanInOp}
    (hop : PumpsItsOwn s op) : Tracked (s.step deps op) := by
  cases op with
  | reconcile answers => exact h.reconcile deps answers
  | close reason => exact h.close reason
  | drain =>
    unfold FanInConnection.step
    dsimp only
    split
    · exact h
    · exact h.congr (fun _ ↦ rfl) rfl rfl rfl rfl
  | pumpSettles source outcome =>
    unfold FanInConnection.step pumpSettles
    dsimp only
    split
    · exact h
    · rename_i request hrequest
      split
      · exact h
      · rename_i hreturned
        cases outcome with
        | frame raw => exact h.ingestFrame raw
        | null failed => exact h.endPump hrequest (hop request hrequest hreturned) _
        | threw => exact h.endPump hrequest (hop request hrequest hreturned) _

/-- A step after which the law holds meets the condition. -/
theorem pumpsItsOwn_of_law (h : Tracked s) {deps : SseFanInDriverDeps} {op : FanInOp}
    (hlaw : SourcesLaw (s.step deps op)) : PumpsItsOwn s op := by
  cases op with
  | reconcile answers => trivial
  | close reason => trivial
  | drain => trivial
  | pumpSettles source outcome =>
    unfold FanInConnection.step pumpSettles at hlaw
    cases outcome with
    | frame raw => trivial
    | null failed =>
      intro request hrequest hreturned
      simp only [Option.mem_def.mp hrequest, if_neg hreturned] at hlaw
      exact own_of_endPump h hlaw
    | threw =>
      intro request hrequest hreturned
      simp only [Option.mem_def.mp hrequest, if_neg hreturned] at hlaw
      exact own_of_endPump h hlaw

end Steps

theorem tracked_start (deps : SseFanInDriverDeps) (opts : SseFanInOptions)
    (authHeader cursor : Option String) (answers : DepsAnswers) :
    Tracked (.start deps opts authHeader cursor answers) := by
  have hnew : Tracked { FanInConnection.new opts authHeader with
      agg := (FanInConnection.new opts authHeader).agg.connect cursor opts.focusSnapshot
      resume := parseCompositeCursor cursor } := by
    refine ⟨fun ns source ↦ ?_, fun source hsource ↦ ?_, fun hclosed ↦ ?_⟩
    · simp [isLive_iff, FanInConnection.new]
    · simp [FanInConnection.new] at hsource
    · cases hclosed
  exact (hnew.openArm rfl _ _ _).reconcile deps answers

/-- The law holds from the start of a connection through a run exactly if every pump of the run that
reads the end of its source finds no other source of its namespace in the map. -/
theorem sourcesLaw_run_iff (deps : SseFanInDriverDeps) (opts : SseFanInOptions)
    (authHeader cursor : Option String) (answers : DepsAnswers) (ops : List FanInOp) :
    (SourcesLaw (.start deps opts authHeader cursor answers)
        ∧ Guarded (FanInConnection.step deps) (fun s op ↦ SourcesLaw (s.step deps op))
            (.start deps opts authHeader cursor answers) ops)
      ↔ Guarded (FanInConnection.step deps) PumpsItsOwn
          (.start deps opts authHeader cursor answers) ops := by
  have hstart := tracked_start deps opts authHeader cursor answers
  rw [and_iff_right hstart.law]
  refine guarded_iff_of_invariant (I := Tracked) (fun s op h ↦ ?_) (fun s op h hlaw ↦ ?_) hstart
  · exact ⟨pumpsItsOwn_of_law h, fun hop ↦ (h.step hop).law⟩
  · exact h.step (pumpsItsOwn_of_law h hlaw)

/-- What the dependencies of a listener answer while it has these owners; every peer answers at one
address, with a token. -/
def answersWithOwners (machineIds : List String) : DepsAnswers where
  ownerMachineIds := machineIds
  localEventUrl := some "http://127.0.0.1:4096"
  peerBaseUrl := fun _ ↦ some "http://studio:4096"
  peerToken := fun _ ↦ .ok "studio-token"

/-- A peer that goes dark and comes back before the pump of its first source has read its end. -/
def peerReturns : List FanInOp :=
  [.reconcile (answersWithOwners ["studio"]),
    .reconcile (answersWithOwners []),
    .reconcile (answersWithOwners ["studio"]),
    .pumpSettles 1 (.null false)]

/-- The pump of the closed source removes the new source of the peer from the map. -/
theorem not_sourcesLaw_peerReturns :
    ¬ ∀ (deps : SseFanInDriverDeps) (opts : SseFanInOptions) (authHeader cursor : Option String)
        (answers : DepsAnswers) (ops : List FanInOp),
      Guarded (FanInConnection.step deps) (fun s op ↦ SourcesLaw (s.step deps op))
        (.start deps opts authHeader cursor answers) ops := by
  intro h
  let deps : SseFanInDriverDeps := ⟨"laptop", id⟩
  obtain ⟨-, -, -, hlaw, -⟩ :=
    h deps ⟨fun _ ↦ true, 256, none⟩ none none (answersWithOwners []) peerReturns
  have hget : (none : Option ℕ) = some 2 := by
    refine Eq.trans ?_ ((hlaw.newest "studio").trans ?_) <;> decide +kernel
  cases hget

end Amicode
