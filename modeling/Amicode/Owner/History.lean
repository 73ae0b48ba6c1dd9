import Mathlib.Data.List.Find
import Amicode.Owner.OwnerMap

/-!
# The owner map refines its history

The map keeps summaries; this file says what a lookup means in terms of everything that happened.
`ownerOf` reads a history, newest operation first:

1. the owner of the last entry for the session in the latest refresh;
2. else the first peer of the latest refresh that still claims the session: it listed the session
   in its most recent answer, only failures that retain were reported of it since, and the answer
   is within the retention window of the latest refresh (`claimAt`);
3. else the latest binding recorded for the session, if no refresh since gave it an owner and it
   has not expired.

`resolveOwner_eq_ownerOf` is the refinement: after every sequence of operations under a clock that
does not run backwards, the map answers what `ownerOf` reads off the history. The clock matters
because the map forgets at refreshes what the history only forgets by looking at the time now.

`claimAt` is parametrised by which failures retain a claim and which refreshes count as an answer,
so that other readings can be compared with the map's (`not_ownerOf_anyFailure`).
-/

open List Option

namespace Amicode

/-! ## The reference -/

def outcomeIn (peers : List OwnerRefreshPeer) (p : String) : Option OwnerRefreshPeer :=
  peers.find? fun peer ↦ peer.machineId == p

def OwnerUpdate.outcomeOf (u : OwnerUpdate) (p : String) : Option OwnerRefreshPeer :=
  u.peers.bind fun outcomes ↦ outcomeIn outcomes.peers p

/-- Does a refresh list the session as the peer's? -/
def OwnerUpdate.lists (u : OwnerUpdate) (p id : String) : Bool :=
  u.held.any fun e ↦ e.1 == p && e.2.id == id

/-- The owner of the last entry for the session. -/
def OwnerUpdate.freshOwner (u : OwnerUpdate) (id : String) : Option String :=
  (u.held.reverse.find? fun e ↦ e.2.id == id).map Prod.fst

/-- How a claim outlives the refresh that made it: which failures keep it, and whether a failed
refresh that still lists the session counts as an answer. -/
structure ClaimRule where
  retains : OwnerRefreshPeer → Bool
  listingCounts : Bool

/-- The rule of the map: transport failures keep a claim, and only a success is an answer. -/
def mapRule : ClaimRule := ⟨refreshRetains, false⟩

section Claims

variable (rule : ClaimRule)

/-- When the peer last answered with the session listed, if every refresh since reported a failure
of it that keeps the claim. Refreshes newest first. -/
def claimAt (p id : String) : List OwnerUpdate → Option ℤ
  | [] => none
  | u :: older =>
    match u.outcomeOf p with
    | none => none
    | some peer =>
      if peer.outcome = .ok ∨ (rule.listingCounts = true ∧ u.lists p id = true) then
        if u.lists p id then some u.now else none
      else if rule.retains peer then claimAt p id older
      else none

/-- Does the peer's claim reach to the time `now`? -/
def claims (retentionMs : ℕ) (now : ℤ) (id : String) (us : List OwnerUpdate) (p : String) : Bool :=
  (claimAt rule p id us).any fun time ↦ now - time ≤ retentionMs

/-- The owner by the refreshes alone, newest first. -/
def projectedOwner (retentionMs : ℕ) (id : String) : List OwnerUpdate → Option String
  | [] => none
  | u :: older =>
    (u.freshOwner id).or <| u.peers.bind fun outcomes ↦
      (outcomes.peers.find? fun peer ↦
        claims rule retentionMs u.now id (u :: older) peer.machineId).map OwnerRefreshPeer.machineId

def refreshes (history : List OwnerOp) : List OwnerUpdate :=
  history.filterMap fun
    | .update u => some u
    | _ => none

/-- The latest binding recorded for the session, unless a refresh since gave it an owner. Newest
operation first. -/
def pendingOf (retentionMs : ℕ) (id : String) : List OwnerOp → Option PendingOwner
  | [] => none
  | .update u :: older =>
    if (projectedOwner rule retentionMs id (u :: refreshes older)).isSome then none
    else pendingOf retentionMs id older
  | .recordPendingOwner sessionId machineId now :: older =>
    if sessionId = id ∧ sessionId ≠ "" ∧ machineId ≠ "" then some ⟨machineId, now⟩
    else pendingOf retentionMs id older
  | .resolveOwner _ _ :: older => pendingOf retentionMs id older
  | .ownerMachineIds :: older => pendingOf retentionMs id older

/-- The owner of a session at a time, by the whole history, newest operation first. -/
def ownerOf (retentionMs : ℕ) (history : List OwnerOp) (id : String) (now : ℤ) : Option String :=
  (projectedOwner rule retentionMs id (refreshes history)).or
    (((pendingOf rule retentionMs id history).filter fun p ↦
      now - PENDING_OWNER_TTL_MS ≤ p.time).map PendingOwner.machineId)

end Claims

/-! ## The entries of one refresh -/

theorem outcomeIn_eq_none_iff (peers : List OwnerRefreshPeer) (p : String) :
    outcomeIn peers p = none ↔ p ∉ peers.map OwnerRefreshPeer.machineId := by
  rw [outcomeIn, find?_eq_none]
  simp

theorem machineId_of_outcomeIn {peers : List OwnerRefreshPeer} {p : String}
    {peer : OwnerRefreshPeer} (h : outcomeIn peers p = some peer) : peer.machineId = p := by
  simpa using find?_some h

theorem outcomeIn_machineId {peers : List OwnerRefreshPeer}
    (hdistinct : (peers.map OwnerRefreshPeer.machineId).Nodup) {peer : OwnerRefreshPeer}
    (h : peer ∈ peers) : outcomeIn peers peer.machineId = some peer := by
  induction peers with
  | nil => exact absurd h not_mem_nil
  | cons first peers ih =>
    obtain ⟨hnotin, hrest⟩ := nodup_cons.mp hdistinct
    rcases mem_cons.mp h with rfl | hmem
    · exact find?_cons_of_pos (beq_self_eq_true _)
    · have hne : first.machineId ≠ peer.machineId :=
        fun heq ↦ hnotin (heq ▸ List.mem_map_of_mem hmem)
      rw [outcomeIn, find?_cons_of_neg (by simpa using hne)]
      exact ih hrest hmem

theorem OwnerUpdate.owner_ne_empty {u : OwnerUpdate} {e : String × HeldEntry} (h : e ∈ u.held) :
    e.1 ≠ "" := by
  obtain ⟨s, -, hs⟩ := mem_filterMap.mp h
  rw [SessionEntry.held?] at hs
  split at hs
  · split_ifs at hs with hempty
    obtain rfl := Option.some.inj hs
    exact hempty
  · exact absurd hs (by simp)

variable {p id : String}

theorem OwnerUpdate.ne_empty_of_lists {u : OwnerUpdate} (h : u.lists p id = true) : p ≠ "" := by
  obtain ⟨e, he, hp⟩ := List.any_eq_true.mp h
  simp only [Bool.and_eq_true, beq_iff_eq] at hp
  exact hp.1 ▸ owner_ne_empty he

theorem OwnerUpdate.freshOwner_ne_none {u : OwnerUpdate} (h : u.lists p id = true) : u.freshOwner id ≠ none := by
  obtain ⟨e, he, hid⟩ := List.any_eq_true.mp h
  rw [freshOwner, ne_eq, map_eq_none_iff, find?_eq_none]
  intro hnone
  simp only [Bool.and_eq_true] at hid
  exact hnone e (mem_reverse.mpr he) hid.2

theorem get?_freshByOwner (held : List (String × HeldEntry)) (p : String) :
    ((freshByOwner held).get? p).getD []
      = (held.filter fun e ↦ e.1 == p).map Prod.snd := by
  have hgen : ∀ acc : InsertionMap String (List HeldEntry),
      ((held.foldl (fun fresh e ↦ fresh.set e.1 ((fresh.get? e.1).getD [] ++ [e.2])) acc).get?
        p).getD [] = (acc.get? p).getD [] ++ (held.filter fun e ↦ e.1 == p).map Prod.snd := by
    induction held with
    | nil => simp
    | cons e held ih =>
      intro acc
      rw [foldl_cons, ih, InsertionMap.get?_set]
      by_cases h : e.1 = p
      · simp [h]
      · simp [h]
  exact hgen ∅

theorem lists_iff_freshByOwner (u : OwnerUpdate) (p id : String) :
    u.lists p id = (((freshByOwner u.held).get? p).getD []).any fun e ↦ e.id == id := by
  rw [get?_freshByOwner, List.any_map, List.any_filter]
  rfl

namespace SessionOwnerMap

variable (m : SessionOwnerMap) (owner : String)

theorem hold_owners (e : HeldEntry) (id : String) :
    (m.hold owner e).owners.get? id = if e.id = id then some owner else m.owners.get? id :=
  InsertionMap.get?_set m.owners e.id owner id

theorem rebuild_owners (u : OwnerUpdate) (m : SessionOwnerMap) (id : String) :
    (m.rebuild u.held).owners.get? id = u.freshOwner id := by
  have hgen : ∀ (held : List (String × HeldEntry)) (m : SessionOwnerMap),
      (held.foldl (fun m e ↦ m.hold e.1 e.2) m).owners.get? id
        = ((held.reverse.find? fun e ↦ e.2.id == id).map Prod.fst).or (m.owners.get? id) := by
    intro held
    induction held with
    | nil => simp
    | cons e held ih =>
      intro m
      rw [foldl_cons, ih, hold_owners, reverse_cons, find?_append, map_or,
        Option.or_assoc]
      congr 1
      by_cases h : e.2.id = id <;> simp [h]
  rw [rebuild, hgen, OwnerUpdate.freshOwner]
  exact or_none

/-- Holding entries changes the owners and directories only. -/
theorem rebuild_rest (held : List (String × HeldEntry)) (m : SessionOwnerMap) :
    (m.rebuild held).lastGood = m.lastGood ∧ (m.rebuild held).pending = m.pending := by
  have hgen : ∀ m : SessionOwnerMap, (held.foldl (fun m e ↦ m.hold e.1 e.2) m).lastGood
      = m.lastGood ∧ (held.foldl (fun m e ↦ m.hold e.1 e.2) m).pending = m.pending := by
    induction held with
    | nil => exact fun m ↦ ⟨rfl, rfl⟩
    | cons e held ih => exact fun m ↦ ih (m.hold e.1 e.2)
  exact hgen _

theorem holdMissing_owners (entries : List HeldEntry) (id : String) : (m.holdMissing owner entries).owners.get? id
      = (m.owners.get? id).or (if entries.any (fun e ↦ e.id == id) then some owner else none) := by
  rw [holdMissing]
  induction entries generalizing m with
  | nil => simp
  | cons e entries ih =>
    rw [foldl_cons, ih]
    by_cases hheld : m.owners.contains e.id = true
    · -- the entry is already owned, here or by a fresh entry
      rw [if_pos hheld]
      by_cases hid : e.id = id
      · obtain ⟨owner', howner⟩ := isSome_iff_exists.mp (hid ▸ hheld)
        simp [howner]
      · simp [hid]
    · rw [if_neg hheld, hold_owners]
      by_cases hid : e.id = id
      · have hnone : m.owners.get? id = none := by
          rw [← hid]
          simpa [InsertionMap.contains] using hheld
        simp [hid, hnone]
      · simp [hid]

theorem holdMissing_rest (entries : List HeldEntry) : (m.holdMissing owner entries).lastGood = m.lastGood
      ∧ (m.holdMissing owner entries).pending = m.pending := by
  rw [holdMissing]
  induction entries generalizing m with
  | nil => exact ⟨rfl, rfl⟩
  | cons e entries ih =>
    rw [foldl_cons]
    split_ifs
    · exact ih m
    · exact ih (m.hold owner e)

/-! ## One peer's outcome -/

section Outcome

variable (retentionMs : ℕ) (now : ℤ) (fresh : InsertionMap String (List HeldEntry))
  (acc : SessionOwnerMap × InsertionMap String OwnerRetention) (peer : OwnerRefreshPeer)

/-- Is a failed peer's last-good record kept? -/
def keepsRecord (last : LastGood) : Bool :=
  refreshRetains peer && now - last.time ≤ retentionMs

theorem applyPeerOutcome_cases :
    (peer.outcome = .ok ∧ (applyPeerOutcome retentionMs now fresh acc peer).1 = { acc.1 with
        lastGood := if 0 < ((fresh.get? peer.machineId).getD []).length then
            acc.1.lastGood.set peer.machineId ⟨now, (fresh.get? peer.machineId).getD []⟩
          else acc.1.lastGood.erase peer.machineId
        unavailablePeers := acc.1.unavailablePeers.erase peer.machineId })
    ∨ (peer.outcome ≠ .ok ∧ ∃ last, acc.1.lastGood.get? peer.machineId = some last ∧
        keepsRecord retentionMs now peer last = true ∧
        (applyPeerOutcome retentionMs now fresh acc peer).1
          = acc.1.holdMissing peer.machineId last.entries)
    ∨ (peer.outcome ≠ .ok ∧ ∃ last, acc.1.lastGood.get? peer.machineId = some last ∧
        keepsRecord retentionMs now peer last = false ∧
        (applyPeerOutcome retentionMs now fresh acc peer).1 = { acc.1 with
          lastGood := acc.1.lastGood.erase peer.machineId
          unavailablePeers := InsertionSet.add acc.1.unavailablePeers peer.machineId })
    ∨ (peer.outcome ≠ .ok ∧ acc.1.lastGood.get? peer.machineId = none ∧
        (applyPeerOutcome retentionMs now fresh acc peer).1 = acc.1) := by
  obtain ⟨m, out⟩ := acc
  rw [applyPeerOutcome]
  by_cases hok : peer.outcome = .ok
  · exact Or.inl ⟨hok, by rw [if_pos hok]⟩
  · simp only [if_neg hok]
    rcases hlast : m.lastGood.get? peer.machineId with _ | last
    · exact Or.inr (Or.inr (Or.inr ⟨hok, rfl, rfl⟩))
    · by_cases hkeeps : keepsRecord retentionMs now peer last = true
      · refine Or.inr (Or.inl ⟨hok, last, rfl, hkeeps, ?_⟩)
        exact congrArg Prod.fst (if_pos hkeeps)
      · refine Or.inr (Or.inr (Or.inl ⟨hok, last, rfl, Bool.eq_false_iff.mpr hkeeps, ?_⟩))
        exact congrArg Prod.fst (if_neg hkeeps)

/-- The last-good record of a peer after its outcome. -/
def settled (last : Option LastGood) : Option LastGood :=
  let entries := (fresh.get? peer.machineId).getD []
  if peer.outcome = .ok then if 0 < entries.length then some ⟨now, entries⟩ else none
  else last.filter (keepsRecord retentionMs now peer)

theorem applyPeerOutcome_lastGood (p : String) :
    (applyPeerOutcome retentionMs now fresh acc peer).1.lastGood.get? p
      = if peer.machineId = p then settled retentionMs now fresh peer (acc.1.lastGood.get? p)
        else acc.1.lastGood.get? p := by
  by_cases hp : peer.machineId = p
  · subst hp
    rw [if_pos rfl, settled]
    rcases applyPeerOutcome_cases retentionMs now fresh acc peer with
      ⟨hok, heq⟩ | ⟨hok, last, hlast, hkeeps, heq⟩ | ⟨hok, last, hlast, hkeeps, heq⟩ |
        ⟨hok, hlast, heq⟩
    · rw [heq, if_pos hok]
      split_ifs <;> simp
    · simp [heq, hok, hlast, hkeeps, holdMissing_rest, Option.filter]
    · simp [heq, hok, hlast, hkeeps, Option.filter]
    · simp [heq, hok, hlast]
  · rw [if_neg hp]
    rcases applyPeerOutcome_cases retentionMs now fresh acc peer with
      ⟨hok, heq⟩ | ⟨hok, last, hlast, hkeeps, heq⟩ | ⟨hok, last, hlast, hkeeps, heq⟩ |
        ⟨hok, hlast, heq⟩
    · rw [heq]
      split_ifs
      · exact InsertionMap.get?_set_of_ne _ _ hp
      · exact InsertionMap.get?_erase_of_ne _ hp
    · rw [heq, (holdMissing_rest _ _ _).1]
    · rw [heq]
      exact InsertionMap.get?_erase_of_ne _ hp
    · rw [heq]

/-- Does a failed peer keep the session, from its last-good record? -/
def keepsSession (id : String) (last : Option LastGood) : Bool :=
  decide (peer.outcome ≠ .ok) && last.any fun last ↦
    keepsRecord retentionMs now peer last && last.entries.any fun e ↦ e.id == id

theorem applyPeerOutcome_owners (id : String) :
    (applyPeerOutcome retentionMs now fresh acc peer).1.owners.get? id
      = (acc.1.owners.get? id).or
          (if keepsSession retentionMs now peer id (acc.1.lastGood.get? peer.machineId) then
            some peer.machineId else none) := by
  rw [keepsSession]
  rcases applyPeerOutcome_cases retentionMs now fresh acc peer with
    ⟨hok, heq⟩ | ⟨hok, last, hlast, hkeeps, heq⟩ | ⟨hok, last, hlast, hkeeps, heq⟩ |
      ⟨hok, hlast, heq⟩
  · simp [heq, hok]
  · rw [heq, holdMissing_owners]
    simp [hok, hlast, hkeeps]
  · simp [heq, hlast, hkeeps]
  · simp [heq, hlast]

theorem applyPeerOutcome_pending :
    (applyPeerOutcome retentionMs now fresh acc peer).1.pending = acc.1.pending := by
  rcases applyPeerOutcome_cases retentionMs now fresh acc peer with
    ⟨-, heq⟩ | ⟨-, last, -, -, heq⟩ | ⟨-, last, -, -, heq⟩ | ⟨-, -, heq⟩
  · rw [heq]
  · rw [heq, (holdMissing_rest _ _ _).2]
  · rw [heq]
  · rw [heq]

end Outcome

/-! ## One refresh -/

section Refresh

variable (retentionMs : ℕ) (now : ℤ) (fresh : InsertionMap String (List HeldEntry)) (peers : List OwnerRefreshPeer)

section

variable (hdistinct : (peers.map OwnerRefreshPeer.machineId).Nodup)
  (acc : SessionOwnerMap × InsertionMap String OwnerRetention)

include hdistinct

theorem foldl_outcomes_lastGood (p : String) :
    (peers.foldl (applyPeerOutcome retentionMs now fresh) acc).1.lastGood.get? p
      = (outcomeIn peers p).elim (acc.1.lastGood.get? p) fun peer ↦
          settled retentionMs now fresh peer (acc.1.lastGood.get? p) := by
  induction peers generalizing acc with
  | nil => rfl
  | cons peer peers ih =>
    obtain ⟨hnotin, hrest⟩ := nodup_cons.mp hdistinct
    rw [foldl_cons, ih hrest, applyPeerOutcome_lastGood]
    by_cases hp : peer.machineId = p
    · have hnone : outcomeIn peers p = none :=
        (outcomeIn_eq_none_iff peers p).mpr (hp ▸ hnotin)
      have hsome : outcomeIn (peer :: peers) p = some peer :=
        find?_cons_of_pos (by simpa using hp)
      rw [hnone, hsome, if_pos hp]
      rfl
    · have hskip : outcomeIn (peer :: peers) p = outcomeIn peers p :=
        find?_cons_of_neg (by simpa using hp)
      rw [hskip, if_neg hp]

theorem foldl_outcomes_owners (id : String) :
    (peers.foldl (applyPeerOutcome retentionMs now fresh) acc).1.owners.get? id
      = (acc.1.owners.get? id).or ((peers.find? fun peer ↦
          keepsSession retentionMs now peer id (acc.1.lastGood.get? peer.machineId)).map
            OwnerRefreshPeer.machineId) := by
  induction peers generalizing acc with
  | nil => simp
  | cons peer peers ih =>
    obtain ⟨hnotin, hrest⟩ := nodup_cons.mp hdistinct
    -- the outcome of `peer` leaves the records of the peers after it alone
    have hlater : peers.find? (fun q ↦ keepsSession retentionMs now q id
          ((applyPeerOutcome retentionMs now fresh acc peer).1.lastGood.get? q.machineId))
        = peers.find? fun q ↦
          keepsSession retentionMs now q id (acc.1.lastGood.get? q.machineId) := by
      apply find?_congr
      intro q hq
      have hne : peer.machineId ≠ q.machineId :=
        fun heq ↦ hnotin (heq ▸ List.mem_map_of_mem hq)
      rw [applyPeerOutcome_lastGood, if_neg hne]
    rw [foldl_cons, ih hrest, hlater, applyPeerOutcome_owners, Option.or_assoc]
    congr 1
    rcases hkeeps : keepsSession retentionMs now peer id (acc.1.lastGood.get? peer.machineId)
    · rw [find?_cons_of_neg (by simp [hkeeps])]
      rfl
    · rw [find?_cons_of_pos (by simp [hkeeps])]
      rfl

end

theorem foldl_outcomes_pending (acc : SessionOwnerMap × InsertionMap String OwnerRetention) :
    (peers.foldl (applyPeerOutcome retentionMs now fresh) acc).1.pending = acc.1.pending := by
  induction peers generalizing acc with
  | nil => rfl
  | cons peer peers ih => rw [foldl_cons, ih, applyPeerOutcome_pending]

end Refresh

section Update

variable (retentionMs : ℕ) (u : OwnerUpdate) (m : SessionOwnerMap)

/-- The map of a refresh before its pending bindings are pruned. -/
def refreshed : SessionOwnerMap :=
  match u.peers with
  | none => (m.rebuild u.held).forgetPeers
  | some outcomes =>
    ((m.rebuild u.held).applyPeerOutcomes retentionMs u.now (freshByOwner u.held)
      outcomes.peers).1

theorem update_eq : (m.update retentionMs u).1 = (refreshed retentionMs u m).prunePending u.pruneNow := by
  rw [update, refreshed]
  rcases u.peers with _ | outcomes <;> rfl

theorem keepRefreshed_lastGood (peers : List OwnerRefreshPeer) (p : String) :
    ((m.rebuild u.held).keepRefreshed (peers.map OwnerRefreshPeer.machineId)).lastGood.get? p
      = if p ∈ peers.map OwnerRefreshPeer.machineId then m.lastGood.get? p else none := by
  rw [keepRefreshed, InsertionMap.get?_filterKeys, (rebuild_rest _ _).1]
  simp

/-- The records after a refresh: none for a peer it did not refresh. -/
theorem update_lastGood (p : String) :
    (m.update retentionMs u).1.lastGood.get? p
      = (u.outcomeOf p).bind fun peer ↦
          settled retentionMs u.now (freshByOwner u.held) peer (m.lastGood.get? p) := by
  rw [update_eq]
  show (refreshed retentionMs u m).lastGood.get? p = _
  rw [OwnerUpdate.outcomeOf, refreshed]
  rcases u.peers with _ | outcomes
  · rfl
  · simp only [bind_some]
    rw [applyPeerOutcomes, foldl_outcomes_lastGood _ _ _ _ outcomes.distinct,
      keepRefreshed_lastGood]
    rcases hfind : outcomeIn outcomes.peers p with _ | peer
    · exact if_neg ((outcomeIn_eq_none_iff _ _).mp hfind)
    · have hmem : p ∈ outcomes.peers.map OwnerRefreshPeer.machineId := by
        by_contra hnot
        exact absurd hfind (by simp [(outcomeIn_eq_none_iff _ _).mpr hnot])
      rw [if_pos hmem]
      rfl

theorem update_owners (id : String) :
    (m.update retentionMs u).1.owners.get? id
      = (u.freshOwner id).or (u.peers.bind fun outcomes ↦ (outcomes.peers.find? fun peer ↦
          keepsSession retentionMs u.now peer id (m.lastGood.get? peer.machineId)).map
            OwnerRefreshPeer.machineId) := by
  rw [update_eq]
  show (refreshed retentionMs u m).owners.get? id = _
  rw [refreshed]
  rcases u.peers with _ | outcomes
  · rw [bind_none, or_none]
    exact rebuild_owners u m id
  · simp only [bind_some]
    rw [applyPeerOutcomes, foldl_outcomes_owners _ _ _ _ outcomes.distinct]
    have hkept : ∀ peer ∈ outcomes.peers,
        keepsSession retentionMs u.now peer id (((m.rebuild u.held).keepRefreshed
          (outcomes.peers.map OwnerRefreshPeer.machineId)).lastGood.get? peer.machineId)
        = keepsSession retentionMs u.now peer id (m.lastGood.get? peer.machineId) := by
      intro peer hpeer
      rw [keepRefreshed_lastGood, if_pos (List.mem_map_of_mem hpeer)]
    rw [find?_congr hkept]
    rw [← rebuild_owners u m id]
    rfl

theorem update_pending (id : String) :
    (m.update retentionMs u).1.pending.get? id
      = (m.pending.get? id).filter fun entry ↦
          !((m.update retentionMs u).1.owners.contains id
            || entry.time < u.pruneNow - PENDING_OWNER_TTL_MS) := by
  have hsame : (refreshed retentionMs u m).pending = m.pending := by
    rw [refreshed]
    rcases u.peers with _ | outcomes
    · exact (rebuild_rest u.held m).2
    · dsimp only
      rw [applyPeerOutcomes, foldl_outcomes_pending]
      exact (rebuild_rest u.held m).2
  rw [update_eq, prunePending, InsertionMap.get?_filter, hsame]

end Update

end SessionOwnerMap

/-! ## The invariant -/

open SessionOwnerMap

/-- The map after a history is the summary of the history, at a time not before its last clock
reading. -/
structure Summarizes (retentionMs : ℕ) (history : List OwnerOp) (clock : ℤ)
    (m : SessionOwnerMap) : Prop where
  owners : ∀ id, m.owners.get? id = projectedOwner mapRule retentionMs id (refreshes history)
  recorded : ∀ p last, m.lastGood.get? p = some last → ∀ id,
    claimAt mapRule p id (refreshes history)
      = if last.entries.any (fun e ↦ e.id == id) then some last.time else none
  lapsed : ∀ p, m.lastGood.get? p = none → ∀ id time,
    claimAt mapRule p id (refreshes history) = some time → retentionMs < clock - time
  pending : ∀ id p, m.pending.get? id = some p → pendingOf mapRule retentionMs id history = some p
  expired : ∀ id p, m.pending.get? id = none →
    pendingOf mapRule retentionMs id history = some p → p.time < clock - PENDING_OWNER_TTL_MS

theorem Summarizes.mono {retentionMs : ℕ} {history : List OwnerOp} {clock clock' : ℤ}
    {m : SessionOwnerMap} (h : Summarizes retentionMs history clock m) (hle : clock ≤ clock') :
    Summarizes retentionMs history clock' m :=
  ⟨h.owners, h.recorded, fun p hp id time hc ↦ by have := h.lapsed p hp id time hc; omega,
    h.pending, fun id p hp hq ↦ by have := h.expired id p hp hq; omega⟩

theorem summarizes_init (retentionMs : ℕ) (clock : ℤ) : Summarizes retentionMs [] clock {} :=
  ⟨fun _ ↦ rfl, fun p last h ↦ by simp at h, fun p _ id time h ↦ by simp [refreshes, claimAt] at h,
    fun id p h ↦ by simp at h, fun id p _ h ↦ by simp [pendingOf] at h⟩

section Step

variable {retentionMs : ℕ} {history : List OwnerOp} {clock : ℤ} {m : SessionOwnerMap} {u : OwnerUpdate}

theorem claimAt_mapRule_cons {older : List OwnerUpdate} {p : String}
    {peer : OwnerRefreshPeer} (hout : u.outcomeOf p = some peer) (id : String) : claimAt mapRule p id (u :: older)
      = if peer.outcome = .ok then if u.lists p id then some u.now else none
        else if refreshRetains peer then claimAt mapRule p id older else none := by
  have hrule : (mapRule.listingCounts = true ∧ u.lists p id = true) = False :=
    eq_false fun h ↦ Bool.false_ne_true h.1
  simp only [claimAt, hout, hrule, or_false]
  rfl

section

variable (h : Summarizes retentionMs history clock m)

include h

theorem claimAt_cons (hclock : clock ≤ u.now) (p : String) :
    (∀ last, (m.update retentionMs u).1.lastGood.get? p = some last → ∀ id,
        claimAt mapRule p id (u :: refreshes history)
          = if last.entries.any (fun e ↦ e.id == id) then some last.time else none)
      ∧ ((m.update retentionMs u).1.lastGood.get? p = none → ∀ id time,
        claimAt mapRule p id (u :: refreshes history) = some time → retentionMs < u.now - time) := by
  rw [update_lastGood]
  rcases hout : u.outcomeOf p with _ | peer
  · simp [claimAt, hout]
  · have hname : peer.machineId = p := by
      obtain ⟨outcomes, -, hin⟩ := bind_eq_some_iff.mp hout
      exact machineId_of_outcomeIn hin
    simp only [bind_some, claimAt_mapRule_cons hout]
    rw [settled, hname]
    by_cases hok : peer.outcome = .ok
    · -- an answer: the record is exactly what it lists
      simp only [if_pos hok, lists_iff_freshByOwner]
      split_ifs with hlen
      · refine ⟨?_, fun hnone ↦ absurd hnone (by simp)⟩
        rintro last ⟨⟩ id
        rfl
      · have hnil : ((freshByOwner u.held).get? p).getD [] = [] :=
          length_eq_zero_iff.mp (by omega)
        simp [hnil]
    · simp only [if_neg hok]
      rcases hlast : m.lastGood.get? p with _ | last
      · refine ⟨by simp, fun _ id time hclaim ↦ ?_⟩
        split_ifs at hclaim
        have := h.lapsed p hlast id time hclaim
        omega
      · by_cases hkeeps : keepsRecord retentionMs u.now peer last = true
        · -- a failure inside the window: the record stands, and so does the claim
          have hretains : refreshRetains peer = true := by
            rw [keepsRecord, Bool.and_eq_true] at hkeeps
            exact hkeeps.1
          refine ⟨?_, fun hnone ↦ absurd hnone (by simp [Option.filter, hkeeps])⟩
          intro last' hlast' id
          obtain rfl : last = last' := by simpa [Option.filter, hkeeps] using hlast'
          rw [if_pos hretains]
          exact h.recorded p last hlast id
        · refine ⟨fun last' hlast' ↦ absurd hlast' (by simp [Option.filter, hkeeps]), ?_⟩
          intro _ id time hclaim
          split_ifs at hclaim with hretains
          rw [h.recorded p last hlast id] at hclaim
          split_ifs at hclaim
          obtain rfl : last.time = time := Option.some.inj hclaim
          rw [keepsRecord, hretains, Bool.true_and, decide_eq_true_eq] at hkeeps
          omega

theorem keepsSession_eq_claims (hclock : clock ≤ u.now) {id : String} (hfresh : u.freshOwner id = none)
    {peer : OwnerRefreshPeer} (hout : u.outcomeOf peer.machineId = some peer) :
    keepsSession retentionMs u.now peer id (m.lastGood.get? peer.machineId)
      = claims mapRule retentionMs u.now id (u :: refreshes history) peer.machineId := by
  rw [claims, claimAt_mapRule_cons hout, keepsSession]
  by_cases hok : peer.outcome = .ok
  · have hlists : ¬u.lists peer.machineId id = true :=
      fun hl ↦ OwnerUpdate.freshOwner_ne_none hl hfresh
    simp [hok, hlists]
  · rw [if_neg hok]
    rcases hlast : m.lastGood.get? peer.machineId with _ | last
    · -- without a record, whatever is still claimed has lapsed
      split_ifs with hretains
      · rcases hclaim : claimAt mapRule peer.machineId id (refreshes history) with _ | time
        · simp
        · have hlapsed := h.lapsed peer.machineId hlast id time hclaim
          have hout : ¬u.now - time ≤ retentionMs := by omega
          rw [any_none, any_some, Bool.and_false, decide_eq_false hout]
      · simp
    · rw [h.recorded peer.machineId last hlast id]
      rcases hlisted : last.entries.any (fun e ↦ e.id == id) with _ | _ <;>
        by_cases hretains : refreshRetains peer = true <;>
          simp [keepsRecord, hok, hlisted, hretains]

theorem projectedOwner_cons (u : OwnerUpdate) (hclock : clock ≤ u.now) (id : String) :
    (m.update retentionMs u).1.owners.get? id
      = projectedOwner mapRule retentionMs id (u :: refreshes history) := by
  rw [update_owners, projectedOwner]
  rcases hfresh : u.freshOwner id with _ | owner
  · rw [none_or, none_or]
    rcases hpeers : u.peers with _ | outcomes
    · rfl
    · simp only [bind_some]
      congr 1
      apply find?_congr
      intro peer hpeer
      apply keepsSession_eq_claims h hclock hfresh
      rw [OwnerUpdate.outcomeOf, hpeers]
      exact outcomeIn_machineId outcomes.distinct hpeer
  · rfl

theorem summarizes_update (u : OwnerUpdate) (hclock : clock ≤ u.now) (hprune : u.now ≤ u.pruneNow) :
    Summarizes retentionMs (.update u :: history) u.pruneNow (m.update retentionMs u).1 := by
  have howners := projectedOwner_cons h u hclock
  have hcontains : ∀ id, (m.update retentionMs u).1.owners.contains id
      = (projectedOwner mapRule retentionMs id (u :: refreshes history)).isSome :=
    fun id ↦ congrArg Option.isSome (howners id)
  refine ⟨howners, fun p ↦ (claimAt_cons h hclock p).1, fun p hp id time hc ↦ ?_, ?_, ?_⟩
  · have := (claimAt_cons h hclock p).2 hp id time hc
    omega
  · intro id p hp
    rw [update_pending, filter_eq_some_iff, hcontains] at hp
    obtain ⟨hp, hkept⟩ := hp
    simp only [Bool.not_eq_true', Bool.or_eq_false_iff] at hkept
    rw [pendingOf, hkept.1]
    exact h.pending id p hp
  · intro id p hp hq
    rw [pendingOf] at hq
    split_ifs at hq with howned
    -- the binding was pruned now, or it had expired before
    rcases hold : m.pending.get? id with _ | p'
    · have := h.expired id p hold hq
      omega
    · obtain rfl : p = p' := Option.some.inj (hq.symm.trans (h.pending id p' hold))
      rw [update_pending, hold, hcontains, Bool.eq_false_iff.mpr howned] at hp
      by_contra hlate
      simp [Option.filter, hlate] at hp

theorem summarizes_record (sessionId machineId : String) {now : ℤ} (hclock : clock ≤ now) :
    Summarizes retentionMs (.recordPendingOwner sessionId machineId now :: history) now
      (m.recordPendingOwner sessionId machineId now) := by
  have hmono := h.mono hclock
  rw [recordPendingOwner]
  split_ifs with hempty
  · have hsame : ∀ id, pendingOf mapRule retentionMs id
        (.recordPendingOwner sessionId machineId now :: history)
        = pendingOf mapRule retentionMs id history := by
      intro id
      rw [pendingOf, if_neg]
      rintro ⟨-, hs, hm⟩
      exact hempty.elim hs hm
    refine ⟨h.owners, h.recorded, hmono.lapsed, fun id p hp ↦ ?_, fun id p hp hq ↦ ?_⟩
    · rw [hsame]
      exact h.pending id p hp
    · rw [hsame] at hq
      exact hmono.expired id p hp hq
  · rw [not_or] at hempty
    refine ⟨h.owners, h.recorded, hmono.lapsed, fun id p hp ↦ ?_, fun id p hp hq ↦ ?_⟩
    · rw [InsertionMap.get?_set] at hp
      rw [pendingOf]
      split_ifs at hp with hid
      · rw [if_pos ⟨hid, hempty⟩, hp]
      · rw [if_neg fun hand ↦ hid hand.1]
        exact h.pending id p hp
    · rw [InsertionMap.get?_set] at hp
      rw [pendingOf] at hq
      split_ifs at hp with hid
      rw [if_neg fun hand ↦ hid hand.1] at hq
      exact hmono.expired id p hp hq

theorem summarizes_resolve (sessionId : String) {now : ℤ} (hclock : clock ≤ now) :
    Summarizes retentionMs (.resolveOwner sessionId now :: history) now (m.resolveOwner sessionId now).2 := by
  have hmono := h.mono hclock
  have hsame : Summarizes retentionMs (.resolveOwner sessionId now :: history) now m :=
    ⟨h.owners, h.recorded, hmono.lapsed, h.pending, hmono.expired⟩
  rw [resolveOwner]
  split
  · exact hsame
  · split
    · exact hsame
    · rename_i p hp
      split_ifs with hlate
      · -- an expired binding is dropped
        refine ⟨h.owners, h.recorded, hmono.lapsed, fun id q hq ↦ ?_, fun id q hq hpend ↦ ?_⟩
        · rw [InsertionMap.get?_erase] at hq
          split_ifs at hq
          exact h.pending id q hq
        · rw [InsertionMap.get?_erase] at hq
          split_ifs at hq with hid
          · subst hid
            obtain rfl : p = q := Option.some.inj ((h.pending sessionId p hp).symm.trans hpend)
            exact hlate
          · exact hmono.expired id q hq hpend
      · exact hsame

end

/-- The clock after an operation: its last reading, if it took one. -/
def OwnerOp.clockAfter (clock : ℤ) (op : OwnerOp) : ℤ :=
  (clock :: op.readings).getLast (List.cons_ne_nil _ _)

theorem summarizes_step (h : Summarizes retentionMs history clock m) (op : OwnerOp)
    (hsorted : (clock :: op.readings).Pairwise (· ≤ ·)) :
    Summarizes retentionMs (op :: history) (op.clockAfter clock) (m.step retentionMs op) := by
  rcases op with u | ⟨sessionId, machineId, now⟩ | ⟨sessionId, now⟩ | _
  · obtain ⟨hfirst, hrest⟩ := pairwise_cons.mp hsorted
    exact summarizes_update h u (hfirst u.now (by simp [OwnerOp.readings]))
      ((pairwise_cons.mp hrest).1 u.pruneNow (by simp))
  · exact summarizes_record h sessionId machineId
      ((pairwise_cons.mp hsorted).1 now (by simp [OwnerOp.readings]))
  · exact summarizes_resolve h sessionId
      ((pairwise_cons.mp hsorted).1 now (by simp [OwnerOp.readings]))
  · exact ⟨h.owners, h.recorded, h.lapsed, h.pending, h.expired⟩

theorem summarizes_run (h : Summarizes retentionMs history clock m) (ops : List OwnerOp)
    {clock' : ℤ} (hsorted : (clock :: (ops.flatMap OwnerOp.readings ++ [clock'])).Pairwise (· ≤ ·)) :
    Summarizes retentionMs (ops.reverse ++ history) clock'
      (StepMachine.run (SessionOwnerMap.step retentionMs) m ops) := by
  induction ops generalizing clock history m with
  | nil => exact h.mono ((pairwise_cons.mp hsorted).1 clock' (by simp))
  | cons op ops ih =>
    rw [flatMap_cons, append_assoc, ← cons_append] at hsorted
    obtain ⟨hop, hops, hbetween⟩ := pairwise_append.mp hsorted
    rw [reverse_cons, append_assoc, StepMachine.run_cons]
    refine ih (summarizes_step h op hop) (pairwise_cons.mpr ⟨?_, hops⟩)
    exact fun r hr ↦ hbetween _ (getLast_mem _) r hr

end Step

/-! ## The refinement -/

theorem claimAt_ne_empty (rule : ClaimRule) {us : List OwnerUpdate} {time : ℤ}
    (h : claimAt rule p id us = some time) : p ≠ "" := by
  induction us with
  | nil => exact absurd h (by simp [claimAt])
  | cons u older ih =>
    rw [claimAt] at h
    split at h
    · exact absurd h (by simp)
    · split_ifs at h with hanswer hlists hretains
      · exact OwnerUpdate.ne_empty_of_lists hlists
      · exact ih h

theorem projectedOwner_ne_empty (rule : ClaimRule) (retentionMs : ℕ) (id : String)
    (us : List OwnerUpdate) : projectedOwner rule retentionMs id us ≠ some "" := by
  rcases us with _ | ⟨u, older⟩
  · simp [projectedOwner]
  · rw [projectedOwner]
    intro h
    rcases hfresh : u.freshOwner id with _ | owner
    · rw [hfresh, none_or] at h
      obtain ⟨outcomes, -, hfind⟩ := bind_eq_some_iff.mp h
      obtain ⟨peer, hpeer, hname⟩ := map_eq_some_iff.mp hfind
      have hclaims : claims rule retentionMs u.now id (u :: older) peer.machineId = true :=
        find?_some (p := fun peer : OwnerRefreshPeer ↦
          claims rule retentionMs u.now id (u :: older) peer.machineId) hpeer
      rw [claims, Option.any_eq_true] at hclaims
      obtain ⟨time, hclaim, -⟩ := hclaims
      exact claimAt_ne_empty rule hclaim hname
    · rw [hfresh, some_or, Option.some.injEq] at h
      obtain ⟨e, he, howner⟩ := map_eq_some_iff.mp hfresh
      exact OwnerUpdate.owner_ne_empty (mem_reverse.mp (mem_of_find?_eq_some he))
        (howner.trans h)

theorem resolveOwner_of_summarizes {retentionMs : ℕ} {history : List OwnerOp} {now : ℤ}
    {m : SessionOwnerMap} (h : Summarizes retentionMs history now m) (id : String) :
    (m.resolveOwner id now).1 = ownerOf mapRule retentionMs history id now := by
  rw [resolveOwner, ownerOf, ← h.owners]
  rcases howner : m.owners.get? id with _ | owner
  · -- no owner by the projection: the pending binding, unless the history has seen it expire
    simp only [filter_none, none_or]
    rcases hp : m.pending.get? id with _ | p
    · rcases hq : pendingOf mapRule retentionMs id history with _ | q
      · rfl
      · have hlate : ¬now - PENDING_OWNER_TTL_MS ≤ q.time := by
          have := h.expired id q hp hq
          omega
        simp [Option.filter, hlate]
    · simp only [h.pending id p hp]
      rw [filter_some]
      by_cases hlate : p.time < now - PENDING_OWNER_TTL_MS
      · rw [if_pos hlate, decide_eq_false (not_le.mpr hlate)]
        rfl
      · rw [if_neg hlate, decide_eq_true (not_lt.mp hlate)]
        rfl
  · have hne : owner ≠ "" := by
      rintro rfl
      exact projectedOwner_ne_empty mapRule retentionMs id _ ((h.owners id).symm.trans howner)
    simp [Option.filter, hne]

/-- After every sequence of operations under a clock that does not run backwards, the map resolves
every session to the owner the history gives it. -/
theorem resolveOwner_eq_ownerOf (retentionMs : ℕ) (ops : List OwnerOp) (id : String) (now : ℤ)
    (hclock : (ops.flatMap OwnerOp.readings ++ [now]).Pairwise (· ≤ ·)) :
    ((StepMachine.run (SessionOwnerMap.step retentionMs) {} ops).resolveOwner id now).1
      = ownerOf mapRule retentionMs ops.reverse id now := by
  have hrun : Summarizes retentionMs (ops.reverse ++ []) now
      (StepMachine.run (SessionOwnerMap.step retentionMs) {} ops) := by
    rcases hreadings : ops.flatMap OwnerOp.readings ++ [now] with _ | ⟨first, rest⟩
    · exact absurd hreadings (by simp)
    · refine summarizes_run (summarizes_init retentionMs first) ops ?_
      rw [hreadings] at hclock ⊢
      refine List.pairwise_cons.mpr ⟨?_, hclock⟩
      rintro r (_ | ⟨_, hr⟩)
      · exact le_refl first
      · exact (List.pairwise_cons.mp hclock).1 r hr
  rw [List.append_nil] at hrun
  exact resolveOwner_of_summarizes hrun id

/-! ## Runs -/

def ownedBy (id owner : String) : SessionEntry := ⟨some id, none, some ⟨owner, none⟩⟩

def refreshOf (outcome : OwnerRefreshOutcome) (sessions : List SessionEntry) (time : ℤ) :
    OwnerOp :=
  .update ⟨sessions, some ⟨[⟨"p", outcome, none⟩], List.nodup_singleton _⟩, time, time⟩

/-- An answer, then a timeout inside the window: the claim is kept. -/
theorem resolveOwner_retained :
    ((StepMachine.run (SessionOwnerMap.step 60000) {}
      [refreshOf .ok [ownedBy "s" "p"] 0, refreshOf .timeout [] 5]).resolveOwner "s" 9).1
      = some "p" :=
  (resolveOwner_eq_ownerOf 60000 [refreshOf .ok [ownedBy "s" "p"] 0, refreshOf .timeout [] 5]
    "s" 9 (by decide)).trans (by decide +kernel)

/-- The rule under which every failure keeps a claim, and a failed refresh that lists the session
counts as an answer. -/
def anyFailureRule : ClaimRule := ⟨fun _ ↦ true, true⟩

/-- The map follows neither half of `anyFailureRule`: a refusal ends a claim at once, and what a
partial answer listed is not retained. Nor does a binding return once a refresh has superseded it;
and a retained owner is not dropped by time alone, before the next refresh. -/
theorem not_ownerOf_anyFailure :
    (∃ ops : List OwnerOp, ops = [refreshOf .ok [ownedBy "s" "p"] 0, refreshOf .unauthorized [] 1]
      ∧ ((StepMachine.run (SessionOwnerMap.step 60000) {} ops).resolveOwner "s" 2).1 = none
      ∧ ownerOf anyFailureRule 60000 ops.reverse "s" 2 = some "p")
    ∧ (∃ ops : List OwnerOp,
      ops = [refreshOf .timeout [ownedBy "s" "p"] 0, refreshOf .timeout [] 1]
      ∧ ((StepMachine.run (SessionOwnerMap.step 60000) {} ops).resolveOwner "s" 2).1 = none
      ∧ ownerOf anyFailureRule 60000 ops.reverse "s" 2 = some "p")
    ∧ ((StepMachine.run (SessionOwnerMap.step 60000) {}
        [.recordPendingOwner "s" "p" 0, refreshOf .ok [ownedBy "s" "p"] 1,
          refreshOf .ok [] 2]).resolveOwner "s" 3).1 = none
    ∧ ((StepMachine.run (SessionOwnerMap.step 60000) {}
        [refreshOf .ok [ownedBy "s" "p"] 0, refreshOf .timeout [] 1]).resolveOwner "s" 90000).1
      = some "p" := by
  refine ⟨⟨_, rfl, ?_, ?_⟩, ⟨_, rfl, ?_, ?_⟩, ?_, ?_⟩ <;> decide +kernel

end Amicode
