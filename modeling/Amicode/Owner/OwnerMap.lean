import Amicode.Foundation.InsertionMap
import Amicode.Foundation.StepMachine

/-!
# The session owner map

The multiplexer routes a session to the machine that owns it (`session_multiplexer.ts`). Owners
come from a projection that is rebuilt every few seconds from every serving peer, together with
each peer's outcome. Four stores answer a lookup:

* `owners`: the entries of the latest projection, and what is retained beside them;
* `lastGood`: each peer's entries as of its last successful refresh, from which a peer whose fetch
  failed keeps its sessions for `retentionMs`;
* `pending`: bindings recorded at create time, before the projection carries the session;
* `unavailablePeers`: peers whose entries expired or were dropped.

An update reads the clock twice, once for the retention and once for pruning the pending bindings.
Clock readings are part of the operations.
-/

namespace Amicode

/-- How long a pending binding lives, in milliseconds. -/
def PENDING_OWNER_TTL_MS : ℤ := 60000

/-! ## The projection's entries -/

structure SessionOwnerTag where
  ownerMachineId : String
  directory : Option String := none
deriving DecidableEq

/-- A session entry; each field is `none` when it is not a string, or not there. -/
structure SessionEntry where
  id : Option String
  directory : Option String := none
  amicodeOwner : Option SessionOwnerTag := none
deriving DecidableEq

inductive OwnerRefreshOutcome where
  | ok
  | timeout
  | error
  | unauthorized
deriving DecidableEq

inductive SourceAbsenceReason where
  | credentialMissing
  | noUpstream
  | fetchFailed
  | unauthorized
  | untrusted
  | identityConflict
deriving DecidableEq

structure OwnerRefreshPeer where
  machineId : String
  outcome : OwnerRefreshOutcome
  reason : Option SourceAbsenceReason := none
deriving DecidableEq

/-- The outcomes of a refresh: one for each peer that was refreshed. -/
structure PeerOutcomes where
  peers : List OwnerRefreshPeer
  distinct : (peers.map OwnerRefreshPeer.machineId).Nodup

/-- Does a failed refresh keep the peer's last-good entries? A timeout or a transport failure
does, a credential or trust problem does not. -/
def refreshRetains (peer : OwnerRefreshPeer) : Bool :=
  if peer.outcome = .timeout then true
  else if peer.outcome ≠ .error then false
  else peer.reason = some .fetchFailed || peer.reason = some .noUpstream

/-! ## The map -/

/-- One owned entry as the map holds it. -/
structure HeldEntry where
  id : String
  directory : Option String
deriving DecidableEq

/-- A peer's entries as of its last successful refresh. -/
structure LastGood where
  time : ℤ
  entries : List HeldEntry

/-- A create-time binding. -/
structure PendingOwner where
  machineId : String
  time : ℤ
deriving DecidableEq

/-- What one refresh did to one peer's entries. -/
inductive OwnerRetention where
  | retained (held : ℕ) (ageMs : ℤ)
  | expired (dropped : ℕ)
  | dropped (dropped : ℕ)
  | unavailable
deriving DecidableEq

structure SessionOwnerMap where
  owners : InsertionMap String String := ∅
  directories : InsertionMap String String := ∅
  pending : InsertionMap String PendingOwner := ∅
  lastGood : InsertionMap String LastGood := ∅
  unavailablePeers : InsertionSet String := (∅ : InsertionMap String Unit)

/-- A refresh: the sessions of the projection, the outcomes of its peers (absent when it carries
none), and the two clock readings. -/
structure OwnerUpdate where
  sessions : List SessionEntry
  peers : Option PeerOutcomes
  now : ℤ
  pruneNow : ℤ

/-- The owner and the held form of a session entry, if it is owned. -/
def SessionEntry.held? (s : SessionEntry) : Option (String × HeldEntry) :=
  match s.id, s.amicodeOwner with
  | some id, some tag =>
    if tag.ownerMachineId = "" then none
    else
      -- the record's own directory, else the one its owner tag mirrors
      let directory := match s.directory with
        | some d => if d ≠ "" then some d else tag.directory
        | none => tag.directory
      some (tag.ownerMachineId, ⟨id, directory.filter (· ≠ "")⟩)
  | _, _ => none

/-- The owned entries of a refresh, in order. -/
def OwnerUpdate.held (u : OwnerUpdate) : List (String × HeldEntry) :=
  u.sessions.filterMap SessionEntry.held?

def freshByOwner (held : List (String × HeldEntry)) : InsertionMap String (List HeldEntry) :=
  held.foldl (fun fresh e ↦ fresh.set e.1 ((fresh.get? e.1).getD [] ++ [e.2])) ∅

namespace SessionOwnerMap

def hold (m : SessionOwnerMap) (owner : String) (e : HeldEntry) : SessionOwnerMap :=
  { m with
    owners := m.owners.set e.id owner
    directories := match e.directory with
      | some d => m.directories.set e.id d
      | none => m.directories }

/-- Hold those of a peer's last-good entries that have no owner: they never shadow a fresh one. -/
def holdMissing (m : SessionOwnerMap) (owner : String) (entries : List HeldEntry) :
    SessionOwnerMap :=
  entries.foldl (fun m e ↦ if m.owners.contains e.id then m else m.hold owner e) m

/-- One peer of `applyPeerOutcomes`: an answer replaces, a retaining failure keeps the last-good
entries inside the window, anything else drops them. -/
def applyPeerOutcome (retentionMs : ℕ) (now : ℤ) (fresh : InsertionMap String (List HeldEntry))
    (acc : SessionOwnerMap × InsertionMap String OwnerRetention) (peer : OwnerRefreshPeer) :
    SessionOwnerMap × InsertionMap String OwnerRetention :=
  let (m, out) := acc
  let id := peer.machineId
  if peer.outcome = .ok then
    let entries := (fresh.get? id).getD []
    ({ m with
      lastGood := if 0 < entries.length then m.lastGood.set id ⟨now, entries⟩
        else m.lastGood.erase id
      unavailablePeers := m.unavailablePeers.erase id }, out)
  else
    match m.lastGood.get? id with
    | some last =>
      if refreshRetains peer && now - last.time ≤ retentionMs then
        (m.holdMissing id last.entries,
          out.set id (.retained last.entries.length (now - last.time)))
      else
        ({ m with
          lastGood := m.lastGood.erase id
          unavailablePeers := InsertionSet.add m.unavailablePeers id },
          out.set id (if refreshRetains peer then .expired last.entries.length
            else .dropped last.entries.length))
    | none => (m, if m.unavailablePeers.contains id then out.set id .unavailable else out)

/-- A peer no longer refreshed left the fleet: nothing of it is retained. -/
def keepRefreshed (refreshed : List String) (m : SessionOwnerMap) : SessionOwnerMap :=
  { m with
    lastGood := m.lastGood.filterKeys fun id ↦ decide (id ∈ refreshed)
    unavailablePeers := m.unavailablePeers.filterKeys fun id ↦ decide (id ∈ refreshed) }

/-- `applyPeerOutcomes`. -/
def applyPeerOutcomes (retentionMs : ℕ) (now : ℤ) (fresh : InsertionMap String (List HeldEntry))
    (peers : List OwnerRefreshPeer) (m : SessionOwnerMap) :
    SessionOwnerMap × InsertionMap String OwnerRetention :=
  peers.foldl (applyPeerOutcome retentionMs now fresh)
    (m.keepRefreshed (peers.map OwnerRefreshPeer.machineId), ∅)

/-- `forgetPeers`: without outcomes the projection is authoritative for every owner. -/
def forgetPeers (m : SessionOwnerMap) : SessionOwnerMap :=
  { m with lastGood := ∅, unavailablePeers := (∅ : InsertionMap String Unit) }

/-- Drop the pending bindings the projection supersedes, and those past their time. -/
def prunePending (now : ℤ) (m : SessionOwnerMap) : SessionOwnerMap :=
  { m with pending := m.pending.filter fun id entry ↦
      !(m.owners.contains id || entry.time < now - PENDING_OWNER_TTL_MS) }

def rebuild (held : List (String × HeldEntry)) (m : SessionOwnerMap) : SessionOwnerMap :=
  held.foldl (fun m e ↦ m.hold e.1 e.2) { m with owners := ∅, directories := ∅ }

def update (retentionMs : ℕ) (u : OwnerUpdate) (m : SessionOwnerMap) :
    SessionOwnerMap × InsertionMap String OwnerRetention :=
  let m := m.rebuild u.held
  let (m, retention) := match u.peers with
    | none => (m.forgetPeers, ∅)
    | some outcomes => m.applyPeerOutcomes retentionMs u.now (freshByOwner u.held) outcomes.peers
  (m.prunePending u.pruneNow, retention)

def recordPendingOwner (sessionId machineId : String) (now : ℤ) (m : SessionOwnerMap) :
    SessionOwnerMap :=
  if sessionId = "" ∨ machineId = "" then m
  else { m with pending := m.pending.set sessionId ⟨machineId, now⟩ }

/-- `resolveOwner`: the projection wins, an unexpired pending binding is the fallback. -/
def resolveOwner (sessionId : String) (now : ℤ) (m : SessionOwnerMap) :
    Option String × SessionOwnerMap :=
  match (m.owners.get? sessionId).filter (· ≠ "") with
  | some owner => (some owner, m)
  | none =>
    match m.pending.get? sessionId with
    | none => (none, m)
    | some p =>
      if p.time < now - PENDING_OWNER_TTL_MS then
        (none, { m with pending := m.pending.erase sessionId })
      else (some p.machineId, m)

def resolveDirectory (sessionId : String) (m : SessionOwnerMap) : Option String :=
  m.directories.get? sessionId

def ownerMachineIds (m : SessionOwnerMap) : List String :=
  ((m.owners.values ++ m.unavailablePeers.keys).foldl InsertionSet.add
    (∅ : InsertionMap String Unit)).keys

/-- `isUnavailable`. -/
def isUnavailable (machineId : String) (m : SessionOwnerMap) : Bool :=
  m.unavailablePeers.contains machineId

end SessionOwnerMap

/-! ## Runs -/

/-- An operation on the map. -/
inductive OwnerOp where
  | update (u : OwnerUpdate)
  | recordPendingOwner (sessionId machineId : String) (now : ℤ)
  | resolveOwner (sessionId : String) (now : ℤ)
  | ownerMachineIds

namespace OwnerOp

/-- The clock readings of an operation, in order. -/
def readings : OwnerOp → List ℤ
  | .update u => [u.now, u.pruneNow]
  | .recordPendingOwner _ _ now => [now]
  | .resolveOwner _ now => [now]
  | .ownerMachineIds => []

end OwnerOp

/-- One operation on a map with a retention window. -/
def SessionOwnerMap.step (retentionMs : ℕ) (m : SessionOwnerMap) : OwnerOp → SessionOwnerMap
  | .update u => (m.update retentionMs u).1
  | .recordPendingOwner sessionId machineId now => m.recordPendingOwner sessionId machineId now
  | .resolveOwner sessionId now => (m.resolveOwner sessionId now).2
  | .ownerMachineIds => m

end Amicode

/-!
# The owner-routing projection

`buildOwnerRoutingProjection` (`merged_projection.ts`) feeds the owner map. Each peer is read twice,
once for its active and once for its archived sessions; the sessions are united by id, the active
entry first, and a peer's outcome is the first of its two that is not ok.

So the outcomes it reports are one for each peer, as the map expects (`routingOutcomes`), an `ok`
means that both reads answered (`routing_ok_iff`), and a peer that failed can still have sessions
in the union: those of the read that answered.
-/

namespace Amicode

/-- One read of one peer. -/
structure SourceFetch where
  present : Bool
  reason : Option SourceAbsenceReason
  timedOut : Bool

structure PeerReads where
  machineId : String
  active : SourceFetch
  archived : SourceFetch

def refreshOutcomeOf (f : SourceFetch) : OwnerRefreshOutcome :=
  if f.present then .ok
  else if f.timedOut then .timeout
  else if f.reason = some .unauthorized then .unauthorized
  else .error

/-- A peer's outcome: the first of its reads that is not ok. -/
def PeerReads.outcome (reads : PeerReads) : OwnerRefreshPeer :=
  let worst := if refreshOutcomeOf reads.active ≠ .ok then reads.active else reads.archived
  let outcome := refreshOutcomeOf worst
  { machineId := reads.machineId, outcome := outcome
    reason := if outcome ≠ .ok then worst.reason else none }

/-- Add an entry to a union by id, unless it has no id or the id is there. -/
def addById (byId : InsertionMap String SessionEntry) (s : SessionEntry) :
    InsertionMap String SessionEntry :=
  match s.id with
  | some id => if id = "" ∨ byId.contains id = true then byId else byId.set id s
  | none => byId

/-- The union by id; the first entry of an id stands. -/
def unionById (entries : List SessionEntry) : InsertionMap String SessionEntry :=
  entries.foldl addById ∅

def routingSessions (active archived : List SessionEntry) : List SessionEntry :=
  (unionById (active ++ archived)).values

/-- The outcomes of the projection, one for each peer it was given. -/
def routingOutcomes (reads : List PeerReads) (h : (reads.map PeerReads.machineId).Nodup) :
    PeerOutcomes :=
  ⟨reads.map PeerReads.outcome, by
    rw [List.map_map]
    exact h⟩

/-- `buildOwnerRoutingProjection`, as the refresh it is to the owner map. -/
def buildOwnerRoutingProjection (active archived : List SessionEntry) (reads : List PeerReads)
    (h : (reads.map PeerReads.machineId).Nodup) (now pruneNow : ℤ) : OwnerUpdate :=
  { sessions := routingSessions active archived, peers := some (routingOutcomes reads h)
    now := now, pruneNow := pruneNow }

theorem routing_ok_iff (reads : PeerReads) :
    reads.outcome.outcome = .ok ↔ reads.active.present = true ∧ reads.archived.present = true := by
  have hok : ∀ f : SourceFetch, refreshOutcomeOf f = .ok ↔ f.present = true := by
    intro f
    rw [refreshOutcomeOf]
    split_ifs <;> simp_all
  rw [PeerReads.outcome]
  dsimp only
  split_ifs with hactive
  · exact iff_of_false hactive fun h ↦ hactive ((hok _).mpr h.1)
  · rw [not_not, hok] at hactive
    rw [hok, and_iff_right hactive]

end Amicode
