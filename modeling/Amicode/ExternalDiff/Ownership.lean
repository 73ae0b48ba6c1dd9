import Amicode.ExternalDiff.Kept
import Amicode.Foundation.StepMachine

/-!
# Ownership over restarts

The calls of any sessions, with files that change and restarts between them. A session tracks the same files after a
restart; an aborted reservation leaves nothing of the entries it made; of two reservations of one revision of a file
one commits at most; a tracked file keeps its baseline, and a removed session tracks no file again.

All of this holds while no write fails that has something new to say, and while no abort takes the last entries of a
session: the manifest is not written then, and still has them (`ownershipLaw_of_sure`).
-/

namespace Amicode.ExternalDiff

open StepMachine List

/-! ## Runs -/

inductive Op
  | prepare (sessionID : String) (files : List String) (ttlMs now : ℤ) (fails : List Write)
  | commit (sessionID : String) (reservation : PreparedReservation) (now : ℤ) (fails : Bool)
  | abort (sessionID : String) (reservation : PreparedReservation) (now : ℤ) (fails : Bool)
  | remove (sessionID : String)
  /-- A session is read, which hydrates it. -/
  | assessed (sessionID : String) (now : ℤ)
  | change (file : String) (endpoint : Option Endpoint)
  | restart

/-- The state, with the reservations that have been committed and the sessions that have been removed. -/
structure World where
  state : State
  committed : List Reservation
  removed : List String

def World.start (files : String → Option Endpoint) : World := ⟨.start files, [], []⟩

section Law

variable (canonical sha256 : String → String)

def State.committed? (s : State) (sessionID : String) (reservation : PreparedReservation) (now : ℤ) (fails : Bool) :
    Option Reservation :=
  match s.valid sessionID reservation now, (s.commit sha256 sessionID reservation now fails).2 with
  | some stored, .value true => if stored.state = .prepared then some stored else none
  | _, _ => none

def World.step (w : World) : Op → World
  | .prepare sessionID files ttlMs now fails =>
    { w with state := (w.state.prepare canonical sessionID files ttlMs now fails).1 }
  | .commit sessionID reservation now fails =>
    { w with
      state := (w.state.commit sha256 sessionID reservation now fails).1
      committed := w.committed ++ (w.state.committed? sha256 sessionID reservation now fails).toList }
  | .abort sessionID reservation now fails => { w with state := (w.state.abort sessionID reservation now fails).1 }
  | .remove sessionID => { w with state := w.state.remove sessionID, removed := w.removed ++ [sessionID] }
  | .assessed sessionID now => { w with state := w.state.hydrate sessionID now }
  | .change file endpoint => { w with state := { w.state with files := Function.update w.state.files file endpoint } }
  | .restart => { w with state := w.state.restart }

/-! ## The law -/

/-- What a restart is to keep of an entry. -/
def Entry.facts (entry : Entry) : String × Endpoint × Option Expected × ℕ :=
  (entry.file, entry.baseline, entry.expected, entry.revision)

def SameRevision (r r' : Reservation) : Prop :=
  r.sessionID = r'.sessionID ∧ ∃ endpoint ∈ r.endpoints, ∃ endpoint' ∈ r'.endpoints,
    endpoint.file = endpoint'.file ∧ endpoint.revision = endpoint'.revision

/-- No reservation is open. -/
def State.Settled (s : State) : Prop := ∀ reservation ∈ s.reservations, reservation.state ≠ .prepared

structure OwnershipLaw (w : World) (op : Op) : Prop where
  /-- A session tracks after a restart what it tracked before. -/
  restart : (w.step canonical sha256 op).state.Settled → ∀ sessionID,
    ((w.step canonical sha256 op).state.restart.tracked sessionID).map Entry.facts
      = ((w.step canonical sha256 op).state.tracked sessionID).map Entry.facts
  /-- Nothing is left of what an aborted reservation has created. -/
  aborted : ∀ sessionID reservation now fails, op = .abort sessionID reservation now fails →
    ∀ stored ∈ w.state.valid sessionID reservation now, stored.state = .prepared →
      (w.state.abort sessionID reservation now fails).2 = .value true →
        ∀ endpoint ∈ stored.endpoints, endpoint.created = true →
          (∀ entry ∈ (w.step canonical sha256 op).state.tracked sessionID, entry.file ≠ endpoint.file) ∧
            ∀ entry ∈ (w.step canonical sha256 op).state.restart.tracked sessionID, entry.file ≠ endpoint.file
  /-- Of two reservations of one revision of a file, one commits at most. -/
  exclusive : (w.step canonical sha256 op).committed.Pairwise fun r r' ↦ ¬ SameRevision r r'
  /-- A commit that returns false changes nothing. -/
  refused : ∀ sessionID reservation now fails, op = .commit sessionID reservation now fails →
    (w.state.commit sha256 sessionID reservation now fails).2 = .value false →
      (w.step canonical sha256 op).state.tracked = w.state.tracked
  baseline : ∀ sessionID, ∀ entry ∈ w.state.tracked sessionID,
    ∀ entry' ∈ (w.step canonical sha256 op).state.tracked sessionID, entry.file = entry'.file →
      entry'.baseline = entry.baseline
  removed : ∀ sessionID ∈ (w.step canonical sha256 op).removed,
    (w.step canonical sha256 op).state.tracked sessionID = []

/-- The writes of a call succeed if they have something new to say, and an abort leaves an entry. -/
def Sure (w : World) : Op → Prop
  | .prepare sessionID files _ now fails =>
    ∀ file ∈ files.map canonical, file ∉ ((w.state.hydrate sessionID now).entries sessionID).map (·.file) →
      Write.lease ∉ fails ∧ ∀ file' ∈ files.map canonical, Write.artifact file' ∈ fails →
        file' ∈ ((w.state.hydrate sessionID now).entries sessionID).map (·.file) ∨ w.state.files file' = some .absent
  | .commit sessionID reservation now fails =>
    ∀ stored ∈ w.state.valid sessionID reservation now, stored.state = .prepared →
      (∀ endpoint ∈ stored.endpoints, w.state.files endpoint.file ≠ none) → fails = false
  | .abort sessionID reservation now fails =>
    ∀ stored ∈ w.state.valid sessionID reservation now, stored.state = .prepared →
      (∃ endpoint ∈ stored.endpoints, endpoint.created = true) →
        fails = false ∧ ∃ entry ∈ w.state.entries sessionID, ∀ endpoint ∈ stored.endpoints,
          endpoint.created = true → entry.file ≠ endpoint.file
  | _ => True

/-! ## What every run keeps -/

/-- What holds in every run, given the entries of the sessions. -/
structure World.Sound (w : World) (entries : String → List Entry) : Prop where
  kept : ∀ id, Kept w.state id (entries id)
  owns : ∀ stored ∈ w.state.reservations, Owns (entries stored.sessionID) stored ∧ Drawn w.state stored
  /-- A revision that has been committed is behind its file. -/
  superseded : ∀ stored ∈ w.committed, ∀ endpoint ∈ stored.endpoints,
    (w.state.disk stored.sessionID).tombstone = true ∨
      ∃ entry ∈ entries stored.sessionID, entry.file = endpoint.file ∧ endpoint.revision < entry.revision
  exclusive : w.committed.Pairwise fun r r' ↦ ¬ SameRevision r r'
  removed : ∀ id ∈ w.removed, (w.state.disk id).tombstone = true

variable {w : World} {entries : String → List Entry}

theorem sound_start (files : String → Option Endpoint) : (World.start files).Sound fun _ ↦ [] where
  kept := fun _ ↦ ⟨by simp [World.start, State.start], by simp [World.start, State.start, Stored], nodup_nil,
    nodup_nil, fun _ h ↦ absurd h not_mem_nil, fun _ h ↦ absurd h not_mem_nil⟩
  owns := fun _ h ↦ absurd h not_mem_nil
  superseded := fun _ h ↦ absurd h not_mem_nil
  exclusive := Pairwise.nil
  removed := fun _ h ↦ absurd h not_mem_nil

theorem Owns.evolve {s s' : State} {before after : String → List Entry} (h : Evolves s s' before after)
    {stored : Reservation} (howns : Owns (before stored.sessionID) stored) (hdrawn : Drawn s stored) :
    Owns (after stored.sessionID) stored ∧ Drawn s' stored := by
  refine ⟨fun endpoint hendpoint hcreated ↦ ?_, fun endpoint hendpoint hcreated ↦
    Nat.lt_of_lt_of_le (hdrawn endpoint hendpoint hcreated) h.uuids⟩
  obtain ⟨hrevision, howns⟩ := howns endpoint hendpoint hcreated
  refine ⟨hrevision, fun entry' hentry' hreference ↦ ?_⟩
  rcases h.references _ entry' hentry' with ⟨entry, hentry, hreference', hfile⟩ | hnew
  · rw [← hfile]
    exact howns entry hentry (hreference'.trans hreference)
  · have hlt := hdrawn endpoint hendpoint hcreated
    omega

theorem World.Sound.evolve {w' : World} {after : String → List Entry} (h : w.Sound entries)
    (hstep : Evolves w.state w'.state entries after)
    (hreservations : ∀ stored ∈ w'.state.reservations,
      (∃ old ∈ w.state.reservations, old.toPreparedReservation = stored.toPreparedReservation) ∨
        (Owns (after stored.sessionID) stored ∧ Drawn w'.state stored))
    (hcommitted : w'.committed = w.committed)
    (hremoved : ∀ id ∈ w'.removed, id ∈ w.removed ∨ (w'.state.disk id).tombstone = true) : w'.Sound after where
  kept := hstep.kept
  owns := fun stored hstored ↦ by
    rcases hreservations stored hstored with ⟨old, hold, heq⟩ | hnew
    · obtain ⟨howns, hdrawn⟩ := h.owns old hold
      have howns' : Owns (entries stored.sessionID) stored := by
        rw [Owns, ← heq]
        exact howns
      have hdrawn' : Drawn w.state stored := by
        rw [Drawn, ← heq]
        exact hdrawn
      exact howns'.evolve hstep hdrawn'
    · exact hnew
  superseded := fun stored hstored endpoint hendpoint ↦ by
    rw [hcommitted] at hstored
    rcases h.superseded stored hstored endpoint hendpoint with htombstone | ⟨entry, hentry, hfile, hlt⟩
    · exact .inl (hstep.tombstone _ htombstone)
    · refine (hstep.grows _ entry hentry (by omega)).imp_right ?_
      rintro ⟨entry', hentry', hfile', hle⟩
      exact ⟨entry', hentry', hfile'.trans hfile, by omega⟩
  exclusive := hcommitted ▸ h.exclusive
  removed := fun id hid ↦ (hremoved id hid).elim (fun hid ↦ hstep.tombstone id (h.removed id hid)) fun h ↦ h

variable {canonical sha256}

theorem World.Sound.commit {sessionID : String} {reservation : PreparedReservation} {now : ℤ} {fails : Bool}
    (h : w.Sound entries) (hsure : Sure canonical w (.commit sessionID reservation now fails)) :
    ∃ after, Evolves w.state (w.step canonical sha256 (.commit sessionID reservation now fails)).state entries after ∧
      (w.step canonical sha256 (.commit sessionID reservation now fails)).Sound after := by
  rcases commit_spec sha256 h.kept hsure with ⟨hsame, hnone⟩ |
    ⟨stored, hvalid, hprepared, hvalue, hreservations, after, hevolves, hafter⟩
  · have hcommitted : w.state.committed? sha256 sessionID reservation now fails = none := by
      unfold State.committed?
      split
      · next stored hvalid hvalue => exact if_neg fun hprepared ↦ hnone stored hvalid hprepared hvalue
      · rfl
    have hstep : Evolves w.state (w.state.commit sha256 sessionID reservation now fails).1 entries entries := by
      rw [hsame]
      exact evolves_of_same h.kept (Nat.le_refl _) fun _ h ↦ h
    refine ⟨entries, hstep, h.evolve hstep (fun stored hstored ↦ .inl ⟨stored, ?_, rfl⟩) ?_ fun id hid ↦ .inl hid⟩
    · rw [World.step, hsame] at hstored
      exact hstored
    · rw [World.step, hcommitted, Option.toList_none, append_nil]
  · have hcommitted : w.state.committed? sha256 sessionID reservation now fails = some stored := by
      unfold State.committed?
      rw [hvalid, hvalue]
      exact if_pos hprepared
    have hsound : World.Sound ⟨(w.state.commit sha256 sessionID reservation now fails).1, w.committed, w.removed⟩
        (Function.update entries sessionID after) := by
      refine h.evolve hevolves (fun r hr ↦ .inl ?_) rfl fun id hid ↦ .inl hid
      rw [hreservations] at hr
      obtain ⟨old, hold, rfl⟩ := List.mem_map.mp hr
      refine ⟨old, hold, ?_⟩
      split_ifs <;> rfl
    obtain ⟨htombstone, -, hsession, hrevisions⟩ := valid_eq_some hvalid
    obtain ⟨hne, hrevisions⟩ := hrevisions hprepared
    have hentries := ((h.kept sessionID).entries_eq hne).2
    refine ⟨_, hevolves, hsound.kept, hsound.owns, ?_, ?_, hsound.removed⟩
    · intro r hr endpoint hendpoint
      rw [World.step, hcommitted, Option.toList_some] at hr
      rcases mem_append.mp hr with hr | hr
      · exact hsound.superseded r hr endpoint hendpoint
      · rw [mem_singleton.mp hr] at hendpoint ⊢
        rw [hsession, Function.update_self]
        exact .inr (hafter endpoint hendpoint)
    · rw [World.step, hcommitted, Option.toList_some]
      refine pairwise_append.mpr ⟨h.exclusive, pairwise_singleton _ _, fun r hr r' hr' hsame ↦ ?_⟩
      rw [mem_singleton.mp hr'] at hsame
      obtain ⟨hid, endpoint, hendpoint, endpoint', hendpoint', hfile, hrevision⟩ := hsame
      rcases h.superseded r hr endpoint hendpoint with htombstone' | ⟨entry, hentry, hfile', hlt⟩
      · rw [hid, hsession, htombstone] at htombstone'
        cases htombstone'
      · -- the file would have the revision and a later one
        obtain ⟨entry', hentry', -, hfile'', hrevision'⟩ := revision?_eq_some (hrevisions endpoint' hendpoint')
        rw [hentries] at hentry'
        rw [hid, hsession] at hentry
        have heq := eq_of_file (h.kept sessionID).files hentry hentry' (by rw [hfile', hfile, hfile''])
        rw [heq] at hlt
        omega

theorem World.Sound.step (h : w.Sound entries) {op : Op} (hsure : Sure canonical w op) :
    ∃ after, Evolves w.state (w.step canonical sha256 op).state entries after ∧
      (w.step canonical sha256 op).Sound after := by
  match op with
  | .prepare sessionID files ttlMs now fails =>
    obtain ⟨after, hevolves, hreservations⟩ := prepare_spec canonical h.kept hsure
    refine ⟨_, hevolves, h.evolve hevolves (fun stored hstored ↦ ?_) rfl fun id hid ↦ .inl hid⟩
    rcases hreservations stored hstored with hold | ⟨hid, howns, hdrawn⟩
    · exact .inl ⟨stored, hold, rfl⟩
    · rw [hid, Function.update_self]
      exact .inr ⟨howns, hdrawn⟩
  | .commit sessionID reservation now fails => exact h.commit hsure
  | .abort sessionID reservation now fails =>
    obtain ⟨after, hevolves, hreservations, -⟩ :=
      abort_spec h.kept (fun stored hstored hid ↦ hid ▸ (h.owns stored hstored).1) hsure
    exact ⟨_, hevolves, h.evolve hevolves (fun stored hstored ↦ .inl ⟨stored, hreservations hstored, rfl⟩) rfl
      fun id hid ↦ .inl hid⟩
  | .remove sessionID =>
    have hevolves := evolves_remove h.kept sessionID
    refine ⟨_, hevolves, h.evolve hevolves (fun stored hstored ↦ .inl ⟨stored, ?_, rfl⟩) rfl fun id hid ↦ ?_⟩
    · exact filter_sublist.subset hstored
    · rcases mem_append.mp hid with hid | hid
      · exact .inl hid
      · rw [mem_singleton.mp hid]
        exact .inr (by simp [World.step, State.remove])
  | .assessed sessionID now =>
    have hevolves := evolves_hydrate h.kept sessionID now
    exact ⟨_, hevolves, h.evolve hevolves (fun stored hstored ↦
      .inl ⟨stored, reservations_hydrate _ _ _ hstored, rfl⟩) rfl fun id hid ↦ .inl hid⟩
  | .change file endpoint =>
    have hevolves : Evolves w.state { w.state with files := Function.update w.state.files file endpoint }
        entries entries :=
      evolves_of_same (fun id ↦ (h.kept id).of_same rfl rfl Iff.rfl (Nat.le_refl _)) (Nat.le_refl _) fun _ h ↦ h
    exact ⟨_, hevolves, h.evolve hevolves (fun stored hstored ↦ .inl ⟨stored, hstored, rfl⟩) rfl
      fun id hid ↦ .inl hid⟩
  | .restart =>
    have hevolves : Evolves w.state w.state.restart entries entries :=
      evolves_of_same (fun id ↦ (h.kept id).restart) (Nat.le_refl _) fun _ h ↦ h
    exact ⟨_, hevolves, h.evolve hevolves (fun stored hstored ↦ absurd hstored not_mem_nil) rfl
      fun id hid ↦ .inl hid⟩

/-- In a sound state a call that meets the condition is done as the law says. -/
theorem ownershipLaw_of_sound (h : w.Sound entries) {op : Op} (hsure : Sure canonical w op) :
    OwnershipLaw canonical sha256 w op := by
  obtain ⟨after, hevolves, hsound⟩ := h.step hsure
  have htracked : ∀ id, (w.step canonical sha256 op).state.tracked id = after id := fun id ↦ (hsound.kept id).tracked_eq
  have hrestarted : ∀ id, (w.step canonical sha256 op).state.restart.tracked id = after id :=
    fun id ↦ (hsound.kept id).restart.tracked_eq
  refine ⟨fun _ id ↦ by rw [htracked, hrestarted], ?_, hsound.exclusive, ?_, fun id entry hentry entry' hentry' ↦ ?_,
    fun id hid ↦ ?_⟩
  · rintro sessionID reservation now fails rfl stored hvalid hprepared - endpoint hendpoint hcreated
    obtain ⟨left, hevolves', -, hgone⟩ :=
      abort_spec h.kept (fun stored hstored hid ↦ hid ▸ (h.owns stored hstored).1) hsure
    have hleft := hevolves'.kept sessionID
    rw [Function.update_self] at hleft
    have hgone := hgone stored hvalid hprepared endpoint hendpoint hcreated
    exact ⟨hleft.tracked_eq ▸ hgone, hleft.restart.tracked_eq ▸ hgone⟩
  · rintro sessionID reservation now fails rfl hvalue
    rcases commit_spec sha256 h.kept hsure with ⟨hsame, -⟩ | ⟨-, -, -, hvalue', -⟩
    · rw [World.step, hsame]
    · rw [hvalue'] at hvalue
      cases hvalue
  · rw [(h.kept id).tracked_eq] at hentry
    rw [htracked] at hentry'
    exact hevolves.baseline id entry hentry entry' hentry'
  · have hstored := (hsound.kept id).stored
    rw [Stored, if_pos (hsound.removed id hid)] at hstored
    rw [htracked, hstored]

variable (canonical sha256)

/-- Every call of a run is done as the law says, if the writes with something new succeed and no abort takes the last
entries of a session. -/
theorem ownershipLaw_of_sure (files : String → Option Endpoint) (ops : List Op)
    (h : Guarded (World.step canonical sha256) (Sure canonical) (World.start files) ops) :
    Guarded (World.step canonical sha256) (OwnershipLaw canonical sha256) (World.start files) ops := by
  refine Guarded.of_invariant (I := fun w ↦ ∃ entries, w.Sound entries) (fun w op hw hsure ↦ ?_)
    (fun w op hw hsure ↦ ?_) ⟨_, sound_start files⟩ h
  · obtain ⟨entries, hw⟩ := hw
    obtain ⟨after, -, hafter⟩ := hw.step hsure
    exact ⟨after, hafter⟩
  · obtain ⟨entries, hw⟩ := hw
    exact ownershipLaw_of_sound hw hsure

end Law

/-- What the first preparation of the file `a` by the session `s` returns. -/
def firstReservation : PreparedReservation := ⟨2, "s", 60, [⟨0, "a", 0, 1, true⟩]⟩

/-- A file is added and committed, and read again after a restart. -/
theorem ownershipLaw_added :
    Guarded (World.step id id) (OwnershipLaw id id) (World.start fun _ ↦ some .absent)
      [.prepare "s" ["a"] 60 0 [], .change "a" (some (.present "text")), .commit "s" firstReservation 1 false, .restart,
        .assessed "s" 2] :=
  ownershipLaw_of_sure id id _ _
    ⟨fun _ _ _ ↦ ⟨List.not_mem_nil, fun _ _ h ↦ absurd h List.not_mem_nil⟩, trivial, fun _ _ _ _ ↦ rfl, trivial,
      trivial, trivial⟩

/-- The only entry of a session is aborted, and read again after a restart. -/
theorem not_ownershipLaw_aborted :
    ¬ Guarded (World.step id id) (OwnershipLaw id id) (World.start fun _ ↦ some .absent)
      [.prepare "s" ["a"] 60 0 [], .abort "s" firstReservation 1 false] := by
  rintro ⟨-, hlaw, -⟩
  have hsettled : (((World.start fun _ ↦ some .absent).step id id (.prepare "s" ["a"] 60 0 [])).step id id
      (.abort "s" firstReservation 1 false)).state.Settled := by
    intro stored hstored
    have hnone : (((World.start fun _ ↦ some .absent).step id id (.prepare "s" ["a"] 60 0 [])).step id id
      (.abort "s" firstReservation 1 false)).state.reservations = [] := by rfl
    rw [hnone] at hstored
    exact absurd hstored List.not_mem_nil
  exact absurd (hlaw.restart hsettled "s") (by decide +kernel)

end Amicode.ExternalDiff
