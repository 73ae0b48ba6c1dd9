import Amicode.ExternalDiff.Store

/-!
# What is kept of a session

The entries of a session are in memory once it is hydrated, and in its manifest and its artifacts all the time
(`Kept`). For each call this file says what the entries are afterwards, as long as no write fails that has something
new to say.
-/

open List Function

namespace Amicode.ExternalDiff

/-! ## The files of a session -/

/-- The manifest and the artifacts have these entries. -/
def Stored (disk : SessionDisk) (session : List Entry) : Prop :=
  if disk.tombstone then session = []
  else
    match disk.manifest with
    | none => session = []
    | some manifest => manifest.entries = session.map (·.persisted) ∧ ∀ entry ∈ session,
        entry.unavailable = false ∧ ∀ content, entry.baseline = .present content →
          disk.artifacts entry.reference = some content

theorem restore_persisted {artifacts : ℕ → Option String} {entry : Entry} (hunavailable : entry.unavailable = false)
    (h : ∀ content, entry.baseline = .present content → artifacts entry.reference = some content) :
    entry.persisted.restore artifacts = entry := by
  obtain ⟨reference, file, baseline, expected, revision, unavailable⟩ := entry
  obtain rfl : unavailable = false := hunavailable
  match baseline with
  | .present content =>
    have hcontent : artifacts reference = some content := h content rfl
    simp [Entry.persisted, PersistedEntry.restore, hcontent]
  | .absent => rfl

theorem foldl_setEntry {entries session : List Entry} (h : ((session ++ entries).map (·.file)).Nodup) :
    entries.foldl setEntry session = session ++ entries := by
  induction entries generalizing session with
  | nil => rw [foldl_nil, append_nil]
  | cons entry entries ih =>
    have hset : setEntry session entry = session ++ [entry] := by
      refine if_neg fun hmem ↦ ?_
      rw [map_append, nodup_append] at h
      exact h.2.2 _ hmem _ mem_cons_self rfl
    rw [foldl_cons, hset, ih (by simpa using h), append_assoc, singleton_append]

variable {disk : SessionDisk} {session : List Entry}

theorem restored_of_stored (h : Stored disk session)
    (hfiles : (session.map (·.file)).Nodup) : disk.restored = session := by
  unfold Stored at h
  unfold SessionDisk.restored
  split_ifs at h ⊢
  · exact h.symm
  · cases hmanifest : disk.manifest with
    | none =>
      rw [hmanifest] at h
      exact h.symm
    | some manifest =>
      rw [hmanifest] at h
      have hrestore : manifest.entries.map (·.restore disk.artifacts) = session := by
        rw [h.1, List.map_map]
        refine (map_congr_left fun entry hentry ↦ ?_).trans (List.map_id _)
        exact restore_persisted (h.2 entry hentry).1 (h.2 entry hentry).2
      dsimp only
      rw [hrestore, foldl_setEntry (by simpa using hfiles), nil_append]

theorem Stored.swept (h : Stored disk session) : Stored disk.swept session := by
  unfold SessionDisk.swept
  split_ifs with hswept
  · unfold Stored at h ⊢
    dsimp only
    split_ifs at h ⊢ with htombstone
    · exact h
    · rw [(hswept.resolve_left (by simp [htombstone]))] at h
      exact h
  · exact h

theorem stored_of_persist {leases : List ℕ} {fails : Bool} (htombstone : disk.tombstone = false)
    (hartifacts : ∀ entry ∈ session, entry.unavailable = false ∧ ∀ content, entry.baseline = .present content →
      disk.artifacts entry.reference = some content)
    (h : Stored disk session ∨ fails = false) : Stored (disk.persist session leases fails).1 session := by
  unfold SessionDisk.persist
  rw [if_neg (by simp [htombstone])]
  rcases fails with _ | _
  · rw [if_neg (by simp), Stored, if_neg (by simp [htombstone])]
    exact ⟨rfl, hartifacts⟩
  · rw [if_pos rfl]
    exact h.resolve_right (by simp)

/-! ## A session -/

/-- A session has these entries, in its files and in memory once it is hydrated. -/
structure Kept (s : State) (sessionID : String) (session : List Entry) : Prop where
  memory : s.entries sessionID = if sessionID ∈ s.hydrated then session else []
  stored : Stored (s.disk sessionID) session
  files : (session.map (·.file)).Nodup
  references : (session.map (·.reference)).Nodup
  drawn : ∀ entry ∈ session, entry.reference < s.uuids
  revision : ∀ entry ∈ session, entry.revision = 0 ↔ entry.expected = none

variable {s : State} {sessionID : String} {session : List Entry}

section

variable (h : Kept s sessionID session)

include h

theorem Kept.tracked_eq : s.tracked sessionID = session := by
  unfold State.tracked
  split_ifs with hhydrated
  · rw [h.memory, if_pos hhydrated]
  · exact restored_of_stored h.stored h.files

theorem Kept.restart : Kept s.restart sessionID session where
  memory := by simp [State.restart]
  stored := h.stored
  files := h.files
  references := h.references
  drawn := h.drawn
  revision := h.revision

theorem Kept.sweep (now : ℤ) : Kept (s.sweep now) sessionID session where
  memory := h.memory
  stored := h.stored.swept
  files := h.files
  references := h.references
  drawn := h.drawn
  revision := h.revision

theorem Kept.hydrate (hydrated : String) (now : ℤ) : Kept (s.hydrate hydrated now) sessionID session := by
  have hsweep := h.sweep now
  unfold State.hydrate
  by_cases hin : hydrated ∈ (s.sweep now).hydrated
  · rw [if_pos hin]
    exact hsweep
  · rw [if_neg hin]
    refine ⟨?_, hsweep.stored, h.files, h.references, h.drawn, h.revision⟩
    dsimp only
    rcases eq_or_ne sessionID hydrated with rfl | hne
    · -- what is read from the files is what was stored
      rw [if_pos mem_cons_self, restored_of_stored hsweep.stored h.files]
      by_cases hempty : session = []
      · rw [if_pos hempty, hsweep.memory, if_neg hin, hempty]
      · rw [if_neg hempty]
        exact update_self ..
    · have hother : (if ((s.sweep now).disk hydrated).restored = [] then (s.sweep now).entries
          else Function.update (s.sweep now).entries hydrated ((s.sweep now).disk hydrated).restored) sessionID
            = (s.sweep now).entries sessionID := by
        split_ifs
        · rfl
        · exact update_of_ne hne _ _
      rw [hother, hsweep.memory]
      simp [hne]

/-- A session keeps its entries while another one changes. -/
theorem Kept.of_same {s' : State}
    (hdisk : s'.disk sessionID = s.disk sessionID) (hentries : s'.entries sessionID = s.entries sessionID)
    (hhydrated : sessionID ∈ s'.hydrated ↔ sessionID ∈ s.hydrated) (huuids : s.uuids ≤ s'.uuids) :
    Kept s' sessionID session where
  memory := by
    rw [hentries, h.memory]
    simp only [hhydrated]
  stored := hdisk ▸ h.stored
  files := h.files
  references := h.references
  drawn := fun entry hentry ↦ Nat.lt_of_lt_of_le (h.drawn entry hentry) huuids
  revision := h.revision

/-! ## Preparing -/

end

structure Created (s : State) (uuid bound : ℕ) (entry : Entry) : Prop where
  lower : uuid ≤ entry.reference
  upper : entry.reference < bound
  baseline : entry.baseline = (s.files entry.file).getD .absent
  expected : entry.expected = none
  revision : entry.revision = 0
  available : entry.unavailable = false

theorem map_file_created (s : State) (session : List Entry) (uuid : ℕ) (files : List String) :
    (reserveFiles s session uuid files).1.map (·.file) = files.filter (· ∉ session.map (·.file)) := by
  induction files generalizing uuid with
  | nil => rfl
  | cons file files ih =>
    unfold reserveFiles
    split
    · next existing hexisting =>
      have hmem : file ∈ session.map (·.file) := by
        have hfile : existing.file = file := by simpa using find?_some hexisting
        exact hfile ▸ List.mem_map_of_mem (mem_of_find?_eq_some hexisting)
      rw [filter_cons_of_neg (by simpa using hmem)]
      exact ih _
    · next hnone =>
      have hmem : file ∉ session.map (·.file) := by
        intro hmem
        obtain ⟨entry, hentry, hfile⟩ := List.mem_map.mp hmem
        exact absurd hfile (by simpa using find?_eq_none.mp hnone entry hentry)
      rw [filter_cons_of_pos (by simpa using hmem)]
      exact congrArg (file :: ·) (ih _)

theorem created_of_mem {uuid : ℕ} {files : List String} {entry : Entry}
    (h : entry ∈ (reserveFiles s session uuid files).1) : Created s uuid (uuid + 2 * files.length) entry := by
  induction files generalizing uuid with
  | nil => exact absurd h not_mem_nil
  | cons file files ih =>
    unfold reserveFiles at h
    rw [length_cons]
    split at h
    · have ih := ih h
      exact { ih with lower := by have := ih.lower; omega, upper := by have := ih.upper; omega }
    · rcases mem_cons.mp h with rfl | h
      · exact ⟨Nat.le_refl _, by dsimp only; omega, rfl, rfl, rfl, rfl⟩
      · have ih := ih h
        exact { ih with lower := by have := ih.lower; omega, upper := by have := ih.upper; omega }

theorem nodup_references_created (s : State) (session : List Entry) (uuid : ℕ) (files : List String) :
    ((reserveFiles s session uuid files).1.map (·.reference)).Nodup := by
  induction files generalizing uuid with
  | nil => exact nodup_nil
  | cons file files ih =>
    unfold reserveFiles
    split
    · exact ih _
    · refine nodup_cons.mpr ⟨fun hmem ↦ ?_, ih _⟩
      obtain ⟨entry, hentry, hreference⟩ := List.mem_map.mp hmem
      have := (created_of_mem hentry).lower
      dsimp only at hreference
      omega

theorem created_endpoint {uuid : ℕ} {files : List String} {endpoint : ReservedEndpoint}
    (h : endpoint ∈ (reserveFiles s session uuid files).2) (hcreated : endpoint.created = true) :
    endpoint.revision = 0 ∧ ∃ entry ∈ (reserveFiles s session uuid files).1,
      entry.reference = endpoint.reference ∧ entry.file = endpoint.file := by
  induction files generalizing uuid with
  | nil => exact absurd h not_mem_nil
  | cons file files ih =>
    unfold reserveFiles at h ⊢
    split at h
    · rcases mem_cons.mp h with rfl | h
      · cases hcreated
      · exact ih h
    · rcases mem_cons.mp h with rfl | h
      · exact ⟨rfl, _, mem_cons_self, rfl, rfl⟩
      · obtain ⟨hrevision, entry, hentry, h⟩ := ih h
        exact ⟨hrevision, entry, mem_cons_of_mem _ hentry, h⟩

theorem writeArtifacts_spec (disk : SessionDisk) {fails : List Write} {created : List Entry}
    (htombstone : disk.tombstone = false) (hreferences : (created.map (·.reference)).Nodup)
    (h : ∀ entry ∈ created, Write.artifact entry.file ∈ fails → entry.baseline = .absent) :
    ∃ artifacts, disk.writeArtifacts fails created = ({ disk with artifacts := artifacts }, .done) ∧
      (∀ reference, reference ∉ created.map (·.reference) → artifacts reference = disk.artifacts reference) ∧
      ∀ entry ∈ created, ∀ content, entry.baseline = .present content → artifacts entry.reference = some content := by
  induction created generalizing disk with
  | nil => exact ⟨disk.artifacts, rfl, fun _ _ ↦ rfl, fun entry hentry ↦ absurd hentry not_mem_nil⟩
  | cons entry created ih =>
    rw [map_cons, nodup_cons] at hreferences
    have hwrite : ∃ artifacts,
        disk.writeArtifact entry (Write.artifact entry.file ∈ fails) = ({ disk with artifacts := artifacts }, .done) ∧
          (∀ reference, reference ≠ entry.reference → artifacts reference = disk.artifacts reference) ∧
          ∀ content, entry.baseline = .present content → artifacts entry.reference = some content := by
      unfold SessionDisk.writeArtifact
      split
      · next habsent => exact ⟨disk.artifacts, rfl, fun _ _ ↦ rfl, fun content hcontent ↦ by simp_all⟩
      · next content hcontent =>
        have hfails : Write.artifact entry.file ∉ fails := fun hmem ↦ by
          rw [h entry mem_cons_self hmem] at hcontent
          cases hcontent
        rw [if_neg (by simp [htombstone]), if_neg (by simpa using hfails)]
        refine ⟨_, rfl, fun reference hne ↦ update_of_ne hne _ _, fun content' hcontent' ↦ ?_⟩
        rw [update_self, Endpoint.present.inj (hcontent.symm.trans hcontent')]
    obtain ⟨artifacts, hwrite, hother, hself⟩ := hwrite
    obtain ⟨artifacts', hwrites, hother', hself'⟩ :=
      ih { disk with artifacts := artifacts } htombstone hreferences.2
        fun entry' hentry' ↦ h entry' (mem_cons_of_mem _ hentry')
    refine ⟨artifacts', ?_, fun reference hreference ↦ ?_, fun entry' hentry' ↦ ?_⟩
    · rw [SessionDisk.writeArtifacts, hwrite]
      exact hwrites
    · rw [map_cons, mem_cons, not_or] at hreference
      rw [hother' reference hreference.2]
      exact hother reference hreference.1
    · rcases mem_cons.mp hentry' with rfl | hentry'
      · rw [hother' entry'.reference hreferences.1]
        exact hself
      · exact hself' entry' hentry'

theorem stored_publish {session created : List Entry} {fails : List Write}
    (htombstone : disk.tombstone = false) (hsession : Stored disk session)
    (hkept : ∀ entry ∈ session, entry.unavailable = false ∧ ∀ content, entry.baseline = .present content →
      disk.artifacts entry.reference = some content)
    (havailable : ∀ entry ∈ created, entry.unavailable = false)
    (hreferences : ((session ++ created).map (·.reference)).Nodup)
    (hlease : created ≠ [] → Write.lease ∉ fails)
    (hartifact : ∀ entry ∈ created, Write.artifact entry.file ∈ fails → entry.baseline = .absent) :
    Stored (disk.publish (session ++ created) created fails).1 (session ++ created) ∧
      (disk.publish (session ++ created) created fails).2 ≠ .refused := by
  rw [map_append, nodup_append] at hreferences
  by_cases hlease' : Write.lease ∈ fails
  · -- nothing is created, and nothing is written
    obtain rfl : created = [] := not_not.mp fun hne ↦ hlease hne hlease'
    have hpublish : disk.publish (session ++ []) [] fails = (disk, .threw) := by
      simp [SessionDisk.publish, SessionDisk.persist, htombstone, hlease']
    rw [hpublish, append_nil]
    exact ⟨hsession, by simp⟩
  · have hpersist : disk.persist (session ++ created) (created.map (·.reference)) (Write.lease ∈ fails)
        = ({ disk with
              manifest := some
                { generation := (disk.manifest.elim 0 (·.generation)) + 1
                  entries := (session ++ created).map (·.persisted)
                  leases := created.map (·.reference) } }, .done) := by
      rw [SessionDisk.persist, if_neg (by simp [htombstone]), if_neg (by simpa using hlease')]
    obtain ⟨artifacts, hwrites, hother, hself⟩ := writeArtifacts_spec
      { disk with
        manifest := some
          { generation := (disk.manifest.elim 0 (·.generation)) + 1
            entries := (session ++ created).map (·.persisted)
            leases := created.map (·.reference) } }
      htombstone hreferences.2.1 hartifact
    have hentries : ∀ entry ∈ session ++ created, entry.unavailable = false ∧
        ∀ content, entry.baseline = .present content → artifacts entry.reference = some content := by
      intro entry hentry
      rcases mem_append.mp hentry with hentry | hentry
      · refine ⟨(hkept entry hentry).1, fun content hcontent ↦ ?_⟩
        rw [hother entry.reference fun hmem ↦
          hreferences.2.2 _ (List.mem_map_of_mem hentry) _ hmem rfl]
        exact (hkept entry hentry).2 content hcontent
      · exact ⟨havailable entry hentry, hself entry hentry⟩
    rw [SessionDisk.publish, hpersist]
    dsimp only
    rw [hwrites]
    dsimp only
    refine ⟨stored_of_persist htombstone hentries (.inl ?_), ?_⟩
    · rw [Stored, if_neg (by simp [htombstone])]
      exact ⟨rfl, hentries⟩
    · unfold SessionDisk.persist
      rw [if_neg (by simp [htombstone])]
      split_ifs <;> simp

theorem Stored.available (h : Stored disk session) (htombstone : disk.tombstone = false) :
    ∀ entry ∈ session, entry.unavailable = false ∧ ∀ content, entry.baseline = .present content →
      disk.artifacts entry.reference = some content := by
  rw [Stored, if_neg (by simp [htombstone])] at h
  split at h
  · rw [h]
    exact fun entry hentry ↦ absurd hentry not_mem_nil
  · exact h.2

/-! ## Steps -/

/-- What a step does to the entries of all sessions. -/
structure Evolves (s s' : State) (before after : String → List Entry) : Prop where
  kept : ∀ sessionID, Kept s' sessionID (after sessionID)
  /-- A file that has been committed stays, with its revision or a later one. -/
  grows : ∀ sessionID, ∀ entry ∈ before sessionID, entry.revision ≠ 0 → (s'.disk sessionID).tombstone = true ∨
    ∃ entry' ∈ after sessionID, entry'.file = entry.file ∧ entry.revision ≤ entry'.revision
  baseline : ∀ sessionID, ∀ entry ∈ before sessionID, ∀ entry' ∈ after sessionID, entry.file = entry'.file →
    entry'.baseline = entry.baseline
  references : ∀ sessionID, ∀ entry' ∈ after sessionID,
    (∃ entry ∈ before sessionID, entry.reference = entry'.reference ∧ entry.file = entry'.file) ∨
      s.uuids ≤ entry'.reference
  uuids : s.uuids ≤ s'.uuids
  tombstone : ∀ sessionID, (s.disk sessionID).tombstone = true → (s'.disk sessionID).tombstone = true

section Steps

variable {before : String → List Entry}

theorem eq_of_file {entry entry' : Entry} (hfiles : (session.map (·.file)).Nodup) (h : entry ∈ session)
    (h' : entry' ∈ session) (heq : entry.file = entry'.file) : entry = entry' :=
  inj_on_of_nodup_map hfiles h h' heq

theorem evolves_of_same {s' : State} (hkept : ∀ id, Kept s' id (before id)) (huuids : s.uuids ≤ s'.uuids)
    (htombstone : ∀ id, (s.disk id).tombstone = true → (s'.disk id).tombstone = true) :
    Evolves s s' before before where
  kept := hkept
  grows := fun _ entry hentry _ ↦ .inr ⟨entry, hentry, rfl, Nat.le_refl _⟩
  baseline := fun id entry hentry entry' hentry' heq ↦ by rw [eq_of_file (hkept id).files hentry hentry' heq]
  references := fun _ entry hentry ↦ .inl ⟨entry, hentry, rfl, rfl⟩
  uuids := huuids
  tombstone := htombstone

theorem tombstone_swept (disk : SessionDisk) : disk.swept.tombstone = disk.tombstone := by
  unfold SessionDisk.swept
  split_ifs <;> rfl

variable (s)

theorem disk_hydrate (hydrated : String) (now : ℤ) (id : String) :
    (s.hydrate hydrated now).disk id = (s.disk id).swept := by
  unfold State.hydrate
  dsimp only
  split_ifs <;> rfl

theorem uuids_hydrate (hydrated : String) (now : ℤ) : (s.hydrate hydrated now).uuids = s.uuids := by
  unfold State.hydrate
  dsimp only
  split_ifs <;> rfl

theorem files_hydrate (hydrated : String) (now : ℤ) : (s.hydrate hydrated now).files = s.files := by
  unfold State.hydrate
  dsimp only
  split_ifs <;> rfl

theorem mem_hydrated_hydrate (hydrated : String) (now : ℤ) : hydrated ∈ (s.hydrate hydrated now).hydrated := by
  unfold State.hydrate
  by_cases hin : hydrated ∈ (s.sweep now).hydrated
  · rwa [if_pos hin]
  · rw [if_neg hin]
    exact mem_cons_self

variable {s}

theorem evolves_hydrate (hkept : ∀ id, Kept s id (before id)) (hydrated : String) (now : ℤ) :
    Evolves s (s.hydrate hydrated now) before before :=
  evolves_of_same (fun id ↦ (hkept id).hydrate hydrated now) (Nat.le_of_eq (uuids_hydrate s hydrated now).symm)
    fun id h ↦ by rw [disk_hydrate, tombstone_swept, h]

theorem Evolves.trans {s' s'' : State} {middle after : String → List Entry} (h : Evolves s s' before middle)
    (h' : Evolves s' s'' middle after) (hbefore : before = middle) : Evolves s s'' before after := by
  subst hbefore
  exact ⟨h'.kept, h'.grows, h'.baseline, fun id entry hentry ↦ (h'.references id entry hentry).imp_right
    (Nat.le_trans h.uuids), Nat.le_trans h.uuids h'.uuids, fun id ↦ h'.tombstone id ∘ h.tombstone id⟩

theorem evolves_of_update {s' : State} {sessionID : String} {after : List Entry} (hkept : ∀ id, Kept s id (before id))
    (hother : ∀ id, id ≠ sessionID → s'.disk id = s.disk id ∧ s'.entries id = s.entries id ∧
      (id ∈ s'.hydrated ↔ id ∈ s.hydrated))
    (huuids : s.uuids ≤ s'.uuids)
    (htombstone : (s.disk sessionID).tombstone = true → (s'.disk sessionID).tombstone = true)
    (hself : Kept s' sessionID after)
    (hgrows : ∀ entry ∈ before sessionID, entry.revision ≠ 0 → (s'.disk sessionID).tombstone = true ∨
      ∃ entry' ∈ after, entry'.file = entry.file ∧ entry.revision ≤ entry'.revision)
    (hbaseline : ∀ entry ∈ before sessionID, ∀ entry' ∈ after, entry.file = entry'.file →
      entry'.baseline = entry.baseline)
    (hreferences : ∀ entry' ∈ after, (∃ entry ∈ before sessionID, entry.reference = entry'.reference ∧
      entry.file = entry'.file) ∨ s.uuids ≤ entry'.reference) :
    Evolves s s' before (Function.update before sessionID after) := by
  have hsame : Evolves s s before before := evolves_of_same hkept (Nat.le_refl _) fun _ h ↦ h
  refine ⟨fun id ↦ ?_, fun id ↦ ?_, fun id ↦ ?_, fun id ↦ ?_, huuids, fun id ↦ ?_⟩ <;>
    rcases eq_or_ne id sessionID with rfl | hne
  · rwa [update_self]
  · rw [update_of_ne hne]
    obtain ⟨hdisk, hentries, hhydrated⟩ := hother id hne
    exact (hkept id).of_same hdisk hentries hhydrated huuids
  · rwa [update_self]
  · rw [update_of_ne hne, (hother id hne).1]
    exact hsame.grows id
  · rwa [update_self]
  · rw [update_of_ne hne]
    exact hsame.baseline id
  · rwa [update_self]
  · rw [update_of_ne hne]
    exact hsame.references id
  · exact htombstone
  · rw [(hother id hne).1]
    exact fun h ↦ h

theorem evolves_remove (hkept : ∀ id, Kept s id (before id)) (sessionID : String) :
    Evolves s (s.remove sessionID) before (Function.update before sessionID []) := by
  refine evolves_of_update hkept (fun id hne ↦ ⟨?_, ?_, ?_⟩) (Nat.le_refl _) (fun _ ↦ ?_) ?_ (fun entry _ _ ↦ .inl ?_)
    (fun _ _ entry' h ↦ absurd h not_mem_nil) fun entry' h ↦ absurd h not_mem_nil
  · exact update_of_ne hne _ _
  · exact update_of_ne hne _ _
  · simp only [State.remove]
    split_ifs
    · exact Iff.rfl
    · simp [hne]
  · simp [State.remove]
  · refine ⟨?_, ?_, nodup_nil, nodup_nil, fun _ h ↦ absurd h not_mem_nil,
      fun _ h ↦ absurd h not_mem_nil⟩
    · simp [State.remove]
    · simp [State.remove, Stored]
  · simp [State.remove]

/-! ## Committing -/

variable (sha256 : String → String)

/-- What a commit does to an entry, given the endpoints of its reservation. -/
structure Advances (endpoints : List ReservedEndpoint) (entry entry' : Entry) : Prop where
  file : entry'.file = entry.file
  reference : entry'.reference = entry.reference
  baseline : entry'.baseline = entry.baseline
  available : entry'.unavailable = entry.unavailable
  revision : entry.revision ≤ entry'.revision
  reserved : (∃ endpoint ∈ endpoints, endpoint.file = entry.file) → entry.revision < entry'.revision
  expected : (entry.revision = 0 ↔ entry.expected = none) → (entry'.revision = 0 ↔ entry'.expected = none)

variable {endpoints : List ReservedEndpoint} {reservation : PreparedReservation}

theorem foldl_commitEndpoint
    (hreadable : ∀ endpoint ∈ endpoints, s.files endpoint.file ≠ none) (session : List Entry) :
    ∃ advance : Entry → Entry, endpoints.foldl (State.commitEndpoint sha256 s) session = session.map advance ∧
      ∀ entry, Advances endpoints entry (advance entry) := by
  induction endpoints generalizing session with
  | nil =>
    exact ⟨id, (List.map_id _).symm, fun entry ↦ ⟨rfl, rfl, rfl, rfl, Nat.le_refl _, fun h ↦ by simp at h, fun h ↦ h⟩⟩
  | cons endpoint endpoints ih =>
    obtain ⟨advance, hfold, hadvance⟩ := ih (fun e he ↦ hreadable e (mem_cons_of_mem _ he))
      (State.commitEndpoint sha256 s session endpoint)
    obtain ⟨content, hcontent⟩ := Option.ne_none_iff_exists'.mp (hreadable endpoint mem_cons_self)
    refine ⟨advance ∘ fun entry ↦ if entry.file = endpoint.file then
      { entry with expected := (s.files endpoint.file).map (State.digest sha256), revision := entry.revision + 1 }
      else entry, ?_, fun entry ↦ ?_⟩
    · rw [foldl_cons, hfold, State.commitEndpoint, List.map_map]
    · by_cases hfile : entry.file = endpoint.file
      · have h := hadvance { entry with
          expected := (s.files endpoint.file).map (State.digest sha256), revision := entry.revision + 1 }
        rw [comp_apply, if_pos hfile]
        have hrevision := h.revision
        dsimp only at hrevision
        exact ⟨h.file, h.reference, h.baseline, h.available, by omega, fun _ ↦ by omega,
          fun _ ↦ h.expected (by simp [hcontent])⟩
      · have h := hadvance entry
        rw [comp_apply, if_neg hfile]
        refine ⟨h.file, h.reference, h.baseline, h.available, h.revision, fun ⟨e, he, heq⟩ ↦ ?_, h.expected⟩
        rcases mem_cons.mp he with rfl | he
        · exact absurd heq.symm hfile
        · exact h.reserved ⟨e, he, heq⟩

theorem valid_eq_some {now : ℤ} {stored : Reservation}
    (h : s.valid sessionID reservation now = some stored) :
    (s.disk sessionID).tombstone = false ∧ stored ∈ s.reservations ∧ stored.sessionID = sessionID ∧
      (stored.state = .prepared → s.entries sessionID ≠ [] ∧
        ∀ endpoint ∈ stored.endpoints, s.revision? sessionID endpoint.file = some endpoint.revision) := by
  unfold State.valid at h
  split_ifs at h with htombstone
  split at h
  · cases h
  · next found hfound =>
    split_ifs at h with hsession hexpires hsame hcommitted hexpired hrevisions
    · cases h
      exact ⟨by simpa using htombstone, mem_of_find?_eq_some hfound, (not_or.mp hsession).1 |> not_not.mp,
        fun hprepared ↦ absurd hcommitted (by simp [hprepared])⟩
    · cases h
      rw [not_or] at hrevisions
      refine ⟨by simpa using htombstone, mem_of_find?_eq_some hfound, (not_or.mp hsession).1 |> not_not.mp,
        fun _ ↦ ⟨hrevisions.1, fun endpoint hendpoint ↦ ?_⟩⟩
      by_contra hne
      exact hrevisions.2 ⟨endpoint, hendpoint, hne⟩

theorem revision?_eq_some {file : String} {revision : ℕ} (h : s.revision? sessionID file = some revision) :
    ∃ entry ∈ s.entries sessionID, (s.entries sessionID).find? (·.file = file) = some entry ∧ entry.file = file ∧
      entry.revision = revision := by
  obtain ⟨entry, hentry, hrevision⟩ := Option.map_eq_some_iff.mp h
  exact ⟨entry, mem_of_find?_eq_some hentry, hentry, by simpa using find?_some hentry, hrevision⟩

theorem Kept.entries_eq (h : Kept s sessionID session) (hne : s.entries sessionID ≠ []) :
    sessionID ∈ s.hydrated ∧ s.entries sessionID = session := by
  have hmemory := h.memory
  by_cases hin : sessionID ∈ s.hydrated
  · rw [if_pos hin] at hmemory
    exact ⟨hin, hmemory⟩
  · rw [if_neg hin] at hmemory
    exact absurd hmemory hne

theorem advance_available {advance : Entry → Entry} {artifacts : ℕ → Option String}
    (hadvance : ∀ entry, Advances endpoints entry (advance entry))
    (h : ∀ entry ∈ session, entry.unavailable = false ∧ ∀ content, entry.baseline = .present content →
      artifacts entry.reference = some content) :
    ∀ entry ∈ session.map advance, entry.unavailable = false ∧ ∀ content, entry.baseline = .present content →
      artifacts entry.reference = some content := by
  intro entry' hentry'
  obtain ⟨entry, hentry, rfl⟩ := List.mem_map.mp hentry'
  rw [(hadvance entry).available, (hadvance entry).baseline, (hadvance entry).reference]
  exact h entry hentry

theorem kept_advance {s' : State} {advance : Entry → Entry}
    (h : Kept s sessionID session) (hadvance : ∀ entry, Advances endpoints entry (advance entry))
    (hmemory : s'.entries sessionID = if sessionID ∈ s'.hydrated then session.map advance else [])
    (hstored : Stored (s'.disk sessionID) (session.map advance)) (huuids : s.uuids ≤ s'.uuids) :
    Kept s' sessionID (session.map advance) where
  memory := hmemory
  stored := hstored
  files := by
    rw [List.map_map, map_congr_left fun entry _ ↦ show (Entry.file ∘ advance) entry = entry.file from
      (hadvance entry).file]
    exact h.files
  references := by
    rw [List.map_map, map_congr_left fun entry _ ↦ show (Entry.reference ∘ advance) entry = entry.reference from
      (hadvance entry).reference]
    exact h.references
  drawn := fun entry' hentry' ↦ by
    obtain ⟨entry, hentry, rfl⟩ := List.mem_map.mp hentry'
    rw [(hadvance entry).reference]
    exact Nat.lt_of_lt_of_le (h.drawn entry hentry) huuids
  revision := fun entry' hentry' ↦ by
    obtain ⟨entry, hentry, rfl⟩ := List.mem_map.mp hentry'
    exact (hadvance entry).expected (h.revision entry hentry)

theorem commit_spec (hkept : ∀ id, Kept s id (before id)) {now : ℤ} {fails : Bool}
    (hsure : ∀ stored ∈ s.valid sessionID reservation now, stored.state = .prepared →
      (∀ endpoint ∈ stored.endpoints, s.files endpoint.file ≠ none) → fails = false) :
    ((s.commit sha256 sessionID reservation now fails).1 = s ∧
      ∀ stored, s.valid sessionID reservation now = some stored → stored.state = .prepared →
        (s.commit sha256 sessionID reservation now fails).2 ≠ .value true) ∨
    ∃ stored, s.valid sessionID reservation now = some stored ∧ stored.state = .prepared ∧
      (s.commit sha256 sessionID reservation now fails).2 = .value true ∧
      (s.commit sha256 sessionID reservation now fails).1.reservations =
        s.reservations.map (fun r ↦ if r.id = stored.id then { r with state := .committed } else r) ∧
      ∃ after, Evolves s (s.commit sha256 sessionID reservation now fails).1 before
          (Function.update before sessionID after) ∧
        ∀ endpoint ∈ stored.endpoints, ∃ entry ∈ after, entry.file = endpoint.file ∧ endpoint.revision < entry.revision := by
  unfold State.commit
  rcases hvalid : s.valid sessionID reservation now with _ | stored
  · exact .inl ⟨rfl, fun stored h ↦ by cases h⟩
  · dsimp only
    by_cases hcommitted : stored.state = .committed
    · rw [if_pos hcommitted]
      refine .inl ⟨rfl, fun stored' h hprepared ↦ ?_⟩
      cases h
      rw [hcommitted] at hprepared
      cases hprepared
    · rw [if_neg hcommitted]
      by_cases hunreadable : ∃ endpoint ∈ stored.endpoints, s.files endpoint.file = none
      · rw [if_pos hunreadable]
        exact .inl ⟨rfl, fun _ _ _ ↦ by simp⟩
      · rw [if_neg hunreadable]
        have hprepared : stored.state = .prepared := by
          cases hstate : stored.state with
          | prepared => rfl
          | committed => exact absurd hstate hcommitted
        have hreadable : ∀ endpoint ∈ stored.endpoints, s.files endpoint.file ≠ none :=
          fun endpoint hendpoint hnone ↦ hunreadable ⟨endpoint, hendpoint, hnone⟩
        obtain rfl := hsure stored hvalid hprepared hreadable
        obtain ⟨htombstone, hstored, hsession, hrevisions⟩ := valid_eq_some hvalid
        obtain ⟨hne, hrevisions⟩ := hrevisions hprepared
        obtain ⟨hin, hentries⟩ := (hkept sessionID).entries_eq hne
        obtain ⟨advance, hfold, hadvance⟩ := foldl_commitEndpoint sha256 hreadable (s.entries sessionID)
        have hpersist : ∀ session : List Entry, (s.disk sessionID).persist session [] false =
            ({ s.disk sessionID with
                manifest := some
                  { generation := ((s.disk sessionID).manifest.elim 0 (·.generation)) + 1
                    entries := session.map (·.persisted)
                    leases := [] } }, .done) := fun session ↦ by
          rw [SessionDisk.persist, if_neg (by simp [htombstone]), if_neg (by simp)]
        rw [hfold, hentries, hpersist]
        have hk := hkept sessionID
        refine .inr ⟨stored, rfl, hprepared, rfl, rfl, (before sessionID).map advance, ?_, fun endpoint hendpoint ↦ ?_⟩
        · refine evolves_of_update hkept (fun id hne' ↦ ?_) (Nat.le_refl _) (fun h ↦ ?_) ?_ (fun entry hentry _ ↦ ?_)
            (fun entry hentry entry' hentry' heq ↦ ?_) fun entry' hentry' ↦ ?_
          · exact ⟨update_of_ne hne' _ _, update_of_ne hne' _ _, Iff.rfl⟩
          · rw [htombstone] at h
            cases h
          · refine kept_advance hk hadvance ?_ ?_ (Nat.le_refl _)
            · dsimp only
              rw [if_pos hin, update_self]
            · dsimp only
              rw [update_self, Stored, if_neg (by simp [htombstone])]
              exact ⟨rfl, advance_available hadvance (hk.stored.available htombstone)⟩
          · exact .inr ⟨advance entry, List.mem_map_of_mem hentry, (hadvance entry).file, (hadvance entry).revision⟩
          · obtain ⟨entry₀, hentry₀, rfl⟩ := List.mem_map.mp hentry'
            rw [(hadvance entry₀).baseline, eq_of_file hk.files hentry hentry₀ (heq.trans (hadvance entry₀).file)]
          · obtain ⟨entry₀, hentry₀, rfl⟩ := List.mem_map.mp hentry'
            exact .inl ⟨entry₀, hentry₀, (hadvance entry₀).reference.symm, (hadvance entry₀).file.symm⟩
        · obtain ⟨entry, hentry, -, hfile, hrevision⟩ := revision?_eq_some (hrevisions endpoint hendpoint)
          rw [hentries] at hentry
          have hlt := (hadvance entry).reserved ⟨endpoint, hendpoint, hfile.symm⟩
          exact ⟨advance entry, List.mem_map_of_mem hentry, (hadvance entry).file.trans hfile, hrevision ▸ hlt⟩

/-! ## Aborting -/

/-- The endpoints of a reservation that created an entry name it as it is. -/
def Owns (session : List Entry) (stored : Reservation) : Prop :=
  ∀ endpoint ∈ stored.endpoints, endpoint.created = true → endpoint.revision = 0 ∧
    ∀ entry ∈ session, entry.reference = endpoint.reference → entry.file = endpoint.file

/-- The references of those endpoints have been drawn. -/
def Drawn (s : State) (stored : Reservation) : Prop :=
  ∀ endpoint ∈ stored.endpoints, endpoint.created = true → endpoint.reference < s.uuids

theorem abort_spec (hkept : ∀ id, Kept s id (before id)) {now : ℤ} {fails : Bool}
    (howns : ∀ stored ∈ s.reservations, stored.sessionID = sessionID → Owns (before sessionID) stored)
    (hsure : ∀ stored ∈ s.valid sessionID reservation now, stored.state = .prepared →
      (∃ endpoint ∈ stored.endpoints, endpoint.created = true) →
        fails = false ∧ ∃ entry ∈ s.entries sessionID, ∀ endpoint ∈ stored.endpoints,
          endpoint.created = true → entry.file ≠ endpoint.file) :
    ∃ after, Evolves s (s.abort sessionID reservation now fails).1 before (Function.update before sessionID after) ∧
      (s.abort sessionID reservation now fails).1.reservations ⊆ s.reservations ∧
      ∀ stored, s.valid sessionID reservation now = some stored → stored.state = .prepared →
        ∀ endpoint ∈ stored.endpoints, endpoint.created = true → ∀ entry ∈ after, entry.file ≠ endpoint.file := by
  have hsame : Evolves s s before (Function.update before sessionID (before sessionID)) := by
    rw [update_eq_self]
    exact evolves_of_same hkept (Nat.le_refl _) fun _ h ↦ h
  unfold State.abort
  rcases hvalid : s.valid sessionID reservation now with _ | stored
  · exact ⟨before sessionID, hsame, Subset.refl _, fun stored h ↦ by cases h⟩
  · dsimp only
    by_cases hprepared : stored.state = .prepared
    · rw [if_neg (not_not.mpr hprepared)]
      obtain ⟨htombstone, hstored, hsession, hrevisions⟩ := valid_eq_some hvalid
      obtain ⟨hne, hrevisions⟩ := hrevisions hprepared
      obtain ⟨hin, hentries⟩ := (hkept sessionID).entries_eq hne
      have howns := howns stored hstored hsession
      have hk := hkept sessionID
      rw [hentries]
      generalize hdropped : stored.endpoints.filter (State.dropped (before sessionID)) = endpoints
      have hcreated : ∀ endpoint ∈ endpoints, endpoint ∈ stored.endpoints ∧ endpoint.created = true ∧
          ∀ entry ∈ before sessionID, entry.file = endpoint.file → entry.expected = none := by
        intro endpoint hendpoint
        rw [← hdropped] at hendpoint
        obtain ⟨hendpoint, hdrop⟩ := mem_filter.mp hendpoint
        rw [State.dropped, Bool.and_eq_true] at hdrop
        refine ⟨hendpoint, hdrop.1, fun entry hentry hfile ↦ ?_⟩
        obtain ⟨entry', hentry', hfind, hfile', -⟩ := revision?_eq_some (hrevisions endpoint hendpoint)
        rw [hentries] at hentry' hfind
        rw [hfind] at hdrop
        rw [eq_of_file hk.files hentry hentry' (hfile.trans hfile'.symm)]
        simpa using hdrop.2
      -- an entry that the reservation has created has not been committed
      have hall : ∀ endpoint ∈ stored.endpoints, endpoint.created = true → endpoint ∈ endpoints := by
        intro endpoint hendpoint hcreated'
        obtain ⟨entry, hentry, hfind, hfile, hrevision⟩ := revision?_eq_some (hrevisions endpoint hendpoint)
        rw [hentries] at hentry hfind
        rw [(howns endpoint hendpoint hcreated').1] at hrevision
        rw [← hdropped]
        refine mem_filter.mpr ⟨hendpoint, ?_⟩
        rw [State.dropped, hfind, hcreated']
        simp [(hk.revision entry hentry).mp hrevision]
      generalize hafter : (before sessionID).filter (fun e ↦ e.file ∉ endpoints.map (·.file)) = after
      have hmem : ∀ entry, entry ∈ after ↔ entry ∈ before sessionID ∧ entry.file ∉ endpoints.map (·.file) := by
        intro entry
        rw [← hafter, mem_filter, decide_eq_true_iff]
      have hfails : (fails = false ∧ after ≠ []) ∨ endpoints = [] ∧ after = before sessionID := by
        rcases endpoints with _ | ⟨endpoint, endpoints⟩
        · exact .inr ⟨rfl, hafter ▸ filter_eq_self.mpr fun entry _ ↦ by simp⟩
        · obtain ⟨hendpoint, hcreated', -⟩ := hcreated endpoint mem_cons_self
          obtain ⟨hfails, entry, hentry, hother⟩ := hsure stored hvalid hprepared ⟨endpoint, hendpoint, hcreated'⟩
          refine .inl ⟨hfails, ne_nil_of_mem ((hmem entry).mpr ⟨hentries ▸ hentry, fun hfile ↦ ?_⟩)⟩
          obtain ⟨endpoint', hendpoint', hfile⟩ := List.mem_map.mp hfile
          obtain ⟨hstored', hcreated', -⟩ := hcreated endpoint' hendpoint'
          exact hother endpoint' hstored' hcreated' hfile.symm
      have hleft : after ≠ [] := by
        rcases hfails with ⟨-, hleft⟩ | ⟨-, hafter'⟩
        · exact hleft
        · rw [hafter', ← hentries]
          exact hne
      have hartifacts : ∀ entry ∈ after, entry.unavailable = false ∧ ∀ content, entry.baseline = .present content →
          (if entry.reference ∈ endpoints.map (·.reference) then none
            else (s.disk sessionID).artifacts entry.reference) = some content := by
        intro entry hentry
        obtain ⟨hentry, hfile⟩ := (hmem entry).mp hentry
        obtain ⟨havailable, hartifact⟩ := hk.stored.available htombstone entry hentry
        refine ⟨havailable, fun content hcontent ↦ ?_⟩
        rw [if_neg]
        · exact hartifact content hcontent
        · intro hreference
          obtain ⟨endpoint, hendpoint, heq⟩ := List.mem_map.mp hreference
          obtain ⟨hstored', hcreated', -⟩ := hcreated endpoint hendpoint
          refine hfile (List.mem_map.mpr ⟨endpoint, hendpoint, ?_⟩)
          exact ((howns endpoint hstored' hcreated').2 entry hentry heq.symm).symm
      have hkept' : ∀ reservations, Evolves s
          { s with
            disk := Function.update s.disk sessionID (({ s.disk sessionID with
              artifacts := fun reference ↦ if reference ∈ endpoints.map (·.reference) then none
                else (s.disk sessionID).artifacts reference } : SessionDisk).persist after [] fails).1
            entries := Function.update s.entries sessionID after
            reservations := reservations } before (Function.update before sessionID after) := by
        intro reservations
        refine evolves_of_update hkept (fun id hne' ↦ ?_) (Nat.le_refl _) (fun h ↦ ?_) ?_
          (fun entry hentry hrevision ↦ .inr ⟨entry, (hmem entry).mpr ⟨hentry, fun hfile ↦ ?_⟩, rfl, Nat.le_refl _⟩)
          (fun entry hentry entry' hentry' heq ↦ ?_)
          fun entry' hentry' ↦ .inl ⟨entry', ((hmem entry').mp hentry').1, rfl, rfl⟩
        · exact ⟨update_of_ne hne' _ _, update_of_ne hne' _ _, Iff.rfl⟩
        · rw [htombstone] at h
          cases h
        · have hsubset : ∀ entry ∈ after, entry ∈ before sessionID := fun entry hentry ↦ ((hmem entry).mp hentry).1
          refine ⟨?_, ?_, ?_, ?_, fun entry hentry ↦ hk.drawn entry (hsubset entry hentry),
            fun entry hentry ↦ hk.revision entry (hsubset entry hentry)⟩
          · dsimp only
            rw [if_pos hin, update_self]
          · dsimp only
            rw [update_self]
            refine stored_of_persist htombstone hartifacts ?_
            rcases hfails with ⟨hfails, -⟩ | ⟨rfl, hafter'⟩
            · exact .inr hfails
            · exact .inl (by simpa [hafter'] using hk.stored)
          · exact hafter ▸ (filter_sublist.map _).nodup hk.files
          · exact hafter ▸ (filter_sublist.map _).nodup hk.references
        · -- a committed entry is not dropped
          obtain ⟨endpoint, hendpoint, hfile⟩ := List.mem_map.mp hfile
          exact hrevision ((hk.revision entry hentry).mpr ((hcreated endpoint hendpoint).2.2 entry hentry hfile.symm))
        · rw [eq_of_file hk.files hentry ((hmem entry').mp hentry').1 heq]
      have hgone : ∀ endpoint ∈ stored.endpoints, endpoint.created = true → ∀ entry ∈ after,
          entry.file ≠ endpoint.file := fun endpoint hendpoint hcreated' entry hentry heq ↦
        ((hmem entry).mp hentry).2 (List.mem_map.mpr ⟨endpoint, hall endpoint hendpoint hcreated', heq.symm⟩)
      rw [if_neg hleft]
      split_ifs with hthrew
      · exact ⟨after, hkept' _, Subset.refl _, fun stored' h _ ↦ by cases h; exact hgone⟩
      · exact ⟨after, hkept' _, filter_sublist.subset, fun stored' h _ ↦ by cases h; exact hgone⟩
    · rw [if_pos hprepared]
      refine ⟨before sessionID, hsame, Subset.refl _, fun stored' h hprepared' ↦ ?_⟩
      cases h
      exact absurd hprepared' hprepared

/-! ## The step of a preparation -/

theorem reservations_hydrate (s : State) (hydrated : String) (now : ℤ) :
    (s.hydrate hydrated now).reservations ⊆ s.reservations := by
  unfold State.hydrate
  dsimp only
  split_ifs <;> exact filter_sublist.subset

theorem prepare_spec (canonical : String → String) (hkept : ∀ id, Kept s id (before id)) {files : List String}
    {ttlMs now : ℤ} {fails : List Write}
    (hsure : ∀ file ∈ files.map canonical, file ∉ ((s.hydrate sessionID now).entries sessionID).map (·.file) →
      Write.lease ∉ fails ∧ ∀ file' ∈ files.map canonical, Write.artifact file' ∈ fails →
        file' ∈ ((s.hydrate sessionID now).entries sessionID).map (·.file) ∨ s.files file' = some .absent) :
    ∃ after, Evolves s (s.prepare canonical sessionID files ttlMs now fails).1 before
        (Function.update before sessionID after) ∧
      ∀ stored ∈ (s.prepare canonical sessionID files ttlMs now fails).1.reservations,
        stored ∈ s.reservations ∨ (stored.sessionID = sessionID ∧ Owns after stored ∧
          Drawn (s.prepare canonical sessionID files ttlMs now fails).1 stored) := by
  have hhydrate := evolves_hydrate hkept sessionID now
  have hsame : Evolves s (s.hydrate sessionID now) before (Function.update before sessionID (before sessionID)) := by
    rwa [update_eq_self]
  unfold State.prepare
  by_cases htombstone : (s.disk sessionID).tombstone = true
  · rw [if_pos htombstone]
    refine ⟨before sessionID, ?_, fun stored h ↦ .inl h⟩
    rw [update_eq_self]
    exact evolves_of_same hkept (Nat.le_refl _) fun _ h ↦ h
  · rw [if_neg htombstone]
    dsimp only
    generalize hs' : s.hydrate sessionID now = s' at *
    have hreservations : s'.reservations ⊆ s.reservations := hs' ▸ reservations_hydrate s sessionID now
    have hk := hhydrate.kept sessionID
    have hin : sessionID ∈ s'.hydrated := hs' ▸ mem_hydrated_hydrate s sessionID now
    have hentries : s'.entries sessionID = before sessionID := by rw [hk.memory, if_pos hin]
    have hfiles' : s'.files = s.files := hs' ▸ files_hydrate s sessionID now
    have htombstone' : (s'.disk sessionID).tombstone = false := by
      rw [← hs', disk_hydrate, tombstone_swept]
      simpa using htombstone
    split_ifs with hduplicate hunreadable
    · exact ⟨before sessionID, hsame, fun stored h ↦ .inl (hreservations h)⟩
    · exact ⟨before sessionID, hsame, fun stored h ↦ .inl (hreservations h)⟩
    · rw [not_or, not_not] at hduplicate
      rw [hentries] at hsure hunreadable ⊢
      generalize hcreated : (reserveFiles s' (before sessionID) s'.uuids (files.map canonical)).1 = created
      generalize hendpoints : (reserveFiles s' (before sessionID) s'.uuids (files.map canonical)).2 = endpoints
      have hmem : ∀ entry ∈ created, Created s' s'.uuids (s'.uuids + 2 * (files.map canonical).length) entry :=
        fun entry hentry ↦ created_of_mem (hcreated ▸ hentry)
      have hmap : created.map (·.file) = (files.map canonical).filter (· ∉ (before sessionID).map (·.file)) :=
        hcreated ▸ map_file_created _ _ _ _
      have hfiles : ((before sessionID ++ created).map (·.file)).Nodup := by
        rw [map_append, hmap]
        refine nodup_append.mpr ⟨hk.files, hduplicate.2.filter _, fun a ha b hb heq ↦ ?_⟩
        have hnot := (mem_filter.mp hb).2
        rw [decide_eq_true_iff] at hnot
        exact hnot (heq ▸ ha)
      have hreferences : ((before sessionID ++ created).map (·.reference)).Nodup := by
        rw [map_append]
        refine nodup_append.mpr ⟨hk.references, hcreated ▸ nodup_references_created _ _ _ _,
          fun a ha b hb heq ↦ ?_⟩
        obtain ⟨entry, hentry, rfl⟩ := List.mem_map.mp ha
        obtain ⟨entry', hentry', rfl⟩ := List.mem_map.mp hb
        have hlt := hk.drawn entry hentry
        have hle := (hmem entry' hentry').lower
        omega
      have hfile : ∀ entry ∈ created, entry.file ∈ files.map canonical ∧ entry.file ∉ (before sessionID).map (·.file) := by
        intro entry hentry
        have hfile := hmap ▸ List.mem_map_of_mem (f := fun e : Entry ↦ e.file) hentry
        simpa using mem_filter.mp hfile
      have hlease : created ≠ [] → Write.lease ∉ fails := by
        intro hne
        obtain ⟨entry, hentry⟩ := exists_mem_of_ne_nil _ hne
        exact (hsure entry.file (hfile entry hentry).1 (hfile entry hentry).2).1
      have hartifact : ∀ entry ∈ created, Write.artifact entry.file ∈ fails → entry.baseline = .absent := by
        intro entry hentry hfails
        obtain ⟨hin', hout⟩ := hfile entry hentry
        have habsent := ((hsure entry.file hin' hout).2 entry.file hin' hfails).resolve_left hout
        rw [(hmem entry hentry).baseline, hfiles', habsent, Option.getD_some]
      obtain ⟨hstored, hrefused⟩ := stored_publish htombstone' hk.stored (hk.stored.available htombstone')
        (fun entry hentry ↦ (hmem entry hentry).available) hreferences hlease hartifact
      have hevolves : ∀ reservations, Evolves s'
          { s' with
            disk := Function.update s'.disk sessionID
              ((s'.disk sessionID).publish (before sessionID ++ created) created fails).1
            entries := Function.update s'.entries sessionID (before sessionID ++ created)
            reservations := reservations
            uuids := s'.uuids + 2 * (files.map canonical).length + 1 } before
          (Function.update before sessionID (before sessionID ++ created)) := by
        intro reservations
        refine evolves_of_update hhydrate.kept (fun id hne ↦ ?_) (by dsimp only; omega) (fun h ↦ ?_) ?_
          (fun entry hentry _ ↦ .inr ⟨entry, mem_append_left _ hentry, rfl, Nat.le_refl _⟩)
          (fun entry hentry entry' hentry' heq ↦ ?_) fun entry' hentry' ↦ ?_
        · exact ⟨update_of_ne hne _ _, update_of_ne hne _ _, Iff.rfl⟩
        · rw [htombstone'] at h
          cases h
        · refine ⟨?_, ?_, hfiles, hreferences, fun entry hentry ↦ ?_, fun entry hentry ↦ ?_⟩
          · dsimp only
            rw [if_pos hin, update_self]
          · dsimp only
            rw [update_self]
            exact hstored
          · dsimp only
            rcases mem_append.mp hentry with hentry | hentry
            · have := hk.drawn entry hentry
              omega
            · have := (hmem entry hentry).upper
              omega
          · rcases mem_append.mp hentry with hentry | hentry
            · exact hk.revision entry hentry
            · exact iff_of_true (hmem entry hentry).revision (hmem entry hentry).expected
        · rw [eq_of_file hfiles (mem_append_left _ hentry) hentry' heq]
        · rcases mem_append.mp hentry' with hentry' | hentry'
          · exact .inl ⟨entry', hentry', rfl, rfl⟩
          · exact .inr (hmem entry' hentry').lower
      have howns : ∀ reservation : PreparedReservation, reservation.endpoints = endpoints →
          Owns (before sessionID ++ created) ⟨reservation, .prepared⟩ := by
        intro reservation heq endpoint hendpoint hcreated'
        have hendpoint' : endpoint ∈ (reserveFiles s' (before sessionID) s'.uuids (files.map canonical)).2 := by
          rw [hendpoints, ← heq]
          exact hendpoint
        obtain ⟨hrevision, entry, hentry, hreference, hfile'⟩ := created_endpoint hendpoint' hcreated'
        rw [hcreated] at hentry
        refine ⟨hrevision, fun entry' hentry' hreference' ↦ ?_⟩
        rw [← hfile', inj_on_of_nodup_map hreferences hentry' (mem_append_right _ hentry)
          (hreference'.trans hreference.symm)]
      have hdrawn : ∀ endpoint ∈ endpoints, endpoint.created = true →
          endpoint.reference < s'.uuids + 2 * (files.map canonical).length + 1 := by
        intro endpoint hendpoint hcreated'
        obtain ⟨-, entry, hentry, hreference, -⟩ := created_endpoint (hendpoints ▸ hendpoint) hcreated'
        have := (hmem entry (hcreated ▸ hentry)).upper
        omega
      have htrans : ∀ reservations, Evolves s _ before _ := fun reservations ↦ hhydrate.trans (hevolves reservations) rfl
      rcases hpublish : (s'.disk sessionID).publish (before sessionID ++ created) created fails with ⟨disk, outcome⟩
      rw [hpublish] at htrans hrefused
      match outcome with
      | .done =>
        refine ⟨before sessionID ++ created, htrans _, fun stored h ↦ ?_⟩
        rcases mem_append.mp h with h | h
        · exact .inl (hreservations h)
        · rw [mem_singleton.mp h]
          exact .inr ⟨rfl, howns _ rfl, hdrawn⟩
      | .refused => exact absurd rfl hrefused
      | .threw => exact ⟨before sessionID ++ created, htrans _, fun stored h ↦ .inl (hreservations h)⟩

end Steps

end Amicode.ExternalDiff
