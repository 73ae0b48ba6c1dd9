import Amicode.Attach.Verified

/-!
# Recovery from a kill

The engine may be killed between any two of its writes, also while it takes up a transition again.
A fresh engine on the machine that is left then finds itself in one of two places. If the journal
leaves a commit-pending entry open, the commit was under way: `resume` completes it, and the record
is as one uninterrupted commit would have left it; or the entry is aborted, and the mode and the
mode-scoped fields are as they were before the stage. Otherwise the engine is idle, there is nothing
to resume or to roll back, and the record is as before the stage, or the commit is complete.

The invariant is about the machine and the record the last transition was staged on, which the
model carries along (`Tracked`): whatever prefix of an operation is written, the machine is
`Recoverable`. Killing the engine while it resolves a pending transition is left out: the entry that
closes it is journaled first.
-/

namespace Amicode.Attach

open ModeTransitionEngine List InsertionMap

/-! ## Records with the same fields -/

/-- Two records have the same fields, in whatever order. -/
def SameFields (r r' : AttachStateRecord) : Prop := ∀ k, field r k = field r' k

def confirmed (mode : AttachMode) (record : AttachStateRecord) : AttachStateRecord :=
  mergeAttachState record (modePatch mode record)

/-- The record after overlay fields are rewritten. -/
def overlaid (patch : List (String × JsValue)) (record : AttachStateRecord) : AttachStateRecord :=
  mergeAttachState record (patch.filter fun e ↦ decide (e.1 ∉ MACHINE_OWNED_FIELDS))

section Fields

variable {r r' base : AttachStateRecord} {mode : AttachMode} {patch : List (String × JsValue)}

theorem SameFields.resolve (h : SameFields r r') : resolveAttachState r = resolveAttachState r' :=
  resolve_congr (h "mode") (h "posture") (h "state")

theorem SameFields.confirmed (h : SameFields r r') :
    SameFields (confirmed mode r) (confirmed mode r') := by
  intro k
  rw [Attach.confirmed, field_modePatch, Attach.confirmed, field_modePatch, h.resolve, h k]

theorem sameFields_confirmed_of (hmode : field r "mode" = mode.value)
    (hstate : field r "state"
      = (legacyStateOf mode (resolveAttachState base).posture).value)
    (hposture : field r "posture" = field base "posture") : SameFields (confirmed mode r) r := by
  have hlegacy : legacyStateOf mode (resolveAttachState r).posture
      = legacyStateOf mode (resolveAttachState base).posture := by
    rw [resolveAttachState, hposture, hstate]
    rcases hnamed : (field base "posture").posture? with _ | posture
    · exact legacyStateOf_legacyPosture mode _
    · rw [resolveAttachState, hnamed]
      rfl
  intro k
  rw [confirmed, field_modePatch, hlegacy]
  split_ifs with hk hk
  · rw [hk, hstate]
  · rw [hk, hmode]
  · rfl

theorem field_confirmed (mode : AttachMode) (base : AttachStateRecord) :
    field (confirmed mode base) "mode" = mode.value
      ∧ field (confirmed mode base) "state"
        = (legacyStateOf mode (resolveAttachState base).posture).value
      ∧ ∀ k, k ≠ "mode" → k ≠ "state" → field (confirmed mode base) k = field base k := by
  refine ⟨?_, ?_, fun k hmode hstate ↦ ?_⟩
  · rw [confirmed, field_modePatch, if_neg (by decide), if_pos rfl]
  · rw [confirmed, field_modePatch, if_pos rfl]
  · rw [confirmed, field_modePatch, if_neg hstate, if_neg hmode]

theorem field_overlaid_owned {k : String} (hk : k ∈ MACHINE_OWNED_FIELDS) :
    field (overlaid patch r) k = field r k :=
  field_overlayRewrite { record := r } patch hk

theorem SameFields.overlaid (h : SameFields r r') :
    SameFields (overlaid patch r) (overlaid patch r') := by
  intro k
  by_cases hk : k ∈ (patch.filter fun e ↦ decide (e.1 ∉ MACHINE_OWNED_FIELDS)).map Prod.fst
  · exact congrArg (Option.getD · JsValue.undefined) (get?_setAll_congr (Or.inr hk))
  · have hget := get?_setAll_of_not_mem r hk
    have hget' := get?_setAll_of_not_mem r' hk
    have hleft : field (Attach.overlaid patch r) k = field r k :=
      congrArg (Option.getD · JsValue.undefined) hget
    have hright : field (Attach.overlaid patch r') k = field r' k :=
      congrArg (Option.getD · JsValue.undefined) hget'
    rw [hleft, hright, h k]

theorem sameFields_overlaid_overlaid : SameFields (overlaid patch (overlaid patch r))
    (overlaid patch r) := by
  intro k
  by_cases hk : k ∈ (patch.filter fun e ↦ decide (e.1 ∉ MACHINE_OWNED_FIELDS)).map Prod.fst
  · exact congrArg (Option.getD · JsValue.undefined) (get?_setAll_congr (Or.inr hk))
  · have hget := get?_setAll_of_not_mem (overlaid patch r) hk
    exact congrArg (Option.getD · JsValue.undefined) hget

end Fields

/-! ## The outcomes -/

/-- The commit of the proposal on the record is complete: the mode and the overlay fields are in
place, and everything else is as it was. -/
structure Committed (proposal : TransitionProposalRecord) (base record : AttachStateRecord) :
    Prop where
  mode : field record "mode" = proposal.toMode.value
  legacy : field record "state"
    = (legacyStateOf proposal.toMode (resolveAttachState base).posture).value
  applied : ∀ patch ∈ proposal.apply, ∀ k ∈ patch.map Prod.fst, k ∉ MACHINE_OWNED_FIELDS →
    field record k = field ((∅ : AttachStateRecord).setAll patch) k
  kept : ∀ k, k ≠ "mode" → k ≠ "state" →
    (∀ patch ∈ proposal.apply, k ∈ patch.map Prod.fst → k ∈ MACHINE_OWNED_FIELDS) →
    field record k = field base k

/-- The record is as it was. Only a legacy field that was not there may have been written, as the
projection of the mode and the posture. -/
def RolledBack (base record : AttachStateRecord) : Prop :=
  ∀ k, field record k = field base k
    ∨ (k = "state" ∧ field base k = .undefined
      ∧ field record k = (legacyStateOf (resolveAttachState base).mode
        (resolveAttachState base).posture).value)

/-- The mode and the mode-scoped fields are as they were, and the posture is. -/
structure Reverted (proposal : TransitionProposalRecord) (base record : AttachStateRecord) :
    Prop where
  mode : (resolveAttachState record).mode = (resolveAttachState base).mode
  modeScoped : ∀ k ∈ proposal.modeScopedFields, k ≠ "mode" → field record k = field base k
  posture : field record "posture" = field base "posture"

/-- The record while a commit is under way: the mode may be confirmed, and then the overlay fields
may be rewritten. -/
def Committing (proposal : TransitionProposalRecord) (base record : AttachStateRecord) : Prop :=
  SameFields record base ∨ SameFields record (confirmed proposal.toMode base)
    ∨ ∃ patch ∈ proposal.apply, SameFields record (overlaid patch (confirmed proposal.toMode base))

section Outcomes

variable {proposal : TransitionProposalRecord} {base record : AttachStateRecord}

theorem Committed.resolve_mode (h : Committed proposal base record) :
    (resolveAttachState record).mode = proposal.toMode :=
  mode_of_field h.mode

theorem RolledBack.resolve_mode (h : RolledBack base record) :
    (resolveAttachState record).mode = (resolveAttachState base).mode := by
  have hmode : field record "mode" = field base "mode" := (h "mode").resolve_right (by simp)
  by_cases hnamed : Named base
  · exact mode_of_field (hmode.trans hnamed.field_eq)
  · have hnot : ¬ Named record := by rwa [Named, hmode]
    rw [mode_of_not_named hnot, mode_of_not_named hnamed]
    rcases h "state" with hstate | ⟨-, hundef, hstate⟩
    · rw [hstate]
    · -- a record that says nothing is standalone, and so is its projection
      have hbase : (resolveAttachState base).mode = .standalone := by
        rw [mode_of_not_named hnamed, hundef]
        rfl
      rw [hstate, legacyMode_legacyStateOf, hbase, hundef, ite_self]
      rfl

theorem Committed.not_rolledBack (h : Committed proposal base record)
    (hto : proposal.toMode ≠ (resolveAttachState base).mode) : ¬ RolledBack base record :=
  fun hrolled ↦ hto (h.resolve_mode.symm.trans hrolled.resolve_mode)

theorem rolledBack_refl : RolledBack base base := fun _ ↦ Or.inl rfl

theorem committed_confirmed (happly : proposal.apply = none)
    (h : SameFields record (confirmed proposal.toMode base)) :
    Committed proposal base record := by
  obtain ⟨hmode, hstate, hkept⟩ := field_confirmed proposal.toMode base
  refine ⟨(h _).trans hmode, (h _).trans hstate, by simp [happly], fun k hm hs _ ↦ ?_⟩
  exact (h k).trans (hkept k hm hs)

theorem committed_overlaid {patch : List (String × JsValue)} (happly : proposal.apply = some patch)
    (h : SameFields record (overlaid patch (confirmed proposal.toMode base))) :
    Committed proposal base record := by
  obtain ⟨hmode, hstate, hkept⟩ := field_confirmed proposal.toMode base
  refine ⟨?_, ?_, fun patch' hpatch' k hk howned ↦ ?_, fun k hm hs hnot ↦ ?_⟩
  · rw [h, field_overlaid_owned (by decide), hmode]
  · rw [h, field_overlaid_owned (by decide), hstate]
  · obtain rfl := Option.some.inj (happly.symm.trans hpatch')
    refine (h k).trans (congrArg (Option.getD · JsValue.undefined) ?_)
    refine get?_setAll_filter (fun e _ he ↦ ?_) (Or.inr hk)
    exact decide_eq_true (by rwa [he])
  · have hnone : k ∉ (patch.filter fun e ↦ decide (e.1 ∉ MACHINE_OWNED_FIELDS)).map Prod.fst := by
      intro hmem
      obtain ⟨e, he, rfl⟩ := List.mem_map.mp hmem
      obtain ⟨hin, howned⟩ := mem_filter.mp he
      exact of_decide_eq_true howned (hnot patch happly (List.mem_map_of_mem hin))
    have hget := get?_setAll_of_not_mem (confirmed proposal.toMode base) hnone
    have hfield : field (overlaid patch (confirmed proposal.toMode base)) k
        = field (confirmed proposal.toMode base) k :=
      congrArg (Option.getD · JsValue.undefined) hget
    rw [h, hfield, hkept k hm hs]

end Outcomes

/-! ## Restoring what a stage pinned -/

/-- The snapshot and the proposal of a transition that was staged on the record: it changes the
mode, and names the mode as mode-scoped only if the record has a mode field that names one. -/
structure StagedOn (base : AttachStateRecord) (s : TransitionSnapshot)
    (proposal : TransitionProposalRecord) : Prop where
  changes : proposal.toMode ≠ (resolveAttachState base).mode
  named : "mode" ∈ proposal.modeScopedFields → Named base
  taken : ∃ h, s = takeSnapshot base proposal.modeScopedFields h

/-- Restoring the entry on a record that is as it was leaves it so. -/
def Harmless (base : AttachStateRecord) (e : String × JsValue) : Prop :=
  (e.1 = "mode" ∧ e.2 = (resolveAttachState base).mode.value)
    ∨ (e.1 ≠ "mode" ∧ e.2 = field base e.1)
    ∨ (e.1 = "state" ∧ field base "state" = .undefined
      ∧ e.2 = (legacyStateOf (resolveAttachState base).mode
        (resolveAttachState base).posture).value)

section Restore

variable {base record : AttachStateRecord} {s : TransitionSnapshot}
  {proposal : TransitionProposalRecord}

theorem get?_takeSnapshot (names : List String) (h : "posture" ∉ names) (k : String) :
    (takeSnapshot base names h).fields.get? k = if k ∈ names then some (field base k)
      else (pinnedFields base).get? k :=
  get?_setAll_map (pinnedFields base) names (field base) k

theorem get?_pinnedFields (k : String) : (pinnedFields base).get? k
    = if "state" = k then
        some (if field base "state" ≠ .undefined then field base "state"
          else (legacyStateOf (resolveAttachState base).mode
            (resolveAttachState base).posture).value)
      else if "mode" = k then some (resolveAttachState base).mode.value
      else none := by
  rw [pinnedFields, InsertionMap.get?_set, InsertionMap.get?_set, get?_empty]

theorem StagedOn.harmless (h : StagedOn base s proposal) : ∀ e ∈ s.fields.entries,
    Harmless base e := by
  obtain ⟨hposture, rfl⟩ := h.taken
  rintro ⟨k, v⟩ he
  have hget := (InsertionMap.get?_eq_some_iff _ k v).mpr he
  rw [get?_takeSnapshot] at hget
  by_cases hk : k ∈ proposal.modeScopedFields
  · rw [if_pos hk] at hget
    obtain rfl := Option.some.inj hget
    by_cases hmode : k = "mode"
    · subst hmode
      exact Or.inl ⟨rfl, (h.named hk).field_eq⟩
    · exact Or.inr (Or.inl ⟨hmode, rfl⟩)
  · rw [if_neg hk, get?_pinnedFields] at hget
    split_ifs at hget with hstate hdef hmode
    · obtain rfl := Option.some.inj hget
      subst hstate
      exact Or.inr (Or.inl ⟨by simp, rfl⟩)
    · obtain rfl := Option.some.inj hget
      exact Or.inr (Or.inr ⟨hstate.symm, not_not.mp hdef, rfl⟩)
    · exact Or.inl ⟨hmode.symm, (Option.some.inj hget).symm⟩

theorem RolledBack.restoreField (h : RolledBack base record) {e : String × JsValue}
    (he : Harmless base e) : RolledBack base (restoreField record e) := by
  rcases he with ⟨hmode, hvalue⟩ | ⟨hmode, hvalue⟩ | ⟨hstate, hundef, hvalue⟩
  · -- the record has the mode already
    rw [Attach.restoreField, if_pos hmode, if_pos (by rw [hvalue, h.resolve_mode])]
    exact h
  · intro k
    rw [field_restoreField record hmode k]
    split_ifs with hk
    · exact Or.inl (by rw [hvalue, hk])
    · exact h k
  · intro k
    rw [field_restoreField record (by rw [hstate]; decide) k]
    split_ifs with hk
    · obtain rfl : k = "state" := hk.symm.trans hstate
      exact Or.inr ⟨rfl, hundef, hvalue⟩
    · exact h k

theorem field_restored_of_mem {k : String} {v : JsValue} (hmem : (k, v) ∈ s.fields.entries)
    (hk : k ≠ "mode") : field (restored s record) k = v := by
  have hrest : ∀ (entries : List (String × JsValue)) (record : AttachStateRecord),
      (entries.map Prod.fst).Nodup → "mode" ∉ entries.map Prod.fst → (k, v) ∈ entries →
        field (entries.foldl restoreField record) k = v := by
    intro entries
    induction entries with
    | nil => exact fun _ _ _ hmem ↦ absurd hmem (by simp)
    | cons e entries ih =>
      intro record hnodup hmode hmem
      rw [map_cons, nodup_cons] at hnodup
      rw [map_cons, mem_cons, not_or] at hmode
      rw [foldl_cons]
      rcases mem_cons.mp hmem with rfl | hmem
      · rw [field_foldl_restoreField entries _ hmode.2 hnodup.1,
          field_restoreField record (Ne.symm hmode.1), if_pos rfl]
      · exact ih _ hnodup.2 hmode.2 hmem
  obtain ⟨m, st, rest, hentries⟩ := s.shape
  have hnodup := s.fields.nodup
  rw [hentries, map_cons, nodup_cons] at hnodup
  rw [hentries] at hmem
  rw [restored, hentries, foldl_cons]
  refine hrest _ _ hnodup.2 hnodup.1 ?_
  rcases mem_cons.mp hmem with hmode | hmem
  · exact absurd (congrArg Prod.fst hmode) hk
  · exact hmem

/-- An abort takes back the mode and the mode-scoped fields, wherever the commit stopped. -/
theorem Committing.reverted (h : Committing proposal base record) (hs : StagedOn base s proposal) :
    Reverted proposal base (restored s record) := by
  obtain ⟨hposture, rfl⟩ := hs.taken
  have hpinned : Pinned base (takeSnapshot base proposal.modeScopedFields hposture) :=
    pinned_takeSnapshot hposture
  have hnames : Named record ∨ SameFields record base := by
    rcases h with h | h | ⟨patch, -, h⟩
    · exact Or.inr h
    · exact Or.inl (named_of_field ((h _).trans (field_confirmed proposal.toMode base).1))
    · have hmode : field record "mode" = proposal.toMode.value := by
        rw [h, field_overlaid_owned (by decide)]
        exact (field_confirmed proposal.toMode base).1
      exact Or.inl (named_of_field hmode)
  refine ⟨?_, fun k hk hmode ↦ field_restored_of_mem ?_ hmode, ?_⟩
  · refine mode_restored (hpinned.named.imp_right fun hnot ↦ ⟨hnot.1, hpinned.carried hnot.2⟩) ?_
    intro hnot
    refine hpinned.carried fun hnamed ↦ ?_
    have hsame := hnames.resolve_left hnot
    exact hnot (by rwa [Named, hsame])
  · rw [← InsertionMap.get?_eq_some_iff, get?_takeSnapshot, if_pos hk]
  · rw [(field_restored _ record).2.2]
    rcases h with h | h | ⟨patch, -, h⟩
    · exact h _
    · exact (h _).trans ((field_confirmed proposal.toMode base).2.2 _ (by decide) (by decide))
    · rw [h, field_overlaid_owned (by decide)]
      exact (field_confirmed proposal.toMode base).2.2 _ (by decide) (by decide)

end Restore

/-! ## What the journal says of the last transition -/

/-- How far a transition has come in the journal. -/
inductive TransitionEnd where
  | underway
  | committed
  | rolledBack
  | aborted
deriving DecidableEq

def readEntry (last : Option (TransitionProposalRecord × TransitionEnd)) :
    ModeJournalEntry → Option (TransitionProposalRecord × TransitionEnd)
  | .transitionStage _ proposal => some (proposal, .underway)
  | .transitionCommit _ => last.map fun t ↦ (t.1, .committed)
  | .transitionRollback _ =>
    last.map fun t ↦ (t.1, if t.2 = .aborted then .aborted else .rolledBack)
  | .transitionResolve .abort _ => last.map fun t ↦ (t.1, .aborted)
  | .transitionResolve .resume _ | .humanConfirm _ | .transitionVerify _
  | .transitionCommitPending _ _ _ => last

/-- The proposal of the last transition in the journal, and how far it has come. -/
def lastTransition (journal : List ModeJournalEntry) :
    Option (TransitionProposalRecord × TransitionEnd) :=
  journal.foldl readEntry none

theorem lastTransition_concat (journal : List ModeJournalEntry) (entry : ModeJournalEntry) :
    lastTransition (journal ++ [entry]) = readEntry (lastTransition journal) entry :=
  foldl_concat ..

/-- What the record owes to the last transition, once it has ended. -/
def Outcome (base : AttachStateRecord) :
    Option (TransitionProposalRecord × TransitionEnd) → AttachStateRecord → Prop
  | some (proposal, .committed), record => Committed proposal base record
  | some (proposal, .aborted), record => Reverted proposal base record
  | some (_, .underway), record | some (_, .rolledBack), record | none, record =>
    RolledBack base record

/-! ## The invariant of the machine -/

/-- A machine, and the record that the last transition in its journal was staged on. -/
abbrev Tracked := ModeMachine × AttachStateRecord

/-- One write; a stage entry notes the record. -/
def trackWrite (t : Tracked) (w : MachineWrite) : Tracked :=
  (t.1.write w, match w with
    | .journal (.transitionStage _ _) => t.1.record
    | _ => t.2)

/-- A fresh engine on the machine can take it from here. -/
structure Recoverable (t : Tracked) : Prop where
  changes : ∀ p ∈ lastTransition t.1.journal, p.1.toMode ≠ (resolveAttachState t.2).mode
  opened : ∀ p ∈ openPending t.1.journal, StagedOn t.2 p.1 p.2.1
    ∧ lastTransition t.1.journal = some (p.2.1, .underway)
    ∧ Committing p.2.1 t.2 t.1.record
  closed : openPending t.1.journal = none → Outcome t.2 (lastTransition t.1.journal) t.1.record

/-- After each write of the list a fresh engine can take it from there. -/
def RecoverableThroughout (t : Tracked) (ws : List MachineWrite) : Prop :=
  StepMachine.Guarded trackWrite (fun t w ↦ Recoverable (trackWrite t w)) t ws

section Machine

variable (t : Tracked) {s : TransitionSnapshot} {proposal : TransitionProposalRecord}

theorem run_trackWrite_fst (ws : List MachineWrite) :
    (StepMachine.run trackWrite t ws).1 = StepMachine.run ModeMachine.write t.1 ws := by
  induction ws generalizing t with
  | nil => rfl
  | cons w ws ih => exact ih (trackWrite t w)

theorem run_trackWrite_snd {ws : List MachineWrite}
    (h : ∀ s proposal, .journal (.transitionStage s proposal) ∉ ws) :
    (StepMachine.run trackWrite t ws).2 = t.2 := by
  induction ws generalizing t with
  | nil => rfl
  | cons w ws ih =>
    have hrest := ih (trackWrite t w) fun s proposal hmem ↦
      h s proposal (mem_cons_of_mem w hmem)
    refine hrest.trans ?_
    rw [trackWrite.eq_def]
    split
    case h_1 s proposal => exact absurd mem_cons_self (h s proposal)
    case h_2 => rfl

theorem run_trackWrite_rollbackWrites (s : TransitionSnapshot) : StepMachine.run trackWrite t s.rollbackWrites
      = (({ t.1 with record := restored s t.1.record } : ModeMachine).appendJournal
        (.transitionRollback s.mode), t.2) := by
  refine Prod.ext ?_ (run_trackWrite_snd t fun s' proposal hmem ↦ ?_)
  · rw [run_trackWrite_fst, run_rollbackWrites]
  · rw [TransitionSnapshot.rollbackWrites] at hmem
    simp at hmem

theorem run_trackWrite_commitWrites (proposal : TransitionProposalRecord) :
    StepMachine.run trackWrite t proposal.commitWrites = (⟨committedRecord proposal t.1, t.1.journal
          ++ [.humanConfirm proposal.toMode, .transitionCommit proposal.toMode]⟩, t.2) := by
  rw [TransitionProposalRecord.commitWrites, committedRecord]
  rcases proposal.apply with _ | patch <;>
    simp [trackWrite, ModeMachine.write, ModeMachine.appendJournal, ModeMachine.confirmMode,
      ModeMachine.overlayRewrite]

variable {t}

theorem Recoverable.journal (h : Recoverable t) {entry : ModeJournalEntry}
    (hopen : openPending (t.1.journal ++ [entry]) = openPending t.1.journal)
    (hlast : readEntry (lastTransition t.1.journal) entry = lastTransition t.1.journal) :
    Recoverable (t.1.appendJournal entry, t.2) := by
  constructor
  · rw [ModeMachine.appendJournal, lastTransition_concat, hlast]
    exact h.changes
  · rw [ModeMachine.appendJournal, lastTransition_concat, hlast, hopen]
    exact h.opened
  · rw [ModeMachine.appendJournal, lastTransition_concat, hlast, hopen]
    exact h.closed

theorem Recoverable.committing (h : Recoverable t) {now : ℤ}
    (hopen : openPending t.1.journal = some (s, proposal, now)) {record : AttachStateRecord}
    (hrecord : Committing proposal t.2 record) :
    Recoverable ({ t.1 with record := record }, t.2) where
  changes := h.changes
  opened p hp := by
    obtain rfl := Option.some.inj (hopen.symm.trans hp)
    exact ⟨(h.opened _ hopen).1, (h.opened _ hopen).2.1, hrecord⟩
  closed hnone := absurd (hopen.symm.trans hnone) (by simp)

/-! ### A commit -/

theorem Committing.confirm {base record : AttachStateRecord}
    (h : Committing proposal base record) :
    SameFields (confirmed proposal.toMode record) (confirmed proposal.toMode base)
      ∨ ∃ patch ∈ proposal.apply, SameFields (confirmed proposal.toMode record)
        (overlaid patch (confirmed proposal.toMode base)) := by
  obtain ⟨hmode, hstate, hkept⟩ := field_confirmed proposal.toMode base
  have hposture := hkept "posture" (by decide) (by decide)
  have htrans : ∀ {r r' r'' : AttachStateRecord}, SameFields r r' → SameFields r' r'' →
      SameFields r r'' := fun h h' k ↦ (h k).trans (h' k)
  rcases h with h | h | ⟨patch, happly, h⟩
  · exact Or.inl h.confirmed
  · exact Or.inl (htrans h.confirmed (sameFields_confirmed_of hmode hstate hposture))
  · have hsame : SameFields (confirmed proposal.toMode
        (overlaid patch (confirmed proposal.toMode base)))
        (overlaid patch (confirmed proposal.toMode base)) := by
      apply sameFields_confirmed_of
      · rw [field_overlaid_owned (by decide), hmode]
      · rw [field_overlaid_owned (by decide), hstate]
      · rw [field_overlaid_owned (by decide), hposture]
    exact Or.inr ⟨patch, happly, htrans h.confirmed hsame⟩

theorem overlaid_of_confirm {base record : AttachStateRecord} {patch : List (String × JsValue)}
    (happly : proposal.apply = some patch)
    (h : SameFields record (confirmed proposal.toMode base)
      ∨ ∃ patch ∈ proposal.apply, SameFields record
        (overlaid patch (confirmed proposal.toMode base))) :
    SameFields (overlaid patch record) (overlaid patch (confirmed proposal.toMode base)) := by
  rcases h with h | ⟨patch', happly', h⟩
  · exact h.overlaid
  · obtain rfl := Option.some.inj (happly.symm.trans happly')
    intro k
    exact (h.overlaid k).trans (sameFields_overlaid_overlaid k)

/-- Wherever a commit stopped, once it is gone through again it is complete. -/
theorem Committing.committed {base : AttachStateRecord} {m : ModeMachine}
    (h : Committing proposal base m.record) :
    Committed proposal base (committedRecord proposal m) := by
  have hconfirm := h.confirm
  rw [committedRecord]
  rcases happly : proposal.apply with _ | patch
  · refine committed_confirmed happly (hconfirm.resolve_right ?_)
    rintro ⟨patch, hpatch, -⟩
    exact absurd (happly.symm.trans hpatch) (by simp)
  · exact committed_overlaid happly (overlaid_of_confirm happly hconfirm)

theorem openPending_commitWrites (t : Tracked) (proposal : TransitionProposalRecord) :
    openPending (StepMachine.run trackWrite t proposal.commitWrites).1.journal = none := by
  rw [run_trackWrite_commitWrites]
  rw [append_cons, openPending_concat]

theorem recoverable_commitWrites
    (hlast : lastTransition t.1.journal = some (proposal, .underway))
    (hchanges : proposal.toMode ≠ (resolveAttachState t.2).mode)
    (hrecord : Committing proposal t.2 t.1.record) :
    Recoverable (StepMachine.run trackWrite t proposal.commitWrites) := by
  have hclosed := openPending_commitWrites t proposal
  rw [run_trackWrite_commitWrites] at hclosed ⊢
  have hcommitted : lastTransition (t.1.journal
      ++ [.humanConfirm proposal.toMode, .transitionCommit proposal.toMode])
      = some (proposal, .committed) := by
    rw [append_cons, lastTransition_concat, lastTransition_concat, hlast]
    rfl
  refine ⟨fun p hp ↦ ?_, fun p hp ↦ ?_, fun _ ↦ ?_⟩
  · obtain rfl := Option.some.inj (hcommitted.symm.trans hp)
    exact hchanges
  · exact absurd (hclosed.symm.trans hp) (by simp)
  · rw [hcommitted]
    exact hrecord.committed

theorem recoverable_pend (hs : StagedOn t.2 s proposal)
    (hlast : lastTransition t.1.journal = some (proposal, .underway))
    (hrecord : t.1.record = t.2) (now : ℤ) :
    Recoverable (t.1.appendJournal (.transitionCommitPending s proposal now), t.2) := by
  have hopen : openPending (t.1.journal ++ [.transitionCommitPending s proposal now])
      = some (s, proposal, now) := openPending_concat ..
  have hlast' : lastTransition (t.1.journal ++ [.transitionCommitPending s proposal now])
      = some (proposal, .underway) := (lastTransition_concat ..).trans hlast
  refine ⟨fun p hp ↦ ?_, fun p hp ↦ ?_, fun hnone ↦ absurd (hopen.symm.trans hnone) (by simp)⟩
  · obtain rfl := Option.some.inj (hlast'.symm.trans hp)
    exact hs.changes
  · obtain rfl := Option.some.inj (hopen.symm.trans hp)
    exact ⟨hs, hlast', Or.inl fun k ↦ congrArg (field · k) hrecord⟩

theorem Recoverable.commitWrites (h : Recoverable t) {now : ℤ}
    (hopen : openPending t.1.journal = some (s, proposal, now)) :
    RecoverableThroughout t proposal.commitWrites := by
  obtain ⟨hstaged, hlast, hrecord⟩ := h.opened _ hopen
  have hconfirm : Committing proposal t.2 (confirmed proposal.toMode t.1.record) :=
    Or.inr hrecord.confirm
  have hfirst : Recoverable (trackWrite t (.confirm proposal.toMode)) :=
    h.committing hopen hconfirm
  have hsecond : Recoverable (trackWrite (trackWrite t (.confirm proposal.toMode))
      (.journal (.humanConfirm proposal.toMode))) :=
    hfirst.journal (openPending_concat ..) rfl
  have hopen' : openPending (trackWrite (trackWrite t (.confirm proposal.toMode))
      (.journal (.humanConfirm proposal.toMode))).1.journal = some (s, proposal, now) :=
    (openPending_concat ..).trans hopen
  have hlast := recoverable_commitWrites hlast hstaged.changes hrecord
  rw [RecoverableThroughout]
  rw [TransitionProposalRecord.commitWrites] at hlast ⊢
  rcases happly : proposal.apply with _ | patch
  · rw [happly] at hlast
    exact ⟨hfirst, hsecond, hlast, trivial⟩
  · rw [happly] at hlast
    refine ⟨hfirst, hsecond, hsecond.committing hopen' ?_, hlast, trivial⟩
    exact Or.inr (Or.inr ⟨patch, happly, overlaid_of_confirm happly hrecord.confirm⟩)

/-! ### A rollback -/

/-- A transition is staged, or being rolled back, and its commit has not begun. -/
structure Unwritten (t : Tracked) (proposal : TransitionProposalRecord) : Prop where
  changes : proposal.toMode ≠ (resolveAttachState t.2).mode
  closed : openPending t.1.journal = none
  last : lastTransition t.1.journal = some (proposal, .underway)
  record : RolledBack t.2 t.1.record

theorem Unwritten.recoverable (h : Unwritten t proposal) : Recoverable t where
  changes p hp := by
    obtain rfl := Option.some.inj (h.last.symm.trans hp)
    exact h.changes
  opened p hp := absurd (h.closed.symm.trans hp) (by simp)
  closed _ := by
    rw [h.last]
    exact h.record

theorem Unwritten.journal (h : Unwritten t proposal) (outcome : VerifyKind) :
    Unwritten (t.1.appendJournal (.transitionVerify outcome), t.2) proposal where
  changes := h.changes
  closed := (openPending_concat ..).trans h.closed
  last := (lastTransition_concat ..).trans h.last
  record := h.record

theorem Unwritten.rollbackWrites (h : Unwritten t proposal) (hs : StagedOn t.2 s proposal) :
    RecoverableThroughout t s.rollbackWrites := by
  have hentries : ∀ (entries : List (String × JsValue)) (t : Tracked), Unwritten t proposal →
      (∀ e ∈ entries, Harmless t.2 e) →
        RecoverableThroughout t (entries.map .restore ++ [.journal (.transitionRollback s.mode)]) := by
    intro entries
    induction entries with
    | nil =>
      intro t h _
      have hlast : lastTransition (t.1.journal ++ [.transitionRollback s.mode])
          = some (proposal, .rolledBack) := by
        rw [lastTransition_concat, h.last]
        rfl
      have hclosed : openPending (t.1.journal ++ [.transitionRollback s.mode]) = none :=
        (openPending_concat ..).trans h.closed
      refine ⟨⟨fun p hp ↦ ?_, fun p hp ↦ absurd (hclosed.symm.trans hp) (by simp), fun _ ↦ ?_⟩,
        trivial⟩
      · obtain rfl := Option.some.inj (hlast.symm.trans hp)
        exact h.changes
      · have houtcome : Outcome t.2 (lastTransition (t.1.journal ++ [.transitionRollback s.mode]))
            t.1.record := by
          rw [hlast]
          exact h.record
        exact houtcome
    | cons e entries ih =>
      intro t h hharmless
      have hnext : Unwritten (trackWrite t (.restore e)) proposal :=
        ⟨h.changes, h.closed, h.last, h.record.restoreField (hharmless e mem_cons_self)⟩
      exact ⟨hnext.recoverable, ih _ hnext fun e' he' ↦ hharmless e' (mem_cons_of_mem e he')⟩
  exact hentries s.fields.entries t h hs.harmless

theorem Recoverable.abort (h : Recoverable t) {now : ℤ}
    (hopen : openPending t.1.journal = some (s, proposal, now)) (via : ResolveVia) :
    Recoverable (StepMachine.run trackWrite t
      (.journal (.transitionResolve .abort via) :: s.rollbackWrites)) := by
  obtain ⟨hstaged, hlast, hrecord⟩ := h.opened _ hopen
  have htrack : trackWrite t (.journal (.transitionResolve .abort via))
      = (t.1.appendJournal (.transitionResolve .abort via), t.2) := rfl
  have hclosed : openPending (t.1.journal ++ [.transitionResolve .abort via]
      ++ [.transitionRollback s.mode]) = none := by
    rw [openPending_concat, openPending_concat]
  have haborted : lastTransition (t.1.journal ++ [.transitionResolve .abort via]
      ++ [.transitionRollback s.mode]) = some (proposal, .aborted) := by
    rw [lastTransition_concat, lastTransition_concat, hlast]
    rfl
  rw [StepMachine.run_cons, htrack, run_trackWrite_rollbackWrites]
  refine ⟨fun p hp ↦ ?_, fun p hp ↦ absurd (hclosed.symm.trans hp) (by simp), fun _ ↦ ?_⟩
  · obtain rfl := Option.some.inj (haborted.symm.trans hp)
    exact hstaged.changes
  · have houtcome : Outcome t.2 (lastTransition (t.1.journal ++ [.transitionResolve .abort via]
        ++ [.transitionRollback s.mode])) (restored s t.1.record) := by
      rw [haborted]
      exact hrecord.reverted hstaged
    exact houtcome

theorem Recoverable.resolve (h : Recoverable t) {now : ℤ}
    (hopen : openPending t.1.journal = some (s, proposal, now)) (via : ResolveVia) :
    Recoverable (StepMachine.run trackWrite t
      (.journal (.transitionResolve .resume via) :: proposal.commitWrites)) := by
  obtain ⟨hstaged, hlast, hrecord⟩ := h.opened _ hopen
  exact recoverable_commitWrites ((lastTransition_concat ..).trans hlast) hstaged.changes hrecord

end Machine

end Amicode.Attach
