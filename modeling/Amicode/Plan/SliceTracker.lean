import Amicode.Foundation.Missing
import Amicode.Plan.Slices

/-!
# Trackers that a plan is filed in

What the writes of a run do to the tracker. A tracker is consistent if at most one issue is found under each row
that files its own, and the issues that are adopted are there. A write that adds something missing (`Allowed`) keeps
the tracker consistent (`Consistent.apply`), and every issue stays the issue of the rows it was the issue of
(`exists_later`). So every beginning of a run whose writes are all allowed leaves a consistent tracker.
-/

namespace Amicode.Plan

open Missing StepMachine List

def IsIssueOf (o : FileSlicesOptions) (s : SliceStep) (i : Issue) : Prop :=
  match s.adopts with
  | some addr => i.addr = addr
  | none => issueKey o.specId.text i = some (rowKey s)

/-- A tracker that a plan can be filed in. -/
structure Consistent (o : FileSlicesOptions) (steps : List SliceStep) (t : Tracker) : Prop where
  ids : (t.issues.map (·.id)).Nodup
  addrs : (t.issues.map (·.addr)).Nodup
  once : ∀ s ∈ steps, s.adopts = none → ∀ i ∈ t.issues, ∀ j ∈ t.issues,
    issueKey o.specId.text i = some (rowKey s) → issueKey o.specId.text j = some (rowKey s) → i = j
  adopted : ∀ s ∈ steps, ∀ addr, s.adopts = some addr → ∃ i ∈ t.issues, i.addr = addr
  children : ∀ link ∈ t.children, ∃ i ∈ t.issues, i.id = link.2
  blockedBy : ∀ edge ∈ t.blockedBy, ∃ i ∈ t.issues, i.id = edge.2

/-- A write that adds what is missing. -/
def Allowed (o : FileSlicesOptions) (steps : List SliceStep) (t : Tracker) : Write → Prop
  | .createIssue issue => issue.id ∉ t.issues.map (·.id) ∧ issue.addr ∉ t.issues.map (·.addr)
    ∧ ∃ s ∈ steps, s.adopts = none ∧ issueKey o.specId.text issue = some (rowKey s)
      ∧ ∀ j ∈ t.issues, issueKey o.specId.text j ≠ some (rowKey s)
  | .editIssueBody addr body => ∃ s ∈ steps, s.adopts = some addr ∧ ∀ i ∈ t.issues, i.addr = addr →
    hasProvenance i.body o.specId.text s.row = false
      ∧ ∃ p, provenances body = provenances i.body ++ [p] ∧ p.row = s.row
  | .addSubIssue parent childId => (∃ i ∈ t.issues, i.id = childId) ∧ (parent, childId) ∉ t.children
  | .addBlockedBy issue blockerId => (∃ i ∈ t.issues, i.id = blockerId) ∧ (issue, blockerId) ∉ t.blockedBy

/-- The same issue, as far as the plan goes, maybe with more markers. -/
structure Later (o : FileSlicesOptions) (steps : List SliceStep) (i i' : Issue) : Prop where
  id : i'.id = i.id
  addr : i'.addr = i.addr
  key : ∀ s ∈ steps, s.adopts = none →
    (issueKey o.specId.text i' = some (rowKey s) ↔ issueKey o.specId.text i = some (rowKey s))
  marked : ∀ row, hasProvenance i.body o.specId.text row = true → hasProvenance i'.body o.specId.text row = true

variable {o : FileSlicesOptions} {steps : List SliceStep} {t : Tracker} {w : Write} {i i' : Issue}

theorem Later.refl (i : Issue) : Later o steps i i := ⟨rfl, rfl, fun _ _ _ ↦ Iff.rfl, fun _ h ↦ h⟩

theorem Later.trans {i'' : Issue} (h : Later o steps i i') (h' : Later o steps i' i'') : Later o steps i i'' :=
  ⟨h'.id.trans h.id, h'.addr.trans h.addr, fun s hs hown ↦ (h'.key s hs hown).trans (h.key s hs hown),
    fun row hrow ↦ h'.marked row (h.marked row hrow)⟩

variable {s : SliceStep}

theorem Later.isIssueOf (h : Later o steps i i') (hs : s ∈ steps) :
    IsIssueOf o s i' ↔ IsIssueOf o s i := by
  unfold IsIssueOf
  split
  · rw [h.addr]
  · next hown => exact h.key s hs hown

section

variable (hrows : (steps.map (·.row)).Nodup)

include hrows

theorem eq_of_row_eq {s s' : SliceStep} (hs : s ∈ steps) (hs' : s' ∈ steps) (h : s.row = s'.row) : s = s' :=
  inj_on_of_nodup_map hrows hs hs' h

/-- A marker that is appended for a row that adopts does not change under which of the others an issue is found. -/
theorem later_of_edit {addr : IssueAddr} {p : Provenance}
    {body : List Char} (hs : s ∈ steps) (hadopts : s.adopts = some addr)
    (hbody : provenances body = provenances i.body ++ [p]) (hrow : p.row = s.row) :
    Later o steps i { i with body := body } := by
  refine ⟨rfl, rfl, fun s' hs' hown ↦ ?_, fun row hmark ↦ ?_⟩
  · rw [issueKey, issueKey, parseProvenance, parseProvenance, hbody]
    cases hold : provenances i.body with
    | cons q rest => exact Iff.rfl
    | nil =>
      -- the new marker is the first, and its row is not one that files
      refine iff_of_false (fun h ↦ ?_) (fun h ↦ by cases h)
      rw [nil_append, head?_cons] at h
      dsimp only at h
      split at h
      · have hkey := congrArg Prod.fst (Option.some.inj h)
        have heq : s = s' := eq_of_row_eq hrows hs hs' (hrow.symm.trans hkey)
        rw [heq, hown] at hadopts
        cases hadopts
      · cases h
  · rw [hasProvenance, List.any_eq_true] at hmark ⊢
    obtain ⟨q, hq, hmatch⟩ := hmark
    exact ⟨q, hbody ▸ mem_append_left [p] hq, hmatch⟩

theorem exists_later (hw : Allowed o steps t w) (hi : i ∈ t.issues) :
    ∃ i' ∈ (t.apply w).issues, Later o steps i i' := by
  cases w with
  | createIssue issue => exact ⟨i, mem_append_left _ hi, .refl i⟩
  | addSubIssue parent childId => exact ⟨i, hi, .refl i⟩
  | addBlockedBy issue blockerId => exact ⟨i, hi, .refl i⟩
  | editIssueBody addr body =>
    obtain ⟨s, hs, hadopts, hissues⟩ := hw
    refine ⟨_, List.mem_map_of_mem hi, ?_⟩
    split
    · next haddr =>
      obtain ⟨-, p, hbody, hrow⟩ := hissues i hi haddr
      exact later_of_edit hrows hs hadopts hbody hrow
    · exact .refl i

theorem exists_earlier (hw : Allowed o steps t w)
    (hi' : i' ∈ (t.apply w).issues) : (∃ i ∈ t.issues, Later o steps i i') ∨ w = .createIssue i' := by
  cases w with
  | createIssue issue =>
    obtain hi | hi := mem_append.mp hi'
    · exact .inl ⟨i', hi, .refl i'⟩
    · exact .inr (by rw [mem_singleton.mp hi])
  | addSubIssue parent childId => exact .inl ⟨i', hi', .refl i'⟩
  | addBlockedBy issue blockerId => exact .inl ⟨i', hi', .refl i'⟩
  | editIssueBody addr body =>
    obtain ⟨s, hs, hadopts, hissues⟩ := hw
    obtain ⟨i, hi, rfl⟩ := List.mem_map.mp hi'
    refine .inl ⟨i, hi, ?_⟩
    split
    · next haddr =>
      obtain ⟨-, p, hbody, hrow⟩ := hissues i hi haddr
      exact later_of_edit hrows hs hadopts hbody hrow
    · exact .refl i

end

theorem map_apply {β : Type*} (p : Issue → β) (hp : ∀ i body, p { i with body := body } = p i) (t : Tracker)
    (w : Write) : (t.apply w).issues.map p = t.issues.map p
    ∨ ∃ issue, w = .createIssue issue ∧ (t.apply w).issues.map p = t.issues.map p ++ [p issue] := by
  cases w with
  | createIssue issue => exact .inr ⟨issue, rfl, by simp [Tracker.apply]⟩
  | addSubIssue parent childId => exact .inl rfl
  | addBlockedBy issue blockerId => exact .inl rfl
  | editIssueBody addr body =>
    left
    rw [Tracker.apply, List.map_map]
    refine map_congr_left fun i _ ↦ ?_
    dsimp only [Function.comp_apply]
    split
    · exact hp _ _
    · rfl

theorem exists_id_apply (hrows : (steps.map (·.row)).Nodup) (hw : Allowed o steps t w) {id : ℕ}
    (h : ∃ i ∈ t.issues, i.id = id) : ∃ i ∈ (t.apply w).issues, i.id = id := by
  obtain ⟨i, hi, rfl⟩ := h
  obtain ⟨i', hi', hlater⟩ := exists_later hrows hw hi
  exact ⟨i', hi', hlater.id⟩

theorem Consistent.apply (hrows : (steps.map (·.row)).Nodup) (ht : Consistent o steps t) (hw : Allowed o steps t w) :
    Consistent o steps (t.apply w) := by
  have hids : ((t.apply w).issues.map (·.id)).Nodup := by
    rcases map_apply (·.id) (fun _ _ ↦ rfl) t w with h | ⟨issue, rfl, h⟩
    · rw [h]
      exact ht.ids
    · rw [h, ← concat_eq_append, nodup_concat]
      exact ⟨hw.1, ht.ids⟩
  have haddrs : ((t.apply w).issues.map (·.addr)).Nodup := by
    rcases map_apply (·.addr) (fun _ _ ↦ rfl) t w with h | ⟨issue, rfl, h⟩
    · rw [h]
      exact ht.addrs
    · rw [h, ← concat_eq_append, nodup_concat]
      exact ⟨hw.2.1, ht.addrs⟩
  refine ⟨hids, haddrs, fun s hs hown i' hi' j' hj' hikey hjkey ↦ ?_, fun s hs addr hadopts ↦ ?_, ?_, ?_⟩
  · have hnew : ∀ j, w = .createIssue j → issueKey o.specId.text j = some (rowKey s) → ∀ i ∈ t.issues,
        issueKey o.specId.text i ≠ some (rowKey s) := by
      rintro j rfl hjkey i hi hikey
      obtain ⟨-, -, s', -, -, hkey, hnone⟩ := hw
      exact hnone i hi (hikey.trans (hjkey.symm.trans hkey))
    rcases exists_earlier hrows hw hi' with ⟨i, hi, hilater⟩ | hinew <;>
      rcases exists_earlier hrows hw hj' with ⟨j, hj, hjlater⟩ | hjnew
    · have hij : i = j := ht.once s hs hown i hi j hj ((hilater.key s hs hown).mp hikey)
        ((hjlater.key s hs hown).mp hjkey)
      refine inj_on_of_nodup_map hids hi' hj' ?_
      rw [hilater.id, hjlater.id, hij]
    · exact absurd ((hilater.key s hs hown).mp hikey) (hnew j' hjnew hjkey i hi)
    · exact absurd ((hjlater.key s hs hown).mp hjkey) (hnew i' hinew hikey j hj)
    · exact Write.createIssue.inj (hinew.symm.trans hjnew)
  · obtain ⟨i, hi, haddr⟩ := ht.adopted s hs addr hadopts
    obtain ⟨i', hi', hlater⟩ := exists_later hrows hw hi
    exact ⟨i', hi', hlater.addr.trans haddr⟩
  · intro link hlink
    cases w with
    | addSubIssue parent childId =>
      obtain hlink | hlink := mem_append.mp hlink
      · exact ht.children link hlink
      · rw [mem_singleton.mp hlink]
        exact hw.1
    | createIssue issue => exact exists_id_apply hrows hw (ht.children link hlink)
    | editIssueBody addr body => exact exists_id_apply hrows hw (ht.children link hlink)
    | addBlockedBy issue blockerId => exact ht.children link hlink
  · intro edge hedge
    cases w with
    | addBlockedBy issue blockerId =>
      obtain hedge | hedge := mem_append.mp hedge
      · exact ht.blockedBy edge hedge
      · rw [mem_singleton.mp hedge]
        exact hw.1
    | createIssue issue => exact exists_id_apply hrows hw (ht.blockedBy edge hedge)
    | editIssueBody addr body => exact exists_id_apply hrows hw (ht.blockedBy edge hedge)
    | addSubIssue parent childId => exact ht.blockedBy edge hedge

/-! ## Logs -/

def Write.created? : Write → Option Issue
  | .createIssue issue => some issue
  | _ => none

def Write.subIssue? : Write → Option (IssueAddr × ℕ)
  | .addSubIssue parent childId => some (parent, childId)
  | _ => none

def Write.blocker? : Write → Option (IssueAddr × ℕ)
  | .addBlockedBy issue blockerId => some (issue, blockerId)
  | _ => none

/-- The issues of a log, by the row and the repository they are found under. -/
def createdKeys (o : FileSlicesOptions) (log : List Write) : List (Option (Option ℕ × String)) :=
  (log.filterMap Write.created?).map (issueKey o.specId.text)

def addedSubIssues (log : List Write) : List (IssueAddr × ℕ) := log.filterMap Write.subIssue?

def addedBlockers (log : List Write) : List (IssueAddr × ℕ) := log.filterMap Write.blocker?

/-- A row that files its own issue has one. -/
def HasIssue (o : FileSlicesOptions) (t : Tracker) (s : SliceStep) : Prop :=
  ∃ i ∈ t.issues, issueKey o.specId.text i = some (rowKey s)

variable {log : List Write}

theorem children_run (t : Tracker) (log : List Write) :
    (run Tracker.apply t log).children = t.children ++ addedSubIssues log := by
  induction log generalizing t with
  | nil => simp [addedSubIssues]
  | cons w log ih =>
    rw [run_cons, ih]
    cases w <;> simp [addedSubIssues, Tracker.apply, Write.subIssue?, filterMap_cons]

theorem blockedBy_run (t : Tracker) (log : List Write) :
    (run Tracker.apply t log).blockedBy = t.blockedBy ++ addedBlockers log := by
  induction log generalizing t with
  | nil => simp [addedBlockers]
  | cons w log ih =>
    rw [run_cons, ih]
    cases w <;> simp [addedBlockers, Tracker.apply, Write.blocker?, filterMap_cons]

section

variable (hrows : (steps.map (·.row)).Nodup) (ht : Consistent o steps t)
  (hlog : Guarded Tracker.apply (Allowed o steps) t log)

include hrows ht hlog

theorem Consistent.run : Consistent o steps (run Tracker.apply t log) :=
  invariant_run_of_guarded (fun _ _ ht hw ↦ ht.apply hrows hw) ht hlog

theorem Consistent.run_take (k : ℕ) : Consistent o steps (StepMachine.run Tracker.apply t (log.take k)) := by
  rw [← take_append_drop k log, guarded_append] at hlog
  exact ht.run hrows hlog.1

end

theorem exists_later_run (hrows : (steps.map (·.row)).Nodup)
    (hlog : Guarded Tracker.apply (Allowed o steps) t log) (hi : i ∈ t.issues) :
    ∃ i' ∈ (run Tracker.apply t log).issues, Later o steps i i' := by
  induction log generalizing t i with
  | nil => exact ⟨i, hi, .refl i⟩
  | cons w log ih =>
    obtain ⟨i₁, hi₁, hlater⟩ := exists_later hrows hlog.1 hi
    obtain ⟨i₂, hi₂, hlater'⟩ := ih hlog.2 hi₁
    exact ⟨i₂, hi₂, hlater.trans hlater'⟩

theorem hasIssue_apply (hrows : (steps.map (·.row)).Nodup) (hw : Allowed o steps t w)
    (hs : s ∈ steps) (hown : s.adopts = none) :
    HasIssue o (t.apply w) s ↔ HasIssue o t s ∨ some (rowKey s) ∈ createdKeys o [w] := by
  constructor
  · rintro ⟨i', hi', hkey⟩
    rcases exists_earlier hrows hw hi' with ⟨i, hi, hlater⟩ | rfl
    · exact .inl ⟨i, hi, (hlater.key s hs hown).mp hkey⟩
    · exact .inr (by simp [createdKeys, Write.created?, hkey])
  · rintro (⟨i, hi, hkey⟩ | hmem)
    · obtain ⟨i', hi', hlater⟩ := exists_later hrows hw hi
      exact ⟨i', hi', (hlater.key s hs hown).mpr hkey⟩
    · cases w with
      | createIssue issue =>
        have hkey : issueKey o.specId.text issue = some (rowKey s) := by
          simpa [createdKeys, Write.created?, eq_comm] using hmem
        exact ⟨issue, mem_append_right _ (mem_singleton_self issue), hkey⟩
      | editIssueBody addr body => exact absurd hmem (by simp [createdKeys, Write.created?])
      | addSubIssue parent childId => exact absurd hmem (by simp [createdKeys, Write.created?])
      | addBlockedBy issue blockerId => exact absurd hmem (by simp [createdKeys, Write.created?])

theorem createdKeys_append (log later : List Write) :
    createdKeys o (log ++ later) = createdKeys o log ++ createdKeys o later := by
  simp [createdKeys]

theorem hasIssue_run (hrows : (steps.map (·.row)).Nodup) (hlog : Guarded Tracker.apply (Allowed o steps) t log)
    (hs : s ∈ steps) (hown : s.adopts = none) :
    HasIssue o (run Tracker.apply t log) s ↔ HasIssue o t s ∨ some (rowKey s) ∈ createdKeys o log := by
  induction log generalizing t with
  | nil => simp [createdKeys]
  | cons w log ih =>
    rw [run_cons, ih hlog.2, hasIssue_apply hrows hlog.1 hs hown, or_assoc,
      ← singleton_append (l := log), createdKeys_append, mem_append]

/-- Every row that adopts an issue has marked it. -/
def AllMarked (o : FileSlicesOptions) (steps : List SliceStep) (t : Tracker) : Prop :=
  ∀ s ∈ steps, ∀ addr, s.adopts = some addr → ∀ i ∈ t.issues, i.addr = addr →
    hasProvenance i.body o.specId.text s.row = true

theorem not_allowed_edit (ht : Consistent o steps t) (hmarked : AllMarked o steps t) {addr : IssueAddr}
    {body : List Char} : ¬ Allowed o steps t (.editIssueBody addr body) := by
  rintro ⟨s, hs, hadopts, hissues⟩
  obtain ⟨i, hi, haddr⟩ := ht.adopted s hs addr hadopts
  have hmark := hmarked s hs addr hadopts i hi haddr
  rw [(hissues i hi haddr).1] at hmark
  cases hmark

/-- A run whose writes are allowed has none, if nothing of the kinds it adds is missing. -/
theorem eq_nil_of_allMarked (ht : Consistent o steps t)
    (hmarked : AllMarked o steps t) (hlog : Guarded Tracker.apply (Allowed o steps) t log)
    (hkeys : createdKeys o log = []) (hlinks : addedSubIssues log = []) (hedges : addedBlockers log = []) :
    log = [] := by
  cases log with
  | nil => rfl
  | cons w log =>
    cases w with
    | createIssue issue => exact absurd hkeys (by simp [createdKeys, Write.created?])
    | editIssueBody addr body => exact absurd hlog.1 (not_allowed_edit ht hmarked)
    | addSubIssue parent childId => exact absurd hlinks (by simp [addedSubIssues, Write.subIssue?])
    | addBlockedBy issue blockerId => exact absurd hedges (by simp [addedBlockers, Write.blocker?])

end Amicode.Plan
