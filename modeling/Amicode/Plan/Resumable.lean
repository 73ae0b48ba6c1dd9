import Amicode.Plan.SliceTracker

/-!
# Filing a plan is resumable

From any consistent tracker, and so after any run that failed, a run creates exactly the issues, the sub-issue links
and the edges that are missing; a run after one that completed writes nothing; and each row has exactly one issue.

This needs the marker of every row to be read back as it was printed, and every row to be named by the others as its
number is printed (`Recognised`). Then each write of a run adds something missing, which the three loops of the run
show for themselves, and the rest follows from what such writes do to a tracker.
-/

namespace Amicode.Plan

open Missing StepMachine List

/-- The link from the parent to the issue of a row. -/
def NeededLink (o : FileSlicesOptions) (steps : List SliceStep) (t : Tracker) (x : IssueAddr × ℕ) : Prop :=
  ∃ prd, o.prd = some prd ∧ ∃ s ∈ steps, ∃ i ∈ t.issues, IsIssueOf o s i ∧ x = (prd.addr, i.id)

/-- The edge from the issue of a row to the issue of a row it is after. -/
def NeededEdge (o : FileSlicesOptions) (steps : List SliceStep) (t : Tracker) (x : IssueAddr × ℕ) : Prop :=
  ∃ s ∈ steps, ∃ n ∈ s.needs.getD [], ∃ u ∈ steps, u.row = JsNumber.number n.toList
    ∧ ∃ i ∈ t.issues, ∃ j ∈ t.issues, IsIssueOf o s i ∧ IsIssueOf o u j ∧ x = (i.addr, j.id)

/-- What is owed of a run from a tracker. -/
structure Resumes (gh : GitHub) (o : FileSlicesOptions) (steps : List SliceStep) (t : Tracker) : Prop where
  completes : (fileSlices gh o steps t).2 = none
  issues : Exactly (createdKeys o (fileSlices gh o steps t).1.log)
    (fun k ↦ ∃ s ∈ steps, s.adopts = none ∧ k = some (rowKey s))
    (fun k ↦ ∃ i ∈ t.issues, issueKey o.specId.text i = k)
  subIssues : Exactly (addedSubIssues (fileSlices gh o steps t).1.log)
    (NeededLink o steps (fileSlices gh o steps t).1.tracker) (· ∈ t.children)
  blockers : Exactly (addedBlockers (fileSlices gh o steps t).1.log)
    (NeededEdge o steps (fileSlices gh o steps t).1.tracker) (· ∈ t.blockedBy)
  oneIssue : ∀ s ∈ steps, ∃! i, i ∈ (fileSlices gh o steps t).1.tracker.issues ∧ IsIssueOf o s i
  idle : (fileSlices gh o steps (fileSlices gh o steps t).1.tracker).2 = none
    ∧ (fileSlices gh o steps (fileSlices gh o steps t).1.tracker).1.log = []

/-- A run that fails leaves a consistent tracker, and the run after it does the rest. -/
def Resumable (gh : GitHub) (o : FileSlicesOptions) (steps : List SliceStep) : Prop :=
  ∀ t, Consistent o steps t → ∀ k,
    Consistent o steps (interrupted gh o steps t k) ∧ Resumes gh o steps (interrupted gh o steps t k)

/-- Every row is known again by its marker and by its name. -/
structure Recognised (o : FileSlicesOptions) (steps : List SliceStep) : Prop where
  spec : Unspaced o.specId.text
  rows : ∀ s ∈ steps, Plain s.row
  after : ∀ s ∈ steps, ∀ n ∈ s.needs.getD [], n ∈ steps.map (·.id)

variable {gh : GitHub} {o : FileSlicesOptions} {steps : List SliceStep} {t : Tracker}

/-! ## What is found -/

variable {s : SliceStep}

theorem mem_provenances_of_key {i : Issue} (h : issueKey o.specId.text i = some (rowKey s)) :
    ∃ p ∈ provenances i.body, p.spec_id = o.specId.text ∧ p.row = s.row ∧ i.addr.repo = sliceRepo s := by
  unfold issueKey at h
  split at h
  · next p hp =>
    split at h
    · next hspec =>
      have hkey := Option.some.inj h
      exact ⟨p, mem_of_mem_head? hp, hspec, congrArg Prod.fst hkey, congrArg Prod.snd hkey⟩
    · cases h
  · cases h

theorem of_priorIssue {i : Issue} (h : priorIssue o (considered gh o steps t) s = some i) :
    i ∈ t.issues ∧ issueKey o.specId.text i = some (rowKey s) := by
  have hmem := mem_of_find?_eq_some h
  have hkey := find?_some h
  refine ⟨?_, of_decide_eq_true hkey⟩
  obtain hmem | hmem := mem_append.mp hmem
  · cases hprd : o.prd with
    | none => rw [hprd] at hmem; cases hmem
    | some prd =>
      rw [hprd] at hmem
      exact ((gh.mem_listSubIssues t prd.addr i).mp hmem).1
  · obtain ⟨repo, -, hfound⟩ := mem_flatMap.mp hmem
    exact (gh.of_findFiled t repo _ i hfound).1

theorem not_hasIssue_of_priorIssue (hs : s ∈ steps)
    (h : priorIssue o (considered gh o steps t) s = none) : ¬ HasIssue o t s := by
  rintro ⟨i, hi, hkey⟩
  obtain ⟨p, hp, hspec, -, hrepo⟩ := mem_provenances_of_key hkey
  have hfound := gh.findFiled_of_mem t o.specId.text i hi ⟨p, hp, hspec⟩
  rw [hrepo] at hfound
  have hrepos : sliceRepo s ∈ planRepos steps := mem_eraseDups.mpr (List.mem_map_of_mem hs)
  have hmem : i ∈ considered gh o steps t :=
    mem_append_right _ (mem_flatMap.mpr ⟨_, hrepos, hfound⟩)
  have hnot := find?_eq_none.mp h i hmem
  exact hnot (decide_eq_true hkey)

/-! ## The markers that are printed -/

theorem provenances_newIssue (haccepted : Accepted steps) (hrec : Recognised o steps)
    (hs : s ∈ steps) : provenances (issueBody s o.specId.text o.designHash.text (o.prd.map (·.addr)))
      = [⟨o.specId.text, s.row, o.designHash.text⟩] := by
  have hchecked := haccepted.checked s hs
  rw [provenances_issueBody hchecked hrec.spec o.designHash.hex,
    provenances_marker hrec.spec o.specId.nonempty (hrec.rows s hs) hchecked.number o.designHash.hex
      o.designHash.nonempty]

theorem provenances_adopted (haccepted : Accepted steps) (hrec : Recognised o steps)
    (hs : s ∈ steps) (body : List Char) : provenances (adoptedBody body s o.specId.text o.designHash.text)
      = provenances body ++ [⟨o.specId.text, s.row, o.designHash.text⟩] := by
  have hchecked := haccepted.checked s hs
  rw [provenances_adoptedBody body hrec.spec o.designHash.hex,
    provenances_marker hrec.spec o.specId.nonempty (hrec.rows s hs) hchecked.number o.designHash.hex
      o.designHash.nonempty]

/-! ## A run as far as it is -/

def Filed (o : FileSlicesOptions) (byRow : InsertionMap (Option ℕ) Issue) (t : Tracker) (s : SliceStep) : Prop :=
  ∃ b, byRow.get? s.row = some b ∧ ∃ i ∈ t.issues, IsIssueOf o s i ∧ i.id = b.id ∧ i.addr = b.addr

/-- How far a run from `t` is: some rows are filed, and some links and edges have been seen to. -/
structure Sofar (o : FileSlicesOptions) (steps : List SliceStep) (t : Tracker) (done : List SliceStep)
    (links edges : IssueAddr × ℕ → Prop) (f : Filing) : Prop where
  tracker : f.tracker = run Tracker.apply t f.log
  allowed : Guarded Tracker.apply (Allowed o steps) t f.log
  filed : ∀ s ∈ done, Filed o f.byRow f.tracker s
  marked : AllMarked o done f.tracker
  issues : Exactly (createdKeys o f.log) (fun k ↦ ∃ s ∈ done, s.adopts = none ∧ k = some (rowKey s))
    (fun k ↦ ∃ i ∈ t.issues, issueKey o.specId.text i = k)
  links : Exactly (addedSubIssues f.log) links (· ∈ t.children)
  edges : Exactly (addedBlockers f.log) edges (· ∈ t.blockedBy)

theorem Filed.set {byRow : InsertionMap (Option ℕ) Issue} {row : Option ℕ} {b : Issue}
    (h : Filed o byRow t s) (hne : row ≠ s.row) : Filed o (byRow.set row b) t s := by
  obtain ⟨b', hb', hissue⟩ := h
  exact ⟨b', (byRow.get?_set_of_ne b hne).trans hb', hissue⟩

variable {done : List SliceStep} {links edges : IssueAddr × ℕ → Prop} {f : Filing} {s : SliceStep} {w : Write}

section Run

variable (hrows : (steps.map (·.row)).Nodup)
include hrows

theorem Filed.apply {byRow : InsertionMap (Option ℕ) Issue} (hs : s ∈ steps) (hw : Allowed o steps t w)
    (h : Filed o byRow t s) : Filed o byRow (t.apply w) s := by
  obtain ⟨b, hb, i, hi, his, hid, haddr⟩ := h
  obtain ⟨i', hi', hlater⟩ := exists_later hrows hw hi
  exact ⟨b, hb, i', hi', (hlater.isIssueOf hs).mpr his, hlater.id.trans hid, hlater.addr.trans haddr⟩

omit hrows in
theorem Sofar.guarded_write (h : Sofar o steps t done links edges f) (hw : Allowed o steps f.tracker w) :
    Guarded Tracker.apply (Allowed o steps) t (f.log ++ [w]) := by
  rw [guarded_append, ← h.tracker]
  exact ⟨h.allowed, hw, guarded_nil _⟩

omit hrows in
theorem Sofar.tracker_write (h : Sofar o steps t done links edges f) (w : Write) :
    (f.write w).tracker = StepMachine.run Tracker.apply t (f.write w).log := by
  rw [Filing.write, run_concat, ← h.tracker]

theorem Sofar.kept (h : Sofar o steps t done links edges f) (ht : Consistent o steps f.tracker)
    (hdone : ∀ s ∈ done, s ∈ steps) (hw : Allowed o steps f.tracker w) :
    (∀ s ∈ done, Filed o f.byRow (f.tracker.apply w) s) ∧ AllMarked o done (f.tracker.apply w) := by
  refine ⟨fun s hs ↦ (h.filed s hs).apply hrows (hdone s hs) hw, fun s hs addr hadopts i' hi' haddr ↦ ?_⟩
  rcases exists_earlier hrows hw hi' with ⟨i, hi, hlater⟩ | rfl
  · exact hlater.marked _ (h.marked s hs addr hadopts i hi (hlater.addr.symm.trans haddr))
  · obtain ⟨i, hi, haddr'⟩ := ht.adopted s (hdone s hs) addr hadopts
    exact absurd (List.mem_map.mpr ⟨i, hi, haddr'.trans haddr.symm⟩) hw.2.1

theorem Sofar.keep {links' edges' : IssueAddr × ℕ → Prop} (h : Sofar o steps t done links edges f)
    (ht : Consistent o steps f.tracker) (hdone : ∀ s ∈ done, s ∈ steps) (hw : Allowed o steps f.tracker w)
    (hcreated : w.created? = none)
    (hlinks : Exactly (addedSubIssues f.log ++ w.subIssue?.toList) links' (· ∈ t.children))
    (hedges : Exactly (addedBlockers f.log ++ w.blocker?.toList) edges' (· ∈ t.blockedBy)) :
    Sofar o steps t done links' edges' (f.write w) := by
  obtain ⟨hfiled, hmarked⟩ := h.kept hrows ht hdone hw
  refine ⟨h.tracker_write _, h.guarded_write hw, hfiled, hmarked, ?_, ?_, ?_⟩
  · simpa [Filing.write, createdKeys, hcreated, filterMap_cons] using h.issues
  · rw [Filing.write, addedSubIssues, filterMap_append]
    rcases hw' : w.subIssue? with _ | x <;> simpa [addedSubIssues, hw'] using hlinks
  · rw [Filing.write, addedBlockers, filterMap_append]
    rcases hw' : w.blocker? with _ | x <;> simpa [addedBlockers, hw'] using hedges

section

variable (h : Sofar o steps t done links edges f) (ht : Consistent o steps f.tracker)
  (hdone : ∀ s ∈ done, s ∈ steps)

include h ht hdone

theorem Sofar.link {parent : IssueAddr} {id : ℕ} (hid : ∃ i ∈ f.tracker.issues, i.id = id)
    (hnew : (parent, id) ∉ f.tracker.children) :
    Sofar o steps t done (fun x ↦ links x ∨ x = (parent, id)) edges (f.write (.addSubIssue parent id)) := by
  have hw : Allowed o steps f.tracker (.addSubIssue parent id) := ⟨hid, hnew⟩
  rw [h.tracker, children_run, mem_append, not_or] at hnew
  exact h.keep hrows ht hdone hw rfl (h.links.add hnew.1 hnew.2) (by simpa [Write.blocker?] using h.edges)

theorem Sofar.edge {addr : IssueAddr} {id : ℕ} (hid : ∃ i ∈ f.tracker.issues, i.id = id)
    (hnew : (addr, id) ∉ f.tracker.blockedBy) :
    Sofar o steps t done links (fun x ↦ edges x ∨ x = (addr, id)) (f.write (.addBlockedBy addr id)) := by
  have hw : Allowed o steps f.tracker (.addBlockedBy addr id) := ⟨hid, hnew⟩
  rw [h.tracker, blockedBy_run, mem_append, not_or] at hnew
  exact h.keep hrows ht hdone hw rfl (by simpa [Write.subIssue?] using h.links) (h.edges.add hnew.1 hnew.2)

theorem Sofar.edit {addr : IssueAddr} {body : List Char}
    (hw : Allowed o steps f.tracker (.editIssueBody addr body)) :
    Sofar o steps t done links edges (f.write (.editIssueBody addr body)) :=
  h.keep hrows ht hdone hw rfl (by simpa [Write.subIssue?] using h.links)
    (by simpa [Write.blocker?] using h.edges)

end

theorem Sofar.file (h : Sofar o steps t done links edges f) (hdone : ∀ s ∈ done, s ∈ steps) (hs : s ∈ steps)
    (hnot : s ∉ done) {b : Issue} (hissue : ∃ i ∈ f.tracker.issues, IsIssueOf o s i ∧ i.id = b.id ∧ i.addr = b.addr)
    (hmark : ∀ addr, s.adopts = some addr → ∀ i ∈ f.tracker.issues, i.addr = addr →
      hasProvenance i.body o.specId.text s.row = true)
    (hown : s.adopts = none → HasIssue o t s) :
    Sofar o steps t (done ++ [s]) links edges { f with byRow := f.byRow.set s.row b } := by
  refine ⟨h.tracker, h.allowed, fun s' hs' ↦ ?_, fun s' hs' ↦ ?_, ?_, h.links, h.edges⟩
  · obtain hs' | hs' := mem_append.mp hs'
    · exact (h.filed s' hs').set fun hrow ↦
        hnot (eq_of_row_eq hrows hs (hdone s' hs') hrow ▸ hs')
    · obtain rfl := mem_singleton.mp hs'
      exact ⟨b, f.byRow.get?_set_self _ b, hissue⟩
  · obtain hs' | hs' := mem_append.mp hs'
    · exact h.marked s' hs'
    · obtain rfl := mem_singleton.mp hs'
      exact hmark
  · rcases hadopts : s.adopts with _ | addr
    · obtain ⟨i, hi, hkey⟩ := hown hadopts
      refine (h.issues.keep (x := some (rowKey s)) (.inl ⟨i, hi, hkey⟩)).congr fun k ↦ ?_
      simp [or_and_right, exists_or, hadopts]
    · refine h.issues.congr fun k ↦ ?_
      simp [or_and_right, exists_or, hadopts]

theorem Sofar.create (h : Sofar o steps t done links edges f) (ht : Consistent o steps f.tracker)
    (hdone : ∀ s ∈ done, s ∈ steps) (hs : s ∈ steps) (hnot : s ∉ done) (hown : s.adopts = none)
    (hnone : ¬ HasIssue o t s) {b : Issue} (hid : b.id ∉ f.tracker.issues.map (·.id))
    (haddr : b.addr ∉ f.tracker.issues.map (·.addr)) (hkey : issueKey o.specId.text b = some (rowKey s)) :
    Sofar o steps t (done ++ [s]) links edges
      { f.write (.createIssue b) with byRow := f.byRow.set s.row b } := by
  -- no row before this one has its number
  have hnew : some (rowKey s) ∉ createdKeys o f.log := by
    intro hmem
    obtain ⟨⟨s', hs', -, hkey'⟩, -⟩ := (h.issues.mem_iff _).mp hmem
    have hrow : s.row = s'.row := congrArg Prod.fst (Option.some.inj hkey')
    exact hnot (eq_of_row_eq hrows hs (hdone s' hs') hrow ▸ hs')
  have hnot' : ¬ HasIssue o f.tracker s := by
    rw [h.tracker, hasIssue_run hrows h.allowed hs hown, not_or]
    exact ⟨hnone, hnew⟩
  have hw : Allowed o steps f.tracker (.createIssue b) :=
    ⟨hid, haddr, s, hs, hown, hkey, fun j hj hjkey ↦ hnot' ⟨j, hj, hjkey⟩⟩
  obtain ⟨hfiled, hmarked⟩ := h.kept hrows ht hdone hw
  refine ⟨h.tracker_write (.createIssue b), h.guarded_write hw, fun s' hs' ↦ ?_, fun s' hs' ↦ ?_, ?_, ?_, ?_⟩
  · obtain hs' | hs' := mem_append.mp hs'
    · exact (hfiled s' hs').set fun hrow ↦ hnot (eq_of_row_eq hrows hs (hdone s' hs') hrow ▸ hs')
    · obtain rfl := mem_singleton.mp hs'
      refine ⟨b, f.byRow.get?_set_self _ b, b, mem_append_right _ (mem_singleton_self b), ?_, rfl, rfl⟩
      rw [IsIssueOf, hown]
      exact hkey
  · obtain hs' | hs' := mem_append.mp hs'
    · exact hmarked s' hs'
    · obtain rfl := mem_singleton.mp hs'
      intro addr hadopts
      rw [hown] at hadopts
      cases hadopts
  · have hadd := h.issues.add (x := some (rowKey s)) (fun ⟨i, hi, hkey'⟩ ↦ hnone ⟨i, hi, hkey'⟩) hnew
    have hkeys : createdKeys o (f.write (.createIssue b)).log = createdKeys o f.log ++ [some (rowKey s)] := by
      rw [Filing.write, createdKeys_append, ← hkey]
      rfl
    rw [hkeys]
    refine hadd.congr fun k ↦ ?_
    simp [or_and_right, exists_or, hown]
  · simpa [Filing.write, addedSubIssues, Write.subIssue?, filterMap_cons] using h.links
  · simpa [Filing.write, addedBlockers, Write.blocker?, filterMap_cons] using h.edges

end Run

/-! ## The first loop -/

section Loops

variable (haccepted : Accepted steps) (hrec : Recognised o steps) (ht : Consistent o steps t)
include haccepted ht

theorem Sofar.consistent (h : Sofar o steps t done links edges f) : Consistent o steps f.tracker := by
  rw [h.tracker]
  exact ht.run haccepted.rows h.allowed

include hrec in
theorem fileRow_spec (gh : GitHub) (h : Sofar o steps t done links edges f) (hdone : ∀ s ∈ done, s ∈ steps)
    (hs : s ∈ steps) (hnot : s ∉ done) :
    ∃ f', fileRow gh o (considered gh o steps t) s f = (f', none)
      ∧ Sofar o steps t (done ++ [s]) links edges f' ∧ f'.linked = f.linked := by
  have hf := h.consistent haccepted ht
  rcases hadopts : s.adopts with _ | addr
  · refine ⟨_, by rw [fileRow, hadopts], ?_⟩
    rcases hprior : priorIssue o (considered gh o steps t) s with _ | b
    · -- nothing is found under the row: an issue is created
      have hkey : issueKey o.specId.text ⟨(gh.allot f.tracker (sliceRepo s)).1,
          ⟨sliceRepo s, some (gh.allot f.tracker (sliceRepo s)).2⟩, s.title,
          issueBody s o.specId.text o.designHash.text (o.prd.map (·.addr)), false⟩ = some (rowKey s) := by
        rw [issueKey, parseProvenance, provenances_newIssue haccepted hrec hs]
        exact if_pos rfl
      have hcreate := h.create haccepted.rows hf hdone hs hnot hadopts (not_hasIssue_of_priorIssue hs hprior)
        (gh.allot_id f.tracker (sliceRepo s)) (gh.allot_number f.tracker (sliceRepo s)) hkey
      exact ⟨⟨hcreate.tracker, hcreate.allowed, hcreate.filed, hcreate.marked, hcreate.issues, hcreate.links,
        hcreate.edges⟩, rfl⟩
    · obtain ⟨hb, hkey⟩ := of_priorIssue hprior
      obtain ⟨i, hi, hlater⟩ := exists_later_run haccepted.rows h.allowed hb
      rw [← h.tracker] at hi
      have hissue : IsIssueOf o s b := by rw [IsIssueOf, hadopts]; exact hkey
      have hfile := h.file haccepted.rows hdone hs hnot
        ⟨i, hi, (hlater.isIssueOf hs).mpr hissue, hlater.id, hlater.addr⟩
        (fun addr heq ↦ by rw [hadopts] at heq; cases heq) (fun _ ↦ ⟨b, hb, hkey⟩)
      exact ⟨⟨hfile.tracker, hfile.allowed, hfile.filed, hfile.marked, hfile.issues, hfile.links,
        hfile.edges⟩, rfl⟩
  · obtain ⟨i₀, hi₀, haddr₀⟩ := hf.adopted s hs addr hadopts
    have hfound : ∃ b, f.tracker.issues.find? (·.addr = addr) = some b :=
      Option.isSome_iff_exists.mp (find?_isSome.mpr ⟨i₀, hi₀, by simp [haddr₀]⟩)
    obtain ⟨b, hb⟩ := hfound
    have hbmem := mem_of_find?_eq_some hb
    have hbaddr : b.addr = addr := by simpa using find?_some hb
    have hsame : ∀ i ∈ f.tracker.issues, i.addr = addr → i = b := fun i hi haddr ↦
      inj_on_of_nodup_map hf.addrs hi hbmem (haddr.trans hbaddr.symm)
    have hown : s.adopts = none → HasIssue o t s := fun heq ↦ by rw [hadopts] at heq; cases heq
    refine ⟨_, by rw [fileRow, hadopts]; dsimp only; rw [adoptRow, hb], ?_⟩
    by_cases hmark : hasProvenance b.body o.specId.text s.row = true
    · have hissue : IsIssueOf o s b := by rw [IsIssueOf, hadopts]; exact hbaddr
      have hfile := h.file haccepted.rows hdone hs hnot ⟨b, hbmem, hissue, rfl, rfl⟩
        (fun addr' heq i hi haddr ↦ by
          obtain rfl := Option.some.inj (hadopts.symm.trans heq)
          rw [hsame i hi haddr]
          exact hmark) hown
      rw [if_pos hmark]
      exact ⟨⟨hfile.tracker, hfile.allowed, hfile.filed, hfile.marked, hfile.issues, hfile.links,
        hfile.edges⟩, rfl⟩
    · -- the marker is appended, and is there then
      have hbody := provenances_adopted haccepted hrec hs b.body
      have hw : Allowed o steps f.tracker
          (.editIssueBody addr (adoptedBody b.body s o.specId.text o.designHash.text)) := by
        refine ⟨s, hs, hadopts, fun i hi haddr ↦ ?_⟩
        rw [hsame i hi haddr]
        exact ⟨eq_false_of_ne_true hmark, _, hbody, rfl⟩
      have hedit := h.edit haccepted.rows hf hdone hw
      have hnew : ∀ i ∈ (f.write (.editIssueBody addr
          (adoptedBody b.body s o.specId.text o.designHash.text))).tracker.issues, i.addr = addr →
          hasProvenance i.body o.specId.text s.row = true := by
        intro i hi haddr
        obtain ⟨j, hj, rfl⟩ := List.mem_map.mp hi
        split at haddr
        · next hjaddr =>
          rw [if_pos hjaddr, hsame j hj hjaddr, hasProvenance, hbody, any_append, Bool.or_eq_true]
          exact .inr (by simp)
        · next hjaddr => exact absurd haddr hjaddr
      obtain ⟨i, hi, hlater⟩ := exists_later haccepted.rows hw hbmem
      have hiaddr : i.addr = addr := hlater.addr.trans hbaddr
      have hissue : IsIssueOf o s i := by rw [IsIssueOf, hadopts]; exact hiaddr
      have hfile := hedit.file haccepted.rows hdone hs hnot ⟨i, hi, hissue, hlater.id, hlater.addr⟩
        (fun addr' heq j hj haddr ↦ by
          obtain rfl := Option.some.inj (hadopts.symm.trans heq)
          exact hnew j hj haddr) hown
      rw [if_neg hmark]
      exact ⟨⟨hfile.tracker, hfile.allowed, hfile.filed, hfile.marked, hfile.issues, hfile.links,
        hfile.edges⟩, rfl⟩

include hrec in
theorem fileRows_spec (gh : GitHub) (h : Sofar o steps t [] links edges f) :
    ∃ f', Loop.forEach (fileRow gh o (considered gh o steps t)) steps f = (f', none)
      ∧ Sofar o steps t steps links edges f' ∧ f'.linked = f.linked := by
  refine Loop.forEach_completes (P := fun done f' ↦ Sofar o steps t done links edges f' ∧ f'.linked = f.linked)
    (fun front s rest heq f₁ hf₁ ↦ ?_) ⟨h, rfl⟩
  have hnodup : (front ++ s :: rest).Nodup := heq ▸ (Nodup.of_map _ haccepted.rows)
  have hs : s ∈ steps := heq ▸ mem_append_right front mem_cons_self
  have hfront : ∀ s ∈ front, s ∈ steps := fun s hs ↦ heq ▸ mem_append_left _ hs
  have hnot : s ∉ front := fun hmem ↦ disjoint_of_nodup_append hnodup hmem mem_cons_self
  obtain ⟨f₂, hrun, hf₂, hlinked⟩ := fileRow_spec haccepted hrec ht gh hf₁.1 hfront hs hnot
  exact ⟨f₂, hrun, hf₂, hlinked.trans hf₁.2⟩

/-! ## The second loop -/

/-- The link of a row, as the run knows its issue. -/
def LinkOf (byRow : InsertionMap (Option ℕ) Issue) (parent : IssueAddr) (s : SliceStep) (x : IssueAddr × ℕ) : Prop :=
  ∃ b, byRow.get? s.row = some b ∧ x = (parent, b.id)

def EdgeOf (byRow : InsertionMap (Option ℕ) Issue) (s : SliceStep) (n : String) (x : IssueAddr × ℕ) : Prop :=
  ∃ b c, byRow.get? s.row = some b ∧ byRow.get? (JsNumber.number n.toList) = some c ∧ x = (b.addr, c.id)

/-- The second loop, when it has done some rows. -/
structure Linking (o : FileSlicesOptions) (steps : List SliceStep) (t : Tracker) (parent : IssueAddr)
    (byRow : InsertionMap (Option ℕ) Issue) (front : List SliceStep) (f : Filing) : Prop where
  sofar : Sofar o steps t steps (fun x ↦ ∃ s ∈ front, LinkOf byRow parent s x) (fun _ ↦ False) f
  byRow : f.byRow = byRow
  linked : ∀ id, id ∈ f.linked ↔ (parent, id) ∈ f.tracker.children

variable {byRow : InsertionMap (Option ℕ) Issue}

theorem linkRow_spec {parent : IssueAddr} {front : List SliceStep}
    (h : Linking o steps t parent byRow front f) (hs : s ∈ steps) :
    ∃ f', linkRow parent s f = (f', none) ∧ Linking o steps t parent byRow (front ++ [s]) f' := by
  obtain ⟨b, hb, i, hi, -, hid, -⟩ := h.sofar.filed s hs
  have hlink : ∀ x, LinkOf byRow parent s x ↔ x = (parent, b.id) := by
    intro x
    rw [LinkOf, ← h.byRow, hb]
    simp
  have hneeds : ∀ x, (∃ u ∈ front ++ [s], LinkOf byRow parent u x)
      ↔ (∃ u ∈ front, LinkOf byRow parent u x) ∨ x = (parent, b.id) := by
    intro x
    simp [or_and_right, exists_or, hlink]
  by_cases hmem : b.id ∈ f.linked
  · refine ⟨f, by rw [linkRow, hb]; exact if_pos hmem, ⟨h.sofar.tracker, h.sofar.allowed, h.sofar.filed,
      h.sofar.marked, h.sofar.issues, ?_, h.sofar.edges⟩, h.byRow, h.linked⟩
    have hthere := (h.linked b.id).mp hmem
    rw [h.sofar.tracker, children_run, mem_append] at hthere
    exact (h.sofar.links.keep hthere).congr hneeds
  · have hnew : (parent, b.id) ∉ f.tracker.children := fun hthere ↦ hmem ((h.linked b.id).mpr hthere)
    have hadd := h.sofar.link haccepted.rows (h.sofar.consistent haccepted ht) (fun _ hs ↦ hs) ⟨i, hi, hid⟩ hnew
    refine ⟨_, by rw [linkRow, hb]; dsimp only; rw [if_neg hmem], ?_⟩
    refine ⟨⟨hadd.tracker, hadd.allowed, hadd.filed, hadd.marked, hadd.issues, hadd.links.congr hneeds,
      hadd.edges⟩, h.byRow, fun id ↦ ?_⟩
    have hlinked : id ∈ f.linked ++ [b.id] ↔ (parent, id) ∈ f.tracker.children ++ [(parent, b.id)] := by
      rw [mem_append, mem_append, h.linked id]
      simp
    exact hlinked

theorem linkRows_spec
    (h : Sofar o steps t steps (fun _ ↦ False) (fun _ ↦ False) f) (hbyRow : f.byRow = byRow)
    (hlinked : ∀ prd, o.prd = some prd → ∀ id, id ∈ f.linked ↔ (prd.addr, id) ∈ t.children) :
    ∃ f', linkRows o steps f = (f', none) ∧ f'.byRow = byRow ∧
      Sofar o steps t steps (fun x ↦ ∃ prd, o.prd = some prd ∧ ∃ s ∈ steps, LinkOf byRow prd.addr s x)
        (fun _ ↦ False) f' := by
  rcases hprd : o.prd with _ | prd
  · refine ⟨f, by rw [linkRows, hprd], hbyRow, h.tracker, h.allowed, h.filed, h.marked, h.issues, ?_, h.edges⟩
    exact h.links.congr fun x ↦ by simp
  · have hchildren : f.tracker.children = t.children := by
      rw [h.tracker, children_run, h.links.eq_nil fun x hx ↦ hx.elim, append_nil]
    have hstart : Linking o steps t prd.addr byRow [] f := by
      refine ⟨⟨h.tracker, h.allowed, h.filed, h.marked, h.issues, h.links.congr fun x ↦ by simp, h.edges⟩,
        hbyRow, fun id ↦ ?_⟩
      rw [hchildren]
      exact hlinked prd hprd id
    obtain ⟨f', hrun, hf'⟩ := Loop.forEach_completes (l := steps)
      (P := Linking o steps t prd.addr byRow)
      (fun front s rest heq f₁ hf₁ ↦ linkRow_spec haccepted ht hf₁
        (heq ▸ mem_append_right front mem_cons_self)) hstart
    refine ⟨f', by rw [linkRows, hprd]; exact hrun, hf'.byRow, hf'.sofar.tracker, hf'.sofar.allowed,
      hf'.sofar.filed, hf'.sofar.marked, hf'.sofar.issues, ?_, hf'.sofar.edges⟩
    exact hf'.sofar.links.congr fun x ↦ by simp

/-! ## The third loop -/

/-- The third loop, when it has done some rows and some of what the next one is after. -/
structure Edging (o : FileSlicesOptions) (steps : List SliceStep) (t : Tracker) (links : IssueAddr × ℕ → Prop)
    (byRow : InsertionMap (Option ℕ) Issue) (edges : IssueAddr × ℕ → Prop) (f : Filing) : Prop where
  sofar : Sofar o steps t steps links edges f
  byRow : f.byRow = byRow

theorem edgeTo_spec {issue : Issue} {n : String}
    (h : Edging o steps t links byRow edges f) (hissue : byRow.get? s.row = some issue)
    (hblockers : ∀ id, id ∈ f.blockers ↔ (issue.addr, id) ∈ f.tracker.blockedBy)
    (hn : JsNumber.number n.toList ∈ steps.map (·.row)) :
    ∃ f', edgeTo s issue n f = (f', none)
      ∧ Edging o steps t links byRow (fun x ↦ edges x ∨ EdgeOf byRow s n x) f'
      ∧ ∀ id, id ∈ f'.blockers ↔ (issue.addr, id) ∈ f'.tracker.blockedBy := by
  obtain ⟨u, hu, hrow⟩ := List.mem_map.mp hn
  obtain ⟨b, hb, i, hi, -, hid, -⟩ := h.sofar.filed u hu
  rw [hrow] at hb
  have hedge : ∀ x, EdgeOf byRow s n x ↔ x = (issue.addr, b.id) := by
    intro x
    rw [EdgeOf, hissue, ← h.byRow, hb]
    simp
  have hneeds : ∀ x, (edges x ∨ EdgeOf byRow s n x) ↔ (edges x ∨ x = (issue.addr, b.id)) :=
    fun x ↦ or_congr Iff.rfl (hedge x)
  by_cases hmem : b.id ∈ f.blockers
  · refine ⟨_, by rw [edgeTo, hb]; dsimp only; rw [if_pos hmem], ?_⟩
    refine ⟨⟨⟨h.sofar.tracker, h.sofar.allowed, h.sofar.filed, h.sofar.marked, h.sofar.issues, h.sofar.links,
      ?_⟩, h.byRow⟩, hblockers⟩
    have hthere := (hblockers b.id).mp hmem
    rw [h.sofar.tracker, blockedBy_run, mem_append] at hthere
    exact (h.sofar.edges.keep hthere).congr hneeds
  · have hnew : (issue.addr, b.id) ∉ f.tracker.blockedBy := fun hthere ↦ hmem ((hblockers b.id).mpr hthere)
    have hadd := h.sofar.edge haccepted.rows (h.sofar.consistent haccepted ht) (fun _ hs ↦ hs) ⟨i, hi, hid⟩ hnew
    refine ⟨_, by rw [edgeTo, hb]; dsimp only; rw [if_neg hmem], ?_⟩
    refine ⟨⟨⟨hadd.tracker, hadd.allowed, hadd.filed, hadd.marked, hadd.issues, hadd.links,
      hadd.edges.congr hneeds⟩, h.byRow⟩, fun id ↦ ?_⟩
    have hblockers' : id ∈ f.blockers ++ [b.id]
        ↔ (issue.addr, id) ∈ f.tracker.blockedBy ++ [(issue.addr, b.id)] := by
      rw [mem_append, mem_append, hblockers id]
      simp
    exact hblockers'

theorem edgeRow_spec (gh : GitHub)
    (h : Edging o steps t links byRow edges f) (hs : s ∈ steps) :
    ∃ f', edgeRow gh s f = (f', none)
      ∧ Edging o steps t links byRow (fun x ↦ edges x ∨ ∃ n ∈ s.needs.getD [], EdgeOf byRow s n x) f' := by
  rcases hneeds : s.needs.getD [] with _ | ⟨n, needs⟩
  · refine ⟨f, by rw [edgeRow, hneeds], ⟨h.sofar.tracker, h.sofar.allowed, h.sofar.filed, h.sofar.marked,
      h.sofar.issues, h.sofar.links, ?_⟩, h.byRow⟩
    exact h.sofar.edges.congr fun x ↦ by simp
  · obtain ⟨issue, hissue, -⟩ := h.sofar.filed s hs
    have hf := h.sofar.consistent haccepted ht
    have hstart : ∀ id, id ∈ (gh.listBlockedBy f.tracker issue.addr).map (·.id)
        ↔ (issue.addr, id) ∈ f.tracker.blockedBy := by
      intro id
      rw [List.mem_map]
      constructor
      · rintro ⟨i, hi, rfl⟩
        exact ((gh.mem_listBlockedBy _ _ _).mp hi).2
      · intro hedge
        obtain ⟨i, hi, hid⟩ := hf.blockedBy _ hedge
        exact ⟨i, (gh.mem_listBlockedBy _ _ _).mpr ⟨hi, by rw [hid]; exact hedge⟩, hid⟩
    obtain ⟨f', hrun, hf', -⟩ : ∃ f', Loop.forEach (edgeTo s issue) (n :: needs)
        { f with blockers := (gh.listBlockedBy f.tracker issue.addr).map (·.id) } = (f', none) ∧ _ ∧ _ :=
      Loop.forEach_completes
      (P := fun front f' ↦ Edging o steps t links byRow (fun x ↦ edges x ∨ ∃ n ∈ front, EdgeOf byRow s n x) f'
        ∧ ∀ id, id ∈ f'.blockers ↔ (issue.addr, id) ∈ f'.tracker.blockedBy)
      (fun front m rest heq f₁ hf₁ ↦ by
        have hm : m ∈ s.needs.getD [] := by
          rw [hneeds, heq]
          exact mem_append_right front mem_cons_self
        obtain ⟨f₂, hact, hedging, hblockers⟩ := edgeTo_spec haccepted ht hf₁.1 (h.byRow ▸ hissue) hf₁.2
          (haccepted.needs s hs m hm)
        refine ⟨f₂, hact, ⟨⟨hedging.sofar.tracker, hedging.sofar.allowed, hedging.sofar.filed,
          hedging.sofar.marked, hedging.sofar.issues, hedging.sofar.links, ?_⟩, hedging.byRow⟩, hblockers⟩
        exact hedging.sofar.edges.congr fun x ↦ by simp [or_and_right, exists_or, or_assoc])
      ⟨⟨⟨h.sofar.tracker, h.sofar.allowed, h.sofar.filed, h.sofar.marked, h.sofar.issues, h.sofar.links,
        h.sofar.edges.congr fun x ↦ by simp⟩, h.byRow⟩, hstart⟩
    refine ⟨f', ?_, hf'⟩
    rw [edgeRow, hneeds]
    rw [hissue]
    exact hrun

theorem edgeRows_spec (gh : GitHub)
    (h : Sofar o steps t steps links (fun _ ↦ False) f) (hbyRow : f.byRow = byRow) :
    ∃ f', Loop.forEach (edgeRow gh) steps f = (f', none) ∧ f'.byRow = byRow
      ∧ Sofar o steps t steps links (fun x ↦ ∃ s ∈ steps, ∃ n ∈ s.needs.getD [], EdgeOf byRow s n x) f' := by
  obtain ⟨f', hrun, hf'⟩ : ∃ f', Loop.forEach (edgeRow gh) steps f = (f', none) ∧ _ :=
    Loop.forEach_completes
    (P := fun front f' ↦
      Edging o steps t links byRow (fun x ↦ ∃ s ∈ front, ∃ n ∈ s.needs.getD [], EdgeOf byRow s n x) f')
    (fun front s rest heq f₁ hf₁ ↦ by
      obtain ⟨f₂, hact, hf₂⟩ := edgeRow_spec haccepted ht gh hf₁
        (heq ▸ mem_append_right front mem_cons_self)
      refine ⟨f₂, hact, ⟨hf₂.sofar.tracker, hf₂.sofar.allowed, hf₂.sofar.filed, hf₂.sofar.marked,
        hf₂.sofar.issues, hf₂.sofar.links, ?_⟩, hf₂.byRow⟩
      exact hf₂.sofar.edges.congr fun x ↦ by simp [or_and_right, exists_or])
    ⟨⟨h.tracker, h.allowed, h.filed, h.marked, h.issues, h.links, h.edges.congr fun x ↦ by simp⟩, hbyRow⟩
  exact ⟨f', hrun, hf'.byRow, hf'.sofar⟩

/-! ## The whole run -/

omit haccepted in
theorem Consistent.issue_unique {i j : Issue} (hs : s ∈ steps) (hi : i ∈ t.issues) (hj : j ∈ t.issues)
    (his : IsIssueOf o s i) (hjs : IsIssueOf o s j) : i = j := by
  rcases hadopts : s.adopts with _ | addr
  · rw [IsIssueOf, hadopts] at his hjs
    exact ht.once s hs hadopts i hi j hj his hjs
  · rw [IsIssueOf, hadopts] at his hjs
    exact inj_on_of_nodup_map ht.addrs hi hj (his.trans hjs.symm)

omit haccepted ht in
theorem danglingAfter?_eq_none (h : ∀ s ∈ steps, ∀ n ∈ s.needs.getD [], n ∈ steps.map (·.id)) :
    danglingAfter? steps = none := by
  rw [danglingAfter?, Option.map_eq_none_iff, find?_eq_none]
  intro e he
  obtain ⟨s, hs, he⟩ := mem_flatMap.mp he
  obtain ⟨n, hn, rfl⟩ := List.mem_map.mp he
  simpa using h s hs n hn

include hrec in
theorem fileSlices_sofar (gh : GitHub) : ∃ f, fileSlices gh o steps t = (f, none) ∧ Sofar o steps t steps
    (fun x ↦ ∃ prd, o.prd = some prd ∧ ∃ s ∈ steps, LinkOf f.byRow prd.addr s x)
    (fun x ↦ ∃ s ∈ steps, ∃ n ∈ s.needs.getD [], EdgeOf f.byRow s n x) f := by
  have hstart : Sofar o steps t [] (fun _ ↦ False) (fun _ ↦ False) (startFiling gh o t) :=
    ⟨rfl, guarded_nil _, fun s hs ↦ absurd hs not_mem_nil, fun s hs ↦ absurd hs not_mem_nil,
      (exactly_nil _).congr fun k ↦ by simp, exactly_nil _, exactly_nil _⟩
  obtain ⟨f₁, hrun₁, hf₁, hlinked⟩ := fileRows_spec haccepted hrec ht gh hstart
  have hlinked₁ : ∀ prd, o.prd = some prd → ∀ id, id ∈ f₁.linked ↔ (prd.addr, id) ∈ t.children := by
    intro prd hprd id
    rw [hlinked, startFiling, hprd, Option.elim_some, List.mem_map]
    constructor
    · rintro ⟨i, hi, rfl⟩
      exact ((gh.mem_listSubIssues _ _ _).mp hi).2
    · intro hlink
      obtain ⟨i, hi, hid⟩ := ht.children _ hlink
      exact ⟨i, (gh.mem_listSubIssues _ _ _).mpr ⟨hi, by rw [hid]; exact hlink⟩, hid⟩
  obtain ⟨f₂, hrun₂, hbyRow₂, hf₂⟩ := linkRows_spec haccepted ht hf₁ rfl hlinked₁
  obtain ⟨f₃, hrun₃, hbyRow₃, hf₃⟩ := edgeRows_spec haccepted ht gh hf₂ hbyRow₂
  rw [← hbyRow₃] at hf₃
  refine ⟨f₃, ?_, hf₃⟩
  rw [fileSlices, danglingAfter?_eq_none hrec.after]
  rw [Loop.andThen_of_none hrun₁, Loop.andThen_of_none hrun₂, hrun₃]

include hrec in
theorem fileSlices_spec (gh : GitHub) : ∃ f, fileSlices gh o steps t = (f, none) ∧ Sofar o steps t steps
    (NeededLink o steps f.tracker) (NeededEdge o steps f.tracker) f := by
  obtain ⟨f, hrun, h⟩ := fileSlices_sofar haccepted hrec ht gh
  have hf := h.consistent haccepted ht
  refine ⟨f, hrun, h.tracker, h.allowed, h.filed, h.marked, h.issues, h.links.congr fun x ↦ ?_,
    h.edges.congr fun x ↦ ?_⟩
  · refine exists_congr fun prd ↦ and_congr Iff.rfl (exists_congr fun s ↦ and_congr_right fun hs ↦ ?_)
    obtain ⟨b, hb, i, hi, his, hid, -⟩ := h.filed s hs
    constructor
    · rintro ⟨j, hj, hjs, rfl⟩
      exact ⟨b, hb, by rw [hf.issue_unique hs hj hi hjs his, hid]⟩
    · rintro ⟨b', hb', rfl⟩
      obtain rfl := Option.some.inj (hb.symm.trans hb')
      exact ⟨i, hi, his, by rw [hid]⟩
  · refine exists_congr fun s ↦ and_congr_right fun hs ↦ exists_congr fun n ↦ and_congr_right fun hn ↦ ?_
    obtain ⟨b, hb, i, hi, his, -, haddr⟩ := h.filed s hs
    constructor
    · rintro ⟨u, hu, hrow, i', hi', j', hj', his', hjs', rfl⟩
      obtain ⟨c, hc, j, hj, hju, hid, -⟩ := h.filed u hu
      refine ⟨b, c, hb, hrow ▸ hc, ?_⟩
      rw [hf.issue_unique hs hi' hi his' his, hf.issue_unique hu hj' hj hjs' hju, haddr, hid]
    · rintro ⟨b', c', hb', hc', rfl⟩
      obtain ⟨u, hu, hrow⟩ := List.mem_map.mp (haccepted.needs s hs n hn)
      obtain ⟨c, hc, j, hj, hju, hid, -⟩ := h.filed u hu
      obtain rfl := Option.some.inj (hb.symm.trans hb')
      obtain rfl := Option.some.inj (hc.symm.trans (hrow ▸ hc'))
      exact ⟨u, hu, hrow, i, hi, j, hj, his, hju, by rw [haddr, hid]⟩

omit haccepted in
theorem exists_isIssueOf_run (hrows : (steps.map (·.row)).Nodup) {log : List Write}
    (hlog : Guarded Tracker.apply (Allowed o steps) t log) (hs : s ∈ steps) {j : Issue}
    (hj : j ∈ t.issues) (hjs : IsIssueOf o s j) {i : Issue} (hi : i ∈ (run Tracker.apply t log).issues)
    (his : IsIssueOf o s i) : j.id = i.id ∧ j.addr = i.addr := by
  obtain ⟨i', hi', hlater⟩ := exists_later_run hrows hlog hj
  have heq := (ht.run hrows hlog).issue_unique hs hi' hi ((hlater.isIssueOf hs).mpr hjs) his
  exact ⟨by rw [← heq, hlater.id], by rw [← heq, hlater.addr]⟩

include hrec in
theorem resumes_of_consistent : Resumes gh o steps t := by
  obtain ⟨f, hrun, h⟩ := fileSlices_spec haccepted hrec ht gh
  have hf := h.consistent haccepted ht
  have hissue : ∀ s ∈ steps, ∃ i ∈ f.tracker.issues, IsIssueOf o s i := fun s hs ↦ by
    obtain ⟨-, -, i, hi, his, -, -⟩ := h.filed s hs
    exact ⟨i, hi, his⟩
  have hidle : ∃ f', fileSlices gh o steps f.tracker = (f', none) ∧ f'.log = [] := by
    obtain ⟨f', hrun', h'⟩ := fileSlices_spec haccepted hrec hf gh
    refine ⟨f', hrun', eq_nil_of_allMarked hf h.marked h'.allowed ?_ ?_ ?_⟩
    · refine h'.issues.eq_nil ?_
      rintro k ⟨s, hs, hown, rfl⟩
      obtain ⟨i, hi, his⟩ := hissue s hs
      rw [IsIssueOf, hown] at his
      exact ⟨i, hi, his⟩
    · refine h'.links.eq_nil ?_
      rintro x ⟨prd, hprd, s, hs, i, hi, his, rfl⟩
      obtain ⟨j, hj, hjs⟩ := hissue s hs
      rw [h'.tracker] at hi
      obtain ⟨hid, -⟩ := exists_isIssueOf_run hf haccepted.rows h'.allowed hs hj hjs hi his
      have hneeded : NeededLink o steps f.tracker (prd.addr, i.id) := ⟨prd, hprd, s, hs, j, hj, hjs, by rw [hid]⟩
      rw [h.tracker, children_run, mem_append]
      exact h.links.there hneeded
    · refine h'.edges.eq_nil ?_
      rintro x ⟨s, hs, n, hn, u, hu, hrow, i, hi, j, hj, his, hju, rfl⟩
      obtain ⟨i₀, hi₀, his₀⟩ := hissue s hs
      obtain ⟨j₀, hj₀, hju₀⟩ := hissue u hu
      rw [h'.tracker] at hi hj
      obtain ⟨-, haddr⟩ := exists_isIssueOf_run hf haccepted.rows h'.allowed hs hi₀ his₀ hi his
      obtain ⟨hid, -⟩ := exists_isIssueOf_run hf haccepted.rows h'.allowed hu hj₀ hju₀ hj hju
      have hneeded : NeededEdge o steps f.tracker (i.addr, j.id) :=
        ⟨s, hs, n, hn, u, hu, hrow, i₀, hi₀, j₀, hj₀, his₀, hju₀, by rw [haddr, hid]⟩
      rw [h.tracker, blockedBy_run, mem_append]
      exact h.edges.there hneeded
  obtain ⟨f', hrun', hlog'⟩ := hidle
  refine ⟨?_, ?_, ?_, ?_, ?_, ?_⟩ <;> rw [hrun]
  · exact h.issues
  · exact h.links
  · exact h.edges
  · intro s hs
    obtain ⟨i, hi, his⟩ := hissue s hs
    exact ⟨i, ⟨hi, his⟩, fun j hj ↦ hf.issue_unique hs hj.1 hi hj.2 his⟩
  · dsimp only
    rw [hrun']
    exact ⟨rfl, hlog'⟩

include hrec in
theorem consistent_interrupted (k : ℕ) : Consistent o steps (interrupted gh o steps t k) := by
  obtain ⟨f, hrun, h⟩ := fileSlices_spec haccepted hrec ht gh
  rw [interrupted, hrun]
  exact ht.run_take haccepted.rows h.allowed k

end Loops

theorem resumable_of_recognised (gh : GitHub) (haccepted : Accepted steps) (hrec : Recognised o steps) :
    Resumable gh o steps := fun _ ht k ↦
  have hleft := consistent_interrupted haccepted hrec ht k
  ⟨hleft, resumes_of_consistent haccepted hrec hleft⟩

end Amicode.Plan
