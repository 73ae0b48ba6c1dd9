import Amicode.Plan.Resumable

/-!
# Where filing a plan is not resumable

Three things keep a run from knowing again what an earlier one filed. A spec id with white space in it is no spec id
for the marker's pattern; a row number from `10 ^ 21` on is printed with an exponent, which is no row number for it;
and a row that names another in other digits than its number is printed in is refused before anything is filed,
though the table was accepted. Where none of them is, filing is resumable, and only there (`resumable_iff`).
-/

namespace Amicode.Plan

open StepMachine List

variable {gh : GitHub} {o : FileSlicesOptions} {steps : List SliceStep} {t : Tracker} {s : SliceStep} {f : Filing}

/-! ## What the loops write -/

inductive Prints (o : FileSlicesOptions) (s : SliceStep) (t : Tracker) : Write → Prop
  | adopted (issue : Issue) (hmem : issue ∈ t.issues) :
    Prints o s t (.editIssueBody issue.addr (adoptedBody issue.body s o.specId.text o.designHash.text))
  | filed (issue : Issue)
    (hbody : issue.body = issueBody s o.specId.text o.designHash.text (o.prd.map (·.addr))) :
    Prints o s t (.createIssue issue)

theorem fileRow_cases (gh : GitHub) (o : FileSlicesOptions) (existing : List Issue) (s : SliceStep) (f : Filing) :
    (∃ w, Prints o s f.tracker w ∧ (fileRow gh o existing s f).1.tracker = f.tracker.apply w
      ∧ (fileRow gh o existing s f).1.log = f.log ++ [w])
    ∨ (fileRow gh o existing s f).1.tracker = f.tracker ∧ (fileRow gh o existing s f).1.log = f.log
      ∧ ((fileRow gh o existing s f).2 = none →
        (∃ issue ∈ f.tracker.issues, hasProvenance issue.body o.specId.text s.row = true)
        ∨ ∃ b, priorIssue o existing s = some b) := by
  rcases hadopts : s.adopts with _ | addr
  · have hrun : fileRow gh o existing s f = (ownRow gh o (priorIssue o existing s) s f, none) := by
      rw [fileRow, hadopts]
    rw [hrun]
    rcases hprior : priorIssue o existing s with _ | b
    · exact .inl ⟨_, .filed ⟨(gh.allot f.tracker (sliceRepo s)).1,
        ⟨sliceRepo s, some (gh.allot f.tracker (sliceRepo s)).2⟩, s.title,
        issueBody s o.specId.text o.designHash.text (o.prd.map (·.addr)), false⟩ rfl, rfl, rfl⟩
    · exact .inr ⟨rfl, rfl, fun _ ↦ .inr ⟨b, rfl⟩⟩
  · have hrun : fileRow gh o existing s f = adoptRow o (priorIssue o existing s) s addr f := by
      rw [fileRow, hadopts]
    rw [hrun]
    rcases hfound : f.tracker.issues.find? (·.addr = addr) with _ | issue
    · rw [adoptRow, hfound]
      exact .inr ⟨rfl, rfl, fun h ↦ by cases h⟩
    · have hmem := mem_of_find?_eq_some hfound
      have haddr : issue.addr = addr := by simpa using find?_some hfound
      rw [adoptRow, hfound]
      by_cases hmark : hasProvenance issue.body o.specId.text s.row = true
      · dsimp only
        rw [if_pos hmark]
        exact .inr ⟨rfl, rfl, fun _ ↦ .inl ⟨issue, hmem, hmark⟩⟩
      · dsimp only
        rw [if_neg hmark]
        exact .inl ⟨_, .adopted issue hmem, by rw [haddr]; rfl, by rw [haddr]; rfl⟩

theorem prefix_fileRow (existing : List Issue) (s : SliceStep) (f : Filing) :
    f.log <+: (fileRow gh o existing s f).1.log := by
  rcases fileRow_cases gh o existing s f with ⟨w, -, -, hlog⟩ | ⟨-, hlog, -⟩ <;> rw [hlog]
  · exact prefix_append _ _

theorem tracker_fileRow (existing : List Issue) (s : SliceStep) (h : f.tracker = run Tracker.apply t f.log) :
    (fileRow gh o existing s f).1.tracker = run Tracker.apply t (fileRow gh o existing s f).1.log := by
  rcases fileRow_cases gh o existing s f with ⟨w, -, htracker, hlog⟩ | ⟨htracker, hlog, -⟩ <;>
    rw [htracker, hlog, h]
  rw [run_concat]

theorem prefix_linkRow (parent : IssueAddr) (s : SliceStep) (f : Filing) : f.log <+: (linkRow parent s f).1.log := by
  unfold linkRow
  split
  · exact prefix_refl _
  · split
    · exact prefix_refl _
    · exact prefix_append _ _

theorem prefix_edgeTo (s : SliceStep) (issue : Issue) (n : String) (f : Filing) :
    f.log <+: (edgeTo s issue n f).1.log := by
  unfold edgeTo
  dsimp only
  split
  · exact prefix_refl _
  · split
    · exact prefix_refl _
    · exact prefix_append _ _

theorem prefix_edgeRow (s : SliceStep) (f : Filing) : f.log <+: (edgeRow gh s f).1.log := by
  unfold edgeRow
  split
  · exact prefix_refl _
  · split
    · exact prefix_refl _
    · next issue _ =>
      exact Loop.forEach_invariant (P := fun f' : Filing ↦ f.log <+: f'.log)
        (s := { f with blockers := (gh.listBlockedBy f.tracker issue.addr).map (·.id) })
        (fun n _ f' hf' ↦ hf'.trans (prefix_edgeTo s issue n f')) (prefix_refl _)

theorem prefix_linkRows (f : Filing) : f.log <+: (linkRows o steps f).1.log := by
  unfold linkRows
  split
  · exact prefix_refl _
  · exact Loop.forEach_invariant (P := fun f' : Filing ↦ f.log <+: f'.log)
      (fun s _ f' hf' ↦ hf'.trans (prefix_linkRow _ s f')) (prefix_refl _)

theorem prefix_rest (f : Filing) :
    f.log <+: (Loop.andThen (linkRows o steps) (Loop.forEach (edgeRow gh) steps) f).1.log :=
  Loop.andThen_invariant (P := fun f' : Filing ↦ f.log <+: f'.log) (fun hf ↦ hf.trans (prefix_linkRows f))
    (fun _ hf' ↦ Loop.forEach_invariant (P := fun f'' : Filing ↦ f.log <+: f''.log)
      (fun s _ f'' hf'' ↦ hf''.trans (prefix_edgeRow s f'')) hf') (prefix_refl _)

/-! ## A run that writes nothing -/

theorem marker_of_fileRow (hf : f.tracker = t) {f' : Filing}
    (hrun : fileRow gh o (considered gh o steps t) s f = (f', none)) (hlog : f.log = []) (hlog' : f'.log = []) :
    ∃ i ∈ t.issues, ∃ p ∈ provenances i.body, p.spec_id = o.specId.text ∧ p.row = s.row := by
  rcases fileRow_cases gh o (considered gh o steps t) s f with ⟨w, -, -, hgrown⟩ | ⟨-, -, hfound⟩
  · rw [hrun, hlog, hlog'] at hgrown
    exact absurd hgrown.symm (cons_ne_nil w [])
  · rw [hrun] at hfound
    rcases hfound rfl with ⟨issue, hmem, hmark⟩ | ⟨b, hprior⟩
    · obtain ⟨p, hp, hmatch⟩ := List.any_eq_true.mp hmark
      exact ⟨issue, hf ▸ hmem, p, hp, of_decide_eq_true hmatch⟩
    · obtain ⟨hb, hkey⟩ := of_priorIssue hprior
      obtain ⟨p, hp, hspec, hrow, -⟩ := mem_provenances_of_key hkey
      exact ⟨b, hb, p, hp, hspec, hrow⟩

/-- A run that completes without a write finds a marker of every row. -/
theorem marker_of_idle (hrun : (fileSlices gh o steps t).2 = none) (hlog : (fileSlices gh o steps t).1.log = [])
    (hs : s ∈ steps) :
    ∃ i ∈ t.issues, ∃ p ∈ provenances i.body, p.spec_id = o.specId.text ∧ p.row = s.row := by
  rcases hdangling : danglingAfter? steps with _ | e
  · rw [fileSlices, hdangling] at hrun hlog
    dsimp only [Loop.andThen] at hrun hlog
    rcases hrows : Loop.forEach (fileRow gh o (considered gh o steps t)) steps (startFiling gh o t) with ⟨f, stop⟩
    rw [hrows] at hrun hlog
    rcases stop with _ | stop
    · have hf : f.log = [] := prefix_nil.mp (hlog ▸ prefix_rest f)
      obtain ⟨-, hvisited⟩ := Loop.forEach_visited
        (P := fun f' ↦ f'.tracker = run Tracker.apply t f'.log) (Q := fun f' ↦ f'.log = [])
        (fun s _ f' hf' ↦ tracker_fileRow _ s hf')
        (fun s _ f' _ hlog' ↦ prefix_nil.mp (hlog' ▸ prefix_fileRow _ s f')) rfl hrows hf
      obtain ⟨f₀, f₁, htracker, hlog₀, hact, hlog₁⟩ := hvisited s hs
      rw [hlog₀, run_nil] at htracker
      exact marker_of_fileRow htracker hact hlog₀ hlog₁
    · cases hrun
  · rw [fileSlices, hdangling] at hrun
    cases hrun

/-! ## A row number that is printed with an exponent -/

/-- Every marker of the tracker has a row number in digits alone. -/
def PlainRows (t : Tracker) : Prop := ∀ i ∈ t.issues, ∀ p ∈ provenances i.body, Plain p.row

/-- What is printed for a row is its marker, if its number is printed in digits alone, and else none. -/
theorem plain_of_mem_provenances_marker (hspec : Unspaced o.specId.text)
    (hnumber : ∀ n, s.row = some n → JsNumber.toDouble n = n) {p : Provenance}
    (hp : p ∈ provenances (provenanceMarker o.specId.text s.row o.designHash.text ++ ['\n'])) : Plain p.row := by
  by_cases hrow : Plain s.row
  · rw [provenances_marker hspec o.specId.nonempty hrow hnumber o.designHash.hex o.designHash.nonempty,
      mem_singleton] at hp
    rw [hp]
    exact hrow
  · rw [provenances_marker_of_not_plain hspec hrow o.designHash.hex] at hp
    cases hp

theorem PlainRows.prints {w : Write} (h : PlainRows t) (hspec : Unspaced o.specId.text) (hs : RowChecked s)
    (hw : Prints o s t w) : PlainRows (t.apply w) := by
  intro i hi p hp
  rcases hw with ⟨issue, hmem⟩ | ⟨issue, hbody⟩
  · obtain ⟨j, hj, rfl⟩ := List.mem_map.mp hi
    split at hp
    · rw [provenances_adoptedBody _ hspec o.designHash.hex] at hp
      obtain hp | hp := mem_append.mp hp
      · exact h issue hmem p hp
      · exact plain_of_mem_provenances_marker hspec hs.number hp
    · exact h j hj p hp
  · obtain hi | hi := mem_append.mp hi
    · exact h i hi p hp
    · rw [mem_singleton.mp hi, hbody, provenances_issueBody hs hspec o.designHash.hex] at hp
      exact plain_of_mem_provenances_marker hspec hs.number hp

theorem issues_linkRow (parent : IssueAddr) (s : SliceStep) (f : Filing) :
    (linkRow parent s f).1.tracker.issues = f.tracker.issues := by
  unfold linkRow
  split
  · rfl
  · split <;> rfl

theorem issues_edgeTo (s : SliceStep) (issue : Issue) (n : String) (f : Filing) :
    (edgeTo s issue n f).1.tracker.issues = f.tracker.issues := by
  unfold edgeTo
  dsimp only
  split
  · rfl
  · split <;> rfl

theorem plainRows_edgeRow (s : SliceStep) (h : PlainRows f.tracker) : PlainRows (edgeRow gh s f).1.tracker := by
  unfold edgeRow
  split
  · exact h
  · split
    · exact h
    · next issue _ =>
      refine Loop.forEach_invariant (P := fun f' : Filing ↦ PlainRows f'.tracker) (fun n _ f' hf' ↦ ?_) h
      rw [PlainRows, issues_edgeTo]
      exact hf'

theorem plainRows_fileSlices (haccepted : Accepted steps) (hspec : Unspaced o.specId.text) (h : PlainRows t) :
    PlainRows (fileSlices gh o steps t).1.tracker := by
  have hfile : ∀ s ∈ steps, ∀ f : Filing, PlainRows f.tracker →
      PlainRows (fileRow gh o (considered gh o steps t) s f).1.tracker := by
    intro s hs f hf
    rcases fileRow_cases gh o (considered gh o steps t) s f with ⟨w, hw, htracker, -⟩ | ⟨htracker, -, -⟩ <;>
      rw [htracker]
    · exact hf.prints hspec (haccepted.checked s hs) hw
    · exact hf
  have hlink : ∀ f : Filing, PlainRows f.tracker → PlainRows (linkRows o steps f).1.tracker := by
    intro f hf
    unfold linkRows
    split
    · exact hf
    · refine Loop.forEach_invariant (P := fun f' : Filing ↦ PlainRows f'.tracker) (fun s _ f' hf' ↦ ?_) hf
      rw [PlainRows, issues_linkRow]
      exact hf'
  unfold fileSlices
  split
  · exact h
  · refine Loop.andThen_invariant (P := fun f' : Filing ↦ PlainRows f'.tracker)
      (fun hf ↦ Loop.forEach_invariant (P := fun f' : Filing ↦ PlainRows f'.tracker) hfile hf) (fun f hf ↦ ?_) h
    exact Loop.andThen_invariant (P := fun f' : Filing ↦ PlainRows f'.tracker) (fun hf ↦ hlink f hf)
      (fun f' hf' ↦ Loop.forEach_invariant (P := fun f' : Filing ↦ PlainRows f'.tracker)
        (fun s _ f'' hf'' ↦ plainRows_edgeRow s hf'') hf') hf

/-! ## A tracker to begin with -/

/-- The issues that a plan adopts, with nothing in them. -/
def adoptedIssues (steps : List SliceStep) : List Issue :=
  (steps.filterMap (·.adopts)).dedup.zipIdx.map fun e ↦ ⟨e.2, e.1, "", [], false⟩

def emptyTracker (steps : List SliceStep) : Tracker := ⟨adoptedIssues steps, [], []⟩

theorem body_of_mem_adoptedIssues {i : Issue} (h : i ∈ adoptedIssues steps) : i.body = [] := by
  obtain ⟨e, -, rfl⟩ := List.mem_map.mp h
  rfl

theorem consistent_emptyTracker (o : FileSlicesOptions) (steps : List SliceStep) :
    Consistent o steps (emptyTracker steps) := by
  have hids : (adoptedIssues steps).map (·.id) = List.range (steps.filterMap (·.adopts)).dedup.length := by
    rw [adoptedIssues, List.map_map, range_eq_range']
    exact zipIdx_map_snd 0 _
  have haddrs : (adoptedIssues steps).map (·.addr) = (steps.filterMap (·.adopts)).dedup := by
    rw [adoptedIssues, List.map_map]
    exact zipIdx_map_fst 0 _
  refine ⟨?_, ?_, fun s _ _ i hi _ _ hkey _ ↦ ?_, fun s hs addr hadopts ↦ ?_, ?_, ?_⟩
  · rw [emptyTracker, hids]
    exact nodup_range
  · rw [emptyTracker, haddrs]
    exact nodup_dedup _
  · obtain ⟨p, hp, -⟩ := mem_provenances_of_key hkey
    rw [body_of_mem_adoptedIssues hi] at hp
    cases hp
  · have hmem : addr ∈ (adoptedIssues steps).map (·.addr) := by
      rw [haddrs, mem_dedup]
      exact mem_filterMap.mpr ⟨s, hs, hadopts⟩
    exact List.mem_map.mp hmem
  · exact fun link hlink ↦ absurd hlink not_mem_nil
  · exact fun edge hedge ↦ absurd hedge not_mem_nil

theorem plainRows_emptyTracker (steps : List SliceStep) : PlainRows (emptyTracker steps) := by
  intro i hi p hp
  rw [body_of_mem_adoptedIssues hi] at hp
  cases hp

/-! ## Where filing is resumable -/

/-- Filing is resumable only where every row is recognised. -/
theorem recognised_of_resumes (haccepted : Accepted steps) (h : Resumes gh o steps (emptyTracker steps)) :
    Recognised o steps := by
  have hmarker : ∀ s ∈ steps, ∃ i ∈ (fileSlices gh o steps (emptyTracker steps)).1.tracker.issues,
      ∃ p ∈ provenances i.body, p.spec_id = o.specId.text ∧ p.row = s.row :=
    fun s hs ↦ marker_of_idle h.idle.1 h.idle.2 hs
  have hspec : Unspaced o.specId.text := by
    obtain ⟨s, hs⟩ := exists_mem_of_ne_nil steps haccepted.nonempty
    obtain ⟨i, -, p, hp, hspec, -⟩ := hmarker s hs
    exact hspec ▸ unspaced_of_mem_provenances hp
  refine ⟨hspec, fun s hs ↦ ?_, fun s hs n hn ↦ ?_⟩
  · obtain ⟨i, hi, p, hp, -, hrow⟩ := hmarker s hs
    exact hrow ▸ plainRows_fileSlices haccepted hspec (plainRows_emptyTracker steps) i hi p hp
  · -- a row that names no id is refused
    by_contra hnot
    have hcompletes := h.completes
    have hsome : (danglingAfter? steps).isSome := by
      rw [danglingAfter?, Option.isSome_map, find?_isSome]
      exact ⟨(s, n), mem_flatMap.mpr ⟨s, hs, List.mem_map_of_mem hn⟩, decide_eq_true hnot⟩
    obtain ⟨e, he⟩ := Option.isSome_iff_exists.mp hsome
    rw [fileSlices, he] at hcompletes
    cases hcompletes

/-- Filing an accepted table is resumable exactly if every row is recognised. -/
theorem resumable_iff (gh : GitHub) (o : FileSlicesOptions) (table : PlanTable) :
    Resumable gh o table.steps ↔ Recognised o table.steps := by
  constructor
  · intro h
    have hresumes := (h (emptyTracker table.steps) (consistent_emptyTracker o _) 0).2
    exact recognised_of_resumes table.accepted hresumes
  · exact resumable_of_recognised gh table.accepted

/-! ## A spec id with a space -/

def freshNumber (numbers : List ℕ) : ℕ := numbers.sum + 1

theorem freshNumber_notMem (numbers : List ℕ) : freshNumber numbers ∉ numbers := by
  intro h
  have hle := single_le_sum (fun n _ ↦ Nat.zero_le n) _ h
  rw [freshNumber] at hle
  omega

/-- A tracker that lists in the order of creation. -/
def plainGitHub : GitHub where
  allot t _ := (freshNumber (t.issues.map (·.id)), freshNumber (t.issues.map (·.addr.number.getD 0)))
  findFiled t repo _ := t.issues.filter (·.addr.repo = repo)
  listSubIssues t parent := t.issues.filter fun i ↦ (parent, i.id) ∈ t.children
  listBlockedBy t addr := t.issues.filter fun i ↦ (addr, i.id) ∈ t.blockedBy
  allot_id _ _ := freshNumber_notMem _
  allot_number t repo h := by
    obtain ⟨i, hi, haddr⟩ := List.mem_map.mp h
    have hnumber : i.addr.number.getD 0 = freshNumber (t.issues.map (·.addr.number.getD 0)) := by
      rw [haddr]
      rfl
    exact freshNumber_notMem (t.issues.map (·.addr.number.getD 0)) (List.mem_map.mpr ⟨i, hi, hnumber⟩)
  of_findFiled t repo _ i h := by simpa using h
  findFiled_of_mem t _ i hi _ := by simpa using hi
  mem_listSubIssues t parent i := by simp
  mem_listBlockedBy t addr i := by simp

def oneRowPlan : List Char :=
  ("## Plan\n\n| # | tier | step | repo | task_type | after |\n|---|---|---|---|---|---|\n"
    ++ "| 1 | 1 | write it down | amicode | plan | - |\n").toList

theorem oneRowPlan_isSome : (parsePlanTable oneRowPlan).toOption.isSome = true := by decide +kernel

/-- The spec id `my spec`. -/
def spacedOptions : FileSlicesOptions where
  specId := ⟨"my spec".toList, by decide +kernel, by decide +kernel⟩
  designHash := ⟨"ab".toList, by decide +kernel, by decide +kernel⟩
  prd := none

/-- The row is filed again on every run. -/
theorem not_resumable_spaced :
    ¬ ∀ (gh : GitHub) (o : FileSlicesOptions) (table : PlanTable), Resumable gh o table.steps := by
  intro h
  obtain ⟨steps, hsteps⟩ := Option.isSome_iff_exists.mp oneRowPlan_isSome
  have hparsed : parsePlanTable oneRowPlan = .ok steps := by
    rcases hparse : parsePlanTable oneRowPlan with e | steps'
    · rw [hparse] at hsteps
      cases hsteps
    · rw [hparse] at hsteps
      rw [Option.some.inj hsteps]
  have hresumes := (h plainGitHub spacedOptions ⟨oneRowPlan, steps, hparsed⟩ (emptyTracker steps)
    (consistent_emptyTracker _ _) 0).2
  have hspec : Unspaced "my spec".toList := (recognised_of_resumes (accepted_of_parsePlanTable hparsed) hresumes).spec
  have hspace : ' ' ∈ "my spec".toList := by decide +kernel
  exact absurd (hspec ' ' hspace) (by decide)

end Amicode.Plan
