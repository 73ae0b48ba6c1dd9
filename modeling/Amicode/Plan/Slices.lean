import Amicode.Foundation.Loop
import Amicode.Plan.SliceMarker

/-!
# Filing a plan as issues

`fileSlices` files an issue for each row of a plan table, links the issues under a parent, and sets the edges of
the table between them (`spec_slices.ts`). Before it writes, it looks for what is there: the issues that carry a
marker of the spec, the children of the parent, the blockers of each issue.

GitHub is a parameter: which id and number an issue gets, and in which order things are listed. A run is a log of
writes to the tracker. Every call of GitHub can fail and ends the run there, so what a run that fails has done is a
beginning of its log (`interrupted`).
-/

namespace Amicode.Plan

/-! ## The tracker -/

structure Issue where
  /-- The numeric id, not the number. -/
  id : ℕ
  addr : IssueAddr
  title : String
  body : List Char
  closed : Bool

structure Tracker where
  issues : List Issue
  /-- A parent, and the id of a sub-issue. -/
  children : List (IssueAddr × ℕ)
  /-- An issue, and the id of one that blocks it. -/
  blockedBy : List (IssueAddr × ℕ)

inductive Write
  | createIssue (issue : Issue)
  | editIssueBody (addr : IssueAddr) (body : List Char)
  | addSubIssue (parent : IssueAddr) (childId : ℕ)
  | addBlockedBy (issue : IssueAddr) (blockerId : ℕ)

def Tracker.apply (t : Tracker) : Write → Tracker
  | .createIssue issue => { t with issues := t.issues ++ [issue] }
  | .editIssueBody addr body =>
    { t with issues := t.issues.map fun i ↦ if i.addr = addr then { i with body := body } else i }
  | .addSubIssue parent childId => { t with children := t.children ++ [(parent, childId)] }
  | .addBlockedBy issue blockerId => { t with blockedBy := t.blockedBy ++ [(issue, blockerId)] }

/-- What GitHub answers. An issue that is created gets an id and a number that no issue has, and the listings
reflect what is there: the search finds the issues whose body has a marker of the spec, among others. -/
structure GitHub where
  allot : Tracker → String → ℕ × ℕ
  findFiled : Tracker → String → List Char → List Issue
  listSubIssues : Tracker → IssueAddr → List Issue
  listBlockedBy : Tracker → IssueAddr → List Issue
  allot_id : ∀ (t : Tracker) (repo : String), (allot t repo).1 ∉ t.issues.map (·.id)
  allot_number : ∀ (t : Tracker) (repo : String), IssueAddr.mk repo (some (allot t repo).2) ∉ t.issues.map (·.addr)
  of_findFiled : ∀ t repo specId, ∀ i ∈ findFiled t repo specId, i ∈ t.issues ∧ i.addr.repo = repo
  findFiled_of_mem : ∀ t specId, ∀ i ∈ t.issues, (∃ p ∈ provenances i.body, p.spec_id = specId) →
    i ∈ findFiled t i.addr.repo specId
  mem_listSubIssues : ∀ t parent i, i ∈ listSubIssues t parent ↔ i ∈ t.issues ∧ (parent, i.id) ∈ t.children
  mem_listBlockedBy : ∀ t addr i, i ∈ listBlockedBy t addr ↔ i ∈ t.issues ∧ (addr, i.id) ∈ t.blockedBy

/-! ## Reports -/

structure SlicesPlanRow where
  row : Option ℕ
  tier : Option ℕ
  repo : String
  title : String
  task_type : String
  after : List (Option ℕ)
  adopts : Option String

structure SlicesEdge where
  row : Option ℕ
  blocked_by : Option ℕ

inductive RowStatus
  | created
  | existing
  | adopted
  deriving DecidableEq, Repr

structure SlicesRowReport extends SlicesPlanRow where
  status : RowStatus
  issue : IssueAddr
  /-- Of an issue that is adopted. -/
  closed : Option Bool
  /-- The issue that was filed for the row before it adopted another. -/
  superseded : Option IssueAddr

structure SlicesReport where
  rows : List SlicesRowReport
  edges : List (SlicesEdge × RowStatus)
  created_issues : ℕ
  created_edges : ℕ
  created_sub_issues : ℕ
  adopted_issues : ℕ
  edited_bodies : ℕ

def emptySlicesReport : SlicesReport := ⟨[], [], 0, 0, 0, 0, 0⟩

def sliceRepo (s : SliceStep) : String := SLICES_ORG ++ "/" ++ s.repo

def planRow (s : SliceStep) : SlicesPlanRow where
  row := s.row
  tier := s.tier
  repo := sliceRepo s
  title := s.title
  task_type := s.task_type
  after := (s.needs.getD []).map fun n ↦ JsNumber.number n.toList
  adopts := s.adopts.map fun addr ↦ addr.repo ++ "#" ++ rowText addr.number

def planRepos (steps : List SliceStep) : List String := (steps.map sliceRepo).eraseDups

/-! ## A run -/

structure FileSlicesOptions where
  specId : SpecId
  designHash : DesignHash
  prd : Option Prd

/-- How far a run is. -/
structure Filing where
  tracker : Tracker
  log : List Write
  byRow : InsertionMap (Option ℕ) Issue
  /-- The sub-issues of the parent. -/
  linked : List ℕ
  /-- The blockers of the issue whose edges are being set. -/
  blockers : List ℕ
  report : SlicesReport

/-- What ends a run early, apart from GitHub failing. -/
inductive Stop
  | planTable (e : PlanTableError)
  | notFound (addr : IssueAddr)
  | noIssue (row : Option ℕ)

def Filing.write (f : Filing) (w : Write) : Filing := { f with tracker := f.tracker.apply w, log := f.log ++ [w] }

def Filing.reportRow (f : Filing) (row : SlicesRowReport) : Filing :=
  { f with report := { f.report with rows := f.report.rows ++ [row] } }

def Filing.reportEdge (f : Filing) (edge : SlicesEdge × RowStatus) : Filing :=
  { f with report := { f.report with edges := f.report.edges ++ [edge] } }

/-- The row and the repository an issue is found under: by the first marker of its body, if that is of the spec. -/
def issueKey (specId : List Char) (i : Issue) : Option (Option ℕ × String) :=
  match parseProvenance i.body with
  | some p => if p.spec_id = specId then some (p.row, i.addr.repo) else none
  | none => none

def rowKey (s : SliceStep) : Option ℕ × String := (s.row, sliceRepo s)

/-- The issues considered, in order; the first of a row and a repository is taken. -/
def considered (gh : GitHub) (o : FileSlicesOptions) (steps : List SliceStep) (t : Tracker) : List Issue :=
  (o.prd.elim [] fun prd ↦ gh.listSubIssues t prd.addr)
    ++ (planRepos steps).flatMap fun repo ↦ gh.findFiled t repo o.specId.text

def priorIssue (o : FileSlicesOptions) (existing : List Issue) (s : SliceStep) : Option Issue :=
  existing.find? fun i ↦ issueKey o.specId.text i = some (rowKey s)

def adoptRow (o : FileSlicesOptions) (prior : Option Issue) (s : SliceStep) (addr : IssueAddr) (f : Filing) :
    Filing × Option Stop :=
  match f.tracker.issues.find? (·.addr = addr) with
  | none => (f, some (.notFound addr))
  | some issue =>
    let marked :=
      if hasProvenance issue.body o.specId.text s.row then f
      else
        let edited := f.write (.editIssueBody addr (adoptedBody issue.body s o.specId.text o.designHash.text))
        { edited with report := { edited.report with edited_bodies := edited.report.edited_bodies + 1 } }
    let counted := { marked with
      byRow := marked.byRow.set s.row issue
      report := { marked.report with adopted_issues := marked.report.adopted_issues + 1 } }
    (counted.reportRow { planRow s with
      status := .adopted
      issue := issue.addr
      closed := some issue.closed
      superseded := (prior.filter (·.id ≠ issue.id)).map (·.addr) }, none)

def ownRow (gh : GitHub) (o : FileSlicesOptions) (prior : Option Issue) (s : SliceStep) (f : Filing) : Filing :=
  match prior with
  | some issue =>
    { f with byRow := f.byRow.set s.row issue }.reportRow { planRow s with
      status := .existing
      issue := issue.addr
      closed := none
      superseded := none }
  | none =>
    let ids := gh.allot f.tracker (sliceRepo s)
    let issue : Issue := {
      id := ids.1
      addr := ⟨sliceRepo s, some ids.2⟩
      title := s.title
      body := issueBody s o.specId.text o.designHash.text (o.prd.map (·.addr))
      closed := false }
    let created := f.write (.createIssue issue)
    { created with
      byRow := created.byRow.set s.row issue
      report := { created.report with created_issues := created.report.created_issues + 1 } }.reportRow
        { planRow s with
          status := .created
          issue := issue.addr
          closed := none
          superseded := none }

def fileRow (gh : GitHub) (o : FileSlicesOptions) (existing : List Issue) (s : SliceStep) (f : Filing) :
    Filing × Option Stop :=
  match s.adopts with
  | some addr => adoptRow o (priorIssue o existing s) s addr f
  | none => (ownRow gh o (priorIssue o existing s) s f, none)

def linkRow (prd : IssueAddr) (s : SliceStep) (f : Filing) : Filing × Option Stop :=
  match f.byRow.get? s.row with
  | none => (f, some (.noIssue s.row))
  | some child =>
    if child.id ∈ f.linked then (f, none)
    else
      let written := f.write (.addSubIssue prd child.id)
      ({ written with
        linked := written.linked ++ [child.id]
        report := { written.report with created_sub_issues := written.report.created_sub_issues + 1 } }, none)

/-- Set the edge from the issue of a row to the issue of a row it is after. -/
def edgeTo (s : SliceStep) (issue : Issue) (n : String) (f : Filing) : Filing × Option Stop :=
  let number := JsNumber.number n.toList
  match f.byRow.get? number with
  | none => (f, some (.noIssue number))
  | some blocker =>
    if blocker.id ∈ f.blockers then (f.reportEdge (⟨s.row, number⟩, .existing), none)
    else
      let written := f.write (.addBlockedBy issue.addr blocker.id)
      let counted := { written with
        blockers := written.blockers ++ [blocker.id]
        report := { written.report with created_edges := written.report.created_edges + 1 } }
      (counted.reportEdge (⟨s.row, number⟩, .created), none)

def edgeRow (gh : GitHub) (s : SliceStep) (f : Filing) : Filing × Option Stop :=
  match s.needs.getD [] with
  | [] => (f, none)
  | needs =>
    match f.byRow.get? s.row with
    | none => (f, some (.noIssue s.row))
    | some issue =>
      Loop.forEach (edgeTo s issue) needs
        { f with blockers := (gh.listBlockedBy f.tracker issue.addr).map (·.id) }

/-- The first row that is after a row that is not being filed. -/
def danglingAfter? (steps : List SliceStep) : Option PlanTableError :=
  (steps.flatMap fun s ↦ (s.needs.getD []).map fun n ↦ (s, n)).find? (fun e ↦ e.2 ∉ steps.map (·.id))
    |>.map fun e ↦ ⟨.danglingAfter,
      "row " ++ rowText e.1.row ++ ": after names row " ++ e.2 ++ ", which is not being filed"⟩

def startFiling (gh : GitHub) (o : FileSlicesOptions) (t : Tracker) : Filing where
  tracker := t
  log := []
  byRow := ∅
  linked := (o.prd.elim [] fun prd ↦ gh.listSubIssues t prd.addr).map (·.id)
  blockers := []
  report := emptySlicesReport

def linkRows (o : FileSlicesOptions) (steps : List SliceStep) (f : Filing) : Filing × Option Stop :=
  match o.prd with
  | none => (f, none)
  | some prd => Loop.forEach (linkRow prd.addr) steps f

def fileSlices (gh : GitHub) (o : FileSlicesOptions) (steps : List SliceStep) (t : Tracker) :
    Filing × Option Stop :=
  match danglingAfter? steps with
  | some e => (startFiling gh o t, some (.planTable e))
  | none =>
    Loop.andThen (Loop.forEach (fileRow gh o (considered gh o steps t)) steps)
      (Loop.andThen (linkRows o steps) (Loop.forEach (edgeRow gh) steps)) (startFiling gh o t)

/-- The tracker after a run from `t` that fails at a call after `k` writes. -/
def interrupted (gh : GitHub) (o : FileSlicesOptions) (steps : List SliceStep) (t : Tracker) (k : ℕ) : Tracker :=
  StepMachine.run Tracker.apply t ((fileSlices gh o steps t).1.log.take k)

end Amicode.Plan
