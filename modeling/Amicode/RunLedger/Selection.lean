import Amicode.Foundation.FirstBest
import Amicode.RunLedger.Dispatch

/-!
# The selection does not depend on the order of the ledger

A cell is a function of the rows that the ledger has, in any order. The reduction over the sorted cells finds an
eligible cell that no other is before: by cost per success, then by cost, then by model.
-/

namespace Amicode.RunLedger

open FirstBest List Option

variable (localeCompare : String → String → Ordering)

/-! ## The two orders of cells -/

/-- A cost per success as a number, above all others where there is no success. -/
def toTop : Option ℚ → WithTop ℚ
  | some q => (q : WithTop ℚ)
  | none => ⊤

theorem costLt_iff {a b : Option ℚ} : costLt a b = true ↔ toTop a < toTop b := by
  rcases a with _ | a <;> rcases b with _ | b <;> simp [costLt, toTop]

/-- By cost per success, then by cost, then by model: the order of the reduction. -/
def compareCost (a b : DispatchCell) : Ordering :=
  (compare (toTop a.cost_per_success) (toTop b.cost_per_success)).then
    ((compare a.cost b.cost).then (localeCompare a.model b.model))

theorem betterCell_eq [Std.OrientedCmp localeCompare] (acc c : DispatchCell) :
    betterCell localeCompare acc c = if compareCost localeCompare c acc = .lt then c else acc := by
  unfold betterCell compareCost
  simp only [costLt_iff, then_eq_lt, compare_lt_iff_lt, compare_eq_iff_eq]
  by_cases hlt : toTop c.cost_per_success < toTop acc.cost_per_success
  · rw [if_pos hlt, if_pos (.inl hlt)]
  · rw [if_neg hlt]
    by_cases hgt : toTop acc.cost_per_success < toTop c.cost_per_success
    · rw [if_pos hgt, if_neg (by rintro (h | h); exacts [hlt h, hgt.ne' h.1])]
    · have heq := le_antisymm (not_lt.mp hgt) (not_lt.mp hlt)
      rw [if_neg hgt]
      by_cases hcost : c.cost = acc.cost
      · rw [if_neg (not_not.mpr hcost)]
        simp [hcost, heq]
      · rw [if_pos hcost]
        simp [hcost, heq]

theorem compareCells_eq (a b : DispatchCell) : compareCells localeCompare a b
    = (compare (toTop a.cost_per_success) (toTop b.cost_per_success)).then
      ((compare b.n a.n).then (localeCompare a.model b.model)) := by
  unfold compareCells
  simp only [costLt_iff]
  rcases lt_trichotomy (toTop a.cost_per_success) (toTop b.cost_per_success) with h | h | h
  · rw [if_pos h, compare_lt_iff_lt.mpr h]
    rfl
  · rw [if_neg h.not_lt, if_neg h.not_gt, compare_eq_iff_eq.mpr h]
    rfl
  · rw [if_neg h.not_gt, if_pos h, compare_gt_iff_gt.mpr h]
    rfl

instance transCmp_compareCost [Std.TransCmp localeCompare] : Std.TransCmp (compareCost localeCompare) := by
  have hper := transCmp_comap (compare : WithTop ℚ → WithTop ℚ → Ordering) fun c : DispatchCell ↦
    toTop c.cost_per_success
  have hcost := transCmp_comap (compare : ℚ → ℚ → Ordering) DispatchCell.cost
  have hmodel := transCmp_comap localeCompare DispatchCell.model
  have hrest := transCmp_then (fun a b : DispatchCell ↦ compare a.cost b.cost)
    fun a b ↦ localeCompare a.model b.model
  exact transCmp_then _ _

instance transCmp_compareCells [Std.TransCmp localeCompare] : Std.TransCmp (compareCells localeCompare) := by
  have hper := transCmp_comap (compare : WithTop ℚ → WithTop ℚ → Ordering) fun c : DispatchCell ↦
    toTop c.cost_per_success
  have hn := transCmp_comap (fun a b : ℕ ↦ compare b a) DispatchCell.n
  have hmodel := transCmp_comap localeCompare DispatchCell.model
  have hrest := transCmp_then (fun a b : DispatchCell ↦ compare b.n a.n)
    fun a b ↦ localeCompare a.model b.model
  rw [funext fun a ↦ funext fun b ↦ compareCells_eq localeCompare a b]
  exact transCmp_then _ _

theorem bestCell_eq [Std.OrientedCmp localeCompare] (cells : List DispatchCell) : bestCell localeCompare cells
    = firstBest (compareCost localeCompare) (cells.filter DispatchCell.eligible) := by
  simp only [bestCell, firstBest, betterCell_eq]

/-! ## Cells do not depend on the order of the rows -/

theorem numericStat_perm {a b : List ℚ} (h : a.Perm b) : numericStat a = numericStat b := by
  have hsort : a.insertionSort (· ≤ ·) = b.insertionSort (· ≤ ·) :=
    ((perm_insertionSort _ a).trans (h.trans (perm_insertionSort _ b).symm)).eq_of_pairwise'
      (pairwise_insertionSort _ a) (pairwise_insertionSort _ b)
  simp only [numericStat, hsort]

theorem eq_nil_iff_of_perm {α : Type*} {a b : List α} (h : a.Perm b) : a = [] ↔ b = [] := by
  rw [← length_eq_zero_iff, ← length_eq_zero_iff, h.length_eq]

theorem costFor_perm {rows rows' : List DispatchRecord} (h : rows.Perm rows') (model variant : String) :
    costFor rows model variant = costFor rows' model variant := by
  have hpriced := h.filter fun r ↦ 0 < r.tokens
  have hown := (hpriced.filter fun r ↦ r.model = model && r.variant = variant).map fun r ↦ (r.tokens : ℚ)
  have hmodel := (hpriced.filter fun r ↦ r.model = model).map fun r ↦ (r.tokens : ℚ)
  unfold costFor
  simp only [eq_nil_iff_of_perm hown]
  split_ifs
  · rw [numericStat_perm hmodel]
  · rw [numericStat_perm hown]

variable {key : DispatchKey} {firstAttempt firstAttempt' admissible admissible' : List DispatchRecord}

variable (key) in
theorem cellRows_perm (h : firstAttempt.Perm firstAttempt') (model variant : String) :
    (cellRows firstAttempt key model variant).1.Perm (cellRows firstAttempt' key model variant).1 ∧
      (cellRows firstAttempt key model variant).2 = (cellRows firstAttempt' key model variant).2 := by
  have hmine := h.filter fun r ↦ r.model = model && r.variant = variant
  have hprimary := hmine.filter fun r ↦ r.work_id = key.work_id
  have hfallback := hmine.filter fun r ↦ r.task_type = key.task_type
  simp only [cellRows, hprimary.length_eq, hfallback.length_eq]
  split_ifs
  · exact ⟨hfallback, rfl⟩
  · exact ⟨hprimary, rfl⟩

theorem cellFor_perm (hfirst : firstAttempt.Perm firstAttempt') (hadmissible : admissible.Perm admissible')
    (model variant : String) :
    cellFor firstAttempt admissible key model variant = cellFor firstAttempt' admissible' key model variant := by
  obtain ⟨hrows, hkey⟩ := cellRows_perm key hfirst model variant
  have hpass := (hrows.filter DispatchRecord.pass).length_eq
  simp only [cellFor, eq_nil_iff_of_perm hrows, hkey, hrows.length_eq, hpass, costFor_perm hadmissible]

theorem model_cellFor {model variant : String} {c : DispatchCell}
    (h : cellFor firstAttempt admissible key model variant = some c) : c.model = model ∧ c.variant = variant := by
  simp only [cellFor] at h
  split_ifs at h <;> cases h <;> exact ⟨rfl, rfl⟩

/-! ## The pairs of the rows -/

/-- The text that the source keys a model and a variant by. -/
def pairKey (e : String × String) : String := e.1 ++ "\x00" ++ e.2

/-- The model and variant of every row. -/
def rowPairs (firstAttempt : List DispatchRecord) (key : DispatchKey) : List (String × String) :=
  (firstAttempt.filter fun r ↦ key.variant.elim true fun variant ↦ r.variant = variant).map fun r ↦
    (r.model, r.variant)

theorem cellPairs_eq (firstAttempt : List DispatchRecord) (key : DispatchKey) : cellPairs firstAttempt key
    = (InsertionMap.empty.setAll ((rowPairs firstAttempt key).map fun e ↦ (pairKey e, e))).values := by
  rw [cellPairs, rowPairs, List.map_map]
  rfl

/-! ## The best cell -/

section

variable {localeCompare}

theorem mem_dispatchCells {c : DispatchCell} : c ∈ dispatchCells localeCompare admissible key ↔
    ∃ e ∈ cellPairs (firstAttempts admissible key) key,
      cellFor (firstAttempts admissible key) admissible key e.1 e.2 = some c := by
  rw [dispatchCells, mem_insertionSort, mem_filterMap]

theorem pairwise_dispatchCells [Std.TransCmp localeCompare] :
    (dispatchCells localeCompare admissible key).Pairwise fun a b ↦ compareCells localeCompare a b ≠ .gt := by
  have htotal : Std.Total fun a b ↦ compareCells localeCompare a b ≠ .gt := ⟨ne_gt_total⟩
  have htrans : IsTrans DispatchCell fun a b ↦ compareCells localeCompare a b ≠ .gt := ⟨fun _ _ _ ↦ ne_gt_trans⟩
  exact pairwise_insertionSort _ _

end

/-- A cell comes before another for every order of the rows: it is cheaper, or as good with more rows. -/
def Before (a b : DispatchCell) : Prop :=
  compareCost localeCompare a b = .lt ∨ compareCost localeCompare a b = .eq ∧ b.n < a.n

/-- The best of the sorted cells is none that another comes before. -/
theorem not_before_bestCell [Std.TransCmp localeCompare] {b c : DispatchCell}
    (hb : bestCell localeCompare (dispatchCells localeCompare admissible key) = some b)
    (hc : c ∈ dispatchCells localeCompare admissible key) (heligible : c.eligible = true) :
    ¬ Before localeCompare c b := by
  rw [bestCell_eq] at hb
  have hmem := mem_filter.mpr ⟨hc, heligible⟩
  rintro (hlt | ⟨htie, hn⟩)
  · exact not_lt_firstBest hb hmem hlt
  · obtain ⟨pre, post, hsplit, hpre, -⟩ := exists_of_firstBest hb
    have hsorted : ((dispatchCells localeCompare admissible key).filter DispatchCell.eligible).Pairwise fun a b ↦
        compareCells localeCompare a b ≠ .gt := pairwise_dispatchCells.sublist filter_sublist
    rw [hsplit] at hsorted hmem
    rcases mem_append.mp hmem with hmem | hmem
    · -- what precedes the best is strictly worse
      have hgt := Std.OrientedCmp.gt_iff_lt.mpr (hpre c hmem)
      rw [htie] at hgt
      cases hgt
    · rcases mem_cons.mp hmem with rfl | hmem
      · exact lt_irrefl _ hn
      · -- what follows the best has no more rows
        refine (pairwise_cons.mp (pairwise_append.mp hsorted).2.1).1 c hmem ?_
        rw [compareCost, then_eq_eq, compare_eq_iff_eq] at htie
        rw [compareCells_eq, htie.1, compare_gt_iff_gt.mpr hn, compare_eq_iff_eq.mpr rfl]
        rfl

/-! ## Every order of the ledger -/

/-- What of a selection is to be the same for every order of the rows. -/
structure Picked where
  model : String
  variant : String
  n : ℕ
  p : ℚ
  cost : ℚ
deriving DecidableEq

def DispatchSelection.picked (s : DispatchSelection) : Picked := ⟨s.model, s.variant, s.n, s.p, s.cost⟩

/-- The selection is an argmin, and the same for every order of the rows. -/
structure SelectionLaw (records : List LedgerRecord) (key : DispatchKey) (opts : DispatchOptions) : Prop where
  none_iff : (aggregateDispatch localeCompare records key opts).selection = none ↔
    ∀ c ∈ (aggregateDispatch localeCompare records key opts).cells, c.eligible = false
  best : ∀ s, (aggregateDispatch localeCompare records key opts).selection = some s →
    ∃ c ∈ (aggregateDispatch localeCompare records key opts).cells, c.eligible = true ∧ s = selectionOf c ∧
      ∀ d ∈ (aggregateDispatch localeCompare records key opts).cells, d.eligible = true →
        compareCost localeCompare d c ≠ .lt
  same : ∀ records', records.Perm records' →
    ((aggregateDispatch localeCompare records' key opts).selection).map (·.picked)
      = ((aggregateDispatch localeCompare records key opts).selection).map (·.picked)

/-- The cell of a model and variant. -/
def cellOf (records : List LedgerRecord) (key : DispatchKey) (opts : DispatchOptions) (e : String × String) :
    Option DispatchCell :=
  let admissible := admissibleRows records opts.include_simulated
  cellFor (firstAttempts admissible key) admissible key e.1 e.2

/-- The models and variants that the rows have. -/
def pairsOf (records : List LedgerRecord) (key : DispatchKey) (opts : DispatchOptions) : List (String × String) :=
  rowPairs (firstAttempts (admissibleRows records opts.include_simulated) key) key

/-- No cell is eligible, or one is that comes before every other, and whose model and variant are not keyed by the
text of others. -/
def Settled (records : List LedgerRecord) (key : DispatchKey) (opts : DispatchOptions) : Prop :=
  (∀ e ∈ pairsOf records key opts, ∀ c, cellOf records key opts e = some c → c.eligible = false) ∨
  ∃ e ∈ pairsOf records key opts, ∃ c, cellOf records key opts e = some c ∧ c.eligible = true ∧
    ∀ o ∈ pairsOf records key opts, o ≠ e → pairKey o ≠ pairKey e ∧
      ∀ d, cellOf records key opts o = some d → d.eligible = true → Before localeCompare c d

section

variable {localeCompare} {records records' : List LedgerRecord} {opts : DispatchOptions}

theorem admissibleRows_perm (h : records.Perm records') (includeSim : Bool) :
    (admissibleRows records includeSim).Perm (admissibleRows records' includeSim) :=
  (h.filterMap LedgerRecord.dispatch?).filter _

theorem firstAttempts_perm (h : records.Perm records') (includeSim : Bool) :
    (firstAttempts (admissibleRows records includeSim) key).Perm
      (firstAttempts (admissibleRows records' includeSim) key) :=
  ((admissibleRows_perm h includeSim).filter _).filter _

theorem cellOf_perm (h : records.Perm records') (e : String × String) :
    cellOf records key opts e = cellOf records' key opts e :=
  cellFor_perm (firstAttempts_perm h _) (admissibleRows_perm h _) e.1 e.2

theorem mem_pairsOf_perm (h : records.Perm records') {e : String × String} :
    e ∈ pairsOf records key opts ↔ e ∈ pairsOf records' key opts :=
  (((firstAttempts_perm h _).filter _).map _).mem_iff

theorem selection_eq : (aggregateDispatch localeCompare records key opts).selection
    = (bestCell localeCompare (aggregateDispatch localeCompare records key opts).cells).map selectionOf := rfl

variable {c : DispatchCell}

theorem mem_cells : c ∈ (aggregateDispatch localeCompare records key opts).cells ↔
    ∃ e ∈ (InsertionMap.empty.setAll ((pairsOf records key opts).map fun e ↦ (pairKey e, e))).values,
      cellOf records key opts e = some c := by
  rw [pairsOf, ← cellPairs_eq]
  exact mem_dispatchCells

theorem exists_pair_of_mem_cells
    (h : c ∈ (aggregateDispatch localeCompare records key opts).cells) :
    ∃ e ∈ pairsOf records key opts, cellOf records key opts e = some c := by
  obtain ⟨e, he, hc⟩ := mem_cells.mp h
  exact ⟨e, InsertionMap.mem_values_keyed pairKey he, hc⟩

theorem selection_eq_none_iff [Std.TransCmp localeCompare] :
    (aggregateDispatch localeCompare records key opts).selection = none ↔
      ∀ c ∈ (aggregateDispatch localeCompare records key opts).cells, c.eligible = false := by
  rw [selection_eq, map_eq_none_iff, bestCell_eq, firstBest_eq_none_iff, filter_eq_nil_iff]
  simp only [Bool.not_eq_true]

theorem exists_of_selection [Std.TransCmp localeCompare] {s : DispatchSelection}
    (h : (aggregateDispatch localeCompare records key opts).selection = some s) :
    ∃ c ∈ (aggregateDispatch localeCompare records key opts).cells, c.eligible = true ∧ s = selectionOf c ∧
      ∀ d ∈ (aggregateDispatch localeCompare records key opts).cells, d.eligible = true →
        compareCost localeCompare d c ≠ .lt := by
  rw [selection_eq, map_eq_some_iff] at h
  obtain ⟨c, hc, rfl⟩ := h
  rw [bestCell_eq] at hc
  obtain ⟨hmem, heligible⟩ := mem_filter.mp (mem_of_firstBest hc)
  exact ⟨c, hmem, heligible, rfl, fun d hd hde ↦ not_lt_firstBest hc (mem_filter.mpr ⟨hd, hde⟩)⟩

theorem selection_of_settled [Std.TransCmp localeCompare] {e : String × String}
    (he : e ∈ pairsOf records key opts) (hc : cellOf records key opts e = some c) (heligible : c.eligible = true)
    (hbefore : ∀ o ∈ pairsOf records key opts, o ≠ e → pairKey o ≠ pairKey e ∧
      ∀ d, cellOf records key opts o = some d → d.eligible = true → Before localeCompare c d) :
    (aggregateDispatch localeCompare records key opts).selection = some (selectionOf c) := by
  have hmem : c ∈ (aggregateDispatch localeCompare records key opts).cells :=
    mem_cells.mpr ⟨e, InsertionMap.mem_values_keyed_of_unique pairKey he fun o ho hkey ↦
      not_not.mp fun hne ↦ (hbefore o ho hne).1 hkey, hc⟩
  have hsome : (aggregateDispatch localeCompare records key opts).selection ≠ none := fun hnone ↦
    absurd (selection_eq_none_iff.mp hnone c hmem) (by rw [heligible]; exact Bool.noConfusion)
  obtain ⟨s, hs⟩ := ne_none_iff_exists'.mp hsome
  have hbest := hs
  rw [selection_eq, map_eq_some_iff] at hbest
  obtain ⟨b, hb, rfl⟩ := hbest
  have hbmem := (mem_filter.mp (mem_of_firstBest (bestCell_eq localeCompare _ ▸ hb)))
  obtain ⟨o, ho, hob⟩ := exists_pair_of_mem_cells hbmem.1
  by_cases hoe : o = e
  · subst hoe
    rw [hs, Option.some.inj (hob.symm.trans hc)]
  · exact absurd ((hbefore o ho hoe).2 b hob hbmem.2) (not_before_bestCell localeCompare hb hmem heligible)

end

/-! ## Where the order decides -/

section

variable {localeCompare} {records records' : List LedgerRecord} {opts : DispatchOptions}

/-- By cost per success, cost and model, and then with more rows first. -/
def compareBefore (localeCompare : String → String → Ordering) (a b : DispatchCell) : Ordering :=
  (compareCost localeCompare a b).then (compare b.n a.n)

instance transCmp_compareBefore [Std.TransCmp localeCompare] : Std.TransCmp (compareBefore localeCompare) := by
  have hn := transCmp_comap (fun a b : ℕ ↦ compare b a) DispatchCell.n
  exact transCmp_then _ _

theorem before_iff {a b : DispatchCell} : Before localeCompare a b ↔ compareBefore localeCompare a b = .lt := by
  rw [compareBefore, then_eq_lt, compare_lt_iff_lt]
  rfl

/-- The model and variant that a row counts for. -/
def pairOf? (key : DispatchKey) (opts : DispatchOptions) (r : LedgerRecord) : Option (String × String) :=
  ((((r.dispatch?.filter fun r ↦ refusal opts.include_simulated r = none).filter (inScope key)).filter fun r ↦
    r.attempt_index = 1).filter fun r ↦ key.variant.elim true fun variant ↦ r.variant = variant).map fun r ↦
      (r.model, r.variant)

theorem pairsOf_eq : pairsOf records key opts = records.filterMap (pairOf? key opts) := by
  simp only [pairsOf, rowPairs, firstAttempts, admissibleRows, filter_filterMap, map_filterMap]
  rfl

variable {e : String × String} {c : DispatchCell}

/-- In some order of the rows, a model and variant of theirs comes first. -/
theorem exists_order (he : e ∈ pairsOf records key opts) :
    ∃ records', records.Perm records' ∧ ∃ rest,
      (InsertionMap.empty.setAll ((pairsOf records' key opts).map fun e ↦ (pairKey e, e))).values = e :: rest := by
  simp only [pairsOf_eq] at he ⊢
  exact InsertionMap.exists_perm_values_keyed pairKey (pairOf? key opts) he

theorem pair_of_cellOf (h : cellOf records key opts e = some c) :
    (c.model, c.variant) = e := by
  obtain ⟨hmodel, hvariant⟩ := model_cellFor h
  rw [hmodel, hvariant]

theorem nodup_cells : (aggregateDispatch localeCompare records key opts).cells.Nodup := by
  refine (perm_insertionSort _ _).nodup_iff.mpr ?_
  rw [cellPairs_eq]
  refine Nodup.filterMap (fun e e' c hc hc' ↦ ?_) (InsertionMap.nodup_values_keyed pairKey _)
  exact (pair_of_cellOf hc).symm.trans (pair_of_cellOf hc')

theorem selection_of_first [Std.TransCmp localeCompare] {rest : List (String × String)}
    (hfirst : (InsertionMap.empty.setAll ((pairsOf records key opts).map fun e ↦ (pairKey e, e))).values = e :: rest)
    (hc : cellOf records key opts e = some c) (heligible : c.eligible = true)
    (hbest : ∀ o ∈ pairsOf records key opts, ∀ d, cellOf records key opts o = some d → d.eligible = true →
      ¬ Before localeCompare d c) :
    (aggregateDispatch localeCompare records key opts).selection = some (selectionOf c) := by
  have hcells : (aggregateDispatch localeCompare records key opts).cells
      = (c :: rest.filterMap (cellOf records key opts)).insertionSort fun a b ↦
        compareCells localeCompare a b ≠ .gt := by
    have hvalues := hfirst
    rw [pairsOf, ← cellPairs_eq] at hvalues
    change dispatchCells localeCompare (admissibleRows records opts.include_simulated) key = _
    rw [dispatchCells, hvalues]
    exact congrArg _ (filterMap_cons_some hc)
  have hmem : c ∈ (aggregateDispatch localeCompare records key opts).cells := by
    rw [hcells, mem_insertionSort]
    exact mem_cons_self
  have hsome : (aggregateDispatch localeCompare records key opts).selection ≠ none := fun hnone ↦
    absurd (selection_eq_none_iff.mp hnone c hmem) (by rw [heligible]; exact Bool.noConfusion)
  obtain ⟨s, hs⟩ := ne_none_iff_exists'.mp hsome
  rw [hs]
  rw [selection_eq, map_eq_some_iff] at hs
  obtain ⟨b, hb, rfl⟩ := hs
  by_cases hbc : b = c
  · rw [hbc]
  exfalso
  have hfirstBest := bestCell_eq localeCompare _ ▸ hb
  obtain ⟨hbmem, hbe⟩ := mem_filter.mp (mem_of_firstBest hfirstBest)
  obtain ⟨o, ho, hob⟩ := exists_pair_of_mem_cells hbmem
  -- the two are equal in every respect that the orders compare
  have htie : compareBefore localeCompare c b = .eq := by
    have hnot := hbest o ho b hob hbe
    have hnot' := not_before_bestCell localeCompare hb hmem heligible
    rw [before_iff] at hnot hnot'
    rcases hcompare : compareBefore localeCompare c b with _ | _ | _
    · exact absurd hcompare hnot'
    · rfl
    · exact absurd (Std.OrientedCmp.gt_iff_lt.mp hcompare) hnot
  rw [compareBefore, then_eq_eq] at htie
  have hcell : compareCells localeCompare c b = .eq := by
    have hcost := htie.1
    rw [compareCost, then_eq_eq, then_eq_eq] at hcost
    rw [compareCells_eq, hcost.1, htie.2, hcost.2.2]
    rfl
  -- so that the one of the first model and variant is still before the other
  have hsub : [c, b].Sublist
      ((aggregateDispatch localeCompare records key opts).cells.filter DispatchCell.eligible) := by
    have hb' : b ∈ rest.filterMap (cellOf records key opts) := by
      rw [hcells, mem_insertionSort] at hbmem
      exact (mem_cons.mp hbmem).resolve_left hbc
    have hsorted := pair_sublist_insertionSort (r := fun a b ↦ compareCells localeCompare a b ≠ .gt)
      (by rw [hcell]; exact Ordering.noConfusion) ((singleton_sublist.mpr hb').cons_cons c)
    rw [← hcells] at hsorted
    have hfiltered := hsorted.filter DispatchCell.eligible
    rwa [filter_cons_of_pos heligible, filter_cons_of_pos hbe, filter_nil] at hfiltered
  obtain ⟨pre, post, hsplit, hpre, -⟩ := exists_of_firstBest hfirstBest
  have hnodup : ((aggregateDispatch localeCompare records key opts).cells.filter DispatchCell.eligible).Nodup :=
    nodup_cells.filter _
  have hsplit' : (aggregateDispatch localeCompare records key opts).cells.filter DispatchCell.eligible
    = pre ++ b :: post := hsplit
  rw [hsplit'] at hsub hnodup
  have hpost : b ∉ post := (nodup_cons.mp (nodup_append.mp hnodup).2.1).1
  have hcpre : c ∉ pre := fun hcpre ↦ by
    have hlt := hpre c hcpre
    have hswap : compareCost localeCompare b c = (compareCost localeCompare c b).swap := Std.OrientedCmp.eq_swap
    rw [hswap, htie.1] at hlt
    cases hlt
  obtain ⟨front, back, hfb, hfront, hback⟩ := sublist_append_iff.mp hsub
  rcases front with _ | ⟨x, front⟩
  · rw [nil_append] at hfb
    rw [← hfb] at hback
    rcases sublist_cons_iff.mp hback with hback | ⟨l, hl, -⟩
    · exact hpost (hback.subset (by simp))
    · exact hbc (cons.inj hl).1.symm
  · obtain rfl : x = c := (cons.inj hfb).1.symm
    exact hcpre (hfront.subset mem_cons_self)

theorem exists_perm_selection [Std.TransCmp localeCompare]
    (he : e ∈ pairsOf records key opts) (hc : cellOf records key opts e = some c) (heligible : c.eligible = true)
    (hbest : ∀ o ∈ pairsOf records key opts, ∀ d, cellOf records key opts o = some d → d.eligible = true →
      ¬ Before localeCompare d c) :
    ∃ records', records.Perm records' ∧
      (aggregateDispatch localeCompare records' key opts).selection = some (selectionOf c) := by
  obtain ⟨records', hperm, rest, hfirst⟩ := exists_order he
  refine ⟨records', hperm, selection_of_first hfirst (cellOf_perm hperm e ▸ hc) heligible fun o ho d hd ↦ ?_⟩
  exact hbest o ((mem_pairsOf_perm hperm).mpr ho) d (cellOf_perm hperm o ▸ hd)

variable (localeCompare) in
theorem exists_perm_not_selected [Std.TransCmp localeCompare] {e o : String × String}
    (ho : o ∈ pairsOf records key opts) (hne : o ≠ e) (hkey : pairKey o = pairKey e) :
    ∃ records', records.Perm records' ∧ ∀ s, (aggregateDispatch localeCompare records' key opts).selection = some s →
      (s.model, s.variant) ≠ e := by
  obtain ⟨records', hperm, rest, hfirst⟩ := exists_order ho
  refine ⟨records', hperm, fun s hs ↦ ?_⟩
  rintro rfl
  obtain ⟨c, hc, -, rfl, -⟩ := exists_of_selection hs
  obtain ⟨e, he, hce⟩ := mem_cells.mp hc
  obtain rfl : (c.model, c.variant) = e := pair_of_cellOf hce
  -- both would be among the values, under one key
  have hnodup := (InsertionMap.empty.setAll ((pairsOf records' key opts).map fun e ↦ (pairKey e, e))).nodup
  have hkeys := InsertionMap.keys_keyed pairKey (pairsOf records' key opts)
  rw [InsertionMap.keys] at hkeys
  rw [hkeys] at hnodup
  have ho' : o ∈ (InsertionMap.empty.setAll ((pairsOf records' key opts).map fun e ↦ (pairKey e, e))).values := by
    rw [hfirst]
    exact mem_cons_self
  exact hne (inj_on_of_nodup_map hnodup ho' he hkey)

variable (localeCompare) in
theorem exists_best [Std.TransCmp localeCompare]
    (he : e ∈ pairsOf records key opts) (hc : cellOf records key opts e = some c) (heligible : c.eligible = true) :
    ∃ e ∈ pairsOf records key opts, ∃ c, cellOf records key opts e = some c ∧ c.eligible = true ∧
      ∀ o ∈ pairsOf records key opts, ∀ d, cellOf records key opts o = some d → d.eligible = true →
        ¬ Before localeCompare d c := by
  have hmem : c ∈ ((pairsOf records key opts).filterMap (cellOf records key opts)).filter DispatchCell.eligible :=
    mem_filter.mpr ⟨mem_filterMap.mpr ⟨e, he, hc⟩, heligible⟩
  have hsome : firstBest (compareBefore localeCompare)
      (((pairsOf records key opts).filterMap (cellOf records key opts)).filter DispatchCell.eligible) ≠ none :=
    mt firstBest_eq_none_iff.mp (ne_nil_of_mem hmem)
  obtain ⟨b, hb⟩ := ne_none_iff_exists'.mp hsome
  obtain ⟨hbmem, hbe⟩ := mem_filter.mp (mem_of_firstBest hb)
  obtain ⟨o, ho, hob⟩ := mem_filterMap.mp hbmem
  refine ⟨o, ho, b, hob, hbe, fun o' ho' d hd hde ↦ ?_⟩
  rw [before_iff]
  exact not_lt_firstBest hb (mem_filter.mpr ⟨mem_filterMap.mpr ⟨o', ho', hd⟩, hde⟩)

theorem picked_eq {c d : DispatchCell} (h : (selectionOf c).picked = (selectionOf d).picked) :
    (c.model, c.variant) = (d.model, d.variant) := by
  simp only [DispatchSelection.picked, selectionOf, Picked.mk.injEq] at h
  rw [h.1, h.2.1]

theorem Settled.same [Std.TransCmp localeCompare] (h : Settled localeCompare records key opts)
    (hperm : records.Perm records') : (aggregateDispatch localeCompare records' key opts).selection
      = (aggregateDispatch localeCompare records key opts).selection := by
  rcases h with hnone | ⟨e, he, c, hc, heligible, hbefore⟩
  · have hno : ∀ rows, records.Perm rows → (aggregateDispatch localeCompare rows key opts).selection = none := by
      refine fun rows hrows ↦ selection_eq_none_iff.mpr fun c hc ↦ ?_
      obtain ⟨e, he, hce⟩ := exists_pair_of_mem_cells hc
      exact hnone e ((mem_pairsOf_perm hrows).mpr he) c (cellOf_perm hrows e ▸ hce)
    rw [hno records' hperm, hno records (Perm.refl _)]
  · rw [selection_of_settled he hc heligible hbefore]
    simp only [mem_pairsOf_perm hperm, cellOf_perm hperm] at he hc hbefore
    exact selection_of_settled he hc heligible hbefore

theorem settled_of_same [Std.TransCmp localeCompare] (h : SelectionLaw localeCompare records key opts) :
    Settled localeCompare records key opts := by
  by_contra hnot
  rw [Settled, not_or] at hnot
  obtain ⟨hsome, hnot⟩ := hnot
  push Not at hsome hnot
  obtain ⟨e, he, c, hc, heligible⟩ := hsome
  obtain ⟨e, he, c, hc, heligible, hbest⟩ :=
    exists_best localeCompare he hc (Bool.eq_true_of_not_eq_false heligible)
  obtain ⟨records', hperm, hselected⟩ := exists_perm_selection he hc heligible hbest
  have hpicked := h.same records' hperm
  rw [hselected] at hpicked
  obtain ⟨o, ho, hne, hshared⟩ := hnot e he c hc heligible
  by_cases hkey : pairKey o = pairKey e
  · -- the other model and variant takes the place of this one
    obtain ⟨rows, hrows, hout⟩ := exists_perm_not_selected localeCompare ho hne hkey
    have hsame := (h.same rows hrows).trans hpicked.symm
    obtain ⟨s, hs, hspicked⟩ := map_eq_some_iff.mp hsame
    refine hout s hs ?_
    rw [← pair_of_cellOf hc]
    simp only [DispatchSelection.picked, selectionOf, Picked.mk.injEq] at hspicked
    rw [hspicked.1, hspicked.2.1]
  · -- the other cell is as good, and another order selects it
    obtain ⟨d, hd, hde, hdbefore⟩ := hshared hkey
    have hbest' : ∀ o ∈ pairsOf records key opts, ∀ x, cellOf records key opts o = some x → x.eligible = true →
        ¬ Before localeCompare x d := by
      intro o' ho' x hx hxe hbefore
      refine hbest o' ho' x hx hxe ?_
      rw [before_iff] at hbefore hdbefore ⊢
      exact lt_of_not_lt hbefore hdbefore
    obtain ⟨rows, hrows, hother⟩ := exists_perm_selection ho hd hde hbest'
    have hsame := (h.same rows hrows).trans hpicked.symm
    rw [hother, map_some, map_some, Option.some.injEq] at hsame
    have hpair := picked_eq hsame
    rw [pair_of_cellOf hc, pair_of_cellOf hd] at hpair
    exact hne hpair

end

/-- The selection is an argmin that does not depend on the order of the rows exactly if it is settled. -/
theorem selectionLaw_iff [Std.TransCmp localeCompare] (records : List LedgerRecord) (key : DispatchKey)
    (opts : DispatchOptions) :
    SelectionLaw localeCompare records key opts ↔ Settled localeCompare records key opts :=
  ⟨settled_of_same, fun h ↦ ⟨selection_eq_none_iff, fun _ ↦ exists_of_selection,
    fun _ hperm ↦ congrArg _ (h.same hperm)⟩⟩

/-- A passed first attempt at a task, with a variant. -/
def attemptOf (variant : String) : LedgerRecord :=
  .dispatch
    { ts := "", task_type := "plan", work_id := "w", model := "m", variant, gate := "", pass := true, tokens := 0
      attempt_index := 1, source := .user, plan_hash := none, step_id := none }

def planKey : DispatchKey := ⟨"w", "plan", none, none⟩

/-- With one variant the selection is settled. -/
theorem selectionLaw_oneVariant : SelectionLaw compare [attemptOf "low", attemptOf "low"] planKey ⟨false, none⟩ := by
  refine (selectionLaw_iff compare _ _ _).mpr (.inr ⟨("m", "low"), by decide +kernel, ?_⟩)
  obtain ⟨c, hc, heligible⟩ := (Option.any_eq_true DispatchCell.eligible
    (cellOf [attemptOf "low", attemptOf "low"] planKey ⟨false, none⟩ ("m", "low"))).mp (by decide +kernel)
  refine ⟨c, hc, heligible, fun o ho hne ↦ absurd ?_ hne⟩
  revert o
  decide +kernel

/-- Two variants of a model that are as good: the first row decides. -/
theorem not_selectionLaw_twoVariants : ¬ SelectionLaw compare
    [attemptOf "low", attemptOf "low", attemptOf "high", attemptOf "high"] planKey ⟨false, none⟩ := by
  intro h
  have hperm : ([attemptOf "low", attemptOf "low"] ++ [attemptOf "high", attemptOf "high"]).Perm
      ([attemptOf "high", attemptOf "high"] ++ [attemptOf "low", attemptOf "low"]) := List.perm_append_comm
  have hsame := h.same _ hperm
  revert hsame
  decide +kernel

end Amicode.RunLedger
