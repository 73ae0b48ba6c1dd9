import Amicode.Foundation.TextOrder
import Amicode.Plan.Compile
import Amicode.Plan.Completion

/-!
# Every advisory is closed on its own

A plan declares an advisory for each that survived the review, under the id that the review wrote or else a number,
and a row of the ledger closes the advisories of its id. So every advisory is closed on its own exactly if the ids
are apart, and its state is that of the latest row exactly if the time stamps, compared as texts, name one
(`closedOnItsOwn_iff`).
-/

namespace Amicode.Plan

open RunLedger JsText List

/-! ## Ids -/

/-- The advisories that survived the review. -/
def survivors (spec : JsonValue) : List JsonValue :=
  match (spec.get? "review").bind fun review ↦ review.get? "advisories" with
  | some (.arr raw) => raw.filter fun a ↦
      match a with
      | .obj _ | .arr _ => true
      | _ => false
  | _ => []

/-- The id that the review wrote. -/
def authoredId (a : JsonValue) : Option String := ((a.get? "id").bind JsonValue.str?).filter (· ≠ "")

/-- The id of an advisory that the review left without one, by its place. -/
def numberedId (i : ℕ) : String := "adv-" ++ toString (i + 1)

variable (spec : JsonValue)

theorem length_advisoriesFrom : (advisoriesFrom spec).length = (survivors spec).length := by
  unfold advisoriesFrom survivors
  rcases (spec.get? "review").bind (fun review ↦ review.get? "advisories") with _ | v
  · rfl
  · rcases v with _ | _ | _ | _ | raw | _
    case arr => exact length_mapIdx
    all_goals rfl

theorem map_mapIdx {α β γ : Type*} (f : ℕ → α → β) (g : β → γ) (l : List α) :
    (l.mapIdx f).map g = l.mapIdx fun i a ↦ g (f i a) :=
  ext_getElem (by simp) (by simp)

theorem ids_advisoriesFrom : (advisoriesFrom spec).map Advisory.id
    = (survivors spec).mapIdx fun i a ↦ (authoredId a).getD (numberedId i) := by
  unfold advisoriesFrom survivors
  rcases (spec.get? "review").bind (fun review ↦ review.get? "advisories") with _ | v
  · rfl
  · rcases v with _ | _ | _ | _ | raw | _
    case arr => exact map_mapIdx _ _ _
    all_goals rfl

theorem numberedId_injective {i j : ℕ} (h : numberedId i = numberedId j) : i = j := by
  have htext : ∀ n, (toString n : String).toList = decimal n := fun n ↦ String.toList_ofList
  have hlist := congrArg String.toList h
  rw [numberedId, numberedId, String.toList_append, String.toList_append] at hlist
  have hdecimal := append_cancel_left hlist
  rw [htext, htext] at hdecimal
  have hvalue := congrArg decimal? hdecimal
  rw [decimal?_decimal, decimal?_decimal] at hvalue
  have hsucc := Option.some.inj hvalue
  omega

/-- The ids that the review wrote differ from each other, and from the numbers of the advisories without one. -/
def IdsApart (spec : JsonValue) : Prop :=
  ∀ i j (hi : i < (survivors spec).length) (hj : j < (survivors spec).length), i ≠ j →
    ∀ id, authoredId (survivors spec)[i] = some id →
      authoredId (survivors spec)[j] ≠ some id ∧ (authoredId (survivors spec)[j] = none → id ≠ numberedId j)

theorem nodup_ids_iff : ((advisoriesFrom spec).map Advisory.id).Nodup ↔ IdsApart spec := by
  rw [ids_advisoriesFrom, List.Nodup, pairwise_iff_getElem]
  simp only [length_mapIdx, getElem_mapIdx]
  constructor
  · intro h i j hi hj hij id hid
    have hne : (authoredId (survivors spec)[i]).getD (numberedId i)
        ≠ (authoredId (survivors spec)[j]).getD (numberedId j) := by
      rcases Nat.lt_or_gt_of_ne hij with hlt | hlt
      · exact h i j hi hj hlt
      · exact (h j i hj hi hlt).symm
    rw [hid, Option.getD_some] at hne
    refine ⟨fun hid' ↦ ?_, fun hnone ↦ ?_⟩
    · rw [hid'] at hne
      exact hne rfl
    · rwa [hnone] at hne
  · intro h i j hi hj hlt heq
    rcases hi' : authoredId (survivors spec)[i] with _ | id
    · rcases hj' : authoredId (survivors spec)[j] with _ | id'
      · -- two numbers
        rw [hi', hj'] at heq
        exact hlt.ne (numberedId_injective heq)
      · rw [hi', hj'] at heq
        exact (h j i hj hi hlt.ne' id' hj').2 hi' heq.symm
    · obtain ⟨hne, hnumber⟩ := h i j hi hj hlt.ne id hi'
      rcases hj' : authoredId (survivors spec)[j] with _ | id'
      · rw [hi', hj'] at heq
        exact hnumber hj' heq
      · rw [hi', hj'] at heq
        exact hne (hj'.trans (congrArg some heq.symm))

/-! ## The rows of an advisory -/

def rowsFor (records : List LedgerRecord) (planHash id : String) : List TodoRecord :=
  (planTodos records planHash).filter fun r ↦ r.id = id

/-- The row has the greatest time stamp as a text, and is the last of those. -/
def IsLastByText (rows : List TodoRecord) (r : TodoRecord) : Prop :=
  IsLastByKey (rows.map fun r ↦ (r.ts.toList, r)) (r.ts.toList, r)

variable {rows : List TodoRecord}

theorem isLastByText_of_latestTodo {id : String} {r : TodoRecord}
    (h : latestTodo rows id = some r) : IsLastByText (rows.filter fun r ↦ r.id = id) r := by
  rw [latestTodo, List.filter_map, getLast?_map] at h
  obtain ⟨⟨key, r'⟩, hlast, rfl⟩ := Option.map_eq_some_iff.mp h
  have hkey := isLastByKey_of_getLast? hlast
  rw [List.filter_map] at hkey
  obtain ⟨row, -, heq⟩ := List.mem_map.mp hkey.mem
  obtain ⟨rfl, rfl⟩ := Prod.mk.inj heq
  exact hkey

theorem isSome_latestTodo_iff {id : String} :
    (latestTodo rows id).isSome = true ↔ ∃ r ∈ rows, r.id = id := by
  rw [latestTodo, getLast?_isSome, ← length_pos_iff, length_pos_iff_exists_mem]
  simp only [mem_filter, ((perm_sortByKey _).map Prod.snd).mem_iff, List.map_map, decide_eq_true_eq]
  simp

/-- The row that decides is the last of those with the greatest time stamp as a text. -/
theorem latestTodo_eq_some_iff {id : String} {r : TodoRecord} :
    latestTodo rows id = some r ↔ IsLastByText (rows.filter fun r ↦ r.id = id) r := by
  refine ⟨isLastByText_of_latestTodo, fun h ↦ ?_⟩
  obtain ⟨row, hrow, heq⟩ := List.mem_map.mp (IsLastByKey.mem h)
  obtain ⟨hmem, hid⟩ := mem_filter.mp hrow
  obtain ⟨c, hc⟩ := Option.isSome_iff_exists.mp (isSome_latestTodo_iff.mpr ⟨row, hmem, of_decide_eq_true hid⟩)
  have hcr := IsLastByKey.unique (isLastByText_of_latestTodo hc) h
  rw [hc, (Prod.mk.inj hcr).2]

/-! ## Every advisory on its own -/

/-- The advisories as the plan file declares them. -/
def Advisory.shape (a : Advisory) : AdvisoryShape := ⟨a.id, a.lens, a.claim⟩

def withAdvisories (plan : PlanShape) (spec : JsonValue) : PlanShape :=
  { plan with advisories := (advisoriesFrom spec).map Advisory.shape }

section

variable {τ : Type*} [LE τ] (instant : String → τ)

/-- The row is of the latest instant among the rows. -/
def IsLatest (rows : List TodoRecord) (r : TodoRecord) : Prop := r ∈ rows ∧ ∀ r' ∈ rows, instant r'.ts ≤ instant r.ts

/-- Every advisory that survived is declared under an id of its own, is open unless a row names its id, and has the
state of a row of the latest instant; so a row closes one advisory. -/
structure ClosedOnItsOwn (plan : PlanShape) (spec : JsonValue) (records : List LedgerRecord) (replans : Option ℕ) :
    Prop where
  one_each : (advisoriesFrom spec).length = (survivors spec).length
  distinct : ((advisoriesFrom spec).map Advisory.id).Nodup
  open_iff : ∀ v ∈ (derivePlanState records (withAdvisories plan spec) replans).advisories,
    v.state = .open ↔ ∀ r ∈ planTodos records plan.plan_hash, r.id ≠ v.id
  latest : ∀ v ∈ (derivePlanState records (withAdvisories plan spec) replans).advisories, ∀ s, v.state = .closed s →
    ∃ r, IsLatest instant (rowsFor records plan.plan_hash v.id) r ∧ r.state = s
  single : ∀ r ∈ planTodos records plan.plan_hash,
    ((derivePlanState records (withAdvisories plan spec) replans).advisories.filter fun v ↦ v.id = r.id).length ≤ 1

/-- The row with the greatest time stamp as a text, the last of those, has the state of one of the latest instant. -/
def TextNamesLatest (rows : List TodoRecord) : Prop :=
  ∀ r, IsLastByText rows r → ∃ r', IsLatest instant rows r' ∧ r'.state = r.state

/-- The time stamps, as texts, name a latest row of every advisory. -/
def TextsName (plan : PlanShape) (spec : JsonValue) (records : List LedgerRecord) : Prop :=
  ∀ i (hi : i < (survivors spec).length), TextNamesLatest instant
    (rowsFor records plan.plan_hash ((authoredId (survivors spec)[i]).getD (numberedId i)))

theorem mem_advisories_iff {plan : PlanShape} {spec : JsonValue} {records : List LedgerRecord} {replans : Option ℕ}
    {v : AdvisoryView} : v ∈ (derivePlanState records (withAdvisories plan spec) replans).advisories ↔
      ∃ a ∈ advisoriesFrom spec, advisoryView a.shape (latestTodo (planTodos records plan.plan_hash) a.id) = v := by
  simp only [derivePlanState, deriveAdvisories, withAdvisories, List.map_map, List.mem_map, Function.comp_apply]
  rfl

theorem state_eq_open_iff {a : Advisory} {records : List LedgerRecord} {planHash : String} :
    (advisoryView a.shape (latestTodo (planTodos records planHash) a.id)).state = .open ↔
      ∀ r ∈ planTodos records planHash, r.id ≠ a.id := by
  have hsome : (latestTodo (planTodos records planHash) a.id).isSome = true
    ↔ ∃ r ∈ planTodos records planHash, r.id = a.id := isSome_latestTodo_iff
  rcases hrow : latestTodo (planTodos records planHash) a.id with _ | r
  · rw [hrow] at hsome
    refine iff_of_true rfl fun r hr hid ↦ ?_
    cases hsome.mpr ⟨r, hr, hid⟩
  · rw [hrow] at hsome
    obtain ⟨r', hr', hid⟩ := hsome.mp rfl
    exact iff_of_false nofun fun h ↦ h r' hr' hid

theorem ids_advisories (plan : PlanShape) (spec : JsonValue) (records : List LedgerRecord) (replans : Option ℕ) :
    (derivePlanState records (withAdvisories plan spec) replans).advisories.map AdvisoryView.id
      = (advisoriesFrom spec).map Advisory.id := by
  simp only [derivePlanState, deriveAdvisories, withAdvisories, List.map_map]
  rfl

theorem length_filter_id_le_one {views : List AdvisoryView} (h : (views.map AdvisoryView.id).Nodup) (id : String) :
    (views.filter fun v ↦ v.id = id).length ≤ 1 := by
  have hfiltered := h.sublist ((filter_sublist (p := fun v ↦ v.id = id)).map AdvisoryView.id)
  have hid : ∀ v ∈ views.filter fun v ↦ v.id = id, v.id = id := fun v hv ↦
    of_decide_eq_true (mem_filter.mp hv).2
  rcases hlist : views.filter fun v ↦ v.id = id with _ | ⟨v, _ | ⟨w, rest⟩⟩
  · rw [hlist]
    exact Nat.zero_le _
  · rw [hlist]
    exact Nat.le_refl _
  · -- two of the same id
    rw [hlist] at hfiltered hid
    have hv := hid v mem_cons_self
    have hw := hid w (mem_cons_of_mem _ mem_cons_self)
    exact absurd (mem_cons.mpr (.inl (hv.trans hw.symm))) (nodup_cons.mp hfiltered).1

/-- Every advisory is closed on its own exactly if the ids are apart and the time stamps name the latest rows. -/
theorem closedOnItsOwn_iff (plan : PlanShape) (spec : JsonValue) (records : List LedgerRecord) (replans : Option ℕ) :
    ClosedOnItsOwn instant plan spec records replans ↔ IdsApart spec ∧ TextsName instant plan spec records := by
  have hids : ∀ i (hi : i < (survivors spec).length), ∃ a ∈ advisoriesFrom spec,
      a.id = (authoredId (survivors spec)[i]).getD (numberedId i) := by
    intro i hi
    refine List.mem_map.mp (ids_advisoriesFrom spec ▸ List.mem_iff_getElem.mpr ⟨i, by simpa using hi, ?_⟩)
    rw [List.getElem_mapIdx]
  constructor
  · intro h
    refine ⟨(nodup_ids_iff spec).mp h.distinct, fun i hi ↦ ?_⟩
    obtain ⟨a, ha, hid⟩ := hids i hi
    rw [← hid]
    intro r hr
    have hlatest : latestTodo (planTodos records plan.plan_hash) a.id = some r := latestTodo_eq_some_iff.mpr hr
    refine h.latest _ (mem_advisories_iff.mpr ⟨a, ha, rfl⟩) r.state ?_
    rw [hlatest]
    rfl
  · rintro ⟨hapart, htexts⟩
    have hnodup := (nodup_ids_iff spec).mpr hapart
    refine ⟨length_advisoriesFrom spec, hnodup, fun v hv ↦ ?_, fun v hv s hs ↦ ?_, fun r _ ↦ ?_⟩
    · obtain ⟨a, -, rfl⟩ := mem_advisories_iff.mp hv
      exact state_eq_open_iff
    · obtain ⟨a, ha, rfl⟩ := mem_advisories_iff.mp hv
      obtain ⟨i, hi, hid⟩ := List.mem_iff_getElem.mp (ids_advisoriesFrom spec ▸ List.mem_map_of_mem (f := Advisory.id) ha)
      rw [List.length_mapIdx] at hi
      rw [List.getElem_mapIdx] at hid
      rcases hrow : latestTodo (planTodos records plan.plan_hash) a.id with _ | r
      · rw [hrow] at hs
        cases hs
      · rw [hrow] at hs
        obtain rfl := AdvisoryState.closed.inj hs
        have htext := htexts i hi
        rw [hid] at htext
        exact htext r (latestTodo_eq_some_iff.mp hrow)
    · exact length_filter_id_le_one ((ids_advisories plan spec records replans).symm ▸ hnodup) r.id

end

/-- A review that named its first advisory as the second one is numbered. -/
def collidingSpec : JsonValue :=
  .obj [("review", .obj [("advisories", .arr [.obj [("id", .str "adv-2")], .obj [("claim", .str "c")]])])]

def onePlan : PlanShape := { plan_hash := "p", steps := [], advisories := [], max_replans := none }

def fixedRow : LedgerRecord :=
  .todo { ts := "2026-01-01T00:00:00.000Z", plan_hash := "p", id := "adv-2", state := .fixed, reason := none,
          source := .user }

/-- One row closes two advisories. -/
theorem not_closedOnItsOwn_colliding : ¬ ClosedOnItsOwn (fun _ ↦ 0) onePlan collidingSpec [fixedRow] none := by
  intro h
  have hdistinct := h.distinct
  revert hdistinct
  decide +kernel

end Amicode.Plan
