import Amicode.Hashing.Completeness
import Amicode.Hashing.ProblemSpec

/-!
# The projections of a spec cohere

What a rule makes of a field, it keeps (`Rule.Stable`), so that a dictionary is kept by its own rules
(`dict_of_dict`). Every field that `structureFields` reads is one that `fullDict` keeps.
-/

namespace Amicode.Hashing

open JsonTree JsData List Option

variable {ν : Type} {N : Numbers ν} {lit : ℚ → ν}

@[simp] theorem get_obj (v : JsData ν) (key : String) : (obj v).get key = v.get key := by
  unfold obj JsData.orElse
  split
  · rename_i h
    cases v <;> first | rfl | cases h
  · rfl

@[simp] theorem text_str (s : Text) : text N (.str s) = some (.str s) := rfl

@[simp] theorem orElse_str (s : Text) (w : JsData ν) : (JsData.str s).orElse w = .str s := rfl

theorem exists_of_text {v w : JsData ν} (h : text N v = some w) : ∃ s, toText? N v = some s ∧ w = .str s := by
  obtain ⟨s, hs, rfl⟩ := map_eq_some_iff.mp h
  exact ⟨s, hs, rfl⟩

/-! ## Dictionaries -/

/-- What is left out, read: `undefined`. -/
def orUndefined (w : Option (JsData ν)) : JsData ν := w.getD .undefined

theorem own_cons (e : Text × JsData ν) (members : List (Text × JsData ν)) (key : Text) :
    own (e :: members) key = if e.1 = key then e.2 else own members key := by
  rw [own, find?_cons]
  by_cases h : e.1 = key
  · simp [h]
  · simp [h, own]

variable {members : List (Text × JsData ν)}

theorem own_of_notMem {key : Text} (h : key ∉ members.map Prod.fst) :
    own members key = .undefined := by
  by_contra hne
  exact h (List.mem_map.mpr ⟨_, mem_own rfl hne, rfl⟩)

def keysOf (rules : List (String × Rule ν)) : List Text := rules.map fun r ↦ ascii r.1

variable {rules : List (String × Rule ν)} {v : JsData ν}

theorem keys_fields (h : fields rules v = some members) : (members.map Prod.fst).Sublist (keysOf rules) := by
  induction rules generalizing members with
  | nil =>
    obtain rfl := Option.some.inj h
    exact .slnil
  | cons r rules ih =>
    obtain ⟨key, rule⟩ := r
    simp only [fields, bind, pure, bind_eq_some_iff, Option.some.injEq] at h
    obtain ⟨field, -, rest, hrest, rfl⟩ := h
    rcases field with _ | w
    · exact (ih hrest).cons _
    · exact (ih hrest).cons_cons _

theorem own_of_fields (hnodup : (keysOf rules).Nodup)
    (h : fields rules v = some members) {key : String} {rule : Rule ν} (hmem : (key, rule) ∈ rules) :
    ∃ w, rule (v.get key) = some w ∧ own members (ascii key) = orUndefined w := by
  induction rules generalizing members with
  | nil => cases hmem
  | cons r rules ih =>
    obtain ⟨key', rule'⟩ := r
    simp only [fields, bind, pure, bind_eq_some_iff, Option.some.injEq] at h
    obtain ⟨field, hfield, rest, hrest, rfl⟩ := h
    obtain ⟨hnot, hnodup⟩ := nodup_cons.mp hnodup
    rcases mem_cons.mp hmem with heq | hmem
    · obtain ⟨rfl, rfl⟩ := Prod.mk.inj heq
      refine ⟨field, hfield, ?_⟩
      rcases field with _ | w
      · exact own_of_notMem fun hkey ↦ hnot ((keys_fields hrest).subset hkey)
      · exact (own_cons _ _ _).trans (if_pos rfl)
    · obtain ⟨w, hw, hown⟩ := ih hnodup hrest hmem
      refine ⟨w, hw, ?_⟩
      rcases field with _ | w'
      · exact hown
      · have hne : ascii key' ≠ ascii key := fun heq ↦ hnot (List.mem_map.mpr ⟨_, hmem, heq.symm⟩)
        exact (own_cons _ _ _).trans ((if_neg hne).trans hown)

theorem fields_congr {v v' : JsData ν}
    (h : ∀ r ∈ rules, r.2 (v.get r.1) = r.2 (v'.get r.1)) : fields rules v = fields rules v' := by
  induction rules with
  | nil => rfl
  | cons r rules ih =>
    obtain ⟨key, rule⟩ := r
    have hr := h (key, rule) mem_cons_self
    rw [fields, fields, ih fun r hr ↦ h r (mem_cons_of_mem _ hr)]
    rw [show rule (v.get key) = rule (v'.get key) from hr]

theorem get_of_dict (hnodup : (keysOf rules).Nodup) {v d : JsData ν}
    (h : dict rules v = some d) {key : String} {rule : Rule ν} (hmem : (key, rule) ∈ rules) :
    ∃ w, rule (v.get key) = some w ∧ d.get key = orUndefined w := by
  obtain ⟨members, hmembers, rfl⟩ := map_eq_some_iff.mp h
  obtain ⟨w, hw, hown⟩ := own_of_fields hnodup hmembers hmem
  exact ⟨w, get_obj v key ▸ hw, hown⟩

theorem exists_of_dict (hnodup : (keysOf rules).Nodup) {v d : JsData ν}
    (h : dict rules v = some d) : ∃ members, d = .obj members ∧ (members.map Prod.fst).Nodup := by
  obtain ⟨members, hmembers, rfl⟩ := map_eq_some_iff.mp h
  exact ⟨members, rfl, hnodup.sublist (keys_fields hmembers)⟩

/-- What the rule makes of a field, it keeps. -/
def Rule.Stable (rule : Rule ν) : Prop := ∀ v w, rule v = some w → rule (orUndefined w) = some w

/-- The rules of a dictionary are for distinct ASCII keys, and stable. -/
structure Sound (rules : List (String × Rule ν)) : Prop where
  nodup : (keysOf rules).Nodup
  keys_lt : ∀ t ∈ keysOf rules, ∀ u ∈ t, u < 0x80
  stable : ∀ r ∈ rules, r.2.Stable

theorem dict_of_dict (hrules : Sound rules) {v d : JsData ν}
    (h : dict rules v = some d) : dict rules d = some d := by
  rw [← h, dict, dict]
  congr 1
  refine fields_congr fun r hr ↦ ?_
  obtain ⟨w, hw, hget⟩ := get_of_dict hrules.nodup h hr
  rw [get_obj, get_obj, hget, hw, hrules.stable r hr _ _ hw]

/-! ## The rules are stable -/

namespace Rule

theorem stable_const (w : JsData ν) : (const w).Stable := fun _ _ h ↦ h

theorem stable_raw : (raw : Rule ν).Stable := by
  intro v w h
  obtain rfl := Option.some.inj h
  rfl

variable (w : JsData ν)

theorem stable_orElse : (Rule.orElse w).Stable := by
  intro v u h
  obtain rfl := Option.some.inj h
  cases hv : v.isNullish <;> simp [Rule.orElse, orUndefined, JsData.orElse, hv]

/-- A field that is kept where a test holds, and is a constant otherwise. -/
theorem stable_choose (test : JsData ν → Bool) (w : JsData ν) :
    Stable fun v ↦ some (some (if test v then v else w)) := by
  intro v u h
  obtain rfl := Option.some.inj h
  cases hv : test v <;> simp [orUndefined, hv]

theorem stable_numberOr : (numberOr w).Stable := stable_choose isNum w

theorem stable_arrayOr : (arrayOr w).Stable := stable_choose isArray w

theorem stable_keepIf {test : JsData ν → Bool} (htest : test .undefined = false) : (keepIf test).Stable := by
  intro v w h
  obtain rfl := Option.some.inj h
  cases hv : test v <;> simp [keepIf, orUndefined, hv, htest]

/-- What the function makes, it makes again, and it is not null. -/
def Fixed (f : JsData ν → Option (JsData ν)) : Prop := ∀ v w, f v = some w → f w = some w ∧ w.isNullish = false

variable {f : JsData ν → Option (JsData ν)}

theorem Fixed.make (h : Fixed f) : (make f).Stable := by
  intro v w hw
  obtain ⟨u, hu, rfl⟩ := map_eq_some_iff.mp hw
  exact congrArg (Option.map some) (h v u hu).1

theorem Fixed.makeIfPresent (h : Fixed f) : (makeIfPresent f).Stable := by
  intro v w hw
  rw [Rule.makeIfPresent] at hw
  split_ifs at hw with hnull
  · obtain rfl := Option.some.inj hw
    rfl
  · obtain ⟨u, hu, rfl⟩ := map_eq_some_iff.mp hw
    obtain ⟨hfixed, hpresent⟩ := h v u hu
    rw [orUndefined, getD_some, Rule.makeIfPresent, if_neg (by rw [hpresent]; exact Bool.false_ne_true), hfixed]
    rfl

theorem forall₂_of_mapM {items made : List (JsData ν)} (h : items.mapM f = some made) :
    List.Forall₂ (fun item m ↦ f item = some m) items made := by
  induction items generalizing made with
  | nil =>
    obtain rfl := Option.some.inj h
    exact .nil
  | cons item items ih =>
    simp only [mapM_cons, bind, pure, bind_eq_some_iff, Option.some.injEq] at h
    obtain ⟨w, hw, rest, hrest, rfl⟩ := h
    exact .cons hw (ih hrest)

theorem mem_of_mapM {items made : List (JsData ν)} (h : items.mapM f = some made) :
    ∀ m ∈ made, ∃ item ∈ items, f item = some m := by
  replace h := forall₂_of_mapM h
  induction h with
  | nil => exact nofun
  | cons hw _ ih =>
    refine forall_mem_cons.mpr ⟨⟨_, mem_cons_self, hw⟩, fun m hm ↦ ?_⟩
    obtain ⟨item, hitem, hmade⟩ := ih m hm
    exact ⟨item, mem_cons_of_mem _ hitem, hmade⟩

theorem mapM_of_forall₂ (h : Fixed f) {items made : List (JsData ν)}
    (hmade : List.Forall₂ (fun item m ↦ f item = some m) items made) : made.mapM f = some made := by
  induction hmade with
  | nil => rfl
  | cons hw _ ih =>
    rw [mapM_cons, (h _ _ hw).1, ih]
    rfl

theorem Fixed.makeItems (h : Fixed f) : (makeItems f).Stable := by
  intro v w hw
  rw [Rule.makeItems] at hw
  split_ifs at hw with hempty
  · obtain rfl := Option.some.inj hw
    rfl
  · obtain ⟨made, hmade, rfl⟩ := map_eq_some_iff.mp hw
    have hmade := forall₂_of_mapM hmade
    have hnonempty : made.isEmpty = false := by
      generalize itemsOf v = items at hempty hmade
      cases hmade with
      | nil => exact absurd rfl hempty
      | cons _ _ => rfl
    rw [orUndefined, getD_some, Rule.makeItems, itemsOf, if_neg (by rw [hnonempty]; exact Bool.false_ne_true),
      mapM_of_forall₂ h hmade]
    rfl

theorem fixed_text : Fixed (text N) := by
  intro v w h
  obtain ⟨s, -, rfl⟩ := exists_of_text h
  exact ⟨rfl, rfl⟩

theorem fixed_dict {rules : List (String × Rule ν)} (hrules : Sound rules) : Fixed (dict rules) := by
  intro v d h
  obtain ⟨members, rfl, -⟩ := exists_of_dict hrules.nodup h
  exact ⟨dict_of_dict hrules h, rfl⟩

theorem stable_textOr (w : String) : (textOr N w).Stable := by
  intro v u h
  obtain ⟨t, ht, rfl⟩ := map_eq_some_iff.mp h
  obtain ⟨s, -, rfl⟩ := exists_of_text ht
  rfl

theorem stable_ifPresent : (ifPresent : Rule ν).Stable := stable_keepIf rfl

end Rule

open Rule

/-! ## The rules of a spec -/

theorem sound_of (keys : List String) (hkeys : keysOf rules = keys.map ascii)
    (hnodup : (keys.map ascii).Nodup) (hascii : ∀ t ∈ keys.map ascii, ∀ u ∈ t, u < 0x80)
    (hstable : ∀ r ∈ rules, r.2.Stable) : Sound rules :=
  ⟨hkeys ▸ hnodup, hkeys ▸ hascii, hstable⟩

theorem sound_systemRules : Sound (systemRules N) := by
  refine sound_of ["kind", "template", "params", "global_params", "components", "H_drift", "H_drives"] rfl
    (by decide) (by decide) ?_
  simp only [systemRules, forall_mem_cons]
  exact ⟨stable_textOr _, fixed_text.makeIfPresent, stable_keepIf rfl, stable_keepIf rfl, stable_ifPresent,
    stable_ifPresent, stable_ifPresent, nofun⟩

theorem sound_goalRules : Sound (goalRules N) := by
  refine sound_of ["kind", "gate", "matrix", "target", "initial", "subsystem_levels", "subspace"] rfl (by decide)
    (by decide) ?_
  simp only [goalRules, forall_mem_cons]
  exact ⟨fixed_text.make, fixed_text.makeIfPresent, stable_ifPresent, stable_ifPresent, stable_ifPresent,
    stable_ifPresent, stable_ifPresent, nofun⟩

theorem sound_pulseRules : Sound (pulseRules N lit) := by
  refine sound_of ["kind", "T", "init", "seed"] rfl (by decide) (by decide) ?_
  simp only [pulseRules, forall_mem_cons]
  exact ⟨fixed_text.make, stable_raw, stable_textOr _, stable_orElse _, nofun⟩

theorem sound_objectiveRules : Sound (objectiveRules N lit) := by
  refine sound_of ["kind", "weight"] rfl (by decide) (by decide) ?_
  simp only [objectiveRules, forall_mem_cons]
  exact ⟨fixed_text.make, stable_orElse _, nofun⟩

theorem sound_problemRules : Sound (problemRules N lit) := by
  refine sound_of ["template", "N", "goal_treatment", "free_dt", "Q", "R", "free_phase", "final_fidelity", "R_u",
    "R_du", "R_ddu", "du_bound", "ddu_bound", "initial_phases", "calibration_targets", "global_names",
    "global_bounds", "objectives", "options"] rfl (by decide +kernel) (by decide +kernel) ?_
  simp only [problemRules, forall_mem_cons]
  exact ⟨fixed_text.make, stable_raw, stable_textOr _, stable_arrayOr _, stable_numberOr _, stable_numberOr _,
    stable_orElse _, stable_ifPresent, stable_ifPresent, stable_ifPresent, stable_ifPresent, stable_keepIf rfl,
    stable_ifPresent, stable_ifPresent, fixed_text.makeItems, fixed_text.makeItems, stable_keepIf rfl,
    (fixed_dict sound_objectiveRules).makeItems, stable_keepIf rfl, nofun⟩

theorem sound_integratorRules : Sound (integratorRules N) := by
  refine sound_of ["kind", "alg"] rfl (by decide) (by decide) ?_
  simp only [integratorRules, forall_mem_cons]
  exact ⟨stable_textOr _, stable_textOr _, nofun⟩

theorem sound_wrapperRules : Sound (wrapperRules N) := by
  refine sound_of ["kind", "variants", "weights"] rfl (by decide) (by decide) ?_
  simp only [wrapperRules, forall_mem_cons]
  exact ⟨fixed_text.make, stable_keepIf rfl, stable_ifPresent, nofun⟩

theorem sound_solverRules : Sound (solverRules N lit) := by
  refine sound_of ["backend", "device", "precision", "max_iter", "strategy", "tol"] rfl (by decide) (by decide) ?_
  simp only [solverRules, forall_mem_cons]
  exact ⟨stable_textOr _, stable_textOr _, stable_textOr _, stable_orElse _, stable_textOr _, stable_ifPresent, nofun⟩

theorem sound_warmStartRules : Sound (warmStartRules (ν := ν)) := by
  refine sound_of ["catalog_ref", "pulse_hash"] rfl (by decide) (by decide) ?_
  simp only [warmStartRules, forall_mem_cons]
  exact ⟨stable_ifPresent, stable_ifPresent, nofun⟩

theorem trajectoryRule_eq {w : Option (JsData ν)} (h : trajectoryRule N v = some w) :
    (v.get "kind").isNullish = true ∧ w = none ∨
      (v.get "kind").isNullish = false ∧ ∃ s, text N (v.get "kind") = some (.str s) ∧
        w = some (.obj [(ascii "kind", .str s)]) := by
  simp only [trajectoryRule, get_obj] at h
  split_ifs at h with hnull
  · exact .inl ⟨hnull, (Option.some.inj h).symm⟩
  · obtain ⟨t, ht, rfl⟩ := map_eq_some_iff.mp h
    obtain ⟨s, hs, rfl⟩ := exists_of_text ht
    exact .inr ⟨Bool.eq_false_of_not_eq_true hnull, s, ht, rfl⟩

theorem stable_trajectoryRule : (trajectoryRule N).Stable := by
  intro v w h
  rcases trajectoryRule_eq h with ⟨-, rfl⟩ | ⟨-, s, -, rfl⟩
  · rfl
  · rfl

theorem sound_fullRules : Sound (fullRules N lit) := by
  refine sound_of ["schema_version", "kind", "system", "goal", "pulse", "trajectory", "problem", "integrator",
    "wrappers", "solver", "warm_start"] rfl (by decide) (by decide) ?_
  simp only [fullRules, forall_mem_cons]
  exact ⟨stable_numberOr _, stable_const _, (fixed_dict sound_systemRules).make,
    (fixed_dict sound_goalRules).makeIfPresent, (fixed_dict sound_pulseRules).makeIfPresent, stable_trajectoryRule,
    (fixed_dict sound_problemRules).makeIfPresent, (fixed_dict sound_integratorRules).makeIfPresent,
    (fixed_dict sound_wrapperRules).makeItems, (fixed_dict sound_solverRules).make,
    (fixed_dict sound_warmStartRules).makeIfPresent, nofun⟩

theorem mem_systemRules : ("kind", textOr N "template") ∈ systemRules N ∧
    ("template", makeIfPresent (text N)) ∈ systemRules N ∧ ("params", keepIf nonEmptyObj) ∈ systemRules N := by
  simp [systemRules]

theorem kind_mem_goalRules : ("kind", make (text N)) ∈ goalRules N := by simp [goalRules]

theorem kind_mem_pulseRules : ("kind", make (text N)) ∈ pulseRules N lit := by simp [pulseRules]

theorem kind_mem_objectiveRules : ("kind", make (text N)) ∈ objectiveRules N lit := by simp [objectiveRules]

theorem kind_mem_wrapperRules : ("kind", make (text N)) ∈ wrapperRules N := by simp [wrapperRules]

theorem mem_problemRules : ("template", make (text N)) ∈ problemRules N lit ∧
    ("goal_treatment", textOr N "objective") ∈ problemRules N lit ∧
    ("objectives", makeItems (dict (objectiveRules N lit))) ∈ problemRules N lit ∧
    ("options", keepIf nonEmptyObj) ∈ problemRules N lit := by
  simp [problemRules]

theorem mem_fullRules : ("system", make (dict (systemRules N))) ∈ fullRules N lit ∧
    ("goal", makeIfPresent (dict (goalRules N))) ∈ fullRules N lit ∧
    ("pulse", makeIfPresent (dict (pulseRules N lit))) ∈ fullRules N lit ∧
    ("trajectory", trajectoryRule N) ∈ fullRules N lit ∧
    ("problem", makeIfPresent (dict (problemRules N lit))) ∈ fullRules N lit ∧
    ("integrator", makeIfPresent (dict (integratorRules N))) ∈ fullRules N lit ∧
    ("wrappers", makeItems (dict (wrapperRules N))) ∈ fullRules N lit ∧
    ("solver", make (dict (solverRules N lit))) ∈ fullRules N lit := by
  simp [fullRules]

theorem fullDict_of_fullDict {spec d : JsData ν} (h : fullDict N lit spec = some d) : fullDict N lit d = some d :=
  dict_of_dict sound_fullRules h

/-! ## What `structureFields` reads -/

section

variable {rules : List (String × Rule ν)} {v d : JsData ν} {key : String}

theorem get_of_nonEmptyObj (h : nonEmptyObj v = false) (key : String) : v.get key = .undefined := by
  rcases v with _ | _ | _ | _ | _ | _ | members
  all_goals try rfl
  rcases members with _ | ⟨e, members⟩
  · rfl
  · cases h

variable (hrules : Sound rules) (h : dict rules v = some d)

include hrules h

theorem text_get_make (hmem : (key, make (text N)) ∈ rules) : text N (d.get key) = text N (v.get key) := by
  obtain ⟨w, hw, hget⟩ := get_of_dict hrules.nodup h hmem
  obtain ⟨t, ht, rfl⟩ := map_eq_some_iff.mp hw
  rw [hget, ht]
  exact (fixed_text _ _ ht).1

theorem text_get_textOr {w : String} (hmem : (key, textOr N w) ∈ rules) :
    text N ((d.get key).orElse (.str (ascii w))) = text N ((v.get key).orElse (.str (ascii w))) := by
  obtain ⟨u, hu, hget⟩ := get_of_dict hrules.nodup h hmem
  obtain ⟨t, ht, rfl⟩ := map_eq_some_iff.mp hu
  obtain ⟨s, -, rfl⟩ := exists_of_text ht
  rw [hget]
  exact ht.symm

theorem present_get_makeIfPresent {f : JsData ν → Option (JsData ν)} (hf : Fixed f)
    (hmem : (key, makeIfPresent f) ∈ rules) :
    (present? (v.get key) = none ∧ present? (d.get key) = none) ∨
      ∃ u, present? (v.get key) = some (v.get key) ∧ f (v.get key) = some u ∧ present? (d.get key) = some u := by
  obtain ⟨w, hw, hget⟩ := get_of_dict hrules.nodup h hmem
  rw [makeIfPresent] at hw
  split_ifs at hw with hnull
  · obtain rfl := Option.some.inj hw
    rw [hget]
    exact .inl ⟨if_pos hnull, rfl⟩
  · obtain ⟨u, hu, rfl⟩ := map_eq_some_iff.mp hw
    rw [hget]
    exact .inr ⟨u, if_neg hnull, hu, if_neg (by rw [orUndefined, getD_some, (hf _ _ hu).2]; exact Bool.false_ne_true)⟩

theorem get_keepIf_nonEmptyObj (hmem : (key, keepIf nonEmptyObj) ∈ rules) (field : String) :
    (d.get key).get field = (v.get key).get field := by
  obtain ⟨w, hw, hget⟩ := get_of_dict hrules.nodup h hmem
  obtain rfl := Option.some.inj hw
  rw [hget]
  cases hv : nonEmptyObj (v.get key) with
  | true => rfl
  | false => exact (get_of_nonEmptyObj hv field).symm

omit hrules h

theorem mapM_kinds {rules : List (String × Rule ν)} (hrules : Sound rules) (hkind : ("kind", make (text N)) ∈ rules)
    {items made : List (JsData ν)} (h : items.mapM (dict rules) = some made) :
    (made.mapM fun item ↦ toText? N ((obj item).get "kind"))
      = items.mapM fun item ↦ toText? N ((obj item).get "kind") := by
  replace h := forall₂_of_mapM h
  induction h with
  | nil => rfl
  | cons hw _ ih =>
    have htext := text_get_make hrules hw hkind
    rw [text, text] at htext
    have hinj : Function.Injective (JsData.str : Text → JsData ν) := fun _ _ ↦ JsData.str.inj
    rw [mapM_cons, mapM_cons, ih, get_obj, get_obj, map_injective hinj htext]

variable {v d : JsData ν}

theorem systemStructure_eq (h : dict (systemRules N) v = some d) : systemStructure N d = systemStructure N v := by
  obtain ⟨hmkind, hmtemplate, hmparams⟩ := @mem_systemRules ν N
  have htemplate : (present? (d.get "template")).mapM (text N) = (present? (v.get "template")).mapM (text N) := by
    rcases present_get_makeIfPresent sound_systemRules h fixed_text hmtemplate with ⟨hv, hd⟩ | ⟨u, hv, hu, hd⟩
    · rw [hv, hd]
    · rw [hv, hd, mapM_some, mapM_some, hu, (fixed_text _ _ hu).1]
  simp only [systemStructure, get_obj]
  rw [text_get_textOr sound_systemRules h hmkind, htemplate, get_keepIf_nonEmptyObj sound_systemRules h hmparams]

theorem sortedKinds_eq {rules inner : List (String × Rule ν)} (hrules : Sound rules) (hinner : Sound inner)
    (hkind : ("kind", make (text N)) ∈ inner) {key : String} (h : dict rules v = some d)
    (hmem : (key, makeItems (dict inner)) ∈ rules) : sortedKinds N (d.get key) = sortedKinds N (v.get key) := by
  obtain ⟨w, hw, hget⟩ := get_of_dict hrules.nodup h hmem
  rw [makeItems] at hw
  split_ifs at hw with hempty
  · obtain rfl := Option.some.inj hw
    rw [hget, sortedKinds, sortedKinds, List.isEmpty_iff.mp hempty]
    rfl
  · obtain ⟨made, hmade, rfl⟩ := map_eq_some_iff.mp hw
    have hkinds := mapM_kinds hinner hkind hmade
    rw [hget, sortedKinds, sortedKinds, ← hkinds]
    rfl

theorem problemStructure_eq (h : dict (problemRules N lit) v = some d) :
    problemStructure N d = problemStructure N v := by
  obtain ⟨hmtemplate, hmgoal, hmobjectives, hmoptions⟩ := @mem_problemRules ν N lit
  have hmdt : ("free_dt", arrayOr (.bool false)) ∈ problemRules N lit := by simp [problemRules]
  have hmphase : ("free_phase", Rule.orElse (.bool false)) ∈ problemRules N lit := by simp [problemRules]
  have hdt : isArray (d.get "free_dt") = isArray (v.get "free_dt") := by
    obtain ⟨w, hw, hget⟩ := get_of_dict sound_problemRules.nodup h hmdt
    obtain rfl := Option.some.inj hw
    rw [hget, orUndefined, getD_some]
    split_ifs with hv
    · rfl
    · exact (Bool.eq_false_of_not_eq_true hv).symm
  have hphase : (d.get "free_phase").orElse (.bool false) = (v.get "free_phase").orElse (.bool false) := by
    obtain ⟨w, hw, hget⟩ := get_of_dict sound_problemRules.nodup h hmphase
    have hstable := stable_orElse (.bool false) _ _ hw
    rw [hget]
    exact Option.some.inj (Option.some.inj (hstable.trans hw.symm))
  simp only [problemStructure, get_obj]
  rw [text_get_make sound_problemRules h hmtemplate, text_get_textOr sound_problemRules h hmgoal,
    sortedKinds_eq sound_problemRules sound_objectiveRules kind_mem_objectiveRules h hmobjectives, hdt, hphase,
    get_keepIf_nonEmptyObj sound_problemRules h hmoptions]

theorem integratorRules_eq (h : dict (integratorRules N) v = some d) :
    dict (integratorRules N) d = dict (integratorRules N) v := by
  rw [dict_of_dict sound_integratorRules h, h]

theorem solverStructure_eq (h : dict (solverRules N lit) v = some d) :
    dict (solverStructureRules N) d = dict (solverStructureRules N) v := by
  have hrule : ∀ key w, (key, textOr N w) ∈ solverRules N lit → textOr N w (d.get key) = textOr N w (v.get key) := by
    intro key w hmem
    have htext := text_get_textOr sound_solverRules h hmem
    exact congrArg (Option.map some) htext
  rw [dict, dict]
  congr 1
  refine fields_congr ?_
  simp only [solverStructureRules, forall_mem_cons, get_obj]
  exact ⟨hrule _ _ (by simp [solverRules]), hrule _ _ (by simp [solverRules]), hrule _ _ (by simp [solverRules]),
    hrule _ _ (by simp [solverRules]), nofun⟩

theorem trajectoryKind_eq (h : fullDict N lit v = some d) : trajectoryKind N d = trajectoryKind N v := by
  obtain ⟨-, hmgoal, -, hmtrajectory, -⟩ := @mem_fullRules ν N lit
  obtain ⟨w, hw, hget⟩ := get_of_dict sound_fullRules.nodup h hmtrajectory
  rw [trajectoryKind, trajectoryKind, get_obj, get_obj, hget]
  rcases trajectoryRule_eq hw with ⟨hnull, rfl⟩ | ⟨hkind, s, hs, rfl⟩
  · -- without a kind of the trajectory, that of the goal
    have hnone : present? ((v.get "trajectory").get "kind") = none := if_pos hnull
    have hnone' : present? ((orUndefined (none : Option (JsData ν))).get "kind") = none := rfl
    rw [hnone, hnone']
    rcases present_get_makeIfPresent sound_fullRules h (fixed_dict sound_goalRules) hmgoal
      with ⟨hv, hd⟩ | ⟨u, hv, hu, hd⟩
    · rw [hv, hd]
    · simp only [hv, hd, mapM_some, get_obj]
      rw [text_get_make sound_goalRules hu kind_mem_goalRules]
  · have hsome : present? ((v.get "trajectory").get "kind") = some ((v.get "trajectory").get "kind") :=
      if_neg (by rw [hkind]; exact Bool.false_ne_true)
    have hsome' : present? ((orUndefined (some (.obj [(ascii "kind", JsData.str s)]))).get "kind")
      = some (JsData.str (ν := ν) s) := rfl
    rw [hsome, hsome']
    simp only [hs, text_str]

theorem systemStructure_obj (v : JsData ν) : systemStructure N (obj v) = systemStructure N v := by
  simp only [systemStructure, get_obj]

theorem trajectoryKind_obj (v : JsData ν) : trajectoryKind N (obj v) = trajectoryKind N v := by
  simp only [trajectoryKind, get_obj]

/-- A section that is made where it is present is read alike where what it is made of is. -/
theorem mapM_present_eq {rules : List (String × Rule ν)} (hrules : Sound rules)
    {f : JsData ν → Option (JsData ν)} (hf : Fixed f) {key : String} (h : dict rules v = some d)
    (hmem : (key, makeIfPresent f) ∈ rules) {read : JsData ν → Option (JsData ν)}
    (hread : ∀ a b, f a = some b → read b = read a) :
    (present? (d.get key)).mapM read = (present? (v.get key)).mapM read := by
  rcases present_get_makeIfPresent hrules h hf hmem with ⟨hv, hd⟩ | ⟨u, hv, hu, hd⟩
  · rw [hv, hd]
  · rw [hv, hd, mapM_some, mapM_some, hread _ _ hu]

theorem structureFields_of_fullDict {spec d : JsData ν} (h : fullDict N lit spec = some d) :
    structureFields N d = structureFields N spec := by
  obtain ⟨hmsystem, -, hmpulse, -, hmproblem, hmintegrator, hmwrappers, hmsolver⟩ :=
    @mem_fullRules ν N lit
  have hsystem : systemStructure N (d.get "system") = systemStructure N (spec.get "system") := by
    obtain ⟨w, hw, hget⟩ := get_of_dict sound_fullRules.nodup h hmsystem
    obtain ⟨u, hu, rfl⟩ := map_eq_some_iff.mp hw
    rw [hget]
    exact systemStructure_eq hu
  have hsolver : dict (solverStructureRules N) (d.get "solver")
      = dict (solverStructureRules N) (spec.get "solver") := by
    obtain ⟨w, hw, hget⟩ := get_of_dict sound_fullRules.nodup h hmsolver
    obtain ⟨u, hu, rfl⟩ := map_eq_some_iff.mp hw
    rw [hget]
    exact solverStructure_eq hu
  have hpulse := mapM_present_eq sound_fullRules (fixed_dict sound_pulseRules) h hmpulse
    fun a b hab ↦ text_get_make sound_pulseRules hab kind_mem_pulseRules
  have hproblem := mapM_present_eq sound_fullRules (fixed_dict sound_problemRules) h hmproblem
    fun _ _ ↦ problemStructure_eq
  have hintegrator := mapM_present_eq sound_fullRules (fixed_dict sound_integratorRules) h hmintegrator
    fun _ _ ↦ integratorRules_eq
  have hwrappers := sortedKinds_eq sound_fullRules sound_wrapperRules kind_mem_wrapperRules h hmwrappers
  simp only [structureFields, get_obj, systemStructure_obj, trajectoryKind_obj]
  rw [hsystem, trajectoryKind_eq h, hpulse, hproblem, hintegrator, hwrappers, hsolver]

end

end Amicode.Hashing
