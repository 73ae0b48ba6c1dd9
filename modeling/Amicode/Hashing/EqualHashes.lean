import Amicode.Hashing.Coherence

/-!
# Equal problem hashes, equal structure hashes

Two specs whose `fullDict` have the same canonical text are read alike by `structureFields`: what it turns to text is
text already, and of the rest only the normal form counts (`Alike`).
-/

namespace Amicode.Hashing

open JsonTree JsData Rule List Option

variable {ν : Type} {N : Numbers ν} {lit : ℚ → ν}

/-- Two values with the same canonical text. -/
structure Alike (N : Numbers ν) (v v' : JsData ν) : Prop where
  normal_eq : normal N v = normal N v'
  left : Printable N v
  right : Printable N v'

def DistinctKeys (v : JsData ν) : Prop := ∀ members, v = .obj members → (members.map Prod.fst).Nodup

/-- Every object in the value has distinct keys. -/
inductive Proper : JsData ν → Prop
  | undefined : Proper .undefined
  | null : Proper .null
  | bool {b : Bool} : Proper (.bool b)
  | number {x : ν} : Proper (.number x)
  | str {s : Text} : Proper (.str s)
  | arr {items : List (JsData ν)} : (∀ v ∈ items, Proper v) → Proper (.arr items)
  | obj {members : List (Text × JsData ν)} : (members.map Prod.fst).Nodup → (∀ e ∈ members, Proper e.2) →
    Proper (.obj members)

theorem Proper.distinctKeys {v : JsData ν} (h : Proper v) : DistinctKeys v := by
  rintro members rfl
  cases h with
  | obj hnodup _ => exact hnodup

theorem Proper.get {v : JsData ν} (h : Proper v) (key : String) : Proper (v.get key) := by
  cases h with
  | @obj members _ hvalues =>
    rcases own_eq members (ascii key) with hnone | hmem
    · have hget : (JsData.obj members).get key = .undefined := hnone
      rw [hget]
      exact .undefined
    · exact hvalues _ hmem
  | _ => exact .undefined

theorem distinctKeys_dict {rules : List (String × Rule ν)} (hrules : Sound rules) {v d : JsData ν}
    (h : dict rules v = some d) : DistinctKeys d := by
  obtain ⟨members, rfl, hnodup⟩ := exists_of_dict hrules.nodup h
  rintro members' heq
  exact JsData.obj.inj heq ▸ hnodup

theorem distinctKeys_undefined : DistinctKeys (.undefined : JsData ν) := nofun

theorem own_mem {members : List (Text × JsData ν)} {key : Text} (h : key ∈ members.map Prod.fst) :
    (key, own members key) ∈ members := by
  obtain ⟨e, he, rfl⟩ := List.mem_map.mp h
  rcases hfind : members.find? (fun e' ↦ e'.1 = e.1) with _ | ⟨k, v⟩
  · exact absurd (find?_eq_none.mp hfind e he) (by simp)
  · have hk : k = e.1 := by simpa using find?_some hfind
    have hown : own members e.1 = v := by rw [own, hfind]; rfl
    rw [hown, ← hk]
    exact mem_of_find?_eq_some hfind

namespace Alike

variable {v v' : JsData ν}

theorem undefined : Alike N .undefined .undefined := ⟨rfl, .undefined, .undefined⟩

theorem of_str {s : Text} (h : Alike N (.str s) v') : v' = .str s := by
  have hnormal := h.normal_eq
  cases v' <;> cases hnormal
  rfl

theorem str (s : Text) : Alike N (.str s) (.str s) := ⟨rfl, .str, .str⟩

theorem isNullish_eq (hN : N.Numerals) (h : Alike N v v') : v.isNullish = v'.isNullish := by
  have hword : ∀ {u : JsData ν}, Printable N u → (u.isNullish = true ↔ normal N u = .word (ascii "null")) := by
    intro u hu
    have hbool : ∀ b : Bool, ascii (if b then "true" else "false") ≠ ascii "null" := by decide
    cases hu with
    | undefined | null => exact iff_of_true rfl rfl
    | @bool b => exact iff_of_false nofun fun h ↦ hbool b (Tree.word.inj h)
    | number hx => exact iff_of_false nofun fun h ↦ (toText_ne hN hx).1 (Tree.word.inj h)
    | _ => exact iff_of_false nofun nofun
  rw [Bool.eq_iff_iff, hword h.left, hword h.right, h.normal_eq]

theorem own_of_obj {ms ns : List (Text × JsData ν)} (h : Alike N (.obj ms) (.obj ns))
    (hms : (ms.map Prod.fst).Nodup) (hns : (ns.map Prod.fst).Nodup) (key : Text) :
    Alike N (own ms key) (own ns key) := by
  obtain ⟨hkeys, hvalues⟩ := (normal_obj_eq_iff hms hns).mp h.normal_eq
  obtain ⟨-, hleft, hright⟩ := h
  cases hleft with | obj hleft =>
  cases hright with | obj hright =>
  by_cases hkey : key ∈ ms.map Prod.fst
  · have hmem := own_mem hkey
    have hmem' := own_mem ((hkeys _).mp hkey)
    exact ⟨hvalues _ _ _ hmem hmem', hleft _ hmem, hright _ hmem'⟩
  · rw [own_of_notMem hkey, own_of_notMem fun h ↦ hkey ((hkeys _).mpr h)]
    exact .undefined

theorem get (h : Alike N v v') (hv : DistinctKeys v) (hv' : DistinctKeys v') (key : String) :
    Alike N (v.get key) (v'.get key) := by
  have hnormal := h.normal_eq
  rcases v with _ | _ | _ | _ | _ | _ | ms <;> rcases v' with _ | _ | _ | _ | _ | _ | ns <;>
    first
    | exact own_of_obj h (hv ms rfl) (hv' ns rfl) _
    | exact .undefined
    | cases hnormal

theorem orElse (hN : N.Numerals) (h : Alike N v v') {w : JsData ν} (hw : Printable N w) :
    Alike N (v.orElse w) (v'.orElse w) := by
  rw [JsData.orElse, JsData.orElse, ← h.isNullish_eq hN]
  split
  · exact ⟨rfl, hw, hw⟩
  · exact h

theorem items (h : Alike N v v') : List.Forall₂ (Alike N) (itemsOf v) (itemsOf v') := by
  obtain ⟨hnormal, hleft, hright⟩ := h
  rcases v with _ | _ | _ | _ | _ | as | _ <;> rcases v' with _ | _ | _ | _ | _ | bs | _
  case arr.arr =>
    obtain ⟨hlength, hitems⟩ := normal_arr_eq_iff.mp hnormal
    cases hleft with | arr hleft =>
    cases hright with | arr hright =>
    refine forall₂_iff_get.mpr ⟨hlength, fun i hi hi' ↦ ?_⟩
    exact ⟨hitems i hi hi', hleft _ (getElem_mem hi), hright _ (getElem_mem hi')⟩
  all_goals first | exact .nil | cases hnormal

theorem isArray_eq (h : Alike N v v') : isArray v = isArray v' := by
  have hnormal := h.normal_eq
  rcases v with _ | _ | _ | _ | _ | _ | _ <;> rcases v' with _ | _ | _ | _ | _ | _ | _ <;>
    first | rfl | cases hnormal

/-- Objects with the same keys in their order, and alike values. -/
theorem obj {ms ns : List (Text × JsData ν)}
    (h : List.Forall₂ (fun e e' ↦ e.1 = e'.1 ∧ Alike N e.2 e'.2) ms ns) : Alike N (.obj ms) (.obj ns) := by
  have hmembers : normalMembers N ms = normalMembers N ns ∧ (∀ e ∈ ms, Printable N e.2) ∧ ∀ e ∈ ns, Printable N e.2 := by
    induction h with
    | nil => exact ⟨rfl, nofun, nofun⟩
    | @cons e e' ms ns he _ ih =>
      obtain ⟨hkey, hvalue⟩ := he
      obtain ⟨hnormal, hms, hns⟩ := ih
      refine ⟨?_, forall_mem_cons.mpr ⟨hvalue.left, hms⟩, forall_mem_cons.mpr ⟨hvalue.right, hns⟩⟩
      rw [normalMembers_eq, normalMembers_eq, map_cons, map_cons, ← normalMembers_eq, ← normalMembers_eq,
        hnormal, hkey, hvalue.normal_eq]
  exact ⟨by rw [normal, normal, hmembers.1], .obj hmembers.2.1, .obj hmembers.2.2⟩

end Alike

/-! ## The fields of two dictionaries that are alike -/

theorem exists_of_make_text {v : JsData ν} {w : Option (JsData ν)} (h : make (text N) v = some w) :
    ∃ s, w = some (.str s) := by
  obtain ⟨t, ht, rfl⟩ := map_eq_some_iff.mp h
  obtain ⟨s, -, rfl⟩ := exists_of_text ht
  exact ⟨s, rfl⟩

/-- Two dictionaries made by the same rules that are alike. -/
structure Twins (N : Numbers ν) (rules : List (String × Rule ν)) (v v' d d' : JsData ν) : Prop where
  made : dict rules v = some d
  made' : dict rules v' = some d'
  alike : Alike N d d'

namespace Twins

variable {rules : List (String × Rule ν)} {v v' d d' : JsData ν} {key : String}

section

variable (h : Twins N rules v v' d d') (hrules : Sound rules)

include h hrules

theorem get (key : String) : Alike N (d.get key) (d'.get key) :=
  h.alike.get (distinctKeys_dict hrules h.made) (distinctKeys_dict hrules h.made') key

/-- A field whose rule gives texts has the same text in both. -/
theorem str_of_rule {rule : Rule ν}
    (hrule : ∀ u w, rule u = some w → ∃ s, w = some (.str s)) (hmem : (key, rule) ∈ rules) :
    ∃ s, d.get key = .str s ∧ d'.get key = .str s := by
  obtain ⟨w, hw, hget⟩ := get_of_dict hrules.nodup h.made hmem
  obtain ⟨s, rfl⟩ := hrule _ _ hw
  exact ⟨s, hget, Alike.of_str (hget ▸ h.get hrules key)⟩

theorem str_of_make (hmem : (key, make (text N)) ∈ rules) : ∃ s, d.get key = .str s ∧ d'.get key = .str s :=
  h.str_of_rule hrules (fun _ _ hw ↦ exists_of_make_text hw) hmem

theorem str_of_textOr {w : String}
    (hmem : (key, textOr N w) ∈ rules) : ∃ s, d.get key = .str s ∧ d'.get key = .str s :=
  h.str_of_rule hrules (fun _ _ hu ↦ exists_of_make_text hu) hmem

end

theorem present (hN : N.Numerals) (h : Twins N rules v v' d d') (hrules : Sound rules)
    {f : JsData ν → Option (JsData ν)} (hf : Fixed f) (hmem : (key, makeIfPresent f) ∈ rules) :
    (present? (d.get key) = none ∧ present? (d'.get key) = none) ∨
      ∃ u u', present? (d.get key) = some u ∧ present? (d'.get key) = some u' ∧ f (v.get key) = some u ∧
        f (v'.get key) = some u' ∧ Alike N u u' := by
  have halike := h.get hrules key
  have hnull := halike.isNullish_eq hN
  rcases present_get_makeIfPresent hrules h.made hf hmem with ⟨-, hd⟩ | ⟨u, -, hu, hd⟩
  · rcases present_get_makeIfPresent hrules h.made' hf hmem with ⟨-, hd'⟩ | ⟨u', -, hu', hd'⟩
    · exact .inl ⟨hd, hd'⟩
    · rw [present?, ← hnull] at hd'
      rw [present?] at hd
      split_ifs at hd hd'
  · rcases present_get_makeIfPresent hrules h.made' hf hmem with ⟨-, hd'⟩ | ⟨u', -, hu', hd'⟩
    · rw [present?, ← hnull] at hd'
      rw [present?] at hd
      split_ifs at hd hd'
    · refine .inr ⟨u, u', hd, hd', hu, hu', ?_⟩
      rw [present?] at hd hd'
      split_ifs at hd hd'
      rwa [← Option.some.inj hd, ← Option.some.inj hd']

variable {inner : List (String × Rule ν)}

theorem twins_of_make (h : Twins N rules v v' d d') (hrules : Sound rules)
    (hmem : (key, make (dict inner)) ∈ rules) : Twins N inner (v.get key) (v'.get key) (d.get key) (d'.get key) := by
  obtain ⟨w, hw, hget⟩ := get_of_dict hrules.nodup h.made hmem
  obtain ⟨u, hu, rfl⟩ := map_eq_some_iff.mp hw
  obtain ⟨w', hw', hget'⟩ := get_of_dict hrules.nodup h.made' hmem
  obtain ⟨u', hu', rfl⟩ := map_eq_some_iff.mp hw'
  exact ⟨hget ▸ hu, hget' ▸ hu', h.get hrules key⟩

theorem mapM_text (hN : N.Numerals) (h : Twins N rules v v' d d') (hrules : Sound rules)
    (hmem : (key, makeIfPresent (text N)) ∈ rules) :
    ∃ o, (present? (d.get key)).mapM (text N) = some o ∧ (present? (d'.get key)).mapM (text N) = some o ∧
      ∀ t, o = some t → Printable N t := by
  rcases h.present hN hrules fixed_text hmem with ⟨hd, hd'⟩ | ⟨u, u', hd, hd', hu, -, halike⟩
  · exact ⟨none, by rw [hd]; rfl, by rw [hd']; rfl, nofun⟩
  · obtain ⟨s, -, rfl⟩ := exists_of_text hu
    obtain rfl := halike.of_str
    exact ⟨some (.str s), by rw [hd]; rfl, by rw [hd']; rfl, fun t ht ↦ Option.some.inj ht ▸ .str⟩

theorem mapM_kind (hN : N.Numerals) (h : Twins N rules v v' d d') (hrules : Sound rules)
    (hinner : Sound inner) (hkind : ("kind", make (text N)) ∈ inner)
    (hmem : (key, makeIfPresent (dict inner)) ∈ rules) :
    ∃ o, (present? (d.get key)).mapM (fun u ↦ text N (u.get "kind")) = some o ∧
      (present? (d'.get key)).mapM (fun u ↦ text N (u.get "kind")) = some o ∧ ∀ t, o = some t → Printable N t := by
  rcases h.present hN hrules (fixed_dict hinner) hmem with ⟨hd, hd'⟩ | ⟨u, u', hd, hd', hu, hu', halike⟩
  · exact ⟨none, by rw [hd]; rfl, by rw [hd']; rfl, nofun⟩
  · obtain ⟨s, hs, hs'⟩ := (⟨hu, hu', halike⟩ : Twins N inner _ _ u u').str_of_make hinner hkind
    refine ⟨some (.str s), ?_, ?_, fun t ht ↦ Option.some.inj ht ▸ .str⟩
    · rw [hd, mapM_some, hs]
      rfl
    · rw [hd', mapM_some, hs']
      rfl

theorem exists_of_mem_items {rules inner : List (String × Rule ν)} (hrules : Sound rules) {v d : JsData ν}
    {key : String} (h : dict rules v = some d) (hmem : (key, makeItems (dict inner)) ∈ rules) :
    ∀ m ∈ itemsOf (d.get key), ∃ item, dict inner item = some m := by
  obtain ⟨w, hw, hget⟩ := get_of_dict hrules.nodup h hmem
  rw [makeItems] at hw
  split_ifs at hw with hempty
  · obtain rfl := Option.some.inj hw
    rw [hget]
    exact forall_mem_nil _
  · obtain ⟨made, hmade, rfl⟩ := map_eq_some_iff.mp hw
    rw [hget]
    exact fun m hm ↦ (mem_of_mapM hmade m hm).imp fun _ h ↦ h.2

theorem mapM_kinds_eq {ms ns : List (JsData ν)}
    (h : List.Forall₂ (fun m n ↦ ∃ s, m.get "kind" = .str s ∧ n.get "kind" = .str s) ms ns) :
    ∃ kinds, (ms.mapM fun item ↦ toText? N ((Hashing.obj item).get "kind")) = some kinds ∧
      (ns.mapM fun item ↦ toText? N ((Hashing.obj item).get "kind")) = some kinds := by
  induction h with
  | nil => exact ⟨[], rfl, rfl⟩
  | @cons m n ms ns hmn _ ih =>
    obtain ⟨s, hm, hn⟩ := hmn
    obtain ⟨kinds, hms, hns⟩ := ih
    refine ⟨s :: kinds, ?_, ?_⟩
    · rw [mapM_cons, hms, get_obj, hm]
      rfl
    · rw [mapM_cons, hns, get_obj, hn]
      rfl

theorem sortedKinds (h : Twins N rules v v' d d') (hrules : Sound rules)
    (hinner : Sound inner) (hkind : ("kind", make (text N)) ∈ inner) (hmem : (key, makeItems (dict inner)) ∈ rules) :
    ∃ k, Hashing.sortedKinds N (d.get key) = some (.arr k) ∧ Hashing.sortedKinds N (d'.get key) = some (.arr k) ∧
      ∀ t ∈ k, Printable N t := by
  have hpairs : List.Forall₂ (fun m n ↦ ∃ s, m.get "kind" = .str s ∧ n.get "kind" = .str s)
      (itemsOf (d.get key)) (itemsOf (d'.get key)) := by
    have hitems := (h.get hrules key).items
    rw [forall₂_iff_get] at hitems ⊢
    refine ⟨hitems.1, fun i hi hi' ↦ ?_⟩
    obtain ⟨item, hitem⟩ := exists_of_mem_items hrules h.made hmem _ (List.get_mem _ ⟨i, hi⟩)
    obtain ⟨item', hitem'⟩ := exists_of_mem_items hrules h.made' hmem _ (List.get_mem _ ⟨i, hi'⟩)
    exact (⟨hitem, hitem', hitems.2 i hi hi'⟩ : Twins N inner _ _ _ _).str_of_make hinner hkind
  obtain ⟨kinds, hkinds, hkinds'⟩ := mapM_kinds_eq hpairs
  refine ⟨(sortTexts kinds).map .str, ?_, ?_, fun t ht ↦ ?_⟩
  · rw [Hashing.sortedKinds, hkinds]
    rfl
  · rw [Hashing.sortedKinds, hkinds']
    rfl
  · obtain ⟨s, -, rfl⟩ := List.mem_map.mp ht
    exact .str

end Twins

theorem entry_present (hN : N.Numerals) {v v' : JsData ν} (h : Alike N v v') (key : String) :
    List.Forall₂ (fun e e' ↦ e.1 = e'.1 ∧ Alike N e.2 e'.2) (entry key (present? v)) (entry key (present? v')) := by
  rw [present?, present?, ← h.isNullish_eq hN]
  split
  · exact .nil
  · exact .cons ⟨rfl, h⟩ .nil

theorem forall₂_refl {ms : List (Text × JsData ν)} (h : ∀ e ∈ ms, Printable N e.2) :
    List.Forall₂ (fun e e' ↦ e.1 = e'.1 ∧ Alike N e.2 e'.2) ms ms :=
  forall₂_same.mpr fun e he ↦ ⟨rfl, rfl, h e he, h e he⟩

theorem printable_entry {key : String} {o : Option (JsData ν)} (h : ∀ v, o = some v → Printable N v) :
    ∀ e ∈ entry key o, Printable N e.2 := by
  rcases o with _ | v
  · exact nofun
  · rintro e he
    obtain rfl := mem_singleton.mp he
    exact h v rfl

/-! ## The structure of two specs that are alike -/

theorem distinctKeys_keepIf {rules : List (String × Rule ν)} (hrules : Sound rules) {v d : JsData ν} {key : String}
    (h : dict rules v = some d) (hmem : (key, keepIf nonEmptyObj) ∈ rules) (hv : Proper v) :
    DistinctKeys (d.get key) := by
  obtain ⟨w, hw, hget⟩ := get_of_dict hrules.nodup h hmem
  obtain rfl := Option.some.inj hw
  rw [hget]
  split
  · exact (hv.get key).distinctKeys
  · exact distinctKeys_undefined

variable {v v' d d' : JsData ν}

theorem alike_systemStructure (hN : N.Numerals) (h : Twins N (systemRules N) v v' d d')
    (hv : Proper v) (hv' : Proper v') :
    ∃ e e', systemStructure N d = some e ∧ systemStructure N d' = some e' ∧ Alike N e e' := by
  obtain ⟨hmkind, hmtemplate, hmparams⟩ := @mem_systemRules ν N
  obtain ⟨s, hs, hs'⟩ := h.str_of_textOr sound_systemRules hmkind
  obtain ⟨o, ho, ho', hprintable⟩ := h.mapM_text hN sound_systemRules hmtemplate
  have hlevels := (h.get sound_systemRules "params").get (distinctKeys_keepIf sound_systemRules h.made hmparams hv)
    (distinctKeys_keepIf sound_systemRules h.made' hmparams hv') "levels"
  refine ⟨_, _, by simp only [systemStructure, hs, ho, get_obj]; rfl,
    by simp only [systemStructure, hs', ho', get_obj]; rfl, ?_⟩
  refine Alike.obj (rel_append (rel_append (.cons ⟨rfl, .str s⟩ .nil) ?_) ?_)
  · exact forall₂_refl (printable_entry hprintable)
  · exact entry_present hN hlevels "levels"

theorem alike_problemStructure (hN : N.Numerals)
    (h : Twins N (problemRules N lit) v v' d d') (hv : Proper v) (hv' : Proper v') :
    ∃ e e', problemStructure N d = some e ∧ problemStructure N d' = some e' ∧ Alike N e e' := by
  obtain ⟨hmtemplate, hmgoal, hmobjectives, hmoptions⟩ := @mem_problemRules ν N lit
  obtain ⟨s, hs, hs'⟩ := h.str_of_make sound_problemRules hmtemplate
  obtain ⟨t, ht, ht'⟩ := h.str_of_textOr sound_problemRules hmgoal
  obtain ⟨k, hk, hk', hprintable⟩ := h.sortedKinds sound_problemRules sound_objectiveRules kind_mem_objectiveRules hmobjectives
  have hdt := (h.get sound_problemRules "free_dt").isArray_eq
  have hphase := (h.get sound_problemRules "free_phase").orElse hN (.bool (b := false))
  have hleakage := (h.get sound_problemRules "options").get
    (distinctKeys_keepIf sound_problemRules h.made hmoptions hv)
    (distinctKeys_keepIf sound_problemRules h.made' hmoptions hv') "leakage_constraint"
  refine ⟨_, _, by simp only [problemStructure, get_obj, hs, ht, hk]; rfl,
    by simp only [problemStructure, get_obj, hs', ht', hk']; rfl, ?_⟩
  refine Alike.obj (rel_append (.cons ⟨rfl, .str s⟩ (.cons ⟨rfl, .str t⟩ (.cons ⟨rfl, ?_⟩
    (.cons ⟨rfl, hphase⟩ (.cons ⟨rfl, rfl, .arr hprintable, .arr hprintable⟩ .nil)))))
    (entry_present hN hleakage "leakage_constraint"))
  rw [hdt]
  exact .str _

/-- A dictionary of texts of one that is alike is the same. -/
theorem exists_solverStructure (h : Twins N (solverRules N lit) v v' d d') :
    ∃ e, dict (solverStructureRules N) d = some e ∧ dict (solverStructureRules N) d' = some e ∧ Printable N e := by
  have hm : ∀ key w, (key, textOr N w) ∈ solverRules N lit → ∃ s, d.get key = .str s ∧ d'.get key = .str s :=
    fun key w hmem ↦ h.str_of_textOr sound_solverRules hmem
  obtain ⟨s₁, h₁, h₁'⟩ := hm "backend" "madnlp" (by simp [solverRules])
  obtain ⟨s₂, h₂, h₂'⟩ := hm "device" "cpu" (by simp [solverRules])
  obtain ⟨s₃, h₃, h₃'⟩ := hm "precision" "f64" (by simp [solverRules])
  obtain ⟨s₄, h₄, h₄'⟩ := hm "strategy" "direct" (by simp [solverRules])
  refine ⟨.obj [(ascii "backend", .str s₁), (ascii "device", .str s₂), (ascii "precision", .str s₃),
    (ascii "strategy", .str s₄)], by simp only [dict, fields, solverStructureRules, get_obj, h₁, h₂, h₃, h₄]; rfl,
    by simp only [dict, fields, solverStructureRules, get_obj, h₁', h₂', h₃', h₄']; rfl, ?_⟩
  refine .obj ?_
  simp only [forall_mem_cons]
  exact ⟨.str, .str, .str, .str, forall_mem_nil _⟩

section

variable (hN : N.Numerals) (h : Twins N (fullRules N lit) v v' d d')

include hN h

theorem exists_integrator : ∃ o, (present? (d.get "integrator")).mapM (dict (integratorRules N)) = some o ∧
      (present? (d'.get "integrator")).mapM (dict (integratorRules N)) = some o ∧ ∀ t, o = some t → Printable N t := by
  have hmkind : ("kind", textOr N "bilinear") ∈ integratorRules N := by simp [integratorRules]
  have hmalg : ("alg", textOr N "tsit5") ∈ integratorRules N := by simp [integratorRules]
  obtain ⟨-, -, -, -, -, hm, -⟩ := @mem_fullRules ν N lit
  rcases h.present hN sound_fullRules (fixed_dict sound_integratorRules) hm
    with ⟨hd, hd'⟩ | ⟨u, u', hd, hd', hu, hu', halike⟩
  · exact ⟨none, by rw [hd]; rfl, by rw [hd']; rfl, fun _ h ↦ by cases h⟩
  · have htwins : Twins N (integratorRules N) _ _ u u' := ⟨hu, hu', halike⟩
    obtain ⟨s, hs, hs'⟩ := htwins.str_of_textOr sound_integratorRules hmkind
    obtain ⟨t, ht, ht'⟩ := htwins.str_of_textOr sound_integratorRules hmalg
    refine ⟨some (.obj [(ascii "kind", .str s), (ascii "alg", .str t)]), ?_, ?_, fun w hw ↦ Option.some.inj hw ▸ ?_⟩
    · rw [hd, mapM_some]
      simp only [dict, fields, integratorRules, get_obj, hs, ht]
      rfl
    · rw [hd', mapM_some]
      simp only [dict, fields, integratorRules, get_obj, hs', ht']
      rfl
    · refine .obj ?_
      simp only [forall_mem_cons]
      exact ⟨.str, .str, forall_mem_nil _⟩

theorem exists_trajectoryKind :
    ∃ o, trajectoryKind N d = some o ∧ trajectoryKind N d' = some o ∧ ∀ t, o = some t → Printable N t := by
  obtain ⟨-, hmgoal, -, hmtrajectory, -⟩ := @mem_fullRules ν N lit
  obtain ⟨o, ho, ho', hprintable⟩ := h.mapM_kind hN sound_fullRules sound_goalRules kind_mem_goalRules hmgoal
  obtain ⟨w, hw, hget⟩ := get_of_dict sound_fullRules.nodup h.made hmtrajectory
  obtain ⟨w', hw', hget'⟩ := get_of_dict sound_fullRules.nodup h.made' hmtrajectory
  have halike := h.get sound_fullRules "trajectory"
  rw [hget, hget'] at halike
  simp only [trajectoryKind, get_obj, hget, hget']
  rcases trajectoryRule_eq hw with ⟨-, rfl⟩ | ⟨-, s, -, rfl⟩
  · rcases trajectoryRule_eq hw' with ⟨-, rfl⟩ | ⟨-, s', -, rfl⟩
    · exact ⟨o, ho, ho', hprintable⟩
    · exact absurd (halike.isNullish_eq hN) Bool.noConfusion
  · rcases trajectoryRule_eq hw' with ⟨-, rfl⟩ | ⟨-, s', -, rfl⟩
    · exact absurd (halike.isNullish_eq hN) Bool.noConfusion
    · have hkind : Alike N (.str s) (.str s') :=
        halike.get (by rintro _ ⟨⟩; exact nodup_singleton _) (by rintro _ ⟨⟩; exact nodup_singleton _) "kind"
      obtain rfl := JsData.str.inj hkind.of_str
      exact ⟨some (.str _), rfl, rfl, fun t ht ↦ Option.some.inj ht ▸ .str⟩

theorem alike_problem
    (hv : Proper v) (hv' : Proper v') : ∃ o o', (present? (d.get "problem")).mapM (problemStructure N) = some o ∧
      (present? (d'.get "problem")).mapM (problemStructure N) = some o' ∧
      List.Forall₂ (fun e e' ↦ e.1 = e'.1 ∧ Alike N e.2 e'.2) (entry "problem" o) (entry "problem" o') := by
  obtain ⟨-, -, -, -, hm, -⟩ := @mem_fullRules ν N lit
  rcases h.present hN sound_fullRules (fixed_dict sound_problemRules) hm
    with ⟨hd, hd'⟩ | ⟨u, u', hd, hd', hu, hu', halike⟩
  · exact ⟨none, none, by rw [hd]; rfl, by rw [hd']; rfl, .nil⟩
  · obtain ⟨e, e', he, he', halike⟩ := alike_problemStructure hN ⟨hu, hu', halike⟩ (hv.get _) (hv'.get _)
    refine ⟨some e, some e', ?_, ?_, .cons ⟨rfl, halike⟩ .nil⟩
    · rw [hd, mapM_some, he]
      rfl
    · rw [hd', mapM_some, he']
      rfl

theorem alike_structureFields (hv : Proper v) (hv' : Proper v') :
    ∃ e e', structureFields N d = some e ∧ structureFields N d' = some e' ∧ Alike N e e' := by
  obtain ⟨hmsystem, -, hmpulse, -, -, -, hmwrappers, hmsolver⟩ := @mem_fullRules ν N lit
  obtain ⟨e, e', he, he', hsystem⟩ := alike_systemStructure hN (h.twins_of_make sound_fullRules hmsystem)
    (hv.get "system") (hv'.get "system")
  obtain ⟨t, ht, ht', htrajectory⟩ := exists_trajectoryKind hN h
  obtain ⟨p, hp, hp', hpulse⟩ := h.mapM_kind hN sound_fullRules sound_pulseRules kind_mem_pulseRules hmpulse
  obtain ⟨q, q', hq, hq', hproblem⟩ := alike_problem hN h hv hv'
  obtain ⟨i, hi, hi', hintegrator⟩ := exists_integrator hN h
  obtain ⟨k, hk, hk', hkinds⟩ := h.sortedKinds sound_fullRules sound_wrapperRules kind_mem_wrapperRules hmwrappers
  obtain ⟨o, ho, ho', hsolver⟩ := exists_solverStructure (h.twins_of_make sound_fullRules hmsolver)
  simp only [structureFields, get_obj, systemStructure_obj, trajectoryKind_obj, he, ht, hp, hq, hi, hk, ho, he', ht',
    hp', hq', hi', hk', ho']
  refine ⟨_, _, rfl, rfl, ?_⟩
  refine Alike.obj (rel_append (rel_append (rel_append (rel_append (rel_append
    (.cons ⟨rfl, .str _⟩ (.cons ⟨rfl, hsystem⟩ .nil)) ?_) ?_) hproblem) ?_) ?_)
  · exact forall₂_refl (printable_entry htrajectory)
  · exact forall₂_refl (printable_entry hpulse)
  · exact forall₂_refl (printable_entry hintegrator)
  · exact .cons ⟨rfl, rfl, .arr hkinds, .arr hkinds⟩ (.cons ⟨rfl, rfl, hsolver, hsolver⟩ .nil)

end

theorem structure_of_problem (hN : N.Numerals) {a b : JsData ν} (ha : Proper a) (hb : Proper b) {t : Text}
    (hat : (fullDict N lit a).bind (canonicalJson N) = some t)
    (hbt : (fullDict N lit b).bind (canonicalJson N) = some t) :
    ∃ u, (structureFields N a).bind (canonicalJson N) = some u ∧
      (structureFields N b).bind (canonicalJson N) = some u := by
  obtain ⟨d, hd, hdt⟩ := bind_eq_some_iff.mp hat
  obtain ⟨d', hd', hdt'⟩ := bind_eq_some_iff.mp hbt
  have hleft := printable_of_canonicalJson hdt
  have hright := printable_of_canonicalJson hdt'
  have htwins : Twins N (fullRules N lit) a b d d' :=
    ⟨hd, hd', (canonicalJson_eq_iff hN hleft hright).mp (hdt.trans hdt'.symm), hleft, hright⟩
  obtain ⟨e, e', he, he', halike⟩ := alike_structureFields hN htwins ha hb
  rw [structureFields_of_fullDict hd] at he
  rw [structureFields_of_fullDict hd'] at he'
  refine ⟨_, by rw [he]; exact canonicalJson_eq halike.left, ?_⟩
  rw [he', halike.normal_eq]
  exact canonicalJson_eq halike.right

end Amicode.Hashing
