import Amicode.Hashing.EqualHashes

/-!
# The hashes of a spec

A spec is read from TOML, whose strings have no unpaired surrogates; then neither have those of `fullDict`
(`textsWellFormed_fullDict`), and its hash tells its text from others. So specs with the same problem hash have the
same structure hash (`projections_cohere`).
-/

namespace Amicode.Hashing

open JsonTree JsData Rule List Option

variable {ν : Type} {N : Numbers ν} {lit : ℚ → ν}

/-! ## Texts made of well-formed values -/

section

variable (hN : ∀ x, WellFormed (N.toText x))

include hN

theorem wellFormed_toText {v : JsData ν} (h : TextsWellFormed v) {s : Text} (hs : toText? N v = some s) :
    WellFormed s := by
  have hundefined : ∀ u ∈ ascii "undefined", u < 0x80 := by decide
  have hnull : ∀ u ∈ ascii "null", u < 0x80 := by decide
  have hlit : ∀ b : Bool, ∀ u ∈ ascii (if b then "true" else "false"), u < 0x80 := by decide
  have hobject : ∀ u ∈ ascii "[object Object]", u < 0x80 := by decide
  induction h generalizing s with
  | undefined => exact Option.some.inj hs ▸ wellFormed_of_lt hundefined
  | null => exact Option.some.inj hs ▸ wellFormed_of_lt hnull
  | @bool b => exact Option.some.inj hs ▸ wellFormed_of_lt (hlit b)
  | number => exact Option.some.inj hs ▸ hN _
  | str hwf => exact Option.some.inj hs ▸ hwf
  | @arr items hitems ih =>
    rw [toText?] at hs
    obtain ⟨pieces, hpieces, rfl⟩ := map_eq_some_iff.mp hs
    refine WellFormed.join ?_
    clear hs
    induction items generalizing pieces with
    | nil =>
      obtain rfl := Option.some.inj hpieces
      exact nofun
    | cons item items ihs =>
      rw [itemTexts?] at hpieces
      have hrest := ihs (fun v hv ↦ hitems v (mem_cons_of_mem _ hv)) fun v hv ↦ ih v (mem_cons_of_mem _ hv)
      cases hnull : item.isNullish
      · simp only [hnull, Bool.false_eq_true, if_false, bind, pure, bind_eq_some_iff, Option.some.injEq]
          at hpieces
        obtain ⟨t, ht, rest, hpieces, rfl⟩ := hpieces
        exact forall_mem_cons.mpr ⟨ih item mem_cons_self ht, hrest rest hpieces⟩
      · simp only [hnull, if_true, bind, pure, bind_some, bind_eq_some_iff, Option.some.injEq]
          at hpieces
        obtain ⟨rest, hpieces, rfl⟩ := hpieces
        exact forall_mem_cons.mpr ⟨wellFormed_nil, hrest rest hpieces⟩
  | obj =>
    rw [toText?] at hs
    split_ifs at hs
    exact Option.some.inj hs ▸ wellFormed_of_lt hobject

theorem textsWellFormed_text {v w : JsData ν} (h : TextsWellFormed v) (hw : text N v = some w) :
    TextsWellFormed w := by
  obtain ⟨s, hs, rfl⟩ := exists_of_text hw
  exact .str (wellFormed_toText hN h hs)

end

/-! ## Rules keep texts well formed -/

/-- What the function makes of a well-formed value is well formed. -/
def Keeps (f : JsData ν → Option (JsData ν)) : Prop := ∀ v w, TextsWellFormed v → f v = some w → TextsWellFormed w

/-- What the rule keeps of a well-formed value is well formed. -/
def Rule.Keeps (rule : Rule ν) : Prop := ∀ v w, TextsWellFormed v → rule v = some (some w) → TextsWellFormed w

namespace Rule

variable {w : JsData ν} {f : JsData ν → Option (JsData ν)}

theorem keeps_orElse (hw : TextsWellFormed w) : (Rule.orElse w).Keeps := by
  intro v u hv h
  obtain rfl := Option.some.inj (Option.some.inj h)
  unfold JsData.orElse
  split
  · exact hw
  · exact hv

theorem keeps_choose (test : JsData ν → Bool) (hw : TextsWellFormed w) :
    Rule.Keeps fun v ↦ some (some (if test v then v else w)) := by
  intro v u hv h
  obtain rfl := Option.some.inj (Option.some.inj h)
  split
  · exact hv
  · exact hw

theorem keeps_keepIf (test : JsData ν → Bool) : (keepIf test).Keeps := by
  intro v u hv h
  rw [keepIf] at h
  split_ifs at h
  · exact Option.some.inj (Option.some.inj h) ▸ hv
  · cases h

theorem keeps_make (hf : Hashing.Keeps f) : (make f).Keeps := by
  intro v u hv h
  obtain ⟨t, ht, heq⟩ := map_eq_some_iff.mp h
  exact Option.some.inj heq ▸ hf v t hv ht

theorem keeps_makeIfPresent (hf : Hashing.Keeps f) : (makeIfPresent f).Keeps := by
  intro v u hv h
  rw [makeIfPresent] at h
  split_ifs at h
  · cases h
  · exact keeps_make hf v u hv h

theorem keeps_makeItems (hf : Hashing.Keeps f) : (makeItems f).Keeps := by
  intro v u hv h
  rw [makeItems] at h
  split_ifs at h
  · cases h
  obtain ⟨made, hmade, heq⟩ := map_eq_some_iff.mp h
  obtain rfl := Option.some.inj heq
  have hitems : ∀ item ∈ itemsOf v, TextsWellFormed item := by
    cases hv with
    | arr hitems => exact hitems
    | _ => exact forall_mem_nil _
  refine .arr fun m hm ↦ ?_
  obtain ⟨item, hitem, hmade⟩ := mem_of_mapM hmade m hm
  exact hf item m (hitems item hitem) hmade

theorem keeps_const (hw : TextsWellFormed w) : (Rule.const w).Keeps := by
  intro v u _ h
  exact Option.some.inj (Option.some.inj h) ▸ hw

theorem keeps_raw : (raw : Rule ν).Keeps := by
  intro v u hv h
  exact Option.some.inj (Option.some.inj h) ▸ hv

theorem keeps_textOr (hN : ∀ x, WellFormed (N.toText x)) {w : String} (hw : ∀ u ∈ ascii w, u < 0x80) :
    (textOr N w).Keeps := by
  refine keeps_make fun v u hv h ↦ textsWellFormed_text hN ?_ h
  unfold JsData.orElse
  split
  · exact .str (wellFormed_of_lt hw)
  · exact hv

end Rule

theorem textsWellFormed_obj {v : JsData ν} (h : TextsWellFormed v) : TextsWellFormed (obj v) := by
  unfold obj JsData.orElse
  split
  · exact .obj nofun nofun
  · exact h

theorem keeps_dict {rules : List (String × Rule ν)} (hsound : Sound rules) (hrules : ∀ r ∈ rules, r.2.Keeps) :
    Keeps (dict rules) := by
  intro v d hv h
  have hkeys := hsound.keys_lt
  clear hsound
  obtain ⟨members, hmembers, rfl⟩ := map_eq_some_iff.mp h
  have hfields : ∀ e ∈ members, WellFormed e.1 ∧ TextsWellFormed e.2 := by
    clear h
    induction rules generalizing members with
    | nil =>
      obtain rfl := Option.some.inj hmembers
      exact nofun
    | cons r rules ih =>
      obtain ⟨key, rule⟩ := r
      simp only [fields, bind, pure, bind_eq_some_iff, Option.some.injEq] at hmembers
      obtain ⟨field, hfield, rest, hrest, rfl⟩ := hmembers
      obtain ⟨hkey, hkeys⟩ := forall_mem_cons.mp hkeys
      obtain ⟨hrule, hrules⟩ := forall_mem_cons.mp hrules
      rcases field with _ | w
      · exact ih hrules hkeys rest hrest
      · exact forall_mem_cons.mpr ⟨⟨wellFormed_of_lt hkey,
          hrule _ w (textsWellFormed_get (textsWellFormed_obj hv) key) hfield⟩, ih hrules hkeys rest hrest⟩
  exact .obj (fun e he ↦ (hfields e he).1) fun e he ↦ (hfields e he).2

section

variable (hN : ∀ x, WellFormed (N.toText x))

include hN

theorem keeps_text : Keeps (text N) := fun _ _ hv h ↦ textsWellFormed_text hN hv h

theorem keeps_systemRules : Keeps (dict (systemRules N)) := by
  refine keeps_dict sound_systemRules ?_
  simp only [systemRules, forall_mem_cons]
  exact ⟨keeps_textOr hN (by decide), keeps_makeIfPresent (keeps_text hN), keeps_keepIf _, keeps_keepIf _,
    keeps_keepIf _, keeps_keepIf _, keeps_keepIf _, forall_mem_nil _⟩

theorem keeps_goalRules : Keeps (dict (goalRules N)) := by
  refine keeps_dict sound_goalRules ?_
  simp only [goalRules, forall_mem_cons]
  exact ⟨keeps_make (keeps_text hN), keeps_makeIfPresent (keeps_text hN), keeps_keepIf _, keeps_keepIf _,
    keeps_keepIf _, keeps_keepIf _, keeps_keepIf _, forall_mem_nil _⟩

theorem keeps_pulseRules : Keeps (dict (pulseRules N lit)) := by
  refine keeps_dict sound_pulseRules ?_
  simp only [pulseRules, forall_mem_cons]
  exact ⟨keeps_make (keeps_text hN), keeps_raw, keeps_textOr hN (by decide), keeps_orElse .number, forall_mem_nil _⟩

theorem keeps_objectiveRules : Keeps (dict (objectiveRules N lit)) := by
  refine keeps_dict sound_objectiveRules ?_
  simp only [objectiveRules, forall_mem_cons]
  exact ⟨keeps_make (keeps_text hN), keeps_orElse .number, forall_mem_nil _⟩

theorem keeps_problemRules : Keeps (dict (problemRules N lit)) := by
  refine keeps_dict sound_problemRules ?_
  simp only [problemRules, forall_mem_cons]
  exact ⟨keeps_make (keeps_text hN), keeps_raw, keeps_textOr hN (by decide), keeps_choose _ .bool,
    keeps_choose _ .number, keeps_choose _ .number, keeps_orElse .bool, keeps_keepIf _, keeps_keepIf _,
    keeps_keepIf _, keeps_keepIf _, keeps_keepIf _, keeps_keepIf _, keeps_keepIf _,
    keeps_makeItems (keeps_text hN), keeps_makeItems (keeps_text hN), keeps_keepIf _,
    keeps_makeItems (keeps_objectiveRules hN), keeps_keepIf _, forall_mem_nil _⟩

theorem keeps_integratorRules : Keeps (dict (integratorRules N)) := by
  refine keeps_dict sound_integratorRules ?_
  simp only [integratorRules, forall_mem_cons]
  exact ⟨keeps_textOr hN (by decide), keeps_textOr hN (by decide), forall_mem_nil _⟩

theorem keeps_wrapperRules : Keeps (dict (wrapperRules N)) := by
  refine keeps_dict sound_wrapperRules ?_
  simp only [wrapperRules, forall_mem_cons]
  exact ⟨keeps_make (keeps_text hN), keeps_keepIf _, keeps_keepIf _, forall_mem_nil _⟩

theorem keeps_solverRules : Keeps (dict (solverRules N lit)) := by
  refine keeps_dict sound_solverRules ?_
  simp only [solverRules, forall_mem_cons]
  exact ⟨keeps_textOr hN (by decide), keeps_textOr hN (by decide), keeps_textOr hN (by decide),
    keeps_orElse .number, keeps_textOr hN (by decide), keeps_keepIf _, forall_mem_nil _⟩

omit hN in
theorem keeps_warmStartRules : Keeps (dict (warmStartRules (ν := ν))) := by
  refine keeps_dict sound_warmStartRules ?_
  simp only [warmStartRules, forall_mem_cons]
  exact ⟨keeps_keepIf _, keeps_keepIf _, forall_mem_nil _⟩

theorem keeps_trajectoryRule : (trajectoryRule N).Keeps := by
  intro v u hv h
  have hascii : ∀ u ∈ ascii "kind", u < 0x80 := by decide
  rcases trajectoryRule_eq h with ⟨-, hnone⟩ | ⟨-, s, hs, heq⟩
  · cases hnone
  · obtain rfl := Option.some.inj heq
    refine .obj (forall_mem_singleton.mpr (wellFormed_of_lt hascii)) (forall_mem_singleton.mpr ?_)
    exact textsWellFormed_text hN (textsWellFormed_get hv "kind") hs

theorem textsWellFormed_fullDict : Keeps (fullDict N lit) := by
  have hcontrol : ∀ u ∈ ascii "control", u < 0x80 := by decide
  refine keeps_dict sound_fullRules ?_
  simp only [fullRules, forall_mem_cons]
  exact ⟨keeps_choose _ .number, keeps_const (.str (wellFormed_of_lt hcontrol)), keeps_make (keeps_systemRules hN),
    keeps_makeIfPresent (keeps_goalRules hN), keeps_makeIfPresent (keeps_pulseRules hN), keeps_trajectoryRule hN,
    keeps_makeIfPresent (keeps_problemRules hN), keeps_makeIfPresent (keeps_integratorRules hN),
    keeps_makeItems (keeps_wrapperRules hN), keeps_make (keeps_solverRules hN),
    keeps_makeIfPresent keeps_warmStartRules, forall_mem_nil _⟩

end

variable (lit) in
/-- `fullDict` is idempotent, `structureFields` gives the same for a spec and its `fullDict`, and specs with the same
text for the problem have the same text for the structure; so do, for a hash that is injective on bytes, specs with
the same hash, where their texts are well formed. -/
theorem projections_cohere {δ : Type*} {sha256 : List UInt8 → δ} (hN : N.Numerals)
    (hwf : ∀ x, WellFormed (N.toText x)) (hsha256 : Function.Injective sha256) :
    (∀ spec d : JsData ν, fullDict N lit spec = some d →
      fullDict N lit d = some d ∧ structureFields N d = structureFields N spec) ∧
    (∀ a b : JsData ν, Proper a → Proper b → ∀ t, (fullDict N lit a).bind (canonicalJson N) = some t →
      (fullDict N lit b).bind (canonicalJson N) = some t →
      ∃ u, (structureFields N a).bind (canonicalJson N) = some u ∧
        (structureFields N b).bind (canonicalJson N) = some u) ∧
    ∀ a b : JsData ν, Proper a → Proper b → TextsWellFormed a → TextsWellFormed b → ∀ h,
      problemHash N lit sha256 a = some h → problemHash N lit sha256 b = some h →
      ∃ k, structureHash N sha256 a = some k ∧ structureHash N sha256 b = some k := by
  refine ⟨fun spec d h ↦ ⟨fullDict_of_fullDict h, structureFields_of_fullDict h⟩,
    fun a b ha hb t ↦ structure_of_problem hN ha hb, fun a b ha hb hat hbt h hah hbh ↦ ?_⟩
  have htext : ∀ {c : JsData ν} {t : Text}, TextsWellFormed c → (fullDict N lit c).bind (canonicalJson N) = some t →
      WellFormed t := by
    intro c t hc ht
    obtain ⟨d, hd, hdt⟩ := Option.bind_eq_some_iff.mp ht
    have hprintable := printable_of_canonicalJson hdt
    rw [canonicalJson_eq hprintable] at hdt
    exact Option.some.inj hdt ▸ wellFormed_render hN hprintable (textsWellFormed_fullDict hwf c d hc hd)
  obtain ⟨s, hs, hsh⟩ := Option.map_eq_some_iff.mp hah
  obtain ⟨t, ht, hth⟩ := Option.map_eq_some_iff.mp hbh
  obtain rfl := utf8_inj (htext hat hs) (htext hbt ht) (hsha256 (hsh.trans hth.symm))
  obtain ⟨u, hau, hbu⟩ := structure_of_problem hN ha hb hs ht
  exact ⟨_, by rw [structureHash, hau]; rfl, by rw [structureHash, hbu]; rfl⟩

/-- The natural number of a literal that is one. -/
def natLit (q : ℚ) : ℕ := q.num.natAbs

def emptySpec : JsData ℕ := .obj []

def versionSpec : JsData ℕ := .obj [(ascii "schema_version", .number 1)]

/-- A spec that names the version, and one that leaves it to the default. -/
theorem projections_cohere_version : ∃ k, structureHash natNumbers id emptySpec = some k ∧
    structureHash natNumbers id versionSpec = some k := by
  have hascii : ∀ u ∈ ascii "0123456789+-.e", u < 0x80 := by decide
  have hversion : ∀ u ∈ ascii "schema_version", u < 0x80 := by decide
  have hwf : ∀ n, WellFormed (natNumbers.toText n) := fun n ↦
    wellFormed_of_lt fun u hu ↦ hascii u ((numerals_natNumbers n rfl).2 u hu)
  obtain ⟨-, -, hhash⟩ := projections_cohere natLit numerals_natNumbers hwf
    (Function.injective_id (α := List UInt8))
  obtain ⟨h, hempty⟩ := Option.isSome_iff_exists.mp
    (by decide +kernel : (problemHash natNumbers natLit id emptySpec).isSome)
  have hsame : problemHash natNumbers natLit id versionSpec = problemHash natNumbers natLit id emptySpec := by
    decide +kernel
  exact hhash emptySpec versionSpec (.obj List.nodup_nil nofun)
    (.obj (List.nodup_singleton _) (List.forall_mem_singleton.mpr .number)) (.obj nofun nofun)
    (.obj (List.forall_mem_singleton.mpr (wellFormed_of_lt hversion)) (List.forall_mem_singleton.mpr .number))
    h hempty (hsame.trans hempty)

end Amicode.Hashing
