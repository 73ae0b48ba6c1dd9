import Amicode.Hashing.CanonicalJson

/-!
# What a hash tells apart

Canonical JSON is a complete invariant of JSON values up to the order of keys, whatever their strings are. The hash
of a plan is taken of the text in UTF-8, which tells texts apart only where no surrogate is unpaired, and of a goal
and steps that are there: null counts as absent.
-/

namespace Amicode.Hashing

open JsonTree JsData List
open Amicode.Stream (utf16 utf16_cons utf16_append)

variable {ν δ : Type*}

/-! ## Texts without unpaired surrogates -/

/-- The code units of characters: every surrogate is paired. -/
def WellFormed (text : Text) : Prop := ∃ chars : List Char, utf16 chars = text

theorem toNat_ofNat_of_lt {n : ℕ} (h : n < 0x10000) : (UInt16.ofNat n).toNat = n := by
  rw [UInt16.toNat_ofNat']
  omega

/-- A character is one code unit that is no surrogate, or a pair of them. -/
theorem utf16_singleton (c : Char) :
    (∃ u, utf16 [c] = [u] ∧ u.toNat = c.toNat ∧ (c.toNat < 0xD800 ∨ 0xDFFF < c.toNat)) ∨
    ∃ u v, utf16 [c] = [u, v] ∧ 0x10000 ≤ c.toNat ∧ u.toNat = 0xD800 + (c.toNat - 0x10000) / 0x400 ∧
      v.toNat = 0xDC00 + (c.toNat - 0x10000) % 0x400 ∧ c.toNat < 0x110000 := by
  have hvalid : c.toNat < 0xD800 ∨ (0xDFFF < c.toNat ∧ c.toNat < 0x110000) := c.valid
  rw [utf16, flatMap_singleton]
  by_cases h : c.toNat < 0x10000
  · left
    refine ⟨_, by rw [JsText.units, if_pos h]; rfl, toNat_ofNat_of_lt h, by omega⟩
  · right
    refine ⟨_, _, by rw [JsText.units, if_neg h]; rfl, by omega, toNat_ofNat_of_lt (by omega),
      toNat_ofNat_of_lt (by omega), by omega⟩

theorem decodeUtf16_append (c : Char) (rest : Text) : decodeUtf16 (utf16 [c] ++ rest) = c :: decodeUtf16 rest := by
  rcases utf16_singleton c with ⟨u, hu, hnat, hrange⟩ | ⟨u, v, huv, hlow, hu, hv, hhigh⟩
  · have hchar : unitChar u = c := by
      rw [unitChar, if_neg, hnat, Char.ofNat_toNat]
      rw [UInt16.le_iff_toNat_le, UInt16.le_iff_toNat_le, hnat]
      simp only [UInt16.reduceToNat]
      omega
    rw [hu, cons_append, nil_append]
    rcases rest with _ | ⟨v, rest⟩
    · exact congrArg (fun d ↦ [d]) hchar
    · rw [decodeUtf16, if_neg, hchar]
      simp only [UInt16.le_iff_toNat_le, hnat, UInt16.reduceToNat]
      omega
  · have hcode : 0x10000 + (u.toNat - 0xD800) * 0x400 + (v.toNat - 0xDC00) = c.toNat := by omega
    rw [huv, cons_append, cons_append, nil_append, decodeUtf16, if_pos, hcode, Char.ofNat_toNat]
    simp only [UInt16.le_iff_toNat_le, hu, hv, UInt16.reduceToNat]
    omega

theorem decodeUtf16_utf16 (chars : List Char) : decodeUtf16 (utf16 chars) = chars := by
  induction chars with
  | nil => rfl
  | cons c chars ih => rw [utf16_cons, decodeUtf16_append, ih]

theorem utf8_inj {s t : Text} (hs : WellFormed s) (ht : WellFormed t) (h : utf8 s = utf8 t) : s = t := by
  obtain ⟨a, rfl⟩ := hs
  obtain ⟨b, rfl⟩ := ht
  rw [utf8, utf8, decodeUtf16_utf16, decodeUtf16_utf16] at h
  have hread := congrArg JsText.decodeUtf8 h
  rw [JsText.decodeUtf8_encodeUtf8, JsText.decodeUtf8_encodeUtf8] at hread
  rw [hread]

theorem wellFormed_nil : WellFormed [] := ⟨[], rfl⟩

theorem WellFormed.append {s t : Text} (hs : WellFormed s) (ht : WellFormed t) : WellFormed (s ++ t) := by
  obtain ⟨a, rfl⟩ := hs
  obtain ⟨b, rfl⟩ := ht
  exact ⟨a ++ b, utf16_append a b⟩

theorem wellFormed_of_lt {t : Text} (h : ∀ u ∈ t, u < 0x80) : WellFormed t := by
  induction t with
  | nil => exact wellFormed_nil
  | cons u t ih =>
    have hu : u.toNat < 0x80 := UInt16.lt_iff_toNat_lt.mp (h u mem_cons_self)
    have hnat : (Char.ofNat u.toNat).toNat = u.toNat := by
      rw [Char.ofNat, dif_pos (.inl (by omega))]
      rfl
    have hone : WellFormed [u] := ⟨[Char.ofNat u.toNat], by
      rw [utf16, flatMap_singleton, JsText.units, if_pos (by omega), hnat, map_singleton,
        UInt16.ofNat_toNat]⟩
    exact hone.append (ih fun v hv ↦ h v (mem_cons_of_mem _ hv))

theorem WellFormed.flatMap {α : Type*} {l : List α} {f : α → Text} (h : ∀ a ∈ l, WellFormed (f a)) :
    WellFormed (l.flatMap f) := by
  induction l with
  | nil => exact wellFormed_nil
  | cons a l ih =>
    rw [flatMap_cons]
    exact (h a mem_cons_self).append (ih fun b hb ↦ h b (mem_cons_of_mem _ hb))

theorem WellFormed.join {pieces : List Text} (h : ∀ p ∈ pieces, WellFormed p) :
    WellFormed (join [unit ','] pieces) := by
  rcases pieces with _ | ⟨piece, rest⟩
  · exact wellFormed_nil
  · rw [join_cons]
    exact (h piece mem_cons_self).append (.flatMap fun p hp ↦
      (wellFormed_of_lt (by decide)).append (h p (mem_cons_of_mem _ hp)))

theorem escaped_lt : ∀ u ∈ escaped, u < 0x80 := by decide

theorem canonUnit_lt : ∀ u ∈ escaped, ∀ v ∈ canonUnit u, v < 0x80 := by decide +kernel

theorem WellFormed.canonString {s : Text} (h : WellFormed s) : WellFormed (canonString s) := by
  obtain ⟨chars, rfl⟩ := h
  refine (wellFormed_of_lt (t := [unit '"']) (by decide)).append (WellFormed.append ?_ (wellFormed_of_lt (by decide)))
  induction chars with
  | nil => exact wellFormed_nil
  | cons c chars ih =>
    rw [utf16_cons, flatMap_append]
    refine WellFormed.append ?_ ih
    rcases utf16_singleton c with ⟨u, hu, -, -⟩ | ⟨u, v, huv, -, hu, hv, -⟩
    · by_cases hesc : u ∈ escaped
      · rw [hu, flatMap_singleton]
        exact wellFormed_of_lt (canonUnit_lt u hesc)
      · rw [hu, flatMap_singleton, canonUnit_of_not_escaped hesc]
        exact ⟨[c], hu⟩
    · -- no surrogate is escaped
      have hesc : ∀ w : UInt16, 0xD800 ≤ w.toNat → w ∉ escaped := by
        intro w hw hmem
        have hlt := UInt16.lt_iff_toNat_lt.mp (escaped_lt w hmem)
        simp only [UInt16.reduceToNat] at hlt
        omega
      rw [huv, flatMap_cons, flatMap_singleton, canonUnit_of_not_escaped (hesc u (by omega)),
        canonUnit_of_not_escaped (hesc v (by omega))]
      exact ⟨[c], huv⟩

/-- No string of the value and no key has an unpaired surrogate. -/
inductive TextsWellFormed : JsData ν → Prop
  | undefined : TextsWellFormed .undefined
  | null : TextsWellFormed .null
  | bool {b : Bool} : TextsWellFormed (.bool b)
  | number {x : ν} : TextsWellFormed (.number x)
  | str {s : Text} : WellFormed s → TextsWellFormed (.str s)
  | arr {items : List (JsData ν)} : (∀ v ∈ items, TextsWellFormed v) → TextsWellFormed (.arr items)
  | obj {members : List (Text × JsData ν)} : (∀ e ∈ members, WellFormed e.1) →
    (∀ e ∈ members, TextsWellFormed e.2) → TextsWellFormed (.obj members)

section

variable {N : Numbers ν}

theorem wellFormed_render (hN : N.Numerals) {v : JsData ν} (hv : Printable N v) (h : TextsWellFormed v) :
    WellFormed (render canonString (normal N v)) := by
  have hnull : ∀ u ∈ ascii "null", u < 0x80 := by decide
  have hlit : ∀ b : Bool, ∀ u ∈ ascii (if b then "true" else "false"), u < 0x80 := by decide
  have hnum : ∀ u ∈ ascii "0123456789+-.e", u < 0x80 := by decide
  induction h with
  | undefined | null => exact wellFormed_of_lt hnull
  | @bool b => exact wellFormed_of_lt (hlit b)
  | number =>
    cases hv with
    | number hx => exact wellFormed_of_lt fun u hu ↦ hnum u ((hN _ hx).2 u hu)
  | str hs => exact hs.canonString
  | @arr items _ ih =>
    cases hv with
    | arr hitems =>
      rw [normal, render, renderItems_eq, normalItems_eq, List.map_map]
      refine (wellFormed_of_lt (t := [unit '[']) (by decide)).append
        (WellFormed.append (.join fun p hp ↦ ?_) (wellFormed_of_lt (by decide)))
      obtain ⟨v, hv, rfl⟩ := List.mem_map.mp hp
      exact ih v hv (hitems v hv)
  | @obj members hkeys _ ih =>
    cases hv with
    | obj hvalues =>
      rw [normal, render, renderMembers_eq, normalMembers_eq]
      refine (wellFormed_of_lt (t := [unit '\x7b']) (by decide)).append
        (WellFormed.append (.join fun p hp ↦ ?_) (wellFormed_of_lt (by decide)))
      obtain ⟨e', he', rfl⟩ := List.mem_map.mp hp
      obtain ⟨e, he, rfl⟩ := List.mem_map.mp (mem_sortByKey.mp he')
      exact (hkeys e he).canonString.append
        ((wellFormed_of_lt (t := [unit ':']) (by decide)).append (ih e he (hvalues e he)))

end

/-! ## Plans -/

section

variable {N : Numbers ν} {ms ns : List (Text × JsData ν)}

theorem mem_own {value : JsData ν} {members : List (Text × JsData ν)} {key : Text} (h : own members key = value)
    (hvalue : value ≠ .undefined) : (key, value) ∈ members := by
  rw [own] at h
  rcases hfind : members.find? (fun e ↦ e.1 = key) with _ | ⟨k, v⟩
  · rw [hfind] at h
    exact absurd h.symm hvalue
  · rw [hfind] at h
    obtain rfl : v = value := h
    have hk : k = key := by simpa using find?_some hfind
    exact hk ▸ mem_of_find?_eq_some hfind

/-- What is left by `compact` is the same up to the order of keys exactly if every property is, null for
`undefined`. -/
theorem same_compact_iff (hkeys : ms.map Prod.fst = ns.map Prod.fst) (hnodup : (ms.map Prod.fst).Nodup) :
    Same (compact ms) (compact ns) ↔
      ∀ k a b, (k, a) ∈ ms → (k, b) ∈ ns → Same (a.orElse .null) (b.orElse .null) := by
  have hkept : ∀ (l : List (Text × JsData ν)) k v, (k, v) ∈ l → v.isNullish = false →
      (k, v) ∈ l.filter fun e ↦ !e.2.isNullish := fun l k v h hv ↦ mem_filter.mpr ⟨h, by simp [hv]⟩
  -- a key is left exactly if its value is neither undefined nor null
  have hdropped : ∀ (l : List (Text × JsData ν)) k v, (l.map Prod.fst).Nodup → (k, v) ∈ l →
      (k ∈ (l.filter fun e ↦ !e.2.isNullish).map Prod.fst ↔ v.isNullish = false) := by
    intro l k v hl h
    refine ⟨fun hk ↦ ?_, fun hv ↦ List.mem_map_of_mem (hkept l k v h hv)⟩
    obtain ⟨⟨k', w⟩, hw, rfl⟩ := List.mem_map.mp hk
    obtain ⟨hmem, hw⟩ := mem_filter.mp hw
    rw [eq_of_mem_of_nodup hl h hmem]
    simpa using hw
  have hnull : ∀ v : JsData ν, v.isNullish = true → v.orElse .null = .null := fun v hv ↦ if_pos hv
  have hvalue : ∀ v : JsData ν, v.isNullish = false → v.orElse .null = v := fun v hv ↦
    if_neg (by rw [hv]; exact Bool.false_ne_true)
  constructor
  · rintro (_ | _ | _ | _ | _ | _ | ⟨hfiltered, hsame⟩) k a b ha hb
    have hiff := (hdropped ms k a hnodup ha).symm.trans ((hfiltered k).trans (hdropped ns k b (hkeys ▸ hnodup) hb))
    cases hna : a.isNullish with
    | true =>
      rw [hnull a hna, hnull b (Bool.eq_true_of_not_eq_false fun hnb ↦ by rw [hiff.mpr hnb] at hna; cases hna)]
      exact .null
    | false =>
      rw [hvalue a hna, hvalue b (hiff.mp hna)]
      exact hsame k a b (hkept ms k a ha hna) (hkept ns k b hb (hiff.mp hna))
  · intro h
    have hiff : ∀ k a b, (k, a) ∈ ms → (k, b) ∈ ns → (a.isNullish = false ↔ b.isNullish = false) := by
      intro k a b ha hb
      have hsame := h k a b ha hb
      cases hna : a.isNullish <;> cases hnb : b.isNullish
      · simp
      · rw [hvalue a hna, hnull b hnb] at hsame
        cases hsame
        cases hna
      · rw [hnull a hna, hvalue b hnb] at hsame
        cases hsame
        cases hnb
      · simp
    refine .obj (fun k ↦ ?_) fun k a b ha hb ↦ ?_
    · by_cases hk : k ∈ ms.map Prod.fst
      · obtain ⟨⟨k₁, a⟩, ha, hka⟩ := List.mem_map.mp hk
        obtain ⟨⟨k₂, b⟩, hb, hkb⟩ := List.mem_map.mp (hkeys ▸ hk)
        obtain rfl : k₁ = k := hka
        obtain rfl : k₂ = k₁ := hkb
        rw [hdropped ms _ a hnodup ha, hdropped ns _ b (hkeys ▸ hnodup) hb]
        exact hiff _ a b ha hb
      · refine iff_of_false (fun hmem ↦ hk ?_) fun hmem ↦ hk (hkeys ▸ ?_)
        · exact (filter_sublist.map Prod.fst).subset hmem
        · exact (filter_sublist.map Prod.fst).subset hmem
    · obtain ⟨ha, hna⟩ := mem_filter.mp ha
      obtain ⟨hb, hnb⟩ := mem_filter.mp hb
      have hsame := h k a b ha hb
      rwa [hvalue a (by simpa using hna), hvalue b (by simpa using hnb)] at hsame

theorem own_eq (members : List (Text × JsData ν)) (key : Text) :
    own members key = .undefined ∨ (key, own members key) ∈ members := by
  by_cases h : own members key = .undefined
  · exact .inl h
  · exact .inr (mem_own rfl h)

variable {plan : JsData ν}

theorem isJson_get (h : plan.IsJson N) (key : String) :
    plan.get key = .undefined ∨ (plan.get key).IsJson N := by
  cases h with
  | @obj members _ hvalues => exact (own_eq members (ascii key)).imp id (hvalues _)
  | _ => exact .inl rfl

theorem textsWellFormed_get (h : TextsWellFormed plan) (key : String) :
    TextsWellFormed (plan.get key) := by
  cases h with
  | @obj members _ hvalues =>
    rcases own_eq members (ascii key) with hnone | hmem
    · have hget : (JsData.obj members).get key = .undefined := hnone
      rw [hget]
      exact .undefined
    · exact hvalues _ hmem
  | _ => exact .undefined

/-- What the hash of a plan is taken of. -/
def planFields (plan : JsData ν) : List (Text × JsData ν) :=
  [(ascii "goal", plan.get "goal"), (ascii "steps", plan.get "steps")]

theorem nodup_planFields (plan : JsData ν) : ((planFields plan).map Prod.fst).Nodup := by
  change [ascii "goal", ascii "steps"].Nodup
  decide

theorem forall_planFields {P : Text × JsData ν → Prop} :
    (∀ e ∈ planFields plan, P e) ↔ P (ascii "goal", plan.get "goal") ∧ P (ascii "steps", plan.get "steps") := by
  simp [planFields]

theorem isJson_compact (h : plan.IsJson N) : (compact (planFields plan)).IsJson N := by
  refine .obj ((nodup_planFields plan).sublist (filter_sublist.map _)) fun e he ↦ ?_
  obtain ⟨hmem, hkept⟩ := mem_filter.mp he
  have hfields : ∀ e ∈ planFields plan, e.2 = .undefined ∨ e.2.IsJson N :=
    forall_planFields.mpr ⟨isJson_get h _, isJson_get h _⟩
  rcases hfields e hmem with hnone | hjson
  · rw [hnone] at hkept
    cases hkept
  · exact hjson

theorem textsWellFormed_compact (h : TextsWellFormed plan) :
    TextsWellFormed (compact (planFields plan)) := by
  have hascii : ∀ key ∈ ["goal", "steps"], ∀ u ∈ ascii key, u < 0x80 := by decide
  have hkeys : ∀ e ∈ planFields plan, WellFormed e.1 :=
    forall_planFields.mpr ⟨wellFormed_of_lt (hascii _ (by decide)), wellFormed_of_lt (hascii _ (by decide))⟩
  have hfields : ∀ e ∈ planFields plan, TextsWellFormed e.2 :=
    forall_planFields.mpr ⟨textsWellFormed_get h _, textsWellFormed_get h _⟩
  exact .obj (fun e he ↦ hkeys e (mem_of_mem_filter he)) fun e he ↦ hfields e (mem_of_mem_filter he)

/-- The plans have the same value in a field up to the order of keys; a null counts as absent. -/
def SameField (key : String) (p q : JsData ν) : Prop := Same ((p.get key).orElse .null) ((q.get key).orElse .null)

theorem same_compact_planFields {p q : JsData ν} :
    Same (compact (planFields p)) (compact (planFields q)) ↔ SameField "goal" p q ∧ SameField "steps" p q := by
  have hne : ascii "goal" ≠ ascii "steps" := by decide
  have hkeys : (planFields p).map Prod.fst = (planFields q).map Prod.fst := rfl
  rw [same_compact_iff hkeys (nodup_planFields p)]
  constructor
  · exact fun h ↦ ⟨h _ _ _ mem_cons_self mem_cons_self, h _ _ _ (.tail _ mem_cons_self)
      (.tail _ mem_cons_self)⟩
  · rintro ⟨hgoal, hsteps⟩ k a b ha hb
    simp only [planFields, mem_cons, Prod.mk.injEq, not_mem_nil, or_false] at ha hb
    rcases ha with ⟨rfl, rfl⟩ | ⟨rfl, rfl⟩ <;> rcases hb with ⟨hk, rfl⟩ | ⟨hk, rfl⟩
    · exact hgoal
    · exact absurd hk hne
    · exact absurd hk.symm hne
    · exact hsteps

theorem planHash_eq {δ : Type*} (sha256 : List UInt8 → δ) (h : plan.IsJson N) :
    planHash N sha256 plan
      = some (sha256 (utf8 (render canonString (normal N (compact (planFields plan)))))) := by
  rw [planHash, ← planFields, canonicalJson_eq (isJson_compact h).printable]
  rfl

theorem planHash_eq_iff {sha256 : List UInt8 → δ} (hsha256 : Function.Injective sha256) (hN : N.Numerals)
    (hinj : N.Injective) {p q : JsData ν} (hp : p.IsJson N) (hq : q.IsJson N) (hpt : TextsWellFormed p)
    (hqt : TextsWellFormed q) :
    planHash N sha256 p = planHash N sha256 q ↔ SameField "goal" p q ∧ SameField "steps" p q := by
  have hcp := (isJson_compact hp).printable
  have hcq := (isJson_compact hq).printable
  rw [planHash_eq sha256 hp, planHash_eq sha256 hq, Option.some.injEq, hsha256.eq_iff,
    ← same_compact_planFields, ← normal_eq_iff_same hN hinj (isJson_compact hp) (isJson_compact hq)]
  refine ⟨fun h ↦ ?_, fun h ↦ by rw [h]⟩
  have htext := utf8_inj (wellFormed_render hN hcp (textsWellFormed_compact hpt))
    (wellFormed_render hN hcq (textsWellFormed_compact hqt)) h
  exact render_inj quoting_canonString (valid_normal hN hcp) (valid_normal hN hcq) htext

end

/-- Every JSON value has a canonical text, which tells it from every value that is not equal to it up to the order of
keys; and the hash of a plan whose texts are well formed tells it apart by goal and steps. -/
theorem canonicalJson_complete {N : Numbers ν} (hN : N.Numerals) (hinj : N.Injective) {sha256 : List UInt8 → δ}
    (hsha256 : Function.Injective sha256) :
    (∀ a : JsData ν, a.IsJson N → ∃ text, canonicalJson N a = some text) ∧
    (∀ a b : JsData ν, a.IsJson N → b.IsJson N → (canonicalJson N a = canonicalJson N b ↔ Same a b)) ∧
    ∀ p q : JsData ν, p.IsJson N → q.IsJson N → TextsWellFormed p → TextsWellFormed q →
      (planHash N sha256 p = planHash N sha256 q ↔ SameField "goal" p q ∧ SameField "steps" p q) := by
  refine ⟨fun a ha ↦ ⟨_, canonicalJson_eq ha.printable⟩, fun a b ha hb ↦ ?_, fun p q hp hq hpt hqt ↦
    planHash_eq_iff hsha256 hN hinj hp hq hpt hqt⟩
  rw [canonicalJson_eq_iff hN ha.printable hb.printable]
  exact normal_eq_iff_same hN hinj ha hb

/-! ### Natural numbers -/

def natNumbers : Numbers ℕ := ⟨fun n ↦ (JsText.decimal n).map unit, fun _ ↦ true⟩

theorem unit_mem_numeral {c : Char} (h : JsText.isDigit c = true) : unit c ∈ ascii "0123456789+-.e" := by
  have hall : ∀ n < 58, 48 ≤ n → UInt16.ofNat n ∈ ascii "0123456789+-.e" := by decide
  simp only [JsText.isDigit, Bool.and_eq_true, decide_eq_true_eq] at h
  exact hall c.toNat (Nat.lt_succ_of_le h.2) h.1

theorem numerals_natNumbers : natNumbers.Numerals := by
  intro n _
  refine ⟨fun h ↦ ?_, fun u hu ↦ ?_⟩
  · have hread := JsText.decimal?_decimal n
    rw [map_eq_nil_iff.mp h] at hread
    cases hread
  · obtain ⟨c, hc, rfl⟩ := List.mem_map.mp hu
    exact unit_mem_numeral (JsText.isDigit_of_mem_decimal hc)

theorem injective_natNumbers : natNumbers.Injective := by
  have hread : ∀ n : ℕ, (natNumbers.toText n).map (fun u ↦ Char.ofNat u.toNat) = JsText.decimal n := by
    intro n
    rw [natNumbers, List.map_map]
    refine (map_congr_left fun c hc ↦ ?_).trans (List.map_id _)
    have hdigit := JsText.isDigit_of_mem_decimal hc
    simp only [JsText.isDigit, Bool.and_eq_true, decide_eq_true_eq] at hdigit
    have hlt : c.toNat ≤ 57 := hdigit.2
    rw [Function.comp_apply, unit, toNat_ofNat_of_lt (by omega), Char.ofNat_toNat, id]
  intro m n _ _ h
  have hdecimal : JsText.decimal m = JsText.decimal n := by rw [← hread, ← hread, h]
  have hvalue := congrArg JsText.decimal? hdecimal
  rw [JsText.decimal?_decimal, JsText.decimal?_decimal] at hvalue
  exact Option.some.inj hvalue

def goalOf (goal : JsData ℕ) : JsData ℕ := .obj [(ascii "goal", goal), (ascii "steps", .arr [])]

def noGoal : JsData ℕ := .obj [(ascii "steps", .arr [])]

theorem get_goalOf (goal : JsData ℕ) : (goalOf goal).get "goal" = goal := rfl

/-- A goal that is null and no goal have the same hash, and so have two goals that are an unpaired surrogate. -/
theorem not_planHash_complete :
    (planHash natNumbers id (goalOf .null) = planHash natNumbers id noGoal ∧
      ¬ Same ((goalOf .null).get "goal") (noGoal.get "goal")) ∧
    (planHash natNumbers id (goalOf (.str [0xD800])) = planHash natNumbers id (goalOf (.str [0xDBFF])) ∧
      ¬ Same ((goalOf (.str [0xD800])).get "goal") ((goalOf (.str [0xDBFF])).get "goal")) := by
  refine ⟨⟨rfl, ?_⟩, by decide +kernel, ?_⟩
  · have hnone : noGoal.get "goal" = .undefined := rfl
    rw [get_goalOf, hnone]
    nofun
  · rw [get_goalOf, get_goalOf]
    nofun

def pairOf (first second : Text × JsData ℕ) : JsData ℕ := .obj [first, second]

theorem forall_pair {P : Text × JsData ℕ → Prop} {first second : Text × JsData ℕ} (hfirst : P first)
    (hsecond : P second) : ∀ e ∈ [first, second], P e := by
  simpa using ⟨hfirst, hsecond⟩

theorem isJson_pairOf {first second : Text × JsData ℕ} (hne : first.1 ≠ second.1) (hfirst : first.2.IsJson natNumbers)
    (hsecond : second.2.IsJson natNumbers) : (pairOf first second).IsJson natNumbers :=
  .obj (by simpa using hne) (forall_pair hfirst hsecond)

/-- Two orders of keys, and two goals. -/
theorem canonicalJson_complete_nats :
    canonicalJson natNumbers (pairOf (ascii "a", .number 1) (ascii "b", .null))
        = canonicalJson natNumbers (pairOf (ascii "b", .null) (ascii "a", .number 1)) ∧
      planHash natNumbers id (goalOf (.number 1)) ≠ planHash natNumbers id (goalOf (.number 2)) := by
  obtain ⟨-, htext, hplan⟩ :=
    canonicalJson_complete numerals_natNumbers injective_natNumbers (Function.injective_id (α := List UInt8))
  have hab : ascii "a" ≠ ascii "b" := by decide
  have hfields : ascii "goal" ≠ ascii "steps" := by decide
  have hascii : ∀ key ∈ ["goal", "steps"], ∀ u ∈ ascii key, u < 0x80 := by decide
  have hnum : ∀ n, (JsData.number n).IsJson natNumbers := fun n ↦ .number rfl
  have hgoal : ∀ n, (goalOf (.number n)).IsJson natNumbers := fun n ↦
    isJson_pairOf hfields (hnum n) (.arr nofun)
  have htexts : ∀ n, TextsWellFormed (goalOf (.number n)) := fun n ↦
    .obj (forall_pair (wellFormed_of_lt (hascii _ (by decide))) (wellFormed_of_lt (hascii _ (by decide))))
      (forall_pair .number (.arr nofun))
  refine ⟨(htext _ _ (isJson_pairOf hab (hnum 1) .null) (isJson_pairOf hab.symm .null (hnum 1))).mpr ?_, fun h ↦ ?_⟩
  · refine .obj (by simp [or_comm]) fun k a b ha hb ↦ ?_
    simp only [List.mem_cons, Prod.mk.injEq, List.not_mem_nil, or_false] at ha hb
    rcases ha with ⟨rfl, rfl⟩ | ⟨rfl, rfl⟩ <;> rcases hb with ⟨hk, rfl⟩ | ⟨hk, rfl⟩
    · exact absurd hk hab
    · exact .number
    · exact .null
    · exact absurd hk hab.symm
  · have hsame := ((hplan _ _ (hgoal 1) (hgoal 2) (htexts 1) (htexts 2)).mp h).1
    cases hsame

end Amicode.Hashing
