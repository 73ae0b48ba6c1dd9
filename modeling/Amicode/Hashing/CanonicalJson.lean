import Amicode.Foundation.JsData
import Amicode.Foundation.Utf8
import Amicode.Stream.FrameText
import Mathlib.Data.List.Sort

/-!
# Canonical JSON

The hashes of the schema package are taken of a canonical text (`hashing.ts`): the keys of an object in the order
of their code units, the characters of a string escaped, numbers as the runtime prints them. The text is hashed in
UTF-8, in which every unpaired surrogate is written as U+FFFD. SHA-256 is a parameter.
-/

open List Option

namespace Amicode.Hashing

open JsonTree JsData

variable {ν : Type*}

/-! ## The canonical text -/

/-- One code unit of a string, escaped. A pair of surrogates is copied like its units. -/
def canonUnit (u : UInt16) : Text :=
  if u = unit '"' then ascii "\\\""
  else if u = unit '\\' then ascii "\\\\"
  else if u = 0x08 then ascii "\\b"
  else if u = 0x09 then ascii "\\t"
  else if u = 0x0A then ascii "\\n"
  else if u = 0x0C then ascii "\\f"
  else if u = 0x0D then ascii "\\r"
  else if u < 0x20 then ascii "\\u" ++ (JsText.padStart 4 '0' (Nat.toDigits 16 u.toNat)).map unit
  else [u]

def canonString (s : Text) : Text := unit '"' :: (s.flatMap canonUnit ++ [unit '"'])

/-- None where the number is not finite: the function throws. -/
def canonNumber (N : Numbers ν) (x : ν) : Option Text := if N.isFinite x then some (N.toText x) else none

/-- `keys.sort()`, the keys taken with what belongs to them. -/
def sortByKey {α : Type*} (entries : List (Text × α)) : List (Text × α) :=
  entries.insertionSort fun a b ↦ (compare a.1 b.1).isLE = true

mutual

/-- `canonicalJson`; none where it throws. -/
def canonicalJson (N : Numbers ν) : JsData ν → Option Text
  | .undefined | .null => some (ascii "null")
  | .bool b => some (ascii (if b then "true" else "false"))
  | .number x => canonNumber N x
  | .str s => some (canonString s)
  | .arr items => (canonicalItems N items).map fun pieces ↦ unit '[' :: (join [unit ','] pieces ++ [unit ']'])
  | .obj members => (canonicalMembers N members).map fun pieces ↦
    unit '\x7b' :: (join [unit ','] ((sortByKey pieces).map fun e ↦ canonString e.1 ++ unit ':' :: e.2)
      ++ [unit '\x7d'])
termination_by structural value => value

def canonicalItems (N : Numbers ν) : List (JsData ν) → Option (List Text)
  | [] => some []
  | item :: items => do return (← canonicalJson N item) :: (← canonicalItems N items)
termination_by structural items => items

/-- The members of an object, each key with the canonical text of its value. -/
def canonicalMembers (N : Numbers ν) : List (Text × JsData ν) → Option (List (Text × Text))
  | [] => some []
  | (key, value) :: members => do return (key, ← canonicalJson N value) :: (← canonicalMembers N members)
termination_by structural members => members

end

/-! ## UTF-8 -/

/-- The character of a code unit, U+FFFD for a surrogate. -/
def unitChar (u : UInt16) : Char := if 0xD800 ≤ u ∧ u ≤ 0xDFFF then '\uFFFD' else Char.ofNat u.toNat

/-- The characters of a text, as an encoder reads them: an unpaired surrogate is U+FFFD. -/
def decodeUtf16 : Text → List Char
  | [] => []
  | [u] => [unitChar u]
  | u :: v :: rest =>
    if (0xD800 ≤ u ∧ u ≤ 0xDBFF) ∧ 0xDC00 ≤ v ∧ v ≤ 0xDFFF then
      Char.ofNat (0x10000 + (u.toNat - 0xD800) * 0x400 + (v.toNat - 0xDC00)) :: decodeUtf16 rest
    else unitChar u :: decodeUtf16 (v :: rest)

/-- The bytes that are hashed. -/
def utf8 (text : Text) : List UInt8 := JsText.encodeUtf8 (decodeUtf16 text)

/-! ## The hash of a plan -/

variable {δ : Type*}

def sha256hex (sha256 : List UInt8 → δ) (text : Text) : δ := sha256 (utf8 text)

/-- `compact`: the properties that are neither `undefined` nor null. -/
def compact (members : List (Text × JsData ν)) : JsData ν := .obj (members.filter fun e ↦ !e.2.isNullish)

/-- `planHash`; none where it throws. -/
def planHash (N : Numbers ν) (sha256 : List UInt8 → δ) (plan : JsData ν) : Option δ :=
  (canonicalJson N (compact [(ascii "goal", plan.get "goal"), (ascii "steps", plan.get "steps")])).map
    (sha256hex sha256)

end Amicode.Hashing

/-!
# The normal form of a value

The canonical text of a value is that of its normal form, a tree (`canonicalJson_eq`), and the text determines the
tree (`normal_eq_iff`). So two values have the same canonical text exactly if they have the same normal form, and
JSON values have the same normal form exactly if they are equal up to the order of keys (`normal_eq_iff_same`).
-/

namespace Amicode.Hashing

open JsonTree JsData

variable {ν : Type*}

/-! ## Strings are read back -/

/-- The code units that are escaped. -/
def escaped : List UInt16 := unit '"' :: unit '\\' :: (List.range 0x20).map UInt16.ofNat

theorem canonUnit_of_not_escaped {u : UInt16} (h : u ∉ escaped) : canonUnit u = [u] := by
  have hlow : ¬ u < 0x20 := by
    intro hlt
    refine h (mem_cons_of_mem _ (mem_cons_of_mem _ (List.mem_map.mpr ⟨u.toNat, ?_, UInt16.ofNat_toNat⟩)))
    exact mem_range.mpr (UInt16.lt_iff_toNat_lt.mp hlt)
  have hne : ∀ v ∈ escaped, u ≠ v := fun v hv heq ↦ h (heq ▸ hv)
  unfold canonUnit
  rw [if_neg (hne _ (by decide)), if_neg (hne _ (by decide)), if_neg (hne _ (by decide)),
    if_neg (hne _ (by decide)), if_neg (hne _ (by decide)), if_neg (hne _ (by decide)),
    if_neg (hne _ (by decide)), if_neg hlow]

theorem head_canonUnit_of_escaped : ∀ u ∈ escaped, (canonUnit u).head? = some (unit '\\') := by
  decide +kernel

theorem canonUnit_inj_of_begins : ∀ u ∈ escaped, ∀ v ∈ escaped, canonUnit u <+: canonUnit v → u = v := by
  decide +kernel

theorem canonUnit_append_inj {u v : UInt16} {x y : Text} (h : canonUnit u ++ x = canonUnit v ++ y) :
    u = v ∧ x = y := by
  have hu : u = v := by
    by_cases hu : u ∈ escaped
    · by_cases hv : v ∈ escaped
      · -- of two beginnings of one text, one is a beginning of the other
        have hx : canonUnit u <+: canonUnit v ++ y := h ▸ prefix_append _ _
        rcases prefix_or_prefix_of_prefix hx (prefix_append _ y) with hp | hp
        · exact canonUnit_inj_of_begins u hu v hv hp
        · exact (canonUnit_inj_of_begins v hv u hu hp).symm
      · have hhead := head_canonUnit_of_escaped u hu
        rw [canonUnit_of_not_escaped hv] at h
        rcases hc : canonUnit u with _ | ⟨w, rest⟩
        · rw [hc] at hhead
          cases hhead
        · rw [hc] at hhead h
          obtain rfl := Option.some.inj hhead
          exact absurd (by rw [← (List.cons.inj h).1]; decide) hv
    · by_cases hv : v ∈ escaped
      · have hhead := head_canonUnit_of_escaped v hv
        rw [canonUnit_of_not_escaped hu] at h
        rcases hc : canonUnit v with _ | ⟨w, rest⟩
        · rw [hc] at hhead
          cases hhead
        · rw [hc] at hhead h
          obtain rfl := Option.some.inj hhead
          exact absurd (by rw [(List.cons.inj h).1]; decide) hu
      · rw [canonUnit_of_not_escaped hu, canonUnit_of_not_escaped hv] at h
        exact (List.cons.inj h).1
  subst hu
  exact ⟨rfl, append_cancel_left h⟩

theorem canonUnit_ne_quote {u : UInt16} {x y : Text} : canonUnit u ++ x ≠ unit '"' :: y := by
  intro h
  by_cases hu : u ∈ escaped
  · have hhead := head_canonUnit_of_escaped u hu
    rcases hc : canonUnit u with _ | ⟨w, rest⟩
    · rw [hc] at hhead
      cases hhead
    · rw [hc] at hhead h
      rw [(List.cons.inj h).1, head?_cons] at hhead
      exact absurd hhead (by decide)
  · rw [canonUnit_of_not_escaped hu] at h
    exact hu ((List.cons.inj h).1 ▸ by decide)

theorem quoting_canonString : Quoting canonString := by
  refine ⟨fun s ↦ ⟨_, rfl⟩, fun {a b x y} h ↦ ?_⟩
  simp only [canonString, cons_append, append_assoc, nil_append, List.cons.injEq, true_and] at h
  induction a generalizing b with
  | nil =>
    rcases b with _ | ⟨v, b⟩
    · exact ⟨rfl, (List.cons.inj h).2⟩
    · rw [flatMap_cons, append_assoc] at h
      exact absurd h.symm canonUnit_ne_quote
  | cons u a ih =>
    rcases b with _ | ⟨v, b⟩
    · rw [flatMap_cons, append_assoc] at h
      exact absurd h canonUnit_ne_quote
    · rw [flatMap_cons, flatMap_cons, append_assoc, append_assoc] at h
      obtain ⟨rfl, hrest⟩ := canonUnit_append_inj h
      obtain ⟨rfl, rfl⟩ := ih hrest
      exact ⟨rfl, rfl⟩

/-! ## The normal form -/

section

variable (N : Numbers ν)

mutual

/-- The tree of a value: what it is written from. -/
def normal : JsData ν → Tree
  | .undefined | .null => .word (ascii "null")
  | .bool b => .word (ascii (if b then "true" else "false"))
  | .number x => .word (N.toText x)
  | .str s => .str s
  | .arr items => .arr (normalItems items)
  | .obj members => .obj (sortByKey (normalMembers members))
termination_by structural value => value

def normalItems : List (JsData ν) → List Tree
  | [] => []
  | item :: items => normal item :: normalItems items
termination_by structural items => items

def normalMembers : List (Text × JsData ν) → List (Text × Tree)
  | [] => []
  | (key, value) :: members => (key, normal value) :: normalMembers members
termination_by structural members => members

end

theorem normalItems_eq (items : List (JsData ν)) : normalItems N items = items.map (normal N) := by
  induction items with
  | nil => rfl
  | cons item items ih => rw [normalItems, ih, map_cons]

theorem normalMembers_eq (members : List (Text × JsData ν)) :
    normalMembers N members = members.map fun e ↦ (e.1, normal N e.2) := by
  induction members with
  | nil => rfl
  | cons e members ih =>
    obtain ⟨key, value⟩ := e
    rw [normalMembers, ih, map_cons]

end

/-! ### Sorting by keys -/

section

variable {α β : Type*}

theorem perm_sortByKey (entries : List (Text × α)) : (sortByKey entries).Perm entries :=
  perm_insertionSort _ entries

theorem mem_sortByKey {entries : List (Text × α)} {e : Text × α} : e ∈ sortByKey entries ↔ e ∈ entries :=
  (perm_sortByKey entries).mem_iff

theorem sortByKey_map (f : α → β) (entries : List (Text × α)) :
    sortByKey (entries.map fun e ↦ (e.1, f e.2)) = (sortByKey entries).map fun e ↦ (e.1, f e.2) :=
  (map_insertionSort _ _ (fun e : Text × α ↦ (e.1, f e.2)) entries fun _ _ _ _ ↦ Iff.rfl).symm

theorem sortByKey_eq_of_perm {entries entries' : List (Text × α)} (hnodup : (entries.map Prod.fst).Nodup)
    (h : entries.Perm entries') : sortByKey entries = sortByKey entries' := by
  have htotal : Std.Total fun a b : Text × α ↦ (compare a.1 b.1).isLE = true :=
    ⟨fun a b ↦ by
      rw [Std.OrientedOrd.eq_swap (a := a.1)]
      cases compare b.1 a.1 <;> decide⟩
  have htrans : IsTrans (Text × α) fun a b ↦ (compare a.1 b.1).isLE = true := ⟨fun _ _ _ ↦ Std.TransCmp.isLE_trans⟩
  have hanti : ∀ a b : Text × α, a ∈ sortByKey entries → b ∈ sortByKey entries' → (compare a.1 b.1).isLE = true →
      (compare b.1 a.1).isLE = true → a = b := by
    intro a b ha hb hab hba
    have hkey : a.1 = b.1 := Std.LawfulEqOrd.eq_of_compare (Std.OrientedCmp.isLE_antisymm hab hba)
    exact inj_on_of_nodup_map hnodup (mem_sortByKey.mp ha) (h.mem_iff.mpr (mem_sortByKey.mp hb)) hkey
  exact Perm.eq_of_pairwise hanti (pairwise_insertionSort _ _) (pairwise_insertionSort _ _)
    ((perm_sortByKey _).trans (h.trans (perm_sortByKey _).symm))

end

/-! ### The text of the normal form -/

section

variable {N : Numbers ν}

theorem canonicalItems_eq {items : List (JsData ν)}
    (h : ∀ v ∈ items, canonicalJson N v = some (render canonString (normal N v))) :
    canonicalItems N items = some (items.map fun v ↦ render canonString (normal N v)) := by
  induction items with
  | nil => rfl
  | cons item items ih =>
    rw [canonicalItems, h item mem_cons_self, ih fun v hv ↦ h v (mem_cons_of_mem _ hv)]
    rfl

theorem canonicalMembers_eq {members : List (Text × JsData ν)}
    (h : ∀ e ∈ members, canonicalJson N e.2 = some (render canonString (normal N e.2))) :
    canonicalMembers N members = some (members.map fun e ↦ (e.1, render canonString (normal N e.2))) := by
  induction members with
  | nil => rfl
  | cons e members ih =>
    have he : canonicalJson N e.2 = some (render canonString (normal N e.2)) := h e mem_cons_self
    obtain ⟨key, value⟩ := e
    rw [canonicalMembers, he, ih fun e he ↦ h e (mem_cons_of_mem _ he)]
    rfl

theorem canonicalJson_eq {v : JsData ν} (h : Printable N v) :
    canonicalJson N v = some (render canonString (normal N v)) := by
  induction h with
  | undefined | null | bool | str => rfl
  | number hx => exact if_pos hx
  | @arr items _ ih =>
    rw [canonicalJson, canonicalItems_eq ih, normal, render, renderItems_eq, normalItems_eq, List.map_map]
    rfl
  | @obj members _ ih =>
    rw [canonicalJson, canonicalMembers_eq ih, normal, render, renderMembers_eq, normalMembers_eq, map_some,
      sortByKey_map fun v ↦ render canonString (normal N v), sortByKey_map (normal N), List.map_map, List.map_map]
    rfl

theorem printable_of_canonicalJson {v : JsData ν} {text : Text} (h : canonicalJson N v = some text) :
    Printable N v := by
  induction v generalizing text with
  | undefined => exact .undefined
  | null => exact .null
  | bool => exact .bool
  | str => exact .str
  | number x =>
    rw [canonicalJson, canonNumber] at h
    split_ifs at h with hx
    exact .number hx
  | arr items ih =>
    rw [canonicalJson] at h
    obtain ⟨pieces, hpieces, -⟩ := map_eq_some_iff.mp h
    refine .arr fun v hv ↦ ?_
    clear h
    induction items generalizing pieces with
    | nil => cases hv
    | cons item items ihs =>
      simp only [canonicalItems, bind, pure, bind_eq_some_iff] at hpieces
      obtain ⟨t, ht, rest, hrest, -⟩ := hpieces
      rcases mem_cons.mp hv with rfl | hv
      · exact ih _ mem_cons_self ht
      · exact ihs (fun v hv ↦ ih v (mem_cons_of_mem _ hv)) rest hrest hv
  | obj members ih =>
    rw [canonicalJson] at h
    obtain ⟨pieces, hpieces, -⟩ := map_eq_some_iff.mp h
    refine .obj fun e he ↦ ?_
    clear h
    induction members generalizing pieces with
    | nil => cases he
    | cons e' members ihs =>
      obtain ⟨key, value⟩ := e'
      simp only [canonicalMembers, bind, pure, bind_eq_some_iff] at hpieces
      obtain ⟨t, ht, rest, hrest, -⟩ := hpieces
      rcases mem_cons.mp he with rfl | he
      · exact ih _ mem_cons_self ht
      · exact ihs (fun e he ↦ ih e (mem_cons_of_mem _ he)) rest hrest he

theorem numeral_not_mark : ∀ u ∈ ascii "0123456789+-.e", ¬ IsMark u := by decide

theorem valid_normal (hN : N.Numerals) {v : JsData ν} (h : Printable N v) : (normal N v).Valid := by
  induction h with
  | undefined | null => exact .word (by decide)
  | @bool b => exact .word (by cases b <;> decide)
  | str => exact .str
  | @number x hx => exact .word ⟨(hN x hx).1, fun u hu ↦ numeral_not_mark u ((hN x hx).2 u hu)⟩
  | @arr items _ ih =>
    rw [normal, normalItems_eq]
    refine .arr fun t ht ↦ ?_
    obtain ⟨v, hv, rfl⟩ := List.mem_map.mp ht
    exact ih v hv
  | @obj members _ ih =>
    rw [normal, normalMembers_eq]
    refine .obj fun e he ↦ ?_
    obtain ⟨e', he', rfl⟩ := List.mem_map.mp (mem_sortByKey.mp he)
    exact ih e' he'

/-- Values have the same canonical text exactly if they have the same normal form. -/
theorem canonicalJson_eq_iff (hN : N.Numerals) {a b : JsData ν} (ha : Printable N a) (hb : Printable N b) :
    canonicalJson N a = canonicalJson N b ↔ normal N a = normal N b := by
  rw [canonicalJson_eq ha, canonicalJson_eq hb, Option.some.injEq]
  exact ⟨render_inj quoting_canonString (valid_normal hN ha) (valid_normal hN hb), congrArg _⟩

/-! ## Equal up to the order of keys -/

theorem eq_of_mem_of_nodup {α : Type*} {ms : List (Text × α)} (h : (ms.map Prod.fst).Nodup) {k : Text} {a b : α}
    (ha : (k, a) ∈ ms) (hb : (k, b) ∈ ms) : a = b :=
  congrArg Prod.snd (inj_on_of_nodup_map h ha hb rfl)

theorem normal_obj_eq_iff {ms ns : List (Text × JsData ν)} (hms : (ms.map Prod.fst).Nodup)
    (hns : (ns.map Prod.fst).Nodup) : normal N (.obj ms) = normal N (.obj ns) ↔
      (∀ k, k ∈ ms.map Prod.fst ↔ k ∈ ns.map Prod.fst) ∧
        ∀ k a b, (k, a) ∈ ms → (k, b) ∈ ns → normal N a = normal N b := by
  have hfst : ∀ l : List (Text × JsData ν), (l.map fun e ↦ (e.1, normal N e.2)).map Prod.fst = l.map Prod.fst :=
    fun l ↦ by rw [List.map_map]; rfl
  have hmem : ∀ (l : List (Text × JsData ν)) k t,
      (k, t) ∈ l.map (fun e : Text × JsData ν ↦ (e.1, normal N e.2)) ↔ ∃ v, (k, v) ∈ l ∧ normal N v = t := by simp
  rw [normal, normal, normalMembers_eq, normalMembers_eq, Tree.obj.injEq]
  constructor
  · intro h
    have hperm := (perm_sortByKey _).symm.trans (h ▸ perm_sortByKey (ns.map fun e : Text × JsData ν ↦ (e.1, normal N e.2)))
    refine ⟨fun k ↦ ?_, fun k a b ha hb ↦ ?_⟩
    · rw [← hfst ms, ← hfst ns]
      exact (hperm.map Prod.fst).mem_iff
    · obtain ⟨b', hb', heq⟩ := (hmem ns k _).mp (hperm.mem_iff.mp ((hmem ms k _).mpr ⟨a, ha, rfl⟩))
      rw [← heq, eq_of_mem_of_nodup hns hb hb']
  · rintro ⟨hkeys, hvalues⟩
    refine sortByKey_eq_of_perm (hfst ms ▸ hms) ?_
    rw [perm_ext_iff_of_nodup (Nodup.of_map _ (hfst ms ▸ hms)) (Nodup.of_map _ (hfst ns ▸ hns))]
    rintro ⟨k, t⟩
    rw [hmem, hmem]
    constructor
    · rintro ⟨a, ha, rfl⟩
      obtain ⟨⟨_, b⟩, hb, rfl⟩ := List.mem_map.mp ((hkeys k).mp (List.mem_map_of_mem ha))
      exact ⟨b, hb, (hvalues _ a b ha hb).symm⟩
    · rintro ⟨b, hb, rfl⟩
      obtain ⟨⟨_, a⟩, ha, rfl⟩ := List.mem_map.mp ((hkeys k).mpr (List.mem_map_of_mem hb))
      exact ⟨a, ha, hvalues _ a b ha hb⟩

theorem normal_arr_eq_iff {as bs : List (JsData ν)} : normal N (.arr as) = normal N (.arr bs) ↔
    as.length = bs.length ∧ ∀ i (ha : i < as.length) (hb : i < bs.length), normal N as[i] = normal N bs[i] := by
  rw [normal, normal, normalItems_eq, normalItems_eq, Tree.arr.injEq]
  constructor
  · intro h
    refine ⟨by simpa using congrArg List.length h, fun i ha hb ↦ ?_⟩
    have hi := getElem_of_eq h (by simpa using ha : i < (as.map (normal N)).length)
    simpa using hi
  · rintro ⟨hlength, hitems⟩
    refine ext_getElem (by simpa using hlength) fun i ha hb ↦ ?_
    simpa using hitems i (by simpa using ha) (by simpa using hb)

theorem toText_ne (hN : N.Numerals) {x : ν} (hx : N.isFinite x = true) :
    N.toText x ≠ ascii "null" ∧ ∀ b : Bool, N.toText x ≠ ascii (if b then "true" else "false") := by
  have hmem := (hN x hx).2
  refine ⟨fun h ↦ ?_, fun b h ↦ ?_⟩
  · rw [h] at hmem
    revert hmem
    decide
  · rw [h] at hmem
    revert hmem
    cases b <;> decide

/-- JSON values have the same normal form exactly if they are equal up to the order of keys. -/
theorem normal_eq_iff_same (hN : N.Numerals) (hinj : N.Injective) {a b : JsData ν} (ha : a.IsJson N)
    (hb : b.IsJson N) : normal N a = normal N b ↔ Same a b := by
  have hbool : ∀ b : Bool, ascii "null" ≠ ascii (if b then "true" else "false") := by decide
  induction ha generalizing b with
  | null =>
    cases hb with
    | null => exact iff_of_true rfl .null
    | @bool c => exact iff_of_false (fun h ↦ hbool c (Tree.word.inj h)) nofun
    | number hx => exact iff_of_false (fun h ↦ (toText_ne hN hx).1 (Tree.word.inj h).symm) nofun
    | _ => exact iff_of_false nofun nofun
  | @bool c =>
    cases hb with
    | null => exact iff_of_false (fun h ↦ hbool c (Tree.word.inj h).symm) nofun
    | @bool d =>
      refine ⟨fun h ↦ ?_, fun h ↦ by cases h; rfl⟩
      obtain rfl : c = d := by
        revert h
        cases c <;> cases d <;> simp [normal] <;> decide
      exact .bool
    | number hx => exact iff_of_false (fun h ↦ (toText_ne hN hx).2 c (Tree.word.inj h).symm) nofun
    | _ => exact iff_of_false nofun nofun
  | @number x hx =>
    cases hb with
    | null => exact iff_of_false (fun h ↦ (toText_ne hN hx).1 (Tree.word.inj h)) nofun
    | @bool c => exact iff_of_false (fun h ↦ (toText_ne hN hx).2 c (Tree.word.inj h)) nofun
    | @number y hy =>
      refine ⟨fun h ↦ ?_, fun h ↦ by cases h; rfl⟩
      obtain rfl := hinj x y hx hy (Tree.word.inj h)
      exact .number
    | _ => exact iff_of_false nofun nofun
  | @str s =>
    cases hb with
    | @str t =>
      refine ⟨fun h ↦ ?_, fun h ↦ by cases h; rfl⟩
      obtain rfl := Tree.str.inj h
      exact .str
    | _ => exact iff_of_false nofun nofun
  | @arr as has ih =>
    cases hb with
    | @arr bs hbs =>
      rw [normal_arr_eq_iff]
      constructor
      · rintro ⟨hlength, hitems⟩
        exact .arr hlength fun i ha hb ↦ (ih _ (getElem_mem ha) (hbs _ (getElem_mem hb))).mp (hitems i ha hb)
      · rintro (_ | _ | _ | _ | _ | ⟨hlength, hitems⟩)
        exact ⟨hlength, fun i ha hb ↦
          (ih _ (getElem_mem ha) (hbs _ (getElem_mem hb))).mpr (hitems i ha hb)⟩
    | _ => exact iff_of_false nofun nofun
  | @obj ms hms hvalues ih =>
    cases hb with
    | @obj ns hns hvalues' =>
      rw [normal_obj_eq_iff hms hns]
      constructor
      · rintro ⟨hkeys, hsame⟩
        exact .obj hkeys fun k a b ha hb ↦ (ih _ ha (hvalues' _ hb)).mp (hsame k a b ha hb)
      · rintro (_ | _ | _ | _ | _ | _ | ⟨hkeys, hsame⟩)
        exact ⟨hkeys, fun k a b ha hb ↦ (ih _ ha (hvalues' _ hb)).mpr (hsame k a b ha hb)⟩
    | _ => exact iff_of_false nofun nofun

end

end Amicode.Hashing
