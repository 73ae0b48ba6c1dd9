import Mathlib.Data.List.Induction
import Mathlib.Data.List.Nodup

/-!
# Maps that remember insertion order

An `InsertionMap` is a finite map whose entries are listed in the order their keys were first
inserted: overwriting a key keeps its place, erasing a key and inserting it again moves it to the
end. This is the iteration order of an ECMAScript `Map` (and, with a trivial value type, `Set`).

Distinctness of the keys is a field of the structure, so a lookup has at most one answer and
`size` counts keys. The list operations come first, under `InsertionMap.Entries`; the map
operations wrap them and carry the invariant.
-/

variable {κ ν : Type*} [DecidableEq κ]

open List Option

namespace InsertionMap.Entries

/-! ## Association lists -/

/-- The value at the first occurrence of a key. -/
def get? : List (κ × ν) → κ → Option ν
  | [], _ => none
  | (k, v) :: rest, key => if k = key then some v else get? rest key

/-- Overwrite a key in place, or append it. -/
def set : List (κ × ν) → κ → ν → List (κ × ν)
  | [], key, value => [(key, value)]
  | (k, v) :: rest, key, value =>
    if k = key then (k, value) :: rest else (k, v) :: set rest key value

def erase (entries : List (κ × ν)) (key : κ) : List (κ × ν) :=
  entries.filter fun e ↦ e.1 ≠ key

variable (entries : List (κ × ν))

theorem get?_set (key : κ) (value : ν) (k : κ) :
    get? (set entries key value) k = if key = k then some value else get? entries k := by
  induction entries with
  | nil => rfl
  | cons e rest ih =>
    obtain ⟨k', v'⟩ := e
    by_cases hk : k' = key
    · subst hk
      rw [set, if_pos rfl, get?, get?]
      split <;> rfl
    · rw [set, if_neg hk, get?, get?, ih]
      by_cases hk' : k' = k
      · subst hk'
        rw [if_pos rfl, if_pos rfl, if_neg (Ne.symm hk)]
      · rw [if_neg hk', if_neg hk']

theorem get?_erase (key k : κ) : get? (erase entries key) k = if key = k then none else get? entries k := by
  induction entries with
  | nil => simp [erase, get?]
  | cons e rest ih =>
    obtain ⟨k', v'⟩ := e
    rw [erase] at ih
    by_cases hk : k' = key
    · subst hk
      rw [erase, filter_cons_of_neg (by simp), ih, get?]
      split <;> rfl
    · rw [erase, filter_cons_of_pos (by simpa using hk), get?, get?, ih]
      by_cases hk' : k' = k
      · subst hk'
        rw [if_pos rfl, if_pos rfl, if_neg (Ne.symm hk)]
      · rw [if_neg hk', if_neg hk']

theorem mem_keys_set (key : κ) (value : ν) (k : κ) :
    k ∈ (set entries key value).map Prod.fst ↔ k = key ∨ k ∈ entries.map Prod.fst := by
  induction entries with
  | nil => simp [set]
  | cons e rest ih =>
    obtain ⟨k', v'⟩ := e
    by_cases hk : k' = key
    · subst hk
      simp [set]
    · rw [set, if_neg hk, map_cons, mem_cons, ih, map_cons, mem_cons]
      tauto

variable {entries : List (κ × ν)}

theorem nodup_set (key : κ) (value : ν)
    (h : (entries.map Prod.fst).Nodup) : ((set entries key value).map Prod.fst).Nodup := by
  induction entries with
  | nil => simp [set]
  | cons e rest ih =>
    obtain ⟨k', v'⟩ := e
    rw [map_cons, nodup_cons] at h
    by_cases hk : k' = key
    · subst hk
      rw [set, if_pos rfl, map_cons, nodup_cons]
      exact h
    · rw [set, if_neg hk, map_cons, nodup_cons, mem_keys_set]
      refine ⟨?_, ih h.2⟩
      rintro (heq | hmem)
      · exact hk heq
      · exact h.1 hmem

theorem set_of_not_mem {key : κ} (value : ν) (h : key ∉ entries.map Prod.fst) :
    set entries key value = entries ++ [(key, value)] := by
  induction entries with
  | nil => rfl
  | cons e rest ih =>
    obtain ⟨k, v⟩ := e
    rw [map_cons, mem_cons, not_or] at h
    rw [set, if_neg (Ne.symm h.1), ih h.2, cons_append]

theorem get?_eq_none_iff (entries : List (κ × ν)) (key : κ) :
    get? entries key = none ↔ key ∉ entries.map Prod.fst := by
  induction entries with
  | nil => simp [get?]
  | cons e rest ih =>
    obtain ⟨k', v'⟩ := e
    by_cases hk : k' = key
    · simp [get?, hk]
    · rw [get?, if_neg hk, ih, map_cons, mem_cons]
      simp [Ne.symm hk]

/-- With distinct keys, a lookup succeeds exactly on the listed pairs. -/
theorem get?_eq_some_iff (h : (entries.map Prod.fst).Nodup) (key : κ)
    (value : ν) : get? entries key = some value ↔ (key, value) ∈ entries := by
  induction entries with
  | nil => simp [get?]
  | cons e rest ih =>
    obtain ⟨k', v'⟩ := e
    rw [map_cons, nodup_cons] at h
    by_cases hk : k' = key
    · subst hk
      have hnot : (k', value) ∉ rest := fun hmem ↦ h.1 (List.mem_map.mpr ⟨_, hmem, rfl⟩)
      simp [get?, hnot, eq_comm]
    · rw [get?, if_neg hk, ih h.2, mem_cons]
      simp [Ne.symm hk]

end InsertionMap.Entries

/-- A finite map listing its entries in order of first insertion. -/
structure InsertionMap (κ ν : Type*) [DecidableEq κ] where
  /-- The entries, oldest key first. -/
  entries : List (κ × ν)
  /-- No key is listed twice. -/
  nodup : (entries.map Prod.fst).Nodup

namespace InsertionMap

/-! ## The map operations -/

def empty : InsertionMap κ ν := ⟨[], List.nodup_nil⟩

instance : EmptyCollection (InsertionMap κ ν) := ⟨empty⟩

def get? (m : InsertionMap κ ν) (key : κ) : Option ν := Entries.get? m.entries key

/-- Give a key a value: in place when the key is present, at the end when it is new. -/
def set (m : InsertionMap κ ν) (key : κ) (value : ν) : InsertionMap κ ν :=
  ⟨Entries.set m.entries key value, Entries.nodup_set key value m.nodup⟩

def erase (m : InsertionMap κ ν) (key : κ) : InsertionMap κ ν :=
  ⟨Entries.erase m.entries key,
    List.Nodup.sublist ((List.filter_sublist).map Prod.fst) m.nodup⟩

/-- Is the key present? -/
def contains (m : InsertionMap κ ν) (key : κ) : Bool := (m.get? key).isSome

def keys (m : InsertionMap κ ν) : List κ := m.entries.map Prod.fst

/-- The values, oldest key first. -/
def values (m : InsertionMap κ ν) : List ν := m.entries.map Prod.snd

/-- The number of keys. -/
def size (m : InsertionMap κ ν) : ℕ := m.entries.length

/-- Write every entry of a list, in order. -/
def setAll (m : InsertionMap κ ν) (updates : List (κ × ν)) : InsertionMap κ ν :=
  updates.foldl (fun acc e ↦ acc.set e.1 e.2) m

/-- Keep the entries that pass a test. -/
def filter (m : InsertionMap κ ν) (p : κ → ν → Bool) : InsertionMap κ ν :=
  ⟨m.entries.filter fun e ↦ p e.1 e.2,
    List.Nodup.sublist ((List.filter_sublist).map Prod.fst) m.nodup⟩

/-- Keep the entries whose key passes a test. -/
def filterKeys (m : InsertionMap κ ν) (p : κ → Bool) : InsertionMap κ ν :=
  ⟨m.entries.filter fun e ↦ p e.1, List.Nodup.sublist ((List.filter_sublist).map Prod.fst) m.nodup⟩

@[simp] theorem get?_empty (key : κ) : (∅ : InsertionMap κ ν).get? key = none := rfl

variable (m : InsertionMap κ ν)

theorem get?_set (key : κ) (value : ν) (k : κ) :
    (m.set key value).get? k = if key = k then some value else m.get? k :=
  Entries.get?_set m.entries key value k

@[simp] theorem get?_set_self (key : κ) (value : ν) : (m.set key value).get? key = some value := by
  rw [get?_set, if_pos rfl]

theorem get?_set_of_ne {key k : κ} (value : ν) (h : key ≠ k) : (m.set key value).get? k = m.get? k := by
  rw [get?_set, if_neg h]

theorem get?_erase (key k : κ) : (m.erase key).get? k = if key = k then none else m.get? k :=
  Entries.get?_erase m.entries key k

@[simp] theorem get?_erase_self (key : κ) : (m.erase key).get? key = none := by
  rw [get?_erase, if_pos rfl]

theorem get?_erase_of_ne {key k : κ} (h : key ≠ k) : (m.erase key).get? k = m.get? k := by
  rw [get?_erase, if_neg h]

theorem get?_eq_some_iff (key : κ) (value : ν) : m.get? key = some value ↔ (key, value) ∈ m.entries :=
  Entries.get?_eq_some_iff m.nodup key value

theorem get?_eq_none_iff (key : κ) : m.get? key = none ↔ key ∉ m.keys :=
  Entries.get?_eq_none_iff m.entries key

theorem get?_filter (p : κ → ν → Bool) (k : κ) : (m.filter p).get? k = (m.get? k).filter (p k) := by
  apply Option.ext
  intro value
  rw [filter_eq_some_iff, get?_eq_some_iff, get?_eq_some_iff]
  exact mem_filter

theorem get?_filterKeys (p : κ → Bool) (k : κ) : (m.filterKeys p).get? k = if p k then m.get? k else none := by
  rw [show m.filterKeys p = m.filter fun k _ ↦ p k from rfl, get?_filter]
  rcases m.get? k with _ | value <;> simp [Option.filter]

theorem get?_setAll_map (keys : List κ) (value : κ → ν) (k : κ) :
    (m.setAll (keys.map fun key ↦ (key, value key))).get? k = if k ∈ keys then some (value k) else m.get? k := by
  induction keys generalizing m with
  | nil => rfl
  | cons key keys ih =>
    have hcons : m.setAll ((key :: keys).map fun key ↦ (key, value key))
        = (m.set key (value key)).setAll (keys.map fun key ↦ (key, value key)) := rfl
    rw [hcons, ih, get?_set]
    by_cases hk : k = key
    · subst hk
      simp
    · simp [hk, Ne.symm hk]

theorem get?_setAll_const (keys : List κ) (value : ν) (k : κ) :
    (m.setAll (keys.map fun key ↦ (key, value))).get? k = if k ∈ keys then some value else m.get? k :=
  get?_setAll_map m keys (fun _ ↦ value) k

variable {updates : List (κ × ν)}

/-- What a list writes at a key does not depend on the map, nor on the writes at other keys that
are left out. -/
theorem get?_setAll_filter {p : κ × ν → Bool} {k : κ}
    (hp : ∀ e ∈ updates, e.1 = k → p e = true) {m m' : InsertionMap κ ν}
    (h : m.get? k = m'.get? k ∨ k ∈ updates.map Prod.fst) :
    (m.setAll (updates.filter p)).get? k = (m'.setAll updates).get? k := by
  induction updates generalizing m m' with
  | nil => exact h.resolve_right (by simp)
  | cons e updates ih =>
    have hrest : ∀ e' ∈ updates, e'.1 = k → p e' = true :=
      fun e' he' ↦ hp e' (mem_cons_of_mem e he')
    by_cases hk : e.1 = k
    · have hkeep : (e :: updates).filter p = e :: updates.filter p :=
        filter_cons_of_pos (hp e mem_cons_self hk)
      rw [hkeep]
      exact ih hrest (Or.inl (by rw [get?_set, get?_set, if_pos hk, if_pos hk]))
    · have hthere : (m'.set e.1 e.2).get? k = m'.get? k := get?_set_of_ne m' e.2 hk
      have h' : m.get? k = m'.get? k ∨ k ∈ updates.map Prod.fst := by
        rcases h with h | h
        · exact Or.inl h
        · rcases mem_cons.mp h with rfl | h
          · exact absurd rfl hk
          · exact Or.inr h
      rcases hpe : p e with _ | _
      · rw [filter_cons_of_neg (by simp [hpe])]
        exact ih hrest (h'.imp_left fun h ↦ h.trans hthere.symm)
      · rw [filter_cons_of_pos hpe]
        refine ih hrest (h'.imp_left fun h ↦ ?_)
        rw [get?_set_of_ne m e.2 hk, hthere, h]

theorem get?_setAll_congr {k : κ} {m m' : InsertionMap κ ν}
    (h : m.get? k = m'.get? k ∨ k ∈ updates.map Prod.fst) :
    (m.setAll updates).get? k = (m'.setAll updates).get? k := by
  have hfilter := get?_setAll_filter (p := fun _ ↦ true) (fun _ _ _ ↦ rfl) h
  rwa [filter_eq_self.mpr (by simp)] at hfilter

theorem get?_setAll_of_not_mem {k : κ} (h : k ∉ updates.map Prod.fst) : (m.setAll updates).get? k = m.get? k := by
  induction updates generalizing m with
  | nil => rfl
  | cons e updates ih =>
    rw [map_cons, mem_cons, not_or] at h
    exact (ih (m.set e.1 e.2) h.2).trans (get?_set_of_ne m e.2 (Ne.symm h.1))

theorem get?_setAll_entries (other : InsertionMap κ ν) (k : κ) :
    (m.setAll other.entries).get? k = (other.get? k).or (m.get? k) := by
  obtain ⟨updates, hnodup⟩ := other
  change (m.setAll updates).get? k = (Entries.get? updates k).or (m.get? k)
  induction updates generalizing m with
  | nil => rfl
  | cons e updates ih =>
    rw [map_cons, nodup_cons] at hnodup
    by_cases hk : e.1 = k
    · subst hk
      have hrest := get?_setAll_of_not_mem (m.set e.1 e.2) hnodup.1
      rw [Entries.get?, if_pos rfl, some_or]
      exact hrest.trans ((get?_set m e.1 e.2 e.1).trans (if_pos rfl))
    · rw [Entries.get?, if_neg hk]
      exact (ih (m.set e.1 e.2) hnodup.2).trans (by rw [get?_set_of_ne m e.2 hk])

theorem setAll_empty_entries : (∅ : InsertionMap κ ν).setAll m.entries = m := by
  have hall : ∀ (rest : List (κ × ν)) (done : InsertionMap κ ν),
      ((done.entries ++ rest).map Prod.fst).Nodup → (done.setAll rest).entries = done.entries ++ rest := by
    intro rest
    induction rest with
    | nil => exact fun done _ ↦ (append_nil done.entries).symm
    | cons e rest ih =>
      intro done hnodup
      have hnew : e.1 ∉ done.entries.map Prod.fst := by
        rw [map_append, map_cons] at hnodup
        exact fun hmem ↦ (disjoint_of_nodup_append hnodup) hmem mem_cons_self
      have hset : (done.set e.1 e.2).entries = done.entries ++ [e] := Entries.set_of_not_mem e.2 hnew
      have hrest := ih (done.set e.1 e.2) (by rwa [hset, append_assoc, singleton_append])
      rw [hset, append_assoc, singleton_append] at hrest
      exact hrest
  have hentries := hall m.entries ∅ m.nodup
  obtain ⟨entries, hnodup⟩ := m
  rcases hset : (∅ : InsertionMap κ ν).setAll entries with ⟨entries', hnodup'⟩
  rw [hset] at hentries
  cases hentries
  rfl

theorem erase_of_not_contains {key : κ} (h : m.contains key = false) : m.erase key = m := by
  have habsent : key ∉ m.keys := by
    rw [← get?_eq_none_iff, ← not_isSome_iff_eq_none, ← contains, h]
    exact Bool.false_ne_true
  have hsame : Entries.erase m.entries key = m.entries := by
    refine filter_eq_self.mpr fun e he ↦ ?_
    simp only [ne_eq, decide_not, Bool.not_eq_true', decide_eq_false_iff_not]
    rintro rfl
    exact habsent (List.mem_map_of_mem he)
  cases m
  rw [erase, mk.injEq]
  exact hsame

theorem contains_erase (key k : κ) : (m.erase key).contains k = (m.contains k && k != key) := by
  rw [contains, get?_erase, contains]
  by_cases h : key = k
  · simp [h]
  · simp [h, Ne.symm h]

theorem contains_set (key : κ) (value : ν) (k : κ) :
    (m.set key value).contains k = (m.contains k || k == key) := by
  rw [contains, get?_set, contains]
  by_cases h : key = k
  · simp [h]
  · simp [h, Ne.symm h]

theorem contains_iff (key : κ) : m.contains key = true ↔ key ∈ m.keys := by
  rw [contains, isSome_iff_ne_none, ne_eq, get?_eq_none_iff, not_not]

theorem mem_keys_set (key : κ) (value : ν) (k : κ) : k ∈ (m.set key value).keys ↔ k = key ∨ k ∈ m.keys :=
  Entries.mem_keys_set m.entries key value k

/-! ## Values under a key of their own -/

section

variable (f : ν → κ) (m : InsertionMap κ ν)

theorem setAll_append (a b : List (κ × ν)) : m.setAll (a ++ b) = (m.setAll a).setAll b :=
  foldl_append

theorem get?_setAll_keyed (values : List ν) (k : κ) :
    (empty.setAll (values.map fun v ↦ (f v, v))).get? k = (values.filter fun v ↦ f v = k).getLast? := by
  induction values using List.reverseRecOn with
  | nil => rfl
  | append_singleton values v ih =>
    have hset : empty.setAll ((values ++ [v]).map fun v ↦ (f v, v))
        = (empty.setAll (values.map fun v ↦ (f v, v))).set (f v) v := by
      rw [map_append, setAll_append]
      rfl
    rw [hset, get?_set, ih, filter_append]
    split_ifs with hk
    · rw [filter_cons_of_pos (by simpa using hk), filter_nil, getLast?_concat]
    · rw [filter_cons_of_neg (by simpa using hk), filter_nil, append_nil]

theorem mem_values_iff (v : ν) : v ∈ m.values ↔ ∃ k, m.get? k = some v := by
  simp only [values, List.mem_map, get?_eq_some_iff]
  constructor
  · rintro ⟨⟨k, w⟩, hmem, rfl⟩
    exact ⟨k, hmem⟩
  · rintro ⟨k, hmem⟩
    exact ⟨(k, v), hmem, rfl⟩

theorem mem_values_keyed {values : List ν} {v : ν}
    (h : v ∈ (empty.setAll (values.map fun v ↦ (f v, v))).values) : v ∈ values := by
  obtain ⟨k, hk⟩ := (mem_values_iff _ v).mp h
  rw [get?_setAll_keyed] at hk
  exact mem_of_mem_filter (mem_of_getLast? hk)

theorem mem_values_keyed_of_unique {values : List ν} {v : ν} (hv : v ∈ values)
    (hunique : ∀ w ∈ values, f w = f v → w = v) : v ∈ (empty.setAll (values.map fun v ↦ (f v, v))).values := by
  rw [mem_values_iff]
  refine ⟨f v, ?_⟩
  rw [get?_setAll_keyed]
  have hne : (values.filter fun w ↦ f w = f v) ≠ [] :=
    ne_nil_of_mem (mem_filter.mpr ⟨hv, decide_eq_true rfl⟩)
  have hlast := mem_filter.mp (getLast_mem hne)
  rw [getLast?_eq_some_getLast hne, hunique _ hlast.1 (of_decide_eq_true hlast.2)]

theorem keys_keyed (values : List ν) : (empty.setAll (values.map fun v ↦ (f v, v))).keys
    = (empty.setAll (values.map fun v ↦ (f v, v))).values.map f := by
  rw [keys, InsertionMap.values, List.map_map]
  refine map_congr_left fun e he ↦ ?_
  have hget := (get?_eq_some_iff _ e.1 e.2).mpr he
  rw [get?_setAll_keyed] at hget
  exact (of_decide_eq_true (mem_filter.mp (mem_of_getLast? hget)).2).symm

theorem nodup_values_keyed (values : List ν) : (empty.setAll (values.map fun v ↦ (f v, v))).values.Nodup := by
  refine Nodup.of_map f ?_
  rw [← keys_keyed]
  exact InsertionMap.nodup _

theorem head?_keys_set (key : κ) (value : ν) : (m.set key value).keys.head? = some (m.keys.head?.getD key) := by
  obtain ⟨entries, hnodup⟩ := m
  rcases entries with _ | ⟨⟨k, v⟩, rest⟩
  · rfl
  · simp only [keys, set, Entries.set]
    split_ifs <;> rfl

variable {m}

theorem head?_keys_setAll (v : ν) (values : List ν) :
    (empty.setAll ((v :: values).map fun v ↦ (f v, v))).keys.head? = some (f v) := by
  induction values using List.reverseRecOn with
  | nil => rfl
  | append_singleton values w ih =>
    rw [← cons_append, map_append, setAll_append]
    exact (head?_keys_set _ _ _).trans (by rw [ih, getD_some])

/-- Whatever the updates, in some order of them a value of theirs comes first. -/
theorem exists_perm_values_keyed {ρ : Type*} [DecidableEq ν] (g : ρ → Option ν) {rows : List ρ} {v : ν}
    (hv : v ∈ rows.filterMap g) : ∃ rows', rows.Perm rows' ∧ ∃ rest,
      (empty.setAll ((rows'.filterMap g).map fun v ↦ (f v, v))).values = v :: rest := by
  -- first the rows of the key with another value, then those with the value, then the others
  let other (r : ρ) : Bool := (g r).any fun w ↦ f w = f v && w ≠ v
  let same (r : ρ) : Bool := g r = some v
  let mine := (rows.filter fun r ↦ ! other r).filter same
  let rest := (rows.filter fun r ↦ ! other r).filter fun r ↦ ! same r
  have hperm : rows.Perm (rows.filter other ++ (mine ++ rest)) :=
    (filter_append_perm other rows).symm.trans
      ((filter_append_perm same (rows.filter fun r ↦ ! other r)).symm.append_left _)
  refine ⟨_, hperm, ?_⟩
  have hother : ∀ w ∈ (rows.filter other).filterMap g, f w = f v := by
    intro w hw
    obtain ⟨r, hr, hg⟩ := mem_filterMap.mp hw
    have := (mem_filter.mp hr).2
    simp only [other, hg, any_some, Bool.and_eq_true, decide_eq_true_eq] at this
    exact this.1
  have hmine : ∀ w ∈ mine.filterMap g, w = v := by
    intro w hw
    obtain ⟨r, hr, hg⟩ := mem_filterMap.mp hw
    exact Option.some.inj (hg.symm.trans (of_decide_eq_true (mem_filter.mp hr).2))
  have hrest : ∀ w ∈ rest.filterMap g, f w ≠ f v := by
    intro w hw hf
    obtain ⟨r, hr, hg⟩ := mem_filterMap.mp hw
    obtain ⟨hr, hsame⟩ := mem_filter.mp hr
    have hnot := (mem_filter.mp hr).2
    simp only [other, same, hg, any_some, hf, decide_true, Bool.true_and, Bool.not_eq_true',
      decide_eq_false_iff_not, Option.some.injEq, not_not] at hnot hsame
    exact hsame hnot
  have hmem : v ∈ mine.filterMap g := by
    obtain ⟨r, hr, hg⟩ := mem_filterMap.mp hv
    have hnot : other r = false := by simp [other, hg]
    exact mem_filterMap.mpr ⟨r, mem_filter.mpr ⟨mem_filter.mpr ⟨hr, by simp [hnot]⟩,
      decide_eq_true hg⟩, hg⟩
  set others := (rows.filter other).filterMap g
  set mines := mine.filterMap g
  set rests := rest.filterMap g
  rw [filterMap_append, filterMap_append]
  have hlast : ((others ++ (mines ++ rests)).filter fun w ↦ f w = f v).getLast? = some v := by
    have hnone : (rests.filter fun w ↦ f w = f v) = [] :=
      filter_eq_nil_iff.mpr fun w hw ↦ by simpa using hrest w hw
    have hall : (mines.filter fun w ↦ f w = f v) = mines :=
      filter_eq_self.mpr fun w hw ↦ by simp [hmine w hw]
    have hne : mines ≠ [] := ne_nil_of_mem hmem
    rw [filter_append, filter_append, hnone, hall, append_nil, getLast?_append,
      getLast?_eq_some_getLast hne, hmine _ (getLast_mem hne), some_or]
  have hhead : ∃ w ws, others ++ (mines ++ rests) = w :: ws ∧ f w = f v := by
    rcases hcases : others with _ | ⟨w, ws⟩
    · rcases hcases' : mines with _ | ⟨w, ws⟩
      · rw [hcases'] at hmem
        cases hmem
      · exact ⟨w, ws ++ rests, rfl, by rw [hmine w (hcases' ▸ mem_cons_self)]⟩
    · exact ⟨w, ws ++ (mines ++ rests), rfl, hother w (hcases ▸ mem_cons_self)⟩
  obtain ⟨w, ws, hsplit, hw⟩ := hhead
  have hkey := head?_keys_setAll f w ws
  rw [← hsplit, hw] at hkey
  have hget := get?_setAll_keyed f (others ++ (mines ++ rests)) (f v)
  rw [hlast] at hget
  generalize empty.setAll ((others ++ (mines ++ rests)).map fun v ↦ (f v, v)) = m at hkey hget ⊢
  obtain ⟨entries, hnodup⟩ := m
  rcases entries with _ | ⟨⟨k, u⟩, entries⟩
  · cases hkey
  · obtain rfl : k = f v := Option.some.inj hkey
    have hu : u = v := by
      rw [get?, Entries.get?, if_pos rfl] at hget
      exact Option.some.inj hget
    exact ⟨entries.map Prod.snd, by rw [InsertionMap.values, map_cons, hu]⟩

end

/-! ## The values under a function -/

section Map

variable {ν' : Type*} (f : ν → ν') (m : InsertionMap κ ν)

theorem Entries.get?_map (entries : List (κ × ν)) (key : κ) :
    get? (entries.map fun e ↦ (e.1, f e.2)) key = (get? entries key).map f := by
  induction entries with
  | nil => rfl
  | cons e rest ih =>
    rw [List.map_cons, get?, get?, ih]
    split <;> rfl

theorem Entries.map_set (entries : List (κ × ν)) (key : κ) (value : ν) :
    (set entries key value).map (fun e ↦ (e.1, f e.2)) = set (entries.map fun e ↦ (e.1, f e.2)) key (f value) := by
  induction entries with
  | nil => rfl
  | cons e rest ih =>
    rw [List.map_cons, set, set, ← ih]
    split <;> rfl

/-- The same keys, with the values under a function. -/
def map : InsertionMap κ ν' where
  entries := m.entries.map fun e ↦ (e.1, f e.2)
  nodup := by
    rw [List.map_map]
    exact m.nodup

theorem get?_map (key : κ) : (m.map f).get? key = (m.get? key).map f := Entries.get?_map f m.entries key

theorem map_set (key : κ) (value : ν) : (m.set key value).map f = (m.map f).set key (f value) := by
  simp only [map, set, Entries.map_set]

theorem keys_map : (m.map f).keys = m.keys := List.map_map

end Map

end InsertionMap

/-! ## Sets that remember insertion order -/

/-- A finite set listing its members in order of insertion. -/
abbrev InsertionSet (κ : Type*) [DecidableEq κ] := InsertionMap κ Unit

namespace InsertionSet

def add (s : InsertionSet κ) (key : κ) : InsertionSet κ := InsertionMap.set s key ()

end InsertionSet
