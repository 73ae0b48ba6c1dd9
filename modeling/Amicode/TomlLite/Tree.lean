import Amicode.TomlLite.Expressions

/-!
# The tables of a document as they grow

A header and an assignment only add to the tables: what stands under a key of a table and is no table itself
stays there (`valueAt?_define`, `valueAt?_store`). The walk of the reader to a table and the definition of the
table by the format agree on a path without inherited names (`walk_of_define`). On any other path the walk stops
(`Tidy.not_inherited_of_walk`), since the reader never makes a table under an inherited name (`Tidy`).
-/

namespace Amicode.TomlLite

open JsObject Option

/-- What stands under a key of the table at a path. -/
def valueAt? (members : Members) (path : List String) (key : String) : Option TomlValue :=
  (tableAt? members path).bind (own? · key)

def TomlValue.IsLeaf : TomlValue → Prop
  | .table _ => False
  | _ => True

theorem Value.isLeaf_value (value : Value) : value.value.IsLeaf := by cases value <;> trivial

theorem Value.isLeaf_read? {value : Value} {tail : Tail} {read : TomlValue} (h : value.read? tail = some read) :
    read.IsLeaf := by
  cases value with
  | str pieces =>
    obtain rfl := Option.some.inj h
    trivial
  | bool b =>
    obtain rfl := Option.some.inj h
    trivial
  | int n =>
    cases n with
    | decimal sign digits hz =>
      rw [read?, Integer.read?] at h
      split_ifs at h
      obtain rfl := Option.some.inj h
      trivial
    | inBase base digits => cases h
  | array a =>
    rw [read?] at h
    split_ifs at h
    obtain rfl := Option.some.inj h
    trivial

section

variable {members sub : Members} {part : String} {path : List String}

theorem tableAt?_cons_of_own? (h : own? members part = some (.table sub)) :
    tableAt? members (part :: path) = tableAt? sub path := by
  rw [tableAt?, h]

theorem exists_of_tableAt?_cons {found : Members} (h : tableAt? members (part :: path) = some found) :
    ∃ sub, own? members part = some (.table sub) ∧ tableAt? sub path = some found := by
  rw [tableAt?] at h
  split at h
  · exact ⟨_, ‹_›, h⟩
  · cases h

theorem tableAt?_assign_self (members : Members) (part : String) (sub : Members) (path : List String) :
    tableAt? (JsObject.assign members part (.table sub)) (part :: path) = tableAt? sub path :=
  tableAt?_cons_of_own? own?_assign_self

theorem tableAt?_assign_of_ne {name : String} (h : name ≠ part) (value : TomlValue) :
    tableAt? (JsObject.assign members name value) (part :: path) = tableAt? members (part :: path) := by
  rw [tableAt?, own?_assign_of_ne h, tableAt?]

end

/-! ## Headers -/

variable {value : TomlValue} {conflict : String} {path : List String} {part : String} {key : String}

theorem valueAt?_assign_table {members sub sub' : Members} (hleaf : value.IsLeaf)
    (hsub : ∀ path, valueAt? sub path key = some value → valueAt? sub' path key = some value)
    (hown : own? members part = some (.table sub) ∨ own? members part = none)
    (h : valueAt? members path key = some value) :
    valueAt? (JsObject.assign members part (.table sub')) path key = some value := by
  cases path with
  | nil =>
    have hne : part ≠ key := by
      rintro rfl
      obtain hown | hown := hown
      · obtain rfl := Option.some.inj (hown.symm.trans h)
        exact hleaf
      · cases hown.symm.trans h
    exact (own?_assign_of_ne hne).trans h
  | cons name path =>
    by_cases hname : part = name
    · subst hname
      rw [valueAt?, tableAt?_assign_self]
      refine hsub path ?_
      obtain hown | hown := hown
      · rwa [valueAt?, tableAt?_cons_of_own? hown] at h
      · rw [valueAt?, tableAt?, hown] at h
        cases h
    · rwa [valueAt?, tableAt?_assign_of_ne hname]

variable {members members' : Members}

theorem exists_of_define_cons {header : List String} (h : define members (part :: header) = some members') :
    ∃ sub sub', (own? members part = some (.table sub) ∨ own? members part = none ∧ sub = []) ∧
      define sub header = some sub' ∧ members' = JsObject.assign members part (.table sub') := by
  rw [define] at h
  split at h
  · next sub hown =>
    obtain ⟨sub', hsub, rfl⟩ := map_eq_some_iff.mp h
    exact ⟨sub, sub', .inl hown, hsub, rfl⟩
  · cases h
  · next hown =>
    obtain ⟨sub', hsub, rfl⟩ := map_eq_some_iff.mp h
    exact ⟨[], sub', .inr ⟨hown, rfl⟩, hsub, rfl⟩

theorem exists_of_walk_cons (h : (walk conflict .ok members (part :: path)).toOption = some members') :
    ∃ sub sub', (own? members part = some (.table sub) ∨
        own? members part = none ∧ sub = [] ∧ part ∉ inheritedNames) ∧
      (walk conflict .ok sub path).toOption = some sub' ∧ members' = JsObject.assign members part (.table sub') := by
  rw [walk] at h
  split at h
  · next sub hown =>
    rw [toOption_map] at h
    obtain ⟨sub', hsub, rfl⟩ := map_eq_some_iff.mp h
    exact ⟨sub, sub', .inl hown, hsub, rfl⟩
  · cases h
  · next hown =>
    split_ifs at h with hproto hpart
    · cases h
    · cases h
    · rw [toOption_map] at h
      obtain ⟨sub', hsub, rfl⟩ := map_eq_some_iff.mp h
      exact ⟨[], sub', .inr ⟨hown, rfl, hpart⟩, hsub, rfl⟩

theorem valueAt?_define {header path : List String}
    (hleaf : value.IsLeaf) (hdefine : define members header = some members')
    (h : valueAt? members path key = some value) : valueAt? members' path key = some value := by
  induction header generalizing members members' path with
  | nil =>
    obtain rfl := Option.some.inj hdefine
    exact h
  | cons part header ih =>
    obtain ⟨sub, sub', hown, hsub, rfl⟩ := exists_of_define_cons hdefine
    exact valueAt?_assign_table hleaf (fun path ↦ ih hsub) (hown.imp_right And.left) h

theorem tableAt?_define {header : List String}
    (h : define members header = some members') : (tableAt? members' header).isSome := by
  induction header generalizing members members' with
  | nil => rfl
  | cons part header ih =>
    obtain ⟨sub, sub', -, hsub, rfl⟩ := exists_of_define_cons h
    rw [tableAt?_assign_self]
    exact ih hsub

theorem define_of_walk
    (h : (walk conflict .ok members path).toOption = some members') : define members path = some members' := by
  induction path generalizing members members' with
  | nil => exact h
  | cons part path ih =>
    rw [define]
    obtain ⟨sub, sub', hown | ⟨hown, rfl, -⟩, hsub, rfl⟩ := exists_of_walk_cons h
    · simp only [hown, ih hsub, map_some]
    · simp only [hown, ih hsub, map_some]

theorem walk_of_define (hpath : ∀ part ∈ path, part ∉ inheritedNames) (h : define members path = some members') :
    (walk conflict .ok members path).toOption = some members' := by
  induction path generalizing members members' with
  | nil => exact h
  | cons part path ih =>
    obtain ⟨hpart, hpath⟩ := List.forall_mem_cons.mp hpath
    have hproto : part ≠ "__proto__" := by
      rintro rfl
      exact hpart (by decide)
    rw [walk]
    obtain ⟨sub, sub', hown | ⟨hown, rfl⟩, hsub, rfl⟩ := exists_of_define_cons h
    · simp only [hown, toOption_map, ih hpath hsub, map_some]
    · simp only [hown, if_neg hproto, if_neg hpart, toOption_map, ih hpath hsub, map_some]

/-! ## Assignments -/

theorem tableAt?_updateAt (f : Members → Members) (members : Members) (path : List String) :
    tableAt? (updateAt f members path) path = (tableAt? members path).map f := by
  induction path generalizing members with
  | nil => rfl
  | cons part path ih =>
    rw [updateAt]
    split
    · next sub hown => rw [tableAt?_assign_self, ih, tableAt?_cons_of_own? hown]
    · next hown =>
      have hnone : tableAt? members (part :: path) = none := by
        rw [tableAt?]
        split
        · next sub hsub => exact absurd hsub (hown sub)
        · rfl
      rw [hnone, map_none]

variable {members : Members}

theorem valueAt?_store_self (h : (tableAt? members path).isSome) (key : String) (value : TomlValue) :
    valueAt? (updateAt (JsObject.assign · key value) members path) path key = some value := by
  obtain ⟨found, hfound⟩ := isSome_iff_exists.mp h
  rw [valueAt?, tableAt?_updateAt, hfound, map_some, bind_some, own?_assign_self]

theorem valueAt?_store {path current : List String} {key name : String}
    {value stored : TomlValue} (hleaf : value.IsLeaf)
    (hnew : own? ((tableAt? members current).getD []) name = none) (h : valueAt? members path key = some value) :
    valueAt? (updateAt (JsObject.assign · name stored) members current) path key = some value := by
  induction current generalizing members path with
  | nil =>
    change own? members name = none at hnew
    rw [updateAt]
    cases path with
    | nil =>
      have hne : name ≠ key := by
        rintro rfl
        cases hnew.symm.trans h
      exact (own?_assign_of_ne hne).trans h
    | cons part path =>
      have hne : name ≠ part := by
        rintro rfl
        rw [valueAt?, tableAt?, hnew] at h
        cases h
      rwa [valueAt?, tableAt?_assign_of_ne hne]
  | cons part current ih =>
    rw [updateAt]
    split
    · next sub hown =>
      rw [tableAt?_cons_of_own? hown] at hnew
      exact valueAt?_assign_table hleaf (fun path hpath ↦ ih hnew hpath) (.inl hown) h
    · exact h

/-! ## Inherited names -/

/-- No table stands under an inherited name, and nothing under the one that leads to what a table inherits
from. -/
def Tidy (members : Members) : Prop :=
  ∀ path found, tableAt? members path = some found →
    own? found "__proto__" = none ∧ ∀ name ∈ inheritedNames, ∀ sub, own? found name ≠ some (.table sub)

theorem tidy_nil : Tidy [] := by
  intro path found h
  cases path with
  | nil =>
    obtain rfl := Option.some.inj h
    exact ⟨rfl, fun name _ sub hown ↦ by cases hown⟩
  | cons part path => cases h

theorem Tidy.sub {members sub : Members} (h : Tidy members)
    (hown : own? members part = some (.table sub)) : Tidy sub := fun path found hfound ↦
  h (part :: path) found (by rw [tableAt?_cons_of_own? hown, hfound])

theorem Tidy.not_inherited {members sub : Members} (h : Tidy members)
    (hown : own? members part = some (.table sub)) : part ∉ inheritedNames := fun hpart ↦
  (h [] members rfl).2 part hpart sub hown

theorem Tidy.assign {members sub : Members} (h : Tidy members) (hsub : Tidy sub)
    (hpart : part ∉ inheritedNames) : Tidy (JsObject.assign members part (.table sub)) := by
  intro path found hfound
  cases path with
  | nil =>
    obtain rfl := Option.some.inj hfound
    obtain ⟨hproto, hnames⟩ := h [] members rfl
    have hne : ∀ name ∈ inheritedNames, part ≠ name := fun name hname heq ↦ hpart (heq ▸ hname)
    refine ⟨(own?_assign_of_ne (hne _ (by decide))).trans hproto, fun name hname ↦ ?_⟩
    rw [own?_assign_of_ne (hne name hname)]
    exact hnames name hname
  | cons name path =>
    by_cases hname : part = name
    · subst hname
      rw [tableAt?_assign_self] at hfound
      exact hsub path found hfound
    · rw [tableAt?_assign_of_ne hname] at hfound
      exact h (name :: path) found hfound

theorem Tidy.walk (h : Tidy members)
    (hwalk : (walk conflict .ok members path).toOption = some members') : Tidy members' := by
  induction path generalizing members members' with
  | nil =>
    obtain rfl := Option.some.inj hwalk
    exact h
  | cons part path ih =>
    obtain ⟨sub, sub', hown | ⟨-, rfl, hpart⟩, hsub, rfl⟩ := exists_of_walk_cons hwalk
    · exact h.assign (ih (h.sub hown) hsub) (h.not_inherited hown)
    · exact h.assign (ih tidy_nil hsub) hpart

theorem Tidy.store (h : Tidy members) (hkey : key ≠ "__proto__") (hleaf : value.IsLeaf) :
    Tidy (updateAt (JsObject.assign · key value) members path) := by
  induction path generalizing members with
  | nil =>
    intro path found hfound
    rw [updateAt] at hfound
    cases path with
    | nil =>
      obtain rfl := Option.some.inj hfound
      obtain ⟨hproto, hnames⟩ := h [] members rfl
      refine ⟨(own?_assign_of_ne hkey).trans hproto, fun name hname sub ↦ ?_⟩
      rw [own?_assign]
      split_ifs
      · rintro heq
        obtain rfl := Option.some.inj heq
        exact hleaf
      · exact hnames name hname sub
    | cons name path =>
      by_cases hname : key = name
      · obtain ⟨sub, hown, -⟩ := exists_of_tableAt?_cons hfound
        rw [hname, own?_assign_self] at hown
        obtain rfl := Option.some.inj hown
        exact hleaf.elim
      · rw [tableAt?_assign_of_ne hname] at hfound
        exact h (name :: path) found hfound
  | cons part path ih =>
    rw [updateAt]
    split
    · next sub hown => exact h.assign (ih (h.sub hown)) (h.not_inherited hown)
    · exact h

theorem Tidy.not_inherited_of_walk (h : Tidy members)
    (hwalk : (TomlLite.walk conflict .ok members path).toOption = some members') : ∀ part ∈ path, part ∉ inheritedNames := by
  induction path generalizing members members' with
  | nil => exact List.forall_mem_nil _
  | cons part path ih =>
    obtain ⟨sub, sub', hown | ⟨-, rfl, hpart⟩, hsub, rfl⟩ := exists_of_walk_cons hwalk
    · exact List.forall_mem_cons.mpr ⟨h.not_inherited hown, ih (h.sub hown) hsub⟩
    · exact List.forall_mem_cons.mpr ⟨hpart, ih tidy_nil hsub⟩

end Amicode.TomlLite
