import Amicode.Foundation.JsData
import Amicode.Foundation.JsObject

/-!
# Diffs of entities

Each time an entity is recorded, the difference to what its file had is put into the event log (`entities.ts`,
`calib_chain.ts`). Both sides are flattened by one level to dotted keys, without `recorded`, and the values at a key
are compared as JSON prints them, null for a key that is not there.

What has been written to a file is read back as it was. A member `__proto__` that is null or an array would give the
flattened side another prototype; that is not modelled, any other such member is lost as in the source.
-/

namespace Amicode.Entities

open JsonTree JsData InsertionMap List Option

variable {ν : Type*} (N : Numbers ν)

/-- The members of an entity. -/
abbrev Snapshot (ν : Type*) := List (Text × JsData ν)

def flattenMember (m : Text × JsData ν) : List (Text × JsData ν) :=
  if m.1 = ascii "recorded" then []
  else match m.2 with
    | .obj members => members.map fun s ↦ (m.1 ++ unit '.' :: s.1, s.2)
    | v => if m.1 = ascii "__proto__" then [] else [(m.1, v)]

def flattenForDiff (e : Option (Snapshot ν)) : InsertionMap Text (JsData ν) :=
  (∅ : InsertionMap Text (JsData ν)).setAll ((e.getD []).flatMap flattenMember)

/-- `k in flat ? flat[k] : null`; none is a function that all objects inherit. -/
instance decidableInherited (k : Text) : Decidable (k ∈ JsObject.inheritedNames.map ascii) :=
  decidable_of_iff ((JsObject.inheritedNames.map ascii).contains k) contains_iff_mem

def look (flat : InsertionMap Text (JsData ν)) (k : Text) : Option (JsData ν) :=
  match flat.get? k with
  | some v => some v
  | none => if k ∈ JsObject.inheritedNames.map ascii then none else some .null

/-- What the value at a key is compared by. -/
def shown (flat : InsertionMap Text (JsData ν)) (k : Text) : Option Text := (look flat k).bind (stringify? N)

structure Change (ν : Type*) where
  fromV : Option (JsData ν)
  toV : Option (JsData ν)

def entityDiff (before after : Option (Snapshot ν)) : InsertionMap Text (Change ν) :=
  let b := flattenForDiff before
  let a := flattenForDiff after
  (∅ : InsertionMap Text (Change ν)).setAll
    (((b.keys ++ a.keys).filter fun k ↦ shown N b k ≠ shown N a k).map fun k ↦
      (k, ⟨if before.isNone then some .null else look b k, look a k⟩))

/-- The file of an entity, and the diffs in the event log. -/
structure Recorded (ν : Type*) where
  file : Option (Snapshot ν)
  log : List (InsertionMap Text (Change ν))

def recordEntity (s : Recorded ν) (entity : Snapshot ν) : Recorded ν :=
  ⟨some entity, s.log ++ [entityDiff N s.file (some entity)]⟩

def recordAll (entities : List (Snapshot ν)) : Recorded ν := entities.foldl (recordEntity N) ⟨none, []⟩

/-! ## The law -/

/-- A diff, by key, as the event log has it. -/
def logged (diff : InsertionMap Text (Change ν)) (k : Text) : Option (Option Text × Option Text) :=
  (diff.get? k).map fun c ↦ (c.fromV.bind (stringify? N), c.toV.bind (stringify? N))

def isObj : JsData ν → Bool
  | .obj _ => true
  | _ => false

/-- A member that prints alike, or an object whose members do. -/
inductive AlikeAt : Option (JsData ν) → Option (JsData ν) → Prop
  | obj {ms ns : List (Text × JsData ν)} :
    (∀ s, (Entries.get? ms s).bind (stringify? N) = (Entries.get? ns s).bind (stringify? N)) →
      AlikeAt (some (.obj ms)) (some (.obj ns))
  | other {v w : Option (JsData ν)} : v.any isObj = false → w.any isObj = false →
    v.bind (stringify? N) = w.bind (stringify? N) → AlikeAt v w

/-- The same apart from `recorded` and the order of the keys, of the entity and of the objects in it. -/
def Alike (e e' : Snapshot ν) : Prop :=
  ∀ t, t ≠ ascii "recorded" → AlikeAt N (Entries.get? e t) (Entries.get? e' t)

/-- A JSON object without dots in its keys, without empty objects and without nulls. -/
structure Plain (e : Snapshot ν) : Prop where
  json : (JsData.obj e).IsJson N
  names : ∀ m ∈ e, unit '.' ∉ m.1 ∧ m.1 ≠ ascii "__proto__"
  filled : ∀ m ∈ e, stringify? N m.2 ≠ some (ascii "null") ∧ ∀ members, m.2 = .obj members →
    members ≠ [] ∧ ∀ s ∈ members, stringify? N s.2 ≠ some (ascii "null")

structure DiffLaw : Prop where
  /-- The diff determines what has been recorded. -/
  determined : ∀ (before : Option (Snapshot ν)) (after₁ after₂ : Snapshot ν), Plain N after₁ → Plain N after₂ →
    logged N (entityDiff N before (some after₁)) = logged N (entityDiff N before (some after₂)) → Alike N after₁ after₂
  empty : ∀ before after : Snapshot ν, Plain N before → Plain N after →
    ((entityDiff N (some before) (some after)).entries = [] ↔ Alike N before after)
  /-- The log determines all snapshots. -/
  reconstructed : ∀ entities entities' : List (Snapshot ν), (∀ e ∈ entities, Plain N e) →
    (∀ e ∈ entities', Plain N e) →
      (recordAll N entities).log.map (logged N) = (recordAll N entities').log.map (logged N) →
        List.Forall₂ (Alike N) entities entities'

/-! ## The flattened side -/

section

variable {N : Numbers ν} {e e' : Snapshot ν} {t s k : Text} {v : JsData ν}

/-- Where a list has one value for a key, that value is read back. -/
theorem get?_setAll_of_unique {l : List (Text × JsData ν)} (hl : ∀ v w, (k, v) ∈ l → (k, w) ∈ l → v = w) :
    ((∅ : InsertionMap Text (JsData ν)).setAll l).get? k = some v ↔ (k, v) ∈ l := by
  induction l using List.reverseRecOn with
  | nil => simp [setAll]
  | append_singleton l e ih =>
    obtain ⟨k', w⟩ := e
    have ih := ih fun v w hv hw ↦ hl v w (mem_append_left _ hv) (mem_append_left _ hw)
    rw [setAll_append, show ∀ m : InsertionMap Text (JsData ν), m.setAll [(k', w)] = m.set k' w from fun _ ↦ rfl,
      get?_set, mem_append, mem_singleton]
    split_ifs with hk
    · subst k'
      refine ⟨fun h ↦ .inr (by rw [Option.some.inj h]), ?_⟩
      rintro (h | h)
      · exact congrArg some (hl _ _ (mem_append_right _ mem_cons_self) (mem_append_left _ h))
      · exact congrArg some (Prod.mk.inj h).2.symm
    · rw [ih]
      exact ⟨.inl, fun h ↦ h.resolve_right fun heq ↦ hk (Prod.mk.inj heq).1.symm⟩

/-- The value of a member that stays as it is. -/
def scalar? : Option (JsData ν) → Option (JsData ν)
  | some (.obj _) => none
  | o => o

/-- A member of a member. -/
def inner? (s : Text) : Option (JsData ν) → Option (JsData ν)
  | some (.obj members) => Entries.get? members s
  | _ => none

theorem mem_flattenMember {m : Text × JsData ν} (hm : m.1 ≠ ascii "__proto__") : (k, v) ∈ flattenMember m ↔
    m.1 ≠ ascii "recorded" ∧ ((m = (k, v) ∧ isObj v = false) ∨
      ∃ members s, m.2 = .obj members ∧ (s, v) ∈ members ∧ k = m.1 ++ unit '.' :: s) := by
  obtain ⟨t, w⟩ := m
  unfold flattenMember
  split_ifs with hrecorded
  · exact iff_of_false not_mem_nil fun h ↦ h.1 hrecorded
  · rcases w with _ | _ | _ | _ | _ | _ | members
    case obj =>
      simp only [List.mem_map, Prod.mk.injEq, ne_eq, hrecorded, not_false_eq_true, true_and, JsData.obj.injEq]
      constructor
      · rintro ⟨s, hs, rfl, rfl⟩
        exact .inr ⟨members, s.1, rfl, hs, rfl⟩
      · rintro (⟨⟨-, rfl⟩, hobj⟩ | ⟨_, s, rfl, hs, rfl⟩)
        · cases hobj
        · exact ⟨(s, v), hs, rfl, rfl⟩
    all_goals
      simp only [mem_singleton, Prod.mk.injEq, ne_eq, hrecorded, not_false_eq_true, true_and,
        reduceCtorEq, false_and, exists_false, or_false]
      exact ⟨fun h ↦ ⟨⟨h.1.symm, h.2.symm⟩, h.2 ▸ rfl⟩, fun h ↦ ⟨h.1.1.symm, h.1.2.symm⟩⟩

theorem Plain.mem_flat_iff (he : Plain N e) : (k, v) ∈ e.flatMap flattenMember ↔
    ((k, v) ∈ e ∧ k ≠ ascii "recorded" ∧ isObj v = false) ∨
      ∃ t members s, (t, .obj members) ∈ e ∧ t ≠ ascii "recorded" ∧ (s, v) ∈ members ∧ k = t ++ unit '.' :: s := by
  simp only [mem_flatMap]
  constructor
  · rintro ⟨m, hmem, hm⟩
    obtain ⟨hrecorded, ⟨rfl, hobj⟩ | ⟨members, s, hvalue, hs, rfl⟩⟩ := (mem_flattenMember (he.names m hmem).2).mp hm
    · exact .inl ⟨hmem, hrecorded, hobj⟩
    · exact .inr ⟨m.1, members, s, hvalue ▸ hmem, hrecorded, hs, rfl⟩
  · rintro (⟨hmem, hrecorded, hobj⟩ | ⟨t, members, s, hmem, hrecorded, hs, rfl⟩)
    · exact ⟨_, hmem, (mem_flattenMember (he.names _ hmem).2).mpr ⟨hrecorded, .inl ⟨rfl, hobj⟩⟩⟩
    · exact ⟨_, hmem, (mem_flattenMember (he.names _ hmem).2).mpr ⟨hrecorded, .inr ⟨members, s, rfl, hs, rfl⟩⟩⟩

theorem Plain.nodup (he : Plain N e) : (e.map Prod.fst).Nodup := by
  cases he.json with
  | obj hnodup _ => exact hnodup

theorem Plain.nodup_inner (he : Plain N e) {members : List (Text × JsData ν)} (h : (t, .obj members) ∈ e) :
    (members.map Prod.fst).Nodup := by
  cases he.json with
  | obj _ hvalues =>
    cases hvalues _ h with
    | obj hnodup _ => exact hnodup

theorem eq_of_mem {members : List (Text × JsData ν)} (h : (members.map Prod.fst).Nodup) {v w : JsData ν}
    (hv : (k, v) ∈ members) (hw : (k, w) ∈ members) : v = w :=
  Option.some.inj (((Entries.get?_eq_some_iff h k v).mpr hv).symm.trans ((Entries.get?_eq_some_iff h k w).mpr hw))

theorem Plain.get?_flattenForDiff (he : Plain N e) :
    (flattenForDiff (some e)).get? k = some v ↔ (k, v) ∈ e.flatMap flattenMember := by
  refine get?_setAll_of_unique fun v w hv hw ↦ ?_
  rcases he.mem_flat_iff.mp hv with ⟨hmem, -, -⟩ | ⟨t, members, s, ht, -, hs, rfl⟩ <;>
    rcases he.mem_flat_iff.mp hw with ⟨hmem', -, -⟩ | ⟨t', members', s', ht', -, hs', hkey⟩
  · exact eq_of_mem he.nodup hmem hmem'
  · exact absurd (hkey ▸ mem_append_right _ mem_cons_self) (he.names _ hmem).1
  · exact absurd (mem_append_right _ mem_cons_self) (he.names _ hmem').1
  · obtain ⟨rfl, rfl⟩ := JsText.append_cons_inj (he.names _ ht).1 (he.names _ ht').1 hkey
    obtain rfl := JsData.obj.inj (eq_of_mem he.nodup ht ht')
    exact eq_of_mem (he.nodup_inner ht) hs hs'

theorem Plain.get?_plain (he : Plain N e) (ht : unit '.' ∉ t) (hrecorded : t ≠ ascii "recorded") :
    (flattenForDiff (some e)).get? t = scalar? (Entries.get? e t) := by
  refine Option.ext fun v ↦ ?_
  have hscalar : scalar? (Entries.get? e t) = some v ↔ Entries.get? e t = some v ∧ isObj v = false := by
    rcases Entries.get? e t with _ | _ | _ | _ | _ | _ | _ | members
    case none => simp [scalar?]
    case some.obj => exact iff_of_false nofun fun ⟨h, hobj⟩ ↦ by cases h; cases hobj
    all_goals exact ⟨fun h ↦ ⟨h, by cases h; rfl⟩, fun h ↦ h.1⟩
  rw [hscalar, Entries.get?_eq_some_iff he.nodup, he.get?_flattenForDiff, he.mem_flat_iff]
  constructor
  · rintro (⟨hmem, -, hobj⟩ | ⟨t', _, s, -, -, -, rfl⟩)
    · exact ⟨hmem, hobj⟩
    · exact absurd (mem_append_right _ mem_cons_self) ht
  · exact fun h ↦ .inl ⟨h.1, hrecorded, h.2⟩

theorem Plain.get?_dotted (he : Plain N e) (ht : unit '.' ∉ t) (hrecorded : t ≠ ascii "recorded") :
    (flattenForDiff (some e)).get? (t ++ unit '.' :: s) = inner? s (Entries.get? e t) := by
  refine Option.ext fun v ↦ ?_
  have hinner : inner? s (Entries.get? e t) = some v ↔
      ∃ members, Entries.get? e t = some (.obj members) ∧ Entries.get? members s = some v := by
    rcases Entries.get? e t with _ | _ | _ | _ | _ | _ | _ | members
    case some.obj => exact ⟨fun h ↦ ⟨members, rfl, h⟩, fun ⟨_, h, hs⟩ ↦ by cases h; exact hs⟩
    all_goals exact iff_of_false nofun fun ⟨_, h, _⟩ ↦ by cases h
  rw [hinner, he.get?_flattenForDiff, he.mem_flat_iff]
  constructor
  · rintro (⟨hmem, -, -⟩ | ⟨t', members, s', hmem, -, hs, hkey⟩)
    · exact absurd (mem_append_right _ mem_cons_self) (he.names _ hmem).1
    · obtain ⟨rfl, rfl⟩ := JsText.append_cons_inj ht (he.names _ hmem).1 hkey
      exact ⟨members, (Entries.get?_eq_some_iff he.nodup _ _).mpr hmem,
        (Entries.get?_eq_some_iff (he.nodup_inner hmem) _ _).mpr hs⟩
  · rintro ⟨members, hmem, hs⟩
    have hmem := (Entries.get?_eq_some_iff he.nodup _ _).mp hmem
    exact .inr ⟨t, members, s, hmem, hrecorded, (Entries.get?_eq_some_iff (he.nodup_inner hmem) _ _).mp hs, rfl⟩

theorem Plain.printed (he : Plain N e) (h : (flattenForDiff (some e)).get? k = some v) :
    ∃ text, stringify? N v = some text ∧ text ≠ ascii "null" := by
  have hjson : ∀ v, v.IsJson N → stringify? N v ≠ some (ascii "null") →
      ∃ text, stringify? N v = some text ∧ text ≠ ascii "null" := by
    intro v hv hne
    have htext : ∃ text, stringify? N v = some text := by cases hv <;> exact ⟨_, rfl⟩
    obtain ⟨text, htext⟩ := htext
    exact ⟨text, htext, fun heq ↦ hne (heq ▸ htext)⟩
  cases he.json with
  | obj _ hvalues =>
    rcases he.mem_flat_iff.mp (he.get?_flattenForDiff.mp h) with ⟨hmem, -, -⟩ | ⟨t, members, s, hmem, -, hs, -⟩
    · exact hjson v (hvalues _ hmem) (he.filled _ hmem).1
    · cases hvalues _ hmem with
      | obj _ hinner => exact hjson v (hinner _ hs) (((he.filled _ hmem).2 _ rfl).2 _ hs)

/-! ## What a diff determines -/

/-- The sides print alike at every key. -/
def SameTexts (N : Numbers ν) (e e' : Option (Snapshot ν)) : Prop :=
  ∀ k, shown N (flattenForDiff e) k = shown N (flattenForDiff e') k

theorem shown_of_some {flat : InsertionMap Text (JsData ν)} (h : flat.get? k = some v) :
    shown N flat k = stringify? N v := by
  rw [shown, look, h, bind_some]

theorem shown_of_none {flat : InsertionMap Text (JsData ν)} (h : flat.get? k = none) :
    shown N flat k = if k ∈ JsObject.inheritedNames.map ascii then none else some (ascii "null") := by
  rw [shown, look, h]
  dsimp only
  split <;> rfl

theorem Plain.shown_eq_iff (he : Plain N e) (he' : Plain N e') :
    shown N (flattenForDiff (some e)) k = shown N (flattenForDiff (some e')) k ↔
      ((flattenForDiff (some e)).get? k).bind (stringify? N) = ((flattenForDiff (some e')).get? k).bind (stringify? N) := by
  have hne : ∀ text, text ≠ ascii "null" →
      some text ≠ if k ∈ JsObject.inheritedNames.map ascii then none else some (ascii "null") := by
    intro text htext
    split_ifs
    · exact some_ne_none _
    · exact fun h ↦ htext (Option.some.inj h)
  rcases hv : (flattenForDiff (some e)).get? k with _ | v <;>
    rcases hw : (flattenForDiff (some e')).get? k with _ | w
  · exact iff_of_true ((shown_of_none hv).trans (shown_of_none hw).symm) rfl
  · obtain ⟨text, htext, hnull⟩ := he'.printed hw
    rw [shown_of_none hv, shown_of_some hw, bind_none, bind_some, htext]
    exact iff_of_false (hne text hnull).symm (some_ne_none _).symm
  · obtain ⟨text, htext, hnull⟩ := he.printed hv
    rw [shown_of_some hv, shown_of_none hw, bind_none, bind_some, htext]
    exact iff_of_false (hne text hnull) (some_ne_none _)
  · rw [shown_of_some hv, shown_of_some hw, bind_some, bind_some]

theorem obj_or_not (v : Option (JsData ν)) :
    (∃ ms, v = some (.obj ms)) ∨ (v.any isObj = false ∧ scalar? v = v ∧ ∀ s, inner? s v = none) := by
  rcases v with _ | _ | _ | _ | _ | _ | _ | ms
  case some.obj => exact .inl ⟨ms, rfl⟩
  all_goals exact .inr ⟨rfl, rfl, fun _ ↦ rfl⟩

/-- An object that has a member is alike only to objects. -/
theorem alikeAt_iff {v w : Option (JsData ν)}
    (hv : ∀ ms, v = some (.obj ms) → ∃ s, (inner? s v).bind (stringify? N) ≠ none)
    (hw : ∀ ms, w = some (.obj ms) → ∃ s, (inner? s w).bind (stringify? N) ≠ none) :
    AlikeAt N v w ↔ (scalar? v).bind (stringify? N) = (scalar? w).bind (stringify? N) ∧
      ∀ s, (inner? s v).bind (stringify? N) = (inner? s w).bind (stringify? N) := by
  rcases obj_or_not v with ⟨ms, rfl⟩ | ⟨hobj, hscalar, hinner⟩ <;>
    rcases obj_or_not w with ⟨ns, rfl⟩ | ⟨hobj', hscalar', hinner'⟩
  · refine ⟨fun h ↦ ⟨rfl, ?_⟩, fun h ↦ .obj h.2⟩
    cases h with
    | obj h => exact h
    | other h _ _ => cases h
  · obtain ⟨s, hs⟩ := hv ms rfl
    refine iff_of_false (fun h ↦ ?_) fun h ↦ hs ((h.2 s).trans (by rw [hinner' s]; rfl))
    cases h with
    | obj _ => cases hobj'
    | other h _ _ => cases h
  · obtain ⟨s, hs⟩ := hw ns rfl
    refine iff_of_false (fun h ↦ ?_) fun h ↦ hs ((h.2 s).symm.trans (by rw [hinner s]; rfl))
    cases h with
    | obj _ => cases hobj
    | other _ h _ => cases h
  · rw [hscalar, hscalar']
    refine ⟨fun h ↦ ?_, fun h ↦ .other hobj hobj' h.1⟩
    cases h with
    | obj _ => cases hobj
    | other _ _ h => exact ⟨h, fun s ↦ by rw [hinner s, hinner' s]⟩

theorem Plain.exists_inner (he : Plain N e) (ht : unit '.' ∉ t) (hrecorded : t ≠ ascii "recorded")
    (ms : List (Text × JsData ν)) (hms : Entries.get? e t = some (.obj ms)) :
    ∃ s, (inner? s (Entries.get? e t)).bind (stringify? N) ≠ none := by
  have hmem := (Entries.get?_eq_some_iff he.nodup _ _).mp hms
  obtain ⟨⟨s, v⟩, hs⟩ := exists_mem_of_ne_nil _ ((he.filled _ hmem).2 ms rfl).1
  have hget := (Entries.get?_eq_some_iff (he.nodup_inner hmem) s v).mpr hs
  obtain ⟨text, htext, -⟩ := he.printed (k := t ++ unit '.' :: s) (v := v)
    (by rw [he.get?_dotted ht hrecorded, hms]; exact hget)
  refine ⟨s, ?_⟩
  rw [hms, inner?, hget, bind_some, htext]
  exact some_ne_none _

theorem Plain.get?_recorded (he : Plain N e) (hk : k = ascii "recorded" ∨ ∃ s, k = ascii "recorded" ++ unit '.' :: s) :
    (flattenForDiff (some e)).get? k = none := by
  have hdot : unit '.' ∉ ascii "recorded" := by decide
  refine eq_none_iff_forall_ne_some.mpr fun v hv ↦ ?_
  rcases he.mem_flat_iff.mp (he.get?_flattenForDiff.mp hv) with ⟨hmem, hne, -⟩ | ⟨t, members, s, hmem, hne, -, rfl⟩
  · obtain ⟨s, rfl⟩ := hk.resolve_left hne
    exact (he.names _ hmem).1 (mem_append_right _ mem_cons_self)
  · rcases hk with hk | ⟨s', hk⟩
    · exact hdot (hk ▸ mem_append_right _ mem_cons_self)
    · exact hne (JsText.append_cons_inj (he.names _ hmem).1 hdot hk).1

theorem Plain.get?_of_dot (he : Plain N e) (ht : unit '.' ∈ t) : Entries.get? e t = none := by
  refine eq_none_iff_forall_ne_some.mpr fun v hv ↦ ?_
  exact (he.names _ ((Entries.get?_eq_some_iff he.nodup _ _).mp hv)).1 ht

theorem Plain.alike_iff (he : Plain N e) (he' : Plain N e') : SameTexts N (some e) (some e') ↔ Alike N e e' := by
  have hat : ∀ t, unit '.' ∉ t → t ≠ ascii "recorded" → (AlikeAt N (Entries.get? e t) (Entries.get? e' t) ↔ _) :=
    fun t ht hrecorded ↦ alikeAt_iff (he.exists_inner ht hrecorded) (he'.exists_inner ht hrecorded)
  constructor
  · intro h t hrecorded
    by_cases ht : unit '.' ∈ t
    · rw [he.get?_of_dot ht, he'.get?_of_dot ht]
      exact .other rfl rfl rfl
    · rw [hat t ht hrecorded, ← he.get?_plain ht hrecorded, ← he'.get?_plain ht hrecorded]
      refine ⟨(he.shown_eq_iff he').mp (h t), fun s ↦ ?_⟩
      rw [← he.get?_dotted ht hrecorded, ← he'.get?_dotted ht hrecorded]
      exact (he.shown_eq_iff he').mp (h _)
  · intro h k
    rw [he.shown_eq_iff he']
    by_cases hk : unit '.' ∈ k
    · obtain ⟨t, s, rfl, ht⟩ := eq_append_cons_of_mem hk
      by_cases hrecorded : t = ascii "recorded"
      · rw [he.get?_recorded (.inr ⟨s, by rw [hrecorded]⟩), he'.get?_recorded (.inr ⟨s, by rw [hrecorded]⟩)]
      · rw [he.get?_dotted ht hrecorded, he'.get?_dotted ht hrecorded]
        exact ((hat t ht hrecorded).mp (h t hrecorded)).2 s
    · by_cases hrecorded : k = ascii "recorded"
      · rw [he.get?_recorded (.inl hrecorded), he'.get?_recorded (.inl hrecorded)]
      · rw [he.get?_plain hk hrecorded, he'.get?_plain hk hrecorded]
        exact ((hat k hk hrecorded).mp (h k hrecorded)).1

theorem get?_entityDiff (before after : Option (Snapshot ν)) : (entityDiff N before after).get? k =
    if shown N (flattenForDiff before) k = shown N (flattenForDiff after) k then none
    else some ⟨if before.isNone then some .null else look (flattenForDiff before) k, look (flattenForDiff after) k⟩ := by
  have hmem : shown N (flattenForDiff before) k ≠ shown N (flattenForDiff after) k →
      k ∈ (flattenForDiff before).keys ++ (flattenForDiff after).keys := by
    intro hne
    by_contra hnot
    -- a key that neither side has is shown alike
    rw [mem_append, not_or, ← get?_eq_none_iff, ← get?_eq_none_iff] at hnot
    rw [shown_of_none hnot.1, shown_of_none hnot.2] at hne
    exact hne rfl
  rw [entityDiff, get?_setAll_map]
  by_cases hsame : shown N (flattenForDiff before) k = shown N (flattenForDiff after) k
  · rw [if_pos hsame]
    exact if_neg fun h ↦ (decide_eq_true_iff.mp (mem_filter.mp h).2) hsame
  · rw [if_neg hsame]
    exact if_pos (mem_filter.mpr ⟨hmem hsame, decide_eq_true hsame⟩)

/-- What has been recorded prints alike if what was there before does and the diffs do. -/
theorem sameTexts_of_logged {before before' after after' : Option (Snapshot ν)} (h : SameTexts N before before')
    (hlog : logged N (entityDiff N before after) = logged N (entityDiff N before' after')) : SameTexts N after after' := by
  intro k
  have hk := congrFun hlog k
  rw [logged, logged, get?_entityDiff, get?_entityDiff] at hk
  by_cases hsame : shown N (flattenForDiff before) k = shown N (flattenForDiff after) k <;>
    by_cases hsame' : shown N (flattenForDiff before') k = shown N (flattenForDiff after') k
  · rw [← hsame, ← hsame', h k]
  · rw [if_pos hsame, if_neg hsame'] at hk
    cases hk
  · rw [if_neg hsame, if_pos hsame'] at hk
    cases hk
  · rw [if_neg hsame, if_neg hsame'] at hk
    exact (Prod.mk.inj (Option.some.inj hk)).2

def diffs (N : Numbers ν) (before : Option (Snapshot ν)) : List (Snapshot ν) → List (InsertionMap Text (Change ν))
  | [] => []
  | e :: entities => entityDiff N before (some e) :: diffs N (some e) entities

theorem log_foldl (s : Recorded ν) (entities : List (Snapshot ν)) :
    (entities.foldl (recordEntity N) s).log = s.log ++ diffs N s.file entities := by
  induction entities generalizing s with
  | nil => exact (append_nil _).symm
  | cons e entities ih => rw [foldl_cons, ih, diffs, recordEntity, append_assoc, singleton_append]

theorem forall₂_of_diffs {before before' : Option (Snapshot ν)} (h : SameTexts N before before')
    {entities entities' : List (Snapshot ν)} (he : ∀ e ∈ entities, Plain N e) (he' : ∀ e ∈ entities', Plain N e)
    (hlog : (diffs N before entities).map (logged N) = (diffs N before' entities').map (logged N)) :
    List.Forall₂ (Alike N) entities entities' := by
  induction entities generalizing before before' entities' with
  | nil =>
    rcases entities' with _ | ⟨e', entities'⟩
    · exact .nil
    · cases hlog
  | cons e entities ih =>
    rcases entities' with _ | ⟨e', entities'⟩
    · cases hlog
    · obtain ⟨hhead, htail⟩ := List.cons.inj hlog
      have hsame := sameTexts_of_logged h hhead
      rw [forall_mem_cons] at he he'
      exact .cons ((he.1.alike_iff he'.1).mp hsame) (ih hsame he.2 he'.2 htail)

end

/-- **The diffs determine the snapshots, where no key has a dot and nothing is null or an empty object.** -/
theorem diff_law (N : Numbers ν) : DiffLaw N where
  determined := fun _ _ _ h₁ h₂ hlog ↦ (h₁.alike_iff h₂).mp (sameTexts_of_logged (fun _ ↦ rfl) hlog)
  empty := by
    intro before after hbefore hafter
    rw [← hbefore.alike_iff hafter]
    refine ⟨fun h k ↦ ?_, fun h ↦ List.eq_nil_iff_forall_not_mem.mpr fun ⟨k, c⟩ hmem ↦ ?_⟩
    · have hk := get?_entityDiff (N := N) (k := k) (some before) (some after)
      rw [get?, h] at hk
      by_contra hne
      rw [if_neg hne] at hk
      cases hk
    · have hk := (get?_eq_some_iff _ _ _).mpr hmem
      rw [get?_entityDiff, if_pos (h k)] at hk
      cases hk
  reconstructed := by
    intro entities entities' he he' hlog
    rw [recordAll, recordAll, log_foldl, log_foldl, List.nil_append, List.nil_append] at hlog
    exact forall₂_of_diffs (fun _ ↦ rfl) he he' hlog

/-- An entity without its stamp. -/
def unstamped (e : Snapshot ν) : JsData ν := .obj (e.filter fun m ↦ m.1 ≠ ascii "recorded")

/-- An empty object leaves nothing in the diff. -/
theorem not_determined_emptyParams : ¬ ∀ (N : Numbers ℕ) (before after₁ after₂ : Snapshot ℕ),
    (JsData.obj before).IsJson N → (JsData.obj after₁).IsJson N → (JsData.obj after₂).IsJson N →
      (entityDiff N (some before) (some after₁)).entries = (entityDiff N (some before) (some after₂)).entries →
        Same (unstamped after₁) (unstamped after₂) := by
  intro h
  have hempty : (JsData.obj []).IsJson (⟨fun _ ↦ [], fun _ ↦ true⟩ : Numbers ℕ) := .obj List.nodup_nil nofun
  have hsame := h _ [] [(ascii "params", .obj [])] [] hempty
    (.obj (List.nodup_singleton _) (List.forall_mem_singleton.mpr hempty)) hempty rfl
  cases hsame with
  | obj hkeys _ => exact List.not_mem_nil ((hkeys (ascii "params")).mp (by decide))

end Amicode.Entities
