import Amicode.Foundation.JsonValue

/-!
# The order of texts

The order of ECMAScript strings is total and transitive, and a stable sort by a text key leaves, among the entries
that are looked for, the last of those with the greatest key at the end (`getLast?_filter_sortByKey`).
-/

open List

namespace JsText

theorem unitsLe_total (a b : List ℕ) : unitsLe a b = true ∨ unitsLe b a = true := by
  induction a generalizing b with
  | nil => exact .inl rfl
  | cons x a ih =>
    rcases b with _ | ⟨y, b⟩
    · exact .inr rfl
    · simp only [unitsLe, Bool.or_eq_true, Bool.and_eq_true, decide_eq_true_eq, beq_iff_eq]
      rcases lt_trichotomy x y with hlt | rfl | hlt
      · exact .inl (.inl hlt)
      · exact (ih b).imp (fun h ↦ .inr ⟨rfl, h⟩) fun h ↦ .inr ⟨rfl, h⟩
      · exact .inr (.inl hlt)

theorem unitsLe_trans {a b c : List ℕ} (hab : unitsLe a b = true) (hbc : unitsLe b c = true) :
    unitsLe a c = true := by
  induction a generalizing b c with
  | nil => rfl
  | cons x a ih =>
    rcases b with _ | ⟨y, b⟩
    · cases hab
    rcases c with _ | ⟨z, c⟩
    · cases hbc
    simp only [unitsLe, Bool.or_eq_true, Bool.and_eq_true, decide_eq_true_eq, beq_iff_eq] at hab hbc ⊢
    rcases hab with hxy | ⟨rfl, hab⟩
    · rcases hbc with hyz | ⟨rfl, -⟩
      · exact .inl (hxy.trans hyz)
      · exact .inl hxy
    · rcases hbc with hyz | ⟨rfl, hbc⟩
      · exact .inl hyz
      · exact .inr ⟨rfl, ih hab hbc⟩

theorem le_total (a b : List Char) : le a b = true ∨ le b a = true := unitsLe_total _ _

theorem le_trans {a b c : List Char} (hab : le a b = true) (hbc : le b c = true) : le a c = true :=
  unitsLe_trans hab hbc

/-! ## The last entry -/

variable {α : Type*}

/-- The entry is the last of those with the greatest key. -/
def IsLastByKey (entries : List (List Char × α)) (e : List Char × α) : Prop :=
  ∃ before after, entries = before ++ e :: after ∧ (∀ x ∈ before, le x.1 e.1 = true) ∧
    ∀ x ∈ after, le e.1 x.1 = false

variable {entries : List (List Char × α)} {e : List Char × α} {q : List Char × α → Bool}

theorem isLastByKey_cons {e x : List Char × α} :
    IsLastByKey (x :: entries) e ↔
      (IsLastByKey entries e ∧ le x.1 e.1 = true) ∨ (x = e ∧ ∀ y ∈ entries, le e.1 y.1 = false) := by
  constructor
  · rintro ⟨before, after, heq, hbefore, hafter⟩
    rcases before with _ | ⟨b, before⟩
    · obtain ⟨rfl, rfl⟩ := List.cons.inj heq
      exact .inr ⟨rfl, hafter⟩
    · obtain ⟨rfl, rfl⟩ := List.cons.inj heq
      exact .inl ⟨⟨before, after, rfl, fun y hy ↦ hbefore y (mem_cons_of_mem _ hy), hafter⟩,
        hbefore _ mem_cons_self⟩
  · rintro (⟨⟨before, after, rfl, hbefore, hafter⟩, hx⟩ | ⟨rfl, hafter⟩)
    · exact ⟨x :: before, after, rfl, forall_mem_cons.mpr ⟨hx, hbefore⟩, hafter⟩
    · exact ⟨[], entries, rfl, nofun, hafter⟩

theorem IsLastByKey.mem (h : IsLastByKey entries e) :
    e ∈ entries := by
  obtain ⟨before, after, rfl, -, -⟩ := h
  exact mem_append_right _ mem_cons_self

theorem IsLastByKey.unique {e e' : List Char × α} (h : IsLastByKey entries e)
    (h' : IsLastByKey entries e') : e = e' := by
  induction entries with
  | nil => cases h.mem
  | cons x entries ih =>
    rw [isLastByKey_cons] at h h'
    rcases h with ⟨h, hx⟩ | ⟨rfl, hall⟩
    · rcases h' with ⟨h', -⟩ | ⟨rfl, hall⟩
      · exact ih h h'
      · exact absurd hx (by rw [hall e h.mem]; exact Bool.false_ne_true)
    · rcases h' with ⟨h', hx⟩ | ⟨rfl, -⟩
      · exact absurd hx (by rw [hall e' h'.mem]; exact Bool.false_ne_true)
      · rfl

theorem pairwise_insertByKey
    (h : entries.Pairwise fun a b ↦ le a.1 b.1 = true) :
    (insertByKey e entries).Pairwise fun a b ↦ le a.1 b.1 = true := by
  induction entries with
  | nil => exact pairwise_singleton _ _
  | cons x rest ih =>
    obtain ⟨hx, hrest⟩ := pairwise_cons.mp h
    rw [insertByKey]
    split
    · rename_i hle
      refine pairwise_cons.mpr ⟨forall_mem_cons.mpr ⟨hle, fun y hy ↦ le_trans hle (hx y hy)⟩, h⟩
    · rename_i hle
      refine pairwise_cons.mpr ⟨fun y hy ↦ ?_, ih hrest⟩
      rcases mem_cons.mp ((perm_insertByKey e rest).mem_iff.mp hy) with rfl | hy
      · exact (le_total x.1 y.1).resolve_right hle
      · exact hx y hy

theorem pairwise_sortByKey (entries : List (List Char × α)) :
    (sortByKey entries).Pairwise fun a b ↦ le a.1 b.1 = true := by
  induction entries with
  | nil => exact .nil
  | cons e rest ih => exact pairwise_insertByKey ih

theorem filter_insertByKey_of_neg (hq : q e = false)
    (entries : List (List Char × α)) : (insertByKey e entries).filter q = entries.filter q := by
  induction entries with
  | nil => simp [insertByKey, hq]
  | cons x rest ih =>
    rw [insertByKey]
    split
    · rw [filter_cons_of_neg (by simp [hq])]
    · rw [filter_cons, filter_cons, ih]

theorem getLast?_filter_insertByKey (hq : q e = true)
    (h : entries.Pairwise fun a b ↦ le a.1 b.1 = true) :
    ((insertByKey e entries).filter q).getLast?
      = some ((entries.filter q).getLast?.elim e fun l ↦ if le e.1 l.1 then l else e) := by
  induction entries with
  | nil => simp [insertByKey, hq]
  | cons x rest ih =>
    obtain ⟨hx, hrest⟩ := pairwise_cons.mp h
    rw [insertByKey]
    by_cases hle : le e.1 x.1 = true
    · -- it is put in front of all that are as great
      rw [if_pos hle, filter_cons_of_pos hq]
      rcases hlast : ((x :: rest).filter q).getLast? with _ | l
      · rw [getLast?_eq_none_iff.mp hlast]
        rfl
      · have hl : l ∈ x :: rest := mem_of_mem_filter (mem_of_getLast? hlast)
        have hel : le e.1 l.1 = true := by
          rcases mem_cons.mp hl with rfl | hl
          · exact hle
          · exact le_trans hle (hx l hl)
        rw [getLast?_cons, hlast, Option.elim_some, if_pos hel]
        rfl
    · rw [if_neg hle]
      cases hqx : q x with
      | true =>
        rw [filter_cons_of_pos hqx, filter_cons_of_pos hqx, getLast?_cons, ih hrest, getLast?_cons]
        rcases (rest.filter q).getLast? with _ | l
        · simp [hle]
        · rfl
      | false => rw [filter_cons_of_neg (by simp [hqx]), filter_cons_of_neg (by simp [hqx]), ih hrest]

theorem isLastByKey_of_getLast? {l : List Char × α}
    (h : ((sortByKey entries).filter q).getLast? = some l) : IsLastByKey (entries.filter q) l := by
  induction entries generalizing l with
  | nil => cases h
  | cons e rest ih =>
    rw [sortByKey] at h
    cases hq : q e with
    | false =>
      rw [filter_insertByKey_of_neg hq] at h
      rw [filter_cons_of_neg (by simp [hq])]
      exact ih h
    | true =>
      rw [getLast?_filter_insertByKey hq (pairwise_sortByKey rest)] at h
      rw [filter_cons_of_pos hq, isLastByKey_cons]
      rcases hlast : ((sortByKey rest).filter q).getLast? with _ | l'
      · rw [hlast] at h
        obtain rfl : e = l := Option.some.inj h
        have hnone : rest.filter q = [] := by
          have hperm := (perm_sortByKey rest).filter q
          rw [getLast?_eq_none_iff.mp hlast] at hperm
          exact hperm.symm.eq_nil
        exact .inr ⟨rfl, by rw [hnone]; exact nofun⟩
      · rw [hlast, Option.elim_some] at h
        have hl' := ih hlast
        by_cases hle : le e.1 l'.1 = true
        · rw [if_pos hle] at h
          obtain rfl := Option.some.inj h
          exact .inl ⟨hl', hle⟩
        · rw [if_neg hle] at h
          obtain rfl := Option.some.inj h
          refine .inr ⟨rfl, fun y hy ↦ eq_false_of_ne_true fun hey ↦ hle (le_trans hey ?_)⟩
          -- what is looked for is no greater than the last of it
          obtain ⟨before, after, heq, hbefore, hafter⟩ := hl'
          rw [heq] at hy
          rcases mem_append.mp hy with hy | hy
          · exact hbefore y hy
          · rcases mem_cons.mp hy with rfl | hy
            · exact (le_total y.1 y.1).elim id id
            · exact (le_total y.1 l'.1).resolve_right (by rw [hafter y hy]; exact Bool.false_ne_true)

end JsText
