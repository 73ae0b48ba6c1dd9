import Mathlib.Data.List.Basic
import Mathlib.Logic.Relation

/-!
# Functions of what is observed of a list

An observer sees the entries of a list that satisfy a predicate. Two lists look the same to it exactly if one
becomes the other by inserting and deleting entries it does not see, at any places (`edits_iff`). A function
reads the observed entries only if such edits never change its value; it is enough to look at one insertion at a
time (`reads_iff_inserts`).

The rules below say how such functions compose.
-/

open List

namespace Amicode.Observation

variable {α β γ δ : Type*}

/-- One entry that is not observed is inserted. -/
inductive Inserts (p : α → Bool) : List α → List α → Prop
  | mk (before after : List α) (a : α) (h : p a = false) : Inserts p (before ++ after) (before ++ a :: after)

/-- Entries that are not observed are inserted and deleted, in any number and order. -/
def Edits (p : α → Bool) : List α → List α → Prop := Relation.EqvGen (Inserts p)

variable {p : α → Bool} {l l' : List α} {f : List α → β}

theorem Inserts.filter_eq (h : Inserts p l l') : l.filter p = l'.filter p := by
  rcases h with ⟨before, after, a, ha⟩
  rw [filter_append, filter_append, filter_cons_of_neg (by simp [ha])]

theorem Inserts.cons (h : Inserts p l l') (a : α) :
    Inserts p (a :: l) (a :: l') := by
  rcases h with ⟨before, after, b, hb⟩
  exact .mk (a :: before) after b hb

theorem Edits.cons (h : Edits p l l') (a : α) : Edits p (a :: l) (a :: l') := by
  induction h with
  | rel l l' h => exact .rel _ _ (h.cons a)
  | refl l => exact .refl _
  | symm l l' _ ih => exact .symm _ _ ih
  | trans l l' l'' _ _ ih ih' => exact .trans _ _ _ ih ih'

theorem Edits.symm (h : Edits p l l') : Edits p l' l :=
  Relation.EqvGen.symm _ _ h

theorem Edits.trans {l l' l'' : List α} (h : Edits p l l') (h' : Edits p l' l'') :
    Edits p l l'' :=
  Relation.EqvGen.trans _ _ _ h h'

theorem edits_filter (p : α → Bool) (l : List α) : Edits p l (l.filter p) := by
  induction l with
  | nil => exact .refl _
  | cons a l ih =>
    by_cases ha : p a = true
    · rw [filter_cons_of_pos ha]
      exact ih.cons a
    · rw [filter_cons_of_neg ha]
      have hinserts : Inserts p l (a :: l) := .mk [] l a (Bool.eq_false_iff.mpr ha)
      exact (Relation.EqvGen.rel _ _ hinserts).symm.trans _ _ _ ih

theorem edits_iff : Edits p l l' ↔ l.filter p = l'.filter p := by
  constructor
  · intro h
    induction h with
    | rel l l' h => exact h.filter_eq
    | refl l => rfl
    | symm l l' _ ih => exact ih.symm
    | trans l l' l'' _ _ ih ih' => exact ih.trans ih'
  · intro h
    have hl := edits_filter p l
    rw [h] at hl
    exact hl.trans (edits_filter p l').symm

/-! ## Functions that read the observed entries only -/

/-- Edits of entries that are not observed do not change the value. -/
def Reads (p : α → Bool) (f : List α → β) : Prop := ∀ l l', Edits p l l' → f l = f l'

theorem reads_iff_inserts :
    Reads p f ↔ ∀ l l', Inserts p l l' → f l = f l' := by
  constructor
  · exact fun h l l' hinserts ↦ h l l' (.rel _ _ hinserts)
  · intro h l l' hedits
    induction hedits with
    | rel l l' hinserts => exact h l l' hinserts
    | refl l => rfl
    | symm l l' _ ih => exact ih.symm
    | trans l l' l'' _ _ ih ih' => exact ih.trans ih'

theorem Reads.mono {p q : α → Bool} (h : Reads p f) (hpq : ∀ a, p a = true → q a = true) :
    Reads q f := by
  intro l l' hedits
  refine h l l' (edits_iff.mpr ?_)
  have hfilter (l : List α) : (l.filter q).filter p = l.filter p := by
    rw [List.filter_filter]
    refine filter_congr fun a _ ↦ ?_
    rcases ha : p a with _ | _
    · rfl
    · rw [hpq a ha, Bool.and_self]
  rw [← hfilter l, edits_iff.mp hedits, hfilter l']

theorem Reads.comp (h : Reads p f) (g : β → γ) : Reads p fun l ↦ g (f l) :=
  fun l l' hedits ↦ congrArg g (h l l' hedits)

theorem Reads.comp₂ {f' : List α → γ} (h : Reads p f) (h' : Reads p f')
    (g : β → γ → δ) : Reads p fun l ↦ g (f l) (f' l) :=
  fun l l' hedits ↦ congrArg₂ g (h l l' hedits) (h' l l' hedits)

theorem reads_filterMap_filter {f : α → Option β} {q : β → Bool}
    (h : ∀ a b, f a = some b → q b = true → p a = true) : Reads p fun l ↦ (l.filterMap f).filter q := by
  refine reads_iff_inserts.mpr fun l l' hinserts ↦ ?_
  rcases hinserts with ⟨before, after, a, ha⟩
  rcases hfa : f a with _ | b
  · simp only [filterMap_append, filterMap_cons_none hfa]
  · have hq : ¬ q b = true := fun hq ↦ by simp [h a b hfa hq] at ha
    simp only [filterMap_append, filterMap_cons_some hfa, filter_append,
      filter_cons_of_neg hq]

end Amicode.Observation
