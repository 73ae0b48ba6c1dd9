import Mathlib.Order.Bounds.Basic

/-!
# High-water marks

A mark over a linear order that is raised by every value beyond it, and is absent until the first one. It
is the greatest of the values it was shown (`isHighWater_raiseAll`), so it is determined by their set, in
whatever order they came (`IsHighWater.unique`).
-/

open List

namespace HighWater

variable {α : Type*} [LinearOrder α]

/-- Raise a mark to a value, if it is beyond. -/
def raise : Option α → α → Option α
  | none, value => some value
  | some mark, value => if mark < value then some value else some mark

def raiseAll (mark : Option α) (values : List α) : Option α := values.foldl raise mark

/-- The mark is at or beyond the value. -/
def Covers (mark : Option α) (value : α) : Prop := ∃ m ∈ mark, value ≤ m

instance (mark : Option α) (value : α) : Decidable (Covers mark value) :=
  inferInstanceAs (Decidable (∃ m ∈ mark, value ≤ m))

/-- The mark is the greatest value of a set, and absent if the set is empty. -/
def IsHighWater (mark : Option α) (values : Set α) : Prop :=
  (∀ m ∈ mark, m ∈ values) ∧ ∀ value ∈ values, Covers mark value

variable (mark : Option α)

@[simp] theorem raiseAll_nil : raiseAll mark [] = mark := rfl

@[simp] theorem raiseAll_cons (value : α) (values : List α) :
    raiseAll mark (value :: values) = raiseAll (raise mark value) values := rfl

theorem covers_raise_iff (value x : α) : Covers (raise mark value) x ↔ Covers mark x ∨ x ≤ value := by
  rcases mark with _ | m
  · simp [raise, Covers]
  · rw [raise]
    split_ifs with h
    · simpa [Covers] using fun hx : x ≤ m ↦ hx.trans h.le
    · simpa [Covers] using fun hx : x ≤ value ↦ hx.trans (not_lt.mp h)

theorem covers_raiseAll_iff (values : List α) (x : α) :
    Covers (raiseAll mark values) x ↔ Covers mark x ∨ ∃ value ∈ values, x ≤ value := by
  induction values generalizing mark with
  | nil => simp
  | cons value values ih =>
    rw [raiseAll_cons, ih, covers_raise_iff, or_assoc]
    simp only [mem_cons, exists_eq_or_imp]

theorem mem_of_mem_raiseAll {mark : Option α} {values : List α} {m : α}
    (h : m ∈ raiseAll mark values) : m ∈ mark ∨ m ∈ values := by
  induction values generalizing mark with
  | nil => exact Or.inl h
  | cons value values ih =>
    rcases ih h with h | h
    · have hraise : m ∈ mark ∨ m = value := by
        rcases mark with _ | m'
        · exact Or.inr (Option.some.inj h).symm
        · rw [raise] at h
          split_ifs at h
          · exact Or.inr (Option.some.inj h).symm
          · exact Or.inl h
      exact hraise.imp_right fun hm ↦ mem_cons.mpr (Or.inl hm)
    · exact Or.inr (mem_cons_of_mem value h)

theorem covers_raiseAll {mark : Option α} {m : α} (h : m ∈ mark) (values : List α) :
    Covers (raiseAll mark values) m :=
  (covers_raiseAll_iff mark values m).mpr (Or.inl ⟨m, h, le_refl m⟩)

theorem isHighWater_empty : IsHighWater (none : Option α) ∅ :=
  ⟨fun _ h ↦ absurd h (by simp), fun _ h ↦ absurd h (Set.notMem_empty _)⟩

theorem IsHighWater.unique {mark mark' : Option α} {values : Set α} (h : IsHighWater mark values)
    (h' : IsHighWater mark' values) : mark = mark' := by
  have hle : ∀ {a b : Option α}, IsHighWater a values → IsHighWater b values →
      ∀ m ∈ a, Covers b m := fun ha hb m hm ↦ hb.2 m (ha.1 m hm)
  rcases mark with _ | m <;> rcases mark' with _ | m'
  · rfl
  · exact absurd (hle h' h m' rfl) (by simp [Covers])
  · exact absurd (hle h h' m rfl) (by simp [Covers])
  · have hmm' : m ≤ m' := by simpa [Covers] using hle h h' m rfl
    have hm'm : m' ≤ m := by simpa [Covers] using hle h' h m' rfl
    rw [le_antisymm hmm' hm'm]

theorem IsHighWater.raiseAll {mark : Option α} {seen : Set α} (h : IsHighWater mark seen)
    (values : List α) : IsHighWater (raiseAll mark values) (seen ∪ {x | x ∈ values}) := by
  refine ⟨fun m hm ↦ (mem_of_mem_raiseAll hm).imp_left (h.1 m), fun x hx ↦ ?_⟩
  rw [covers_raiseAll_iff]
  rcases hx with hx | hx
  · exact Or.inl (h.2 x hx)
  · exact Or.inr ⟨x, hx, le_refl x⟩

theorem raiseAll_eq_self_iff (values : List α) :
    HighWater.raiseAll mark values = mark ↔ ∀ value ∈ values, Covers mark value := by
  constructor
  · intro h value hvalue
    rw [← h, covers_raiseAll_iff]
    exact Or.inr ⟨value, hvalue, le_refl value⟩
  · intro h
    induction values with
    | nil => rfl
    | cons value values ih =>
      obtain ⟨m, rfl, hle⟩ := h value mem_cons_self
      rw [raiseAll_cons, raise, if_neg (not_lt.mpr hle)]
      exact ih fun v hv ↦ h v (mem_cons_of_mem value hv)

/-! ## Peaks

A reader that keeps only its mark takes, of what it is shown, the items beyond everything before them. -/

section Peaks

variable {β : Type*} (key : β → α)

def top (mark : α) (items : List β) : α := items.foldl (fun mark b ↦ if key b ≤ mark then mark else key b) mark

/-- The items beyond the mark and everything before them. -/
def peaks : α → List β → List β
  | _, [] => []
  | mark, b :: rest => if key b ≤ mark then peaks mark rest else b :: peaks (key b) rest

variable {key} {mark : α} {b : β} {items : List β}

theorem peaks_append (mark : α) (before after : List β) :
    peaks key mark (before ++ after) = peaks key mark before ++ peaks key (top key mark before) after := by
  induction before generalizing mark with
  | nil => rfl
  | cons b before ih =>
    rw [cons_append, peaks, peaks, top, foldl_cons]
    split_ifs
    · exact ih mark
    · rw [cons_append, ih (key b)]
      rfl

theorem lt_of_mem_peaks (h : b ∈ peaks key mark items) : mark < key b := by
  induction items generalizing mark with
  | nil => simp [peaks] at h
  | cons c items ih =>
    rw [peaks] at h
    split_ifs at h with hle
    · exact ih h
    · rcases mem_cons.mp h with rfl | h
      · exact not_le.mp hle
      · exact (not_le.mp hle).trans (ih h)

theorem pairwise_peaks (mark : α) (items : List β) : (peaks key mark items).Pairwise (key · < key ·) := by
  induction items generalizing mark with
  | nil => exact Pairwise.nil
  | cons b items ih =>
    rw [peaks]
    split_ifs
    · exact ih mark
    · exact pairwise_cons.mpr ⟨fun c hc ↦ lt_of_mem_peaks hc, ih (key b)⟩

theorem mem_peaks {before after : List β} (hmark : mark < key b) (hbefore : ∀ c ∈ before, key c < key b) :
    b ∈ peaks key mark (before ++ b :: after) := by
  induction before generalizing mark with
  | nil =>
    rw [nil_append, peaks, if_neg (not_le.mpr hmark)]
    exact mem_cons_self
  | cons c before ih =>
    have hrest : ∀ d ∈ before, key d < key b := fun d hd ↦ hbefore d (mem_cons_of_mem c hd)
    rw [cons_append, peaks]
    split_ifs
    · exact ih hmark hrest
    · exact mem_cons_of_mem c (ih (hbefore c mem_cons_self) hrest)

end Peaks

end HighWater
