import Mathlib.Data.Option.Basic

/-!
# Exclusion by a slot

Parties keep each other out of a section by a slot that each of them marks as its own before it enters and
empties after it has left. What excludes is that whoever is inside has its mark in the slot (`Held`): two
marks do not fit. The lemmas say which changes of the slot and of who is inside keep that.
-/

namespace Exclusion

variable {W : Type*} {slot slot' : Option W} {inside inside' : W → Prop} {w w' : W}

/-- Whoever is inside has its mark in the slot. -/
def Held (slot : Option W) (inside : W → Prop) : Prop := ∀ w, inside w → slot = some w

theorem Held.unique (h : Held slot inside) (hw : inside w) (hw' : inside w') : w = w' :=
  Option.some.inj ((h w hw).symm.trans (h w' hw'))

theorem Held.mono (h : Held slot inside) (hle : ∀ v, inside' v → inside v) : Held slot inside' :=
  fun v hv ↦ h v (hle v hv)

theorem Held.not_inside (h : Held none inside) (w : W) : ¬ inside w := fun hw ↦ nomatch h w hw

theorem Held.enter (h : Held none inside) (hle : ∀ v, inside' v → v = w ∨ inside v) : Held (some w) inside' := by
  intro v hv
  rcases hle v hv with rfl | hv
  · rfl
  · exact absurd hv (h.not_inside v)

theorem Held.leave (h : Held slot inside) (hw : inside w) (hle : ∀ v, inside' v → inside v ∧ v ≠ w) :
    Held slot' inside' := by
  intro v hv
  obtain ⟨hv, hne⟩ := hle v hv
  exact absurd (h.unique hv hw) hne

/-- A party may replace a mark by its own, or by none as it leaves, if the mark was its own or that of a party that
is not inside. -/
theorem Held.replace (h : Held slot inside) (hothers : ∀ v ∈ slot, v ≠ w → ¬ inside v)
    (hle : ∀ v, inside' v → v = w ∧ slot' = some w ∨ v ≠ w ∧ inside v) : Held slot' inside' := by
  intro v hv
  rcases hle v hv with ⟨rfl, hslot⟩ | ⟨hne, hv⟩
  · exact hslot
  · exact absurd hv (hothers v (h v hv) hne)

theorem Held.clear (h : Held slot inside) (hslot : ∀ w ∈ slot, ¬ inside w) (hle : ∀ v, inside' v → inside v) :
    Held slot' inside' :=
  fun v hv ↦ absurd (hle v hv) (hslot v (h v (hle v hv)))

end Exclusion
