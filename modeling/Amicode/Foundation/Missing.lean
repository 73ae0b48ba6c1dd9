import Mathlib.Data.List.Nodup

/-!
# Adding what is missing

A component that looks at what is there and adds the rest: `Exactly created needed existing` says that each thing
created is needed and was missing, and that each thing needed and missing was created, once. It is built up one need
at a time, by `Exactly.keep` for a need that is met and by `Exactly.add` for one that is not. A component that creates
exactly what is missing creates nothing where nothing is missing (`Exactly.eq_nil`).
-/

namespace Missing

variable {α : Type*}

structure Exactly (created : List α) (needed existing : α → Prop) : Prop where
  nodup : created.Nodup
  mem_iff : ∀ x, x ∈ created ↔ needed x ∧ ¬ existing x

variable {created : List α} {needed needed' existing : α → Prop} {x : α}

theorem exactly_nil (existing : α → Prop) : Exactly [] (fun _ ↦ False) existing :=
  ⟨List.nodup_nil, fun _ ↦ ⟨fun h ↦ absurd h List.not_mem_nil, fun h ↦ h.1.elim⟩⟩

section

variable (h : Exactly created needed existing)

include h

theorem Exactly.congr (hiff : ∀ x, needed' x ↔ needed x) : Exactly created needed' existing :=
  ⟨h.nodup, fun x ↦ by rw [hiff]; exact h.mem_iff x⟩

theorem Exactly.there (hx : needed x) : existing x ∨ x ∈ created := by
  by_cases hex : existing x
  · exact .inl hex
  · exact .inr ((h.mem_iff x).mpr ⟨hx, hex⟩)

theorem Exactly.keep (hx : existing x ∨ x ∈ created) : Exactly created (fun y ↦ needed y ∨ y = x) existing := by
  refine ⟨h.nodup, fun y ↦ (h.mem_iff y).trans ⟨fun hy ↦ ⟨.inl hy.1, hy.2⟩, ?_⟩⟩
  rintro ⟨hy | rfl, hnot⟩
  · exact ⟨hy, hnot⟩
  · exact (h.mem_iff y).mp (hx.resolve_left hnot)

theorem Exactly.add (hex : ¬ existing x) (hx : x ∉ created) :
    Exactly (created ++ [x]) (fun y ↦ needed y ∨ y = x) existing := by
  refine ⟨?_, fun y ↦ ?_⟩
  · rw [← List.concat_eq_append, List.nodup_concat]
    exact ⟨hx, h.nodup⟩
  · rw [List.mem_append, List.mem_singleton, h.mem_iff]
    constructor
    · rintro (⟨hy, hnot⟩ | rfl)
      · exact ⟨.inl hy, hnot⟩
      · exact ⟨.inr rfl, hex⟩
    · rintro ⟨hy | rfl, hnot⟩
      · exact .inl ⟨hy, hnot⟩
      · exact .inr rfl

theorem Exactly.eq_nil (hall : ∀ x, needed x → existing x) : created = [] :=
  List.eq_nil_iff_forall_not_mem.mpr fun x hx ↦
    ((h.mem_iff x).mp hx).2 (hall x ((h.mem_iff x).mp hx).1)

end

end Missing
