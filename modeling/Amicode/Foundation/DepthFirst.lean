import Mathlib.Data.List.Basic
import Mathlib.Logic.Relation

/-!
# Lists in the order of what they need

A depth-first search is done with a member when it is done with all that the member needs, so the members it is
done with, the last one first, are a list in which each needs only later ones. Such a list has no cycle
(`Ordered.not_transGen`).
-/

namespace DepthFirst

variable {α : Type*} {needs : α → List α} {done : List α} {a b : α}

/-- Each member needs only later ones. -/
def Ordered (needs : α → List α) : List α → Prop
  | [] => True
  | a :: rest => (∀ b ∈ needs a, b ∈ rest) ∧ Ordered needs rest

theorem Ordered.acc (h : Ordered needs done) (ha : a ∈ done) : Acc (fun b a ↦ b ∈ needs a) a := by
  induction done generalizing a with
  | nil => cases ha
  | cons c rest ih =>
    obtain rfl | ha := List.mem_cons.mp ha
    · exact Acc.intro a fun b hb ↦ ih h.2 (h.1 b hb)
    · exact ih h.2 ha

theorem not_rel_self {r : α → α → Prop} (h : Acc r a) : ¬ r a a := by
  induction h with
  | intro a _ ih => exact fun hself ↦ ih a hself hself

theorem Ordered.not_transGen (h : Ordered needs done) (ha : a ∈ done) :
    ¬ Relation.TransGen (fun b a ↦ b ∈ needs a) a a :=
  not_rel_self (h.acc ha).transGen

end DepthFirst
