import Mathlib.Data.List.Basic

/-!
# Loops that may stop

A loop over a list acts on a state, and an action may end it early (an exception): what it did to the state until
then stays done. There are four rules: `forEach_completes`, for what a loop has done when nothing ends it;
`forEach_invariant`, for what holds however it ends; `forEach_visited`, for what its end says about each of the
states it went through; and `Ends.forEach`, for what a loop has done if nothing ends it, and what may end it.
-/

open List

namespace Loop

variable {σ α ε : Type*}

/-- Act on the state for each member of a list, until an action stops. -/
def forEach (act : α → σ → σ × Option ε) : List α → σ → σ × Option ε
  | [], s => (s, none)
  | a :: rest, s =>
    match act a s with
    | (s', some stop) => (s', some stop)
    | (s', none) => forEach act rest s'

/-- One action after another, if the first does not stop. -/
def andThen (first second : σ → σ × Option ε) (s : σ) : σ × Option ε :=
  match first s with
  | (s', some stop) => (s', some stop)
  | (s', none) => second s'

variable {act : α → σ → σ × Option ε} {first second : σ → σ × Option ε} {s s' : σ} {l : List α}

theorem forEach_cons_of_none {a : α} {rest : List α} (h : act a s = (s', none)) :
    forEach act (a :: rest) s = forEach act rest s' := by
  rw [forEach, h]

theorem andThen_of_none (h : first s = (s', none)) : andThen first second s = second s' := by
  rw [andThen, h]

theorem andThen_of_some {stop : ε} (h : first s = (s', some stop)) : andThen first second s = (s', some stop) := by
  rw [andThen, h]

variable {P : List α → σ → Prop} {R : ε → Prop}

theorem forEach_completes_from (done : List α)
    (hstep : ∀ front a rest, done ++ l = front ++ a :: rest → ∀ s, P front s →
      ∃ s', act a s = (s', none) ∧ P (front ++ [a]) s') (hs : P done s) :
    ∃ s', forEach act l s = (s', none) ∧ P (done ++ l) s' := by
  induction l generalizing done s with
  | nil => exact ⟨s, rfl, by simpa using hs⟩
  | cons a rest ih =>
    obtain ⟨s₁, hact, hs₁⟩ := hstep done a rest rfl s hs
    obtain ⟨s₂, hrest, hs₂⟩ := ih (done ++ [a])
      (fun front b rest' heq ↦ hstep front b rest' (by simpa using heq)) hs₁
    exact ⟨s₂, (forEach_cons_of_none hact).trans hrest, by simpa using hs₂⟩

/-- If no action stops as long as the invariant of the members done holds, the loop completes, and it holds of
all of them. -/
theorem forEach_completes
    (hstep : ∀ front a rest, l = front ++ a :: rest → ∀ s, P front s →
      ∃ s', act a s = (s', none) ∧ P (front ++ [a]) s') (hs : P [] s) :
    ∃ s', forEach act l s = (s', none) ∧ P l s' :=
  forEach_completes_from [] hstep hs

/-- What every action preserves, the loop preserves, however it ends. -/
theorem forEach_invariant {P : σ → Prop} (hstep : ∀ a ∈ l, ∀ s, P s → P (act a s).1) (hs : P s) :
    P (forEach act l s).1 := by
  induction l generalizing s with
  | nil => exact hs
  | cons a rest ih =>
    have hnext := hstep a mem_cons_self s hs
    rw [forEach]
    split
    · next heq =>
      rw [heq] at hnext
      exact hnext
    · next heq =>
      rw [heq] at hnext
      exact ih (fun b hb ↦ hstep b (mem_cons_of_mem a hb)) hnext

theorem andThen_invariant {P : σ → Prop} (hfirst : P s → P (first s).1) (hsecond : ∀ s, P s → P (second s).1)
    (hs : P s) : P (andThen first second s).1 := by
  have hnext := hfirst hs
  rw [andThen]
  split
  · next heq =>
    rw [heq] at hnext
    exact hnext
  · next heq =>
    rw [heq] at hnext
    exact hsecond _ hnext

/-- If a loop completes, each member had its turn; and what holds at the end of the loop, if it can only have been
lost by an action, held before and after each turn. -/
theorem forEach_visited {P Q : σ → Prop} (hstep : ∀ a ∈ l, ∀ s, P s → P (act a s).1)
    (hback : ∀ a ∈ l, ∀ s, P s → Q (act a s).1 → Q s) (hs : P s) (hend : forEach act l s = (s', none)) (hQ : Q s') :
    Q s ∧ ∀ a ∈ l, ∃ s₀ s₁, P s₀ ∧ Q s₀ ∧ act a s₀ = (s₁, none) ∧ Q s₁ := by
  induction l generalizing s with
  | nil =>
    cases hend
    exact ⟨hQ, fun a ha ↦ absurd ha not_mem_nil⟩
  | cons b rest ih =>
    have hnext := hstep b mem_cons_self s hs
    have hbefore := hback b mem_cons_self s hs
    rw [forEach] at hend
    split at hend
    · cases hend
    · next s₁ heq =>
      rw [heq] at hnext hbefore
      obtain ⟨hQ₁, hvisited⟩ := ih (fun a ha ↦ hstep a (mem_cons_of_mem b ha))
        (fun a ha ↦ hback a (mem_cons_of_mem b ha)) hnext hend
      refine ⟨hbefore hQ₁, fun a ha ↦ ?_⟩
      obtain rfl | ha := mem_cons.mp ha
      · exact ⟨s, s₁, hs, hbefore hQ₁, heq, hQ₁⟩
      · exact hvisited a ha

/-! ## What may end a run -/

/-- If nothing ended the run, its state is as said, and what ended it is. -/
structure Ends (Q : σ → Prop) (R : ε → Prop) (result : σ × Option ε) : Prop where
  completed : result.2 = none → Q result.1
  stopped : ∀ stop, result.2 = some stop → R stop

theorem Ends.of_completed {Q : σ → Prop} (h : Q s) : Ends Q R (s, none) :=
  ⟨fun _ ↦ h, fun _ hstop ↦ nomatch hstop⟩

theorem Ends.of_stopped {Q : σ → Prop} {stop : ε} (h : R stop) : Ends Q R (s, some stop) :=
  ⟨fun hnone ↦ absurd hnone (Option.some_ne_none stop), fun _ hstop ↦ Option.some.inj hstop ▸ h⟩

theorem Ends.andThen {P Q : σ → Prop} (hfirst : Ends P R (first s))
    (hsecond : ∀ s, P s → Ends Q R (second s)) : Ends Q R (andThen first second s) := by
  rcases hend : first s with ⟨s', _ | stop⟩ <;> rw [hend] at hfirst
  · rw [andThen_of_none hend]
    exact hsecond s' (hfirst.completed rfl)
  · rw [andThen_of_some hend]
    exact .of_stopped (hfirst.stopped stop rfl)

theorem Ends.forEach_from (done : List α)
    (hstep : ∀ front a rest, done ++ l = front ++ a :: rest → ∀ s, P front s → Ends (P (front ++ [a])) R (act a s))
    (hs : P done s) : Ends (P (done ++ l)) R (forEach act l s) := by
  induction l generalizing done s with
  | nil => exact .of_completed (by simpa using hs)
  | cons a rest ih =>
    have hact := hstep done a rest rfl s hs
    rcases hend : act a s with ⟨s', _ | stop⟩ <;> rw [hend] at hact
    · rw [forEach_cons_of_none hend, append_cons]
      exact ih (done ++ [a]) (fun front b rest' heq ↦ hstep front b rest' (by simpa using heq))
        (hact.completed rfl)
    · rw [forEach, hend]
      exact .of_stopped (hact.stopped stop rfl)

/-- If each action, as long as the invariant of the members done holds, ends so that it holds of one more, the loop
ends so that it holds of all of them. -/
theorem Ends.forEach
    (hstep : ∀ front a rest, l = front ++ a :: rest → ∀ s, P front s → Ends (P (front ++ [a])) R (act a s))
    (hs : P [] s) : Ends (P l) R (forEach act l s) :=
  .forEach_from [] hstep hs

end Loop
