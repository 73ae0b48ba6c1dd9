import Mathlib.Data.List.Infix

/-!
# Runs of a deterministic step function

A component that reacts to operations one at a time is a function `step : σ → ι → σ`; whatever its
environment decides (a clock reading, an acceptance flag, an outcome) is part of the operation. A
run is a left fold. This file has the induction rules everything else uses:

* `invariant_run`: what every step preserves, every run preserves;
* `invariant_run_of_guarded`: what every step *meeting a side condition* preserves, every run whose
  steps all meet it preserves. The side condition `Guarded step G s ops` says that each operation
  of `ops` is taken from a state that meets `G` together with that operation;
* `guarded_iff_of_invariant`: two side conditions that agree under an invariant guard the same runs.

The last part is about machines that log what is observed of each operation: `Since` says that some
events happened in order with no barrier after them, and `latest` is the last event of a kind.

The rules are about the state after a whole list of operations; since lists are arbitrary and guarding
is inherited by prefixes, that covers every state the run passes through.
-/

open List

namespace StepMachine

variable {σ ι : Type*} (step : σ → ι → σ)

/-- The state after a list of operations. -/
def run (s : σ) (ops : List ι) : σ := ops.foldl step s

@[simp] theorem run_nil (s : σ) : run step s [] = s := rfl

@[simp] theorem run_cons (s : σ) (op : ι) (ops : List ι) :
    run step s (op :: ops) = run step (step s op) ops := rfl

theorem run_append (s : σ) (ops₁ ops₂ : List ι) :
    run step s (ops₁ ++ ops₂) = run step (run step s ops₁) ops₂ :=
  foldl_append

theorem run_concat (s : σ) (ops : List ι) (op : ι) :
    run step s (ops ++ [op]) = step (run step s ops) op := by
  rw [run_append, run_cons, run_nil]

/-- Every operation of the list is taken from a state that meets the side condition. -/
def Guarded (G : σ → ι → Prop) : σ → List ι → Prop
  | _, [] => True
  | s, op :: ops => G s op ∧ Guarded G (step s op) ops

instance decidableGuarded (G : σ → ι → Prop) [∀ s op, Decidable (G s op)] :
    ∀ s ops, Decidable (Guarded step G s ops)
  | _, [] => .isTrue trivial
  | s, op :: ops =>
    have : Decidable (Guarded step G (step s op) ops) := decidableGuarded G (step s op) ops
    inferInstanceAs (Decidable (G s op ∧ Guarded step G (step s op) ops))

variable {step} {G H : σ → ι → Prop}

@[simp] theorem guarded_nil (s : σ) : Guarded step G s [] := trivial

@[simp] theorem guarded_cons (s : σ) (op : ι) (ops : List ι) :
    Guarded step G s (op :: ops) ↔ G s op ∧ Guarded step G (step s op) ops := Iff.rfl

theorem guarded_append (s : σ) (ops₁ ops₂ : List ι) :
    Guarded step G s (ops₁ ++ ops₂)
      ↔ Guarded step G s ops₁ ∧ Guarded step G (run step s ops₁) ops₂ := by
  induction ops₁ generalizing s with
  | nil => simp
  | cons op ops₁ ih => rw [cons_append, guarded_cons, ih, guarded_cons, run_cons, and_assoc]

variable {ops : List ι} {s : σ}

theorem Guarded.imp (hGH : ∀ s op, G s op → H s op) (h : Guarded step G s ops) : Guarded step H s ops := by
  induction ops generalizing s with
  | nil => exact guarded_nil s
  | cons op ops ih => exact ⟨hGH s op h.1, ih h.2⟩

theorem Guarded.and (hG : Guarded step G s ops)
    (hH : Guarded step H s ops) : Guarded step (fun s op ↦ G s op ∧ H s op) s ops := by
  induction ops generalizing s with
  | nil => exact guarded_nil s
  | cons op ops ih => exact ⟨⟨hG.1, hH.1⟩, ih hG.2 hH.2⟩

variable {I : σ → Prop}

/-- A side condition that keeps an invariant guards whatever follows from both. -/
theorem Guarded.of_invariant (hstep : ∀ s op, I s → G s op → I (step s op))
    (himp : ∀ s op, I s → G s op → H s op) (hs : I s) (h : Guarded step G s ops) : Guarded step H s ops := by
  induction ops generalizing s with
  | nil => exact guarded_nil s
  | cons op ops ih => exact ⟨himp s op hs h.1, ih (hstep s op hs h.1) h.2⟩

/-- Two side conditions that agree wherever an invariant holds guard the same runs, if the steps
that meet them preserve the invariant. -/
theorem guarded_iff_of_invariant (hiff : ∀ s op, I s → (G s op ↔ H s op))
    (hstep : ∀ s op, I s → G s op → I (step s op)) (hs : I s) : Guarded step G s ops ↔ Guarded step H s ops := by
  induction ops generalizing s with
  | nil => exact Iff.rfl
  | cons op ops ih =>
    constructor
    · rintro ⟨hG, hrest⟩
      exact ⟨(hiff s op hs).mp hG, (ih (hstep s op hs hG)).mp hrest⟩
    · rintro ⟨hH, hrest⟩
      have hG := (hiff s op hs).mpr hH
      exact ⟨hG, (ih (hstep s op hs hG)).mpr hrest⟩

/-- What holds after every step of a run holds after each of its prefixes. -/
theorem run_take_of_guarded (hs : I s)
    (h : Guarded step (fun s op ↦ I (step s op)) s ops) (k : ℕ) : I (run step s (ops.take k)) := by
  induction ops generalizing s k with
  | nil => simpa using hs
  | cons op ops ih =>
    rcases k with _ | k
    · exact hs
    · rw [take_succ_cons, run_cons]
      exact ih h.1 h.2 k

theorem invariant_run_of_guarded (hstep : ∀ s op, I s → G s op → I (step s op))
    (hs : I s) (h : Guarded step G s ops) : I (run step s ops) := by
  induction ops generalizing s with
  | nil => exact hs
  | cons op ops ih => exact ih (hstep s op hs h.1) h.2

theorem invariant_run (hstep : ∀ s op, I s → I (step s op)) (hs : I s) (ops : List ι) : I (run step s ops) := by
  induction ops generalizing s with
  | nil => exact hs
  | cons op ops ih => exact ih (hstep s op hs)

/-! ## Runs with a log -/

section Logged

variable {ε : Type*}

/-- The step of a machine that logs what is observed of each operation. -/
def logged (step : σ → ι → σ) (observed : σ → ι → List ε) (s : σ × List ε) (op : ι) : σ × List ε :=
  (step s.1 op, s.2 ++ observed s.1 op)

/-- The events happened in this order, and the barrier has not happened since the first of them. -/
def Since (barrier : ε) (events log : List ε) : Prop :=
  ∃ after, after <:+ log ∧ events.Sublist after ∧ barrier ∉ after

/-- The last event of a kind. -/
def latest (p : ε → Bool) (log : List ε) : Option ε := (log.filter p).getLast?

@[simp] theorem latest_nil (p : ε → Bool) : latest p [] = none := rfl

variable {event : ε} {p : ε → Bool}

theorem latest_concat_of_pos (log : List ε) (h : p event = true) : latest p (log ++ [event]) = some event := by
  simp [latest, h]

theorem latest_concat_of_neg (log : List ε) (h : p event = false) : latest p (log ++ [event]) = latest p log := by
  simp [latest, h]

variable {barrier : ε} {events log later : List ε}

instance [DecidableEq ε] (barrier : ε) (events log : List ε) :
    Decidable (Since barrier events log) :=
  decidable_of_iff (∃ after ∈ log.tails, events.Sublist after ∧ barrier ∉ after) (by
    simp only [Since, List.mem_tails])

theorem since_singleton (h : event ≠ barrier) : Since barrier [event] (log ++ [event]) :=
  ⟨[event], suffix_append log [event], Sublist.refl _, by simpa using Ne.symm h⟩

theorem Since.append (h : Since barrier events log) (hlater : barrier ∉ later) :
    Since barrier events (log ++ later) := by
  obtain ⟨after, ⟨before, rfl⟩, hevents, hafter⟩ := h
  refine ⟨after ++ later, ⟨before, (append_assoc ..).symm⟩, ?_, ?_⟩
  · exact hevents.trans (sublist_append_left after later)
  · simp [hafter, hlater]

theorem Since.concat (h : Since barrier events log) (hevent : event ≠ barrier) :
    Since barrier (events ++ [event]) (log ++ [event]) := by
  obtain ⟨after, ⟨before, rfl⟩, hevents, hafter⟩ := h
  refine ⟨after ++ [event], ⟨before, (append_assoc ..).symm⟩, ?_, ?_⟩
  · exact hevents.append (Sublist.refl _)
  · simp [hafter, Ne.symm hevent]

theorem Since.sublist {events' : List ε} (h : Since barrier events log)
    (hevents : events'.Sublist events) : Since barrier events' log := by
  obtain ⟨after, hsuffix, hsublist, hafter⟩ := h
  exact ⟨after, hsuffix, hevents.trans hsublist, hafter⟩

/-- An event that is none of them does not matter for what had happened before it. -/
theorem Since.of_concat (h : Since barrier events (log ++ [event]))
    (hevent : event ∉ events) : Since barrier events log := by
  obtain ⟨after, hsuffix, hsublist, hafter⟩ := h
  rcases suffix_concat_iff.mp hsuffix with rfl | ⟨after, rfl, hsuffix'⟩
  · exact ⟨[], nil_suffix, hsublist, hafter⟩
  · obtain ⟨before, last, rfl, hbefore, hlast⟩ := sublist_append_iff.mp hsublist
    obtain rfl : last = [] := by
      rw [eq_nil_iff_forall_not_mem]
      intro x hx
      obtain rfl := mem_singleton.mp (hlast.subset hx)
      exact hevent (mem_append_right _ hx)
    refine ⟨after, hsuffix', by simpa using hbefore, fun hmem ↦ hafter ?_⟩
    exact mem_append_left _ hmem

/-- Events that are none of them do not matter, the barrier apart. -/
theorem since_append_iff (hlater : ∀ e ∈ event :: events, e ∉ later) :
    Since barrier (event :: events) (log ++ later) ↔ Since barrier (event :: events) log ∧ barrier ∉ later := by
  constructor
  · rintro ⟨after, hsuffix, hsublist, hafter⟩
    rcases suffix_or_suffix_of_suffix hsuffix (suffix_append log later) with h | h
    · have hmem : event ∈ later := h.subset (hsublist.subset mem_cons_self)
      exact absurd hmem (hlater event mem_cons_self)
    · obtain ⟨before, rfl⟩ := h
      rw [mem_append, not_or] at hafter
      obtain ⟨xs, ys, hxy, hxs, hys⟩ := sublist_append_iff.mp hsublist
      obtain rfl : ys = [] := by
        rw [eq_nil_iff_forall_not_mem]
        intro y hy
        exact hlater y (hxy ▸ mem_append_right xs hy) (hys.subset hy)
      rw [append_nil] at hxy
      refine ⟨⟨before, ?_, hxy ▸ hxs, hafter.1⟩, hafter.2⟩
      obtain ⟨front, hfront⟩ := hsuffix
      rw [← append_assoc] at hfront
      exact ⟨front, append_cancel_right hfront⟩
  · rintro ⟨h, hbarrier⟩
    exact h.append hbarrier

theorem Since.of_append_last (h : Since barrier (events ++ [event]) (log ++ later))
    (hevent : event ∉ later) : Since barrier (events ++ [event]) log := by
  obtain ⟨after, hsuffix, hsublist, hafter⟩ := h
  rcases suffix_or_suffix_of_suffix hsuffix (suffix_append log later) with h | ⟨before, rfl⟩
  · exact absurd (h.subset (hsublist.subset (by simp))) hevent
  · rw [mem_append, not_or] at hafter
    obtain ⟨xs, ys, hxy, hxs, hys⟩ := sublist_append_iff.mp hsublist
    obtain rfl : ys = [] := by
      rcases eq_nil_or_concat ys with rfl | ⟨ys, y, rfl⟩
      · rfl
      · rw [concat_eq_append, ← append_assoc] at hxy
        obtain ⟨-, hlast⟩ := append_inj' hxy rfl
        rw [List.cons.injEq] at hlast
        exact absurd (hys.subset (by simp [hlast.1])) hevent
    rw [append_nil] at hxy
    refine ⟨before, ?_, hxy ▸ hxs, hafter.1⟩
    obtain ⟨front, hfront⟩ := hsuffix
    rw [← append_assoc] at hfront
    exact ⟨front, append_cancel_right hfront⟩

theorem Since.append_of_mem (h : Since barrier events log) (hevent : event ∈ later)
    (hbarrier : barrier ∉ later) : Since barrier (events ++ [event]) (log ++ later) := by
  obtain ⟨after, ⟨before, rfl⟩, hevents, hafter⟩ := h
  refine ⟨after ++ later, ⟨before, (append_assoc ..).symm⟩, ?_, by simp [hafter, hbarrier]⟩
  exact hevents.append (singleton_sublist.mpr hevent)

/-- What has just happened has happened since any barrier that has not. -/
theorem since_append_of_mem (hevent : event ∈ later) (hbarrier : barrier ∉ later) :
    Since barrier [event] (log ++ later) :=
  ⟨later, suffix_append log later, singleton_sublist.mpr hevent, hbarrier⟩

theorem latest_append_of_neg (log : List ε) (h : ∀ e ∈ later, p e = false) :
    latest p (log ++ later) = latest p log := by
  have hnone : later.filter p = [] := filter_eq_nil_iff.mpr (by simpa using h)
  rw [latest, filter_append, hnone, append_nil, latest]

theorem not_since_concat_barrier (log : List ε) : ¬ Since barrier (event :: events) (log ++ [barrier]) := by
  rintro ⟨after, hsuffix, hsublist, hafter⟩
  rcases suffix_concat_iff.mp hsuffix with rfl | ⟨after, rfl, -⟩
  · exact absurd hsublist (by simp)
  · exact hafter (by simp)

theorem Since.of_concat_self (h : Since barrier (events ++ [event]) (log ++ [event])) :
    Since barrier events log := by
  obtain ⟨after, hsuffix, hsublist, hafter⟩ := h
  rcases suffix_concat_iff.mp hsuffix with rfl | ⟨after, rfl, hsuffix'⟩
  · exact absurd hsublist (by simp)
  · refine ⟨after, hsuffix', ?_, fun hmem ↦ hafter (mem_append_left _ hmem)⟩
    simpa using hsublist

end Logged

end StepMachine
