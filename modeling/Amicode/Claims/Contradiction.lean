import Amicode.Claims.Conservation

/-!
# Contradictions and merging

The signals of a pass name claims by their files and are looked up after merging. A signal that names a claim which
the same pass merged away finds nothing: it becomes a finding, and the survivor, which has the evidence of the
contradicted claim now, is not refuted. It may even be corroborated by that evidence.

On the claims that are left, the signals act claim by claim. The first signal that names a claim of a non-terminal
status with evidence refutes it, with a note of its own, and every later one finds it terminal. So the order of the
signals matters only to the note, and only if two signals name the same claim with different notes.
-/

open List

namespace Amicode.Claims

variable {o : LifecycleOpts} {claims : List RegistryClaim} {c d : RegistryClaim} {p q : PassState}

/-! ## A signal, claim by claim -/

/-- A signal that names the claim refutes it. -/
def actionable (c : RegistryClaim) : Bool := !isTerminal c.claim.status && !c.claim.evidence.isEmpty

def refuteBy (o : LifecycleOpts) (c : RegistryClaim) (signal : ContradictionSignal) : RegistryClaim :=
  if c.file = signal.claim ∧ actionable c = true then
    c.stamp .refuted ⟨o.nowIso, .refuted, refutedNote signal⟩
  else c

def refutations (claims : List RegistryClaim) (signal : ContradictionSignal) : List Transition :=
  (claims.filter fun c ↦ c.file = signal.claim && actionable c).map fun c ↦
    ⟨.refute, c.file, c.claim.status, .refuted, refutedNote signal⟩

def refusals (claims : List RegistryClaim) (signal : ContradictionSignal) : List Finding :=
  match claims.find? (·.file = signal.claim) with
  | none => [.noSuchClaim signal.claim]
  | some target =>
    if isTerminal target.claim.status then [.alreadyTerminal target.file target.claim.status]
    else if target.claim.evidence.isEmpty then [.zeroEvidence target.file]
    else []

theorem filter_file (hn : (claims.map (·.file)).Nodup) (hc : c ∈ claims) :
    claims.filter (·.file = c.file) = [c] := by
  have hperm := (perm_cons_filter hn hc).filter (·.file = c.file)
  rw [filter_cons_of_pos (by simp), List.filter_filter] at hperm
  have hnone : claims.filter (fun x ↦ decide (x.file = c.file) && decide (x.file ≠ c.file)) = [] :=
    filter_eq_nil_iff.2 fun x _ ↦ by by_cases hx : x.file = c.file <;> simp [hx]
  rw [hnone] at hperm
  exact perm_singleton.1 hperm

variable {signal : ContradictionSignal} {s₁ s₂ : ContradictionSignal}

theorem filter_actionable (hn : (claims.map (·.file)).Nodup)
    (hfind : claims.find? (·.file = signal.claim) = some c) :
    claims.filter (fun x ↦ x.file = signal.claim && actionable x) = if actionable c then [c] else [] := by
  have hfile : c.file = signal.claim := by simpa using find?_some hfind
  have hone := filter_file hn (mem_of_find?_eq_some hfind)
  have hsplit : claims.filter (fun x ↦ x.file = signal.claim && actionable x) =
      (claims.filter (·.file = c.file)).filter actionable := by
    rw [List.filter_filter]
    refine filter_congr fun x _ ↦ ?_
    rw [hfile, Bool.and_comm]
  rw [hsplit, hone, filter_singleton]
  exact Bool.cond_eq_ite _ _ _

theorem applySignal_eq (signal : ContradictionSignal) (hn : (p.claims.map (·.file)).Nodup) :
    applySignal o p signal =
      ⟨p.claims.map (refuteBy o · signal), p.transitions ++ refutations p.claims signal,
        p.findings ++ refusals p.claims signal⟩ := by
  have hkeep : (∀ c ∈ p.claims, ¬(c.file = signal.claim ∧ actionable c = true)) →
      p.claims.map (refuteBy o · signal) = p.claims ∧ refutations p.claims signal = [] := by
    intro h
    refine ⟨(map_congr_left (g := id) fun c hc ↦ if_neg (h c hc)).trans (List.map_id _), ?_⟩
    rw [refutations, filter_eq_nil_iff.2 fun c hc ↦ by simpa using h c hc]
    rfl
  rw [applySignal, refusals]
  cases htarget : p.claims.find? (·.file = signal.claim) with
  | none =>
    have hno : ∀ c ∈ p.claims, ¬c.file = signal.claim := by simpa using htarget
    obtain ⟨hmap, href⟩ := hkeep fun c hc h ↦ hno c hc h.1
    rw [hmap, href, append_nil]
  | some target =>
    have hfile : target.file = signal.claim := by simpa using find?_some htarget
    have hmem := mem_of_find?_eq_some htarget
    have hunique : ∀ c ∈ p.claims, c.file = signal.claim → c = target := fun c hc h ↦
      eq_of_file_eq hn hc hmem (h.trans hfile.symm)
    dsimp only
    split
    · next hterm =>
      obtain ⟨hmap, href⟩ := hkeep fun c hc h ↦ by
        simp [actionable, hunique c hc h.1, hterm] at h
      rw [hmap, href, append_nil]
    · next hterm =>
      split
      · next hev =>
        obtain ⟨hmap, href⟩ := hkeep fun c hc h ↦ by
          simp [actionable, hunique c hc h.1, hev] at h
        rw [hmap, href, append_nil]
      · next hev =>
        have hact : actionable target = true := by simp [actionable, hterm, hev]
        rw [refutations, filter_actionable hn htarget, if_pos hact, append_nil]
        congr 1
        refine map_congr_left fun c hc ↦ ?_
        by_cases hcf : c.file = signal.claim
        · rw [if_pos hcf, refuteBy, if_pos ⟨hcf, hunique c hc hcf ▸ hact⟩]
        · rw [if_neg hcf, refuteBy, if_neg fun h ↦ hcf h.1]

@[simp] theorem refuteBy_file (c : RegistryClaim) (signal : ContradictionSignal) :
    (refuteBy o c signal).file = c.file := by
  rw [refuteBy]
  split <;> rfl

theorem refuteBy_of_file_ne (h : c.file ≠ signal.claim) :
    refuteBy o c signal = c :=
  if_neg fun hc ↦ h hc.1

theorem refuteBy_of_not_actionable (h : actionable c = false) :
    refuteBy o c signal = c :=
  if_neg fun hc ↦ by simp [h] at hc

variable (signals : List ContradictionSignal)

theorem foldl_refuteBy_of_not_actionable (h : actionable c = false) : signals.foldl (refuteBy o) c = c := by
  induction signals with
  | nil => rfl
  | cons signal rest ih => rw [foldl_cons, refuteBy_of_not_actionable h, ih]

@[simp] theorem actionable_stamp_refuted (c : RegistryClaim) (entry : HistoryEntry) :
    actionable (c.stamp .refuted entry) = false := rfl

theorem foldl_refuteBy_refuted (c : RegistryClaim) : (signals.foldl (refuteBy o) c).claim.status = .refuted ↔
      c.claim.status = .refuted ∨ actionable c = true ∧ ∃ signal ∈ signals, signal.claim = c.file := by
  induction signals generalizing c with
  | nil => simp
  | cons signal rest ih =>
    rw [foldl_cons]
    by_cases hact : c.file = signal.claim ∧ actionable c = true
    · rw [refuteBy, if_pos hact, foldl_refuteBy_of_not_actionable _ (actionable_stamp_refuted _ _)]
      exact iff_of_true rfl (.inr ⟨hact.2, signal, mem_cons_self, hact.1.symm⟩)
    · rw [refuteBy, if_neg hact, ih]
      refine or_congr_right (and_congr_right fun h ↦ ?_)
      have hne : signal.claim ≠ c.file := fun hf ↦ hact ⟨hf.symm, h⟩
      simp [hne]

theorem nodup_refuteBy (hn : (claims.map (·.file)).Nodup) :
    ((claims.map (refuteBy o · signal)).map (·.file)).Nodup := by
  simpa [List.map_map, Function.comp_def] using hn

theorem signals_claims (hn : (p.claims.map (·.file)).Nodup) :
    (signals.foldl (applySignal o) p).claims = p.claims.map fun c ↦ signals.foldl (refuteBy o) c := by
  induction signals generalizing p with
  | nil => exact (List.map_id _).symm
  | cons signal rest ih =>
    have hnext : (applySignal o p signal).claims = p.claims.map (refuteBy o · signal) := by
      rw [applySignal_eq signal hn]
    rw [foldl_cons, ih (hnext ▸ nodup_refuteBy hn), hnext, List.map_map]
    rfl

/-! ## The order of the signals -/

/-- States that differ in the order of what they report. -/
structure Alike (p q : PassState) : Prop where
  claims : p.claims = q.claims
  transitions : p.transitions.Perm q.transitions
  findings : p.findings.Perm q.findings

theorem Alike.refl (p : PassState) : Alike p p := ⟨rfl, .refl _, .refl _⟩

theorem Alike.symm (h : Alike p q) : Alike q p := ⟨h.claims.symm, h.transitions.symm, h.findings.symm⟩

theorem Alike.trans {r : PassState} (h₁ : Alike p q) (h₂ : Alike q r) : Alike p r :=
  ⟨h₁.claims.trans h₂.claims, h₁.transitions.trans h₂.transitions, h₁.findings.trans h₂.findings⟩

/-- Signals that name a claim which they refute give it the same note. -/
def OneVoice (claims : List RegistryClaim) (signals : List ContradictionSignal) : Prop :=
  ∀ s₁ ∈ signals, ∀ s₂ ∈ signals, s₁.claim = s₂.claim →
    (∃ c ∈ claims, c.file = s₁.claim ∧ actionable c = true) → refutedNote s₁ = refutedNote s₂

variable (signal)

theorem OneVoice.step {signals : List ContradictionSignal}
    (h : OneVoice claims signals) : OneVoice (claims.map (refuteBy o · signal)) signals := by
  rintro s₁ h₁ s₂ h₂ hclaim ⟨d, hd, hfile, hact⟩
  obtain ⟨c, hc, rfl⟩ := List.mem_map.1 hd
  refine h s₁ h₁ s₂ h₂ hclaim ⟨c, hc, by simpa using hfile, ?_⟩
  by_contra hno
  rw [refuteBy_of_not_actionable (eq_false_of_ne_true hno)] at hact
  exact hno hact

theorem Alike.applySignal (hn : (p.claims.map (·.file)).Nodup) (h : Alike p q) :
    Alike (applySignal o p signal) (applySignal o q signal) := by
  rw [applySignal_eq signal hn, applySignal_eq signal (h.claims ▸ hn), h.claims]
  exact ⟨rfl, h.transitions.append_right _, h.findings.append_right _⟩

theorem nodup_applySignal (hn : (p.claims.map (·.file)).Nodup) :
    ((Claims.applySignal o p signal).claims.map (·.file)).Nodup := by
  rw [applySignal_eq signal hn]
  exact nodup_refuteBy hn

variable {signal}

theorem Alike.foldl (hn : (p.claims.map (·.file)).Nodup) (h : Alike p q) :
    Alike (signals.foldl (Claims.applySignal o) p) (signals.foldl (Claims.applySignal o) q) := by
  induction signals generalizing p q with
  | nil => exact h
  | cons signal rest ih => exact ih (nodup_applySignal signal hn) (h.applySignal signal hn)

theorem applySignal_congr (hn : (p.claims.map (·.file)).Nodup)
    (hclaim : s₁.claim = s₂.claim)
    (hvoice : (∃ c ∈ p.claims, c.file = s₁.claim ∧ actionable c = true) → refutedNote s₁ = refutedNote s₂) :
    applySignal o p s₁ = applySignal o p s₂ := by
  have hnote : ∀ c ∈ p.claims, c.file = s₂.claim → actionable c = true → refutedNote s₁ = refutedNote s₂ :=
    fun c hc hfile hact ↦ hvoice ⟨c, hc, hfile.trans hclaim.symm, hact⟩
  rw [applySignal_eq s₁ hn, applySignal_eq s₂ hn]
  congr 1
  · refine map_congr_left fun c hc ↦ ?_
    rw [refuteBy, refuteBy, hclaim]
    by_cases h : c.file = s₂.claim ∧ actionable c = true
    · rw [if_pos h, if_pos h, hnote c hc h.1 h.2]
    · rw [if_neg h, if_neg h]
  · rw [refutations, refutations, hclaim]
    congr 1
    refine map_congr_left fun c hc ↦ ?_
    obtain ⟨hc, h⟩ := mem_filter.1 hc
    simp only [Bool.and_eq_true, decide_eq_true_eq] at h
    rw [hnote c hc h.1 h.2]
  · rw [refusals, refusals, hclaim]

theorem find_refuteBy (hne : s₁.claim ≠ s₂.claim) :
    (claims.map (refuteBy o · s₁)).find? (·.file = s₂.claim) = claims.find? (·.file = s₂.claim) := by
  rw [find?_map]
  have hcomp : (fun c : RegistryClaim ↦ decide (c.file = s₂.claim)) ∘ (refuteBy o · s₁) =
      fun c ↦ decide (c.file = s₂.claim) := by
    funext c
    simp
  rw [hcomp]
  obtain hnone | ⟨c, hc⟩ := Option.eq_none_or_eq_some (claims.find? (·.file = s₂.claim))
  · rw [hnone, Option.map_none]
  · have hfile : c.file = s₂.claim := by simpa using find?_some hc
    rw [hc, Option.map_some, refuteBy_of_file_ne (hfile ▸ hne.symm)]

theorem filter_refuteBy (hne : s₁.claim ≠ s₂.claim) :
    (claims.map (refuteBy o · s₁)).filter (fun c ↦ c.file = s₂.claim && actionable c) =
      claims.filter fun c ↦ c.file = s₂.claim && actionable c := by
  have hstay : ∀ c : RegistryClaim, c.file = s₂.claim → refuteBy o c s₁ = c := fun c h ↦
    refuteBy_of_file_ne (h ▸ hne.symm)
  rw [List.filter_map]
  have hcomp : claims.filter ((fun c ↦ decide (c.file = s₂.claim) && actionable c) ∘ (refuteBy o · s₁)) =
      claims.filter fun c ↦ c.file = s₂.claim && actionable c := by
    refine filter_congr fun c _ ↦ ?_
    by_cases h : c.file = s₂.claim
    · simp [hstay c h]
    · simp [h]
  rw [hcomp]
  refine (map_congr_left (g := id) fun c hc ↦ ?_).trans (List.map_id _)
  have h := (mem_filter.1 hc).2
  simp only [Bool.and_eq_true, decide_eq_true_eq] at h
  exact hstay c h.1

theorem alike_swap (hn : (p.claims.map (·.file)).Nodup)
    (hvoice : OneVoice p.claims [s₁, s₂]) :
    Alike (applySignal o (applySignal o p s₁) s₂) (applySignal o (applySignal o p s₂) s₁) := by
  have h₁ : s₁ ∈ [s₁, s₂] := by simp
  have h₂ : s₂ ∈ [s₁, s₂] := by simp
  by_cases hclaim : s₁.claim = s₂.claim
  · have hfirst : applySignal o p s₁ = applySignal o p s₂ := applySignal_congr hn hclaim (hvoice s₁ h₁ s₂ h₂ hclaim)
    have hvoice' : OneVoice (applySignal o p s₂).claims [s₁, s₂] := by
      rw [applySignal_eq s₂ hn]
      exact hvoice.step s₂
    rw [hfirst, applySignal_congr (nodup_applySignal s₂ hn) hclaim (hvoice' s₁ h₁ s₂ h₂ hclaim)]
    exact .refl _
  · rw [applySignal_eq s₂ (nodup_applySignal s₁ hn), applySignal_eq s₁ (nodup_applySignal s₂ hn),
      applySignal_eq s₁ hn, applySignal_eq s₂ hn]
    simp only [refutations, refusals, filter_refuteBy hclaim, filter_refuteBy (Ne.symm hclaim),
      find_refuteBy hclaim, find_refuteBy (Ne.symm hclaim), append_assoc]
    refine ⟨?_, perm_append_comm.append_left _, perm_append_comm.append_left _⟩
    rw [List.map_map, List.map_map]
    refine map_congr_left fun c _ ↦ ?_
    by_cases hc : c.file = s₁.claim
    · have hc₂ : c.file ≠ s₂.claim := hc ▸ hclaim
      have hc₂' : (refuteBy o c s₁).file ≠ s₂.claim := by simpa using hc₂
      simp only [Function.comp_apply]
      rw [refuteBy_of_file_ne hc₂, refuteBy_of_file_ne hc₂']
    · have hc₁ : (refuteBy o c s₂).file ≠ s₁.claim := by simpa using hc
      simp only [Function.comp_apply]
      rw [refuteBy_of_file_ne hc, refuteBy_of_file_ne hc₁]

theorem alike_of_perm {l₁ l₂ : List ContradictionSignal} (hperm : l₁.Perm l₂)
    (hn : (p.claims.map (·.file)).Nodup) (hvoice : OneVoice p.claims l₁) :
    Alike (l₁.foldl (applySignal o) p) (l₂.foldl (applySignal o) p) := by
  induction hperm generalizing p with
  | nil => exact .refl _
  | cons signal _ ih =>
    refine ih (nodup_applySignal signal hn) fun s₁ h₁ s₂ h₂ ↦ ?_
    rw [applySignal_eq signal hn]
    exact hvoice.step signal s₁ (mem_cons_of_mem _ h₁) s₂ (mem_cons_of_mem _ h₂)
  | swap x y l =>
    have hsub : [y, x] ⊆ y :: x :: l := by simp
    exact Alike.foldl l (nodup_applySignal x (nodup_applySignal y hn))
      (alike_swap hn fun s₁ h₁ s₂ h₂ ↦ hvoice s₁ (hsub h₁) s₂ (hsub h₂))
  | trans h₁₂ _ ih₁ ih₂ =>
    exact (ih₁ hn hvoice).trans (ih₂ hn fun s₁ h₁ s₂ h₂ ↦ hvoice s₁ (h₁₂.mem_iff.2 h₁) s₂ (h₁₂.mem_iff.2 h₂))

/-! ## The pass -/

def corroborateBy (o : LifecycleOpts) (c : RegistryClaim) : RegistryClaim :=
  if crossesThreshold o c then c.stamp .corroborated ⟨o.nowIso, .corroborated, corroboratedNote o c⟩ else c

@[simp] theorem corroborateBy_file (c : RegistryClaim) : (corroborateBy o c).file = c.file := by
  rw [corroborateBy]
  split <;> rfl

theorem corroborateBy_refuted : (corroborateBy o c).claim.status = .refuted ↔ c.claim.status = .refuted := by
  rw [corroborateBy]
  split
  · next h =>
    have hun : c.claim.status = .unverified := by
      simp only [crossesThreshold, Bool.and_eq_true, decide_eq_true_eq] at h
      exact h.1
    refine iff_of_false (fun h ↦ ?_) fun h ↦ ?_
    · cases h
    · rw [hun] at h
      cases h
  · exact Iff.rfl

theorem corroborateBy_of_refuted (h : c.claim.status = .refuted) : corroborateBy o c = c := by
  refine if_neg ?_
  simp [crossesThreshold, h]

/-- What a pass makes of each of the claims that are left. -/
theorem transition_claims (hn : (claims.map (·.file)).Nodup) : (transition o claims signals).claims =
      claims.map fun c ↦ corroborateBy o (signals.foldl (refuteBy o) c) := by
  rw [transition]
  simp only [corroborate]
  rw [signals_claims signals hn, List.map_map]
  rfl

theorem foldl_refuteBy_file (c : RegistryClaim) : (signals.foldl (refuteBy o) c).file = c.file := by
  induction signals generalizing c with
  | nil => rfl
  | cons signal rest ih => rw [foldl_cons, ih, refuteBy_file]

theorem Alike.corroborate (h : Alike p q) : Alike (corroborate o p) (corroborate o q) := by
  simp only [Claims.corroborate, h.claims]
  exact ⟨rfl, h.transitions.append_right _, h.findings⟩

/-! ## The laws -/

/-- A signal on a non-terminal claim with evidence leaves the claim that carries it refuted. -/
def Heeded (o : LifecycleOpts) (input : List RegistryClaim) (signals : List ContradictionSignal) : Prop :=
  ∀ signal ∈ signals, ∀ c ∈ input, c.file = signal.claim → isTerminal c.claim.status = false →
    c.claim.evidence ≠ [] → ∃ d ∈ (runLifecyclePass o input signals).claims,
      d.file = carrier (runLifecyclePass o input signals).merges c.file ∧ d.claim.status = .refuted

/-- The order of the signals orders what the pass reports, and nothing else. -/
def OrderFree (o : LifecycleOpts) (input : List RegistryClaim) (signals : List ContradictionSignal) : Prop :=
  ∀ signals' : List ContradictionSignal, signals'.Perm signals →
    (runLifecyclePass o input signals').claims = (runLifecyclePass o input signals).claims ∧
    (runLifecyclePass o input signals').merges = (runLifecyclePass o input signals).merges ∧
    (runLifecyclePass o input signals').queue = (runLifecyclePass o input signals).queue ∧
    (runLifecyclePass o input signals').transitions.Perm (runLifecyclePass o input signals).transitions ∧
    (runLifecyclePass o input signals').findings.Perm (runLifecyclePass o input signals).findings

/-- The claim into which a contradicted one was merged, or which it still is, is refuted already, or it is not
terminal and named by a signal of its own. -/
def CarriersNamed (o : LifecycleOpts) (input : List RegistryClaim) (signals : List ContradictionSignal) : Prop :=
  ∀ signal ∈ signals, ∀ c ∈ input, c.file = signal.claim → isTerminal c.claim.status = false →
    c.claim.evidence ≠ [] → ∀ s ∈ input, s.file = carrier (dedupe o input.length input).2 c.file →
      s.claim.status = .refuted ∨
        isTerminal s.claim.status = false ∧ ∃ signal' ∈ signals, signal'.claim = s.file

theorem heeded_iff (r : Registry) (signals : List ContradictionSignal) :
    Heeded o r.claims signals ↔ CarriersNamed o r.claims signals := by
  have hn := r.nodup_files
  have hn' := nodup_dedupe (o := o) r.claims.length hn
  rw [Heeded, CarriersNamed, runLifecyclePass_claims, runLifecyclePass_merges, transition_claims signals hn']
  refine forall₂_congr fun signal hsignal ↦ forall₂_congr fun c hc ↦ forall₃_congr fun hfile hterm hev ↦ ?_
  obtain ⟨c', hc', hcar, hsub, -⟩ := dedupe_carried (o := o) r.claims.length hn c hc
  obtain ⟨s, hs, hsfile, -, -, -, hstatus⟩ := dedupe_identity (o := o) r.claims.length hn c' hc'
  have hev' : c'.claim.evidence ≠ [] := ne_nil_of_mem (hsub (head_mem hev))
  have hrefuted : (corroborateBy o (signals.foldl (refuteBy o) c')).claim.status = .refuted ↔
      s.claim.status = .refuted ∨ isTerminal s.claim.status = false ∧
        ∃ signal' ∈ signals, signal'.claim = s.file := by
    rw [corroborateBy_refuted, foldl_refuteBy_refuted, hstatus, hsfile]
    simp [actionable, hstatus, hev']
  constructor
  · rintro ⟨d, hd, hdfile, hdref⟩ s' hs' hs'file
    obtain rfl := eq_of_file_eq hn hs' hs (hs'file.trans (hcar.symm.trans hsfile.symm))
    obtain ⟨c'', hc'', rfl⟩ := List.mem_map.1 hd
    have hsame : c''.file = c'.file := by
      rw [hcar, ← hdfile, corroborateBy_file, foldl_refuteBy_file]
    obtain rfl := eq_of_file_eq hn' hc'' hc' hsame
    exact hrefuted.1 hdref
  · intro h
    refine ⟨_, List.mem_map_of_mem hc', ?_, hrefuted.2 (h s hs (hsfile.trans hcar))⟩
    rw [corroborateBy_file, foldl_refuteBy_file, hcar]

theorem transition_first (rest : List ContradictionSignal)
    (hfile : c.file = signal.claim) (hact : actionable c = true) :
    corroborateBy o ((signal :: rest).foldl (refuteBy o) c) =
      c.stamp .refuted ⟨o.nowIso, .refuted, refutedNote signal⟩ := by
  rw [foldl_cons, refuteBy, if_pos ⟨hfile, hact⟩,
    foldl_refuteBy_of_not_actionable _ (actionable_stamp_refuted _ _), corroborateBy_of_refuted rfl]

theorem orderFree_iff (r : Registry) (signals : List ContradictionSignal) :
    OrderFree o r.claims signals ↔ OneVoice (dedupe o r.claims.length r.claims).1 signals := by
  have hn := nodup_dedupe (o := o) r.claims.length r.nodup_files
  constructor
  · rintro h s₁ h₁ s₂ h₂ hclaim ⟨c, hc, hfile, hact⟩
    have hfirst : ∀ s ∈ signals, (runLifecyclePass o r.claims (s :: signals.erase s)).claims =
        (runLifecyclePass o r.claims signals).claims := fun s hs ↦ (h _ (perm_cons_erase hs).symm).1
    have heq := (hfirst s₁ h₁).trans (hfirst s₂ h₂).symm
    rw [runLifecyclePass_claims, runLifecyclePass_claims, transition_claims _ hn, transition_claims _ hn] at heq
    have hc' := map_inj_left.1 heq c hc
    rw [transition_first _ hfile hact, transition_first _ (hfile.trans hclaim) hact] at hc'
    have hhist := congrArg (·.claim.history) hc'
    have hentry := append_cancel_left hhist
    exact congrArg HistoryEntry.note (singleton_inj.1 hentry)
  · intro h signals' hperm
    have halike := (alike_of_perm (p := ⟨_, [], []⟩) (o := o) hperm.symm hn h).symm.corroborate (o := o)
    refine ⟨halike.claims, rfl, ?_, halike.transitions, ?_⟩
    · exact congrArg (List.filterMap (reviewEntry o)) halike.claims
    · exact halike.findings.append (Perm.of_eq (congrArg (ageFindings o) halike.claims))

/-- A pass heeds its signals in any order exactly if no contradicted claim was merged into one that nobody
contradicts, and no two signals refute a claim with different notes. -/
theorem contradiction_iff (o : LifecycleOpts) (r : Registry) (signals : List ContradictionSignal) :
    Heeded o r.claims signals ∧ OrderFree o r.claims signals ↔
      CarriersNamed o r.claims signals ∧ OneVoice (dedupe o r.claims.length r.claims).1 signals :=
  and_congr (heeded_iff r signals) (orderFree_iff r signals)

/-- A run contradicts the claim of July, which the pass has just merged into that of June. -/
theorem not_heeded_juneAndJuly :
    ¬ ∀ (o : LifecycleOpts) (r : Registry) (signals : List ContradictionSignal),
      Heeded o r.claims signals ∧ OrderFree o r.claims signals := by
  intro h
  obtain ⟨d, hd, -, href⟩ := (h october juneAndJuly [⟨"july.md", "run-7", none⟩]).1
    ⟨"july.md", "run-7", none⟩ List.mem_cons_self _ (List.mem_cons_of_mem _ List.mem_cons_self) rfl rfl
    (List.cons_ne_nil _ _)
  have hnone : ∀ d ∈ (runLifecyclePass october juneAndJuly.claims [⟨"july.md", "run-7", none⟩]).claims,
      d.claim.status ≠ .refuted := by decide +kernel
  exact hnone d hd href

end Amicode.Claims
