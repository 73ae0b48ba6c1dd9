import Amicode.Claims.Lifecycle

/-!
# What the lifecycle pass keeps

Merging only moves things. The evidence and the history of every claim are found again in its carrier, the adoption
counters have the same sum before and after, and the claim of a file keeps what it is. The transitions that follow
change a status only together with the history entry that says so. After a pass nothing is left to merge and
nothing left to corroborate, so that a second pass finds nothing to do.

A survivor keeps its status and takes in the history of its duplicates, behind its own. So the last entry of a
trail that bears a status need not tell the status of the claim any more, if the trails of the claims it carries
disagree.
-/

open List

namespace Amicode.Claims

/-! ## The words of the statement -/

/-- The claim that a claim ends up in. -/
def carrier (merges : List MergeAction) (file : String) : String :=
  merges.foldl (fun f m ↦ if m.duplicate = f then m.survivor else f) file

/-- The status that a history entry records, if it bears one. -/
def statusOf : ClaimHistoryEvent → Option ClaimStatus
  | .corroborated => some .corroborated
  | .superseded => some .superseded
  | .refuted => some .refuted
  | .created | .projected | .merged | .evidenceAdded | .applied => none

def lastStatus (history : List HistoryEntry) : Option ClaimStatus :=
  (history.filterMap fun h ↦ statusOf h.event).getLast?

/-- The status of a claim is the one that its history ends with. -/
def Agrees (c : RegistryClaim) : Prop := ∀ status ∈ lastStatus c.claim.history, c.claim.status = status

instance (c : RegistryClaim) : Decidable (Agrees c) := inferInstanceAs (Decidable (∀ _ ∈ _, _))

structure Conserves (o : LifecycleOpts) (input : List RegistryClaim) (signals : List ContradictionSignal) :
    Prop where
  /-- The merge loop ends. -/
  terminates : firstPair o (dedupe o input.length input).1 = none
  together : ∀ m ∈ (runLifecyclePass o input signals).merges, (∃ c ∈ input, c.file = m.duplicate) ∧
    carrier (runLifecyclePass o input signals).merges m.duplicate =
      carrier (runLifecyclePass o input signals).merges m.survivor
  carried : ∀ c ∈ input, ∃ d ∈ (runLifecyclePass o input signals).claims,
    d.file = carrier (runLifecyclePass o input signals).merges c.file ∧
      c.claim.evidence ⊆ d.claim.evidence ∧ c.claim.history.Sublist d.claim.history
  applied : ((runLifecyclePass o input signals).claims.map (·.claim.applied)).sum =
    (input.map (·.claim.applied)).sum
  identity : ∀ d ∈ (runLifecyclePass o input signals).claims, ∃ c ∈ input, c.file = d.file ∧
    d.claim.statement = c.claim.statement ∧ d.claim.type = c.claim.type ∧ d.claim.scope = c.claim.scope
  /-- The status agrees with the trail if the pass moved it, or else if the trails carried agree with it. -/
  status : ∀ c ∈ input, ∀ d ∈ (runLifecyclePass o input signals).claims, d.file = c.file →
    (d.claim.status ≠ c.claim.status ∨
      ∀ e ∈ input, carrier (runLifecyclePass o input signals).merges e.file = c.file →
        ∀ status ∈ lastStatus e.claim.history, c.claim.status = status) →
    Agrees d
  again : (runLifecyclePass o (runLifecyclePass o input signals).claims []).merges = [] ∧
    (runLifecyclePass o (runLifecyclePass o input signals).claims []).transitions = []

variable {o : LifecycleOpts} {claims : List RegistryClaim} {c d : RegistryClaim}

/-! ## Carriers -/

@[simp] theorem carrier_cons (m : MergeAction) (merges : List MergeAction) (file : String) :
    carrier (m :: merges) file = carrier merges (if m.duplicate = file then m.survivor else file) := rfl

theorem exists_mem_mergePair {survivor duplicate : RegistryClaim} (hn : (claims.map (·.file)).Nodup)
    (hs : survivor ∈ claims) (hd : duplicate ∈ claims) (hne : survivor.file ≠ duplicate.file) (hc : c ∈ claims) :
    ∃ d ∈ mergePair o claims survivor duplicate,
      d.file = (if duplicate.file = c.file then survivor.file else c.file) ∧
        c.claim.evidence ⊆ d.claim.evidence ∧ c.claim.history.Sublist d.claim.history := by
  have hmerged := (mem_mergePair (o := o) hs hne).2 (.inl rfl)
  by_cases hcd : duplicate.file = c.file
  · obtain rfl := eq_of_file_eq hn hd hc hcd
    refine ⟨_, hmerged, (if_pos rfl).symm, fun pointer hp ↦ ?_, ?_⟩
    · by_cases hmine : pointer ∈ survivor.claim.evidence
      · exact mem_append_left _ hmine
      · exact mem_append_right _ (mem_filter.2 ⟨hp, by simpa using hmine⟩)
    · exact (sublist_append_right _ _).trans (sublist_append_left _ _)
  · by_cases hcs : survivor.file = c.file
    · obtain rfl := eq_of_file_eq hn hs hc hcs
      refine ⟨_, hmerged, (if_neg hcd).symm, subset_append_left _ _, ?_⟩
      exact (sublist_append_left _ _).trans (sublist_append_left _ _)
    · exact ⟨c, (mem_mergePair hs hne).2 (.inr ⟨hc, Ne.symm hcs, Ne.symm hcd⟩), (if_neg hcd).symm,
        Subset.refl _, Sublist.refl _⟩

variable (rounds : ℕ)

theorem dedupe_carried (hn : (claims.map (·.file)).Nodup) :
    ∀ c ∈ claims, ∃ d ∈ (dedupe o rounds claims).1, d.file = carrier (dedupe o rounds claims).2 c.file ∧
      c.claim.evidence ⊆ d.claim.evidence ∧ c.claim.history.Sublist d.claim.history := by
  refine dedupe_rec (motive := fun claims rest merges ↦ ∀ c ∈ claims, ∃ d ∈ rest,
    d.file = carrier merges c.file ∧ c.claim.evidence ⊆ d.claim.evidence ∧
      c.claim.history.Sublist d.claim.history) ?_ ?_ rounds claims hn
  · intro claims c hc
    exact ⟨c, hc, rfl, Subset.refl _, Sublist.refl _⟩
  · intro claims survivor duplicate m rest merges hn hs hd hne hms hmd ih c hc
    obtain ⟨c', hc', hfile, hev, hhist⟩ := exists_mem_mergePair (o := o) hn hs hd hne hc
    obtain ⟨d, hd, hfile', hev', hhist'⟩ := ih c' hc'
    refine ⟨d, hd, ?_, Subset.trans hev hev', hhist.trans hhist'⟩
    rw [hfile', hfile, carrier_cons, hms, hmd]

theorem dedupe_together (hn : (claims.map (·.file)).Nodup) :
    ∀ m ∈ (dedupe o rounds claims).2, (∃ c ∈ claims, c.file = m.duplicate) ∧ (∃ c ∈ claims, c.file = m.survivor) ∧
      carrier (dedupe o rounds claims).2 m.duplicate = carrier (dedupe o rounds claims).2 m.survivor := by
  refine dedupe_rec (motive := fun claims _ merges ↦ ∀ m ∈ merges, (∃ c ∈ claims, c.file = m.duplicate) ∧
    (∃ c ∈ claims, c.file = m.survivor) ∧ carrier merges m.duplicate = carrier merges m.survivor)
    ?_ ?_ rounds claims hn
  · intro claims m hm
    cases hm
  · intro claims survivor duplicate m rest merges hn hs hd hne hms hmd ih m' hm'
    obtain rfl | hm' := mem_cons.1 hm'
    · refine ⟨⟨duplicate, hd, hmd.symm⟩, ⟨survivor, hs, hms.symm⟩, ?_⟩
      rw [carrier_cons, if_pos rfl, carrier_cons, if_neg (hms ▸ hmd ▸ hne.symm)]
    · -- both claims of a later merge are still there, so neither is the duplicate of this one
      have hstill : ∀ file, (∃ c ∈ mergePair o claims survivor duplicate, c.file = file) →
          (∃ c ∈ claims, c.file = file) ∧ m.duplicate ≠ file := by
        rintro file ⟨c, hc, rfl⟩
        obtain rfl | ⟨hc, -, hcd⟩ := (mem_mergePair hs hne).1 hc
        · exact ⟨⟨survivor, hs, rfl⟩, hmd ▸ hne.symm⟩
        · exact ⟨⟨c, hc, rfl⟩, hmd ▸ hcd.symm⟩
      obtain ⟨hdup, hsurv, hcar⟩ := ih m' hm'
      obtain ⟨hdup, hd'⟩ := hstill _ hdup
      obtain ⟨hsurv, hs'⟩ := hstill _ hsurv
      refine ⟨hdup, hsurv, ?_⟩
      rw [carrier_cons, if_neg hd', carrier_cons, if_neg hs', hcar]

/-! ## Counters and identity -/

theorem dedupe_applied (hn : (claims.map (·.file)).Nodup) :
    ((dedupe o rounds claims).1.map (·.claim.applied)).sum = (claims.map (·.claim.applied)).sum := by
  refine dedupe_rec (motive := fun claims rest _ ↦
    (rest.map (·.claim.applied)).sum = (claims.map (·.claim.applied)).sum) (fun _ ↦ rfl) ?_ rounds claims hn
  intro claims survivor duplicate m rest merges hn hs hd hne _ _ ih
  obtain ⟨others, hbefore, hafter⟩ := mergePair_perm (o := o) hn hs hd hne
  rw [ih, (hafter.map _).sum_eq, (hbefore.map _).sum_eq]
  simp only [map_cons, sum_cons, mergeInto]
  omega

theorem dedupe_file {R : Claim → Claim → Prop} (hrefl : ∀ c, R c c)
    (hmerge : ∀ survivor duplicate d, R (mergeInto o survivor duplicate).claim d → R survivor.claim d)
    (rounds : ℕ) (hn : (claims.map (·.file)).Nodup) :
    ∀ d ∈ (dedupe o rounds claims).1, ∃ c ∈ claims, c.file = d.file ∧ R c.claim d.claim := by
  refine dedupe_rec (motive := fun claims rest _ ↦ ∀ d ∈ rest, ∃ c ∈ claims, c.file = d.file ∧
    R c.claim d.claim) ?_ ?_ rounds claims hn
  · exact fun claims d hd ↦ ⟨d, hd, rfl, hrefl _⟩
  · intro claims survivor duplicate m rest merges hn hs hd hne _ _ ih d hdrest
    obtain ⟨c, hc, hfile, hc'⟩ := ih d hdrest
    obtain rfl | ⟨hc, -⟩ := (mem_mergePair hs hne).1 hc
    · exact ⟨survivor, hs, hfile, hmerge _ _ _ hc'⟩
    · exact ⟨c, hc, hfile, hc'⟩

theorem dedupe_identity (hn : (claims.map (·.file)).Nodup) :
    ∀ d ∈ (dedupe o rounds claims).1, ∃ c ∈ claims, c.file = d.file ∧ d.claim.statement = c.claim.statement ∧
      d.claim.type = c.claim.type ∧ d.claim.scope = c.claim.scope ∧ d.claim.status = c.claim.status := by
  refine dedupe_file (R := fun c d ↦ d.statement = c.statement ∧ d.type = c.type ∧ d.scope = c.scope ∧
    d.status = c.status) ?_ ?_ rounds hn
  · exact fun c ↦ ⟨rfl, rfl, rfl, rfl⟩
  · exact fun survivor duplicate d h ↦ h

/-! ## Trails -/

theorem lastStatus_append (before after : List HistoryEntry) :
    lastStatus (before ++ after) = (lastStatus after).or (lastStatus before) := by
  rw [lastStatus, filterMap_append, getLast?_append]
  rfl

theorem lastStatus_mergeInto (survivor duplicate : RegistryClaim) :
    lastStatus (mergeInto o survivor duplicate).claim.history =
      (lastStatus duplicate.claim.history).or (lastStatus survivor.claim.history) := by
  simp only [mergeInto]
  rw [lastStatus_append, lastStatus_append]
  rfl

theorem dedupe_source {P : Claim → Prop}
    (hmerge : ∀ survivor duplicate, P (mergeInto o survivor duplicate).claim → P duplicate.claim ∨ P survivor.claim)
    (rounds : ℕ) (hn : (claims.map (·.file)).Nodup) : ∀ d ∈ (dedupe o rounds claims).1, P d.claim →
      ∃ e ∈ claims, carrier (dedupe o rounds claims).2 e.file = d.file ∧ P e.claim := by
  refine dedupe_rec (motive := fun claims rest merges ↦ ∀ d ∈ rest, P d.claim →
    ∃ e ∈ claims, carrier merges e.file = d.file ∧ P e.claim) ?_ ?_ rounds claims hn
  · exact fun claims d hd hP ↦ ⟨d, hd, rfl, hP⟩
  · intro claims survivor duplicate m rest merges hn hs hd hne hms hmd ih d hdrest hP
    obtain ⟨e, he, hcar, hPe⟩ := ih d hdrest hP
    obtain rfl | ⟨he, -, hed⟩ := (mem_mergePair hs hne).1 he
    · obtain hdup | hsurv := hmerge _ _ hPe
      · exact ⟨duplicate, hd, by rw [carrier_cons, hmd, if_pos rfl, hms]; exact hcar, hdup⟩
      · exact ⟨survivor, hs, by rw [carrier_cons, hmd, if_neg hne.symm]; exact hcar, hsurv⟩
    · exact ⟨e, he, by rw [carrier_cons, hmd, if_neg hed.symm]; exact hcar, hPe⟩

/-- The status that a merged trail ends with is the one that a carried trail ends with. -/
theorem dedupe_lastStatus (hn : (claims.map (·.file)).Nodup) :
    ∀ d ∈ (dedupe o rounds claims).1, ∀ status ∈ lastStatus d.claim.history,
      ∃ e ∈ claims, carrier (dedupe o rounds claims).2 e.file = d.file ∧ status ∈ lastStatus e.claim.history := by
  intro d hd status
  refine dedupe_source (P := fun c ↦ status ∈ lastStatus c.history) (fun survivor duplicate h ↦ ?_) rounds hn d hd
  rw [lastStatus_mergeInto, Option.mem_def, Option.or_eq_some_iff] at h
  exact h.imp_right And.right

theorem dedupe_history (hn : (claims.map (·.file)).Nodup) :
    ∀ d ∈ (dedupe o rounds claims).1, ∀ h ∈ d.claim.history, h.event ≠ .merged →
      ∃ e ∈ claims, carrier (dedupe o rounds claims).2 e.file = d.file ∧ h ∈ e.claim.history := by
  intro d hd h hh hevent
  refine dedupe_source (P := fun c ↦ h ∈ c.history) (fun survivor duplicate hmem ↦ ?_) rounds hn d hd hh
  obtain hmem | hmark := mem_append.1 hmem
  · exact (mem_append.1 hmem).symm
  · exact absurd (mem_singleton.1 hmark ▸ rfl) hevent

/-! ## Transitions -/

/-- A claim up to its status and its history. -/
def bare (c : RegistryClaim) : RegistryClaim :=
  { c with claim := { c.claim with status := .unverified, history := [] } }

/-- A claim that moved has its new status at the end of its trail, behind entries that bear a status. -/
def Moved (c d : RegistryClaim) : Prop :=
  bare d = bare c ∧
    ∃ extra, d.claim.history = c.claim.history ++ extra ∧ (∀ h ∈ extra, (statusOf h.event).isSome) ∧
      lastStatus extra = some d.claim.status

/-- A claim before the transitions and after them. -/
def Followed (c d : RegistryClaim) : Prop := d = c ∨ Moved c d

theorem Followed.bare_eq (h : Followed c d) : bare d = bare c := by
  obtain rfl | h := h
  · rfl
  · exact h.1

theorem Followed.history (h : Followed c d) : c.claim.history.Sublist d.claim.history := by
  obtain rfl | ⟨-, extra, hextra, -, -⟩ := h
  · exact Sublist.refl _
  · rw [hextra]
    exact sublist_append_left _ _

theorem Moved.agrees (h : Moved c d) : Agrees d := by
  obtain ⟨-, extra, hextra, -, hlast⟩ := h
  intro status hstatus
  rw [hextra, lastStatus_append, hlast] at hstatus
  exact Option.some.inj hstatus

theorem Followed.stamp {status : ClaimStatus} {entry : HistoryEntry} (h : Followed c d)
    (hentry : statusOf entry.event = some status) : Followed c (d.stamp status entry) := by
  have hlast : lastStatus [entry] = some status := by simp [lastStatus, hentry]
  have hbears : (statusOf entry.event).isSome := by simp [hentry]
  refine .inr ⟨h.bare_eq, ?_⟩
  obtain rfl | ⟨-, extra, hextra, hall, -⟩ := h
  · exact ⟨[entry], rfl, by simpa using hbears, hlast⟩
  · refine ⟨extra ++ [entry], ?_, ?_, ?_⟩
    · rw [← append_assoc, ← hextra]
      rfl
    · intro h hmem
      obtain hmem | hmem := mem_append.1 hmem
      · exact hall h hmem
      · exact mem_singleton.1 hmem ▸ hbears
    · rw [lastStatus_append, hlast]
      rfl

variable {p : PassState}

theorem followed_applySignal (signal : ContradictionSignal)
    (h : List.Forall₂ Followed claims p.claims) :
    List.Forall₂ Followed claims (applySignal o p signal).claims := by
  rw [applySignal]
  split
  · exact h
  · split
    · exact h
    · split
      · exact h
      · refine forall₂_map_right_iff.2 (h.imp fun c d hcd ↦ ?_)
        split
        · exact hcd.stamp rfl
        · exact hcd

variable (signals : List ContradictionSignal)

theorem followed_signals (h : List.Forall₂ Followed claims p.claims) :
    List.Forall₂ Followed claims (signals.foldl (applySignal o) p).claims := by
  induction signals generalizing p with
  | nil => exact h
  | cons signal rest ih => exact ih (followed_applySignal signal h)

theorem followed_corroborate (h : List.Forall₂ Followed claims p.claims) :
    List.Forall₂ Followed claims (corroborate o p).claims := by
  refine forall₂_map_right_iff.2 (h.imp fun c d hcd ↦ ?_)
  split
  · exact hcd.stamp rfl
  · exact hcd

/-- The transitions of a pass leave the claims where they are and change them only together with their trails. -/
theorem followed_transition (o : LifecycleOpts) (claims : List RegistryClaim)
    (signals : List ContradictionSignal) : List.Forall₂ Followed claims (transition o claims signals).claims :=
  followed_corroborate (followed_signals signals (forall₂_same.2 fun _ _ ↦ .inl rfl))

theorem map_bare_of_followed {after : List RegistryClaim} (h : List.Forall₂ Followed claims after) :
    after.map bare = claims.map bare := by
  induction h with
  | nil => rfl
  | cons h _ ih => rw [map_cons, map_cons, h.bare_eq, ih]

theorem exists_followed {after : List RegistryClaim} (h : List.Forall₂ Followed claims after) :
    (∀ c ∈ claims, ∃ d ∈ after, Followed c d) ∧ ∀ d ∈ after, ∃ c ∈ claims, Followed c d := by
  induction h with
  | nil => exact ⟨fun _ h ↦ absurd h not_mem_nil, fun _ h ↦ absurd h not_mem_nil⟩
  | @cons c d _ _ hcd _ ih =>
    refine ⟨fun c' hc' ↦ ?_, fun d' hd' ↦ ?_⟩
    · obtain rfl | hc' := mem_cons.1 hc'
      · exact ⟨d, mem_cons_self, hcd⟩
      · obtain ⟨d', hd', h⟩ := ih.1 c' hc'
        exact ⟨d', mem_cons_of_mem _ hd', h⟩
    · obtain rfl | hd' := mem_cons.1 hd'
      · exact ⟨c, mem_cons_self, hcd⟩
      · obtain ⟨c', hc', h⟩ := ih.2 d' hd'
        exact ⟨c', mem_cons_of_mem _ hc', h⟩

/-! ## A second pass -/

/-- Whether two claims are the same does not depend on their statuses and trails. -/
theorem firstPair_transition (h : firstPair o claims = none) :
    firstPair o (transition o claims signals).claims = none := by
  have hbare := map_bare_of_followed (followed_transition o claims signals)
  have hpair := fun l : List RegistryClaim ↦
    (pairwise_map (f := bare) (R := fun a b ↦ sameClaim o a b = false) (l := l))
  exact firstPair_eq_none.2 ((hpair _).1 (hbare ▸ (hpair _).2 (firstPair_eq_none.1 h)))

theorem crossesThreshold_corroborate :
    ∀ d ∈ (corroborate o p).claims, crossesThreshold o d = false := by
  intro d hd
  obtain ⟨c, -, rfl⟩ := List.mem_map.1 hd
  split
  · rfl
  · next h => exact eq_false_of_ne_true h

theorem transition_nil (h : ∀ c ∈ claims, crossesThreshold o c = false) :
    (transition o claims []).transitions = [] := by
  have hnone : claims.filter (crossesThreshold o) = [] := filter_eq_nil_iff.2 fun c hc ↦ by simp [h c hc]
  simp [transition, corroborate, hnone]

/-! ## The pass -/

variable (input : List RegistryClaim)

theorem runLifecyclePass_merges :
    (runLifecyclePass o input signals).merges = (dedupe o input.length input).2 := rfl

theorem runLifecyclePass_claims : (runLifecyclePass o input signals).claims =
      (transition o (dedupe o input.length input).1 signals).claims := rfl

theorem runLifecyclePass_transitions : (runLifecyclePass o input signals).transitions =
      (transition o (dedupe o input.length input).1 signals).transitions := rfl

theorem exists_followed_pass (o : LifecycleOpts) (input : List RegistryClaim) (signals : List ContradictionSignal) :
    (∀ c ∈ (dedupe o input.length input).1, ∃ d ∈ (runLifecyclePass o input signals).claims, Followed c d) ∧
      ∀ d ∈ (runLifecyclePass o input signals).claims, ∃ c ∈ (dedupe o input.length input).1, Followed c d :=
  exists_followed (followed_transition o _ signals)

theorem nodup_runLifecyclePass (o : LifecycleOpts) (r : Registry) (signals : List ContradictionSignal) :
    ((runLifecyclePass o r.claims signals).claims.map (·.file)).Nodup := by
  have hbare := map_bare_of_followed (followed_transition o (dedupe o r.claims.length r.claims).1 signals)
  have hfiles := congrArg (List.map (·.file)) hbare
  simp only [List.map_map] at hfiles
  exact hfiles ▸ nodup_dedupe r.claims.length r.nodup_files

theorem runLifecyclePass_again (r : Registry) (signals : List ContradictionSignal) :
    (runLifecyclePass o (runLifecyclePass o r.claims signals).claims []).merges = [] ∧
      (runLifecyclePass o (runLifecyclePass o r.claims signals).claims []).transitions = [] := by
  have hnone := firstPair_transition signals (firstPair_dedupe (o := o) r.nodup_files le_rfl)
  rw [← runLifecyclePass_claims] at hnone
  have hdone := dedupe_of_none (runLifecyclePass o r.claims signals).claims.length hnone
  rw [runLifecyclePass_merges, runLifecyclePass_transitions, hdone]
  exact ⟨rfl, transition_nil crossesThreshold_corroborate⟩

/-- The pass conserves evidence, trails and counters, and a second one has nothing to do. -/
theorem lifecycle_conserves (o : LifecycleOpts) (r : Registry) (signals : List ContradictionSignal) :
    Conserves o r.claims signals := by
  have hn := r.nodup_files
  obtain ⟨hforth, hback⟩ := exists_followed_pass o r.claims signals
  refine ⟨firstPair_dedupe hn le_rfl, fun m hm ↦ ?_, fun c hc ↦ ?_, ?_, fun d hd ↦ ?_, ?_,
    runLifecyclePass_again r signals⟩
  · obtain ⟨hdup, -, hcar⟩ := dedupe_together _ hn m hm
    exact ⟨hdup, hcar⟩
  · obtain ⟨c', hc', hfile, hev, hhist⟩ := dedupe_carried _ hn c hc
    obtain ⟨d, hd, hfollow⟩ := hforth c' hc'
    have hbare := hfollow.bare_eq
    refine ⟨d, hd, ?_, ?_, hhist.trans hfollow.history⟩
    · exact (congrArg RegistryClaim.file hbare).trans hfile
    · exact (congrArg (·.claim.evidence) hbare) ▸ hev
  · have hbare := map_bare_of_followed (followed_transition o (dedupe o r.claims.length r.claims).1 signals)
    have hsum := congrArg (fun l ↦ (l.map (·.claim.applied)).sum) hbare
    simp only [List.map_map] at hsum
    exact hsum.trans (dedupe_applied _ hn)
  · obtain ⟨c', hc', hfollow⟩ := hback d hd
    obtain ⟨c, hc, hfile, hstatement, htype, hscope, -⟩ := dedupe_identity _ hn c' hc'
    have hbare := hfollow.bare_eq
    exact ⟨c, hc, hfile.trans (congrArg RegistryClaim.file hbare).symm,
      (congrArg (·.claim.statement) hbare).trans hstatement, (congrArg (·.claim.type) hbare).trans htype,
      (congrArg (·.claim.scope) hbare).trans hscope⟩
  · intro c hc d hd hfile htrail
    obtain ⟨c', hc', rfl | hmoved⟩ := hback d hd
    · obtain ⟨c₀, hc₀, hfile₀, -, -, -, hstatus₀⟩ := dedupe_identity _ hn d hc'
      obtain rfl := eq_of_file_eq hn hc₀ hc (hfile₀.trans hfile)
      intro status hlast
      obtain ⟨e, he, hcar, hlast⟩ := dedupe_lastStatus _ hn d hc' status hlast
      obtain hne | htrail := htrail
      · exact absurd hstatus₀ hne
      · exact hstatus₀.trans (htrail e he (hcar.trans hfile) status hlast)
    · exact hmoved.agrees

/-! ## A trail that ends otherwise -/

/-- The pass of a night in October, with its defaults. -/
def october : LifecycleOpts where
  now := 1790942400000
  nowIso := "2026-10-02T12:00:00.000Z"
  parse date :=
    if date = "2026-06-01T00:00:00.000Z" then some 1780272000000
    else if date = "2026-07-01T00:00:00.000Z" then some 1782864000000
    else if date = "2026-07-02T00:00:00.000Z" then some 1782950400000
    else none
  toLowerCase := id
  clears stmt tags := decide (15 * stmt.2 * tags.2 ≤ 16 * stmt.1 * tags.2 + 4 * tags.1 * stmt.2)
  corroborateThreshold := 3
  decayWindowDays := 90

def warmStarts (evidence : List String) (status : ClaimStatus) (history : List HistoryEntry) : Claim where
  type := .insight
  statement := "warm starts win"
  status := status
  confidence := .medium
  evidence := evidence
  applied := 0
  last_applied := none
  history := history
  scope := .personal
  tags := []

/-- An unverified claim of June, and the same claim of July, corroborated. -/
def juneAndJuly : Registry where
  claims :=
    [⟨"june.md", warmStarts ["memory-card/a.md"] .unverified [⟨"2026-06-01T00:00:00.000Z", .created, ""⟩]⟩,
     ⟨"july.md", warmStarts ["memory-card/b.md"] .corroborated
        [⟨"2026-07-01T00:00:00.000Z", .created, ""⟩, ⟨"2026-07-02T00:00:00.000Z", .corroborated, ""⟩]⟩]
  nodup_files := by decide

/-- The claim of June stays unverified over a trail that ends with the corroboration of July. -/
theorem not_agrees_juneAndJuly :
    ¬ ∀ (o : LifecycleOpts) (r : Registry) (signals : List ContradictionSignal), (∀ c ∈ r.claims, Agrees c) →
      ∀ d ∈ (runLifecyclePass o r.claims signals).claims, Agrees d := by
  intro h
  have hinput : ∀ c ∈ juneAndJuly.claims, Agrees c := by decide
  have houtput : ¬ ∀ d ∈ (runLifecyclePass october juneAndJuly.claims []).claims, Agrees d := by decide +kernel
  exact houtput (h october juneAndJuly [] hinput)

end Amicode.Claims
