import Amicode.Warrant.Launch

/-!
# The warrant check fails closed

What the check accepts is said in terms of the launch and of the approvals (`checkWarrant_eq_ok_iff_covered`): the
launch is inside the free set, or the live approval of its plan that expires last declares what the launch reaches
for, at a level that covers it, and has a solve left. Which approval that is does not depend on what approvals
declare. So less information only ever restricts: without its plan, with an unresolved size, under approvals with
fewer bounds, or at a time when every approval has expired, a launch that was refused is refused again.
-/

namespace Amicode.Warrant

open RunLedger List

/-! ## The latest approval -/

section Latest

variable {dateParse : String → Option ℤ} {planHash : String} {now : ℤ} {approvals : List ApprovalRecord}
  {w w' a : ApprovalRecord}

/-- An approval of the plan that has not expired. -/
def IsLive (dateParse : String → Option ℤ) (planHash : String) (now : ℤ) (a : ApprovalRecord) : Prop :=
  a.plan_hash = planHash ∧ expired dateParse now a = false

/-- The live approval that expires last, and of those that expire then the first. -/
def IsLatest (dateParse : String → Option ℤ) (planHash : String) (now : ℤ) (approvals : List ApprovalRecord)
    (w : ApprovalRecord) : Prop :=
  ∃ before after, approvals = before ++ w :: after ∧ IsLive dateParse planHash now w ∧
    (∀ a ∈ before, IsLive dateParse planHash now a → expiresLater dateParse w a = true) ∧
      ∀ a ∈ after, IsLive dateParse planHash now a → expiresLater dateParse a w = false

theorem IsLive.exists_expiry (h : IsLive dateParse planHash now a) : ∃ t, dateParse a.expires_at = some t := by
  rcases hexpiry : dateParse a.expires_at with _ | t
  · have hlive := h.2
    rw [expired, hexpiry] at hlive
    exact absurd hlive (by simp)
  · exact ⟨t, rfl⟩

theorem expiresLater_trans (hw : IsLive dateParse planHash now w) (hw' : IsLive dateParse planHash now w')
    (ha : IsLive dateParse planHash now a) (hlater : expiresLater dateParse w' w = true)
    (hle : expiresLater dateParse a w = false) : expiresLater dateParse w' a = true := by
  obtain ⟨t, ht⟩ := hw.exists_expiry
  obtain ⟨t', ht'⟩ := hw'.exists_expiry
  obtain ⟨u, hu⟩ := ha.exists_expiry
  simp only [expiresLater, ht, ht', hu, decide_eq_true_eq, decide_eq_false_iff_not] at hlater hle ⊢
  exact Int.lt_of_le_of_lt (Int.not_lt.mp hle) hlater

theorem expiresLater_asymm (hlater : expiresLater dateParse w w' = true) : expiresLater dateParse w' w = false := by
  rcases ht' : dateParse w'.expires_at with _ | t'
  · simp only [expiresLater, ht']
  · rcases ht : dateParse w.expires_at with _ | t
    · simp [expiresLater, ht] at hlater
    · simp only [expiresLater, ht, ht', decide_eq_true_eq, decide_eq_false_iff_not] at hlater ⊢
      exact Int.not_lt.mpr (Int.le_of_lt hlater)

theorem liveWarrant_concat (approvals : List ApprovalRecord) (a : ApprovalRecord) :
    liveWarrant dateParse planHash (approvals ++ [a]) now =
      (if a.plan_hash ≠ planHash || expired dateParse now a then liveWarrant dateParse planHash approvals now
        else if (liveWarrant dateParse planHash approvals now).all (expiresLater dateParse a) then some a
        else liveWarrant dateParse planHash approvals now) := by
  rw [liveWarrant, foldl_append]
  rfl

theorem liveWarrant_spec (dateParse : String → Option ℤ) (planHash : String) (approvals : List ApprovalRecord)
    (now : ℤ) :
    (liveWarrant dateParse planHash approvals now = none ∧ ∀ a ∈ approvals, ¬ IsLive dateParse planHash now a) ∨
      ∃ w, liveWarrant dateParse planHash approvals now = some w ∧
        IsLatest dateParse planHash now approvals w := by
  induction approvals using List.reverseRecOn with
  | nil => exact .inl ⟨rfl, nofun⟩
  | append_singleton approvals a ih =>
    rw [liveWarrant_concat]
    split_ifs with hskip hlater
    · -- an approval that is not live changes nothing
      have hdead : ¬ IsLive dateParse planHash now a := by
        rintro ⟨hplan, hlive⟩
        simp [hplan, hlive] at hskip
      rcases ih with ⟨hnone, hall⟩ | ⟨w, hw, before, after, rfl, hlive, hbefore, hafter⟩
      · refine .inl ⟨hnone, fun b hb ↦ ?_⟩
        rcases mem_append.mp hb with hb | hb
        · exact hall b hb
        · rwa [mem_singleton.mp hb]
      · refine .inr ⟨w, hw, before, after ++ [a], by simp, hlive, hbefore, fun b hb hblive ↦ ?_⟩
        rcases mem_append.mp hb with hb | hb
        · exact hafter b hb hblive
        · rw [mem_singleton.mp hb] at hblive
          exact absurd hblive hdead
    · have hlive : IsLive dateParse planHash now a := by
        simpa [IsLive] using hskip
      refine .inr ⟨a, rfl, approvals, [], rfl, hlive, fun b hb hblive ↦ ?_, nofun⟩
      rcases ih with ⟨-, hall⟩ | ⟨w, hw, before, after, rfl, hwlive, hbefore, hafter⟩
      · exact absurd hblive (hall b hb)
      · rw [hw, Option.all_some] at hlater
        rcases mem_append.mp hb with hb | hb
        · exact expiresLater_trans hwlive hlive hblive hlater (expiresLater_asymm (hbefore b hb hblive))
        · rcases mem_cons.mp hb with rfl | hb
          · exact hlater
          · exact expiresLater_trans hwlive hlive hblive hlater (hafter b hb hblive)
    · rcases ih with ⟨hnone, -⟩ | ⟨w, hw, before, after, rfl, hwlive, hbefore, hafter⟩
      · rw [hnone] at hlater
        exact absurd rfl hlater
      · refine .inr ⟨w, hw, before, after ++ [a], by simp, hwlive, hbefore, fun b hb hblive ↦ ?_⟩
        rcases mem_append.mp hb with hb | hb
        · exact hafter b hb hblive
        · rw [mem_singleton.mp hb]
          rw [hw, Option.all_some] at hlater
          exact Bool.eq_false_iff.mpr hlater

theorem IsLatest.unique (h : IsLatest dateParse planHash now approvals w)
    (h' : IsLatest dateParse planHash now approvals w') : w = w' := by
  obtain ⟨before, after, happrovals, hlive, hbefore, hafter⟩ := h
  obtain ⟨before', after', happrovals', hlive', hbefore', hafter'⟩ := h'
  rcases append_eq_append_iff.mp (happrovals.symm.trans happrovals') with ⟨c, hc, hrest⟩ | ⟨c, hc, hrest⟩
  · rcases c with _ | ⟨d, c⟩
    · exact (List.cons.inj hrest).1
    · obtain ⟨rfl, rfl⟩ := List.cons.inj hrest
      have hlater := hbefore' w (by rw [hc]; simp) hlive
      exact absurd (hlater.symm.trans (hafter w' (by simp) hlive')) (by simp)
  · rcases c with _ | ⟨d, c⟩
    · exact (List.cons.inj hrest).1.symm
    · obtain ⟨rfl, rfl⟩ := List.cons.inj hrest
      have hlater := hbefore w' (by rw [hc]; simp) hlive'
      exact absurd (hlater.symm.trans (hafter' w (by simp) hlive)) (by simp)

theorem liveWarrant_eq_some_iff : liveWarrant dateParse planHash approvals now = some w ↔
    IsLatest dateParse planHash now approvals w := by
  rcases liveWarrant_spec dateParse planHash approvals now with ⟨hnone, hall⟩ | ⟨w', hw', hlatest⟩
  · refine iff_of_false (by rw [hnone]; simp) ?_
    rintro ⟨before, after, rfl, hlive, -, -⟩
    exact hall w (by simp) hlive
  · rw [hw']
    refine ⟨fun h ↦ Option.some.inj h ▸ hlatest, fun h ↦ congrArg some (hlatest.unique h)⟩

end Latest

/-! ## Cover -/

structure Covers (facts : LaunchFacts) (bounds : WarrantBounds) : Prop where
  tier : .tier ∈ gatedCapabilities facts → ∃ tier ∈ bounds.tier, facts.tier = some tier
  size : .max_size_class ∈ gatedCapabilities facts →
    ∃ max ∈ bounds.max_size_class, ∃ size ∈ facts.sizeClass, SIZE_ORDER size ≤ SIZE_ORDER max
  device : .device ∈ gatedCapabilities facts →
    ∃ max ∈ bounds.device, ∃ device ∈ facts.device, DEVICE_ORDER device ≤ DEVICE_ORDER max
  /-- The count is bounded only if a bound is declared. -/
  solves : ∀ max ∈ bounds.max_solves, facts.solvesSoFar.getD 0 < max

section Cover

variable {facts : LaunchFacts} {bounds : WarrantBounds} {planHash : String}

theorem tierRefusal_eq_none_iff :
    tierRefusal planHash facts bounds = none ↔ ∃ tier ∈ bounds.tier, facts.tier = some tier := by
  rcases htier : bounds.tier with _ | tier
  · simp [tierRefusal, htier]
  · simp [tierRefusal, htier, eq_comm]

theorem sizeRefusal_eq_none_iff : sizeRefusal planHash facts bounds = none ↔
    ∃ max ∈ bounds.max_size_class, ∃ size ∈ facts.sizeClass, SIZE_ORDER size ≤ SIZE_ORDER max := by
  rcases hmax : bounds.max_size_class with _ | max
  · simp [sizeRefusal, hmax]
  · rcases hsize : facts.sizeClass with _ | size
    · simp [sizeRefusal, hmax, hsize]
    · simp [sizeRefusal, hmax, hsize]

theorem device_of_gated (h : .device ∈ gatedCapabilities facts) : ∃ device, facts.device = some device := by
  rcases hdevice : facts.device with _ | device
  · rw [gatedCapabilities, hdevice, Option.any_none, if_neg Bool.false_ne_true, append_nil] at h
    split_ifs at h <;> simp at h
  · exact ⟨device, rfl⟩

theorem deviceRefusal_eq_none_iff (h : .device ∈ gatedCapabilities facts) :
    deviceRefusal planHash facts bounds = none ↔
      ∃ max ∈ bounds.device, ∃ device ∈ facts.device, DEVICE_ORDER device ≤ DEVICE_ORDER max := by
  obtain ⟨device, hdevice⟩ := device_of_gated h
  rcases hmax : bounds.device with _ | max
  · simp [deviceRefusal, hmax]
  · simp [deviceRefusal, hmax, hdevice]

theorem boundRefusal_eq_none_iff_covers : boundRefusal planHash facts bounds = none ↔ Covers facts bounds := by
  rw [boundRefusal_eq_none_iff, tierRefusal_eq_none_iff, sizeRefusal_eq_none_iff, countRefusal_eq_none_iff]
  constructor
  · rintro ⟨htier, hsize, hdevice, hsolves⟩
    exact ⟨htier, hsize, fun h ↦ (deviceRefusal_eq_none_iff h).mp (hdevice h), hsolves⟩
  · rintro ⟨htier, hsize, hdevice, hsolves⟩
    exact ⟨htier, hsize, fun h ↦ (deviceRefusal_eq_none_iff h).mpr (hdevice h), hsolves⟩

end Cover

/-! ## What is accepted -/

section Check

variable {dateParse : String → Option ℤ} {facts : LaunchFacts} {approvals : List ApprovalRecord} {now : ℤ}
  {planCompiled : List PlanCompiledRecord}

/-- The launch is inside the free set, or the latest approval of its plan covers it. -/
def Authorised (dateParse : String → Option ℤ) (facts : LaunchFacts) (approvals : List ApprovalRecord) (now : ℤ) :
    Prop :=
  gatedCapabilities facts = [] ∨ ∃ planHash ∈ truthy facts.plan_hash, ∃ w,
    IsLatest dateParse planHash now approvals w ∧ Covers facts w.bounds

theorem checkWarrant_eq_ok_iff_authorised : checkWarrant dateParse facts approvals now planCompiled = .ok () ↔
    Authorised dateParse facts approvals now := by
  by_cases hneeds : gatedCapabilities facts = []
  · refine iff_of_true ?_ (.inl hneeds)
    rw [checkWarrant]
    exact if_pos hneeds
  · rw [checkWarrant_eq_ok_iff hneeds, Authorised, or_iff_right hneeds]
    simp only [boundRefusal_eq_none_iff_covers, Option.mem_def, liveWarrant_eq_some_iff]

/-- Less is declared, and nothing else is different. -/
structure BoundsRemoved (bounds bounds' : WarrantBounds) : Prop where
  tier : bounds'.tier = none ∨ bounds'.tier = bounds.tier
  max_size_class : bounds'.max_size_class = none ∨ bounds'.max_size_class = bounds.max_size_class
  device : bounds'.device = none ∨ bounds'.device = bounds.device
  max_solves : bounds'.max_solves = bounds.max_solves

/-- An approval with bounds removed, or as it was. -/
def Restricted (a a' : ApprovalRecord) : Prop :=
  ∃ bounds', a' = { a with bounds := bounds' } ∧ BoundsRemoved a.bounds bounds'

theorem Covers.of_removed {bounds bounds' : WarrantBounds} (h : Covers facts bounds')
    (hremoved : BoundsRemoved bounds bounds') : Covers facts bounds where
  tier hneed := by
    obtain ⟨tier, htier, hfacts⟩ := h.tier hneed
    rcases hremoved.tier with hnone | hsame
    · exact absurd (hnone.symm.trans htier) (by simp)
    · exact ⟨tier, hsame ▸ htier, hfacts⟩
  size hneed := by
    obtain ⟨max, hmax, hfacts⟩ := h.size hneed
    rcases hremoved.max_size_class with hnone | hsame
    · exact absurd (hnone.symm.trans hmax) (by simp)
    · exact ⟨max, hsame ▸ hmax, hfacts⟩
  device hneed := by
    obtain ⟨max, hmax, hfacts⟩ := h.device hneed
    rcases hremoved.device with hnone | hsame
    · exact absurd (hnone.symm.trans hmax) (by simp)
    · exact ⟨max, hsame ▸ hmax, hfacts⟩
  solves := by
    rw [← hremoved.max_solves]
    exact h.solves

theorem exists_append_of_forall₂ {R : ApprovalRecord → ApprovalRecord → Prop} {l before' rest' : List ApprovalRecord}
    (h : List.Forall₂ R l (before' ++ rest')) :
    ∃ before rest, l = before ++ rest ∧ List.Forall₂ R before before' ∧ List.Forall₂ R rest rest' :=
  ⟨_, _, (take_append_drop before'.length l).symm, forall₂_take_append l before' rest' h,
    forall₂_drop_append l before' rest' h⟩

theorem exists_mem_of_forall₂ {R : ApprovalRecord → ApprovalRecord → Prop} {l l' : List ApprovalRecord}
    (h : List.Forall₂ R l l') {a : ApprovalRecord} (ha : a ∈ l) : ∃ a' ∈ l', R a a' := by
  induction h with
  | nil => exact absurd ha not_mem_nil
  | cons hhead htail ih =>
    rcases mem_cons.mp ha with rfl | ha
    · exact ⟨_, mem_cons_self, hhead⟩
    · obtain ⟨a', ha', hrel⟩ := ih ha
      exact ⟨a', mem_cons_of_mem _ ha', hrel⟩

theorem IsLatest.of_restricted {planHash : String} {approvals' : List ApprovalRecord} {w' : ApprovalRecord}
    (hrestricted : List.Forall₂ Restricted approvals approvals')
    (h : IsLatest dateParse planHash now approvals' w') :
    ∃ w, Restricted w w' ∧ IsLatest dateParse planHash now approvals w := by
  obtain ⟨before', after', rfl, hlive, hbefore, hafter⟩ := h
  obtain ⟨before, rest, rfl, hbefores, hrests⟩ := exists_append_of_forall₂ hrestricted
  rcases hrests with _ | @⟨w, _, after, _, ⟨bounds', rfl, hremoved⟩, hafters⟩
  refine ⟨w, ⟨bounds', rfl, hremoved⟩, before, after, rfl, hlive, fun a ha halive ↦ ?_, fun a ha halive ↦ ?_⟩
  · obtain ⟨a', ha', bounds, rfl, -⟩ := exists_mem_of_forall₂ hbefores ha
    have hlater := hbefore _ ha' halive
    exact hlater
  · obtain ⟨a', ha', bounds, rfl, -⟩ := exists_mem_of_forall₂ hafters ha
    have hlater := hafter _ ha' halive
    exact hlater

/-- What the check accepts, and what never makes it accept. -/
structure FailClosedLaw (dateParse : String → Option ℤ) (facts : LaunchFacts) (approvals : List ApprovalRecord)
    (now : ℤ) (planCompiled : List PlanCompiledRecord) : Prop where
  ok_iff : checkWarrant dateParse facts approvals now planCompiled = .ok () ↔
    Authorised dateParse facts approvals now
  /-- Without its plan a launch that was refused is refused. -/
  plan : checkWarrant dateParse { facts with plan_hash := none } approvals now planCompiled = .ok () →
    checkWarrant dateParse facts approvals now planCompiled = .ok ()
  /-- So it is with an unresolved size, -/
  size : checkWarrant dateParse { facts with sizeClass := none } approvals now planCompiled = .ok () →
    checkWarrant dateParse facts approvals now planCompiled = .ok ()
  /-- under approvals with less declared, -/
  bounds : ∀ approvals', List.Forall₂ Restricted approvals approvals' →
    checkWarrant dateParse facts approvals' now planCompiled = .ok () →
      checkWarrant dateParse facts approvals now planCompiled = .ok ()
  /-- and when all have expired. -/
  clock : ∀ later, (∀ a ∈ approvals, expired dateParse later a = true) →
    checkWarrant dateParse facts approvals later planCompiled = .ok () →
      checkWarrant dateParse facts approvals now planCompiled = .ok ()

/-- **The warrant check fails closed.** It accepts what is authorised, and less of a plan, a size, a bound or a
lifetime never makes it accept. -/
theorem failClosedLaw (dateParse : String → Option ℤ) (facts : LaunchFacts) (approvals : List ApprovalRecord)
    (now : ℤ) (planCompiled : List PlanCompiledRecord) :
    FailClosedLaw dateParse facts approvals now planCompiled where
  ok_iff := checkWarrant_eq_ok_iff_authorised
  plan hok := by
    rw [checkWarrant_eq_ok_iff_authorised] at hok ⊢
    rcases hok with hfree | ⟨planHash, hplan, -⟩
    · exact .inl hfree
    · exact absurd hplan nofun
  size hok := absurd hok (checkWarrant_unresolved dateParse approvals now planCompiled rfl)
  bounds approvals' hrestricted hok := by
    rw [checkWarrant_eq_ok_iff_authorised] at hok ⊢
    rcases hok with hfree | ⟨planHash, hplan, w', hlatest, hcovers⟩
    · exact .inl hfree
    · obtain ⟨w, ⟨bounds', rfl, hremoved⟩, hw⟩ := hlatest.of_restricted hrestricted
      exact .inr ⟨planHash, hplan, w, hw, hcovers.of_removed hremoved⟩
  clock later hexpired hok := by
    rw [checkWarrant_eq_ok_iff_authorised] at hok ⊢
    rcases hok with hfree | ⟨planHash, -, w, ⟨before, after, rfl, hlive, -, -⟩, -⟩
    · exact .inl hfree
    · exact absurd (hlive.2.symm.trans (hexpired w (by simp))) Bool.false_ne_true

end Check

end Amicode.Warrant
