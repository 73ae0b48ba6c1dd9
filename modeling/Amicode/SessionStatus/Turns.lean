import Amicode.Foundation.StepMachine
import Amicode.SessionStatus.Queue
import Mathlib.Data.List.Nodup

/-!
# The turns of a session

No idle stands behind the busy of a live turn: the idle of an older turn is dropped by its generation as soon as the
newer turn has begun to set busy, and the sets before it end before it does (`Turns`).
-/

open List Option Function

namespace Amicode.SessionStatus

/-! ## The turns -/

/-- Whose busy a set is, and what it writes. -/
def Setting.mark (setting : Setting) : Option ℕ × Info := (setting.turn, setting.status)

/-- What the turns leave behind in the sets in progress. -/
structure Turns (s : State) (marks : List (Option ℕ × Info)) : Prop where
  known : ∀ turn, s.turns turn ≠ none → turn ≤ s.ledger.turns
  begun : ∀ turn, s.turns turn = some .setting ∨ s.HasSetBusy turn → turn ≤ s.ledger.generation
  owner : ∀ mark ∈ marks, ∀ turn ∈ mark.1, s.turns turn = some .setting ∧ mark.2 = .busy
  nodup : (marks.filterMap (·.1)).Nodup
  /-- Nothing idle is left once a live turn has set busy, -/
  running : ∀ turn, s.Live turn → s.turns turn = some .running → s.get ≠ .idle ∧ ∀ mark ∈ marks, mark.2 ≠ .idle
  /-- and nothing idle stands behind its busy before that. -/
  setting : ∀ turn, s.Live turn → s.turns turn = some .setting →
    ∃ before mark behind, marks = before ++ mark :: behind ∧ mark.1 = some turn ∧ ∀ mark ∈ behind, mark.2 ≠ .idle

variable {s : State} {marks : List (Option ℕ × Info)}

theorem State.Live.of_turns {s s' : State} {turn : ℕ} (hlive : s'.Live turn) (hturn : s'.turns turn = s.turns turn)
    (hbusy : ∀ newer, s.HasSetBusy newer → s'.HasSetBusy newer) : s.Live turn :=
  ⟨hturn ▸ hlive.1, fun newer hnewer h ↦ hlive.2 newer hnewer (hbusy newer h)⟩

theorem State.hasSetBusy_congr {s s' : State} {turn : ℕ} (hturn : s'.turns turn = s.turns turn) :
    s'.HasSetBusy turn ↔ s.HasSetBusy turn := by
  rw [State.HasSetBusy, State.HasSetBusy, hturn]

variable {s' : State} {generation : ℕ}

section

variable (h : Turns s marks)

include h

section

variable (hother : ∀ turn, turn ≠ generation → s'.turns turn = s.turns turn)

include hother

theorem Turns.known_of_ne (hself : generation ≤ s'.ledger.turns) (hle : s.ledger.turns ≤ s'.ledger.turns) (turn : ℕ)
    (hturn : s'.turns turn ≠ none) : turn ≤ s'.ledger.turns := by
  by_cases hne : turn = generation
  · exact hne ▸ hself
  · exact (h.known turn (hother turn hne ▸ hturn)).trans hle

theorem Turns.begun_of_ne (hself : generation ≤ s'.ledger.generation)
    (hle : s.ledger.generation ≤ s'.ledger.generation) (turn : ℕ)
    (hturn : s'.turns turn = some .setting ∨ s'.HasSetBusy turn) : turn ≤ s'.ledger.generation := by
  by_cases hne : turn = generation
  · exact hne ▸ hself
  · rw [State.hasSetBusy_congr (hother turn hne), hother turn hne] at hturn
    exact (h.begun turn hturn).trans hle

end

theorem Turns.runner : Turns s.nextGeneration marks := by
  have hnone : s.turns (s.ledger.turns + 1) = none := by
    by_contra hsome
    exact absurd (h.known _ hsome) (Nat.not_succ_le_self _)
  have hother : ∀ turn, s.nextGeneration.turns turn ≠ some .created →
      s.nextGeneration.turns turn = s.turns turn := by
    intro turn hturn
    refine update_of_ne (fun heq ↦ hturn ?_) _ _
    rw [heq]
    exact update_self ..
  have hbusy : ∀ turn, s.HasSetBusy turn → s.nextGeneration.HasSetBusy turn := by
    intro turn hturn
    have hne : turn ≠ s.ledger.turns + 1 := by
      rintro rfl
      rcases hturn with hturn | hturn <;> rw [hnone] at hturn <;> cases hturn
    have heq : s.nextGeneration.turns turn = s.turns turn := update_of_ne hne _ _
    exact (State.hasSetBusy_congr heq).mpr hturn
  refine ⟨?_, ?_, ?_, h.nodup, ?_, ?_⟩
  · exact h.known_of_ne (fun turn hne ↦ update_of_ne hne _ _) le_rfl (Nat.le_succ _)
  · intro turn hturn
    have heq : s.nextGeneration.turns turn = s.turns turn := by
      refine hother turn fun hcreated ↦ ?_
      rcases hturn with hturn | hturn | hturn <;> rw [hcreated] at hturn <;> cases hturn
    rw [State.hasSetBusy_congr heq, heq] at hturn
    exact h.begun turn hturn
  · intro mark hmark turn hturn
    obtain ⟨hsetting, hbusy⟩ := h.owner mark hmark turn hturn
    refine ⟨?_, hbusy⟩
    rw [← hsetting]
    refine update_of_ne ?_ _ _
    rintro rfl
    rw [hnone] at hsetting
    cases hsetting
  · intro turn hturn hrunning
    have heq := hother turn (by rw [hrunning]; decide)
    exact h.running turn (hturn.of_turns heq hbusy) (heq ▸ hrunning)
  · intro turn hturn hsetting
    have heq := hother turn (by rw [hsetting]; decide)
    exact h.setting turn (hturn.of_turns heq hbusy) (heq ▸ hsetting)

theorem Turns.append (extra : List (Option ℕ × Info)) (hturns : s'.turns = s.turns)
    (hledger : s'.ledger.turns = s.ledger.turns) (hgeneration : s'.ledger.generation = s.ledger.generation)
    (hget : s'.get = s.get)
    (hextra : ∀ mark ∈ extra, mark.1 = none ∧ (mark.2 ≠ .idle ∨ ∀ turn, ¬ s.Live turn)) :
    Turns s' (marks ++ extra) := by
  have hother : ∀ turn, turn ≠ 0 → s'.turns turn = s.turns turn := fun turn _ ↦ congrFun hturns turn
  have hlive : ∀ turn, s'.Live turn → s.Live turn := fun turn h ↦
    h.of_turns (congrFun hturns turn) fun newer ↦ (State.hasSetBusy_congr (congrFun hturns newer)).mpr
  have hstatus : ∀ turn, s'.Live turn → ∀ mark ∈ extra, mark.2 ≠ .idle := fun turn hturn mark hmark ↦
    (hextra mark hmark).2.resolve_right fun hnone ↦ hnone turn (hlive turn hturn)
  refine ⟨h.known_of_ne hother (Nat.zero_le _) hledger.ge, h.begun_of_ne hother (Nat.zero_le _) hgeneration.ge,
    ?_, ?_, ?_, ?_⟩
  · intro mark hmark turn hturn
    rw [hturns]
    rcases mem_append.mp hmark with hmark | hmark
    · exact h.owner mark hmark turn hturn
    · rw [(hextra mark hmark).1] at hturn
      cases hturn
  · rw [filterMap_append, filterMap_eq_nil_iff.mpr fun mark hmark ↦ (hextra mark hmark).1, append_nil]
    exact h.nodup
  · intro turn hturn hrunning
    obtain ⟨hget', hmarks⟩ := h.running turn (hlive turn hturn) (hturns ▸ hrunning)
    exact ⟨hget ▸ hget', fun mark hmark ↦ (mem_append.mp hmark).elim (hmarks mark) (hstatus turn hturn mark)⟩
  · intro turn hturn hsetting
    obtain ⟨before, mark, behind, heq, hmark, hbehind⟩ := h.setting turn (hlive turn hturn) (hturns ▸ hsetting)
    refine ⟨before, mark, behind ++ extra, ?_, hmark, fun other hother ↦ ?_⟩
    · rw [heq, append_assoc, cons_append]
    · exact (mem_append.mp hother).elim (hbehind other) (hstatus turn hturn other)

/-- Nothing changes for the turns when the same sets are in progress. -/
theorem Turns.of_same (hturns : s'.turns = s.turns) (hledger : s'.ledger = s.ledger)
    (hget : s'.get = s.get) : Turns s' marks := by
  have hsame := h.append [] hturns (congrArg _ hledger) (congrArg _ hledger) hget (forall_mem_nil _)
  rwa [append_nil] at hsame

theorem Turns.onBusy (hcreated : s.turns generation = some .created)
    (hturns : s'.turns = Function.update s.turns generation (some .setting))
    (hledger : s'.ledger.turns = s.ledger.turns)
    (hgeneration : s'.ledger.generation = max s.ledger.generation generation) (hget : s'.get = s.get) :
    Turns s' (marks ++ [(some generation, .busy)]) := by
  have hself : s'.turns generation = some .setting := by rw [hturns, update_self]
  have hother : ∀ turn, turn ≠ generation → s'.turns turn = s.turns turn := fun turn hne ↦ by
    rw [hturns, update_of_ne hne]
  have hbusy : ∀ turn, s.HasSetBusy turn → s'.HasSetBusy turn := by
    intro turn hturn
    refine (State.hasSetBusy_congr (hother turn ?_)).mpr hturn
    rintro rfl
    rcases hturn with hturn | hturn <;> rw [hcreated] at hturn <;> cases hturn
  have hknown : generation ≤ s.ledger.turns := h.known generation (by rw [hcreated]; exact some_ne_none _)
  refine ⟨h.known_of_ne hother (hledger ▸ hknown) hledger.ge,
    h.begun_of_ne hother (hgeneration ▸ le_max_right _ _) (hgeneration ▸ le_max_left _ _), ?_, ?_, ?_, ?_⟩
  · intro mark hmark turn hturn
    rcases mem_append.mp hmark with hmark | hmark
    · obtain ⟨hsetting, hmarkBusy⟩ := h.owner mark hmark turn hturn
      refine ⟨?_, hmarkBusy⟩
      rw [hother turn ?_, hsetting]
      rintro rfl
      rw [hcreated] at hsetting
      cases hsetting
    · rw [mem_singleton.mp hmark] at hturn ⊢
      obtain rfl := Option.some.inj hturn
      exact ⟨hself, rfl⟩
  · rw [filterMap_append]
    refine nodup_append.mpr ⟨h.nodup, nodup_singleton _, fun a ha b hb heq ↦ ?_⟩
    rw [mem_singleton.mp hb] at heq
    obtain ⟨mark, hmark, hturn⟩ := mem_filterMap.mp ha
    obtain ⟨hsetting, -⟩ := h.owner mark hmark a hturn
    rw [heq, hcreated] at hsetting
    cases hsetting
  · intro turn hturn hrunning
    have hne : turn ≠ generation := by
      rintro rfl
      rw [hself] at hrunning
      cases hrunning
    obtain ⟨hget', hmarks⟩ :=
      h.running turn (hturn.of_turns (hother turn hne) hbusy) (hother turn hne ▸ hrunning)
    refine ⟨hget ▸ hget', fun mark hmark ↦ ?_⟩
    rcases mem_append.mp hmark with hmark | hmark
    · exact hmarks mark hmark
    · rw [mem_singleton.mp hmark]
      exact fun hidle ↦ Info.noConfusion hidle
  · intro turn hturn hsetting
    by_cases hne : turn = generation
    · exact ⟨marks, _, [], rfl, congrArg some hne.symm, fun mark hmark ↦ absurd hmark not_mem_nil⟩
    · obtain ⟨before, mark, behind, heq, hmark, hbehind⟩ :=
        h.setting turn (hturn.of_turns (hother turn hne) hbusy) (hother turn hne ▸ hsetting)
      refine ⟨before, mark, behind ++ [(some generation, .busy)], ?_, hmark, fun other hmem ↦ ?_⟩
      · rw [heq, append_assoc, cons_append]
      · rcases mem_append.mp hmem with hmem | hmem
        · exact hbehind other hmem
        · rw [mem_singleton.mp hmem]
          exact fun hidle ↦ Info.noConfusion hidle

theorem Turns.onIdle (hrunning : s.turns generation = some .running) :
    Turns { s with turns := Function.update s.turns generation (some .idled) } marks := by
  have hself : ({ s with turns := Function.update s.turns generation (some .idled) } : State).turns generation
      = some .idled := update_self ..
  have hother : ∀ turn, turn ≠ generation →
      ({ s with turns := Function.update s.turns generation (some .idled) } : State).turns turn = s.turns turn :=
    fun turn hne ↦ update_of_ne hne _ _
  have hbusy : ∀ turn,
      ({ s with turns := Function.update s.turns generation (some .idled) } : State).HasSetBusy turn ↔
        s.HasSetBusy turn := by
    intro turn
    by_cases hne : turn = generation
    · rw [hne]
      exact ⟨fun _ ↦ .inl hrunning, fun _ ↦ .inr hself⟩
    · exact State.hasSetBusy_congr (hother turn hne)
  have hknown : generation ≤ s.ledger.turns := h.known generation (by rw [hrunning]; exact some_ne_none _)
  refine ⟨h.known_of_ne hother hknown le_rfl,
    h.begun_of_ne hother (h.begun generation (.inr (.inl hrunning))) le_rfl, ?_, h.nodup, ?_, ?_⟩
  · intro mark hmark turn hturn
    obtain ⟨hsetting, hmarkBusy⟩ := h.owner mark hmark turn hturn
    refine ⟨?_, hmarkBusy⟩
    rw [hother turn ?_, hsetting]
    rintro rfl
    rw [hrunning] at hsetting
    cases hsetting
  · intro turn hturn hrunning'
    have hne : turn ≠ generation := by
      rintro rfl
      rw [hself] at hrunning'
      cases hrunning'
    have hlive := hturn.of_turns (hother turn hne) fun newer ↦ (hbusy newer).mpr
    exact h.running turn hlive (hother turn hne ▸ hrunning')
  · intro turn hturn hsetting
    have hne : turn ≠ generation := by
      rintro rfl
      rw [hself] at hsetting
      cases hsetting
    have hlive := hturn.of_turns (hother turn hne) fun newer ↦ (hbusy newer).mpr
    exact h.setting turn hlive (hother turn hne ▸ hsetting)

/-- Once the newest of the turns that have begun to set busy sets idle, none is live. -/
theorem Turns.not_live (hidled : s.turns generation = some .idled)
    (hnewest : s.ledger.generation ≤ generation) (turn : ℕ) : ¬ s.Live turn := by
  intro hlive
  have hle : turn ≤ generation := (h.begun turn (hlive.1.imp_right .inl)).trans hnewest
  rcases hle.lt_or_eq with hlt | rfl
  · exact hlive.2 generation hlt (.inr hidled)
  · rcases hlive.1 with hlive | hlive <;> rw [hidled] at hlive <;> cases hlive

end

theorem Turns.finish {mark : Option ℕ × Info} (h : Turns s (mark :: marks))
    (hturns : s'.turns = mark.1.elim s.turns fun turn ↦ Function.update s.turns turn (some .running))
    (hledger : s'.ledger = s.ledger) (hget : s'.get = mark.2) : Turns s' marks := by
  have hmem : ∀ other ∈ marks, other ∈ mark :: marks := fun other ↦ mem_cons_of_mem mark
  rcases hmark : mark.1 with _ | generation
  · -- it is of no turn, so the busy of a live turn stands behind it
    rw [hmark] at hturns
    have hturn : ∀ turn, s'.turns turn = s.turns turn := congrFun hturns
    have hlive : ∀ turn, s'.Live turn → s.Live turn := fun turn h ↦
      h.of_turns (hturn turn) fun newer ↦ (State.hasSetBusy_congr (hturn newer)).mpr
    have hother : ∀ turn, turn ≠ 0 → s'.turns turn = s.turns turn := fun turn _ ↦ hturn turn
    refine ⟨h.known_of_ne hother (Nat.zero_le _) (hledger ▸ le_rfl),
      h.begun_of_ne hother (Nat.zero_le _) (hledger ▸ le_rfl), ?_, ?_, ?_, ?_⟩
    · intro other hother turn
      rw [hturn]
      exact h.owner other (hmem other hother) turn
    · have hnodup := h.nodup
      rwa [filterMap_cons_none hmark] at hnodup
    · intro turn hlive' hrunning
      obtain ⟨-, hmarks⟩ := h.running turn (hlive turn hlive') (hturn turn ▸ hrunning)
      exact ⟨hget ▸ hmarks mark mem_cons_self, fun other hother ↦ hmarks other (hmem other hother)⟩
    · intro turn hlive' hsetting
      obtain ⟨before, own, behind, heq, hown, hbehind⟩ := h.setting turn (hlive turn hlive') (hturn turn ▸ hsetting)
      rcases before with _ | ⟨first, before⟩
      · obtain ⟨rfl, -⟩ := cons.inj heq
        rw [hmark] at hown
        cases hown
      · exact ⟨before, own, behind, (cons.inj heq).2, hown, hbehind⟩
  · -- it is the busy of a turn, which runs from now on
    rw [hmark] at hturns
    obtain ⟨hsetting, hbusy⟩ := h.owner mark mem_cons_self generation hmark
    have hself : s'.turns generation = some .running := by
      rw [hturns]
      exact update_self ..
    have hother : ∀ turn, turn ≠ generation → s'.turns turn = s.turns turn := fun turn hne ↦ by
      rw [hturns]
      exact update_of_ne hne _ _
    have hhas : ∀ turn, s.HasSetBusy turn → s'.HasSetBusy turn := by
      intro turn hturn
      by_cases hne : turn = generation
      · exact .inl (hne ▸ hself)
      · exact (State.hasSetBusy_congr (hother turn hne)).mpr hturn
    have hnodup := h.nodup
    rw [filterMap_cons_some hmark] at hnodup
    have hfresh : ∀ other ∈ marks, other.1 ≠ some generation := fun other hmark' heq ↦
      (nodup_cons.mp hnodup).1 (mem_filterMap.mpr ⟨other, hmark', heq⟩)
    have hknown : generation ≤ s.ledger.turns := h.known generation (by rw [hsetting]; exact some_ne_none _)
    refine ⟨h.known_of_ne hother (hledger ▸ hknown) (hledger ▸ le_rfl),
      h.begun_of_ne hother (hledger ▸ h.begun generation (.inl hsetting)) (hledger ▸ le_rfl), ?_,
      (nodup_cons.mp hnodup).2, ?_, ?_⟩
    · intro other hmark' turn hturn
      have hne : turn ≠ generation := fun heq ↦ hfresh other hmark' (heq ▸ hturn)
      rw [hother turn hne]
      exact h.owner other (hmem other hmark') turn hturn
    · intro turn hlive hrunning
      rw [hget, hbusy]
      refine ⟨fun hidle ↦ Info.noConfusion hidle, ?_⟩
      by_cases hne : turn = generation
      · -- its busy was the first, so that all the others stand behind it
        subst hne
        have hlive' : s.Live turn := ⟨.inl hsetting, fun newer hnewer hhas' ↦ hlive.2 newer hnewer (hhas newer hhas')⟩
        obtain ⟨before, own, behind, heq, hown, hbehind⟩ := h.setting turn hlive' hsetting
        rcases before with _ | ⟨first, before⟩
        · rw [(cons.inj heq).2]
          exact hbehind
        · refine absurd hown (hfresh own ?_)
          rw [(cons.inj heq).2]
          exact mem_append_right _ mem_cons_self
      · obtain ⟨-, hmarks⟩ := h.running turn (hlive.of_turns (hother turn hne) hhas) (hother turn hne ▸ hrunning)
        exact fun other hmark' ↦ hmarks other (hmem other hmark')
    · intro turn hlive hsetting'
      have hne : turn ≠ generation := by
        rintro rfl
        rw [hself] at hsetting'
        cases hsetting'
      obtain ⟨before, own, behind, heq, hown, hbehind⟩ :=
        h.setting turn (hlive.of_turns (hother turn hne) hhas) (hother turn hne ▸ hsetting')
      rcases before with _ | ⟨first, before⟩
      · obtain ⟨rfl, -⟩ := cons.inj heq
        rw [hmark] at hown
        exact absurd (Option.some.inj hown).symm hne
      · exact ⟨before, own, behind, (cons.inj heq).2, hown, hbehind⟩

end Amicode.SessionStatus

/-!
# A late idle and a newer turn

What is published, and what `get` returns, over any interleaving of the turns of a session. The events are to be
numbered in the order of their publication, `get` is to agree with the last of them once no set is in progress, and
neither is to be idle while the newest turn runs.

That holds while the sets in progress publish and end in the order in which they have begun, and while no cancel finds
a turn that is on its way to busy or in a retry (`statusLaw_of_ordered`). The guards of `set` look at the ledger and
the public status before its events, so they cannot see the sets in between.
-/

namespace Amicode.SessionStatus

open StepMachine

/-! ## The law -/

def State.Highest (s : State) (event : ℕ × Info) : Prop :=
  event ∈ s.published ∧ ∀ other ∈ s.published, other.1 ≤ event.1

structure StatusLaw (runtime : Bool) (s : State) : Prop where
  numbered : (s.published.map (·.1)).Pairwise (· < ·)
  /-- Once no set is in progress, `get` is what the last event says. -/
  settled : s.settings = [] → ∀ event, s.Highest event → s.get = event.2
  /-- Then there is a heartbeat if and only if the session is not idle. -/
  heartbeat : runtime = true → s.settings = [] → (s.heartbeat = some true ↔ s.get ≠ .idle)
  /-- While the newest turn that has set busy runs, the session is not idle. -/
  running : ∀ turn, s.turns turn = some .running → (∀ newer, turn < newer → ¬ s.HasSetBusy newer) →
    s.get ≠ .idle ∧ ∀ event, s.Highest event → event.2 ≠ .idle

/-! ## The invariant -/

/-- In a list whose numbers increase, the highest is the last. -/
theorem getLast?_of_highest {events : List (ℕ × Info)} (hnumbered : (events.map (·.1)).Pairwise (· < ·))
    {event : ℕ × Info} (hmem : event ∈ events) (hhighest : ∀ other ∈ events, other.1 ≤ event.1) :
    events.getLast? = some event := by
  obtain ⟨before, behind, rfl⟩ := List.append_of_mem hmem
  rcases behind with _ | ⟨next, rest⟩
  · exact getLast?_concat ..
  · -- the next one would have a higher number
    rw [pairwise_map, pairwise_append] at hnumbered
    have hlt := (pairwise_cons.mp hnumbered.2.1).1 next mem_cons_self
    have hle := hhighest next (mem_append_right _ (mem_cons_of_mem _ mem_cons_self))
    exact absurd hlt (not_lt.mpr hle)

def Inv (runtime : Bool) (s : State) : Prop :=
  ∃ ended published waiting, Queue runtime s ended published waiting ∧
    Turns s ((published ++ waiting).map Setting.mark)

variable {runtime : Bool} {s : State}

theorem inv_start : Inv runtime State.start := by
  refine ⟨[], [], [], ⟨rfl, ?_, ?_, rfl, Pairwise.nil, ?_, rfl, ?_, fun _ ↦ rfl⟩,
    ⟨?_, ?_, ?_, nodup_nil, ?_, ?_⟩⟩
  · exact fun setting h ↦ absurd h not_mem_nil
  · exact fun setting h ↦ absurd h not_mem_nil
  · exact fun setting h ↦ absurd h not_mem_nil
  · exact (some_ne_none _).symm
  · exact fun turn h ↦ absurd rfl h
  · rintro turn (h | h | h) <;> cases h
  · exact fun mark h ↦ absurd h not_mem_nil
  · exact fun turn _ h ↦ absurd h.symm (some_ne_none _)
  · exact fun turn _ h ↦ absurd h.symm (some_ne_none _)

section

variable (h : Inv runtime s)

include h

theorem Inv.set_none (next : Info) (reconcile : Bool)
    (hfree : next ≠ .idle ∨ (reconcile = true ∧ s.status = some .busy) ∨ ∀ turn, ¬ s.Live turn) :
    Inv runtime (s.set next ⟨none, reconcile⟩ none) := by
  obtain ⟨ended, published, waiting, hqueue, hturns⟩ := h
  rcases set_cases s next ⟨none, reconcile⟩ none with ⟨-, hset, -⟩ | ⟨hguard, hset⟩
  · rw [hset]
    exact ⟨ended, published, waiting, hqueue, hturns⟩
  · rw [hset]
    refine ⟨ended, published, waiting ++ [s.begun next none], hqueue.begin next none rfl rfl rfl rfl rfl, ?_⟩
    rw [← append_assoc, map_append]
    refine hturns.append _ rfl rfl rfl rfl (forall_mem_singleton.mpr ⟨rfl, ?_⟩)
    by_cases hidle : next = .idle
    · exact .inr ((hfree.resolve_left fun hne ↦ hne hidle).resolve_left (hguard hidle).2)
    · exact .inl hidle

theorem Inv.onBusy {generation : ℕ} (hcreated : s.turns generation = some .created) : Inv runtime
      { s.set .busy ⟨some generation, false⟩ (some generation) with
        turns := Function.update s.turns generation (some .setting) } := by
  obtain ⟨ended, published, waiting, hqueue, hturns⟩ := h
  rcases set_cases s .busy ⟨some generation, false⟩ (some generation) with ⟨hidle, -⟩ | ⟨-, hset⟩
  · cases hidle
  · rw [hset]
    refine ⟨ended, published, waiting ++ [s.begun .busy (some generation)],
      hqueue.begin .busy (some generation) rfl rfl rfl rfl rfl, ?_⟩
    rw [← append_assoc, map_append]
    exact hturns.onBusy hcreated rfl rfl rfl rfl

/-- The idle of a turn is dropped when a newer one has begun to set busy; else no live turn is left. -/
theorem Inv.onIdle {generation : ℕ} (hrunning : s.turns generation = some .running) : Inv runtime
      { s.set .idle ⟨some generation, false⟩ none with
        turns := Function.update s.turns generation (some .idled) } := by
  obtain ⟨ended, published, waiting, hqueue, hturns⟩ := h
  have hidled := hturns.onIdle hrunning
  rcases set_cases s .idle ⟨some generation, false⟩ none with ⟨-, hset, -⟩ | ⟨hguard, hset⟩
  · rw [hset]
    exact ⟨ended, published, waiting, hqueue.of_same rfl rfl rfl rfl rfl, hidled⟩
  · rw [hset]
    have hnewest := (hguard rfl).1 generation rfl
    refine ⟨ended, published, waiting ++ [s.begun .idle none],
      hqueue.begin .idle none rfl rfl rfl rfl rfl, ?_⟩
    rw [← append_assoc, map_append]
    refine hidled.append _ rfl rfl (max_eq_left ?_) rfl
      (forall_mem_singleton.mpr ⟨rfl, .inr (hidled.not_live (update_self ..) hnewest)⟩)
    exact hturns.begun generation (.inr (.inl hrunning))

theorem Inv.publish {index : ℕ} (hordered : Ordered s (.publish index)) : Inv runtime (s.publish index) := by
  obtain ⟨ended, published, waiting, hqueue, hturns⟩ := h
  rcases hqueue.publish hordered with heq | ⟨setting, rest, rfl, hsame, hledger, hget, hnext⟩
  · rw [heq]
    exact ⟨ended, published, waiting, hqueue, hturns⟩
  · refine ⟨ended, _, rest, hnext, ?_⟩
    rw [append_assoc, singleton_append, map_append, map_cons]
    rw [map_append, map_cons] at hturns
    exact hturns.of_same hsame hledger hget

theorem Inv.finish {index : ℕ} (hordered : Ordered s (.finish index)) : Inv runtime (s.finish runtime index) := by
  obtain ⟨ended, published, waiting, hqueue, hturns⟩ := h
  rcases hqueue.finish hordered with heq | ⟨setting, rest, rfl, hsame, hledger, hnext⟩
  · rw [heq]
    exact ⟨ended, published, waiting, hqueue, hturns⟩
  · refine ⟨ended ++ [setting], rest, waiting, hnext, hturns.finish hsame hledger ?_⟩
    rw [hnext.get_eq, getLast?_concat]
    rfl

theorem Inv.step (op : Op) (hordered : Ordered s op) : Inv runtime (s.step runtime op) := by
  rcases op with _ | generation | ⟨generation, status⟩ | generation | _ | index | index | _
  · obtain ⟨ended, published, waiting, hqueue, hturns⟩ := h
    exact ⟨ended, published, waiting, hqueue.of_same rfl rfl rfl rfl rfl, hturns.runner⟩
  · rw [State.step]
    split_ifs with hcreated
    · exact h.onBusy hcreated
    · exact h
  · rw [State.step]
    split_ifs with hwrite
    · exact h.set_none status false (.inl hwrite.2)
    · exact h
  · rw [State.step]
    split_ifs with hrunning
    · exact h.onIdle hrunning
    · exact h
  · exact h.set_none .idle true (.inr (hordered.imp_left fun hbusy ↦ ⟨rfl, hbusy⟩))
  · exact h.publish hordered
  · exact h.finish hordered
  · obtain ⟨ended, published, waiting, hqueue, hturns⟩ := h
    refine ⟨ended, published, waiting, hqueue.wake, hturns.of_same ?_ ?_ ?_⟩ <;>
      · rw [State.step, State.wake]
        split_ifs <;> rfl

/-- The queue and the turns decide what the events and `get` say. -/
theorem Inv.statusLaw : StatusLaw runtime s := by
  obtain ⟨ended, published, waiting, hqueue, hturns⟩ := h
  have hascending := hqueue.ascending
  rw [← append_assoc, map_append, pairwise_append] at hascending
  have hnumbered : (s.published.map (·.1)).Pairwise (· < ·) := by
    rw [hqueue.events, List.map_map]
    exact hascending.1
  have hlast : ∀ event, s.Highest event → ((ended ++ published).getLast?).map Setting.event = some event := by
    rintro event ⟨hmem, hhighest⟩
    rw [← getLast?_map, ← hqueue.events]
    exact getLast?_of_highest hnumbered hmem hhighest
  refine ⟨hnumbered, fun hsettings event hevent ↦ ?_, fun hruntime hsettings ↦ ?_, fun turn hturn hnewer ↦ ?_⟩
  · obtain ⟨last, hlast, rfl⟩ := map_eq_some_iff.mp (hlast event hevent)
    obtain ⟨rfl, -⟩ := append_eq_nil_iff.mp (hqueue.settings.symm.trans hsettings)
    rw [append_nil] at hlast
    rw [hqueue.get_eq, hlast]
    rfl
  · rw [hqueue.heartbeat hruntime, State.get]
    rcases hstatus : s.status with _ | status
    · simp
    · simpa using fun hidle ↦ hqueue.status_ne (hstatus.trans (congrArg some hidle))
  · have hlive : s.Live turn := ⟨.inr hturn, hnewer⟩
    obtain ⟨hget, hmarks⟩ := hturns.running turn hlive hturn
    refine ⟨hget, fun event hevent ↦ ?_⟩
    obtain ⟨last, hlast, rfl⟩ := map_eq_some_iff.mp (hlast event hevent)
    rcases published.eq_nil_or_concat' with rfl | ⟨before, own, rfl⟩
    · rw [append_nil] at hlast
      rw [hqueue.get_eq, hlast] at hget
      exact hget
    · rw [← append_assoc, getLast?_concat] at hlast
      obtain rfl := Option.some.inj hlast
      refine hmarks own.mark (List.mem_map_of_mem (mem_append_left _ ?_))
      exact mem_append_right _ mem_cons_self

/-! ## The result -/

end

/-- While its sets publish and end in their order, and no cancel finds a live turn that is not busy, a session keeps
the law. -/
theorem statusLaw_of_ordered (runtime : Bool) (ops : List Op)
    (h : Guarded (State.step runtime) Ordered State.start ops) :
    Guarded (State.step runtime) (fun s op ↦ StatusLaw runtime (s.step runtime op)) State.start ops :=
  Guarded.of_invariant (I := Inv runtime) (fun _ op hs hop ↦ hs.step op hop)
    (fun _ op hs hop ↦ (hs.step op hop).statusLaw) inv_start h

/-- One turn after another is in order. -/
theorem statusLaw_oneTurn :
    Guarded (State.step true) (fun s op ↦ StatusLaw true (s.step true op)) State.start
      [.runner, .onBusy 1, .publish 0, .finish 0, .onIdle 1, .publish 0, .finish 0] := by
  have hpublish : ∀ s : State, Ordered s (.publish 0) := fun _ _ _ _ _ h ↦
    absurd h List.not_mem_nil
  have hfinish : ∀ s : State, Ordered s (.finish 0) := fun _ _ _ _ ↦ rfl
  exact statusLaw_of_ordered true _
    ⟨trivial, trivial, hpublish _, hfinish _, trivial, hpublish _, hfinish _, trivial⟩

/-- The idle of the first turn is suspended before its event, and ends behind the busy of the second. -/
def lateIdle : List Op :=
  [.runner, .onBusy 1, .publish 0, .finish 0, .onIdle 1, .runner, .onBusy 2, .publish 1, .finish 1, .publish 0,
    .finish 0]

theorem not_statusLaw_lateIdle :
    ¬ Guarded (State.step false) (fun s op ↦ StatusLaw false (s.step false op)) State.start lateIdle := by
  intro h
  have hlaw : StatusLaw false (run (State.step false) State.start lateIdle) := h.2.2.2.2.2.2.2.2.2.2.1
  have hbusy := hlaw.settled rfl (3, .busy) ⟨by decide, by decide⟩
  exact absurd hbusy (by decide)

end Amicode.SessionStatus
