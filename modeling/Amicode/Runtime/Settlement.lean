import Amicode.Runtime.Pending

/-!
# Exactly-once settlement

A settlement looks its row up and then updates it if it is still pending, and answers true without
asking whether the update found anything. So two settlements that have both looked the row up before
either updates it are both answered true, and only the first one's resolution is stored.

The laws are stated twice. `SettlementLaw` is about one recording of a request: a settled row stays as it
is until a later `recordPending` of its session prunes it, and no two settlements succeed without a
recording in between. `ForeverLaw` is about the id for all time. What makes the first hold is that every
update finds its row pending (`Effective`); the second also needs that no settled row is pruned
(`KeepsSettled`).
-/

namespace Amicode.Runtime

open StepMachine List Function

variable {δ ρ : Type*}

/-! ## The laws -/

/-- What is observed of a step. -/
inductive StoreEvent
  /-- A request was inserted. -/
  | recorded (id : String)
  | settled (id : String)
deriving DecidableEq

def StoreEvent.id : StoreEvent → String
  | .recorded id => id
  | .settled id => id

/-- The request a step inserts. -/
def Store.inserts? (s : Store δ ρ) : StoreOp δ ρ → Option String
  | .insert call =>
    match s.calls call with
    | some (.insert input _) => if (s.rows input.id).isNone then some input.id else none
    | _ => none
  | _ => none

def Store.observed (s : Store δ ρ) (op : StoreOp δ ρ) : List StoreEvent :=
  ((s.inserts? op).map StoreEvent.recorded).toList
    ++ ((s.returns? op).map fun input ↦ StoreEvent.settled input.id).toList

abbrev Store.logged : Store δ ρ × List StoreEvent → StoreOp δ ρ → Store δ ρ × List StoreEvent :=
  StepMachine.logged Store.step Store.observed

/-- A settlement that returns true has stored what it was given. -/
def Stored (s : Store δ ρ) (op : StoreOp δ ρ) : Prop :=
  ∀ input, s.returns? op = some input → ∃ row, (s.step op).rows input.id = some row
    ∧ row.kind = input.kind ∧ row.state = input.state.state ∧ row.resolution = input.resolution

/-- The law of one recording of a request. -/
structure SettlementLaw (s : Store δ ρ × List StoreEvent) (op : StoreOp δ ρ) : Prop where
  once : ∀ id, ¬ Since (.recorded id) [.settled id, .settled id] (Store.logged s op).2
  stored : Stored s.1 op
  kept : ∀ id row, s.1.rows id = some row → row.state ≠ .pending →
    (∃ row', (s.1.step op).rows id = some row' ∧ row'.state = row.state
      ∧ row'.resolution = row.resolution)
    ∨ ∃ input t, op = .record input t ∧ row.isPruned input.sessionID t = true
  recorded : ∀ call id row, op = .insert call → s.1.rows id = some row →
    (s.1.step op).rows id = some row

/-- The law of an id for all time. -/
structure ForeverLaw (s : Store δ ρ × List StoreEvent) (op : StoreOp δ ρ) : Prop where
  once : ∀ id, (Store.logged s op).2.count (.settled id) ≤ 1
  stored : Stored s.1 op
  kept : ∀ id row, s.1.rows id = some row → row.state ≠ .pending →
    ∃ row', (s.1.step op).rows id = some row' ∧ row'.state = row.state
      ∧ row'.resolution = row.resolution
  recorded : ∀ call id row, op = .insert call → s.1.rows id = some row →
    (s.1.step op).rows id = some row

/-- An update finds its row pending. -/
def Effective (s : Store δ ρ) (op : StoreOp δ ρ) : Prop :=
  ∀ input, s.returns? op = some input → (pending? s.rows input.kind input.id).isSome = true

/-- No settled row is pruned. -/
def KeepsSettled (s : Store δ ρ) (op : StoreOp δ ρ) : Prop :=
  ∀ input t, op = .record input t → ∀ id row, s.rows id = some row → row.state ≠ .pending →
    row.isPruned input.sessionID t = false

/-! ## What a step does to one id -/

variable {s : Store δ ρ} {op : StoreOp δ ρ} {id : String}

/-- What becomes of the row of an id in a step, and what is observed of the id. -/
inductive RowStep (s : Store δ ρ) (op : StoreOp δ ρ) (id : String) :
    Option (PendingRow δ ρ) → Option (PendingRow δ ρ) → List StoreEvent → Prop
  | same {old : Option (PendingRow δ ρ)} {events : List StoreEvent}
      (hevents : ∀ event ∈ events, event.id ≠ id) : RowStep s op id old old events
  | beat (row : PendingRow δ ρ) (t : ℤ) (hop : ∀ call, op ≠ .insert call) :
      RowStep s op id (some row) (some { row with timeHeartbeat := t }) []
  | pruned (row : PendingRow δ ρ) {input : RecordInput δ} {t : ℤ} (hop : op = .record input t)
      (hpruned : row.isPruned input.sessionID t = true) : RowStep s op id (some row) none []
  | discarded (row : PendingRow δ ρ) (hpending : row.state = .pending)
      (hop : ∀ call, op ≠ .insert call) : RowStep s op id (some row) none []
  | inserted (row : PendingRow δ ρ) (hpending : row.state = .pending)
      (hresolution : row.resolution = none) : RowStep s op id none (some row) [.recorded id]
  | updated (row : PendingRow δ ρ) {input : SettleInput ρ} (t : ℤ)
      (hreturns : s.returns? op = some input) (hid : input.id = id)
      (hpending : row.state = .pending) (hkind : row.kind = input.kind) :
      RowStep s op id (some row) (some { row with
        state := input.state.state, resolution := input.resolution <|> row.resolution
        timeUpdated := t }) [.settled id]
  | missed {old : Option (PendingRow δ ρ)} {input : SettleInput ρ}
      (hreturns : s.returns? op = some input) (hid : input.id = id)
      (hmissed : pending? s.rows input.kind input.id = none) : RowStep s op id old old [.settled id]

variable {row : PendingRow δ ρ} {input : SettleInput ρ}

theorem pending?_eq_some {rows : String → Option (PendingRow δ ρ)} {kind : PendingKind}
    :
    pending? rows kind id = some row ↔ rows id = some row ∧ row.kind = kind ∧ row.state = .pending := by
  rw [pending?, Option.filter_eq_some_iff]
  simp

theorem rowStep_of_rows_eq (hrows : (s.step op).rows id = s.rows id)
    (hevents : ∀ event ∈ s.observed op, event.id ≠ id) :
    RowStep s op id (s.rows id) ((s.step op).rows id) (s.observed op) := by
  rw [hrows]
  exact .same hevents

variable (s)

theorem rowStep_insert (call : ℕ) (id : String) :
    RowStep s (.insert call) id (s.rows id) ((s.step (.insert call)).rows id) (s.observed (.insert call)) := by
  rcases hcall : s.calls call with _ | ⟨input, t⟩ | input
  · exact rowStep_of_rows_eq (by simp [Store.step, hcall])
      (by simp [Store.observed, Store.inserts?, Store.returns?, hcall])
  · have hrows : (s.step (.insert call)).rows = insert s.rows input t := by
      simp [Store.step, hcall, Store.finish]
    rw [hrows, insert]
    rcases hrow : s.rows input.id with _ | row
    · have hobserved : s.observed (.insert call) = [.recorded input.id] := by
        simp [Store.observed, Store.inserts?, Store.returns?, hcall, hrow]
      rw [hobserved]
      dsimp only
      by_cases hid : id = input.id
      · subst hid
        rw [update_self, hrow]
        exact .inserted (input.row t) rfl rfl
      · rw [update_of_ne hid]
        exact .same (by simpa [StoreEvent.id] using Ne.symm hid)
    · exact .same (by simp [Store.observed, Store.inserts?, Store.returns?, hcall, hrow])
  · exact rowStep_of_rows_eq (by simp [Store.step, hcall])
      (by simp [Store.observed, Store.inserts?, Store.returns?, hcall])

theorem rowStep_update (call : ℕ) (t : ℤ) (id : String) :
    RowStep s (.update call t) id (s.rows id) ((s.step (.update call t)).rows id)
      (s.observed (.update call t)) := by
  rcases hcall : s.calls call with _ | ⟨input, t'⟩ | input
  · exact rowStep_of_rows_eq (by simp [Store.step, hcall])
      (by simp [Store.observed, Store.inserts?, Store.returns?, hcall])
  · exact rowStep_of_rows_eq (by simp [Store.step, hcall])
      (by simp [Store.observed, Store.inserts?, Store.returns?, hcall])
  · have hreturns : s.returns? (.update call t) = some input := by
      simp [Store.returns?, hcall]
    have hrows : (s.step (.update call t)).rows = update s.rows input t := by
      simp [Store.step, hcall, Store.finish]
    have hobserved : s.observed (.update call t) = [.settled input.id] := by
      simp [Store.observed, Store.inserts?, hreturns]
    rw [hrows, hobserved, update]
    by_cases hid : id = input.id
    · subst hid
      rcases hpending : pending? s.rows input.kind input.id with _ | row
      · exact .missed hreturns rfl hpending
      · obtain ⟨hrow, hkind, hstate⟩ := pending?_eq_some.mp hpending
        dsimp only
        rw [update_self, hrow]
        exact .updated row t hreturns rfl hstate hkind
    · have hsame : ∀ event ∈ [StoreEvent.settled input.id], event.id ≠ id := by
        simpa [StoreEvent.id] using Ne.symm hid
      rcases pending? s.rows input.kind input.id with _ | row
      · exact .same hsame
      · dsimp only
        rw [update_of_ne hid]
        exact .same hsame

theorem rowStep (op : StoreOp δ ρ) (id : String) :
    RowStep s op id (s.rows id) ((s.step op).rows id) (s.observed op) := by
  rcases op with ⟨input, t⟩ | call | input | ⟨call, t⟩ | ⟨kind, id', ownerID⟩ | ⟨kind, id', ownerID, t⟩
  · have hobserved : s.observed (.record input t) = [] := rfl
    have hrows : (s.step (.record input t)).rows id
        = (s.rows id).filter fun row ↦ !row.isPruned input.sessionID t := rfl
    rw [hobserved, hrows]
    rcases s.rows id with _ | row
    · exact .same (by simp)
    · rcases hpruned : row.isPruned input.sessionID t
      · rw [Option.filter_some, if_pos (by simp [hpruned])]
        exact .same (by simp)
      · rw [Option.filter_some, if_neg (by simp [hpruned])]
        exact .pruned row rfl hpruned
  · exact rowStep_insert s call id
  · have hrows : (s.step (.lookup input)).rows = s.rows := by
      unfold Store.step
      dsimp only
      split <;> rfl
    exact rowStep_of_rows_eq (by rw [hrows]) (by simp [Store.observed, Store.inserts?, Store.returns?])
  · exact rowStep_update s call t id
  · have hobserved : s.observed (.discard kind id' ownerID) = [] := rfl
    have hrows : (s.step (.discard kind id' ownerID)).rows = discard s.rows kind id' ownerID := rfl
    rw [hobserved, hrows, discard]
    rcases hpending : pending? s.rows kind id' with _ | row <;> dsimp only
    · exact .same (by simp)
    · obtain ⟨hrow, -, hstate⟩ := pending?_eq_some.mp hpending
      split
      · by_cases hid : id = id'
        · subst hid
          rw [update_self, hrow]
          exact .discarded row hstate nofun
        · rw [update_of_ne hid]
          exact .same (by simp)
      · exact .same (by simp)
  · have hobserved : s.observed (.heartbeat kind id' ownerID t) = [] := rfl
    have hrows : (s.step (.heartbeat kind id' ownerID t)).rows
        = heartbeat s.rows kind id' ownerID t := rfl
    rw [hobserved, hrows, heartbeat]
    rcases hrow : s.rows id' with _ | row <;> dsimp only
    · exact .same (by simp)
    · split
      · by_cases hid : id = id'
        · subst hid
          rw [update_self, hrow]
          exact .beat row t nofun
        · rw [update_of_ne hid]
          exact .same (by simp)
      · exact .same (by simp)

/-! ## The invariants -/

variable {s}

variable {log events : List StoreEvent}

/-- A settled row is one of which a settlement has returned true since it was recorded, and of a
pending row none has. -/
structure Tracked (id : String) (row : Option (PendingRow δ ρ)) (log : List StoreEvent) : Prop where
  once : ¬ Since (.recorded id) [.settled id, .settled id] log
  settled : ∀ r, row = some r → r.state ≠ .pending → Since (.recorded id) [.settled id] log
  pending : ∀ r, row = some r → r.state = .pending →
    ¬ Since (.recorded id) [.settled id] log ∧ r.resolution = none

variable {old new : Option (PendingRow δ ρ)}

/-- What happens to other ids does not matter for what was settled. -/
theorem since_settled_append {settlements : List StoreEvent}
    (hsettlements : ∀ event ∈ settlements, event = .settled id)
    (hevents : ∀ event ∈ events, event.id ≠ id) :
    Since (.recorded id) settlements (log ++ events) ↔ Since (.recorded id) settlements log := by
  induction events generalizing log with
  | nil => simp
  | cons event rest ih =>
    rw [append_cons, ih fun e he ↦ hevents e (mem_cons_of_mem _ he)]
    have hother : event.id ≠ id := hevents event mem_cons_self
    constructor
    · intro h
      refine h.of_concat fun hmem ↦ hother ?_
      rw [hsettlements event hmem]
      rfl
    · intro h
      refine h.append ?_
      rw [mem_singleton]
      rintro rfl
      exact hother rfl

theorem Tracked.append (h : Tracked id old log) (hevents : ∀ event ∈ events, event.id ≠ id) :
    Tracked id old (log ++ events) := by
  have hone : Since (.recorded id) [.settled id] (log ++ events)
      ↔ Since (.recorded id) [.settled id] log := since_settled_append (by simp) hevents
  have htwo : Since (.recorded id) [.settled id, .settled id] (log ++ events)
      ↔ Since (.recorded id) [.settled id, .settled id] log :=
    since_settled_append (by simp) hevents
  exact ⟨htwo.not.mpr h.once, fun r hr hstate ↦ hone.mpr (h.settled r hr hstate),
    fun r hr hstate ↦ ⟨hone.not.mpr (h.pending r hr hstate).1, (h.pending r hr hstate).2⟩⟩

theorem tracked_none (h : Tracked id old log) : Tracked id (none : Option (PendingRow δ ρ)) log :=
  ⟨h.once, by simp, by simp⟩

theorem settled_mem_observed (h : s.returns? op = some input) :
    StoreEvent.settled input.id ∈ s.observed op := by
  simp [Store.observed, h]

theorem Tracked.step (h : Tracked id old log) (hstep : RowStep s op id old new events)
    (heffective : Effective s op) : Tracked id new (log ++ events) := by
  cases hstep with
  | same hevents => exact h.append hevents
  | beat row t hop =>
    rw [append_nil]
    refine ⟨h.once, fun r hr hstate ↦ ?_, fun r hr hstate ↦ ?_⟩
    · obtain rfl := Option.some.inj hr
      exact h.settled row rfl hstate
    · obtain rfl := Option.some.inj hr
      exact h.pending row rfl hstate
  | pruned row hop hpruned =>
    rw [append_nil]
    exact tracked_none h
  | discarded row hpending hop =>
    rw [append_nil]
    exact tracked_none h
  | inserted row hpending hresolution =>
    refine ⟨not_since_concat_barrier log, fun r hr hstate ↦ ?_, fun r hr _ ↦ ?_⟩
    · obtain rfl := Option.some.inj hr
      exact absurd hpending hstate
    · obtain rfl := Option.some.inj hr
      exact ⟨not_since_concat_barrier log, hresolution⟩
  | @updated row input t hreturns hid hpending hkind =>
    refine ⟨fun hsince ↦ ?_, fun r _ _ ↦ since_singleton (by simp), fun r hr hstate ↦ ?_⟩
    · have hsince' : Since (.recorded id) ([.settled id] ++ [.settled id])
          (log ++ [StoreEvent.settled id]) := hsince
      exact (h.pending row rfl hpending).1 hsince'.of_concat_self
    · obtain rfl := Option.some.inj hr
      exact absurd hstate input.state.state_ne_pending
  | missed hreturns hid hmissed => exact absurd (heffective _ hreturns) (by simp [hmissed])

/-- A settlement whose update finds its row has stored what it was given. -/
theorem stored_of_effective (hpending : ∀ row, s.rows id = some row → row.state = .pending →
    row.resolution = none) (hreturns : s.returns? op = some input)
    (hid : input.id = id) (heffective : Effective s op) :
    ∃ row, (s.step op).rows id = some row ∧ row.kind = input.kind ∧ row.state = input.state.state
      ∧ row.resolution = input.resolution := by
  have hstep := rowStep s op id
  have hmem := settled_mem_observed hreturns
  generalize hold : s.rows id = old at hstep
  generalize s.observed op = events at hstep hmem
  generalize (s.step op).rows id = new at hstep
  cases hstep with
  | same hevents => exact absurd hid (hevents _ hmem)
  | beat => exact absurd hmem not_mem_nil
  | pruned => exact absurd hmem not_mem_nil
  | discarded => exact absurd hmem not_mem_nil
  | inserted => simp at hmem
  | @updated row input' t hreturns' hid' hstate hkind =>
    obtain rfl := Option.some.inj (hreturns.symm.trans hreturns')
    exact ⟨_, rfl, hkind, rfl, by simp [hpending row hold hstate]⟩
  | missed hreturns' hid' hmissed => exact absurd (heffective _ hreturns') (by simp [hmissed])

/-- A settled row stays settled as it is, until it is pruned. -/
theorem kept_or_pruned (hrow : s.rows id = some row)
    (hstate : row.state ≠ .pending) :
    (∃ row', (s.step op).rows id = some row' ∧ row'.state = row.state
      ∧ row'.resolution = row.resolution)
    ∨ ∃ input t, op = .record input t ∧ row.isPruned input.sessionID t = true := by
  have hstep := rowStep s op id
  rw [hrow] at hstep
  generalize (s.step op).rows id = new at hstep
  generalize s.observed op = events at hstep
  cases hstep with
  | same => exact .inl ⟨row, rfl, rfl, rfl⟩
  | beat _ t => exact .inl ⟨_, rfl, rfl, rfl⟩
  | pruned _ hop hpruned => exact .inr ⟨_, _, hop, hpruned⟩
  | discarded _ hpending => exact absurd hpending hstate
  | updated _ _ _ _ hpending => exact absurd hpending hstate
  | missed => exact .inl ⟨row, rfl, rfl, rfl⟩

theorem recorded_insert {call : ℕ} (hrow : s.rows id = some row) :
    (s.step (.insert call)).rows id = some row := by
  have hstep := rowStep s (.insert call) id
  rw [hrow] at hstep
  generalize (s.step (.insert call)).rows id = new at hstep
  generalize s.observed (.insert call) = events at hstep
  cases hstep with
  | same => rfl
  | beat _ t hop => exact absurd rfl (hop call)
  | pruned _ hop => exact nomatch hop
  | discarded _ _ hop => exact absurd rfl (hop call)
  | updated _ _ hreturns => exact nomatch hreturns
  | missed => rfl

/-! ## One recording -/

/-- Every id is tracked. -/
def AllTracked (s : Store δ ρ × List StoreEvent) : Prop := ∀ id, Tracked id (s.1.rows id) s.2

variable {u : Store δ ρ × List StoreEvent}

theorem AllTracked.step (h : AllTracked u) (heffective : Effective u.1 op) :
    AllTracked (Store.logged u op) :=
  fun id ↦ (h id).step (rowStep u.1 op id) heffective

theorem AllTracked.law (h : AllTracked u) (heffective : Effective u.1 op) : SettlementLaw u op where
  once id := ((h.step heffective) id).once
  stored _ hreturns := stored_of_effective
    (fun row hrow hstate ↦ ((h _).pending row hrow hstate).2) hreturns rfl heffective
  kept _ _ hrow hstate := kept_or_pruned hrow hstate
  recorded := by
    rintro call id row rfl hrow
    exact recorded_insert hrow

/-- What a settlement that is answered true without an update has stored was there before. -/
theorem settled_of_missed (hstored : Stored s op)
    (hreturns : s.returns? op = some input) (hmissed : pending? s.rows input.kind input.id = none) :
    s.observed op = [.settled input.id] ∧ ∃ row, s.rows input.id = some row ∧ row.state ≠ .pending := by
  obtain ⟨row, hrow, -, hstate, -⟩ := hstored input hreturns
  have hstep := rowStep s op input.id
  have hmem := settled_mem_observed hreturns
  generalize hold : s.rows input.id = old at hstep
  generalize s.observed op = events at hstep hmem
  rw [hrow] at hstep
  cases hstep with
  | same hevents => exact absurd rfl (hevents _ hmem)
  | beat => exact absurd hmem not_mem_nil
  | inserted => simp at hmem
  | @updated row' input' t hreturns' _ hpending hkind' =>
    obtain rfl := Option.some.inj (hreturns.symm.trans hreturns')
    exact absurd (pending?_eq_some.mpr ⟨hold, hkind', hpending⟩) (by simp [hmissed])
  | missed => exact ⟨rfl, row, hold ▸ rfl, hstate ▸ input.state.state_ne_pending⟩

/-- A settlement that returns true and leaves a settled row has stored it, if none has before. -/
theorem effective_of_law (h : AllTracked u) (hlaw : SettlementLaw u op) : Effective u.1 op := by
  intro input hreturns
  by_contra hmissed
  obtain ⟨hobserved, row, hrow, hsettled⟩ := settled_of_missed hlaw.stored hreturns (by simpa using hmissed)
  have honce := hlaw.once input.id
  rw [Store.logged, logged, hobserved] at honce
  exact honce (((h _).settled row hrow hsettled).concat (by simp))

/-! ## All time -/

/-- An id is settled once and for all. -/
structure Final (id : String) (row : Option (PendingRow δ ρ)) (log : List StoreEvent) : Prop where
  once : log.count (.settled id) ≤ 1
  settled_iff : StoreEvent.settled id ∈ log ↔ ∃ r, row = some r ∧ r.state ≠ .pending
  pending : ∀ r, row = some r → r.state = .pending → r.resolution = none

theorem Final.step (h : Final id old log) (hold : s.rows id = old)
    (hstep : RowStep s op id old new events) (heffective : Effective s op)
    (hkeeps : KeepsSettled s op) : Final id new (log ++ events) := by
  -- a row that is pending, or missing, has never been settled
  have hnever : (∀ r, old = some r → r.state = .pending) → StoreEvent.settled id ∉ log := by
    intro hpending hmem
    obtain ⟨r, hr, hstate⟩ := h.settled_iff.mp hmem
    exact hstate (hpending r hr)
  cases hstep with
  | same hevents =>
    have hnot : StoreEvent.settled id ∉ events := fun hmem ↦ hevents _ hmem rfl
    refine ⟨?_, ?_, h.pending⟩
    · rw [count_append, count_eq_zero_of_not_mem hnot, Nat.add_zero]
      exact h.once
    · rw [mem_append, h.settled_iff]
      exact or_iff_left hnot
  | beat row t hop =>
    rw [append_nil]
    refine ⟨h.once, ?_, fun r hr hstate ↦ ?_⟩
    · rw [h.settled_iff]
      simp
    · obtain rfl := Option.some.inj hr
      exact h.pending row rfl hstate
  | pruned row hop hpruned =>
    rw [append_nil]
    have hpending : row.state = .pending := by
      by_contra hstate
      exact absurd (hkeeps _ _ hop id row hold hstate) (by simp [hpruned])
    refine ⟨h.once, iff_of_false (hnever fun r hr ↦ ?_) (by simp), by simp⟩
    obtain rfl := Option.some.inj hr
    exact hpending
  | discarded row hpending hop =>
    rw [append_nil]
    refine ⟨h.once, iff_of_false (hnever fun r hr ↦ ?_) (by simp), by simp⟩
    obtain rfl := Option.some.inj hr
    exact hpending
  | inserted row hpending hresolution =>
    have hnot := hnever (by simp)
    refine ⟨?_, iff_of_false ?_ ?_, fun r hr _ ↦ ?_⟩
    · rw [count_append, count_eq_zero_of_not_mem hnot]
      simp
    · simpa using hnot
    · rintro ⟨r, hr, hstate⟩
      obtain rfl := Option.some.inj hr
      exact hstate hpending
    · obtain rfl := Option.some.inj hr
      exact hresolution
  | @updated row input t hreturns hid hpending hkind =>
    have hnot := hnever fun r hr ↦ by
      obtain rfl := Option.some.inj hr
      exact hpending
    refine ⟨?_, iff_of_true (by simp) ⟨_, rfl, input.state.state_ne_pending⟩, fun r hr hstate ↦ ?_⟩
    · rw [count_append, count_eq_zero_of_not_mem hnot]
      simp
    · obtain rfl := Option.some.inj hr
      exact absurd hstate input.state.state_ne_pending
  | missed hreturns hid hmissed => exact absurd (heffective _ hreturns) (by simp [hmissed])

/-- Every id is settled once and for all. -/
def AllFinal (s : Store δ ρ × List StoreEvent) : Prop := ∀ id, Final id (s.1.rows id) s.2

theorem AllFinal.step (h : AllFinal u) (heffective : Effective u.1 op)
    (hkeeps : KeepsSettled u.1 op) : AllFinal (Store.logged u op) :=
  fun id ↦ (h id).step rfl (rowStep u.1 op id) heffective hkeeps

theorem AllFinal.law (h : AllFinal u) (heffective : Effective u.1 op)
    (hkeeps : KeepsSettled u.1 op) : ForeverLaw u op where
  once id := (h.step heffective hkeeps id).once
  stored _ hreturns := stored_of_effective (h _).pending hreturns rfl heffective
  kept id row hrow hstate := by
    have hcases : (∃ row', (u.1.step op).rows id = some row' ∧ row'.state = row.state
        ∧ row'.resolution = row.resolution)
      ∨ ∃ input t, op = .record input t ∧ row.isPruned input.sessionID t = true :=
      kept_or_pruned hrow hstate
    rcases hcases with hkept | ⟨input, t, hop, hpruned⟩
    · exact hkept
    · exact absurd (hkeeps input t hop id row hrow hstate) (by simp [hpruned])
  recorded := by
    rintro call id row rfl hrow
    exact recorded_insert hrow

theorem effective_of_foreverLaw (h : AllFinal u) (hlaw : ForeverLaw u op) : Effective u.1 op := by
  intro input hreturns
  by_contra hmissed
  obtain ⟨hobserved, row, hrow, hsettled⟩ := settled_of_missed hlaw.stored hreturns (by simpa using hmissed)
  have honce := hlaw.once input.id
  have hbefore := one_le_count_iff.mpr ((h _).settled_iff.mpr ⟨row, hrow, hsettled⟩)
  rw [Store.logged, logged, hobserved, count_append, count_singleton_self] at honce
  omega

theorem keepsSettled_of_foreverLaw (hlaw : ForeverLaw u op) : KeepsSettled u.1 op := by
  rintro input t rfl id row hrow hstate
  by_contra hpruned
  obtain ⟨row', hrow', -⟩ := hlaw.kept id row hrow hstate
  have hnone : (u.1.step (.record input t)).rows id = none := by
    simp only [Store.step, Store.begin, prune, hrow]
    simpa using hpruned
  exact nomatch hrow'.symm.trans hnone

/-! ## Every run -/

theorem allTracked_empty : AllTracked ((Store.empty, []) : Store δ ρ × List StoreEvent) := by
  intro id
  refine ⟨?_, by simp [Store.empty], by simp [Store.empty]⟩
  rintro ⟨after, hsuffix, hsublist, -⟩
  rw [suffix_nil.mp hsuffix] at hsublist
  simp at hsublist

theorem allFinal_empty : AllFinal ((Store.empty, []) : Store δ ρ × List StoreEvent) :=
  fun _ ↦ ⟨by simp, by simp [Store.empty], by simp [Store.empty]⟩

theorem guarded_settlementLaw_iff (ops : List (StoreOp δ ρ)) :
    Guarded Store.logged SettlementLaw (Store.empty, []) ops
      ↔ Guarded Store.logged (fun u op ↦ Effective u.1 op) (Store.empty, []) ops := by
  refine guarded_iff_of_invariant (fun u op hu ↦ ?_) (fun u op hu hlaw ↦ ?_) allTracked_empty
  · exact ⟨effective_of_law hu, hu.law⟩
  · exact hu.step (effective_of_law hu hlaw)

theorem guarded_foreverLaw_iff (ops : List (StoreOp δ ρ)) :
    Guarded Store.logged ForeverLaw (Store.empty, []) ops
      ↔ Guarded Store.logged (fun u op ↦ Effective u.1 op ∧ KeepsSettled u.1 op)
        (Store.empty, []) ops := by
  refine guarded_iff_of_invariant (fun u op hu ↦ ?_) (fun u op hu hlaw ↦ ?_) allFinal_empty
  · exact ⟨fun hlaw ↦ ⟨effective_of_foreverLaw hu hlaw, keepsSettled_of_foreverLaw hlaw⟩,
      fun h ↦ hu.law h.1 h.2⟩
  · exact hu.step (effective_of_foreverLaw hu hlaw) (keepsSettled_of_foreverLaw hlaw)

/-- In every run on a new table, the law of one recording holds at every step exactly if every update
finds its row pending, and the law of all time exactly if also no settled row is pruned. -/
theorem settlement_run_iff (ops : List (StoreOp δ ρ)) :
    (Guarded Store.logged SettlementLaw (Store.empty, []) ops
      ↔ Guarded Store.logged (fun u op ↦ Effective u.1 op) (Store.empty, []) ops)
    ∧ (Guarded Store.logged ForeverLaw (Store.empty, []) ops
      ↔ Guarded Store.logged (fun u op ↦ Effective u.1 op ∧ KeepsSettled u.1 op)
        (Store.empty, []) ops) :=
  ⟨guarded_settlementLaw_iff ops, guarded_foreverLaw_iff ops⟩

/-- A permission request is settled by two components that have both looked it up. -/
def twoSettlers : List (StoreOp String String) :=
  [.record ⟨.permission, "per_1", "ses_1", none, "edit", ⟨"run_1", 1⟩⟩ 0, .insert 0,
    .lookup ⟨.permission, "per_1", .replied, some "once"⟩,
    .lookup ⟨.permission, "per_1", .rejected, none⟩, .update 1 5, .update 2 6]

/-- Both settlers are told that they have settled the request, and the resolution of the second is not
stored. -/
theorem not_settlementLaw_twoSettlers :
    ¬ Guarded Store.logged SettlementLaw ((Store.empty, []) : Store String String × _) twoSettlers := by
  rw [guarded_settlementLaw_iff]
  rintro ⟨-, -, -, -, -, hsecond, -⟩
  have hfound := hsecond ⟨.permission, "per_1", .rejected, none⟩ rfl
  exact absurd hfound (by decide)

end Amicode.Runtime
