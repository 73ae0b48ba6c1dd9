import Mathlib.Data.List.Basic
import Mathlib.Order.Nat

/-!
# The status of a session

Every transition of a session between idle, busy and retry goes through `set` (`session/status.ts`). A turn draws a
generation and sets busy and later idle with it (`session/run-state.ts`); while it runs, busy and retry are written
without one, and a cancel that finds no runner writes a reconcile idle.

`set` checks its guards and draws its place in the ledger at once. It can be suspended at each event it publishes, so
one that is in progress has published its status or not, and changes the public status only when it ends.
-/

open List

namespace Amicode.SessionStatus

/-! ## Data -/

structure Action where
  reason : String
  provider : String
  title : String
  message : String
  label : String
  link : Option String
  deriving DecidableEq

inductive Info
  | idle
  | retry (attempt : ℕ) (message : String) (action : Option Action) (next : ℕ)
  | busy
  deriving DecidableEq

structure SetOptions where
  generation : Option ℕ
  reconcile : Bool

structure Ledger where
  seq : ℕ
  generation : ℕ
  turns : ℕ

/-- A set in progress. -/
structure Setting where
  seq : ℕ
  status : Info
  /-- The turn that sets busy with it. -/
  turn : Option ℕ
  published : Bool

/-- How far a turn is. -/
inductive Phase
  | created
  | setting
  | running
  | idled
  deriving DecidableEq

/-- One session. -/
structure State where
  ledger : Ledger
  /-- The entry of the public map. -/
  status : Option Info
  /-- The heartbeat fiber, and if it is alive. -/
  heartbeat : Option Bool
  /-- The sets in progress, in the order of their beginning. -/
  settings : List Setting
  /-- The status events so far: their sequence numbers, and what they say. -/
  published : List (ℕ × Info)
  turns : ℕ → Option Phase

def State.start : State where
  ledger := ⟨0, 0, 0⟩
  status := none
  heartbeat := none
  settings := []
  published := []
  turns := fun _ ↦ none

/-! ## Steps -/

namespace State

def get (s : State) : Info := s.status.getD .idle

/-- A runner is created. -/
def nextGeneration (s : State) : State :=
  { s with
    ledger := { s.ledger with turns := s.ledger.turns + 1 }
    turns := Function.update s.turns (s.ledger.turns + 1) (some .created) }

/-- `set` up to its first event. -/
def set (s : State) (next : Info) (options : SetOptions) (turn : Option ℕ) : State :=
  let prev := s.ledger
  if next = .idle ∧ ∃ generation ∈ options.generation, generation < prev.generation then s
  else if next = .idle ∧ options.reconcile = true ∧ s.status = some .busy then s
  else
    { s with
      ledger :=
        { seq := prev.seq + 1
          generation := options.generation.elim prev.generation (max prev.generation ·)
          turns := prev.turns }
      settings := s.settings ++ [⟨prev.seq + 1, next, turn, false⟩] }

def publish (s : State) (index : ℕ) : State :=
  match s.settings[index]? with
  | some setting =>
    if setting.published then s
    else
      { s with
        settings := s.settings.set index { setting with published := true }
        published := s.published ++ [(setting.seq, setting.status)] }
  | none => s

/-- A set in progress goes on behind its last event, up to its end. -/
def finish (s : State) (runtime : Bool) (index : ℕ) : State :=
  match s.settings[index]? with
  | some setting =>
    if setting.published = false then s
    else
      { s with
        settings := s.settings.eraseIdx index
        status := if setting.status = .idle then none else some setting.status
        heartbeat :=
          if setting.status = .idle then none
          else if runtime then some (s.heartbeat.getD true)
          else s.heartbeat
        turns := setting.turn.elim s.turns fun turn ↦ Function.update s.turns turn (some .running) }
  | none => s

/-- The heartbeat fiber wakes up, and ends if the session has no status. -/
def wake (s : State) : State :=
  if s.status = none then { s with heartbeat := s.heartbeat.map fun _ ↦ false } else s

end State

inductive Op
  /-- A turn begins. -/
  | runner
  /-- `onBusy` of a turn. -/
  | onBusy (generation : ℕ)
  /-- A busy or retry of a turn that runs, without its generation. -/
  | write (generation : ℕ) (status : Info)
  /-- `onIdle` of a turn. -/
  | onIdle (generation : ℕ)
  /-- A cancel without a runner. -/
  | cancel
  | publish (index : ℕ)
  | finish (index : ℕ)
  | wake

def State.step (runtime : Bool) (s : State) : Op → State
  | .runner => s.nextGeneration
  | .onBusy generation =>
    if s.turns generation = some .created then
      { s.set .busy ⟨some generation, false⟩ (some generation) with
        turns := Function.update s.turns generation (some .setting) }
    else s
  | .write generation status =>
    if s.turns generation = some .running ∧ status ≠ .idle then s.set status ⟨none, false⟩ none else s
  | .onIdle generation =>
    if s.turns generation = some .running then
      { s.set .idle ⟨some generation, false⟩ none with turns := Function.update s.turns generation (some .idled) }
    else s
  | .cancel => s.set .idle ⟨none, true⟩ none
  | .publish index => s.publish index
  | .finish index => s.finish runtime index
  | .wake => s.wake

end Amicode.SessionStatus

/-!
# The order of the sets

`set` draws its place in the ledger before its first event, and changes the public status after its last. While the
sets in progress publish and end in the order in which they have begun, the events, the public status and the
heartbeat follow the ledger (`Queue`).
-/

namespace Amicode.SessionStatus

/-! ## The condition -/

/-- The turn has set busy, or has even set idle since. -/
def State.HasSetBusy (s : State) (turn : ℕ) : Prop := s.turns turn = some .running ∨ s.turns turn = some .idled

/-- The turn sets busy or has done so, and no newer turn has. -/
def State.Live (s : State) (turn : ℕ) : Prop :=
  (s.turns turn = some .setting ∨ s.turns turn = some .running) ∧ ∀ newer, turn < newer → ¬ s.HasSetBusy newer

/-- Sets publish and end in their order, and a cancel does not go past a live turn. -/
def Ordered (s : State) : Op → Prop
  | .publish index => ∀ setting ∈ s.settings[index]?, setting.published = false →
    ∀ earlier ∈ s.settings.take index, earlier.published = true
  | .finish index => ∀ setting ∈ s.settings[index]?, setting.published = true → index = 0
  | .cancel => s.status = some .busy ∨ ∀ turn, ¬ s.Live turn
  | _ => True

/-! ## The sets in progress -/

def Setting.event (setting : Setting) : ℕ × Info := (setting.seq, setting.status)

/-- The sets so far: those that have ended, those that have published, and the others. -/
structure Queue (runtime : Bool) (s : State) (ended published waiting : List Setting) : Prop where
  settings : s.settings = published ++ waiting
  isPublished : ∀ setting ∈ published, setting.published = true
  isWaiting : ∀ setting ∈ waiting, setting.published = false
  events : s.published = (ended ++ published).map Setting.event
  ascending : ((ended ++ (published ++ waiting)).map (·.seq)).Pairwise (· < ·)
  bound : ∀ setting ∈ ended ++ (published ++ waiting), setting.seq ≤ s.ledger.seq
  get_eq : s.get = (ended.getLast?.map (·.status)).getD .idle
  status_ne : s.status ≠ some .idle
  heartbeat : runtime = true → s.heartbeat = if s.status = none then none else some true

variable {runtime : Bool} {s : State} {ended published waiting : List Setting}

theorem Queue.of_same (h : Queue runtime s ended published waiting) {s' : State}
    (hsettings : s'.settings = s.settings) (hpublished : s'.published = s.published)
    (hseq : s'.ledger.seq = s.ledger.seq) (hstatus : s'.status = s.status)
    (hheartbeat : s'.heartbeat = s.heartbeat) : Queue runtime s' ended published waiting where
  settings := hsettings.trans h.settings
  isPublished := h.isPublished
  isWaiting := h.isWaiting
  events := hpublished.trans h.events
  ascending := h.ascending
  bound := hseq ▸ h.bound
  get_eq := by rw [State.get, hstatus, ← h.get_eq, State.get]
  status_ne := hstatus ▸ h.status_ne
  heartbeat := fun hruntime ↦ by rw [hheartbeat, h.heartbeat hruntime, hstatus]

/-- What `set` appends, unless it drops its status. -/
def State.begun (s : State) (next : Info) (turn : Option ℕ) : Setting := ⟨s.ledger.seq + 1, next, turn, false⟩

theorem set_cases (s : State) (next : Info) (options : SetOptions) (turn : Option ℕ) :
    (next = .idle ∧ s.set next options turn = s ∧
      ((∃ generation ∈ options.generation, generation < s.ledger.generation) ∨
        (options.reconcile = true ∧ s.status = some .busy))) ∨
    ((next = .idle → (∀ generation ∈ options.generation, s.ledger.generation ≤ generation) ∧
        ¬ (options.reconcile = true ∧ s.status = some .busy)) ∧
      s.set next options turn =
        { s with
          ledger := ⟨s.ledger.seq + 1, options.generation.elim s.ledger.generation (max s.ledger.generation ·),
            s.ledger.turns⟩
          settings := s.settings ++ [s.begun next turn] }) := by
  unfold State.set
  by_cases holder : next = .idle ∧ ∃ generation ∈ options.generation, generation < s.ledger.generation
  · rw [if_pos holder]
    exact .inl ⟨holder.1, rfl, .inl holder.2⟩
  · rw [if_neg holder]
    by_cases hreconcile : next = .idle ∧ options.reconcile = true ∧ s.status = some .busy
    · rw [if_pos hreconcile]
      exact .inl ⟨hreconcile.1, rfl, .inr hreconcile.2⟩
    · rw [if_neg hreconcile]
      refine .inr ⟨fun hidle ↦ ⟨fun generation hgeneration ↦ ?_, fun h ↦ hreconcile ⟨hidle, h⟩⟩, rfl⟩
      exact not_lt.mp fun hlt ↦ holder ⟨hidle, generation, hgeneration, hlt⟩

section

variable (h : Queue runtime s ended published waiting)

include h

theorem Queue.begin (next : Info) (turn : Option ℕ) {s' : State}
    (hsettings : s'.settings = s.settings ++ [s.begun next turn]) (hpublished : s'.published = s.published)
    (hseq : s'.ledger.seq = s.ledger.seq + 1) (hstatus : s'.status = s.status)
    (hheartbeat : s'.heartbeat = s.heartbeat) :
    Queue runtime s' ended published (waiting ++ [s.begun next turn]) where
  settings := by rw [hsettings, h.settings, append_assoc]
  isPublished := h.isPublished
  isWaiting := fun setting hsetting ↦ by
    rcases mem_append.mp hsetting with hsetting | hsetting
    · exact h.isWaiting setting hsetting
    · rw [mem_singleton.mp hsetting]
      rfl
  events := hpublished.trans h.events
  ascending := by
    rw [← append_assoc published, ← append_assoc ended, map_append]
    refine pairwise_append.mpr ⟨h.ascending, pairwise_singleton _ _, fun a ha b hb ↦ ?_⟩
    obtain ⟨setting, hsetting, rfl⟩ := List.mem_map.mp ha
    rw [mem_singleton.mp hb]
    exact Nat.lt_succ_of_le (h.bound setting hsetting)
  bound := fun setting hsetting ↦ by
    rw [hseq]
    rw [← append_assoc published, ← append_assoc ended] at hsetting
    rcases mem_append.mp hsetting with hsetting | hsetting
    · exact Nat.le_succ_of_le (h.bound setting hsetting)
    · rw [mem_singleton.mp hsetting]
      exact Nat.le_refl _
  get_eq := by rw [State.get, hstatus, ← h.get_eq, State.get]
  status_ne := hstatus ▸ h.status_ne
  heartbeat := fun hruntime ↦ by rw [hheartbeat, h.heartbeat hruntime, hstatus]

theorem Queue.publish {index : ℕ} (hordered : Ordered s (.publish index)) :
    s.publish index = s ∨ ∃ setting rest, waiting = setting :: rest ∧
      (s.publish index).turns = s.turns ∧ (s.publish index).ledger = s.ledger ∧ (s.publish index).get = s.get ∧
      Queue runtime (s.publish index) ended (published ++ [{ setting with published := true }]) rest := by
  unfold State.publish
  split
  · next setting hsetting =>
    by_cases hpublished : setting.published = true
    · rw [if_pos hpublished]
      exact .inl rfl
    · rw [if_neg hpublished]
      rw [Bool.not_eq_true] at hpublished
      have hearlier := hordered setting hsetting hpublished
      -- none of the earlier ones waits, and it does itself
      have hindex : index = published.length := by
        rw [h.settings] at hsetting hearlier
        refine le_antisymm (not_lt.mp fun hlt ↦ ?_) (not_lt.mp fun hlt ↦ ?_)
        · rw [take_append, take_of_length_le hlt.le] at hearlier
          rcases hwaiting : waiting with _ | ⟨first, rest⟩
          · rw [hwaiting, append_nil] at hsetting
            obtain ⟨hbound, -⟩ := List.getElem?_eq_some_iff.mp hsetting
            omega
          · have hmem : first ∈ waiting.take (index - published.length) := by
              rw [hwaiting, show index - published.length = index - published.length - 1 + 1 by omega,
                take_succ_cons]
              exact mem_cons_self
            have htrue := hearlier first (mem_append_right _ hmem)
            rw [h.isWaiting first (hwaiting ▸ mem_cons_self)] at htrue
            cases htrue
        · rw [getElem?_append_left hlt] at hsetting
          rw [h.isPublished setting (mem_of_getElem? hsetting)] at hpublished
          cases hpublished
      rw [h.settings, hindex, getElem?_append_right (Nat.le_refl _), Nat.sub_self] at hsetting
      rcases waiting with _ | ⟨first, rest⟩
      · cases hsetting
      obtain rfl : first = setting := Option.some.inj hsetting
      refine .inr ⟨first, rest, rfl, rfl, rfl, rfl, ?_⟩
      have hsettings : s.settings.set index { first with published := true }
          = published ++ [{ first with published := true }] ++ rest := by
        rw [h.settings, hindex, set_append_right _ _ (Nat.le_refl _), Nat.sub_self, set_cons_zero,
          append_assoc, singleton_append]
      refine ⟨hsettings, ?_, fun x hx ↦ h.isWaiting x (mem_cons_of_mem _ hx), ?_, ?_, ?_, h.get_eq, h.status_ne,
        h.heartbeat⟩
      · intro x hx
        rcases mem_append.mp hx with hx | hx
        · exact h.isPublished x hx
        · rw [mem_singleton.mp hx]
      · rw [h.events, ← append_assoc, map_append, map_append, map_append]
        rfl
      · have hascending := h.ascending
        simp only [map_append, map_cons, append_assoc, singleton_append]
          at hascending ⊢
        exact hascending
      · intro x hx
        rw [append_assoc, singleton_append] at hx
        rcases mem_append.mp hx with hx | hx
        · exact h.bound x (mem_append_left _ hx)
        · rcases mem_append.mp hx with hx | hx
          · exact h.bound x (mem_append_right _ (mem_append_left _ hx))
          · rcases mem_cons.mp hx with rfl | hx
            · exact h.bound first (mem_append_right _ (mem_append_right _ mem_cons_self))
            · exact h.bound x (mem_append_right _ (mem_append_right _ (mem_cons_of_mem _ hx)))
  · exact .inl rfl

theorem Queue.finish {index : ℕ} (hordered : Ordered s (.finish index)) :
    s.finish runtime index = s ∨ ∃ setting rest, published = setting :: rest ∧ (s.finish runtime index).turns
        = setting.turn.elim s.turns (fun turn ↦ Function.update s.turns turn (some .running)) ∧
      (s.finish runtime index).ledger = s.ledger ∧
      Queue runtime (s.finish runtime index) (ended ++ [setting]) rest waiting := by
  unfold State.finish
  split
  · next setting hsetting =>
    by_cases hpublished : setting.published = false
    · rw [if_pos hpublished]
      exact .inl rfl
    · rw [if_neg hpublished]
      rw [Bool.not_eq_false] at hpublished
      obtain rfl := hordered setting hsetting hpublished
      rw [h.settings] at hsetting
      rcases published with _ | ⟨first, rest⟩
      · rw [nil_append] at hsetting
        rw [h.isWaiting setting (mem_of_getElem? hsetting)] at hpublished
        cases hpublished
      · obtain rfl : first = setting := Option.some.inj hsetting
        refine .inr ⟨first, rest, rfl, rfl, rfl, ?_, fun x hx ↦ h.isPublished x (mem_cons_of_mem _ hx),
          h.isWaiting, ?_, ?_, ?_, ?_, ?_, ?_⟩
        · rw [h.settings]
          rfl
        · rw [h.events, append_assoc, singleton_append]
        · have hascending := h.ascending
          rwa [append_assoc, singleton_append, ← cons_append]
        · intro x hx
          rw [append_assoc, singleton_append, ← cons_append] at hx
          exact h.bound x hx
        · rw [State.get, getLast?_concat, Option.map_some, Option.getD_some]
          dsimp only
          split_ifs with hidle
          · exact hidle.symm
          · rfl
        · dsimp only
          split_ifs with hidle
          · exact Option.some_ne_none _ |>.symm
          · exact fun h ↦ hidle (Option.some.inj h)
        · intro hruntime
          by_cases hidle : first.status = .idle
          · rw [if_pos hidle, if_pos hidle, if_pos rfl]
          · rw [if_neg hidle, if_neg hidle, if_pos hruntime, if_neg (Option.some_ne_none _), h.heartbeat hruntime]
            split_ifs <;> rfl
  · exact .inl rfl

theorem Queue.wake : Queue runtime s.wake ended published waiting := by
  unfold State.wake
  split_ifs with hnone
  · refine ⟨h.settings, h.isPublished, h.isWaiting, h.events, h.ascending, h.bound, h.get_eq, h.status_ne,
      fun hruntime ↦ ?_⟩
    rw [h.heartbeat hruntime, if_pos hnone]
    rfl
  · exact h

end

end Amicode.SessionStatus
