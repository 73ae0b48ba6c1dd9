import Amicode.Foundation.StepMachine
import Mathlib.Algebra.Order.Ring.Rat

/-!
# The keepalive of the detached server

While a window is active it pings the server on an interval, and when the server is gone it has the
handshake deleted (`server_keepalive.ts`). Each `startKeepalive` has a closure of its own, with its options
and its count of failures, and pings in flight that may overlap; `timer` and `stopped` are variables of the
module, shared by every start.

A start is named by its number. A ping settles at any time after it was sent, with any outcome; what the
process table answers at that moment is part of the operation. The log has what a caller can observe.
-/

namespace Amicode.Keepalive

open StepMachine List

inductive Number
  | finite (value : ℚ)
  | infinite (negative : Bool)
  | nan
deriving DecidableEq

/-- `Math.max(1, x)`. -/
def Number.maxOne : Number → Number
  | finite value => finite (max 1 value)
  | infinite false => infinite false
  | infinite true => finite 1
  | nan => nan

/-- `count < x`. -/
def Number.above (count : ℕ) : Number → Bool
  | finite value => decide ((count : ℚ) < value)
  | infinite negative => !negative
  | nan => false

def DEFAULT_FAILURE_THRESHOLD : Number := .finite 3

structure KeepaliveOptions where
  port : ℕ
  password : String
  graceSeconds : Number
  pid : Option ℤ
  failureThreshold : Option Number
  /-- Whether the dependencies have a `pidAlive`. -/
  pidAlive : Bool
deriving DecidableEq

/-- What a call of `startKeepalive` keeps to itself. -/
structure Closure where
  opts : KeepaliveOptions
  consecutiveFailures : ℕ
deriving DecidableEq

def Closure.threshold (closure : Closure) : Number :=
  (closure.opts.failureThreshold.getD DEFAULT_FAILURE_THRESHOLD).maxOne

def Closure.failed (closure : Closure) : Closure :=
  { closure with consecutiveFailures := closure.consecutiveFailures + 1 }

def Closure.answered (closure : Closure) : Closure := { closure with consecutiveFailures := 0 }

/-- The variables of the module, and what its starts have on the way. -/
structure State where
  /-- The start whose interval the module's variable holds. -/
  timer : Option ℕ
  stopped : Bool
  /-- The starts whose interval has not been cleared. -/
  intervals : List ℕ
  closures : List Closure
  /-- The pings in flight, each under its start. -/
  pings : List ℕ
deriving DecidableEq

inductive Event
  | started (start : ℕ)
  | halted
  | pinged (start : ℕ) (port : ℕ) (password : String) (graceSeconds : Number)
  | settled (start : ℕ) (ok : Bool)
  /-- `onServerGone` is called. -/
  | gone (start : ℕ)
deriving DecidableEq

inductive Op
  | startKeepalive (opts : KeepaliveOptions)
  | stopKeepalive
  /-- The interval of a start fires. -/
  | tick (start : ℕ)
  /-- A ping in flight settles; one that throws has failed. -/
  | settle (ping : ℕ) (ok : Bool) (alive : ℤ → Bool)

def init : State := ⟨none, false, [], [], []⟩

def stopKeepalive (s : State) : State :=
  { s with
    stopped := true
    timer := none
    intervals := match s.timer with
      | some start => s.intervals.erase start
      | none => s.intervals }

/-- `ping` until `pingServer` has been called. -/
def ping (s : State) (start : ℕ) : State × List Event :=
  if s.stopped then (s, [])
  else match s.closures[start]? with
    | none => (s, [])
    | some closure =>
      ({ s with pings := s.pings ++ [start] },
        [.pinged start closure.opts.port closure.opts.password closure.opts.graceSeconds])

def startKeepalive (s : State) (opts : KeepaliveOptions) : State × List Event :=
  let start := s.closures.length
  let s := stopKeepalive s
  let s := { s with stopped := false, closures := s.closures ++ [⟨opts, 0⟩] }
  let (s, events) := ping s start
  ({ s with intervals := s.intervals ++ [start], timer := some start }, .halted :: .started start :: events)

def considerGone (s : State) (start : ℕ) (alive : ℤ → Bool) : State × List Event :=
  match s.closures[start]? with
  | none => (s, [])
  | some closure =>
    if s.stopped then (s, [])
    else if closure.threshold.above closure.consecutiveFailures then (s, [])
    else if closure.opts.pid.any (fun pid ↦ closure.opts.pidAlive && alive pid) then (s, [])
    else (stopKeepalive s, [.gone start, .halted])

/-- `ping` from the answer of `pingServer` on. -/
def settle (s : State) (ping : ℕ) (ok : Bool) (alive : ℤ → Bool) : State × List Event :=
  match s.pings[ping]? with
  | none => (s, [])
  | some start =>
    let s := { s with pings := s.pings.eraseIdx ping }
    if s.stopped then (s, [.settled start ok])
    else if ok then
      ({ s with closures := s.closures.modify start Closure.answered }, [.settled start ok])
    else
      let s := { s with closures := s.closures.modify start Closure.failed }
      let (s, events) := considerGone s start alive
      (s, .settled start ok :: events)

def perform (s : State) : Op → State × List Event
  | .startKeepalive opts => startKeepalive s opts
  | .stopKeepalive => (stopKeepalive s, [.halted])
  -- an interval that has been cleared does not fire
  | .tick start => if start ∈ s.intervals then ping s start else (s, [])
  | .settle ping ok alive => settle s ping ok alive

/-- The keepalive and the log of what happened. -/
abbrev Run := State × List Event

def step (r : Run) (op : Op) : Run :=
  logged (fun s op ↦ (perform s op).1) (fun s op ↦ (perform s op).2) r op

/-! ## What a start is promised -/

/-- The start that has neither been stopped nor replaced. -/
def current (log : List Event) : Option ℕ :=
  log.foldl (fun start event ↦ match event with
    | .started start => some start
    | .halted => none
    | _ => start) none

/-- The failed pings of a start since its last successful one. -/
def streak (start : ℕ) (log : List Event) : ℕ :=
  log.foldl (fun failures event ↦ match event with
    | .settled other ok => if other = start then (if ok then 0 else failures + 1) else failures
    | _ => failures) 0

/-- The start an operation is an event of. -/
def Op.owner (s : State) : Op → Option ℕ
  | .startKeepalive _ => none
  | .stopKeepalive => none
  | .tick start => some start
  | .settle ping _ _ => s.pings[ping]?

/-- The process table of an operation. -/
def Op.alive : Op → ℤ → Bool
  | .settle _ _ alive => alive
  | _ => fun _ ↦ false

/-- The law of one operation, from the log before it. -/
structure Isolated (r : Run) (op : Op) : Prop where
  /-- `onServerGone` is called for the current start only, and for the first time. -/
  gone_current : ∀ start, .gone start ∈ (perform r.1 op).2 →
    current r.2 = some start ∧ .gone start ∉ r.2
  /-- The failures since its last successful ping, this one included, reach its threshold. -/
  gone_streak : ∀ start closure, .gone start ∈ (perform r.1 op).2 → r.1.closures[start]? = some closure →
    closure.threshold.above (streak start (step r op).2) = false
  /-- Its process is not alive. -/
  gone_dead : ∀ start closure pid, .gone start ∈ (perform r.1 op).2 → r.1.closures[start]? = some closure →
    closure.opts.pid = some pid → closure.opts.pidAlive = true → op.alive pid = false
  /-- An event of another start leaves the current one running. -/
  quiet : ∀ start, op.owner r.1 = some start → current r.2 ≠ some start →
    (perform r.1 op).1.stopped = r.1.stopped ∧ (perform r.1 op).1.timer = r.1.timer
      ∧ (perform r.1 op).1.intervals = r.1.intervals ∧ .halted ∉ (perform r.1 op).2

/-- One more failure reaches the threshold of the start, and its process is not known to be alive. -/
def Overdue (s : State) (start : ℕ) (alive : ℤ → Bool) : Prop :=
  ∃ closure, s.closures[start]? = some closure ∧
    closure.threshold.above (closure.consecutiveFailures + 1) = false ∧
    closure.opts.pid.any (fun pid ↦ closure.opts.pidAlive && alive pid) = false

/-- No ping of a stopped or replaced start is the failure that makes its server gone, unless the
keepalive is stopped when it settles. -/
def Owned (r : Run) : Op → Prop
  | .settle ping false alive => r.1.stopped = false → ∀ start, r.1.pings[ping]? = some start →
      Overdue r.1 start alive → r.1.timer = some start
  | _ => True

/-! ## The operations -/

section Operations

variable {s : State} {start : ℕ}

@[simp] theorem stopKeepalive_timer : (stopKeepalive s).timer = none := rfl

@[simp] theorem stopKeepalive_closures : (stopKeepalive s).closures = s.closures := rfl

@[simp] theorem stopKeepalive_pings : (stopKeepalive s).pings = s.pings := rfl

theorem stopKeepalive_intervals (h : s.intervals = s.timer.toList) : (stopKeepalive s).intervals = [] := by
  unfold stopKeepalive
  rcases htimer : s.timer with _ | start
  · simpa [htimer] using h
  · simp [htimer, h]

theorem ping_cases (s : State) (start : ℕ) : ping s start = (s, []) ∨
    start < s.closures.length ∧ ∃ port password graceSeconds,
      ping s start = ({ s with pings := s.pings ++ [start] }, [.pinged start port password graceSeconds]) := by
  unfold ping
  by_cases hstopped : s.stopped = true
  · exact .inl (if_pos hstopped)
  · rw [if_neg hstopped]
    rcases hclosure : s.closures[start]? with _ | closure
    · exact .inl rfl
    · obtain ⟨hlt, -⟩ := List.getElem?_eq_some_iff.mp hclosure
      exact .inr ⟨hlt, _, _, _, rfl⟩

/-- A start has a new closure, and the interval and the first ping are its own. -/
theorem startKeepalive_eq (s : State) (opts : KeepaliveOptions) :
    startKeepalive s opts = (
      { timer := some s.closures.length
        stopped := false
        intervals := (stopKeepalive s).intervals ++ [s.closures.length]
        closures := s.closures ++ [⟨opts, 0⟩]
        pings := s.pings ++ [s.closures.length] },
      [.halted, .started s.closures.length,
        .pinged s.closures.length opts.port opts.password opts.graceSeconds]) := by
  simp [startKeepalive, ping]

/-- After a failure that was counted: either the server is gone and the keepalive stops, or nothing happens. -/
theorem considerGone_failed (hstopped : s.stopped = false) (start : ℕ) (alive : ℤ → Bool) :
    let failed := { s with closures := s.closures.modify start Closure.failed }
    (Overdue s start alive ∧ considerGone failed start alive = (stopKeepalive failed, [.gone start, .halted])) ∨
    (¬ Overdue s start alive ∧ considerGone failed start alive = (failed, [])) := by
  rcases hclosure : s.closures[start]? with _ | closure
  · right
    exact ⟨by simp [Overdue, hclosure], by simp [considerGone, hclosure]⟩
  · by_cases habove : closure.threshold.above (closure.consecutiveFailures + 1) = false
    · by_cases hpid : closure.opts.pid.any (fun pid ↦ closure.opts.pidAlive && alive pid) = false
      · left
        refine ⟨⟨closure, hclosure, habove, hpid⟩, ?_⟩
        simp [considerGone, hclosure, hstopped, Closure.failed, Closure.threshold, hpid]
        simpa [Closure.threshold] using habove
      · right
        refine ⟨by simp [Overdue, hclosure, habove, hpid], ?_⟩
        rw [Bool.not_eq_false] at hpid
        simp [considerGone, hclosure, hstopped, Closure.failed, hpid]
    · right
      refine ⟨by simp [Overdue, hclosure, habove], ?_⟩
      rw [Bool.not_eq_false] at habove
      have habove' : (closure.failed).threshold.above (closure.failed).consecutiveFailures = true := habove
      simp [considerGone, hclosure, hstopped, habove']

end Operations

/-! ## The log -/

section Log

variable {log : List Event} {start : ℕ}

theorem current_append (log later : List Event) :
    current (log ++ later) = later.foldl (fun start event ↦ match event with
      | .started start => some start
      | .halted => none
      | _ => start) (current log) := foldl_append

theorem streak_append (log later : List Event) (start : ℕ) :
    streak start (log ++ later) = later.foldl (fun failures event ↦ match event with
      | .settled other ok => if other = start then (if ok then 0 else failures + 1) else failures
      | _ => failures) (streak start log) := foldl_append

theorem streak_eq_zero (h : ∀ ok, .settled start ok ∉ log) : streak start log = 0 := by
  induction log using List.reverseRecOn with
  | nil => rfl
  | append_singleton log event ih =>
    have hlog := ih fun ok hmem ↦ h ok (mem_append_left _ hmem)
    rw [streak_append, hlog]
    rcases event with _ | _ | _ | ⟨other, ok⟩ | _ <;> try rfl
    have hne : other ≠ start := by
      rintro rfl
      exact h ok (by simp)
    simp [hne]

end Log

/-! ## The invariant -/

/-- The module's variables are about the current start, and its closure counts its failures. -/
structure Coherent (r : Run) : Prop where
  timer : r.1.timer = current r.2
  intervals : r.1.intervals = r.1.timer.toList
  stopped : r.1.stopped = true → r.1.timer = none
  pings : ∀ start ∈ r.1.pings, start < r.1.closures.length
  settled : ∀ start ok, .settled start ok ∈ r.2 → start < r.1.closures.length
  failures : ∀ start closure, current r.2 = some start → r.1.closures[start]? = some closure →
    closure.consecutiveFailures = streak start r.2
  gone : ∀ start, .gone start ∈ r.2 → start < r.1.closures.length ∧ current r.2 ≠ some start

theorem coherent_init : Coherent (init, []) where
  timer := rfl
  intervals := rfl
  stopped := by simp [init]
  pings := by simp [init]
  settled := by simp
  failures := by simp [current]
  gone := by simp

section Preserved

variable {r : Run} {start : ℕ}

theorem Coherent.ping (h : Coherent r) (start : ℕ) :
    Coherent ((ping r.1 start).1, r.2 ++ (ping r.1 start).2) := by
  rcases ping_cases r.1 start with hping | ⟨hlt, port, password, graceSeconds, hping⟩
  · simpa [hping] using h
  · rw [hping]
    refine ⟨?_, h.intervals, h.stopped, ?_, ?_, ?_, ?_⟩
    · simpa [current_append] using h.timer
    · intro other hother
      rcases mem_append.mp hother with hother | hother
      · exact h.pings other hother
      · exact mem_singleton.mp hother ▸ hlt
    · intro other ok hmem
      exact h.settled other ok (by simpa using hmem)
    · intro other closure hcurrent hclosure
      rw [current_append] at hcurrent
      rw [streak_append]
      exact h.failures other closure hcurrent hclosure
    · intro other hmem
      rw [current_append]
      exact h.gone other (by simpa using hmem)

theorem Coherent.halt (h : Coherent r) (events : List Event)
    (hevents : ∀ event ∈ events, ∃ start < r.1.closures.length, event = .gone start) :
    Coherent (stopKeepalive r.1, r.2 ++ (events ++ [.halted])) := by
  have hcurrent : current (r.2 ++ (events ++ [.halted])) = none := by
    rw [current_append, foldl_append]
    rfl
  refine ⟨hcurrent.symm, stopKeepalive_intervals h.intervals, fun _ ↦ rfl, h.pings, ?_, ?_, ?_⟩
  · intro start ok hmem
    have hold : Event.settled start ok ∈ r.2 := by
      rcases mem_append.mp hmem with hmem | hmem
      · exact hmem
      · rcases mem_append.mp hmem with hmem | hmem
        · obtain ⟨other, -, heq⟩ := hevents _ hmem
          cases heq
        · simp at hmem
    exact h.settled start ok hold
  · intro start closure hsome
    rw [hcurrent] at hsome
    cases hsome
  · intro start hmem
    refine ⟨?_, by simp [hcurrent]⟩
    rcases mem_append.mp hmem with hmem | hmem
    · exact (h.gone start hmem).1
    · rcases mem_append.mp hmem with hmem | hmem
      · obtain ⟨other, hlt, heq⟩ := hevents _ hmem
        obtain rfl := Event.gone.inj heq
        exact hlt
      · simp at hmem

theorem Coherent.settle (h : Coherent r) (hlt : start < r.1.closures.length) (ping : ℕ) (ok : Bool)
    {f : Closure → Closure} (hf : r.1.stopped = false → ∀ closure, (f closure).consecutiveFailures
      = if ok then 0 else closure.consecutiveFailures + 1) :
    Coherent ({ r.1 with pings := r.1.pings.eraseIdx ping, closures := r.1.closures.modify start f },
      r.2 ++ [.settled start ok]) := by
  refine ⟨?_, h.intervals, h.stopped, ?_, ?_, ?_, ?_⟩
  · simpa [current_append] using h.timer
  · intro other hother
    simpa using h.pings other (mem_of_mem_eraseIdx hother)
  · intro other ok' hmem
    rcases mem_append.mp hmem with hmem | hmem
    · simpa using h.settled other ok' hmem
    · obtain ⟨rfl, -⟩ := Event.settled.inj (mem_singleton.mp hmem)
      simpa using hlt
  · intro other closure hcurrent hclosure
    have hcurrent' : current r.2 = some other := by simpa [current_append] using hcurrent
    rw [getElem?_modify] at hclosure
    obtain ⟨before, hbefore, rfl⟩ := Option.map_eq_some_iff.mp hclosure
    have hcount := h.failures other before hcurrent' hbefore
    rw [streak_append]
    by_cases hother : start = other
    · -- it is the current one's, so the keepalive is not stopped
      have hstopped : r.1.stopped = false := by
        rw [← Bool.not_eq_true]
        intro hstopped
        have hnone := h.stopped hstopped
        rw [h.timer, hcurrent'] at hnone
        cases hnone
      simp [hother, hf hstopped, hcount]
    · simp [hother, hcount]
  · intro other hmem
    rw [current_append]
    simpa using h.gone other (by simpa using hmem)

end Preserved

theorem settle_cases {s : State} {ping start : ℕ} (hping : s.pings[ping]? = some start) (ok : Bool)
    (alive : ℤ → Bool) :
    (∃ f : Closure → Closure, (s.stopped = false → ∀ closure, (f closure).consecutiveFailures
        = if ok then 0 else closure.consecutiveFailures + 1) ∧
      (ok = false → s.stopped = false → ¬ Overdue s start alive) ∧
      settle s ping ok alive = ({ s with
        pings := s.pings.eraseIdx ping
        closures := s.closures.modify start f }, [.settled start ok])) ∨
    ok = false ∧ s.stopped = false ∧ Overdue s start alive ∧
      settle s ping ok alive = (stopKeepalive { s with
        pings := s.pings.eraseIdx ping
        closures := s.closures.modify start Closure.failed }, [.settled start ok, .gone start, .halted]) := by
  by_cases hstopped : s.stopped = true
  · left
    refine ⟨id, by simp [hstopped], by simp [hstopped], ?_⟩
    simp [settle, hping, hstopped, modify_id]
  · rw [Bool.not_eq_true] at hstopped
    rcases ok with _ | _
    · have hgone := considerGone_failed (s := { s with pings := s.pings.eraseIdx ping }) hstopped start alive
      have hsettle : settle s ping false alive =
          ((considerGone { s with
              pings := s.pings.eraseIdx ping
              closures := s.closures.modify start Closure.failed } start alive).1,
            .settled start false :: (considerGone { s with
              pings := s.pings.eraseIdx ping
              closures := s.closures.modify start Closure.failed } start alive).2) := by
        simp [settle, hping, hstopped]
      rcases hgone with ⟨hoverdue, hgone⟩ | ⟨hoverdue, hgone⟩
      · right
        exact ⟨rfl, hstopped, hoverdue, by rw [hsettle, hgone]⟩
      · left
        exact ⟨Closure.failed, by simp [Closure.failed], fun _ _ ↦ hoverdue, by rw [hsettle, hgone]⟩
    · left
      refine ⟨Closure.answered, by simp [Closure.answered], by simp, ?_⟩
      simp [settle, hping, hstopped]

theorem coherent_step {r : Run} (h : Coherent r) (op : Op) : Coherent (step r op) := by
  rcases op with opts | _ | start | ⟨ping, ok, alive⟩
  · -- the old start is stopped, and the new one has nothing in the log yet
    have hhalt := h.halt [] (by simp)
    have hnew : current (step r (.startKeepalive opts)).2 = some r.1.closures.length := by
      simp [step, logged, perform, startKeepalive_eq, current_append]
    have hfresh : ∀ ok, Event.settled r.1.closures.length ok ∉ (step r (.startKeepalive opts)).2 := by
      intro ok hmem
      have hold := h.settled r.1.closures.length ok (by
        simpa [step, logged, perform, startKeepalive_eq] using hmem)
      omega
    refine ⟨?_, ?_, ?_, ?_, ?_, ?_, ?_⟩
    · rw [hnew]
      simp [step, logged, perform, startKeepalive_eq]
    · simpa [step, logged, perform, startKeepalive_eq] using hhalt.intervals
    · simp [step, logged, perform, startKeepalive_eq]
    · intro start hstart
      have hstart' : start ∈ r.1.pings ∨ start = r.1.closures.length := by
        simpa [step, logged, perform, startKeepalive_eq] using hstart
      have hlt : start < r.1.closures.length + 1 := by
        rcases hstart' with hstart' | rfl
        · have := h.pings start hstart'
          omega
        · omega
      simpa [step, logged, perform, startKeepalive_eq] using hlt
    · intro start ok hmem
      have hold := h.settled start ok (by simpa [step, logged, perform, startKeepalive_eq] using hmem)
      have hlt : start < r.1.closures.length + 1 := by omega
      simpa [step, logged, perform, startKeepalive_eq] using hlt
    · intro start closure hcurrent hclosure
      rw [hnew] at hcurrent
      obtain rfl := Option.some.inj hcurrent
      have heq : (⟨opts, 0⟩ : Closure) = closure := by
        simpa [step, logged, perform, startKeepalive_eq] using hclosure
      rw [streak_eq_zero hfresh, ← heq]
    · intro start hmem
      have hold := (h.gone start (by simpa [step, logged, perform, startKeepalive_eq] using hmem)).1
      have hlt : start < r.1.closures.length + 1 := by omega
      refine ⟨by simpa [step, logged, perform, startKeepalive_eq] using hlt, ?_⟩
      rw [hnew]
      intro heq
      have := Option.some.inj heq
      omega
  · exact h.halt [] (by simp)
  · by_cases hmem : start ∈ r.1.intervals
    · simpa [step, logged, perform, hmem] using h.ping start
    · simpa [step, logged, perform, hmem] using h
  · rcases hping : r.1.pings[ping]? with _ | start
    · simpa [step, logged, perform, settle, hping] using h
    · have hlt := h.pings start (mem_of_getElem? hping)
      rcases settle_cases hping ok alive with ⟨f, hf, -, hsettle⟩ | ⟨rfl, -, -, hsettle⟩
      · simpa [step, logged, perform, hsettle] using h.settle hlt ping ok hf
      · have hcounted := h.settle hlt ping false (f := Closure.failed) (by simp [Closure.failed])
        simpa [step, logged, perform, hsettle] using hcounted.halt [.gone start] (by simpa using hlt)

/-! ## Isolated generations -/

theorem gone_mem_perform_iff {s : State} {op : Op} {start : ℕ} : .gone start ∈ (perform s op).2 ↔
    s.stopped = false ∧ ∃ ping alive, op = .settle ping false alive ∧ s.pings[ping]? = some start ∧
      Overdue s start alive := by
  constructor
  · intro hmem
    rcases op with opts | _ | other | ⟨ping, ok, alive⟩
    · simp [perform, startKeepalive_eq] at hmem
    · simp [perform] at hmem
    · by_cases hother : other ∈ s.intervals
      · rcases ping_cases s other with hping | ⟨-, port, password, graceSeconds, hping⟩ <;>
          simp [perform, hother, hping] at hmem
      · simp [perform, hother] at hmem
    · rcases hping : s.pings[ping]? with _ | other
      · simp [perform, settle, hping] at hmem
      · rcases settle_cases hping ok alive with ⟨f, -, -, hsettle⟩ | ⟨rfl, hstopped, hoverdue, hsettle⟩
        · simp [perform, hsettle] at hmem
        · have heq : start = other := by simpa [perform, hsettle] using hmem
          exact ⟨hstopped, ping, alive, rfl, by rw [heq, hping], heq ▸ hoverdue⟩
  · rintro ⟨hstopped, ping, alive, rfl, hping, hoverdue⟩
    rcases settle_cases hping false alive with ⟨f, -, hnot, -⟩ | ⟨-, -, -, hsettle⟩
    · exact absurd hoverdue (hnot rfl hstopped)
    · simp [perform, hsettle]

/-- What is not the end of its server changes neither of the module's variables. -/
theorem perform_quiet {s : State} {op : Op} {start : ℕ} (howner : op.owner s = some start)
    (hgone : .gone start ∉ (perform s op).2) :
    (perform s op).1.stopped = s.stopped ∧ (perform s op).1.timer = s.timer
      ∧ (perform s op).1.intervals = s.intervals ∧ .halted ∉ (perform s op).2 := by
  rcases op with opts | _ | other | ⟨ping, ok, alive⟩
  · cases howner
  · cases howner
  · by_cases hother : other ∈ s.intervals
    · rcases ping_cases s other with hping | ⟨-, port, password, graceSeconds, hping⟩ <;>
        simp [perform, hother, hping]
    · simp [perform, hother]
  · have hping : s.pings[ping]? = some start := howner
    rcases settle_cases hping ok alive with ⟨f, -, -, hsettle⟩ | ⟨rfl, -, -, hsettle⟩
    · simp [perform, hsettle]
    · exact absurd (by simp [perform, hsettle]) hgone

theorem isolated_iff_owned {r : Run} (h : Coherent r) (op : Op) : Isolated r op ↔ Owned r op := by
  constructor
  · intro hisolated
    rcases op with _ | _ | _ | ⟨ping, ok, alive⟩ <;> try trivial
    rcases ok with _ | _
    · intro hstopped start hping hoverdue
      have hmem := gone_mem_perform_iff.mpr ⟨hstopped, ping, alive, rfl, hping, hoverdue⟩
      rw [h.timer]
      exact (hisolated.gone_current start hmem).1
    · trivial
  · intro howned
    have hcurrent : ∀ start, .gone start ∈ (perform r.1 op).2 → current r.2 = some start := by
      intro start hmem
      obtain ⟨hstopped, ping, alive, rfl, hping, hoverdue⟩ := gone_mem_perform_iff.mp hmem
      rw [← h.timer]
      exact howned hstopped start hping hoverdue
    refine ⟨fun start hmem ↦ ⟨hcurrent start hmem, fun hold ↦ ?_⟩, ?_, ?_, ?_⟩
    · exact (h.gone start hold).2 (hcurrent start hmem)
    · intro start closure hmem hclosure
      have hstart := hcurrent start hmem
      obtain ⟨hstopped, ping, alive, rfl, hping, hoverdue⟩ := gone_mem_perform_iff.mp hmem
      obtain ⟨closure', hclosure', habove, -⟩ := hoverdue
      rw [hclosure] at hclosure'
      obtain rfl := Option.some.inj hclosure'
      -- the log counts the failure that has just settled
      have hstreak : streak start (step r (.settle ping false alive)).2 = streak start r.2 + 1 := by
        rcases settle_cases hping false alive with ⟨f, -, -, hsettle⟩ | ⟨-, -, -, hsettle⟩ <;>
          simp [step, logged, perform, hsettle, streak_append]
      rw [hstreak, ← h.failures start closure hstart hclosure]
      exact habove
    · intro start closure pid hmem hclosure hpid halive
      obtain ⟨hstopped, ping, alive, rfl, hping, hoverdue⟩ := gone_mem_perform_iff.mp hmem
      obtain ⟨closure', hclosure', -, hdead⟩ := hoverdue
      rw [hclosure] at hclosure'
      obtain rfl := Option.some.inj hclosure'
      simpa [Op.alive, hpid, halive] using hdead
    · intro start howner hne
      exact perform_quiet howner fun hmem ↦ hne (hcurrent start hmem)

/-- **The generations of the keepalive are isolated exactly in the runs in which no ping of a stopped or
replaced start is the failure that makes its server gone while a later start is running.** -/
theorem isolated_iff (ops : List Op) :
    Guarded step Isolated (init, []) ops ↔ Guarded step Owned (init, []) ops :=
  guarded_iff_of_invariant (I := Coherent) (fun _ op h ↦ isolated_iff_owned h op)
    (fun _ op h _ ↦ coherent_step h op) coherent_init

/-- A start with one ping in flight is replaced, the ping fails with its process dead, and the keepalive
that replaced it is stopped. -/
theorem not_isolated_replaced : ¬ ∀ ops : List Op, Guarded step Isolated (init, []) ops := by
  intro h
  let opts (port : ℕ) (pid : ℤ) : KeepaliveOptions := ⟨port, "pw", .finite 30, some pid, some (.finite 1), true⟩
  have hrun := h [.startKeepalive (opts 43117 7), .startKeepalive (opts 43118 8), .settle 0 false fun _ ↦ false]
  have hlast := hrun.2.2.1.gone_current 0 (by decide +kernel)
  exact absurd hlast.1 (by decide +kernel)

end Amicode.Keepalive
