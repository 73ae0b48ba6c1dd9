import Amicode.Foundation.InsertionMap
import Amicode.Foundation.StepMachine
import Mathlib.Data.List.Sort

/-!
# The re-seed scheduler

The app re-seeds the status of the sessions it shows from the fleet (`fleet-reseed-scheduler.ts`): when its event
stream connects or has a gap, when a session is newly pinned, at a fixed interval, and, while a pinned session is
unknown, a few times again for each trigger. One read is in flight at a time; what is requested meanwhile is pending,
and runs when the read has settled.

A run of the scheduler is a list of operations: the app's calls, timers that fire, in any order, and reads that
settle. What the app shows at the time is part of the operation. Timers are handles, and a timer that is overwritten
without being cleared still fires.

The request that is pending is meant to be the strongest of those that arrived during the flight (`ReseedLaw`): an
edge before a pin, and a pin, which renews the budget of retries, before a tick or a retry. The code keeps an edge,
and otherwise the last request. So the law holds as long as no tick and no retry arrives while a pin is pending
(`reseedLaw_run_iff`).
-/

namespace Amicode.Reseed

open StepMachine List

/-- Consecutive re-seeds before a diagnostic. -/
def FLEET_FAILURE_STREAK : ℕ := 3

def FLEET_UNKNOWN_RETRY_MAX : ℕ := 3

/-! ## State -/

inductive RunKind where
  | edge
  | tick
  | pin
  | retry
deriving DecidableEq

/-- A fresh trigger, which renews the budget of retries. -/
def RunKind.rearms : RunKind → Bool
  | edge | pin => true
  | tick | retry => false

/-- An edge outranks the others, for it may need the local re-seed; a pin renews the budget. -/
def RunKind.strength : RunKind → ℕ
  | edge => 2
  | pin => 1
  | tick | retry => 0

inductive TimerRole where
  | tick
  | debounce
  | retry
deriving DecidableEq

/-- A read that has not settled. -/
structure Flight where
  ids : List String
  kind : RunKind
deriving DecidableEq

/-- What the app shows, when it is asked. -/
structure View where
  pinnedIds : List String
  viewedId : Option String
  connected : Bool
  visible : Bool

structure Scheduler where
  stopped : Bool := false
  inFlight : Bool := false
  pending : Option RunKind := none
  notServed : Bool := false
  tickTimer : Option ℕ := none
  debounceTimer : Option ℕ := none
  retryTimer : Option ℕ := none
  retriesLeft : ℕ := 0
  allOmittedStreak : ℕ := 0
  partialStreak : InsertionMap String ℕ := ∅
  lastReseeded : InsertionMap String ℕ := ∅
  reseedSeq : ℕ := 0
  armed : List (ℕ × TimerRole) := []
  nextTimer : ℕ := 0
  /-- The reads that have been issued and have not settled. -/
  flights : List Flight := []

inductive RunResult where
  /-- A read of these sessions. -/
  | read (ids : List String)
  /-- The local re-seed, with nothing pinned. -/
  | localReseed
  /-- Nothing is shown, and there is nothing to do. -/
  | skipped
deriving DecidableEq

inductive SchedulerEvent where
  /-- A request while a read is in flight. -/
  | requested (kind : RunKind)
  | ran (kind : RunKind) (result : RunResult)
  /-- The budget of retries is renewed. -/
  | rearmed
  /-- An attempt has failed, and is to be made again. -/
  | retryArmed
  | reported (key message : String)
  | stopped
deriving DecidableEq

/-! ## Outcomes of a read -/

structure DirectoryReport where
  ok : Bool
  reason : Option String
  detail : Option String

/-- The answer to a read: who has a status, who is unresolved and why, and how each directory fared. -/
structure FleetResult where
  statuses : List String
  unresolved : List (String × String)
  sources : List (String × List (String × DirectoryReport))

inductive FleetReseedOutcome where
  | applied (result : FleetResult)
  | fallback (cause : String)
  | cancelled

/-! ## Timers -/

def Scheduler.clearTimeout (s : Scheduler) (handle : Option ℕ) : Scheduler :=
  { s with armed := s.armed.filter fun t ↦ some t.1 ≠ handle }

def Scheduler.setTimeout (s : Scheduler) (role : TimerRole) : Scheduler :=
  { s with armed := s.armed ++ [(s.nextTimer, role)], nextTimer := s.nextTimer + 1 }

def Scheduler.armTick (s : Scheduler) : Scheduler :=
  { s.setTimeout .tick with tickTimer := some s.nextTimer }

/-! ## Runs of a re-seed -/

/-- When a session last had a status; never is before all others. -/
def Scheduler.lastSeen (s : Scheduler) (id : String) : ℤ := (s.lastReseeded.get? id).elim (-1) Nat.cast

/-- The pinned sessions: the viewed one, then by when they last had a status. -/
def Scheduler.orderedIds (s : Scheduler) (view : View) : List String :=
  let pins := view.pinnedIds.eraseDups
  let rest := (pins.filter fun id ↦ some id ≠ view.viewedId).insertionSort fun a b ↦ s.lastSeen a ≤ s.lastSeen b
  match view.viewedId with
  | some viewed => if viewed ∈ pins then viewed :: rest else rest
  | none => rest

/-- `run`, to where it waits. -/
def Scheduler.run (s : Scheduler) (view : View) (kind : RunKind) : Scheduler × List SchedulerEvent :=
  let ids := s.orderedIds view
  if ids = [] then (s, [.ran kind (if kind = .edge then .localReseed else .skipped)])
  else ({ s with inFlight := true, flights := s.flights ++ [⟨ids, kind⟩] }, [.ran kind (.read ids)])

def Scheduler.request (s : Scheduler) (view : View) (kind : RunKind) : Scheduler × List SchedulerEvent :=
  if s.stopped then (s, [])
  else if s.inFlight then
    ({ s with pending := some (if s.pending = some .edge ∨ kind = .edge then .edge else kind) }, [.requested kind])
  else s.run view kind

/-! ## Bookkeeping of a settled read -/

/-- The failure of a directory, counted and, from the third on, reported. -/
def failDirectory (streaks : InsertionMap String ℕ × List SchedulerEvent) (machine dir : String)
    (d : DirectoryReport) : InsertionMap String ℕ × List SchedulerEvent :=
  let key := machine ++ "\x00" ++ dir
  let n := (streaks.1.get? key).getD 0 + 1
  let reason := d.reason.getD "failed"
  let detail := match d.detail with
    | some text => if text = "" then "" else s!" ({text})"
    | none => ""
  (streaks.1.set key n, if FLEET_FAILURE_STREAK ≤ n then
    streaks.2 ++ [.reported s!"partial-failure {machine} {dir}"
      s!"{machine} {dir}: {reason}{detail} for {toString n} consecutive re-seeds"]
    else streaks.2)

def failing (result : FleetResult) : List (String × String × DirectoryReport) :=
  result.sources.flatMap fun (machine, directories) ↦
    (directories.filter fun e ↦ !e.2.ok).map fun e ↦ (machine, e.1, e.2)

/-- The bookkeeping of an answer: which sessions had a status, and which failures persist. -/
def Scheduler.account (s : Scheduler) (ids : List String) (result : FleetResult) : Scheduler × List SchedulerEvent :=
  let covered := ids.filter fun id ↦ result.statuses.contains id
  let seen := covered.foldl (fun (seen : InsertionMap String ℕ × ℕ) id ↦ (seen.1.set id (seen.2 + 1), seen.2 + 1))
    (s.lastReseeded, s.reseedSeq)
  let streak := if covered = [] then s.allOmittedStreak + 1 else 0
  let omitted : List SchedulerEvent := if FLEET_FAILURE_STREAK ≤ streak then
    [.reported "all-omitted" (s!"{toString streak} consecutive re-seeds covered none of the " ++
      s!"{toString ids.length} pinned session(s)")] else []
  let failures := failing result
  let streaks := failures.foldl (fun streaks f ↦ failDirectory streaks f.1 f.2.1 f.2.2) (s.partialStreak, [])
  let kept := streaks.1.filterKeys fun key ↦ failures.any fun f ↦ f.1 ++ "\x00" ++ f.2.1 = key
  ({ s with lastReseeded := seen.1, reseedSeq := seen.2, allOmittedStreak := streak, partialStreak := kept },
    omitted ++ streaks.2)

/-- Renew the budget of retries, and take back the retry that waits. -/
def Scheduler.rearm (s : Scheduler) (unknownRetryMax : ℕ) : Scheduler :=
  { s.clearTimeout s.retryTimer with retryTimer := none, retriesLeft := unknownRetryMax }

/-- A retry while a pinned session is unknown and the budget has one left. -/
def Scheduler.retry (s : Scheduler) (ids : List String) (result : FleetResult) : Scheduler × List SchedulerEvent :=
  if (result.unresolved.any fun u ↦ u.2 = "unknown" && ids.contains u.1) && 0 < s.retriesLeft then
    ({ s.setTimeout .retry with retryTimer := some s.nextTimer, retriesLeft := s.retriesLeft - 1 }, [.retryArmed])
  else (s, [])

def Scheduler.observe (unknownRetryMax : ℕ) (s : Scheduler) (ids : List String) (outcome : FleetReseedOutcome)
    (kind : RunKind) : Scheduler × List SchedulerEvent :=
  let fresh := if kind.rearms then (s.rearm unknownRetryMax, [SchedulerEvent.rearmed]) else (s, [])
  match outcome with
  | .fallback cause =>
    (if cause = "not-served" then { fresh.1 with notServed := true } else fresh.1, fresh.2)
  | .cancelled => fresh
  | .applied result =>
    let accounted := ({ fresh.1 with notServed := false }).account ids result
    let retried := accounted.1.retry ids result
    (retried.1, fresh.2 ++ accounted.2 ++ retried.2)

/-- A read settles: what is pending runs. A read that throws is a fallback for the network. -/
def Scheduler.settle (unknownRetryMax : ℕ) (s : Scheduler) (i : ℕ) (flight : Flight) (outcome : FleetReseedOutcome)
    (view : View) : Scheduler × List SchedulerEvent :=
  let s := { s with inFlight := false, flights := s.flights.eraseIdx i }
  if s.stopped then (s, [])
  else
    let observed := s.observe unknownRetryMax flight.ids outcome flight.kind
    match observed.1.pending with
    | none => observed
    | some next =>
      let followed := ({ observed.1 with pending := none }).request view next
      (followed.1, observed.2 ++ followed.2)

/-! ## Operations -/

inductive SchedulerOp where
  | start
  | stop
  /-- A connected edge or a gap. -/
  | trigger (view : View)
  | notePinned
  | fires (handle : ℕ) (view : View)
  /-- The read at this place among those in flight settles. -/
  | settled (i : ℕ) (outcome : FleetReseedOutcome) (view : View)

/-- What the app shows at an operation that asks. -/
def SchedulerOp.view : SchedulerOp → View
  | trigger view | fires _ view | settled _ _ view => view
  | start | stop | notePinned => ⟨[], none, false, false⟩

def Scheduler.callback (s : Scheduler) (role : TimerRole) (view : View) : Scheduler × Option RunKind :=
  match role with
  | .tick =>
    let s := { s with tickTimer := none }
    if s.stopped then (s, none)
    else
      let idle := s.notServed || !view.connected || !view.visible || view.pinnedIds.isEmpty
      (s.armTick, if idle then none else some .tick)
  | .debounce =>
    ({ s with debounceTimer := none }, if s.notServed || !view.connected then none else some .pin)
  | .retry => ({ s with retryTimer := none }, some .retry)

/-- What an operation does before its request, and the request. -/
def Scheduler.prepare (s : Scheduler) : SchedulerOp → Scheduler × Option RunKind
  | .start => (if s.stopped || s.tickTimer.isSome then s else s.armTick, none)
  | .stop =>
    ({ ((s.clearTimeout s.tickTimer).clearTimeout s.debounceTimer).clearTimeout s.retryTimer with
      stopped := true, pending := none, tickTimer := none, debounceTimer := none, retryTimer := none }, none)
  | .trigger _ => (s, some .edge)
  | .notePinned =>
    if s.stopped then (s, none)
    else
      let cleared := s.clearTimeout s.debounceTimer
      ({ cleared.setTimeout .debounce with debounceTimer := some s.nextTimer }, none)
  | .fires handle view =>
    match s.armed.find? fun t ↦ t.1 = handle with
    | none => (s, none)
    | some t => (s.clearTimeout (some handle)).callback t.2 view
  | .settled _ _ _ => (s, none)

/-- One operation, and what is observed of it. -/
def Scheduler.perform (unknownRetryMax : ℕ) (s : Scheduler) (op : SchedulerOp) : Scheduler × List SchedulerEvent :=
  match op with
  | .settled i outcome view =>
    match s.flights[i]? with
    | none => (s, [])
    | some flight => s.settle unknownRetryMax i flight outcome view
  | .stop => ((s.prepare op).1, [.stopped])
  | op =>
    match s.prepare op with
    | (s, none) => (s, [])
    | (s, some kind) => s.request op.view kind

/-- The scheduler and its log. -/
abbrev ReseedRun := Scheduler × List SchedulerEvent

def reseedStep (unknownRetryMax : ℕ) (r : ReseedRun) (op : SchedulerOp) : ReseedRun :=
  logged (fun s op ↦ (s.perform unknownRetryMax op).1) (fun s op ↦ (s.perform unknownRetryMax op).2) r op

/-- The scheduler as it is created. -/
def ReseedRun.start : ReseedRun := ({}, [])

/-! ## The law -/

/-- What an event leaves of the requests that wait for the flight to settle. -/
def SchedulerEvent.owedAfter (owed : List RunKind) : SchedulerEvent → List RunKind
  | requested kind => owed ++ [kind]
  | ran _ _ | stopped => []
  | rearmed | retryArmed | reported _ _ => owed

/-- The requests that have arrived during the flight. -/
def owed (log : List SchedulerEvent) : List RunKind := log.foldl SchedulerEvent.owedAfter []

/-- What an event adds to the retries of a trigger. -/
def SchedulerEvent.retriesAfter (n : ℕ) : SchedulerEvent → ℕ
  | rearmed => 0
  | retryArmed => n + 1
  | requested _ | ran _ _ | stopped | reported _ _ => n

/-- The failed attempts that are to be made again, since the last trigger that renewed the budget. -/
def retriesSince (log : List SchedulerEvent) : ℕ := log.foldl SchedulerEvent.retriesAfter 0

/-- What holds of every state. -/
structure ReseedLaw (unknownRetryMax : ℕ) (r : ReseedRun) : Prop where
  single : r.1.flights.length ≤ 1
  /-- A request that arrives during a flight is pending. -/
  coalesced : r.1.pending = none ↔ owed r.2 = []
  strongest : ∀ p ∈ r.1.pending, p ∈ owed r.2 ∧ ∀ kind ∈ owed r.2, kind.strength ≤ p.strength
  budget : retriesSince r.2 ≤ unknownRetryMax

/-- What holds of every step. -/
structure StepLaw (unknownRetryMax : ℕ) (r : ReseedRun) (op : SchedulerOp) : Prop where
  next : ReseedLaw unknownRetryMax (reseedStep unknownRetryMax r op)
  /-- When the read settles, what is pending runs: it reads, if anything is pinned. -/
  follows : ∀ i outcome view, op = .settled i outcome view → i < r.1.flights.length → ∀ p ∈ r.1.pending,
    ∃ result, .ran p result ∈ (r.1.perform unknownRetryMax op).2 ∧
      (view.pinnedIds ≠ [] → ∃ ids, result = .read ids)
  /-- The budget is renewed by a trigger that is fresh. -/
  rearmed_iff : ∀ i outcome view, op = .settled i outcome view → ∀ flight ∈ r.1.flights[i]?, r.1.stopped = false →
    (.rearmed ∈ (r.1.perform unknownRetryMax op).2 ↔ flight.kind.rearms = true)

/-- A tick or a retry is requested while a pin is pending. -/
def Downgrades (r : ReseedRun) (op : SchedulerOp) : Prop :=
  r.1.pending = some .pin ∧ ∃ kind ∈ (r.1.prepare op).2, kind.rearms = false

/-! ## What the parts of a step do -/

section Parts

variable {unknownRetryMax : ℕ} {s s' : Scheduler} {view : View} {kind : RunKind} {op : SchedulerOp}

/-- The two are the same but for timers and bookkeeping. -/
structure SameCore (s s' : Scheduler) : Prop where
  stopped : s'.stopped = s.stopped
  inFlight : s'.inFlight = s.inFlight
  pending : s'.pending = s.pending
  flights : s'.flights = s.flights
  retriesLeft : s'.retriesLeft = s.retriesLeft

theorem SameCore.refl (s : Scheduler) : SameCore s s := ⟨rfl, rfl, rfl, rfl, rfl⟩

theorem SameCore.trans {s'' : Scheduler} (h : SameCore s s') (h' : SameCore s' s'') : SameCore s s'' :=
  ⟨h'.stopped.trans h.stopped, h'.inFlight.trans h.inFlight, h'.pending.trans h.pending, h'.flights.trans h.flights,
    h'.retriesLeft.trans h.retriesLeft⟩

variable (s)

theorem sameCore_clearTimeout (handle : Option ℕ) : SameCore s (s.clearTimeout handle) :=
  ⟨rfl, rfl, rfl, rfl, rfl⟩

theorem sameCore_armTick : SameCore s s.armTick := ⟨rfl, rfl, rfl, rfl, rfl⟩

theorem sameCore_callback (role : TimerRole) (view : View) : SameCore s (s.callback role view).1 := by
  rcases role
  · rw [Scheduler.callback]
    split_ifs <;> exact ⟨rfl, rfl, rfl, rfl, rfl⟩
  · exact ⟨rfl, rfl, rfl, rfl, rfl⟩
  · exact ⟨rfl, rfl, rfl, rfl, rfl⟩

/-- Before its request an operation does nothing else, except to stop. -/
theorem sameCore_prepare (hstop : op ≠ .stop) : SameCore s (s.prepare op).1 := by
  rcases op with _ | _ | view | _ | ⟨handle, view⟩ | ⟨i, outcome, view⟩
  · rw [Scheduler.prepare]
    split_ifs
    · exact .refl s
    · exact sameCore_armTick s
  · exact absurd rfl hstop
  · exact .refl s
  · rw [Scheduler.prepare]
    split_ifs
    · exact .refl s
    · exact ⟨rfl, rfl, rfl, rfl, rfl⟩
  · rw [Scheduler.prepare]
    split
    · exact .refl s
    · exact (sameCore_clearTimeout s _).trans (sameCore_callback _ _ view)
  · exact .refl s

theorem orderedIds_ne_nil (h : view.pinnedIds ≠ []) : s.orderedIds view ≠ [] := by
  obtain ⟨id, hid⟩ := exists_mem_of_ne_nil _ h
  have hpin : id ∈ view.pinnedIds.eraseDups := mem_eraseDups.mpr hid
  have hrest : some id ≠ view.viewedId → id ∈ (view.pinnedIds.eraseDups.filter fun id ↦
      some id ≠ view.viewedId).insertionSort fun a b ↦ s.lastSeen a ≤ s.lastSeen b := by
    intro hother
    rw [mem_insertionSort, mem_filter]
    exact ⟨hpin, by simpa using hother⟩
  rw [Scheduler.orderedIds]
  rcases hviewed : view.viewedId with _ | viewed
  · rw [hviewed] at hrest
    exact ne_nil_of_mem (hrest nofun)
  · dsimp only
    split_ifs with hmem
    · exact cons_ne_nil _ _
    · rw [hviewed] at hrest
      refine ne_nil_of_mem (hrest ?_)
      rintro ⟨rfl⟩
      exact hmem hpin

theorem run_cases (view : View) (kind : RunKind) :
    (view.pinnedIds = [] ∧ ∃ result, s.run view kind = (s, [.ran kind result])) ∨ ∃ ids, s.run view kind
        = ({ s with inFlight := true, flights := s.flights ++ [⟨ids, kind⟩] }, [.ran kind (.read ids)]) := by
  by_cases hids : s.orderedIds view = []
  · refine .inl ⟨?_, _, if_pos hids⟩
    by_contra hpinned
    exact orderedIds_ne_nil s hpinned hids
  · exact .inr ⟨_, if_neg hids⟩

def SchedulerEvent.Reports (event : SchedulerEvent) : Prop := ∃ key message, event = reported key message

theorem reports_failDirectory {streaks : InsertionMap String ℕ × List SchedulerEvent}
    (h : ∀ event ∈ streaks.2, event.Reports) (machine dir : String) (d : DirectoryReport) :
    ∀ event ∈ (failDirectory streaks machine dir d).2, event.Reports := by
  intro event hevent
  unfold failDirectory at hevent
  dsimp only at hevent
  split_ifs at hevent
  · rcases mem_append.mp hevent with hevent | hevent
    · exact h event hevent
    · exact ⟨_, _, mem_singleton.mp hevent⟩
  · exact h event hevent

theorem reports_failures {streaks : InsertionMap String ℕ × List SchedulerEvent}
    (h : ∀ event ∈ streaks.2, event.Reports) (failures : List (String × String × DirectoryReport)) :
    ∀ event ∈ (failures.foldl (fun streaks f ↦ failDirectory streaks f.1 f.2.1 f.2.2) streaks).2,
      event.Reports := by
  induction failures generalizing streaks with
  | nil => exact h
  | cons f failures ih => exact ih (reports_failDirectory h f.1 f.2.1 f.2.2)

theorem account_spec (ids : List String) (result : FleetResult) :
    SameCore s (s.account ids result).1 ∧ ∀ event ∈ (s.account ids result).2, event.Reports := by
  refine ⟨⟨rfl, rfl, rfl, rfl, rfl⟩, fun event hevent ↦ ?_⟩
  unfold Scheduler.account at hevent
  rcases mem_append.mp hevent with hevent | hevent
  · split_ifs at hevent
    all_goals first
      | exact ⟨_, _, mem_singleton.mp hevent⟩
      | exact absurd hevent not_mem_nil
  · exact reports_failures (fun event hmem ↦ absurd hmem not_mem_nil) _ event hevent

variable {s}

theorem foldl_reports {events : List SchedulerEvent} (h : ∀ event ∈ events, event.Reports) (owed : List RunKind)
    (n : ℕ) : events.foldl SchedulerEvent.owedAfter owed = owed ∧ events.foldl SchedulerEvent.retriesAfter n = n := by
  induction events with
  | nil => exact ⟨rfl, rfl⟩
  | cons event events ih =>
    obtain ⟨key, message, rfl⟩ := h event mem_cons_self
    exact ih fun event hevent ↦ h event (mem_cons_of_mem _ hevent)

/-- What the bookkeeping of a settled read comes to. -/
structure Observed (unknownRetryMax : ℕ) (s : Scheduler) (kind : RunKind) (o : Scheduler × List SchedulerEvent) :
    Prop where
  stopped : o.1.stopped = s.stopped
  inFlight : o.1.inFlight = s.inFlight
  pending : o.1.pending = s.pending
  flights : o.1.flights = s.flights
  owed : ∀ owed, o.2.foldl SchedulerEvent.owedAfter owed = owed
  budget : ∀ n, n + s.retriesLeft ≤ unknownRetryMax →
    o.2.foldl SchedulerEvent.retriesAfter n + o.1.retriesLeft ≤ unknownRetryMax
  rearmed_iff : .rearmed ∈ o.2 ↔ kind.rearms = true

/-- The budget is renewed first, if the trigger is fresh. -/
theorem observed_fresh (unknownRetryMax : ℕ) (s : Scheduler) (kind : RunKind) :
    Observed unknownRetryMax s kind
      (if kind.rearms then (s.rearm unknownRetryMax, [SchedulerEvent.rearmed]) else (s, [])) := by
  split_ifs with hrearms
  · exact ⟨rfl, rfl, rfl, rfl, fun _ ↦ rfl, fun n _ ↦ Nat.le_of_eq (Nat.zero_add _), by simp [hrearms]⟩
  · exact ⟨rfl, rfl, rfl, rfl, fun _ ↦ rfl, fun n h ↦ h, by simp [hrearms]⟩

theorem Observed.reports {o : Scheduler × List SchedulerEvent} (h : Observed unknownRetryMax s kind o)
    (hcore : SameCore o.1 s') {events : List SchedulerEvent} (hevents : ∀ event ∈ events, event.Reports) :
    Observed unknownRetryMax s kind (s', o.2 ++ events) where
  stopped := hcore.stopped.trans h.stopped
  inFlight := hcore.inFlight.trans h.inFlight
  pending := hcore.pending.trans h.pending
  flights := hcore.flights.trans h.flights
  owed owed := by
    rw [foldl_append, h.owed]
    exact (foldl_reports hevents owed 0).1
  budget n hn := by
    rw [foldl_append, (foldl_reports hevents [] _).2, hcore.retriesLeft]
    exact h.budget n hn
  rearmed_iff := by
    rw [mem_append, ← h.rearmed_iff, or_iff_left]
    intro hmem
    obtain ⟨key, message, hreported⟩ := hevents _ hmem
    exact SchedulerEvent.noConfusion hreported

theorem Observed.retry {o : Scheduler × List SchedulerEvent} (h : Observed unknownRetryMax s kind o)
    (ids : List String) (result : FleetResult) :
    Observed unknownRetryMax s kind ((o.1.retry ids result).1, o.2 ++ (o.1.retry ids result).2) := by
  rw [Scheduler.retry]
  split_ifs with hretry
  · have hleft : 0 < o.1.retriesLeft := by simpa using (Bool.and_eq_true_iff.mp hretry).2
    refine ⟨h.stopped, h.inFlight, h.pending, h.flights, fun owed ↦ ?_, fun n hn ↦ ?_, ?_⟩
    · rw [foldl_append, h.owed]
      rfl
    · have hbudget := h.budget n hn
      rw [foldl_append]
      show o.2.foldl SchedulerEvent.retriesAfter n + 1 + (o.1.retriesLeft - 1) ≤ unknownRetryMax
      omega
    · rw [mem_append, ← h.rearmed_iff, or_iff_left (by simp)]
  · rw [append_nil]
    exact h

theorem observed_observe (unknownRetryMax : ℕ) (s : Scheduler) (ids : List String) (outcome : FleetReseedOutcome)
    (kind : RunKind) : Observed unknownRetryMax s kind (s.observe unknownRetryMax ids outcome kind) := by
  have hfresh := observed_fresh unknownRetryMax s kind
  unfold Scheduler.observe
  generalize (if kind.rearms = true then (s.rearm unknownRetryMax, [SchedulerEvent.rearmed]) else (s, [])) = fresh
    at hfresh ⊢
  -- whether the machine serves the read is no part of what is observed
  have hserved : ∀ notServed, Observed unknownRetryMax s kind ({ fresh.1 with notServed }, fresh.2) := fun notServed ↦
    ⟨hfresh.stopped, hfresh.inFlight, hfresh.pending, hfresh.flights, hfresh.owed, hfresh.budget,
      hfresh.rearmed_iff⟩
  rcases outcome with result | cause | _
  · obtain ⟨hcore, hreports⟩ := account_spec { fresh.1 with notServed := false } ids result
    exact ((hserved false).reports hcore hreports).retry ids result
  · dsimp only
    split_ifs
    · exact hserved true
    · exact hfresh
  · exact hfresh

end Parts

/-! ## Every step -/

section Steps

variable {unknownRetryMax : ℕ} {r : ReseedRun}

theorem owed_append (log later : List SchedulerEvent) :
    owed (log ++ later) = later.foldl SchedulerEvent.owedAfter (owed log) := foldl_append

theorem retriesSince_append (log later : List SchedulerEvent) :
    retriesSince (log ++ later) = later.foldl SchedulerEvent.retriesAfter (retriesSince log) := foldl_append

/-- What holds of every state, whatever was requested. -/
structure Sound (unknownRetryMax : ℕ) (r : ReseedRun) : Prop where
  flights : if r.1.inFlight then r.1.flights.length = 1 else r.1.flights = []
  /-- Only a scheduler that runs has a request pending, and only during a flight. -/
  pending : ∀ p ∈ r.1.pending, r.1.inFlight = true ∧ r.1.stopped = false ∧ p ∈ owed r.2
  unowed : r.1.pending = none → owed r.2 = []
  edge : .edge ∈ owed r.2 → r.1.pending = some .edge
  budget : retriesSince r.2 + r.1.retriesLeft ≤ unknownRetryMax

variable {log : List SchedulerEvent}

theorem Sound.of_core {s s' : Scheduler} (h : Sound unknownRetryMax (s, log))
    (hcore : SameCore s s') : Sound unknownRetryMax (s', log) where
  flights := by
    rw [hcore.inFlight, hcore.flights]
    exact h.flights
  pending p hp := by
    rw [hcore.inFlight, hcore.stopped]
    exact h.pending p (hcore.pending ▸ hp)
  unowed hp := h.unowed (hcore.pending ▸ hp)
  edge hedge := hcore.pending.trans (h.edge hedge)
  budget := by
    rw [hcore.retriesLeft]
    exact h.budget

variable {s : Scheduler} (view : View) (kind : RunKind)

theorem Sound.of_run (hflights : s.flights = []) (hinFlight : s.inFlight = false) (hpending : s.pending = none)
    (hbudget : retriesSince log + s.retriesLeft ≤ unknownRetryMax) :
    Sound unknownRetryMax ((s.run view kind).1, log ++ (s.run view kind).2) := by
  rcases run_cases s view kind with ⟨-, result, hrun⟩ | ⟨ids, hrun⟩
  · have howed : owed (log ++ [.ran kind result]) = [] := by rw [owed_append]; rfl
    have hsince : retriesSince (log ++ [.ran kind result]) = retriesSince log := by rw [retriesSince_append]; rfl
    rw [hrun]
    refine ⟨?_, fun p hp ↦ ?_, fun _ ↦ howed, fun hedge ↦ ?_, ?_⟩
    · rw [hinFlight]
      exact hflights
    · exact absurd (hpending.symm.trans hp) nofun
    · rw [howed] at hedge
      exact absurd hedge not_mem_nil
    · rw [hsince]
      exact hbudget
  · have howed : owed (log ++ [.ran kind (.read ids)]) = [] := by rw [owed_append]; rfl
    have hsince : retriesSince (log ++ [.ran kind (.read ids)]) = retriesSince log := by
      rw [retriesSince_append]
      rfl
    rw [hrun]
    refine ⟨?_, fun p hp ↦ ?_, fun _ ↦ howed, fun hedge ↦ ?_, ?_⟩
    · rw [hflights]
      rfl
    · exact absurd (hpending.symm.trans hp) nofun
    · rw [howed] at hedge
      exact absurd hedge not_mem_nil
    · rw [hsince]
      exact hbudget

theorem Sound.idle (h : Sound unknownRetryMax (s, log))
    (hinFlight : s.inFlight = false) : s.flights = [] ∧ s.pending = none := by
  have hflights := h.flights
  rw [hinFlight] at hflights
  refine ⟨hflights, ?_⟩
  by_contra hpending
  obtain ⟨p, hp⟩ := Option.ne_none_iff_exists'.mp hpending
  exact absurd (hinFlight.symm.trans (h.pending p hp).1) Bool.false_ne_true

theorem request_stopped (hstopped : s.stopped = true) : s.request view kind = (s, []) := if_pos hstopped

theorem request_inFlight (hstopped : s.stopped = false) (hinFlight : s.inFlight = true) : s.request view kind =
      ({ s with pending := some (if s.pending = some .edge ∨ kind = .edge then .edge else kind) },
        [.requested kind]) := by
  rw [Scheduler.request, if_neg (Bool.eq_false_iff.mp hstopped), if_pos hinFlight]

theorem request_idle (hstopped : s.stopped = false)
    (hinFlight : s.inFlight = false) : s.request view kind = s.run view kind := by
  rw [Scheduler.request, if_neg (Bool.eq_false_iff.mp hstopped), if_neg (Bool.eq_false_iff.mp hinFlight)]

theorem Sound.request (h : Sound unknownRetryMax (s, log)) (view : View)
    (kind : RunKind) : Sound unknownRetryMax ((s.request view kind).1, log ++ (s.request view kind).2) := by
  rcases hstopped : s.stopped
  · rcases hinFlight : s.inFlight
    · obtain ⟨hflights, hpending⟩ := h.idle hinFlight
      rw [request_idle view kind hstopped hinFlight]
      exact .of_run view kind hflights hinFlight hpending h.budget
    · have howed : owed (log ++ [.requested kind]) = owed log ++ [kind] := by rw [owed_append]; rfl
      rw [request_inFlight view kind hstopped hinFlight]
      refine ⟨h.flights, fun p hp ↦ ⟨hinFlight, hstopped, ?_⟩, fun hp ↦ absurd hp nofun, fun hedge ↦ ?_, ?_⟩
      · obtain rfl := Option.some.inj hp
        rw [howed]
        split_ifs with hedge
        · rcases hedge with hpending | rfl
          · exact mem_append_left _ (h.pending _ hpending).2.2
          · exact mem_append_right _ (mem_singleton_self _)
        · exact mem_append_right _ (mem_singleton_self _)
      · rw [howed] at hedge
        refine congrArg some (if_pos ?_)
        rcases mem_append.mp hedge with hedge | hedge
        · exact .inl (h.edge hedge)
        · exact .inr (mem_singleton.mp hedge).symm
      · have hsince : retriesSince (log ++ [.requested kind]) = retriesSince log := by
          rw [retriesSince_append]
          rfl
        rw [hsince]
        exact h.budget
  · rw [request_stopped view kind hstopped, append_nil]
    exact h

theorem Sound.settles (h : Sound unknownRetryMax (s, log)) {i : ℕ}
    {flight : Flight} (hflight : s.flights[i]? = some flight) : s.inFlight = true ∧ s.flights.eraseIdx i = [] := by
  obtain ⟨hi, -⟩ := List.getElem?_eq_some_iff.mp hflight
  have hflights := h.flights
  rcases hinFlight : s.inFlight
  · rw [hinFlight] at hflights
    have hnone : s.flights = [] := hflights
    rw [hnone] at hi
    exact absurd hi (Nat.not_lt_zero i)
  · rw [hinFlight] at hflights
    have hone : s.flights.length = 1 := hflights
    refine ⟨rfl, eq_nil_of_length_eq_zero ?_⟩
    rw [length_eraseIdx_of_lt hi, hone]

/-- A settled read is accounted for, and then what is pending runs. -/
theorem settle_spec (unknownRetryMax : ℕ) (s : Scheduler) (i : ℕ) (flight : Flight)
    (outcome : FleetReseedOutcome) (view : View) (hstopped : s.stopped = false) :
    ∃ o, Observed unknownRetryMax { s with inFlight := false, flights := s.flights.eraseIdx i } flight.kind o ∧
      (s.pending = none → s.settle unknownRetryMax i flight outcome view = o) ∧
      ∀ p, s.pending = some p → s.settle unknownRetryMax i flight outcome view
        = (({ o.1 with pending := none }.run view p).1, o.2 ++ ({ o.1 with pending := none }.run view p).2) := by
  have hobserved := observed_observe unknownRetryMax { s with inFlight := false, flights := s.flights.eraseIdx i }
    flight.ids outcome flight.kind
  refine ⟨_, hobserved, fun hpending ↦ ?_, fun p hpending ↦ ?_⟩
  · have hnone := hobserved.pending.trans hpending
    unfold Scheduler.settle
    rw [if_neg (Bool.eq_false_iff.mp hstopped)]
    dsimp only
    rw [hnone]
  · have hsome := hobserved.pending.trans hpending
    have hrun := request_idle (s := { (Scheduler.observe unknownRetryMax
      { s with inFlight := false, flights := s.flights.eraseIdx i } flight.ids outcome flight.kind).1 with
        pending := none }) view p (hobserved.stopped.trans hstopped) hobserved.inFlight
    unfold Scheduler.settle
    rw [if_neg (Bool.eq_false_iff.mp hstopped)]
    dsimp only
    rw [hsome]
    dsimp only
    rw [hrun]

theorem Sound.settle (h : Sound unknownRetryMax (s, log)) {i : ℕ}
    {flight : Flight} (hflight : s.flights[i]? = some flight) (outcome : FleetReseedOutcome) (view : View) :
    Sound unknownRetryMax ((s.settle unknownRetryMax i flight outcome view).1,
        log ++ (s.settle unknownRetryMax i flight outcome view).2) ∧
      (s.settle unknownRetryMax i flight outcome view).1.pending = none := by
  obtain ⟨hinFlight, herased⟩ := h.settles hflight
  rcases hstopped : s.stopped
  · obtain ⟨o, hobserved, hidle, hfollow⟩ := settle_spec unknownRetryMax s i flight outcome view hstopped
    have hbudget : retriesSince (log ++ o.2) + o.1.retriesLeft ≤ unknownRetryMax := by
      rw [retriesSince_append]
      exact hobserved.budget _ h.budget
    rcases hpending : s.pending with _ | p
    · have howed : owed (log ++ o.2) = [] := by
        rw [owed_append, hobserved.owed]
        exact h.unowed hpending
      have hnone : o.1.pending = none := hobserved.pending.trans hpending
      rw [hidle hpending]
      refine ⟨⟨?_, fun p hp ↦ absurd (hnone.symm.trans hp) nofun, fun _ ↦ howed, fun hedge ↦ ?_, hbudget⟩, hnone⟩
      · rw [hobserved.inFlight]
        exact hobserved.flights.trans herased
      · rw [howed] at hedge
        exact absurd hedge not_mem_nil
    · rw [hfollow p hpending, ← append_assoc]
      refine ⟨.of_run view p (hobserved.flights.trans herased) hobserved.inFlight rfl hbudget, ?_⟩
      rcases run_cases { o.1 with pending := none } view p with ⟨-, result, hrun⟩ | ⟨ids, hrun⟩
      · rw [hrun]
      · rw [hrun]
  · have hsettle : s.settle unknownRetryMax i flight outcome view
        = ({ s with inFlight := false, flights := s.flights.eraseIdx i }, []) := if_pos hstopped
    have hpending : s.pending = none := by
      by_contra hsome
      obtain ⟨p, hp⟩ := Option.ne_none_iff_exists'.mp hsome
      exact absurd (hstopped.symm.trans (h.pending p hp).2.1) (by simp)
    rw [hsettle, append_nil]
    exact ⟨⟨herased, fun p hp ↦ absurd (hpending.symm.trans hp) nofun, h.unowed,
      fun hedge ↦ absurd (hpending.symm.trans (h.edge hedge)) nofun, h.budget⟩, hpending⟩

theorem Sound.stop (h : Sound unknownRetryMax (s, log)) :
    Sound unknownRetryMax ((s.prepare .stop).1, log ++ [.stopped]) := by
  have howed : owed (log ++ [.stopped]) = [] := by rw [owed_append]; rfl
  refine ⟨h.flights, fun p hp ↦ absurd hp nofun, fun _ ↦ howed, fun hedge ↦ ?_, ?_⟩
  · rw [howed] at hedge
    exact absurd hedge not_mem_nil
  · have hsince : retriesSince (log ++ [.stopped]) = retriesSince log := by rw [retriesSince_append]; rfl
    rw [hsince]
    exact h.budget

theorem perform_cases (unknownRetryMax : ℕ) (s : Scheduler) (op : SchedulerOp) :
    (∃ i outcome view, op = .settled i outcome view ∧ (s.prepare op).2 = none ∧
        ((s.flights[i]? = none ∧ s.perform unknownRetryMax op = (s, [])) ∨
          ∃ flight, s.flights[i]? = some flight ∧
            s.perform unknownRetryMax op = s.settle unknownRetryMax i flight outcome view)) ∨
      (op = .stop ∧ (s.prepare op).2 = none ∧ s.perform unknownRetryMax op = ((s.prepare .stop).1, [.stopped])) ∨
      SameCore s (s.prepare op).1 ∧
        (((s.prepare op).2 = none ∧ s.perform unknownRetryMax op = ((s.prepare op).1, [])) ∨
          ∃ kind, (s.prepare op).2 = some kind ∧
            s.perform unknownRetryMax op = (s.prepare op).1.request op.view kind) := by
  have hother : ∀ op : SchedulerOp, (s.perform unknownRetryMax op = match s.prepare op with
      | (s, none) => (s, [])
      | (s, some kind) => s.request op.view kind) →
      ((s.prepare op).2 = none ∧ s.perform unknownRetryMax op = ((s.prepare op).1, [])) ∨
        ∃ kind, (s.prepare op).2 = some kind ∧
          s.perform unknownRetryMax op = (s.prepare op).1.request op.view kind := by
    intro op hperform
    rw [hperform]
    rcases s.prepare op with ⟨s', _ | kind⟩
    · exact .inl ⟨rfl, rfl⟩
    · exact .inr ⟨kind, rfl, rfl⟩
  rcases op with _ | _ | view | _ | ⟨handle, view⟩ | ⟨i, outcome, view⟩
  · exact .inr (.inr ⟨sameCore_prepare s nofun, hother _ rfl⟩)
  · exact .inr (.inl ⟨rfl, rfl, rfl⟩)
  · exact .inr (.inr ⟨sameCore_prepare s nofun, hother _ rfl⟩)
  · exact .inr (.inr ⟨sameCore_prepare s nofun, hother _ rfl⟩)
  · exact .inr (.inr ⟨sameCore_prepare s nofun, hother _ rfl⟩)
  · refine .inl ⟨i, outcome, view, rfl, rfl, ?_⟩
    rcases hflight : s.flights[i]? with _ | flight
    · refine .inl ⟨rfl, ?_⟩
      rw [Scheduler.perform, hflight]
    · refine .inr ⟨flight, rfl, ?_⟩
      rw [Scheduler.perform, hflight]

theorem Sound.step (h : Sound unknownRetryMax r) (op : SchedulerOp) :
    Sound unknownRetryMax (reseedStep unknownRetryMax r op) := by
  obtain ⟨s, log⟩ := r
  show Sound unknownRetryMax ((s.perform unknownRetryMax op).1, log ++ (s.perform unknownRetryMax op).2)
  rcases perform_cases unknownRetryMax s op with
    ⟨i, outcome, view, rfl, -, ⟨-, hperform⟩ | ⟨flight, hflight, hperform⟩⟩ | ⟨rfl, -, hperform⟩ |
      ⟨hcore, ⟨-, hperform⟩ | ⟨kind, -, hperform⟩⟩
  · rw [hperform, append_nil]
    exact h
  · rw [hperform]
    exact (h.settle hflight outcome view).1
  · rw [hperform]
    exact h.stop
  · rw [hperform, append_nil]
    exact h.of_core hcore
  · rw [hperform]
    exact (h.of_core hcore).request op.view kind

end Steps

/-! ## What is pending is the strongest -/

section Strongest

variable {unknownRetryMax : ℕ} {r : ReseedRun} {s : Scheduler} {log : List SchedulerEvent}

/-- Nothing that has been requested is stronger than what is pending. -/
def Strongest (r : ReseedRun) : Prop :=
  ∀ p ∈ r.1.pending, ∀ kind ∈ owed r.2, kind.strength ≤ p.strength

theorem Strongest.of_none (h : r.1.pending = none) : Strongest r := fun _ hp ↦ absurd (h.symm.trans hp) nofun

/-- A request during a flight replaces what is pending by the stronger of the two, unless that is a pin and the
request is a tick or a retry. -/
theorem strongest_request_iff (h : Sound unknownRetryMax (s, log)) (hstrong : Strongest (s, log)) (view : View)
    (kind : RunKind) (hstopped : s.stopped = false) (hinFlight : s.inFlight = true) :
    Strongest ((s.request view kind).1, log ++ (s.request view kind).2) ↔
      ¬ (s.pending = some .pin ∧ kind.rearms = false) := by
  have howed : owed (log ++ [.requested kind]) = owed log ++ [kind] := by rw [owed_append]; rfl
  rw [request_inFlight view kind hstopped hinFlight]
  -- the law for the request that is pending now
  have hiff : Strongest ({ s with pending := some (if s.pending = some .edge ∨ kind = .edge then .edge else kind) },
      log ++ [.requested kind]) ↔ ∀ k ∈ owed log ++ [kind],
        k.strength ≤ (if s.pending = some .edge ∨ kind = .edge then RunKind.edge else kind).strength := by
    rw [← howed]
    exact ⟨fun hall ↦ hall _ rfl, fun hall p hp ↦ Option.some.inj hp ▸ hall⟩
  rw [hiff]
  rcases hpending : s.pending with _ | p
  · rw [h.unowed hpending]
    refine iff_of_true (fun k hk ↦ ?_) (fun hpin ↦ absurd hpin.1 nofun)
    rw [mem_singleton.mp hk]
    rcases kind <;> decide
  · have hold : ∀ k ∈ owed log, k.strength ≤ p.strength := hstrong p hpending
    have hp : p ∈ owed log := (h.pending p hpending).2.2
    rcases p with _ | _ | _ | _
    · -- an edge stays
      refine iff_of_true (fun k _ ↦ ?_) (fun hpin ↦ absurd hpin.1 nofun)
      rw [if_pos (.inl rfl)]
      rcases k <;> decide
    · refine iff_of_true (fun k hk ↦ ?_) (fun hpin ↦ absurd hpin.1 nofun)
      rcases mem_append.mp hk with hk | hk
      · exact (hold k hk).trans (Nat.zero_le _)
      · obtain rfl := mem_singleton.mp hk
        rcases k <;> decide
    · -- a pin is replaced by whatever comes
      rcases kind with _ | _ | _ | _
      · refine iff_of_true (fun k _ ↦ ?_) nofun
        rcases k <;> decide
      · exact iff_of_false (fun hall ↦ absurd (hall .pin (mem_append_left _ hp)) (by decide)) (by decide)
      · refine iff_of_true (fun k hk ↦ ?_) nofun
        rcases mem_append.mp hk with hk | hk
        · exact hold k hk
        · rw [mem_singleton.mp hk]
          decide
      · exact iff_of_false (fun hall ↦ absurd (hall .pin (mem_append_left _ hp)) (by decide)) (by decide)
    · refine iff_of_true (fun k hk ↦ ?_) (fun hpin ↦ absurd hpin.1 nofun)
      rcases mem_append.mp hk with hk | hk
      · exact (hold k hk).trans (Nat.zero_le _)
      · obtain rfl := mem_singleton.mp hk
        rcases k <;> decide

theorem strongest_step_iff (h : Sound unknownRetryMax r) (hstrong : Strongest r) (op : SchedulerOp) :
    Strongest (reseedStep unknownRetryMax r op) ↔ ¬ Downgrades r op := by
  obtain ⟨s, log⟩ := r
  show Strongest ((s.perform unknownRetryMax op).1, log ++ (s.perform unknownRetryMax op).2) ↔ _
  rcases perform_cases unknownRetryMax s op with
    ⟨i, outcome, view, rfl, hprepare, ⟨-, hperform⟩ | ⟨flight, hflight, hperform⟩⟩ | ⟨rfl, hprepare, hperform⟩ |
      ⟨hcore, ⟨hprepare, hperform⟩ | ⟨kind, hprepare, hperform⟩⟩
  · rw [hperform, append_nil]
    exact iff_of_true hstrong fun ⟨_, kind, hkind, _⟩ ↦ absurd (hprepare.symm.trans hkind) nofun
  · rw [hperform]
    exact iff_of_true (.of_none (h.settle hflight outcome view).2)
      fun ⟨_, kind, hkind, _⟩ ↦ absurd (hprepare.symm.trans hkind) nofun
  · rw [hperform]
    exact iff_of_true (.of_none rfl) fun ⟨_, kind, hkind, _⟩ ↦ absurd (hprepare.symm.trans hkind) nofun
  · rw [hperform, append_nil]
    refine iff_of_true (fun p hp ↦ hstrong p (hcore.pending ▸ hp))
      fun ⟨_, kind, hkind, _⟩ ↦ absurd (hprepare.symm.trans hkind) nofun
  · have hprepared := h.of_core hcore
    have hdowngrades : Downgrades (s, log) op ↔ (s.prepare op).1.pending = some .pin ∧ kind.rearms = false := by
      rw [hcore.pending]
      refine and_congr_right fun _ ↦ ⟨fun ⟨k, hk, hrearms⟩ ↦ ?_, fun hrearms ↦ ⟨kind, hprepare, hrearms⟩⟩
      rwa [Option.some.inj (hprepare.symm.trans hk)]
    rw [hperform, hdowngrades]
    rcases hstopped : (s.prepare op).1.stopped
    · rcases hinFlight : (s.prepare op).1.inFlight
      · have hpending := (hprepared.idle hinFlight).2
        refine iff_of_true (.of_none ?_) fun hpin ↦ absurd (hpending.symm.trans hpin.1) nofun
        rw [request_idle op.view kind hstopped hinFlight]
        rcases run_cases (s.prepare op).1 op.view kind with ⟨-, result, hrun⟩ | ⟨ids, hrun⟩
        · rw [hrun]
          exact hpending
        · rw [hrun]
          exact hpending
      · exact strongest_request_iff hprepared (fun p hp ↦ hstrong p (hcore.pending ▸ hp)) op.view kind hstopped
          hinFlight
    · rw [request_stopped op.view kind hstopped, append_nil]
      refine iff_of_true (fun p hp ↦ hstrong p (hcore.pending ▸ hp)) fun hpin ↦ ?_
      exact absurd (hstopped.symm.trans (hprepared.pending _ hpin.1).2.1) (by simp)

theorem reseedLaw_iff_strongest (h : Sound unknownRetryMax r) : ReseedLaw unknownRetryMax r ↔ Strongest r := by
  refine ⟨fun hlaw p hp ↦ (hlaw.strongest p hp).2, fun hstrong ↦ ⟨?_, ⟨h.unowed, fun howed ↦ ?_⟩,
    fun p hp ↦ ⟨(h.pending p hp).2.2, hstrong p hp⟩, (Nat.le_add_right _ _).trans h.budget⟩⟩
  · have hflights := h.flights
    split_ifs at hflights
    · exact hflights.le
    · rw [hflights]
      exact Nat.zero_le _
  · by_contra hpending
    obtain ⟨p, hp⟩ := Option.ne_none_iff_exists'.mp hpending
    have hmem := (h.pending p hp).2.2
    rw [howed] at hmem
    exact absurd hmem not_mem_nil

/-- What is pending runs when the read settles, and a fresh trigger renews the budget then. -/
theorem settle_follows (unknownRetryMax : ℕ) (s : Scheduler) (i : ℕ) (flight : Flight)
    (outcome : FleetReseedOutcome) (view : View) (hstopped : s.stopped = false) :
    (∀ p ∈ s.pending, ∃ result, .ran p result ∈ (s.settle unknownRetryMax i flight outcome view).2 ∧
        (view.pinnedIds ≠ [] → ∃ ids, result = .read ids)) ∧
      (.rearmed ∈ (s.settle unknownRetryMax i flight outcome view).2 ↔ flight.kind.rearms = true) := by
  obtain ⟨o, hobserved, hidle, hfollow⟩ := settle_spec unknownRetryMax s i flight outcome view hstopped
  rcases hpending : s.pending with _ | p
  · rw [hidle hpending]
    exact ⟨fun p hp ↦ absurd hp nofun, hobserved.rearmed_iff⟩
  · rw [hfollow p hpending]
    rcases run_cases { o.1 with pending := none } view p with ⟨hpinned, result, hrun⟩ | ⟨ids, hrun⟩
    · rw [hrun]
      refine ⟨fun p' hp' ↦ ⟨result, ?_, fun hne ↦ absurd hpinned hne⟩, ?_⟩
      · rw [Option.some.inj hp']
        exact mem_append_right _ (mem_singleton_self _)
      · rw [← hobserved.rearmed_iff, mem_append, or_iff_left (by simp)]
    · rw [hrun]
      refine ⟨fun p' hp' ↦ ⟨.read ids, ?_, fun _ ↦ ⟨ids, rfl⟩⟩, ?_⟩
      · rw [Option.some.inj hp']
        exact mem_append_right _ (mem_singleton_self _)
      · rw [← hobserved.rearmed_iff, mem_append, or_iff_left (by simp)]

theorem stepLaw_iff (h : Sound unknownRetryMax r) (hstrong : Strongest r) (op : SchedulerOp) :
    StepLaw unknownRetryMax r op ↔ ¬ Downgrades r op := by
  rw [← strongest_step_iff h hstrong, ← reseedLaw_iff_strongest (h.step op)]
  refine ⟨StepLaw.next, fun hnext ↦ ⟨hnext, ?_, ?_⟩⟩
  · rintro i outcome view rfl hi p hp
    have hflight := getElem?_eq_getElem hi
    obtain ⟨result, hmem, hread⟩ := (settle_follows unknownRetryMax r.1 i _ outcome view (h.pending p hp).2.1).1 p hp
    refine ⟨result, ?_, hread⟩
    rw [Scheduler.perform, hflight]
    exact hmem
  · rintro i outcome view rfl flight hflight hstopped
    rw [Scheduler.perform, Option.mem_def.mp hflight]
    exact (settle_follows unknownRetryMax r.1 i flight outcome view hstopped).2

/-- **The re-seed scheduler.** From its creation on, in every order of calls, timers and reads that settle: the law
holds at every step if no tick and no retry is requested while a pin is pending, and only then. -/
theorem reseedLaw_run_iff (unknownRetryMax : ℕ) (ops : List SchedulerOp) :
    Guarded (reseedStep unknownRetryMax) (StepLaw unknownRetryMax) .start ops ↔
      Guarded (reseedStep unknownRetryMax) (fun r op ↦ ¬ Downgrades r op) .start ops := by
  have hstart : Sound unknownRetryMax .start ∧ Strongest .start :=
    ⟨⟨rfl, nofun, fun _ ↦ rfl, nofun, Nat.zero_le _⟩, .of_none rfl⟩
  refine guarded_iff_of_invariant (I := fun r ↦ Sound unknownRetryMax r ∧ Strongest r) (fun r op h ↦ ?_)
    (fun r op h hlaw ↦ ?_) hstart
  · exact stepLaw_iff h.1 h.2 op
  · exact ⟨h.1.step op, (reseedLaw_iff_strongest (h.1.step op)).mp hlaw.next⟩

/-! ### A pin and a tick -/

/-- Two sessions are shown, connected and visible. -/
def shown : View := ⟨["a", "b"], none, true, true⟩

/-- During the read of an edge a session is pinned, and then the tick fires: the pin is replaced. -/
theorem pin_replaced : ∃ r, r = run (reseedStep 3) .start
      [.start, .trigger shown, .notePinned, .fires 1 shown, .fires 0 shown] ∧
    r.1.pending = some .tick ∧ owed r.2 = [.pin, .tick] ∧ ¬ ReseedLaw 3 r :=
  ⟨_, rfl, rfl, rfl, fun h ↦ absurd ((h.strongest .tick rfl).2 .pin List.mem_cons_self) (by decide)⟩

end Strongest

end Amicode.Reseed
