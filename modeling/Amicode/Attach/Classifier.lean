import Amicode.Attach.Machine
import Mathlib.Algebra.Order.Ring.Int
import Mathlib.Data.List.DropRight

/-!
# The transport classifier

The classifier (`transport_classifier.ts`) turns the outcomes of the transport into postures: one
fault makes an ok posture degraded, `N` faults in a row make it hub-down, and `R` responses in a
row lead back to ok. A full window of slow responses also makes an ok posture degraded, and then
the way back also needs the latency to be under the threshold.

`SignalLaw` is about one signal after any history, and what it counts is read off the history. The
exit from hub-down does not look at the latency, so it is the one response after which an ok
posture may stand over a slow window (`not_fast_of_recovery`).
-/

open List

namespace Amicode.Attach

/-- A classified outcome, with the clock as `record` reads it. A fault's clock is read once more
for the text of an escalation. -/
inductive TransportSignal (α : Type*) where
  | responded (latencyMs : α) (now : ℤ)
  | noResponse (now again : ℤ)

structure TransportClassifierConfig (α : Type*) where
  hubDownConsecutiveNoResponses : ℕ
  recoveryConsecutiveHealthy : ℕ
  degradedLatencyP95Ms : α
  degradedWindowSamples : ℕ
  escalationCapMs : ℤ

/-- The presumed-structural event, by the two numbers of its detail text. -/
structure PresumedStructural where
  sinceFetchMs : ℤ
  capMs : ℤ

structure TransportClassifier (α : Type*) where
  machine : ModeMachine
  noResponseStreak : ℕ := 0
  healthyStreak : ℕ := 0
  window : List α := []
  lastSuccessfulFetchMs : ℤ
  escalated : Bool := false
  /-- What the classifier has emitted on the machine's structural surface. -/
  structural : List PresumedStructural := []

namespace TransportClassifier

variable {α : Type*} [LinearOrder α] [Zero α] (config : TransportClassifierConfig α)
  (c : TransportClassifier α)

/-- Nearest-rank p95 over the window. -/
def percentile95 (samples : List α) : α :=
  -- `Math.ceil(0.95 * n) - 1`, and a subtraction that stops at zero
  (samples.mergeSort (· ≤ ·))[(19 * samples.length + 19) / 20 - 1]?.getD 0

def posture : AttachPosture := c.machine.resolve.posture

/-- The window after one more sample: `push`, then `shift` when it is too long. -/
def pushed (window : List α) (latencyMs : α) : List α :=
  if config.degradedWindowSamples < (window ++ [latencyMs]).length then (window ++ [latencyMs]).tail
  else window ++ [latencyMs]

/-- `record`, up to the reading of the posture. -/
def counted : TransportSignal α → TransportClassifier α
  | .responded latencyMs now =>
    { c with
      healthyStreak := c.healthyStreak + 1
      noResponseStreak := 0
      -- a successful fetch ends the escalation episode
      escalated := false
      lastSuccessfulFetchMs := now
      window := pushed config c.window latencyMs }
  | .noResponse .. => { c with noResponseStreak := c.noResponseStreak + 1, healthyStreak := 0 }

def written? : TransportSignal α → Option AttachPosture
  | .responded .. =>
    match c.posture with
    | .ok =>
      if config.degradedWindowSamples ≤ c.window.length ∧ config.degradedLatencyP95Ms ≤ percentile95 c.window then
        some .degraded
      else none
    | .degraded =>
      if config.recoveryConsecutiveHealthy ≤ c.healthyStreak ∧
          percentile95 c.window < config.degradedLatencyP95Ms then
        some .ok
      else none
    | .hubDown => if config.recoveryConsecutiveHealthy ≤ c.healthyStreak then some .ok else none
  | .noResponse .. =>
    if config.hubDownConsecutiveNoResponses ≤ c.noResponseStreak then
      if c.posture ≠ .hubDown then some .hubDown else none
    else if c.posture = .ok then some .degraded
    else none

def writePosture (posture : Option AttachPosture) : TransportClassifier α :=
  { c with machine := posture.elim c.machine c.machine.writePosture }

/-- The escalation, once an episode. -/
def escalate (now again : ℤ) : TransportClassifier α :=
  if c.escalated = false ∧ config.escalationCapMs < now - c.lastSuccessfulFetchMs then
    { c with
      escalated := true
      structural := c.structural ++ [⟨again - c.lastSuccessfulFetchMs, config.escalationCapMs⟩] }
  else c

def record (s : TransportSignal α) : TransportClassifier α :=
  let c := (counted config c s).writePosture (written? config (counted config c s) s)
  match s with
  | .responded .. => c
  | .noResponse now again => escalate config c now again

def after (machine : ModeMachine) (start : ℤ) (history : List (TransportSignal α)) :
    TransportClassifier α :=
  StepMachine.run (record config) { machine := machine, lastSuccessfulFetchMs := start } history

/-! ## The law -/

def answered : TransportSignal α → Bool
  | .responded .. => true
  | .noResponse .. => false

def latency? : TransportSignal α → Option α
  | .responded latencyMs _ => some latencyMs
  | .noResponse .. => none

/-- How many signals at the end of a history are responses. -/
def responsesInARow (history : List (TransportSignal α)) : ℕ := (history.rtakeWhile answered).length

/-- How many signals at the end of a history are faults. -/
def faultsInARow (history : List (TransportSignal α)) : ℕ :=
  (history.rtakeWhile fun s ↦ !answered s).length

/-- The last latencies of a history, however many faults lie between them. -/
def lastLatencies (history : List (TransportSignal α)) : List α :=
  (history.filterMap latency?).rtake config.degradedWindowSamples

/-- The latency window is full and its p95 is at or above the threshold. -/
def SlowWindow (history : List (TransportSignal α)) : Prop :=
  (lastLatencies config history).length = config.degradedWindowSamples ∧
    config.degradedLatencyP95Ms ≤ percentile95 (lastLatencies config history)

/-- What a signal does to the posture: before it the classifier is `c`, and `c'` after it. -/
structure SignalLaw (c c' : TransportClassifier α) (history : List (TransportSignal α))
    (s : TransportSignal α) : Prop where
  fault_not_ok : answered s = false → c'.posture ≠ .ok
  enters_hubDown : c.posture ≠ .hubDown → (c'.posture = .hubDown
    ↔ faultsInARow (history ++ [s]) = config.hubDownConsecutiveNoResponses)
  leaves_hubDown : c.posture = .hubDown → c'.posture ≠ .hubDown →
    config.recoveryConsecutiveHealthy ≤ responsesInARow (history ++ [s])
  /-- The response that ends hub-down is the exception. -/
  fast_of_ok : answered s = true → SlowWindow config (history ++ [s]) → c.posture ≠ .hubDown →
    c'.posture ≠ .ok
  recovers : c.posture = .degraded → c'.posture = .ok →
    config.recoveryConsecutiveHealthy ≤ responsesInARow (history ++ [s]) ∧
      percentile95 (lastLatencies config (history ++ [s])) < config.degradedLatencyP95Ms

/-! ## One signal -/

variable {config c} {history : List (TransportSignal α)} {s : TransportSignal α}

theorem exists_record (config : TransportClassifierConfig α) (c : TransportClassifier α) (s : TransportSignal α) :
    ∃ escalated structural, record config c s = { (counted config c s).writePosture
      (written? config (counted config c s) s) with escalated := escalated, structural := structural } := by
  rcases s with _ | ⟨now, again⟩
  · exact ⟨_, _, rfl⟩
  · rw [record, escalate]
    split_ifs <;> exact ⟨_, _, rfl⟩

theorem posture_record (config : TransportClassifierConfig α) (c : TransportClassifier α) (s : TransportSignal α) :
    (record config c s).posture = (written? config (counted config c s) s).getD c.posture := by
  obtain ⟨escalated, structural, heq⟩ := exists_record config c s
  have hposture : (counted config c s).posture = c.posture := by rcases s <;> rfl
  rw [heq, ← hposture]
  rcases written? config (counted config c s) s with _ | posture
  · rfl
  · exact posture_writePosture posture _

/-! ## The counters -/

/-- The counters say what the history says. -/
structure Tracks (config : TransportClassifierConfig α) (c : TransportClassifier α)
    (history : List (TransportSignal α)) : Prop where
  faults : c.noResponseStreak = faultsInARow history
  responses : c.healthyStreak = responsesInARow history
  window : c.window = lastLatencies config history

omit [LinearOrder α] [Zero α] in
theorem pushed_rtake (latencies : List α) (x : α) :
    pushed config (latencies.rtake config.degradedWindowSamples) x
      = (latencies ++ [x]).rtake config.degradedWindowSamples := by
  have happend : latencies.rtake config.degradedWindowSamples ++ [x]
      = (latencies ++ [x]).drop (latencies.length - config.degradedWindowSamples) := by
    rw [drop_append_of_le_length (Nat.sub_le ..)]
    rfl
  rw [pushed, happend, rtake, length_drop, length_append, length_singleton]
  split_ifs with h
  · rw [tail_drop]
    congr 1
    omega
  · congr 1
    omega

omit [LinearOrder α] [Zero α] in
theorem faultsInARow_concat :
    faultsInARow (history ++ [s]) = if answered s then 0 else faultsInARow history + 1 := by
  rw [faultsInARow, rtakeWhile_concat, faultsInARow]
  rcases answered s <;> simp

omit [LinearOrder α] [Zero α] in
theorem responsesInARow_concat :
    responsesInARow (history ++ [s]) = if answered s then responsesInARow history + 1 else 0 := by
  rw [responsesInARow, rtakeWhile_concat, responsesInARow]
  rcases answered s <;> simp

theorem Tracks.counted (h : Tracks config c history) (s : TransportSignal α) :
    Tracks config (counted config c s) (history ++ [s]) := by
  refine ⟨?_, ?_, ?_⟩
  · rw [faultsInARow_concat]
    rcases s
    · rfl
    · exact congrArg (· + 1) h.faults
  · rw [responsesInARow_concat]
    rcases s
    · exact congrArg (· + 1) h.responses
    · rfl
  · rw [lastLatencies, filterMap_append]
    rcases s with ⟨latencyMs, now⟩ | _
    · rw [TransportClassifier.counted, h.window]
      exact pushed_rtake _ latencyMs
    · rw [filterMap_cons_none rfl, filterMap_nil, append_nil]
      exact h.window

theorem Tracks.record (h : Tracks config c history) (s : TransportSignal α) :
    Tracks config (record config c s) (history ++ [s]) := by
  have hcounted := h.counted s
  obtain ⟨escalated, structural, heq⟩ := exists_record config c s
  rw [heq]
  exact ⟨hcounted.faults, hcounted.responses, hcounted.window⟩

/-- Enough faults at the end of the history show as hub-down. -/
structure Holds (config : TransportClassifierConfig α) (c : TransportClassifier α)
    (history : List (TransportSignal α)) : Prop extends Tracks config c history where
  sustained : config.hubDownConsecutiveNoResponses ≤ faultsInARow history → c.posture = .hubDown

theorem Holds.record (h : Holds config c history) (hN : 1 ≤ config.hubDownConsecutiveNoResponses)
    (s : TransportSignal α) : Holds config (record config c s) (history ++ [s]) := by
  refine ⟨h.toTracks.record s, fun hle ↦ ?_⟩
  rw [posture_record]
  rcases s with _ | _
  · rw [faultsInARow_concat, answered, if_pos rfl] at hle
    omega
  · rw [written?, (h.counted _).faults, if_pos hle]
    split_ifs with hup
    · rfl
    · exact not_not.mp hup

theorem Holds.signalLaw (h : Holds config c history) (hN : 1 ≤ config.hubDownConsecutiveNoResponses)
    (s : TransportSignal α) : SignalLaw config c (TransportClassifier.record config c s) history s := by
  have hcounted := h.counted s
  have hposture := posture_record config c s
  generalize TransportClassifier.record config c s = c' at hposture
  have hbefore : (TransportClassifier.counted config c s).posture = c.posture := by rcases s <;> rfl
  rcases s with ⟨latencyMs, now⟩ | ⟨now, again⟩
  · have hfaults : faultsInARow (history ++ [.responded latencyMs now]) ≠ config.hubDownConsecutiveNoResponses := by
      rw [faultsInARow_concat, answered, if_pos rfl]
      omega
    rw [written?, hbefore, hcounted.window, hcounted.responses] at hposture
    -- each posture has one exit, which is taken or not
    rcases hc : c.posture <;> rw [hc] at hposture <;> dsimp only at hposture <;> split_ifs at hposture with hif <;>
      constructor <;> simp_all [SlowWindow, answered]
  · have hfaults : faultsInARow (history ++ [.noResponse now again]) = faultsInARow history + 1 := by
      rw [faultsInARow_concat, answered, if_neg Bool.false_ne_true]
    rw [written?, hbefore, hcounted.faults, hfaults] at hposture
    -- without hub-down, one fault fewer had not been enough
    have hfew := mt h.sustained
    split_ifs at hposture with hreached hup hok <;> constructor <;> simp_all [answered]
    · omega
    · omega
    · exact fun _ ↦ by omega

/-! ## Escalations -/

/-- The events so far, and the one that may still come before the next response. -/
def eventsInEpisode (c : TransportClassifier α) : ℕ := c.structural.length + if c.escalated then 0 else 1

theorem eventsInEpisode_fault (h : answered s = false) :
    (record config c s).eventsInEpisode = c.eventsInEpisode := by
  rcases s with _ | ⟨now, again⟩
  · exact absurd h (by simp [answered])
  · rw [record, escalate]
    split_ifs with hcap
    · have hfresh : c.escalated = false := hcap.1
      simp [eventsInEpisode, hfresh, counted, writePosture]
    · rfl

theorem eventsInEpisode_faults {faults : List (TransportSignal α)} (h : ∀ s ∈ faults, answered s = false) :
    (StepMachine.run (record config) c faults).eventsInEpisode = c.eventsInEpisode := by
  induction faults generalizing c with
  | nil => rfl
  | cons s faults ih =>
    rw [StepMachine.run_cons, ih fun s' hs' ↦ h s' (mem_cons_of_mem s hs')]
    exact eventsInEpisode_fault (h s mem_cons_self)

/-! ## After any history -/

variable (config) (hN : 1 ≤ config.hubDownConsecutiveNoResponses) (machine : ModeMachine) (start : ℤ)
  (history : List (TransportSignal α))
include hN

theorem after_holds : Holds config (after config machine start history) history := by
  induction history using List.reverseRecOn with
  | nil => exact ⟨⟨rfl, rfl, by simp [lastLatencies, after]⟩, fun hle ↦ absurd hle (Nat.not_le_of_lt hN)⟩
  | append_singleton history s ih =>
    rw [after, StepMachine.run_concat]
    exact ih.record hN s

/-- After any history, a signal obeys the posture law, and faults with no response between them emit
one event at most. -/
theorem hysteresis :
    (∀ s, SignalLaw config (after config machine start history) (after config machine start (history ++ [s]))
      history s) ∧
    ∀ faults : List (TransportSignal α), (∀ s ∈ faults, answered s = false) →
      (after config machine start (history ++ faults)).structural.length
        ≤ (after config machine start history).structural.length + 1 := by
  refine ⟨fun s ↦ ?_, fun faults hfaults ↦ ?_⟩
  · have hlaw := (after_holds config hN machine start history).signalLaw hN s
    rwa [after, after, StepMachine.run_concat]
  · rw [after, StepMachine.run_append]
    change (StepMachine.run (record config) (after config machine start history) faults).structural.length ≤ _
    have hevents : (StepMachine.run (record config) (after config machine start history) faults).eventsInEpisode =
        _ := eventsInEpisode_faults hfaults
    rw [eventsInEpisode, eventsInEpisode] at hevents
    split_ifs at hevents <;> omega

omit hN

/-- With one of everything. -/
theorem hysteresis_ones :
    SignalLaw (⟨1, 1, 2000, 1, 300000⟩ : TransportClassifierConfig ℤ)
      (after ⟨1, 1, 2000, 1, 300000⟩ { record := ∅ } 0 [])
      (after ⟨1, 1, 2000, 1, 300000⟩ { record := ∅ } 0 ([] ++ [.noResponse 0 0])) [] (.noResponse 0 0) :=
  (hysteresis ⟨1, 1, 2000, 1, 300000⟩ le_rfl { record := ∅ } 0 []).1 (.noResponse 0 0)

/-- The hub answers again, slowly: hub-down is left for ok over a slow window. -/
theorem not_fast_of_recovery :
    ¬ ∀ (config : TransportClassifierConfig ℤ) (machine : ModeMachine) (start : ℤ)
        (history : List (TransportSignal ℤ)) (s : TransportSignal ℤ),
      1 ≤ config.hubDownConsecutiveNoResponses → 1 ≤ config.recoveryConsecutiveHealthy →
      1 ≤ config.degradedLatencyP95Ms → 1 ≤ config.degradedWindowSamples → answered s = true →
      SlowWindow config (history ++ [s]) → (after config machine start (history ++ [s])).posture ≠ .ok := by
  intro h
  have hslow : (2000 : ℤ) ≤ percentile95 [5000] := by simp [percentile95]
  exact h ⟨1, 1, 2000, 1, 300000⟩ { record := ∅ } 0 [.noResponse 0 0] (.responded 5000 0)
    le_rfl le_rfl (by decide) le_rfl rfl ⟨rfl, hslow⟩ (by decide)

end TransportClassifier

end Amicode.Attach
