import Amicode.Foundation.HighWater
import Amicode.Foundation.JsNumber
import Amicode.Foundation.StepMachine

/-!
# The mirror of a cloud run

A cloud solve is mirrored into a local run directory by polls. A poll reads the status, which says whether the
run is over, then the history of iterations and of pulses and the newest frame, all of which the service serves
again each time; it writes the lines that are beyond the last one it has written to `run.log`, and settles the
run if the status is terminal: it writes `FINISHED` and, if the status carried what the run has cost, a receipt.
A pump polls until the run is settled, and settles it as failed when there is no sign of life, or no status, for
too long (`cloud_client.ts`).

The number of an iteration is what ECMAScript makes of it, a rational here; none is what it makes not finite.
A poll waits four times for the service, and goes on with what it is answered.
-/

open List

namespace Amicode.Cloud

open JsText StepMachine

inductive RunStatus
  | completed
  | failed
  | aborted
deriving DecidableEq

def EXIT : RunStatus → ℕ
  | .completed => 0
  | .failed => 1
  | .aborted => 130

def EXIT_INFERRED : ℕ := 255

structure Finished where
  status : RunStatus
  exitCode : ℕ
deriving DecidableEq

/-! ## What the service answers -/

structure CloudFinished where
  status : Option String
  gpu_sku : Option String
  gpu_seconds : Option ℚ
  cost_usd : Option ℚ

structure CloudStatus where
  task_status : Option String
  /-- It may be there and be null. -/
  finished : Option (Option CloudFinished)
  liveness : Option String

/-- A field of a record, as a number if it is finite and as a text. -/
structure Field where
  number : Option ℚ
  text : List Char

structure StatRecord where
  raw : Option (List Char)
  iter : Field
  f : List Char
  inf_pr : List Char
  inf_du : List Char

/-- Records that are null are none. -/
structure StatsBody where
  stats : Option (List (Option StatRecord))
  iters : Option (List (Option StatRecord))

structure IterLine where
  iter : ℚ
  line : List Char
deriving DecidableEq

def iterDigits? (text : List Char) : Option (List Char) :=
  (stripPrefix? "iter=".toList text).bind fun rest ↦
    let digits := rest.takeWhile isDigit
    if digits = [] then none else some digits

def iterDigitsAfterSpace? : List Char → Option (List Char)
  | [] => none
  | c :: rest => (if isSpace c then iterDigits? rest else none).or (iterDigitsAfterSpace? rest)

/-- `Number(/(?:^|\s)iter=(\d+)/.exec(raw)?.[1])`, if it is finite. -/
def iterNumber? (raw : List Char) : Option ℚ :=
  ((iterDigits? raw).or (iterDigitsAfterSpace? raw)).bind JsNumber.ofText?

def StatRecord.line? (it : StatRecord) : Option IterLine :=
  match it.raw.filter (· ≠ []) with
  | some raw => (iterNumber? raw).map fun n ↦ ⟨n, "AMICODE_ITER ".toList ++ raw⟩
  | none => it.iter.number.map fun n ↦
    ⟨n, "AMICODE_ITER iter=".toList ++ it.iter.text ++ " f=".toList ++ it.f ++ " inf_pr=".toList ++ it.inf_pr ++
      " inf_du=".toList ++ it.inf_du⟩

/-- The iterations of an answer; a record that is null makes all of it unreadable. -/
def iterLines (body : Option StatsBody) : List IterLine :=
  match body.bind fun body ↦ ((body.stats.or body.iters).getD []).mapM id with
  | none => []
  | some records => records.filterMap StatRecord.line?

/-- The texts of an answer, whose records have one or none. -/
def pulseLines (body : Option (List (Option (Option (List Char))))) : List (List Char) :=
  match body.bind (List.mapM id) with
  | none => []
  | some records => records.filterMap id

structure GpuReceiptFields where
  gpu_sku : Option String
  gpu_seconds : Option ℚ
  cost_usd : Option ℚ
deriving DecidableEq

def gpuReceiptOf (fin : CloudFinished) : Option GpuReceiptFields :=
  let sku := fin.gpu_sku.filter (· ≠ "")
  let secs := fin.gpu_seconds.filter (0 < ·)
  let cost := fin.cost_usd.filter (0 < ·)
  if sku.isNone ∧ secs.isNone ∧ cost.isNone then none else some ⟨sku, secs, cost⟩

def terminalStatus? : String → Option RunStatus
  | "completed" => some .completed
  | "failed" => some .failed
  | "aborted" => some .aborted
  | _ => none

/-! ## The mirror -/

inductive LogLine
  | iter (l : IterLine)
  | pulse (raw : List Char)
  | lost
deriving DecidableEq

structure Receipt where
  status : RunStatus
  fields : GpuReceiptFields
deriving DecidableEq

structure MirrorState where
  startedAt : ℕ
  lastOkPollAt : ℕ
  sawLife : Bool
  settled : Bool
  iterHigh : ℚ
  frameHigh : ℚ
  pulseHigh : ℚ
  pulseMetaEmitted : Bool
  gpuReceipt : Option GpuReceiptFields
  log : List LogLine
  frames : List ℚ
  verdicts : List Finished
  receipts : List Receipt
  /-- What the log was when the run was settled. -/
  closed : Option (List LogLine)

def MirrorState.start (startedAt : ℕ) : MirrorState where
  startedAt
  lastOkPollAt := startedAt
  sawLife := false
  settled := false
  iterHigh := -1
  frameHigh := -1
  pulseHigh := -1
  pulseMetaEmitted := false
  gpuReceipt := none
  log := []
  frames := []
  verdicts := []
  receipts := []
  closed := none

def MirrorState.emitLine (m : MirrorState) (line : LogLine) : MirrorState := { m with log := m.log ++ [line] }

def MirrorState.settle (m : MirrorState) (result : Finished) : MirrorState :=
  if m.settled then m
  else
    { m with
      settled := true
      verdicts := m.verdicts ++ [result]
      receipts := m.receipts ++ (m.gpuReceipt.map fun fields ↦ ⟨result.status, fields⟩).toList
      closed := some m.log }

/-- The run is lost, as far as can be told from here. -/
def MirrorState.lose (m : MirrorState) : MirrorState := (m.emitLine .lost).settle ⟨.failed, EXIT_INFERRED⟩

def MirrorState.mirrorIter (m : MirrorState) (l : IterLine) : MirrorState :=
  if l.iter ≤ m.iterHigh then m else { m with iterHigh := l.iter, sawLife := true }.emitLine (.iter l)

def MirrorState.mirrorPulse (m : MirrorState) (raw : List Char) : MirrorState :=
  if "AMICODE_PULSE_META".toList.isPrefixOf raw then
    if m.pulseMetaEmitted then m else { m with pulseMetaEmitted := true, sawLife := true }.emitLine (.pulse raw)
  else match iterNumber? raw with
    | none => m
    | some n => if n ≤ m.pulseHigh then m else { m with pulseHigh := n, sawLife := true }.emitLine (.pulse raw)

def MirrorState.mirrorFrame (m : MirrorState) (frame : Option ℚ) : MirrorState :=
  match frame with
  | none => m
  | some n => if n ≤ m.frameHigh then m else { m with frameHigh := n, frames := m.frames ++ [n] }

/-- What a poll does with the status in the end. -/
def MirrorState.conclude (m : MirrorState) (s : CloudStatus) : MirrorState :=
  match s.finished with
  | none => if s.liveness = some "gone" then m.lose else m
  -- reading a field of null throws, and the pump takes it for a poll that has failed
  | some none => m
  | some (some fin) =>
    let m := { m with gpuReceipt := m.gpuReceipt.or (gpuReceiptOf fin) }
    match fin.status.bind terminalStatus? with
    | none => m
    | some status => m.settle ⟨status, EXIT status⟩

/-- What is done at a time, between two answers of the service. -/
inductive MirrorOp
  | status (s : CloudStatus) (now : ℕ)
  | stats (body : Option StatsBody)
  | pulse (body : Option (List (Option (Option (List Char)))))
  | finish (s : CloudStatus) (frame : Option ℚ)
  /-- The pump gives up. -/
  | lost

def mirrorStep (m : MirrorState) : MirrorOp → MirrorState
  | .status s now => { m with lastOkPollAt := now, sawLife := m.sawLife || s.task_status = some "Running" }
  | .stats body => (iterLines body).foldl MirrorState.mirrorIter m
  | .pulse body => (pulseLines body).foldl MirrorState.mirrorPulse m
  | .finish s frame => (m.mirrorFrame frame).conclude s
  | .lost => m.lose

/-- The answers to one poll; none is one that could not be got. -/
structure Poll where
  status : Option CloudStatus
  okAt : ℕ
  stats : Option StatsBody
  pulse : Option (List (Option (Option (List Char))))
  frame : Option ℚ

/-- `pollOnce`, which throws without a status. -/
def Poll.ops (p : Poll) : List MirrorOp :=
  match p.status with
  | none => []
  | some s => [.status s p.okAt, .stats p.stats, .pulse p.pulse, .finish s p.frame]

def pollOnce (m : MirrorState) (p : Poll) : MirrorState := run mirrorStep m p.ops

/-! ## The pump -/

structure Budgets where
  warmingBudgetMs : ℕ
  lostAfterMs : ℕ

/-- A round of the pump: the answers to its poll, and the times at which it looks at its budgets. -/
structure Round where
  poll : Poll
  warmingAt : ℕ
  lostAt : ℕ

def pump (cfg : Budgets) (m : MirrorState) : List Round → MirrorState
  | [] => m
  | r :: rounds =>
    if m.settled then m
    else
      let m := pollOnce m r.poll
      if m.settled then m
      else if !m.sawLife && cfg.warmingBudgetMs < r.warmingAt - m.startedAt then m.lose
      else if cfg.lostAfterMs < r.lostAt - m.lastOkPollAt then m.lose
      else pump cfg m rounds

end Amicode.Cloud

/-!
# What a mirrored run has written

The mirror keeps only the number of the last iteration it has written, so that of all lines it is served it writes
those beyond everything served before: each once and in increasing order, and every line if the service serves
them in that order. A line that comes after one beyond it is left out, in one answer or in a later one. This holds
however polls overlap, as does that a run is settled once, by the first verdict, with one receipt at most
(`MirrorLaw`). What a poll writes it writes whether the run is settled by then or not; nothing is written after
the settlement because the pump polls one at a time and not again once the run is settled.
-/

namespace Amicode.Cloud

open StepMachine HighWater

variable {m : MirrorState} {op : MirrorOp} {ops : List MirrorOp}

/-! ## The law -/

def LogLine.iter? : LogLine → Option IterLine
  | .iter l => some l
  | _ => none

def MirrorState.iterLog (m : MirrorState) : List IterLine := m.log.filterMap LogLine.iter?

def MirrorOp.served : MirrorOp → List IterLine
  | .stats body => iterLines body
  | _ => []

/-- The iteration lines that have been served, in the order in which they were. -/
def served (ops : List MirrorOp) : List IterLine := ops.flatMap MirrorOp.served

def CloudStatus.verdict? (s : CloudStatus) : Option Finished :=
  match s.finished with
  | none => if s.liveness = some "gone" then some ⟨.failed, EXIT_INFERRED⟩ else none
  | some fin => ((fin.bind CloudFinished.status).bind terminalStatus?).map fun status ↦ ⟨status, EXIT status⟩

def MirrorOp.verdict? : MirrorOp → Option Finished
  | .finish s _ => s.verdict?
  | .lost => some ⟨.failed, EXIT_INFERRED⟩
  | _ => none

structure MirrorLaw (ops : List MirrorOp) (m : MirrorState) : Prop where
  written : m.iterLog = peaks IterLine.iter (-1) (served ops)
  increasing : m.iterLog.Pairwise (·.iter < ·.iter)
  present : ∀ before l after, served ops = before ++ l :: after → -1 < l.iter →
    (∀ l' ∈ before, l'.iter < l.iter) → l ∈ m.iterLog
  settledOnce : m.verdicts = (ops.findSome? MirrorOp.verdict?).toList
  receipt : m.receipts.length ≤ 1

/-- Nothing has been written since the run was settled. -/
def MirrorState.Quiet (m : MirrorState) : Prop := ∀ log ∈ m.closed, m.log = log

/-! ## Lines -/

section Lines

/-- What settling, pulses and frames do not touch. -/
structure SameIters (m m' : MirrorState) : Prop where
  iterHigh : m'.iterHigh = m.iterHigh
  iterLog : m'.iterLog = m.iterLog

theorem SameIters.refl (m : MirrorState) : SameIters m m := ⟨rfl, rfl⟩

theorem SameIters.trans {m' m'' : MirrorState} (h : SameIters m m') (h' : SameIters m' m'') : SameIters m m'' :=
  ⟨h'.iterHigh.trans h.iterHigh, h'.iterLog.trans h.iterLog⟩

variable (m)

theorem iterLog_emitLine (line : LogLine) :
    (m.emitLine line).iterLog = m.iterLog ++ line.iter?.toList := by
  rw [MirrorState.iterLog, MirrorState.emitLine, filterMap_append]
  cases line <;> rfl

theorem sameIters_emitLine {line : LogLine} (hline : line.iter? = none) (m : MirrorState) :
    SameIters m (m.emitLine line) :=
  ⟨rfl, by rw [iterLog_emitLine, hline, Option.toList_none, append_nil]⟩

theorem sameIters_settle (result : Finished) : SameIters m (m.settle result) := by
  unfold MirrorState.settle
  split_ifs <;> exact ⟨rfl, rfl⟩

theorem sameIters_lose : SameIters m m.lose :=
  (sameIters_emitLine rfl m).trans (sameIters_settle _ _)

theorem sameIters_mirrorPulse (raw : List Char) : SameIters m (m.mirrorPulse raw) := by
  have hemit : ∀ m' : MirrorState, SameIters m m' → SameIters m (m'.emitLine (.pulse raw)) :=
    fun m' hm' ↦ hm'.trans (sameIters_emitLine rfl m')
  unfold MirrorState.mirrorPulse
  split_ifs
  · exact .refl m
  · exact hemit _ ⟨rfl, rfl⟩
  · split
    · exact .refl m
    · split_ifs
      · exact .refl m
      · exact hemit _ ⟨rfl, rfl⟩

theorem sameIters_pulses (raws : List (List Char)) :
    SameIters m (raws.foldl MirrorState.mirrorPulse m) := by
  induction raws generalizing m with
  | nil => exact .refl m
  | cons raw raws ih => exact (sameIters_mirrorPulse m raw).trans (ih _)

theorem sameIters_mirrorFrame (frame : Option ℚ) : SameIters m (m.mirrorFrame frame) := by
  unfold MirrorState.mirrorFrame
  split
  · exact .refl m
  · split_ifs <;> exact ⟨rfl, rfl⟩

theorem sameIters_conclude (s : CloudStatus) : SameIters m (m.conclude s) := by
  unfold MirrorState.conclude
  split
  · split_ifs
    · exact sameIters_lose m
    · exact .refl m
  · exact .refl m
  · next fin _ =>
    have hstashed : SameIters m { m with gpuReceipt := m.gpuReceipt.or (gpuReceiptOf fin) } := ⟨rfl, rfl⟩
    simp only
    split
    · exact hstashed
    · exact hstashed.trans (sameIters_settle _ _)

/-- Of the lines of an answer those are written that are beyond the mark and all lines before them. -/
theorem mirrorIters (lines : List IterLine) :
    (lines.foldl MirrorState.mirrorIter m).iterHigh = top IterLine.iter m.iterHigh lines ∧
      (lines.foldl MirrorState.mirrorIter m).iterLog = m.iterLog ++ peaks IterLine.iter m.iterHigh lines := by
  induction lines generalizing m with
  | nil => exact ⟨rfl, (append_nil _).symm⟩
  | cons l lines ih =>
    obtain ⟨hhigh, hlog⟩ := ih (m.mirrorIter l)
    rw [foldl_cons, hhigh, hlog, top, top, foldl_cons, peaks]
    unfold MirrorState.mirrorIter
    split_ifs with hle
    · exact ⟨rfl, rfl⟩
    · refine ⟨rfl, ?_⟩
      have hone : ({ m with iterHigh := l.iter, sawLife := true }.emitLine (.iter l)).iterLog = m.iterLog ++ [l] :=
        iterLog_emitLine { m with iterHigh := l.iter, sawLife := true } (.iter l)
      rw [hone, append_assoc]
      rfl

theorem iters_step (op : MirrorOp) :
    (mirrorStep m op).iterHigh = top IterLine.iter m.iterHigh op.served ∧
      (mirrorStep m op).iterLog = m.iterLog ++ peaks IterLine.iter m.iterHigh op.served := by
  have hsame : ∀ {m' : MirrorState}, SameIters m m' → m'.iterHigh = top IterLine.iter m.iterHigh [] ∧
      m'.iterLog = m.iterLog ++ peaks IterLine.iter m.iterHigh [] := fun h ↦
    ⟨h.iterHigh, h.iterLog.trans (append_nil _).symm⟩
  cases op with
  | status s now => exact hsame ⟨rfl, rfl⟩
  | stats body => exact mirrorIters m (iterLines body)
  | pulse body => exact hsame (sameIters_pulses m (pulseLines body))
  | finish s frame => exact hsame ((sameIters_mirrorFrame m frame).trans (sameIters_conclude _ s))
  | lost => exact hsame (sameIters_lose m)

theorem iters_run (ops : List MirrorOp) :
    (run mirrorStep m ops).iterHigh = top IterLine.iter m.iterHigh (served ops) ∧
      (run mirrorStep m ops).iterLog = m.iterLog ++ peaks IterLine.iter m.iterHigh (served ops) := by
  induction ops generalizing m with
  | nil => exact ⟨rfl, (append_nil _).symm⟩
  | cons op ops ih =>
    obtain ⟨hhigh, hlog⟩ := iters_step m op
    obtain ⟨ihigh, ilog⟩ := ih (mirrorStep m op)
    have hserved : served (op :: ops) = op.served ++ served ops := flatMap_cons
    rw [run_cons, ihigh, ilog, hhigh, hlog, hserved, peaks_append, append_assoc]
    exact ⟨(foldl_append).symm, rfl⟩

end Lines

/-! ## Verdicts -/

section Verdicts

/-- What only settling touches. -/
structure SameVerdict (m m' : MirrorState) : Prop where
  settled : m'.settled = m.settled
  verdicts : m'.verdicts = m.verdicts
  receipts : m'.receipts = m.receipts
  closed : m'.closed = m.closed

theorem SameVerdict.refl (m : MirrorState) : SameVerdict m m := ⟨rfl, rfl, rfl, rfl⟩

theorem SameVerdict.trans {m' m'' : MirrorState} (h : SameVerdict m m') (h' : SameVerdict m' m'') :
    SameVerdict m m'' :=
  ⟨h'.settled.trans h.settled, h'.verdicts.trans h.verdicts, h'.receipts.trans h.receipts, h'.closed.trans h.closed⟩

theorem sameVerdict_foldl {α : Type*} {f : MirrorState → α → MirrorState} (hf : ∀ m a, SameVerdict m (f m a))
    (m : MirrorState) (items : List α) : SameVerdict m (items.foldl f m) := by
  induction items generalizing m with
  | nil => exact .refl m
  | cons a items ih => exact (hf m a).trans (ih (f m a))

variable (m)

theorem sameVerdict_mirrorIter (l : IterLine) : SameVerdict m (m.mirrorIter l) := by
  unfold MirrorState.mirrorIter
  split_ifs <;> exact ⟨rfl, rfl, rfl, rfl⟩

theorem sameVerdict_mirrorPulse (raw : List Char) : SameVerdict m (m.mirrorPulse raw) := by
  unfold MirrorState.mirrorPulse
  split_ifs
  · exact .refl m
  · exact ⟨rfl, rfl, rfl, rfl⟩
  · split
    · exact .refl m
    · split_ifs <;> exact ⟨rfl, rfl, rfl, rfl⟩

theorem sameVerdict_mirrorFrame (frame : Option ℚ) : SameVerdict m (m.mirrorFrame frame) := by
  unfold MirrorState.mirrorFrame
  split
  · exact .refl m
  · split_ifs <;> exact ⟨rfl, rfl, rfl, rfl⟩

theorem verdict_step (op : MirrorOp) :
    match op.verdict? with
    | none => SameVerdict m (mirrorStep m op)
    | some v => ∃ m', SameVerdict m m' ∧ mirrorStep m op = m'.settle v := by
  cases op with
  | status s now => exact ⟨rfl, rfl, rfl, rfl⟩
  | stats body => exact sameVerdict_foldl sameVerdict_mirrorIter m (iterLines body)
  | pulse body => exact sameVerdict_foldl sameVerdict_mirrorPulse m (pulseLines body)
  | lost => exact ⟨m.emitLine .lost, ⟨rfl, rfl, rfl, rfl⟩, rfl⟩
  | finish s frame =>
    have hframe := sameVerdict_mirrorFrame m frame
    simp only [MirrorOp.verdict?, mirrorStep, MirrorState.conclude, CloudStatus.verdict?]
    rcases s.finished with _ | _ | fin
    · simp only
      split_ifs
      · exact ⟨(m.mirrorFrame frame).emitLine .lost, hframe.trans ⟨rfl, rfl, rfl, rfl⟩, rfl⟩
      · exact hframe
    · exact hframe
    · simp only [Option.bind_some]
      rcases fin.status.bind terminalStatus? with _ | status
      · exact hframe.trans ⟨rfl, rfl, rfl, rfl⟩
      · exact ⟨{ m.mirrorFrame frame with gpuReceipt := (m.mirrorFrame frame).gpuReceipt.or (gpuReceiptOf fin) },
          hframe.trans ⟨rfl, rfl, rfl, rfl⟩, rfl⟩

variable {m}

/-- The settlement after some operations: the first verdict there was, if there was one. -/
structure Settled (verdict : Option Finished) (m : MirrorState) : Prop where
  settled : m.settled = verdict.isSome
  verdicts : m.verdicts = verdict.toList
  receipts : m.receipts.length ≤ 1
  unspent : verdict = none → m.receipts = []

variable {verdict : Option Finished}

theorem Settled.congr {m' : MirrorState} (h : Settled verdict m) (hm : SameVerdict m m') :
    Settled verdict m' :=
  ⟨hm.settled.trans h.settled, hm.verdicts.trans h.verdicts, hm.receipts ▸ h.receipts,
    fun hnone ↦ hm.receipts.trans (h.unspent hnone)⟩

theorem Settled.settle (h : Settled verdict m) (v : Finished) :
    Settled (verdict.or (some v)) (m.settle v) := by
  cases verdict with
  | some first =>
    have hsettled : m.settled = true := h.settled
    rw [MirrorState.settle, if_pos hsettled]
    exact h
  | none =>
    have hopen : m.settled = false := h.settled
    rw [MirrorState.settle, if_neg (by simp [hopen])]
    refine ⟨rfl, ?_, ?_, nofun⟩
    · rw [h.verdicts]
      rfl
    · rw [h.unspent rfl, nil_append]
      cases m.gpuReceipt <;> simp

theorem Settled.step (h : Settled verdict m) (op : MirrorOp) :
    Settled (verdict.or op.verdict?) (mirrorStep m op) := by
  have hop := verdict_step m op
  rcases hv : op.verdict? with _ | v <;> rw [hv] at hop
  · rw [Option.or_none]
    exact h.congr hop
  · obtain ⟨m', hm', hstep⟩ := hop
    rw [hstep]
    exact (h.congr hm').settle v

theorem settled_run (h : Settled verdict m) (ops : List MirrorOp) :
    Settled (verdict.or (ops.findSome? MirrorOp.verdict?)) (run mirrorStep m ops) := by
  induction ops generalizing m verdict with
  | nil => simpa using h
  | cons op ops ih =>
    have hrest := ih (h.step op)
    rw [Option.or_assoc] at hrest
    have hfirst : (op :: ops).findSome? MirrorOp.verdict? =
        op.verdict?.or (ops.findSome? MirrorOp.verdict?) := by
      rw [findSome?_cons]
      cases op.verdict? <;> rfl
    rw [hfirst]
    exact hrest

end Verdicts

theorem mirrorLaw_run (startedAt : ℕ) (ops : List MirrorOp) :
    MirrorLaw ops (run mirrorStep (.start startedAt) ops) := by
  have hiters : (run mirrorStep (.start startedAt) ops).iterLog = peaks IterLine.iter (-1) (served ops) :=
    (iters_run (.start startedAt) ops).2
  have hstart : Settled none (.start startedAt) := ⟨rfl, rfl, Nat.zero_le _, fun _ ↦ rfl⟩
  have hsettled := settled_run hstart ops
  refine ⟨hiters, ?_, fun before l after hserved hmark hbefore ↦ ?_, ?_, hsettled.receipts⟩
  · rw [hiters]
    exact pairwise_peaks _ _
  · rw [hiters, hserved]
    exact mem_peaks hmark hbefore
  · exact hsettled.verdicts

/-! ## The pump -/

section Pump

/-- An unsettled mirror is not closed, and a settled one has written nothing since. -/
structure Tidy (m : MirrorState) : Prop where
  opened : m.settled = false → m.closed = none
  quiet : m.Quiet

theorem tidy_settle (h : m.settled = false) (v : Finished) : Tidy (m.settle v) := by
  rw [MirrorState.settle, if_neg (by simp [h])]
  exact ⟨nofun, fun log hlog ↦ Option.some.inj hlog⟩

theorem tidy_lose (h : m.settled = false) : Tidy m.lose := by
  have hopen : (m.emitLine .lost).settled = false := h
  exact tidy_settle hopen _

theorem Tidy.of_opened (h : m.closed = none) : Tidy m := ⟨fun _ ↦ h, fun log hlog ↦ by simp [h] at hlog⟩

/-- In a poll that finds the run unsettled, settling is the last thing. -/
theorem tidy_pollOnce (hm : Tidy m) (h : m.settled = false) (p : Poll) : Tidy (pollOnce m p) := by
  unfold pollOnce Poll.ops
  rcases p.status with _ | s
  · exact hm
  · have hpre : SameVerdict m (run mirrorStep m [.status s p.okAt, .stats p.stats, .pulse p.pulse]) :=
      ((verdict_step m (.status s p.okAt)).trans (verdict_step _ (.stats p.stats))).trans
        (verdict_step _ (.pulse p.pulse))
    have hlast := verdict_step (run mirrorStep m [.status s p.okAt, .stats p.stats, .pulse p.pulse])
      (.finish s p.frame)
    simp only [run_cons, run_nil] at hpre hlast ⊢
    split at hlast
    · exact .of_opened ((hpre.trans hlast).closed.trans (hm.opened h))
    · obtain ⟨m', hm', hstep⟩ := hlast
      rw [hstep]
      exact tidy_settle ((hpre.trans hm').settled.trans h) _

theorem tidy_pump (cfg : Budgets) (hm : Tidy m) (rounds : List Round) : Tidy (pump cfg m rounds) := by
  induction rounds generalizing m with
  | nil => exact hm
  | cons r rounds ih =>
    rw [pump]
    split_ifs with hsettled
    · exact hm
    · have hpoll := tidy_pollOnce hm (Bool.eq_false_iff.mpr hsettled) r.poll
      simp only
      split_ifs with hsettled' hwarm hlost
      · exact hpoll
      · exact tidy_lose (Bool.eq_false_iff.mpr hsettled')
      · exact tidy_lose (Bool.eq_false_iff.mpr hsettled')
      · exact ih hpoll

theorem pump_eq_run (cfg : Budgets) (m : MirrorState) (rounds : List Round) :
    ∃ made gaveUp, made <+: rounds ∧ (gaveUp = [] ∨ gaveUp = [MirrorOp.lost]) ∧
      pump cfg m rounds = run mirrorStep m (made.flatMap (fun r ↦ r.poll.ops) ++ gaveUp) ∧
      ((pump cfg m rounds).settled = true ∨ made = rounds) := by
  induction rounds generalizing m with
  | nil => exact ⟨[], [], prefix_rfl, .inl rfl, rfl, .inr rfl⟩
  | cons r rounds ih =>
    rw [pump]
    split_ifs with hsettled
    · exact ⟨[], [], nil_prefix, .inl rfl, rfl, .inl hsettled⟩
    · have hone : [r] <+: r :: rounds := ⟨rounds, rfl⟩
      have hops : ∀ gaveUp, run mirrorStep m ([r].flatMap (fun r ↦ r.poll.ops) ++ gaveUp) =
          run mirrorStep (pollOnce m r.poll) gaveUp := fun gaveUp ↦ by
        rw [run_append, flatMap_singleton]
        rfl
      have hlose : ∀ m : MirrorState, m.settled = false → m.lose.settled = true := fun m h ↦ by
        simp [MirrorState.lose, MirrorState.settle, MirrorState.emitLine, h]
      simp only
      split_ifs with hsettled' hwarm hlost
      · exact ⟨[r], [], hone, .inl rfl, (hops []).symm, .inl hsettled'⟩
      · exact ⟨[r], [.lost], hone, .inr rfl, (hops [.lost]).symm, .inl (hlose _ (Bool.eq_false_iff.mpr hsettled'))⟩
      · exact ⟨[r], [.lost], hone, .inr rfl, (hops [.lost]).symm, .inl (hlose _ (Bool.eq_false_iff.mpr hsettled'))⟩
      · obtain ⟨made, gaveUp, hmade, hgaveUp, hrun, hend⟩ := ih (pollOnce m r.poll)
        refine ⟨r :: made, gaveUp, cons_prefix_cons.mpr ⟨rfl, hmade⟩, hgaveUp, ?_,
          hend.imp_right (congrArg (List.cons r))⟩
        rw [hrun, flatMap_cons, append_assoc, run_append mirrorStep m]
        rfl

end Pump

structure PumpLaw (cfg : Budgets) (startedAt : ℕ) (rounds : List Round) : Prop where
  /-- The polls that are made come one after the other, and to the settlement if there is one. -/
  polls : ∃ made gaveUp, made <+: rounds ∧ (gaveUp = [] ∨ gaveUp = [MirrorOp.lost]) ∧
    pump cfg (.start startedAt) rounds =
      run mirrorStep (.start startedAt) (made.flatMap (fun r ↦ r.poll.ops) ++ gaveUp) ∧
    ((pump cfg (.start startedAt) rounds).settled = true ∨ made = rounds)
  quiet : (pump cfg (.start startedAt) rounds).Quiet

/-- However polls overlap, the lines written are those beyond all lines served before, and the run is settled once
and by the first verdict; where they come one after the other until then, nothing is written after it. -/
theorem mirrorLaw (startedAt : ℕ) :
    (∀ ops, MirrorLaw ops (run mirrorStep (.start startedAt) ops)) ∧
      (∀ cfg rounds, PumpLaw cfg startedAt rounds) ∧ ∀ p, (pollOnce (.start startedAt) p).Quiet := by
  have hstart : Tidy (.start startedAt) := .of_opened rfl
  refine ⟨mirrorLaw_run startedAt, fun cfg rounds ↦ ⟨pump_eq_run cfg _ rounds, ?_⟩, fun p ↦ ?_⟩
  · exact (tidy_pump cfg hstart rounds).quiet
  · exact (tidy_pollOnce hstart rfl p).quiet

/-! ## What is not so -/

/-- Every line that is served is written, and none after the settlement. -/
structure LossFree (polls : List Poll) : Prop where
  complete : ∀ l ∈ served (polls.flatMap Poll.ops), l ∈ (run mirrorStep (.start 0) (polls.flatMap Poll.ops)).iterLog
  quiet : (run mirrorStep (.start 0) (polls.flatMap Poll.ops)).Quiet

def statOf (n : ℕ) : Option StatRecord := some ⟨none, ⟨some n, JsText.decimal n⟩, ['1'], ['1'], ['1']⟩

def pollOf (iters : List ℕ) (finished : Option (Option CloudFinished)) : Poll where
  status := some ⟨some "Running", finished, none⟩
  okAt := 0
  stats := some ⟨some (iters.map statOf), none⟩
  pulse := none
  frame := none

/-- An answer with iteration 5 before iteration 3; and a poll after the one that has settled the run. -/
theorem not_lossFree :
    ¬ LossFree [pollOf [5, 3] none] ∧
      ¬ LossFree [pollOf [0] (some (some ⟨some "completed", none, none, none⟩)), pollOf [0, 1] none] := by
  constructor
  · intro h
    have hthree := h.complete ⟨3, "AMICODE_ITER iter=3 f=1 inf_pr=1 inf_du=1".toList⟩ (by decide +kernel)
    exact absurd hthree (by decide +kernel)
  · intro h
    have hclosed := h.quiet [.iter ⟨0, "AMICODE_ITER iter=0 f=1 inf_pr=1 inf_du=1".toList⟩] (by decide +kernel)
    exact absurd hclosed (by decide +kernel)

end Amicode.Cloud
