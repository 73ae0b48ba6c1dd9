import Amicode.Foundation.InsertionMap
import Amicode.Foundation.JsData
import Mathlib.Data.Int.ConditionallyCompleteOrder
import Mathlib.Order.ConditionallyCompleteLattice.Basic

/-!
# The status of a device

A device is calibrated along a graph of nodes (`device_graph.ts`). `evaluate` gives each node a status from its last
record, and makes suspect what is calibrated but depends on something that is not. `buildDeviceStatus` adds what the
records have measured: for each key that a node produces, the number in the record of that node. Where several nodes
produce a key, the one that is listed last is reported, whenever it was measured (`freshest_iff`).

A graph is given as it is loaded, with its order and its depths. What the runtime does with numbers and dates is a
parameter.
-/

namespace Amicode.Calibration

open JsonTree JsData

variable {ν : Type}

/-- Numbers and dates, as the runtime has them. -/
structure DeviceNumbers (ν : Type) extends Numbers ν where
  /-- `x > y`. -/
  gt : ν → ν → Bool
  /-- `Date.parse`, in milliseconds; none for NaN. -/
  dateParse : Text → Option ℤ
  /-- `(nowMs - tsMs) / 1000`. -/
  secondsSince : ν → ℤ → ν

inductive NodeStatus where
  | calibrated
  | stale
  | suspect
  | failed
  | uncharacterized
deriving DecidableEq

def SEVERITY : NodeStatus → ℕ
  | .calibrated => 0
  | .uncharacterized => 1
  | .stale => 2
  | .suspect => 3
  | .failed => 4

def worseStatus (a b : NodeStatus) : NodeStatus := if SEVERITY a ≥ SEVERITY b then a else b

inductive RecommendedAction where
  | none
  | check
  | calibrate

inductive Impl where
  | standard
  | qilc

structure Threshold (ν : Type) where
  metric : Text
  max : Option ν
  min : Option ν

structure GraphNode (ν : Type) where
  depends_on : List Text
  produces : List Text
  ttl_seconds : Option ν
  impl : Impl
  fallback : Option Text
  qubit : Option Text
  /-- `thresholds.check`. -/
  check : Option (Threshold ν)

structure CalibrationGraph (ν : Type) where
  nodes : InsertionMap Text (GraphNode ν)
  topoOrder : List Text
  depth : Text → ℕ

structure NodeState (ν : Type) where
  value : Option (List (Text × JsData ν))
  ts : Option Text
  status : Option NodeStatus

/-- The records, by the names of the nodes. -/
abbrev Records (ν : Type) := InsertionMap Text (NodeState ν)

/-! ## Evaluation -/

def ACTION_FOR : NodeStatus → RecommendedAction
  | .calibrated => .none
  | .stale | .suspect => .check
  | .uncharacterized | .failed => .calibrate

/-- Seconds since the last result, or infinitely many. -/
inductive Age (ν : Type) where
  | never
  | seconds (x : ν)

/-- The metric of a check is out of its bounds. -/
def breaches (N : DeviceNumbers ν) (check : Threshold ν) (value : List (Text × JsData ν)) : Bool :=
  match own value check.metric with
  | .number m => check.max.any (fun bound ↦ N.gt m bound) || check.min.any (fun bound ↦ N.gt bound m)
  | _ => false

def ownStatus (N : DeviceNumbers ν) (node : GraphNode ν) (st : Option (NodeState ν)) (nowMs : ν) :
    NodeStatus × Age ν :=
  match st.bind fun st ↦ (st.ts.filter (· ≠ [])).bind fun ts ↦ (N.dateParse ts).map fun tsMs ↦ (st, tsMs) with
  | none => (.uncharacterized, .never)
  | some (st, tsMs) =>
    let ageSeconds := N.secondsSince nowMs tsMs
    let status : NodeStatus :=
      if st.status = some .failed then .failed
      else if node.check.any fun check ↦ st.value.any (breaches N check) then .failed
      else if node.ttl_seconds.any fun ttl ↦ N.gt ageSeconds ttl then .stale
      else .calibrated
    (status, .seconds ageSeconds)

def reasonFor (N : DeviceNumbers ν) (status : NodeStatus) (node : GraphNode ν) : Text :=
  match status with
  | .calibrated => ascii "fresh; all dependencies calibrated"
  | .stale =>
    ascii "last result older than ttl (" ++ (node.ttl_seconds.map N.toText).getD [0x221E] ++ ascii "s)"
  | .suspect => ascii "a dependency moved since this node last ran"
  | .failed => ascii "last check breached its threshold or the experiment failed"
  | .uncharacterized => ascii "no recorded result"

structure NodeVerdict (ν : Type) where
  node : Text
  status : NodeStatus
  recommended_action : RecommendedAction
  reason : Text
  ageSeconds : Age ν
  depth : ℕ
  impl : Impl
  fallback : Option Text
  qubit : Option Text

/-- The status of a node in the second pass, from those so far. -/
def settle (nodes : InsertionMap Text (GraphNode ν)) (own : InsertionMap Text (NodeStatus × Age ν))
    (finalStatus : InsertionMap Text NodeStatus) (name : Text) : NodeStatus :=
  match (own.get? name).map Prod.fst with
  | none => .uncharacterized
  | some .calibrated =>
    let deps := ((nodes.get? name).map fun node ↦ node.depends_on.filter nodes.contains).getD []
    if deps.any fun d ↦ finalStatus.get? d ≠ some .calibrated then .suspect else .calibrated
  | some status => status

def cmpAgeDesc (N : DeviceNumbers ν) : Age ν → Age ν → Ordering
  | .never, .never => .eq
  | .never, .seconds _ => .lt
  | .seconds _, .never => .gt
  | .seconds a, .seconds b => if N.gt a b then .lt else if N.gt b a then .gt else .eq

/-- The rank: roots first, then what is oldest, then the name. -/
def cmpVerdict (N : DeviceNumbers ν) (a b : NodeVerdict ν) : Ordering :=
  (compare a.depth b.depth).then ((cmpAgeDesc N a.ageSeconds b.ageSeconds).then
    (if a.node < b.node then .lt else if b.node < a.node then .gt else .eq))

def evaluate (N : DeviceNumbers ν) (graph : CalibrationGraph ν) (state : Records ν) (nowMs : ν) :
    List (NodeVerdict ν) :=
  let own : InsertionMap Text (NodeStatus × Age ν) := (∅ : InsertionMap Text _).setAll
    (graph.nodes.entries.map fun e ↦ (e.1, ownStatus N e.2 (state.get? e.1) nowMs))
  let finalStatus : InsertionMap Text NodeStatus :=
    graph.topoOrder.foldl (fun final name ↦ final.set name (settle graph.nodes own final name)) ∅
  let verdicts := graph.nodes.entries.map fun e ↦
    let status := (finalStatus.get? e.1).getD .uncharacterized
    { node := e.1
      status
      recommended_action := ACTION_FOR status
      reason := reasonFor N status e.2
      ageSeconds := ((own.get? e.1).map Prod.snd).getD .never
      depth := graph.depth e.1
      impl := e.2.impl
      fallback := e.2.fallback
      qubit := e.2.qubit }
  verdicts.mergeSort fun a b ↦ cmpVerdict N a b ≠ .gt

/-! ## The status of the device -/

structure QubitRollup where
  qubit : Text
  status : NodeStatus
  nodeCount : ℕ

structure MetricReading (ν : Type) where
  value : ν
  ts : Option Text
  ageSeconds : Age ν
  status : NodeStatus
  node : Text

structure DeviceStatus (ν : Type) where
  qubits : List QubitRollup
  metrics : InsertionMap Text (MetricReading ν)
  calibrationParams : InsertionMap Text (JsData ν)
  nodes : List (NodeVerdict ν)

/-- What is reported so far: the metrics, and all parameters. -/
abbrev Reported (ν : Type) := InsertionMap Text (MetricReading ν) × InsertionMap Text (JsData ν)

/-- One key of a node: its parameter is reported, and if it is a finite number its metric. -/
def reportKey (N : DeviceNumbers ν) (value : List (Text × JsData ν)) (reading : ν → MetricReading ν)
    (acc : Reported ν) (key : Text) : Reported ν :=
  match own value key with
  | .undefined => acc
  | .number x =>
    (if N.isFinite x then acc.1.set key (reading x) else acc.1, acc.2.set key (.number x))
  | val => (acc.1, acc.2.set key val)

/-- One node: all that it produces, if it has a record with values. -/
def reportNode (N : DeviceNumbers ν) (state : Records ν) (byNode : InsertionMap Text (NodeVerdict ν))
    (acc : Reported ν) (e : Text × GraphNode ν) : Reported ν :=
  match (state.get? e.1).bind fun st ↦ st.value.map fun value ↦ (st, value) with
  | none => acc
  | some (st, value) =>
    let v := byNode.get? e.1
    e.2.produces.foldl (reportKey N value fun x ↦ {
      value := x
      ts := st.ts
      ageSeconds := (v.map NodeVerdict.ageSeconds).getD .never
      status := (v.map NodeVerdict.status).getD .uncharacterized
      node := e.1 }) acc

def rollup (verdicts : List (NodeVerdict ν)) (qubit : Text) : QubitRollup :=
  let nodeVerdicts := verdicts.filter fun v ↦ v.qubit = some qubit
  { qubit
    status := if nodeVerdicts = [] then .uncharacterized
      else nodeVerdicts.foldl (fun acc v ↦ worseStatus acc v.status) .calibrated
    nodeCount := nodeVerdicts.length }

def buildDeviceStatus (N : DeviceNumbers ν) (graph : CalibrationGraph ν) (state : Records ν) (now : ν)
    (qubitsArg : Option (List Text)) : DeviceStatus ν :=
  let verdicts := evaluate N graph state now
  let byNode := (∅ : InsertionMap Text _).setAll (verdicts.map fun v ↦ (v.node, v))
  let qubitSet := qubitsArg.getD (((graph.nodes.values.filterMap GraphNode.qubit).filter (· ≠ [])).dedup.mergeSort
    fun a b ↦ !decide (b < a))
  let reported := graph.nodes.entries.foldl (reportNode N state byNode) (∅, ∅)
  { qubits := qubitSet.map (rollup verdicts)
    metrics := reported.1
    calibrationParams := reported.2
    nodes := verdicts }

/-! ## The law -/

/-- A number that a record has, and when it was measured. -/
structure Measurement (ν : Type) where
  value : ν
  ts : Option Text
deriving DecidableEq

def MetricReading.measurement (r : MetricReading ν) : Measurement ν := ⟨r.value, r.ts⟩

/-- The time of a measurement; one without a valid time is older than any other. -/
def Measurement.time (N : DeviceNumbers ν) (m : Measurement ν) : WithBot ℤ := m.ts.bind N.dateParse

def finite? (N : DeviceNumbers ν) : JsData ν → Option ν
  | .number x => if N.isFinite x then some x else none
  | _ => none

def measured (N : DeviceNumbers ν) (state : Records ν) (key : Text) (e : Text × GraphNode ν) :
    Option (Measurement ν) :=
  if key ∈ e.2.produces then
    (state.get? e.1).bind fun st ↦ (st.value.bind fun value ↦ finite? N (own value key)).map (⟨·, st.ts⟩)
  else none

def measurements (N : DeviceNumbers ν) (graph : CalibrationGraph ν) (state : Records ν) (key : Text) :
    List (Measurement ν) :=
  graph.nodes.entries.filterMap (measured N state key)

def reading? (N : DeviceNumbers ν) (graph : CalibrationGraph ν) (state : Records ν) (now : ν)
    (qubitsArg : Option (List Text)) (key : Text) : Option (Measurement ν) :=
  ((buildDeviceStatus N graph state now qubitsArg).metrics.get? key).map MetricReading.measurement

structure Freshest (N : DeviceNumbers ν) (graph : CalibrationGraph ν) (state : Records ν) (now : ν)
    (qubitsArg : Option (List Text)) : Prop where
  /-- A measurement is reported if there is one, and none is later than it. -/
  latest : ∀ key, ∀ m ∈ measurements N graph state key, ∃ r ∈ measurements N graph state key,
    reading? N graph state now qubitsArg key = some r ∧ m.time N ≤ r.time N
  measured : ∀ key r, reading? N graph state now qubitsArg key = some r → r ∈ measurements N graph state key
  /-- Nodes and records may be listed in any order. -/
  anyOrder : ∀ (graph' : CalibrationGraph ν) (state' : Records ν), graph'.nodes.entries.Perm graph.nodes.entries →
    state'.entries.Perm state.entries → ∀ key,
      (reading? N graph' state' now qubitsArg key).map Measurement.value =
        (reading? N graph state now qubitsArg key).map Measurement.value

/-- No measurement of a key is later than the one listed last, or has another value. -/
def LastListedDecides (N : DeviceNumbers ν) (graph : CalibrationGraph ν) (state : Records ν) : Prop :=
  ∀ key, ∀ last ∈ (measurements N graph state key).getLast?, ∀ m ∈ measurements N graph state key,
    m.time N ≤ last.time N ∧ m.value = last.value

/-! ## What is reported -/

variable {N : DeviceNumbers ν} {graph graph' : CalibrationGraph ν} {state state' : Records ν} {key : Text}

theorem get?_reportKey (value : List (Text × JsData ν)) (reading : ν → MetricReading ν) (acc : Reported ν)
    (k : Text) : (reportKey N value reading acc k).1.get? key =
      if k = key then ((finite? N (own value key)).map reading).or (acc.1.get? key) else acc.1.get? key := by
  by_cases hk : k = key
  · rw [if_pos hk, ← hk, reportKey]
    rcases own value k with _ | _ | _ | x | _ | _ | _ <;> try rfl
    by_cases hx : N.isFinite x = true <;> simp [finite?, hx]
  · rw [if_neg hk, reportKey]
    rcases own value k with _ | _ | _ | x | _ | _ | _ <;> try rfl
    by_cases hx : N.isFinite x = true <;> simp [hx, InsertionMap.get?_set_of_ne _ _ hk]

theorem get?_foldl_reportKey (value : List (Text × JsData ν)) (reading : ν → MetricReading ν) (produces : List Text)
    (acc : Reported ν) : (produces.foldl (reportKey N value reading) acc).1.get? key =
      if key ∈ produces then ((finite? N (own value key)).map reading).or (acc.1.get? key)
      else acc.1.get? key := by
  induction produces generalizing acc with
  | nil => rfl
  | cons k produces ih =>
    rw [List.foldl_cons, ih, get?_reportKey]
    simp only [List.mem_cons, eq_comm]
    by_cases hmem : key ∈ produces <;> by_cases hk : key = k <;>
      rcases (finite? N (own value key)).map reading with _ | r <;> simp [hmem, hk]

theorem get?_reportNode (byNode : InsertionMap Text (NodeVerdict ν)) (acc : Reported ν) (e : Text × GraphNode ν) :
    ((reportNode N state byNode acc e).1.get? key).map MetricReading.measurement =
      (measured N state key e).or ((acc.1.get? key).map MetricReading.measurement) := by
  unfold reportNode measured
  rcases state.get? e.1 with _ | st
  · simp
  · rcases hvalue : st.value with _ | value
    · simp [hvalue]
    · simp only [Option.bind_some, hvalue, Option.map_some, get?_foldl_reportKey]
      split_ifs
      · rcases finite? N (own value key) with _ | x <;> simp [MetricReading.measurement]
      · simp

theorem reading?_eq_getLast? (now : ν) (qubitsArg : Option (List Text)) :
    reading? N graph state now qubitsArg key = (measurements N graph state key).getLast? := by
  have hfold : ∀ (byNode : InsertionMap Text (NodeVerdict ν)) (es : List (Text × GraphNode ν)) (acc : Reported ν),
      ((es.foldl (reportNode N state byNode) acc).1.get? key).map MetricReading.measurement =
        (es.filterMap (measured N state key)).getLast?.or ((acc.1.get? key).map MetricReading.measurement) := by
    intro byNode es
    induction es with
    | nil => exact fun _ ↦ rfl
    | cons e es ih =>
      intro acc
      rw [List.foldl_cons, ih, get?_reportNode, List.filterMap_cons]
      rcases measured N state key e with _ | m
      · rfl
      · rw [List.getLast?_cons, Option.some_or]
        rcases (es.filterMap (measured N state key)).getLast? with _ | last <;> rfl
  exact (hfold _ _ _).trans (Option.or_none ..)

/-! ## The order of nodes and records -/

theorem measurements_perm (hnodes : graph'.nodes.entries.Perm graph.nodes.entries)
    (hstate : state'.entries.Perm state.entries) :
    (measurements N graph' state' key).Perm (measurements N graph state key) := by
  have hget : ∀ name, state'.get? name = state.get? name := fun name ↦ Option.ext fun st ↦ by
    rw [InsertionMap.get?_eq_some_iff, InsertionMap.get?_eq_some_iff, hstate.mem_iff]
  have hmeasured : measured N state' key = measured N state key := funext fun e ↦ by
    rw [measured, measured, hget]
  unfold measurements
  rw [hmeasured]
  exact hnodes.filterMap _

/-- Any measurement is the one that counts, if its node is listed last. -/
theorem exists_reordered {m : Measurement ν} (hm : m ∈ measurements N graph state key) :
    ∃ graph' : CalibrationGraph ν, graph'.nodes.entries.Perm graph.nodes.entries ∧
      (measurements N graph' state key).getLast? = some m := by
  obtain ⟨e, he, hmeasured⟩ := List.mem_filterMap.mp hm
  obtain ⟨before, after, hsplit⟩ := List.append_of_mem he
  have hperm : (before ++ after ++ [e]).Perm graph.nodes.entries := by
    rw [hsplit]
    exact (List.perm_append_singleton e _).trans List.perm_middle.symm
  refine ⟨{ graph with nodes := ⟨before ++ after ++ [e], ?_⟩ }, hperm, ?_⟩
  · exact (hperm.map Prod.fst).nodup_iff.mpr graph.nodes.nodup
  · simp [measurements, List.filterMap_append, hmeasured]

/-- The freshest measurements are reported, whatever the order of the nodes and the records, if and only if for
each key the one listed last is as late as any and all have its value. -/
theorem freshest_iff (N : DeviceNumbers ν) (graph : CalibrationGraph ν) (state : Records ν) (now : ν)
    (qubitsArg : Option (List Text)) :
    Freshest N graph state now qubitsArg ↔ LastListedDecides N graph state := by
  constructor
  · intro h key last hlast m hm
    constructor
    · obtain ⟨r, -, hr, hle⟩ := h.latest key m hm
      rw [reading?_eq_getLast?, hlast] at hr
      exact Option.some.inj hr ▸ hle
    · obtain ⟨graph', hperm, hm'⟩ := exists_reordered hm
      have heq := h.anyOrder graph' state hperm (.refl _) key
      rw [reading?_eq_getLast?, reading?_eq_getLast?, hm', hlast] at heq
      exact Option.some.inj heq
  · intro h
    refine ⟨fun key m hm ↦ ?_, fun key r hr ↦ ?_, fun graph' state' hnodes hstate key ↦ ?_⟩
    · have hlast := List.getLast?_eq_some_getLast (List.ne_nil_of_mem hm)
      exact ⟨_, List.getLast_mem _, (reading?_eq_getLast? now qubitsArg).trans hlast, (h key _ hlast m hm).1⟩
    · rw [reading?_eq_getLast?] at hr
      exact List.mem_of_getLast? hr
    · have hperm := @measurements_perm _ N _ _ _ _ key hnodes hstate
      rw [reading?_eq_getLast?, reading?_eq_getLast?]
      rcases hlast' : (measurements N graph' state' key).getLast? with _ | m
      · rw [List.getLast?_eq_none_iff] at hlast'
        rw [hlast'] at hperm
        rw [← hperm.nil_eq]
        rfl
      · have hm := hperm.mem_iff.mp (List.mem_of_getLast? hlast')
        have hlast := List.getLast?_eq_some_getLast (List.ne_nil_of_mem hm)
        rw [hlast]
        exact congrArg some (h key _ hlast m hm).2

/-- Two nodes measure the same, the one that is listed last on the day before. -/
theorem not_freshest_dayBefore : ∃ (N : DeviceNumbers ℤ) (graph : CalibrationGraph ℤ) (state : Records ℤ),
    ¬ Freshest N graph state 0 none := by
  let node : GraphNode ℤ := ⟨[], [ascii "T1"], none, .standard, none, none, none⟩
  let today : NodeState ℤ := ⟨some [(ascii "T1", .number 40)], some (ascii "2026-05-02"), none⟩
  let before : NodeState ℤ := ⟨some [(ascii "T1", .number 90)], some (ascii "2026-05-01"), none⟩
  let N : DeviceNumbers ℤ := {
    toText := fun x ↦ if x = 40 then ascii "40" else ascii "90"
    isFinite := fun _ ↦ true
    gt := fun x y ↦ decide (x > y)
    dateParse := fun s ↦ if s = ascii "2026-05-02" then some 1777680000000 else some 1777593600000
    secondsSince := fun now ts ↦ (now - ts) / 1000 }
  let nodes := (∅ : InsertionMap Text _).setAll [(ascii "ramsey", node), (ascii "t1", node)]
  let graph : CalibrationGraph ℤ := ⟨nodes, [ascii "ramsey", ascii "t1"], fun _ ↦ 0⟩
  let state : Records ℤ := (∅ : InsertionMap Text _).setAll [(ascii "ramsey", today), (ascii "t1", before)]
  refine ⟨N, graph, state, fun h ↦ ?_⟩
  obtain ⟨r, -, hr, hle⟩ := h.latest (ascii "T1") ⟨40, some (ascii "2026-05-02")⟩ (by decide)
  rw [reading?_eq_getLast?] at hr
  obtain rfl : (⟨90, some (ascii "2026-05-01")⟩ : Measurement ℤ) = r := Option.some.inj hr
  exact absurd hle (by decide)

end Amicode.Calibration
