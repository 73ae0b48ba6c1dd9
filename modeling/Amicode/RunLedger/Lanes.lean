import Amicode.Plan.State

/-!
# The lanes of the run ledger

Replayed and simulated work has rows of its own in the ledger, and these must not tell on real work: whatever
such rows are inserted or deleted, at any places, the states of steps, advisories and plans, the precedents and
the aggregated defaults stay as they are. Each of these derivations reads the rows of some kinds, and has to
select each kind by lane.

All do but one. The aggregation selects its solves by lane and then counts a solve as verified for any agreeing
verdict on its problem. The law holds of a ledger exactly if every solve of real work has an agreeing verdict of
real work already (`laneLaw_iff`): only then has a simulated verdict nothing to add.
-/

namespace Amicode.RunLedger

open Observation Plan List

/-- The records that count as real work: those that state no source, or the user. -/
def onLane (r : LedgerRecord) : Bool := inLane r.source?

/-! ## Derivations that read the lane only -/

theorem onLane_of_isRowOf {planHash : String} (r : LedgerRecord) (h : isRowOf planHash r = true) :
    onLane r = true := by
  cases r <;> simp_all [isRowOf, onLane, LedgerRecord.source?]

theorem reads_userSolves : Reads onLane userSolves := by
  refine reads_filterMap_filter fun a s hs hq ↦ ?_
  obtain rfl := LedgerRecord.solve?_eq_some.mp hs
  simp_all [onLane, LedgerRecord.source?, inLane]

/-- The verdicts of real work. -/
def laneVerdicts (records : List LedgerRecord) : List VerdictRecord :=
  (records.filterMap LedgerRecord.verdict?).filter fun r ↦ r.source = none || r.source = some .user

theorem reads_laneVerdicts : Reads onLane laneVerdicts := by
  refine reads_filterMap_filter fun a r hr hq ↦ ?_
  obtain rfl := LedgerRecord.verdict?_eq_some.mp hr
  exact hq

theorem reads_precedentIn (structureHash : String) : Reads onLane (precedentIn · structureHash) :=
  reads_userSolves.comp₂ reads_laneVerdicts fun solves verdicts ↦
    let attempts := solves.filter fun (s : SolveRecord) ↦ s.structure_hash = structureHash
    Precedent.mk attempts.length (verifiedCount attempts (agreedProblems verdicts))

/-! ## The law -/

/-- Two answers are the same in what they recommend and how far it can be trusted. -/
structure SameAnswer (a b : QueryResult) : Prop where
  total : a.total = b.total
  verified : a.verified = b.verified
  params : a.params = b.params
  confidence : a.confidence = b.confidence

/-- What is owed of a ledger: rows of replayed and simulated work can be inserted and deleted. -/
structure LaneLaw (records : List LedgerRecord) : Prop where
  steps : ∀ records', Edits onLane records records' → ∀ planHash steps,
    deriveStepStates records planHash steps = deriveStepStates records' planHash steps
  advisories : ∀ records', Edits onLane records records' → ∀ planHash declared,
    deriveAdvisories records planHash declared = deriveAdvisories records' planHash declared
  plan : ∀ records', Edits onLane records records' → ∀ plan replans,
    derivePlanState records plan replans = derivePlanState records' plan replans
  precedent : ∀ records', Edits onLane records records' → ∀ structureHash,
    precedentIn records structureHash = precedentIn records' structureHash
  aggregate : ∀ records', Edits onLane records records' → ∀ key,
    SameAnswer (aggregate records key) (aggregate records' key)

/-- An agreeing verdict of real work on a problem. -/
def HasLaneAgree (records : List LedgerRecord) (problem_hash : String) : Prop :=
  ∃ r, .verdict r ∈ records ∧ r.verdict = .agree ∧ inLane r.source = true
    ∧ r.problem_hash = some problem_hash

/-! ## Verified solves -/

section Verified

variable {records : List LedgerRecord} {key : QueryKey}

/-- The solves a query is answered from. -/
def matchedIn (records : List LedgerRecord) (key : QueryKey) : List SolveRecord :=
  (matchedSolves (userSolves records) key).1

/-- The hashes that count as verified in a query. -/
def agreedIn (records : List LedgerRecord) : List (Option String) :=
  agreedProblems (records.filterMap LedgerRecord.verdict?)

theorem mem_agreedIn {h : Option String} :
    h ∈ agreedIn records ↔ ∃ r, .verdict r ∈ records ∧ r.verdict = .agree ∧ r.problem_hash = h := by
  simp only [agreedIn, agreedProblems, List.mem_map, mem_filter, mem_filterMap,
    LedgerRecord.verdict?_eq_some, exists_eq_right, decide_eq_true_eq, and_assoc]

theorem reads_matchedIn : Reads onLane (matchedIn · key) :=
  reads_userSolves.comp fun solves ↦ (matchedSolves solves key).1

theorem verified_aggregate :
    (aggregate records key).verified = verifiedCount (matchedIn records key) (agreedIn records) := rfl

theorem confidence_aggregate : (aggregate records key).confidence = if matchedIn records key = [] then .low
    else rankConfidence (matchedIn records key).length (aggregate records key).verified
      ((queryParams (matchedIn records key)).numeric.filterMap fun e ↦ relIQR e.2) := rfl

variable {records' : List LedgerRecord} {problem_hash : String}

theorem sameAnswer_iff (h : matchedIn records key = matchedIn records' key) :
    SameAnswer (aggregate records key) (aggregate records' key)
      ↔ (aggregate records key).verified = (aggregate records' key).verified := by
  refine ⟨SameAnswer.verified, fun hverified ↦ ?_⟩
  refine ⟨congrArg List.length h, hverified, congrArg queryParams h, ?_⟩
  rw [confidence_aggregate, confidence_aggregate, h, hverified]

theorem verifiedCount_eq_length {solves : List SolveRecord} {agreed : List (Option String)} :
    verifiedCount solves agreed = solves.length ↔ ∀ s ∈ solves, some s.problem_hash ∈ agreed := by
  rw [verifiedCount, length_filter_eq_length_iff]
  simp

theorem verifiedCount_lt {solves : List SolveRecord} {agreed agreed' : List (Option String)}
    (hsub : agreed ⊆ agreed') {s : SolveRecord} (hs : s ∈ solves) (hnot : some s.problem_hash ∉ agreed)
    (hmem : some s.problem_hash ∈ agreed') : verifiedCount solves agreed < verifiedCount solves agreed' := by
  have hsublist : (solves.filter fun s ↦ some s.problem_hash ∈ agreed).Sublist
      (solves.filter fun s ↦ some s.problem_hash ∈ agreed') := by
    refine monotone_filter_right solves fun s hs ↦ ?_
    exact decide_eq_true (hsub (of_decide_eq_true hs))
  refine lt_of_le_of_ne hsublist.length_le fun hlength ↦ hnot ?_
  have hin : s ∈ solves.filter fun s ↦ some s.problem_hash ∈ agreed := by
    rw [hsublist.eq_of_length hlength]
    exact mem_filter.mpr ⟨hs, decide_eq_true hmem⟩
  exact of_decide_eq_true (mem_filter.mp hin).2

theorem mem_of_edits (h : Edits onLane records records') {r : LedgerRecord}
    (hr : r ∈ records) (hlane : onLane r = true) : r ∈ records' := by
  have hin : r ∈ records.filter onLane := mem_filter.mpr ⟨hr, hlane⟩
  rw [edits_iff.mp h] at hin
  exact (mem_filter.mp hin).1

theorem HasLaneAgree.edits
    (h : HasLaneAgree records problem_hash) (hedits : Edits onLane records records') :
    HasLaneAgree records' problem_hash := by
  obtain ⟨r, hr, hagree, hlane, hhash⟩ := h
  exact ⟨r, mem_of_edits hedits hr hlane, hagree, hlane, hhash⟩

theorem HasLaneAgree.mem_agreedIn (h : HasLaneAgree records problem_hash) :
    some problem_hash ∈ agreedIn records := by
  obtain ⟨r, hr, hagree, -, hhash⟩ := h
  exact RunLedger.mem_agreedIn.mpr ⟨r, hr, hagree, hhash⟩

def simulatedAgree (problem_hash : String) : VerdictRecord :=
  { ts := "", problem_hash := some problem_hash, verdict := .agree, plan_hash := none, step_id := none
    source := some .simulated }

theorem not_mem_agreedIn_lane (h : ¬ HasLaneAgree records problem_hash) :
    some problem_hash ∉ agreedIn (records.filter onLane) := by
  intro hmem
  obtain ⟨r, hr, hagree, hhash⟩ := mem_agreedIn.mp hmem
  obtain ⟨hr, hlane⟩ := mem_filter.mp hr
  exact h ⟨r, hr, hagree, hlane, hhash⟩

theorem verified_lt_of_not {s : SolveRecord} (hs : s ∈ matchedIn records key)
    (hnot : ¬ HasLaneAgree records s.problem_hash) : (aggregate (records.filter onLane) key).verified
      < (aggregate (.verdict (simulatedAgree s.problem_hash) :: records.filter onLane) key).verified := by
  have hlane : matchedIn records key = matchedIn (records.filter onLane) key :=
    reads_matchedIn _ _ (edits_filter onLane records)
  have hadded : matchedIn (records.filter onLane) key
      = matchedIn (.verdict (simulatedAgree s.problem_hash) :: records.filter onLane) key :=
    reads_matchedIn _ _ (.rel _ _ (.mk [] _ _ rfl))
  rw [verified_aggregate, verified_aggregate, ← hadded, ← hlane]
  refine verifiedCount_lt ?_ hs (not_mem_agreedIn_lane hnot) ?_
  · intro h hh
    obtain ⟨r, hr, hagree, hhash⟩ := mem_agreedIn.mp hh
    exact mem_agreedIn.mpr ⟨r, mem_cons_of_mem _ hr, hagree, hhash⟩
  · exact mem_agreedIn.mpr ⟨_, mem_cons_self, rfl, rfl⟩

/-- The answer to a query does not depend on rows outside the lane exactly if every solve that matches is
verified in the lane. -/
theorem aggregate_lane_iff :
    (∀ records', Edits onLane records records' → SameAnswer (aggregate records key) (aggregate records' key))
      ↔ ∀ s ∈ matchedIn records key, HasLaneAgree records s.problem_hash := by
  constructor
  · intro h s hs
    by_contra hnot
    have hlane := (h _ (edits_filter onLane records)).verified
    have hadded := (h (.verdict (simulatedAgree s.problem_hash) :: records.filter onLane)
      ((edits_filter onLane records).trans (.rel _ _ (.mk [] _ _ rfl)))).verified
    exact (verified_lt_of_not hs hnot).ne (hlane.symm.trans hadded)
  · intro h records' hedits
    have hmatched : matchedIn records key = matchedIn records' key := reads_matchedIn _ _ hedits
    refine (sameAnswer_iff hmatched).mpr ?_
    have hverified : verifiedCount (matchedIn records key) (agreedIn records) = (matchedIn records key).length :=
      verifiedCount_eq_length.mpr fun s hs ↦ (h s hs).mem_agreedIn
    have hverified' :
        verifiedCount (matchedIn records key) (agreedIn records') = (matchedIn records key).length :=
      verifiedCount_eq_length.mpr fun s hs ↦ ((h s hs).edits hedits).mem_agreedIn
    rw [verified_aggregate, verified_aggregate, ← hmatched, hverified, hverified']

end Verified

/-! ## The law holds exactly if every solve is verified in the lane -/

/-- The key that a solve matches with no goal and no fallback. -/
def keyOf (s : SolveRecord) : QueryKey :=
  { structure_hash := s.structure_hash, n_bucket := bucketN s.summary.N, t_bucket := bucketT s.summary.T
    goal := none, platform := none, template := none, trajectory := none, levels := none }

theorem mem_matchedSolves_keyOf {solves : List SolveRecord} {s : SolveRecord} (hs : s ∈ solves) :
    s ∈ (matchedSolves solves (keyOf s)).1 := by
  have hfallback : solves.filter (fallbackMatch (keyOf s)) = [] :=
    filter_eq_nil_iff.mpr fun _ _ ↦ Bool.false_ne_true
  have hprimary : primaryMatch (keyOf s) s = true := by
    simp [primaryMatch, bucketMatch, goalMatch, keyOf]
  simp only [matchedSolves, hfallback, length_nil, Nat.not_lt_zero, and_false, if_false]
  exact mem_filter.mpr ⟨hs, hprimary⟩

theorem mem_of_mem_matchedSolves {solves : List SolveRecord} {key : QueryKey} {s : SolveRecord}
    (hs : s ∈ (matchedSolves solves key).1) : s ∈ solves := by
  simp only [matchedSolves] at hs
  split_ifs at hs <;> exact (mem_filter.mp hs).1

theorem laneLaw_iff (records : List LedgerRecord) :
    LaneLaw records ↔ ∀ s ∈ userSolves records, HasLaneAgree records s.problem_hash := by
  constructor
  · intro h s hs
    exact aggregate_lane_iff.mp (fun records' hedits ↦ h.aggregate records' hedits (keyOf s)) s
      (mem_matchedSolves_keyOf hs)
  · intro h
    refine ⟨?_, ?_, ?_, ?_, ?_⟩
    · exact fun records' hedits planHash steps ↦
        (reads_deriveStepStates steps).mono onLane_of_isRowOf _ _ hedits
    · exact fun records' hedits planHash declared ↦
        (reads_deriveAdvisories declared).mono onLane_of_isRowOf _ _ hedits
    · exact fun records' hedits plan replans ↦
        (reads_derivePlanState plan replans).mono onLane_of_isRowOf _ _ hedits
    · exact fun records' hedits structureHash ↦ reads_precedentIn structureHash _ _ hedits
    · intro records' hedits key
      exact aggregate_lane_iff.mpr (fun s hs ↦ h s (mem_of_mem_matchedSolves hs)) records' hedits

/-- A solve of real work with no verdict. -/
def unverifiedSolve : SolveRecord :=
  { ts := "t", structure_hash := "s", problem_hash := "p", kind := "direct", tier := "local"
    summary := { platform := "transmon", template := "smooth", trajectory := "unitary", N := 50, T := 10
                 goal := "X", solver := "ipopt", strategy := "direct", levels := none, Q := some 100
                 R := none, du_bound := none, max_iter := none, integrator := none }
    source := .user
    outcome := { converged := true, fidelity := 1, iterations := 10, wall_s := none }
    plan_hash := none }

/-- A simulated verdict makes the solve a verified one. -/
theorem not_laneLaw_simulated : ¬ LaneLaw [.solve unverifiedSolve] := by
  intro h
  have hverified := (h.aggregate [.solve unverifiedSolve, .verdict (simulatedAgree "p")]
    (.rel _ _ (.mk [_] [] _ rfl)) (keyOf unverifiedSolve)).verified
  revert hverified
  decide +kernel

end Amicode.RunLedger
