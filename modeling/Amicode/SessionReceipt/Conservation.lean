import Amicode.Foundation.StepMachine
import Amicode.SessionReceipt.Store
import Mathlib.Tactic.NormNum

/-!
# What the receipts of a root add up to

The calls of any sessions, with a reader that pages through the receipts of one session between them. A reservation
is admitted if it fits into the budget, the receipts of an operation appear together when it commits, those of a
root are numbered from one, and the reader gets each of them once.

A publication that fails is to leave the reserved totals of the root as they were. It does unless its evidence
cannot be written: that happens between the two transactions, and nothing takes the reservation back
(`receiptLaw_run_iff`).
-/

namespace Amicode.SessionReceipt

open StepMachine List

/-! ## Runs -/

inductive Call
  | reserve (input : ReservationInput)
  | commit (id : String) (receipts : List Fact) (evidenceReceiptIDs : List String)
  | abort (id : String)
  /-- `throws` if the evidence cannot be written. -/
  | publish (input : ReservationInput) (throws : Bool)

def Db.call (db : Db) : Call → Db.Result
  | .reserve input =>
    match db.reserve input with
    | .ok db' => ⟨db', none⟩
    | .error failure => ⟨db, some failure⟩
  | .commit id receipts evidenceReceiptIDs => db.commit id receipts evidenceReceiptIDs
  | .abort id => ⟨db.abort id, none⟩
  | .publish input throws => db.publish input throws

/-- The tables, and a reader that pages through the receipts of a session. -/
structure World where
  db : Db
  cursor : Option ℕ
  /-- The receipts of the pages so far. -/
  read : List Receipt
  finished : Bool

inductive Op
  | call (call : Call)
  /-- The reader takes its next page. -/
  | page (limit : ℤ)

/-- No call has been made, and no page read. -/
def World.start (lineage : String → Option String) : World := ⟨.empty lineage, none, [], false⟩

/-- The reader takes a page, unless it has had the last one. -/
def World.readPage (sessionID : String) (s : World) (limit : ℤ) : World :=
  if s.finished then s
  else
    match s.db.page sessionID (s.cursor.map Int.ofNat) limit with
    | .error _ => s
    | .ok page =>
      { s with
        cursor := page.nextCursor
        read := s.read ++ page.receipts
        finished := page.nextCursor.isNone }

/-- One call, or one page of the reader of a session. -/
def World.step (sessionID : String) (s : World) : Op → World
  | .call call => { s with db := (s.db.call call).db }
  | .page limit => s.readPage sessionID limit

/-! ## The law -/

/-- The reservation fits into the budget of the root of its session, and its id is new. -/
def Admissible (db : Db) (input : ReservationInput) : Prop :=
  ∃ rootID ∈ db.lineage input.sessionID, input.id ∉ db.operations.map (·.id) ∧
    ((input.receipts.length + db.reservedReceipts rootID : ℕ) : ℚ) ≤ input.budget.maxReceipts ∧
      ((metadataSize input.receipts + db.reservedMetadataBytes rootID : ℕ) : ℚ) ≤ input.budget.maxMetadataBytes

/-- The receipts of an operation are added to the others, when it commits. -/
structure Published (before after : Db) (id : String) (facts : List Fact) : Prop where
  none_before : ∀ receipt ∈ before.receipts, receipt.operation_id ≠ id
  committed : ∃ row ∈ after.operations, row.id = id ∧ row.state = .committed
  added : ∃ rows : List Receipt, after.receipts = before.receipts ++ rows ∧ rows.map (·.fact) = facts ∧
    ∀ row ∈ rows, row.operation_id = id

/-- What is owed for an operation. -/
structure ReceiptLaw (sessionID : String) (s : World) (op : Op) : Prop where
  /-- A publication that fails leaves the reserved totals as they were. -/
  failed : ∀ input throws, op = .call (.publish input throws) → (s.db.publish input throws).failure ≠ none →
    ∀ rootID, (s.db.publish input throws).db.reservedReceipts rootID = s.db.reservedReceipts rootID ∧
      (s.db.publish input throws).db.reservedMetadataBytes rootID = s.db.reservedMetadataBytes rootID
  /-- A reservation is admitted if and only if the totals with it stay within the budget. -/
  admitted : ∀ input, op = .call (.reserve input) →
    ((s.db.call (.reserve input)).failure = none ↔ Admissible s.db input)
  /-- Receipts appear together, at the commit of their operation. -/
  together : (s.step sessionID op).db.receipts = s.db.receipts ∨
    ∃ id facts, Published s.db (s.step sessionID op).db id facts
  committed : ∀ receipt ∈ (s.step sessionID op).db.receipts, ∃ row ∈ (s.step sessionID op).db.operations,
    row.id = receipt.operation_id ∧ row.state = .committed
  /-- The receipts of a root are numbered from one. -/
  numbered : ∀ rootID, ((s.step sessionID op).db.receiptsOf rootID).map (·.creation_seq)
    = List.range' 1 ((s.step sessionID op).db.receiptsOf rootID).length
  /-- The pages so far are the first receipts of the root. -/
  read : ∀ rootID ∈ s.db.lineage sessionID,
    (s.step sessionID op).read <+: (s.step sessionID op).db.receiptsOf rootID
  /-- With the last page they are all of them. -/
  finished : s.finished = false → (s.step sessionID op).finished = true →
    ∀ rootID ∈ s.db.lineage sessionID, (s.step sessionID op).read = (s.step sessionID op).db.receiptsOf rootID

/-- Evidence that is within its budget is written. -/
def Written (s : World) : Op → Prop
  | .call (.publish input true) => Admissible s.db input → input.evidence ≠ [] →
    input.budget.maxEvidenceBytes.getD 0 < (input.evidence.map fun entry ↦ byteLength entry.content.toList).sum
  | _ => True

/-! ## Reservations -/

variable {db : Db} {input : ReservationInput}

theorem metadataSize_pos (receipts : List Fact) : 0 < metadataSize receipts := by
  rw [metadataSize, JsText.stringify, byteLength, map_cons, sum_cons]
  exact Nat.add_pos_left (Char.utf8Size_pos _) _

variable {db' : Db}

/-- A reservation adds its row if it is admissible, and fails otherwise. -/
theorem reserve_iff : db.reserve input = .ok db' ↔ Admissible db input ∧ ∃ rootID ∈ db.lineage input.sessionID,
      db' = { db with operations := db.operations ++ [Db.preparedRow input rootID] } := by
  unfold Db.reserve Db.root Admissible
  cases hroot : db.lineage input.sessionID with
  | none => simp
  | some rootID =>
    have hreceipts : (input.receipts.length : ℚ) ≤ (input.receipts.length + db.reservedReceipts rootID : ℕ) := by
      exact_mod_cast Nat.le_add_right _ _
    have hbytes : (metadataSize input.receipts : ℚ)
        ≤ (metadataSize input.receipts + db.reservedMetadataBytes rootID : ℕ) := by
      exact_mod_cast Nat.le_add_right _ _
    simp only [Option.mem_def, Option.some.injEq, exists_eq_left']
    split_ifs with hexceeded hexhausted hknown
    · -- what exceeds the budget alone exceeds it with the others
      refine iff_of_false id ?_
      rintro ⟨⟨-, hr, hb⟩, -⟩
      rcases hexceeded with h | h
      · exact absurd (hreceipts.trans hr) (not_le.mpr h)
      · exact absurd (hbytes.trans hb) (not_le.mpr h)
    · refine iff_of_false id ?_
      rintro ⟨⟨-, hr, hb⟩, -⟩
      rcases hexhausted with h | h
      · exact absurd hr (not_le.mpr h)
      · exact absurd hb (not_le.mpr h)
    · exact iff_of_false id fun h ↦ h.1.1 hknown
    · rw [not_or, not_lt, not_lt] at hexhausted
      rw [Except.ok.injEq]
      exact ⟨fun h ↦ ⟨⟨hknown, hexhausted⟩, h.symm⟩, fun h ↦ h.2.symm⟩

variable {rootID : String}

theorem abort_reserved (hnew : input.id ∉ db.operations.map (·.id)) :
    Db.abort { db with operations := db.operations ++ [Db.preparedRow input rootID] } input.id = db := by
  have hkept : db.operations.filter (fun row ↦ ¬ (row.id = input.id ∧ row.state = .prepared)) = db.operations :=
    filter_eq_self.mpr fun row hrow ↦ by
      have hne : row.id ≠ input.id := fun heq ↦ hnew (heq ▸ List.mem_map_of_mem hrow)
      simp [hne]
  unfold Db.abort
  rw [filter_append, hkept]
  simp [Db.preparedRow]

/-! ## Commits -/

structure Commits (db db' : Db) (id : String) (facts : List Fact) (row : Operation) : Prop where
  mem : row ∈ db.operations
  id_eq : row.id = id
  prepared : row.state = .prepared
  lineage : db'.lineage = db.lineage
  operations : db'.operations = db.operations.map fun r ↦ if r.id = id then { r with state := .committed } else r
  receipts : db'.receipts = db.receipts ++
    Db.newReceipts id row.root_id ((db.receiptsOf row.root_id).map (·.creation_seq)).max? facts

variable {facts : List Fact} {id : String}

theorem commits_of_ok {evidenceReceiptIDs : List String}
    (h : db.commitTransaction id facts evidenceReceiptIDs = .ok db') : ∃ row, Commits db db' id facts row := by
  unfold Db.commitTransaction at h
  split at h
  · cases h
  · next row hrow =>
    have hid : row.id = id := by simpa using find?_some hrow
    split_ifs at h with hstate hmismatch hevidence
    dsimp only at h
    split at h
    · cases h
    · next inserted hinserted =>
      unfold Db.insertReceipts at hinserted
      split at hinserted
      · cases hinserted
      · split_ifs at hinserted with hnodup
        cases hinserted
        cases h
        refine ⟨row, mem_of_find?_eq_some hrow, hid, not_ne_iff.mp hstate, rfl, ?_, rfl⟩
        simp only [Db.setState, List.map_map]
        refine map_congr_left fun r _ ↦ ?_
        by_cases hr : r.id = id <;> simp [hr]

/-- What holds of the tables in every run. -/
structure Db.Sound (db : Db) : Prop where
  ids : (db.operations.map (·.id)).Nodup
  owned : ∀ receipt ∈ db.receipts, ∃ row ∈ db.operations, row.id = receipt.operation_id ∧ row.state = .committed
  numbered : ∀ rootID, (db.receiptsOf rootID).map (·.creation_seq) = List.range' 1 (db.receiptsOf rootID).length

theorem max?_range' (n : ℕ) : (List.range' 1 n).max?.getD 0 = n := by
  rcases n with _ | n
  · rfl
  · have hmax : (List.range' 1 (n + 1)).max? = some (n + 1) :=
      max?_eq_some_iff.mpr ⟨mem_range'_1.mpr (by omega), fun b hb ↦ by
        have := mem_range'_1.mp hb
        omega⟩
    rw [hmax]
    rfl

section NewReceipts

variable {id rootID : String} {latest : Option ℕ} {facts : List Fact} {receipt : Receipt}

theorem map_fact_newReceipts : (Db.newReceipts id rootID latest facts).map (·.fact) = facts := by
  refine ext_getElem? fun i ↦ ?_
  simp only [Db.newReceipts, getElem?_map, getElem?_mapIdx, Option.map_map]
  cases facts[i]? <;> rfl

theorem length_newReceipts : (Db.newReceipts id rootID latest facts).length = facts.length := length_mapIdx

theorem map_creation_seq_newReceipts :
    (Db.newReceipts id rootID latest facts).map (·.creation_seq) = List.range' (latest.getD 0 + 1) facts.length := by
  refine ext_getElem (by simp [Db.newReceipts]) fun i hi _ ↦ ?_
  simp [Db.newReceipts]
  omega

theorem mem_newReceipts (h : receipt ∈ Db.newReceipts id rootID latest facts) :
    receipt.operation_id = id ∧ receipt.root_id = rootID := by
  obtain ⟨i, hi, rfl⟩ := mem_mapIdx.mp h
  exact ⟨rfl, rfl⟩

end NewReceipts

variable {row : Operation} {throws : Bool}

section

variable (hdb : db.Sound) (h : Commits db db' id facts row)

include hdb h

theorem Commits.receiptsOf (rootID : String) : db.receiptsOf rootID <+: db'.receiptsOf rootID ∧
      (db'.receiptsOf rootID).map (·.creation_seq) = List.range' 1 (db'.receiptsOf rootID).length := by
  have happend : db'.receiptsOf rootID = db.receiptsOf rootID ++ (Db.newReceipts id row.root_id
      ((db.receiptsOf row.root_id).map (·.creation_seq)).max? facts).filter (·.root_id = rootID) := by
    rw [Db.receiptsOf, h.receipts, filter_append]
    rfl
  refine ⟨happend ▸ prefix_append _ _, ?_⟩
  rw [happend]
  by_cases hroot : row.root_id = rootID
  · -- the numbers go on behind the last one
    have hall : (Db.newReceipts id row.root_id ((db.receiptsOf row.root_id).map (·.creation_seq)).max? facts).filter
        (·.root_id = rootID) = Db.newReceipts id row.root_id
          ((db.receiptsOf row.root_id).map (·.creation_seq)).max? facts :=
      filter_eq_self.mpr fun receipt hreceipt ↦ by simpa using (mem_newReceipts hreceipt).2.trans hroot
    rw [hall, map_append, map_creation_seq_newReceipts, length_append, length_newReceipts, hroot,
      hdb.numbered, max?_range', Nat.add_comm _ 1, range'_append_1]
  · have hnone : (Db.newReceipts id row.root_id ((db.receiptsOf row.root_id).map (·.creation_seq)).max? facts).filter
        (·.root_id = rootID) = [] :=
      filter_eq_nil_iff.mpr fun receipt hreceipt ↦ by simpa [(mem_newReceipts hreceipt).2] using hroot
    rw [hnone, append_nil]
    exact hdb.numbered rootID

theorem Commits.sound : db'.Sound := by
  refine ⟨?_, fun receipt hreceipt ↦ ?_, fun rootID ↦ (h.receiptsOf hdb rootID).2⟩
  · have hids : db'.operations.map (·.id) = db.operations.map (·.id) := by
      rw [h.operations, List.map_map]
      refine map_congr_left fun r _ ↦ ?_
      by_cases hr : r.id = id <;> simp [hr]
    rw [hids]
    exact hdb.ids
  · rw [h.receipts] at hreceipt
    rw [h.operations]
    rcases mem_append.mp hreceipt with hreceipt | hreceipt
    · -- a committed operation stays committed
      obtain ⟨r, hr, hid, hstate⟩ := hdb.owned receipt hreceipt
      refine ⟨_, List.mem_map_of_mem hr, ?_⟩
      by_cases hr' : r.id = id
      · rw [if_pos hr']
        exact ⟨hid, rfl⟩
      · rw [if_neg hr']
        exact ⟨hid, hstate⟩
    · rw [(mem_newReceipts hreceipt).1]
      exact ⟨_, List.mem_map_of_mem h.mem, by rw [if_pos h.id_eq]; exact ⟨h.id_eq, rfl⟩⟩

theorem Commits.published : Published db db' id facts := by
  refine ⟨fun receipt hreceipt heq ↦ ?_, ?_, _, h.receipts, ?_, ?_⟩
  · obtain ⟨r, hr, hid, hstate⟩ := hdb.owned receipt hreceipt
    have hsame : r = row := inj_on_of_nodup_map hdb.ids hr h.mem (by rw [hid, heq, h.id_eq])
    rw [hsame, h.prepared] at hstate
    cases hstate
  · rw [h.operations]
    exact ⟨_, List.mem_map_of_mem h.mem, by rw [if_pos h.id_eq]; exact ⟨h.id_eq, rfl⟩⟩
  · exact map_fact_newReceipts
  · exact fun r hr ↦ (mem_newReceipts hr).1

/-! ## What every call keeps -/

end

/-- The tables are sound after a call, and it has added receipts of one operation at most. -/
structure Keeps (before after : Db) : Prop where
  sound : after.Sound
  lineage : after.lineage = before.lineage
  prefix_receiptsOf : ∀ rootID, before.receiptsOf rootID <+: after.receiptsOf rootID
  together : after.receipts = before.receipts ∨ ∃ id facts, Published before after id facts

/-- A change of the operations that leaves those with receipts. -/
theorem keeps_of_operations {operations : List Operation} (hdb : db.Sound) (hids : (operations.map (·.id)).Nodup)
    (hcommitted : ∀ row ∈ db.operations, row.state = .committed → row ∈ operations) :
    Keeps db { db with operations := operations } where
  sound :=
    { ids := hids
      owned := fun receipt hreceipt ↦ by
        obtain ⟨row, hrow, hid, hstate⟩ := hdb.owned receipt hreceipt
        exact ⟨row, hcommitted row hrow hstate, hid, hstate⟩
      numbered := hdb.numbered }
  lineage := rfl
  prefix_receiptsOf := fun rootID ↦ prefix_refl _
  together := .inl rfl

theorem keeps_self (hdb : db.Sound) : Keeps db db := keeps_of_operations hdb hdb.ids fun _ hrow _ ↦ hrow

theorem keeps_abort (hdb : db.Sound) (id : String) : Keeps db (db.abort id) := by
  refine keeps_of_operations hdb ((filter_sublist.map _).nodup hdb.ids) fun row hrow hstate ↦ ?_
  exact mem_filter.mpr ⟨hrow, by simp [hstate]⟩

theorem keeps_reserved (hdb : db.Sound) (rootID : String) (hnew : input.id ∉ db.operations.map (·.id)) :
    Keeps db { db with operations := db.operations ++ [Db.preparedRow input rootID] } := by
  refine keeps_of_operations hdb ?_ fun row hrow _ ↦ mem_append_left _ hrow
  rw [map_append]
  exact nodup_append.mpr ⟨hdb.ids, nodup_singleton _, fun a ha b hb heq ↦ hnew (by
    rw [mem_singleton.mp hb] at heq
    exact (show a = input.id from heq) ▸ ha)⟩

theorem keeps_commit (hdb : db.Sound) (id : String) (facts : List Fact) (evidenceReceiptIDs : List String) :
    Keeps db (db.commit id facts evidenceReceiptIDs).db := by
  unfold Db.commit
  split
  · next db' hok =>
    obtain ⟨row, hcommits⟩ := commits_of_ok hok
    exact ⟨hcommits.sound hdb, hcommits.lineage, fun rootID ↦ (hcommits.receiptsOf hdb rootID).1,
      .inr ⟨id, facts, hcommits.published hdb⟩⟩
  · exact keeps_abort hdb id

theorem Keeps.trans {db' db'' : Db} (h : Keeps db db') (hreceipts : db'.receipts = db.receipts)
    (h' : Keeps db' db'') : Keeps db db'' := by
  refine ⟨h'.sound, h'.lineage.trans h.lineage, fun rootID ↦ ?_, ?_⟩
  · exact (h.prefix_receiptsOf rootID).trans (h'.prefix_receiptsOf rootID)
  · rcases h'.together with htogether | ⟨id, facts, hpublished⟩
    · exact .inl (htogether.trans hreceipts)
    · exact .inr ⟨id, facts, hreceipts ▸ hpublished.none_before, hpublished.committed, hreceipts ▸ hpublished.added⟩

/-! ## Publications -/

/-- The evidence cannot be written, though it is within its budget. -/
def Unwritten (input : ReservationInput) (throws : Bool) : Prop :=
  throws = true ∧ input.evidence ≠ [] ∧
    ¬ input.budget.maxEvidenceBytes.getD 0 < (input.evidence.map fun entry ↦ byteLength entry.content.toList).sum

theorem publishEvidence_of_unwritten (h : Unwritten input throws) :
    ∃ failure, Db.publishEvidence input throws = .error failure := by
  obtain ⟨rfl, hne, hwithin⟩ := h
  unfold Db.publishEvidence Db.writeEvidence
  rw [if_pos (by simpa using hne), if_neg hwithin, if_pos rfl]
  exact ⟨_, rfl⟩

theorem publishEvidence_of_not_unwritten (h : ¬ Unwritten input throws) :
    ∃ evidence, Db.publishEvidence input throws = .ok evidence := by
  unfold Db.publishEvidence Db.writeEvidence
  split_ifs with hne hover hthrows
  · exact ⟨_, rfl⟩
  · exact absurd ⟨hthrows, by simpa using hne, hover⟩ h
  · exact ⟨_, rfl⟩
  · exact ⟨_, rfl⟩

theorem publish_of_not_admissible (throws : Bool) (h : ¬ Admissible db input) :
    (db.publish input throws).db = db ∧ (db.publish input throws).failure ≠ none := by
  unfold Db.publish
  cases hreserve : db.reserve input with
  | ok db' => exact absurd (reserve_iff.mp hreserve).1 h
  | error failure => exact ⟨rfl, by simp⟩

/-- A publication whose evidence cannot be written keeps its reservation. -/
theorem publish_of_unwritten (hroot : db.lineage input.sessionID = some rootID)
    (h : Admissible db input) (hunwritten : Unwritten input throws) :
    (db.publish input throws).db = { db with operations := db.operations ++ [Db.preparedRow input rootID] } ∧
      (db.publish input throws).failure ≠ none := by
  have hreserve : db.reserve input
      = .ok { db with operations := db.operations ++ [Db.preparedRow input rootID] } :=
    reserve_iff.mpr ⟨h, rootID, hroot, rfl⟩
  obtain ⟨failure, hfailure⟩ := publishEvidence_of_unwritten hunwritten
  unfold Db.publish Db.root
  simp [hreserve, hroot, hfailure]

theorem publish_of_written (hroot : db.lineage input.sessionID = some rootID)
    (h : Admissible db input) (hwritten : ¬ Unwritten input throws) :
    ∃ evidenceReceiptIDs, db.publish input throws =
      Db.commit { db with operations := db.operations ++ [Db.preparedRow input rootID] } input.id input.receipts
        evidenceReceiptIDs := by
  have hreserve : db.reserve input
      = .ok { db with operations := db.operations ++ [Db.preparedRow input rootID] } :=
    reserve_iff.mpr ⟨h, rootID, hroot, rfl⟩
  obtain ⟨evidence, hevidence⟩ := publishEvidence_of_not_unwritten hwritten
  unfold Db.publish Db.root
  simp only [hreserve, hroot, hevidence]
  exact ⟨_, rfl⟩

theorem keeps_publish (hdb : db.Sound) (input : ReservationInput) (throws : Bool) :
    Keeps db (db.publish input throws).db := by
  by_cases hadmissible : Admissible db input
  · obtain ⟨rootID, hroot, hnew, -⟩ := id hadmissible
    have hreserved := keeps_reserved hdb rootID hnew
    by_cases hunwritten : Unwritten input throws
    · rw [(publish_of_unwritten hroot hadmissible hunwritten).1]
      exact hreserved
    · obtain ⟨evidenceReceiptIDs, hpublish⟩ := publish_of_written hroot hadmissible hunwritten
      rw [hpublish]
      exact hreserved.trans rfl (keeps_commit hreserved.sound _ _ _)
  · rw [(publish_of_not_admissible throws hadmissible).1]
    exact keeps_self hdb

theorem keeps_call (hdb : db.Sound) (call : Call) : Keeps db (db.call call).db := by
  cases call with
  | reserve input =>
    unfold Db.call
    dsimp only
    split
    · next db' hreserve =>
      obtain ⟨hadmissible, rootID, -, rfl⟩ := reserve_iff.mp hreserve
      exact keeps_reserved hdb rootID hadmissible.choose_spec.2.1
    · exact keeps_self hdb
  | commit id receipts evidenceReceiptIDs => exact keeps_commit hdb id receipts evidenceReceiptIDs
  | abort id => exact keeps_abort hdb id
  | publish input throws => exact keeps_publish hdb input throws

/-- A publication that fails leaves the totals as they were, unless its evidence cannot be written. -/
theorem publish_failed_iff (input : ReservationInput) (throws : Bool) :
    ((db.publish input throws).failure ≠ none →
      ∀ rootID, (db.publish input throws).db.reservedReceipts rootID = db.reservedReceipts rootID ∧
        (db.publish input throws).db.reservedMetadataBytes rootID = db.reservedMetadataBytes rootID) ↔
    ¬ (Admissible db input ∧ Unwritten input throws) := by
  constructor
  · rintro h ⟨hadmissible, hunwritten⟩
    obtain ⟨rootID, hroot, -⟩ := id hadmissible
    obtain ⟨hdb, hfailure⟩ := publish_of_unwritten hroot hadmissible hunwritten
    -- the reservation that stays takes at least the bytes of an empty list
    have hbytes := (h hfailure rootID).2
    have hpos := metadataSize_pos input.receipts
    rw [hdb, Db.reservedMetadataBytes, Db.reservations, filter_append, map_append, sum_append,
      filter_cons_of_pos (by simp [Db.preparedRow]), filter_nil, map_singleton, sum_singleton,
      ← Db.reservations, ← Db.reservedMetadataBytes] at hbytes
    exact absurd hbytes (by simp only [Db.preparedRow]; omega)
  · intro h hfailure rootID
    by_cases hadmissible : Admissible db input
    · obtain ⟨rootID', hroot, hnew, -⟩ := id hadmissible
      obtain ⟨evidenceReceiptIDs, hpublish⟩ :=
        publish_of_written hroot hadmissible fun hunwritten ↦ h ⟨hadmissible, hunwritten⟩
      rw [hpublish] at hfailure ⊢
      unfold Db.commit at hfailure ⊢
      split at hfailure
      · exact absurd rfl hfailure
      · rw [abort_reserved hnew]
        exact ⟨rfl, rfl⟩
    · rw [(publish_of_not_admissible throws hadmissible).1]
      exact ⟨rfl, rfl⟩

/-! ## Pages -/

/-- Receipts whose numbers go up by one, from a number on. -/
theorem filter_lt_creation_seq {receipts : List Receipt} {k c : ℕ}
    (h : receipts.map (·.creation_seq) = List.range' (k + 1) receipts.length) :
    receipts.filter (fun row ↦ c < row.creation_seq) = receipts.drop (c - k) := by
  induction receipts generalizing k with
  | nil => simp
  | cons row receipts ih =>
    rw [map_cons, length_cons, range'_succ, List.cons.injEq] at h
    have ih := ih h.2
    by_cases hlt : c < row.creation_seq
    · have hall : receipts.filter (fun row ↦ c < row.creation_seq) = receipts := by
        rw [ih, show c - (k + 1) = 0 by omega, drop_zero]
      rw [filter_cons_of_pos (by simpa using hlt), hall, show c - k = 0 by omega, drop_zero]
    · rw [filter_cons_of_neg (by simpa using hlt), ih, show c - k = c - (k + 1) + 1 by omega,
        drop_succ_cons]

theorem mergeSort_of_numbered {receipts : List Receipt} {k n : ℕ}
    (h : receipts.map (·.creation_seq) = List.range' k n) :
    receipts.mergeSort (fun a b ↦ a.creation_seq ≤ b.creation_seq) = receipts := by
  have hascending : (receipts.map (·.creation_seq)).Pairwise (· ≤ ·) := h ▸ pairwise_le_range'
  refine mergeSort_of_pairwise ((pairwise_map.mp hascending).imp fun hle ↦ ?_)
  simpa using hle

theorem page_eq (hdb : db.Sound) {sessionID : String} {cursor : Option ℕ} {limit : ℤ} {page : Db.Page}
    (h : db.page sessionID (cursor.map Int.ofNat) limit = .ok page) :
    ∃ rootID ∈ db.lineage sessionID, ∃ n, 1 ≤ n ∧
      page.receipts = ((db.receiptsOf rootID).drop (cursor.getD 0)).take n ∧
      page.nextCursor = if cursor.getD 0 + n < (db.receiptsOf rootID).length then some (cursor.getD 0 + n) else none := by
  unfold Db.page Db.root at h
  split_ifs at h with hlimit hcursor
  split at h
  · cases h
  · next rootID hroot =>
    split at hroot
    · next hlineage =>
      cases hroot
      rw [not_or, not_lt] at hlimit
      refine ⟨rootID, hlineage, limit.toNat, by omega, ?_⟩
      have hcast : (cursor.map Int.ofNat).getD 0 = ((cursor.getD 0 : ℕ) : ℤ) := by cases cursor <;> rfl
      have hfilter : (db.receiptsOf rootID).filter (fun row ↦ (cursor.map Int.ofNat).getD 0 < row.creation_seq)
          = (db.receiptsOf rootID).drop (cursor.getD 0) := by
        rw [hcast]
        simp only [Nat.cast_lt]
        exact filter_lt_creation_seq (k := 0) (hdb.numbered rootID)
      have hnumbers : ((db.receiptsOf rootID).drop (cursor.getD 0)).map (·.creation_seq)
          = List.range' (1 + cursor.getD 0) ((db.receiptsOf rootID).length - cursor.getD 0) := by
        rw [map_drop, hdb.numbered, drop_range', Nat.mul_one]
      cases h
      dsimp only
      rw [hfilter, mergeSort_of_numbered hnumbers, take_take, Nat.min_eq_left (Nat.le_succ _)]
      refine ⟨rfl, ?_⟩
      rw [length_take, length_drop]
      by_cases hmore : cursor.getD 0 + limit.toNat < (db.receiptsOf rootID).length
      · -- the number of the last receipt of the page
        rw [if_pos (by omega), if_pos hmore, ← getLast?_map, map_take, hnumbers,
          take_range'_of_length_ge (by omega), getLast?_range', if_neg (by omega)]
        congr 1
        omega
      · rw [if_neg (by omega), if_neg hmore]
    · cases hroot

/-! ## Runs -/

/-- What holds of the tables and of the reader in every run. -/
structure World.Sound (sessionID : String) (s : World) : Prop where
  db : s.db.Sound
  read : ∀ rootID ∈ s.db.lineage sessionID, s.read <+: s.db.receiptsOf rootID
  cursor : s.finished = false → s.read.length = s.cursor.getD 0

variable {sessionID : String} {s : World}

theorem sound_start (lineage : String → Option String) : (World.start lineage).Sound sessionID where
  db := ⟨nodup_nil, fun _ h ↦ absurd h not_mem_nil, fun _ ↦ rfl⟩
  read := fun _ _ ↦ nil_prefix
  cursor := fun _ ↦ rfl

theorem World.Sound.call (h : s.Sound sessionID) (call : Call) : (s.step sessionID (.call call)).Sound sessionID := by
  have hkeeps := keeps_call h.db call
  refine ⟨hkeeps.sound, fun rootID hroot ↦ ?_, h.cursor⟩
  rw [World.step, hkeeps.lineage] at hroot
  exact (h.read rootID hroot).trans (hkeeps.prefix_receiptsOf rootID)

theorem World.Sound.readPage (h : s.Sound sessionID) (limit : ℤ) : (s.readPage sessionID limit).Sound sessionID ∧
    (s.finished = false → (s.readPage sessionID limit).finished = true →
      ∀ rootID ∈ s.db.lineage sessionID, (s.readPage sessionID limit).read = s.db.receiptsOf rootID) := by
  unfold World.readPage
  split_ifs with hfinished
  · exact ⟨h, fun hf ↦ absurd hfinished (by simp [hf])⟩
  · rw [Bool.not_eq_true] at hfinished
    split
    · exact ⟨h, fun hf ht ↦ absurd ht (by simp [hf])⟩
    · next page hpage =>
      obtain ⟨rootID, hroot, n, hn, hreceipts, hcursor⟩ := page_eq h.db hpage
      have hroot' : ∀ rootID' ∈ s.db.lineage sessionID, rootID' = rootID := fun rootID' hrootID' ↦
        Option.some.inj (hrootID'.symm.trans hroot)
      -- the page goes on where the reader is
      have hread : s.read ++ page.receipts = (s.db.receiptsOf rootID).take (s.cursor.getD 0 + n) := by
        rw [hreceipts, take_add, ← h.cursor hfinished, ← prefix_iff_eq_take.mp (h.read rootID hroot)]
      refine ⟨⟨h.db, fun rootID' hrootID' ↦ ?_, fun hmore ↦ ?_⟩, fun _ hlast rootID' hrootID' ↦ ?_⟩
      · rw [hroot' rootID' hrootID']
        exact hread ▸ take_prefix _ _
      · dsimp only at hmore ⊢
        rw [hread, length_take, hcursor]
        rw [hcursor] at hmore
        split_ifs at hmore ⊢ with hlt
        · exact Nat.min_eq_left hlt.le
        · cases hmore
      · dsimp only at hlast ⊢
        rw [hroot' rootID' hrootID', hread]
        rw [hcursor] at hlast
        split_ifs at hlast with hlt
        · cases hlast
        · exact take_of_length_le (not_lt.mp hlt)

theorem World.Sound.step (h : s.Sound sessionID) (op : Op) : (s.step sessionID op).Sound sessionID := by
  cases op with
  | call call => exact h.call call
  | page limit => exact (h.readPage limit).1

theorem db_readPage (limit : ℤ) : (s.readPage sessionID limit).db = s.db := by
  unfold World.readPage
  split_ifs
  · rfl
  · split <;> rfl

theorem reserve_failure_iff : (db.call (.reserve input)).failure = none ↔ Admissible db input := by
  unfold Db.call
  dsimp only
  split
  · next db' hreserve => exact iff_of_true rfl (reserve_iff.mp hreserve).1
  · next failure hreserve =>
    refine iff_of_false (by simp) fun hadmissible ↦ ?_
    obtain ⟨rootID, hroot, -⟩ := id hadmissible
    rw [reserve_iff.mpr ⟨hadmissible, rootID, hroot, rfl⟩] at hreserve
    cases hreserve

/-- In a sound state an operation is done as the law says, unless it is a publication whose evidence cannot be
written. -/
theorem receiptLaw_iff (h : s.Sound sessionID) (op : Op) : ReceiptLaw sessionID s op ↔ Written s op := by
  have hstep := h.step op
  constructor
  · intro hlaw
    unfold Written
    split
    · next input =>
      intro hadmissible hne
      have hpublish := (publish_failed_iff input true).mp (hlaw.failed input true rfl)
      by_contra hwithin
      exact hpublish ⟨hadmissible, rfl, hne, hwithin⟩
    · trivial
  · intro hwritten
    refine ⟨?_, fun input _ ↦ reserve_failure_iff, ?_, hstep.db.owned, hstep.db.numbered, ?_, ?_⟩
    · rintro input throws rfl
      refine (publish_failed_iff input throws).mpr ?_
      rintro ⟨hadmissible, rfl, hne, hwithin⟩
      exact hwithin (hwritten hadmissible hne)
    · cases op with
      | call call => exact (keeps_call h.db call).together
      | page limit => exact .inl (congrArg Db.receipts (db_readPage limit))
    · cases op with
      | call call =>
        intro rootID hroot
        exact (h.read rootID hroot).trans ((keeps_call h.db call).prefix_receiptsOf rootID)
      | page limit =>
        intro rootID hroot
        exact hstep.read rootID ((congrArg Db.lineage (db_readPage limit)).symm ▸ hroot)
    · cases op with
      | call call =>
        intro hf ht
        exact absurd (show s.finished = true from ht) (by simp [hf])
      | page limit =>
        intro hf ht rootID hroot
        exact ((h.readPage limit).2 hf ht rootID hroot).trans
          (congrArg (Db.receiptsOf · rootID) (db_readPage limit).symm)

/-- Every operation of a run is done as the law says, if and only if no publication that is admitted has evidence
within its budget that cannot be written. -/
theorem receiptLaw_run_iff (sessionID : String) (lineage : String → Option String) (ops : List Op) :
    Guarded (World.step sessionID) (ReceiptLaw sessionID) (World.start lineage) ops
      ↔ Guarded (World.step sessionID) Written (World.start lineage) ops :=
  guarded_iff_of_invariant (fun _ op hs ↦ receiptLaw_iff hs op) (fun _ op hs _ ↦ hs.step op) (sound_start lineage)

/-- A publication of one receipt, with its evidence. -/
def oneFile : ReservationInput where
  id := "op"
  sessionID := "root"
  origin := "tool"
  receipts := [⟨"r", "a.txt", "write", "applied", 0⟩]
  budget := ⟨1, 1000, some 1000⟩
  evidence := [⟨"r", "x"⟩]

/-- Its evidence cannot be written, and what it has reserved stays. -/
theorem not_receiptLaw_oneFile :
    ¬ Guarded (World.step "root") (ReceiptLaw "root") (World.start some) [.call (.publish oneFile true)] := by
  rintro ⟨hlaw, -⟩
  have hsize : metadataSize oneFile.receipts = 87 := by decide +kernel
  have hadmissible : Admissible (World.start some).db oneFile :=
    ⟨"root", rfl, List.not_mem_nil, by
      simp [oneFile, World.start, Db.empty, Db.reservedReceipts, Db.reservations], by
      rw [hsize]
      norm_num [oneFile, World.start, Db.empty, Db.reservedMetadataBytes, Db.reservations]⟩
  have hbytes : (oneFile.evidence.map fun entry ↦ byteLength entry.content.toList).sum = 1 := by decide +kernel
  have hunwritten : Unwritten oneFile true := by
    refine ⟨rfl, List.cons_ne_nil _ _, ?_⟩
    rw [hbytes]
    norm_num [oneFile]
  exact (publish_failed_iff oneFile true).mp (hlaw.failed oneFile true rfl) ⟨hadmissible, hunwritten⟩

end Amicode.SessionReceipt
