import Amicode.Foundation.InsertionMap
import Amicode.Foundation.JsText

/-!
# The staging stream

Matches that the digest and the watcher find for a campaign are staged in a stream of lines beside its ledger
(`sota_staging.ts`). A line stages an event, accepts it on the PI's instruction, drops it, or records a compaction;
what has become of an event is always replayed from the stream. Five operations write it: staging, accepting and
dropping append a line, the expiry sweep appends a drop for every match past its date, and the compaction removes
the chains that expired four weeks ago and renumbers the rest.

A stream is the list of its lines, which are written whole or not at all; a line longer than `PIPE_BUF` makes
the write throw. The length of a line as JSON is the parameter `size`. Times are in ms and stand for their ISO
text, which there is for the dates that a `Date` can hold; an operation reads the clock several times and is told
what it shows each time. Of a provenance the fields that are checked are kept.

`history` and `compacted` are not in the file: all lines ever appended, and the events whose chains were removed.
-/

open List

namespace Amicode.Staging

def PIPE_BUF : ℕ := 4096

def day : ℤ := 86400000

def REVIEW_BY_DAYS : ℕ := 7

def EXPIRES_AFTER_DAYS : ℕ := 14

def COMPACTION_WINDOW_DAYS : ℕ := 28

def EXPIRED_WITHOUT_REVIEW : String := "expired-without-review"

/-! ## Lines -/

structure Provenance where
  job : String
  via : String
  source : String
  fetched_at : String
deriving DecidableEq

structure StageEntryInput where
  event_id : String
  campaign : String
  kind : String
  title : String
  url : String
  provenance : Provenance
  matched : Option (List String)
  reason : Option String
deriving DecidableEq

structure AcceptInstruction where
  channel : String
  note : String
  received_at : Option ℤ
deriving DecidableEq

inductive Transition
  | stage (entry : StageEntryInput) (review_by expires_at : ℤ)
  | accept (event_id campaign : String) (kind title url : Option String) (instruction : AcceptInstruction)
  | drop (event_id campaign reason : String) (recorded : ℤ)
  | compact (removed window_days high_water_seq : ℕ) (compacted_at : ℤ)
deriving DecidableEq

def Transition.event_id? : Transition → Option String
  | .stage entry _ _ => some entry.event_id
  | .accept event_id _ _ _ _ _ => some event_id
  | .drop event_id _ _ _ => some event_id
  | .compact _ _ _ _ => none

structure StagingLine where
  seq : ℕ
  ts : ℤ
  ev : Transition
deriving DecidableEq

/-! ## Replay -/

inductive EntryState
  | staged
  | accepted
  | dropped
deriving DecidableEq

structure StagedEntryState where
  event_id : String
  campaign : String
  kind : Option String := none
  title : Option String := none
  url : Option String := none
  provenance : Option Provenance := none
  matched : Option (List String) := none
  reason : Option String := none
  review_by : Option ℤ := none
  expires_at : Option ℤ := none
  state : EntryState
  orphan : Bool := false
  accepted_at : Option ℤ := none
  instruction : Option AcceptInstruction := none
  drop_reason : Option String := none
  dropped_at : Option ℤ := none
deriving DecidableEq

/-- The entry that a stage, accept or drop line leaves of its event. A second stage line and a line after a
decision leave it as it is. -/
def entryAfter (existing : Option StagedEntryState) (line : StagingLine) : Option StagedEntryState :=
  match line.ev, existing with
  | .compact _ _ _ _, _ => existing
  | .stage entry review_by expires_at, none =>
    some
      { event_id := entry.event_id, campaign := entry.campaign, kind := some entry.kind
        title := some entry.title, url := some entry.url, provenance := some entry.provenance
        matched := entry.matched, reason := entry.reason, review_by := some review_by
        expires_at := some expires_at, state := .staged }
  | .stage _ _ _, some entry => some entry
  | .accept event_id campaign _ _ _ _, none =>
    some { event_id, campaign, state := .accepted, orphan := true, accepted_at := some line.ts }
  | .drop event_id campaign reason recorded, none =>
    some
      { event_id, campaign, state := .dropped, orphan := true, drop_reason := some reason
        dropped_at := some recorded }
  | .accept _ _ _ _ _ instruction, some entry =>
    if entry.state ≠ .staged then some entry
    else some
      { entry with state := .accepted, accepted_at := some line.ts, instruction := some instruction }
  | .drop _ _ reason recorded, some entry =>
    if entry.state ≠ .staged then some entry
    else some { entry with state := .dropped, drop_reason := some reason, dropped_at := some recorded }

def replayLine (entries : InsertionMap String StagedEntryState) (line : StagingLine) :
    InsertionMap String StagedEntryState :=
  match line.ev.event_id? with
  | none => entries
  | some id =>
    if id = "" then entries
    else
      match entryAfter (entries.get? id) line with
      | none => entries
      | some entry => entries.set id entry

def deriveStagingState (lines : List StagingLine) : InsertionMap String StagedEntryState :=
  lines.foldl replayLine ∅

/-! ## Writing -/

structure Stream where
  lines : List StagingLine
  history : List StagingLine
  compacted : List String

def Stream.empty : Stream := ⟨[], [], []⟩

inductive Refusal
  | duplicateDelivery
  | noteRequired
  | noStagedMatch
  | alreadyAccepted
  | wasDropped
  | isAccepted
  | alreadyDropped
deriving DecidableEq

inductive AppendResult
  | threw
  | refused (reason : Refusal)
  | appended (s : Stream)

/-- The text of a date, which `toISOString` refuses outside of the range of a `Date`. -/
def isoTime (ms : ℤ) : Option ℤ := if ms.natAbs ≤ 8640000000000000 then some ms else none

/-- The first `n` UTF-16 units of a text; a pair that is cut is left out. -/
def sliceUnits : ℕ → List Char → List Char
  | _, [] => []
  | n, ch :: rest =>
    if (JsText.units ch).length ≤ n then ch :: sliceUnits (n - (JsText.units ch).length) rest else []

def slice (text : String) (n : ℕ) : String := String.ofList (sliceUnits n text.toList)

def isBlank (text : String) : Bool := (JsText.trim text.toList).isEmpty

section

variable (size : StagingLine → ℕ)

def writeLine (s : Stream) (ts : ℤ) (ev : Transition) : AppendResult :=
  let line : StagingLine := ⟨s.lines.length + 1, ts, ev⟩
  if PIPE_BUF < size line then .threw
  else .appended { s with lines := s.lines ++ [line], history := s.history ++ [line] }

def assertStageInput (entry : StageEntryInput) : Bool :=
  !isBlank entry.event_id && !isBlank entry.campaign
    && ["paper", "release", "changelog", "issue"].contains entry.kind && entry.url ≠ ""
    && entry.provenance.job ≠ "" && entry.provenance.via ≠ "" && entry.provenance.source ≠ ""
    && entry.provenance.fetched_at ≠ ""

/-- The times of a stage line: its own, the date of review and the date of expiry. -/
def stageTimes (clock : ℕ → ℤ) : Option (ℤ × ℤ × ℤ) := do
  let ts ← isoTime (clock 0)
  let review_by ← isoTime (clock 1 + REVIEW_BY_DAYS * day)
  let expires_at ← isoTime (clock 2 + EXPIRES_AFTER_DAYS * day)
  some (ts, review_by, expires_at)

def stageTransition (entry : StageEntryInput) (review_by expires_at : ℤ) : Transition :=
  .stage { entry with title := slice entry.title 240 } review_by expires_at

def appendStageLine (s : Stream) (entry : StageEntryInput) (clock : ℕ → ℤ) : AppendResult :=
  if !assertStageInput entry then .threw
  else if s.lines.any (·.ev.event_id? = some entry.event_id) then .refused .duplicateDelivery
  else
    match stageTimes clock with
    | none => .threw
    | some (ts, review_by, expires_at) => writeLine size s ts (stageTransition entry review_by expires_at)

def appendAcceptStamp (s : Stream) (event_id : String) (instruction : AcceptInstruction) (clock : ℕ → ℤ) :
    AppendResult :=
  if isBlank instruction.note then .refused .noteRequired
  else
    match (deriveStagingState s.lines).get? event_id with
    | none => .refused .noStagedMatch
    | some entry =>
      if entry.orphan then .refused .noStagedMatch
      else
        match entry.state with
        | .accepted => .refused .alreadyAccepted
        | .dropped => .refused .wasDropped
        | .staged =>
          match isoTime (clock 0) with
          | none => .threw
          | some ts =>
            writeLine size s ts
              (.accept event_id entry.campaign entry.kind entry.title entry.url
                ⟨instruction.channel, slice instruction.note 240, some (instruction.received_at.getD ts)⟩)

def appendDropLine (s : Stream) (event_id reason : String) (now : ℤ) : AppendResult :=
  match (deriveStagingState s.lines).get? event_id with
  | none => .refused .noStagedMatch
  | some entry =>
    if entry.orphan then .refused .noStagedMatch
    else
      match entry.state with
      | .accepted => .refused .isAccepted
      | .dropped => .refused .alreadyDropped
      | .staged =>
        match isoTime now with
        | none => .threw
        | some ts => writeLine size s ts (.drop event_id entry.campaign reason ts)

/-- The matches that the sweep has found are dropped one by one; what was appended before a throw stays. -/
def sweepEntries (now : ℤ) (clock : ℕ → ℤ) : List StagedEntryState → Stream → Stream
  | [], s => s
  | entry :: entries, s =>
    if entry.state ≠ .staged || !entry.expires_at.any (· ≤ now) then sweepEntries now clock entries s
    else
      match appendDropLine size s entry.event_id EXPIRED_WITHOUT_REVIEW (clock s.lines.length) with
      | .threw => s
      | .refused _ => sweepEntries now clock entries s
      | .appended s' => sweepEntries now clock entries s'

def sweepExpiry (s : Stream) (now : ℤ) (clock : ℕ → ℤ) : Stream :=
  sweepEntries size now clock (deriveStagingState s.lines).values s

end

/-! ## Compaction -/

/-- The chain may be removed: it expired without a review, and more than the window ago. -/
def isEligible (now : ℤ) (entry : StagedEntryState) : Bool :=
  entry.state = .dropped && entry.drop_reason = some EXPIRED_WITHOUT_REVIEW
    && entry.dropped_at.any fun dropped_at ↦ COMPACTION_WINDOW_DAYS * day < now - dropped_at

def eligibleEvents (lines : List StagingLine) (now : ℤ) : List String :=
  ((deriveStagingState lines).values.filter (isEligible now)).map StagedEntryState.event_id

/-- The lines that are not of these events. -/
def keptLines (lines : List StagingLine) (removed : List String) : List StagingLine :=
  lines.filter fun line ↦ !line.ev.event_id?.any removed.contains

def renumber (lines : List StagingLine) : List StagingLine := lines.mapIdx fun i line ↦ { line with seq := i + 1 }

def compactStagingStream (s : Stream) (now : ℤ) : Stream :=
  let eligible := eligibleEvents s.lines now
  if eligible.isEmpty then s
  else
    match isoTime now with
    | none => s
    | some ts =>
      let kept := keptLines s.lines eligible
      let compactLine : StagingLine :=
        { seq := kept.length + 1, ts
          ev := .compact (s.lines.length - kept.length) COMPACTION_WINDOW_DAYS s.lines.length ts }
      { s with lines := renumber (kept ++ [compactLine]), compacted := eligible ++ s.compacted }

/-! ## Operations -/

inductive StagingOp
  | stage (entry : StageEntryInput) (clock : ℕ → ℤ)
  | accept (event_id : String) (instruction : AcceptInstruction) (clock : ℕ → ℤ)
  | drop (event_id reason : String) (now : ℤ)
  | sweep (now : ℤ) (clock : ℕ → ℤ)
  | compact (now : ℤ)

def AppendResult.onto (s : Stream) : AppendResult → Stream
  | .threw => s
  | .refused _ => s
  | .appended s' => s'

def stagingStep (size : StagingLine → ℕ) (s : Stream) : StagingOp → Stream
  | .stage entry clock => (appendStageLine size s entry clock).onto s
  | .accept event_id instruction clock => (appendAcceptStamp size s event_id instruction clock).onto s
  | .drop event_id reason now => (appendDropLine size s event_id reason now).onto s
  | .sweep now clock => sweepExpiry size s now clock
  | .compact now => compactStagingStream s now

end Amicode.Staging

/-!
# What a stream says of an event

The entry of an event depends on the lines of that event alone, in their order, and not on their numbers. So
removing the lines of other events and renumbering the rest leaves it as it is.
-/

namespace Amicode.Staging

/-- What has become of an event. -/
def entryOf (lines : List StagingLine) (id : String) : Option StagedEntryState :=
  (deriveStagingState lines).get? id

@[simp] theorem entryOf_nil (id : String) : entryOf [] id = none := rfl

variable {id : String} {line : StagingLine}

theorem entryAfter_isSome (existing : Option StagedEntryState)
    (h : line.ev.event_id? = some id) : (entryAfter existing line).isSome := by
  obtain ⟨seq, ts, ev⟩ := line
  cases ev with
  | stage entry review_by expires_at => cases existing <;> rfl
  | accept event_id campaign kind title url instruction =>
    cases existing with
    | none => rfl
    | some entry =>
      simp only [entryAfter]
      split_ifs <;> rfl
  | drop event_id campaign reason recorded =>
    cases existing with
    | none => rfl
    | some entry =>
      simp only [entryAfter]
      split_ifs <;> rfl
  | compact removed window_days high_water_seq compacted_at => cases h

theorem get?_replayLine (entries : InsertionMap String StagedEntryState) (line : StagingLine) (id : String) :
    (replayLine entries line).get? id
      = if line.ev.event_id? = some id ∧ id ≠ "" then entryAfter (entries.get? id) line else entries.get? id := by
  rw [replayLine]
  cases hev : line.ev.event_id? with
  | none => simp
  | some lineId =>
    dsimp only
    by_cases hempty : lineId = ""
    · rw [if_pos hempty, if_neg]
      rintro ⟨hid, hne⟩
      exact hne (Option.some.inj hid ▸ hempty)
    · rw [if_neg hempty]
      obtain ⟨entry, hentry⟩ := Option.isSome_iff_exists.mp (entryAfter_isSome (entries.get? lineId) hev)
      rw [hentry]
      rw [InsertionMap.get?_set]
      by_cases hid : lineId = id
      · subst hid
        rw [if_pos rfl, if_pos ⟨rfl, hempty⟩, hentry]
      · rw [if_neg hid, if_neg]
        rintro ⟨hid', -⟩
        exact hid (Option.some.inj hid')

variable (lines : List StagingLine)

theorem entryOf_concat (line : StagingLine) (id : String) : entryOf (lines ++ [line]) id
      = if line.ev.event_id? = some id ∧ id ≠ "" then entryAfter (entryOf lines id) line else entryOf lines id := by
  rw [entryOf, deriveStagingState, foldl_append, foldl_cons, foldl_nil, get?_replayLine]
  rfl

theorem entryOf_concat_of_ne
    (h : line.ev.event_id? ≠ some id) : entryOf (lines ++ [line]) id = entryOf lines id := by
  rw [entryOf_concat, if_neg fun h' ↦ h h'.1]

@[simp] theorem entryOf_empty : entryOf lines "" = none := by
  induction lines using List.reverseRecOn with
  | nil => rfl
  | append_singleton lines line ih => rw [entryOf_concat, if_neg (by simp), ih]

theorem entryOf_eq_none_iff (hid : id ≠ "") :
    entryOf lines id = none ↔ ∀ line ∈ lines, line.ev.event_id? ≠ some id := by
  induction lines using List.reverseRecOn with
  | nil => simp
  | append_singleton lines line ih =>
    rw [entryOf_concat]
    by_cases hline : line.ev.event_id? = some id
    · rw [if_pos ⟨hline, hid⟩]
      have hsome := entryAfter_isSome (entryOf lines id) hline
      refine iff_of_false (fun hnone ↦ by simp [hnone] at hsome) fun hall ↦ ?_
      exact hall line (by simp) hline
    · rw [if_neg fun h ↦ hline h.1, ih]
      simp only [mem_append, mem_singleton, or_imp, forall_and, forall_eq]
      exact ⟨fun h ↦ ⟨h, hline⟩, And.left⟩

theorem entryAfter_event_id {existing : Option StagedEntryState}
    {entry : StagedEntryState} (hexisting : ∀ e ∈ existing, e.event_id = id) (hline : line.ev.event_id? = some id)
    (h : entryAfter existing line = some entry) : entry.event_id = id := by
  obtain ⟨seq, ts, ev⟩ := line
  cases ev with
  | stage staged review_by expires_at =>
    cases existing with
    | none =>
      obtain rfl := Option.some.inj h
      exact Option.some.inj hline
    | some e => exact Option.some.inj h ▸ hexisting e rfl
  | accept event_id campaign kind title url instruction =>
    cases existing with
    | none =>
      obtain rfl := Option.some.inj h
      exact Option.some.inj hline
    | some e =>
      simp only [entryAfter] at h
      split_ifs at h <;> exact Option.some.inj h ▸ hexisting e rfl
  | drop event_id campaign reason recorded =>
    cases existing with
    | none =>
      obtain rfl := Option.some.inj h
      exact Option.some.inj hline
    | some e =>
      simp only [entryAfter] at h
      split_ifs at h <;> exact Option.some.inj h ▸ hexisting e rfl
  | compact removed window_days high_water_seq compacted_at => cases hline

theorem event_id_of_entryOf {lines : List StagingLine} {entry : StagedEntryState}
    (h : entryOf lines id = some entry) : entry.event_id = id := by
  induction lines using List.reverseRecOn generalizing entry with
  | nil => simp at h
  | append_singleton lines line ih =>
    rw [entryOf_concat] at h
    split_ifs at h with hline
    · exact entryAfter_event_id (fun e he ↦ ih he) hline.1 h
    · exact ih h

/-! ## Compaction -/

theorem keptLines_concat (line : StagingLine) (removed : List String) : keptLines (lines ++ [line]) removed
      = if line.ev.event_id?.any removed.contains then keptLines lines removed
        else keptLines lines removed ++ [line] := by
  rw [keptLines, filter_append]
  by_cases h : line.ev.event_id?.any removed.contains = true
  · simp [h, keptLines]
  · simp [h, keptLines]

theorem entryOf_keptLines (removed : List String) (id : String) :
    entryOf (keptLines lines removed) id = if id ∈ removed then none else entryOf lines id := by
  induction lines using List.reverseRecOn with
  | nil => simp [keptLines]
  | append_singleton lines line ih =>
    rw [keptLines_concat]
    by_cases hline : line.ev.event_id? = some id
    · by_cases hid : id ∈ removed
      · rw [if_pos (by simp [hline, hid]), if_pos hid, ih, if_pos hid]
      · rw [if_neg (by simp [hline, hid]), if_neg hid, entryOf_concat, entryOf_concat, ih, if_neg hid]
    · rw [entryOf_concat_of_ne lines hline]
      split_ifs with hkept hid hid
      · rw [ih, if_pos hid]
      · rw [ih, if_neg hid]
      · rw [entryOf_concat_of_ne _ hline, ih, if_pos hid]
      · rw [entryOf_concat_of_ne _ hline, ih, if_neg hid]

theorem entryOf_renumber (id : String) : entryOf (renumber lines) id = entryOf lines id := by
  induction lines using List.reverseRecOn with
  | nil => rfl
  | append_singleton lines line ih =>
    rw [renumber, mapIdx_concat, ← renumber, entryOf_concat, entryOf_concat, ih]
    rfl

theorem map_seq_renumber : (renumber lines).map StagingLine.seq = List.range' 1 (renumber lines).length := by
  rw [renumber, length_mapIdx]
  refine ext_getElem (by simp) fun i hi hi' ↦ ?_
  simp [Nat.add_comm]

theorem mem_eligibleEvents_iff (now : ℤ) (id : String) :
    id ∈ eligibleEvents lines now ↔ ∃ entry, entryOf lines id = some entry ∧ isEligible now entry = true := by
  rw [eligibleEvents, List.mem_map]
  constructor
  · rintro ⟨entry, hentry, rfl⟩
    obtain ⟨hvalue, heligible⟩ := mem_filter.mp hentry
    obtain ⟨⟨key, value⟩, hmem, rfl⟩ := List.mem_map.mp hvalue
    have hget : entryOf lines key = some value := (InsertionMap.get?_eq_some_iff _ key value).mpr hmem
    exact ⟨value, event_id_of_entryOf hget ▸ hget, heligible⟩
  · rintro ⟨entry, hget, heligible⟩
    refine ⟨entry, mem_filter.mpr ⟨?_, heligible⟩, event_id_of_entryOf hget⟩
    exact List.mem_map.mpr ⟨(id, entry), (InsertionMap.get?_eq_some_iff _ id entry).mp hget, rfl⟩

end Amicode.Staging
