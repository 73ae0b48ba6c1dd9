import Amicode.Foundation.StepMachine
import Amicode.Staging.Stream

/-!
# Every event is staged once

An event is to be staged at most once in the lifetime of its stream and decided at most once, an acceptance stands,
lines are numbered by their place, and a compaction changes nothing but the chains it removes.

All of this holds as long as no event is delivered again whose chain a compaction has removed. The dedup of a
delivery reads the stream, and of a removed chain the stream keeps no more than how many lines there were; so such
an event is staged, and may be decided, a second time. Nothing else breaks the law (`staging_law_iff`).

The proof counts: how many lines of each kind an event has in the history is a function of its entry, and of
whether its chain was removed (`Sound`).
-/

namespace Amicode.Staging

open StepMachine List

/-! ## The law -/

def leadsTo (state : EntryState) (id : String) (line : StagingLine) : Bool :=
  match state, line.ev with
  | .staged, .stage entry _ _ => entry.event_id = id
  | .accepted, .accept event_id _ _ _ _ _ => event_id = id
  | .dropped, .drop event_id _ _ _ => event_id = id
  | _, _ => false

/-- How often an event was led to a state. -/
def Stream.count (s : Stream) (state : EntryState) (id : String) : ℕ := s.history.countP (leadsTo state id)

structure StagingLaw (s : Stream) : Prop where
  staged : ∀ id, s.count .staged id ≤ 1
  decided : ∀ id, s.count .accepted id + s.count .dropped id ≤ s.count .staged id
  /-- No event is staged after it was decided. -/
  ordered : s.history.Pairwise fun earlier later ↦
    ∀ id, leadsTo .staged id later = true →
      leadsTo .accepted id earlier = false ∧ leadsTo .dropped id earlier = false
  accepted : ∀ id, 0 < s.count .accepted id → ∃ entry ∈ entryOf s.lines id, entry.state = .accepted
  numbered : s.lines.map StagingLine.seq = List.range' 1 s.lines.length

/-- A compaction leaves the entry of every event, the chains apart that expired before the window: these are gone. -/
def CompactionLaw (s : Stream) : StagingOp → Prop
  | .compact now => ∀ id,
      entryOf (compactStagingStream s now).lines id = entryOf s.lines id
        ∨ entryOf (compactStagingStream s now).lines id = none
          ∧ ∃ entry ∈ entryOf s.lines id, isEligible now entry = true
  | _ => True

variable (size : StagingLine → ℕ)

/-- A delivery whose line can be written. -/
def Writable (s : Stream) (entry : StageEntryInput) (clock : ℕ → ℤ) : Prop :=
  assertStageInput entry = true ∧ ∃ times ∈ stageTimes clock,
    size ⟨s.lines.length + 1, times.1, stageTransition entry times.2.1 times.2.2⟩ ≤ PIPE_BUF

/-- No event is delivered whose chain was removed. -/
def Fresh (s : Stream) : StagingOp → Prop
  | .stage entry clock => Writable size s entry clock → entry.event_id ∉ s.compacted
  | _ => True

/-! ## The invariant -/

/-- What the entry of an event, and the removal of its chain, say about its history. -/
def wasLedTo (entry : Option StagedEntryState) (compacted : Bool) : EntryState → Bool
  | .staged => entry.isSome || compacted
  | .accepted => entry.any fun e ↦ e.state = .accepted
  | .dropped => (entry.any fun e ↦ e.state = .dropped) || compacted

structure Sound (s : Stream) : Prop where
  counted : ∀ state id,
    s.count state id = (wasLedTo (entryOf s.lines id) (s.compacted.contains id) state).toNat
  live : ∀ id entry, entryOf s.lines id = some entry → entry.orphan = false ∧ id ∉ s.compacted
  ordered : s.history.Pairwise fun earlier later ↦
    ∀ id, leadsTo .staged id later = true →
      leadsTo .accepted id earlier = false ∧ leadsTo .dropped id earlier = false
  numbered : s.lines.map StagingLine.seq = List.range' 1 s.lines.length

theorem sound_empty : Sound Stream.empty where
  counted state id := by cases state <;> rfl
  live id entry h := by cases h
  ordered := Pairwise.nil
  numbered := rfl

variable {size} {s : Stream}

theorem Sound.law (hs : Sound s) : StagingLaw s where
  staged id := by
    rw [hs.counted]
    exact Bool.toNat_le _
  decided id := by
    rw [hs.counted, hs.counted, hs.counted]
    cases hentry : entryOf s.lines id with
    | none => simp [wasLedTo]
    | some entry =>
      have hcompacted : s.compacted.contains id = false := by simpa using (hs.live id entry hentry).2
      rw [hcompacted]
      cases hstate : entry.state <;> simp [wasLedTo, hstate]
  ordered := hs.ordered
  accepted id hpos := by
    rw [hs.counted] at hpos
    have hany : (entryOf s.lines id).any (fun e ↦ e.state = .accepted) = true := by
      simpa [wasLedTo, Nat.pos_iff_ne_zero] using hpos
    obtain ⟨entry, hentry, hstate⟩ := (Option.any_eq_true _ _).mp hany
    exact ⟨entry, hentry, of_decide_eq_true hstate⟩
  numbered := hs.numbered

/-! ## Appending a line -/

/-- The stream after a line was appended. -/
def Stream.push (s : Stream) (ts : ℤ) (ev : Transition) : Stream :=
  { s with
    lines := s.lines ++ [⟨s.lines.length + 1, ts, ev⟩]
    history := s.history ++ [⟨s.lines.length + 1, ts, ev⟩] }

variable {id : String} {ev : Transition} {entry : StageEntryInput}

theorem leadsTo_eq_false {state : EntryState} {line : StagingLine}
    (h : line.ev.event_id? ≠ some id) : leadsTo state id line = false := by
  obtain ⟨seq, ts, ev⟩ := line
  cases state <;> cases ev <;> simp_all [leadsTo, Transition.event_id?]

theorem count_push (s : Stream) (ts : ℤ) (ev : Transition) (state : EntryState) (id : String) :
    (s.push ts ev).count state id
      = s.count state id + (leadsTo state id ⟨s.lines.length + 1, ts, ev⟩).toNat := by
  rw [Stream.count, Stream.push, List.countP_append, countP_singleton, ← Stream.count]
  cases leadsTo state id ⟨s.lines.length + 1, ts, ev⟩ <;> rfl

theorem map_seq_push (s : Stream) (ts : ℤ) (ev : Transition)
    (h : s.lines.map StagingLine.seq = List.range' 1 s.lines.length) :
    (s.push ts ev).lines.map StagingLine.seq = List.range' 1 (s.push ts ev).lines.length := by
  simp only [Stream.push, map_append, h, length_append, length_singleton, map_cons,
    map_nil, range'_concat]
  rw [Nat.mul_comm, Nat.mul_one, Nat.add_comm 1]

theorem Sound.push (hs : Sound s) {ts : ℤ} {entry : StagedEntryState}
    (hid : ev.event_id? = some id) (hne : id ≠ "")
    (hentry : entryAfter (entryOf s.lines id) ⟨s.lines.length + 1, ts, ev⟩ = some entry)
    (hlive : entry.orphan = false) (hcompacted : id ∉ s.compacted)
    (hcounted : ∀ state,
      (wasLedTo (entryOf s.lines id) false state).toNat
          + (leadsTo state id ⟨s.lines.length + 1, ts, ev⟩).toNat
        = (wasLedTo (some entry) false state).toNat)
    (hordered : leadsTo .staged id ⟨s.lines.length + 1, ts, ev⟩ = true → entryOf s.lines id = none) :
    Sound (s.push ts ev) := by
  have hafter : entryOf (s.push ts ev).lines id = some entry := by
    rw [Stream.push, entryOf_concat, if_pos ⟨hid, hne⟩, hentry]
  have hother : ∀ id', id' ≠ id → entryOf (s.push ts ev).lines id' = entryOf s.lines id' := by
    intro id' hid'
    exact entryOf_concat_of_ne _ fun h ↦ hid' (Option.some.inj (h.symm.trans hid))
  have hcontains : s.compacted.contains id = false := by simpa using hcompacted
  refine ⟨fun state id' ↦ ?_, fun id' entry' h ↦ ?_, ?_, map_seq_push s ts ev hs.numbered⟩
  · rw [count_push, hs.counted]
    by_cases hid' : id' = id
    · subst hid'
      rw [hafter, show (s.push ts ev).compacted = s.compacted from rfl, hcontains, hcounted]
    · have hline : leadsTo state id' ⟨s.lines.length + 1, ts, ev⟩ = false :=
        leadsTo_eq_false fun h ↦ hid' (Option.some.inj (h.symm.trans hid))
      rw [hother id' hid', hline]
      rfl
  · by_cases hid' : id' = id
    · subst hid'
      rw [hafter] at h
      exact Option.some.inj h ▸ ⟨hlive, hcompacted⟩
    · exact hs.live id' entry' (hother id' hid' ▸ h)
  · refine pairwise_append.mpr ⟨hs.ordered, pairwise_singleton .., fun earlier hearlier later hlater ↦ ?_⟩
    obtain rfl := mem_singleton.mp hlater
    intro id' hstaged
    obtain rfl : id' = id := by
      by_contra hne'
      rw [leadsTo_eq_false fun h ↦ hne' (Option.some.inj (h.symm.trans hid))] at hstaged
      cases hstaged
    -- an event without an entry whose chain was not removed has no lines in the history
    have hnone := hordered hstaged
    have hzero : ∀ state, s.count state id' = 0 := by
      intro state
      rw [hs.counted, hnone, hcontains]
      cases state <;> rfl
    have hfalse : ∀ state, leadsTo state id' earlier = false := by
      intro state
      have hall := countP_eq_zero.mp (hzero state) earlier hearlier
      simpa using hall
    exact ⟨hfalse .accepted, hfalse .dropped⟩

theorem Sound.writeLine (hs : Sound s) {ts : ℤ}
    (hpush : size ⟨s.lines.length + 1, ts, ev⟩ ≤ PIPE_BUF → Sound (s.push ts ev)) :
    Sound ((writeLine size s ts ev).onto s) := by
  simp only [Staging.writeLine]
  split_ifs with hsize
  · exact hs
  · exact hpush (not_lt.mp hsize)

/-! ## The operations -/

theorem ne_empty_of_assertStageInput (h : assertStageInput entry = true) :
    entry.event_id ≠ "" := by
  intro hempty
  have hblank : isBlank "" = true := by decide
  simp [assertStageInput, hempty, hblank] at h

theorem not_any_iff (lines : List StagingLine) (hne : id ≠ "") :
    ¬ (lines.any fun line ↦ line.ev.event_id? = some id) = true ↔ entryOf lines id = none := by
  rw [entryOf_eq_none_iff lines hne]
  simp

theorem Sound.push_stage (hs : Sound s) {ts review_by expires_at : ℤ}
    (hne : entry.event_id ≠ "") (hnone : entryOf s.lines entry.event_id = none)
    (hcompacted : entry.event_id ∉ s.compacted) :
    Sound (s.push ts (stageTransition entry review_by expires_at)) := by
  refine hs.push rfl hne (by rw [hnone]; rfl) rfl hcompacted (fun state ↦ ?_) fun _ ↦ hnone
  rw [hnone]
  cases state <;> simp [wasLedTo, leadsTo, stageTransition]

theorem Sound.stage (hs : Sound s) {clock : ℕ → ℤ}
    (hfresh : Fresh size s (.stage entry clock)) : Sound ((appendStageLine size s entry clock).onto s) := by
  rw [appendStageLine]
  split_ifs with hinput hany
  · exact hs
  · exact hs
  · have hinput : assertStageInput entry = true := by simpa using hinput
    have hne := ne_empty_of_assertStageInput hinput
    cases htimes : stageTimes clock with
    | none => exact hs
    | some times =>
      refine hs.writeLine fun hsize ↦ hs.push_stage hne ((not_any_iff s.lines hne).mp hany) ?_
      exact hfresh ⟨hinput, times, htimes, hsize⟩

theorem Sound.push_decision (hs : Sound s) {entry : StagedEntryState} {ts : ℤ}
    (hentry : entryOf s.lines id = some entry) (hstaged : entry.state = .staged) (hid : ev.event_id? = some id)
    (state : EntryState) (hdecided : state ≠ .staged)
    (hafter : ∃ entry', entryAfter (some entry) ⟨s.lines.length + 1, ts, ev⟩ = some entry'
      ∧ entry'.orphan = entry.orphan ∧ entry'.state = state)
    (hleads : ∀ state', leadsTo state' id ⟨s.lines.length + 1, ts, ev⟩ = decide (state' = state)) :
    Sound (s.push ts ev) := by
  obtain ⟨hlive, hcompacted⟩ := hs.live id entry hentry
  obtain ⟨entry', hafter, horphan, hstate⟩ := hafter
  have hne : id ≠ "" := by
    rintro rfl
    simp at hentry
  refine hs.push hid hne (by rw [hentry, hafter]) (horphan.trans hlive) hcompacted (fun state' ↦ ?_) fun h ↦ ?_
  · rw [hentry, hleads]
    cases state <;> cases state' <;> simp_all [wasLedTo]
  · rw [hleads, decide_eq_true_iff] at h
    exact absurd h.symm hdecided

theorem Sound.accept (hs : Sound s) (id : String) (instruction : AcceptInstruction) (clock : ℕ → ℤ) :
    Sound ((appendAcceptStamp size s id instruction clock).onto s) := by
  rw [appendAcceptStamp]
  split_ifs
  · exact hs
  · cases hentry : (deriveStagingState s.lines).get? id with
    | none => exact hs
    | some entry =>
      dsimp only
      split_ifs with horphan
      · exact hs
      · cases hstate : entry.state with
        | accepted => exact hs
        | dropped => exact hs
        | staged =>
          cases hts : isoTime (clock 0) with
          | none => exact hs
          | some ts =>
            refine hs.writeLine fun _ ↦ hs.push_decision hentry hstate rfl .accepted (by simp) ?_ ?_
            · exact ⟨_, if_neg (by simp [hstate]), rfl, rfl⟩
            · intro state'
              cases state' <;> simp [leadsTo]

variable (size) in
theorem Sound.drop (hs : Sound s) (id reason : String) (now : ℤ) :
    Sound ((appendDropLine size s id reason now).onto s) := by
  rw [appendDropLine]
  cases hentry : (deriveStagingState s.lines).get? id with
  | none => exact hs
  | some entry =>
    dsimp only
    split_ifs with horphan
    · exact hs
    · cases hstate : entry.state with
      | accepted => exact hs
      | dropped => exact hs
      | staged =>
        cases hts : isoTime now with
        | none => exact hs
        | some ts =>
          refine hs.writeLine fun _ ↦ hs.push_decision hentry hstate rfl .dropped (by simp) ?_ ?_
          · exact ⟨_, if_neg (by simp [hstate]), rfl, rfl⟩
          · intro state'
            cases state' <;> simp [leadsTo]

theorem Sound.sweepEntries (now : ℤ) (clock : ℕ → ℤ) (entries : List StagedEntryState) (hs : Sound s) :
    Sound (sweepEntries size now clock entries s) := by
  induction entries generalizing s with
  | nil => exact hs
  | cons entry entries ih =>
    rw [Staging.sweepEntries]
    split_ifs
    · exact ih hs
    · have hdrop := hs.drop size entry.event_id EXPIRED_WITHOUT_REVIEW (clock s.lines.length)
      cases hresult : appendDropLine size s entry.event_id EXPIRED_WITHOUT_REVIEW (clock s.lines.length) with
      | threw => exact hs
      | refused reason => exact ih hs
      | appended s' =>
        rw [hresult] at hdrop
        exact ih hdrop

/-- A compaction that has nothing to remove leaves the stream as it is. -/
theorem compact_cases (s : Stream) (now : ℤ) :
    compactStagingStream s now = s
      ∨ ∃ line : StagingLine, line.ev.event_id? = none ∧ compactStagingStream s now =
          { s with
            lines := renumber (keptLines s.lines (eligibleEvents s.lines now) ++ [line])
            compacted := eligibleEvents s.lines now ++ s.compacted } := by
  simp only [compactStagingStream]
  split_ifs
  · exact .inl rfl
  · cases isoTime now with
    | none => exact .inl rfl
    | some ts => exact .inr ⟨_, rfl, rfl⟩

theorem entryOf_compacted (s : Stream) (removed : List String) {line : StagingLine}
    (hline : line.ev.event_id? = none) (id : String) :
    entryOf (renumber (keptLines s.lines removed ++ [line])) id
      = if id ∈ removed then none else entryOf s.lines id := by
  rw [entryOf_renumber, entryOf_concat_of_ne _ (by simp [hline]), entryOf_keptLines]

theorem compactionLaw (s : Stream) (op : StagingOp) : CompactionLaw s op := by
  cases op with
  | compact now =>
    intro id
    rcases compact_cases s now with h | ⟨line, hline, h⟩
    · exact .inl (by rw [h])
    · rw [h]
      rw [entryOf_compacted s _ hline]
      split_ifs with hid
      · exact .inr ⟨rfl, (mem_eligibleEvents_iff s.lines now id).mp hid⟩
      · exact .inl rfl
  | _ => trivial

theorem Sound.compact (hs : Sound s) (now : ℤ) : Sound (compactStagingStream s now) := by
  rcases compact_cases s now with h | ⟨line, hline, h⟩
  · rwa [h]
  rw [h]
  refine ⟨fun state id ↦ ?_, fun id entry hentry ↦ ?_, hs.ordered, map_seq_renumber _⟩
  · dsimp only
    rw [entryOf_compacted s _ hline]
    refine (hs.counted state id).trans ?_
    split_ifs with hid
    · -- a removed chain counts as the dropped entry that it had
      obtain ⟨entry, hentry, heligible⟩ := (mem_eligibleEvents_iff s.lines now id).mp hid
      have hdropped : entry.state = .dropped := by
        simp only [isEligible, Bool.and_eq_true, decide_eq_true_eq] at heligible
        exact heligible.1.1
      cases state <;> simp [wasLedTo, hentry, hdropped, hid]
    · simp [hid]
  · rw [entryOf_compacted s _ hline] at hentry
    split_ifs at hentry with hid
    obtain ⟨hlive, hcompacted⟩ := hs.live id entry hentry
    exact ⟨hlive, by simp [hid, hcompacted]⟩

theorem sound_stagingStep (hs : Sound s) (op : StagingOp) (hfresh : Fresh size s op) :
    Sound (stagingStep size s op) := by
  cases op with
  | stage entry clock => exact hs.stage hfresh
  | accept event_id instruction clock => exact hs.accept event_id instruction clock
  | drop event_id reason now => exact hs.drop size event_id reason now
  | sweep now clock => exact hs.sweepEntries now clock _
  | compact now => exact hs.compact now

/-! ## Exactly when -/

/-- A delivery of an event whose chain was removed is staged a second time. -/
theorem Sound.count_redelivered (hs : Sound s) {clock : ℕ → ℤ}
    (hwritable : Writable size s entry clock) (hcompacted : entry.event_id ∈ s.compacted) :
    (stagingStep size s (.stage entry clock)).count .staged entry.event_id = 2 := by
  obtain ⟨hinput, times, htimes, hsize⟩ := hwritable
  have hne := ne_empty_of_assertStageInput hinput
  have hnone : entryOf s.lines entry.event_id = none := by
    rw [Option.eq_none_iff_forall_ne_some]
    exact fun e he ↦ (hs.live _ e he).2 hcompacted
  have hstep : stagingStep size s (.stage entry clock)
      = s.push times.1 (stageTransition entry times.2.1 times.2.2) := by
    rw [stagingStep, appendStageLine, if_neg (by simp [hinput]), if_neg ((not_any_iff s.lines hne).mpr hnone),
      show stageTimes clock = some times from htimes]
    simp only [Staging.writeLine, if_neg (not_lt.mpr hsize)]
    rfl
  rw [hstep, count_push, hs.counted]
  simp [wasLedTo, hcompacted, leadsTo, stageTransition]

theorem stagingLaw_iff_fresh (hs : Sound s) (op : StagingOp) :
    StagingLaw (stagingStep size s op) ∧ CompactionLaw s op ↔ Fresh size s op := by
  constructor
  · rintro ⟨hlaw, -⟩
    cases op with
    | stage entry clock =>
      intro hwritable hcompacted
      have hstaged := hlaw.staged entry.event_id
      rw [hs.count_redelivered hwritable hcompacted] at hstaged
      omega
    | _ => trivial
  · exact fun hfresh ↦ ⟨(sound_stagingStep hs op hfresh).law, compactionLaw s op⟩

variable (size) in
/-- From an empty stream, every operation of a sequence keeps the law if and only if no event is delivered again
whose chain a compaction has removed. -/
theorem staging_law_iff (ops : List StagingOp) :
    Guarded (stagingStep size) (fun s op ↦ StagingLaw (stagingStep size s op) ∧ CompactionLaw s op) Stream.empty ops
      ↔ Guarded (stagingStep size) (Fresh size) Stream.empty ops := by
  refine guarded_iff_of_invariant (I := Sound) (fun s op hs ↦ stagingLaw_iff_fresh hs op) ?_ sound_empty
  intro s op hs hlaw
  exact sound_stagingStep hs op ((stagingLaw_iff_fresh hs op).mp hlaw)

def foundPaper : StageEntryInput where
  event_id := "arxiv:1"
  campaign := "hopper"
  kind := "paper"
  title := "t"
  url := "u"
  provenance := ⟨"papers-digest", "fetched", "arxiv", "2026"⟩
  matched := none
  reason := none

/-- A match that expires, is compacted away four weeks later, and is found again. -/
def foundAgain : List StagingOp :=
  [.stage foundPaper fun _ ↦ 0, .sweep (14 * day) fun _ ↦ 14 * day, .compact (43 * day),
    .stage foundPaper fun _ ↦ 43 * day]

theorem not_staging_law_foundAgain :
    ¬ Guarded (stagingStep fun _ ↦ 0)
      (fun s op ↦ StagingLaw (stagingStep (fun _ ↦ 0) s op) ∧ CompactionLaw s op) Stream.empty foundAgain := by
  rintro ⟨-, -, -, hlaw, -⟩
  exact absurd (hlaw.1.staged "arxiv:1") (by decide)

end Amicode.Staging
