import Amicode.Client.StreamCursor
import Amicode.Foundation.StepMachine

/-!
# What the stream cursor lets through

Two things are owed for any sequence of frames: the bus events of an origin that are let through rise
within an epoch, from one re-basing of the origin to the next (`increasing`), and an event that does not
directly follow the one before it comes with a resync of its origin (`loud`).

The cursor compares the positions an id names, not the origin that sent the frame. So it lets through the
copy of a composite event, whose positions all stand where they were; it takes a number that a frame of
another origin skipped for that frame's own move; it forgets the peers at a bare frame; and it takes an
epoch it has left for a new one. `Decisive` says that a frame does none of this, and under it both laws
hold along every run.
-/

namespace Amicode.Client

open StepMachine List Option

/-! ## Frames and runs -/

/-- A frame of an engine's stream, bare or fanned in, with the origin that sent it. -/
structure EngineFrame extends FrameInput where
  /-- The origin that sent the frame. -/
  origin : String
  /-- Every origin's value is a position of its engine. -/
  hpositions : ∀ e ∈ (originPositions (trimmedId id)).entries, (enginePosition (some e.2)).isSome = true
  /-- The id has the position of the sender. -/
  horigin : origin ∈ (originPositions (trimmedId id)).keys

namespace EngineFrame

/-- The positions the id names. -/
def next (f : EngineFrame) : InsertionMap String String := originPositions (trimmedId f.id)

def positionAt (f : EngineFrame) (ns : String) : Option EngineId := enginePosition (f.next.get? ns)

/-- The id is one engine's position. -/
def isBare (f : EngineFrame) : Bool := (trimmedId f.id).any fun id ↦ '=' ∉ id.toList

end EngineFrame

inductive CursorOp
  | frame (f : EngineFrame)
  | gap (namespaces : List String)
  | clear

/-- What is observed of an origin. -/
inductive CursorEvent
  | event (origin : String) (position : EngineId)
  /-- A reset or an announced gap re-based the origin. -/
  | rebased (origin : String)
  /-- A resync naming the origin was reported, by a verdict or by the announced gap. -/
  | resynced (origin : String)
deriving DecidableEq

/-- The events of an origin that were let through. -/
def CursorEvent.isEventOf (origin : String) : CursorEvent → Bool
  | .event o _ => o = origin
  | .rebased _ | .resynced _ => false

def CursorEvent.isEventIn (origin epoch : String) : CursorEvent → Bool
  | .event o p => o = origin ∧ p.epoch = epoch
  | .rebased _ | .resynced _ => false

namespace StreamCursor

def next (s : StreamCursor) : CursorOp → StreamCursor
  | .frame f => (s.frame f.toFrameInput).1
  | .gap namespaces => s.gap namespaces
  | .clear => s.clear

/-- The re-basings and resyncs of an operation. -/
def signals (s : StreamCursor) : CursorOp → List CursorEvent
  | .frame f =>
    match (s.frame f.toFrameInput).2.resync with
    | some ⟨.reset, namespaces⟩ => namespaces.map .rebased ++ namespaces.map .resynced
    | some ⟨.hole, namespaces⟩ => namespaces.map .resynced
    | none => []
  | .gap namespaces => (s.gapped namespaces).map .rebased ++ (s.gapped namespaces).map .resynced
  | .clear => []

/-- The bus event an operation lets through: its origin and position. -/
def letsThrough? (s : StreamCursor) : CursorOp → Option (String × EngineId)
  | .frame f =>
    if (s.frame f.toFrameInput).2.apply ∧ ¬ f.isControl then
      (f.positionAt f.origin).map fun p ↦ (f.origin, p)
    else none
  | .gap _ | .clear => none

end StreamCursor

/-- A cursor and what was observed since it was created or last cleared. -/
abbrev Observed := StreamCursor × List CursorEvent

/-- One operation. A cleared cursor has no history. -/
def Observed.step (s : Observed) (op : CursorOp) : Observed :=
  match op with
  | .clear => (s.1.clear, [])
  | op => (s.1.next op, s.2 ++ s.1.signals op
      ++ ((s.1.letsThrough? op).map fun e ↦ CursorEvent.event e.1 e.2).toList)

/-! ## The laws -/

/-- The position directly after another. -/
def Follows (p q : EngineId) : Prop := p.epoch = q.epoch ∧ p.seq = q.seq + 1

instance (p q : EngineId) : Decidable (Follows p q) := inferInstanceAs (Decidable (_ ∧ _))

/-- What is owed for the event an operation lets through. -/
structure LossLaw (s : Observed) (op : CursorOp) : Prop where
  increasing : ∀ o p, s.1.letsThrough? op = some (o, p) → ∀ seq,
    Since (.rebased o) [.event o ⟨p.epoch, seq⟩] (s.2 ++ s.1.signals op) → seq < p.seq
  loud : ∀ o p q, s.1.letsThrough? op = some (o, p) →
    latest (CursorEvent.isEventOf o) s.2 = some (.event o q) → ¬ Follows p q →
    Since (.event o q) [.resynced o] (s.2 ++ s.1.signals op)

/-- The frame is neither dropped nor, a control frame behind the cursor, passed over. -/
def StreamCursor.Takes (s : StreamCursor) (f : EngineFrame) : Prop :=
  s.isBehind f.toFrameInput f.next = false
    ∧ ¬ (s.changed f.next = [] ∧ f.isBare = true ∧ f.isControl = false
      ∧ (enginePosition (trimmedId f.id)).isSome = true)

instance (s : StreamCursor) (f : EngineFrame) : Decidable (s.Takes f) :=
  inferInstanceAs (Decidable (_ ∧ _))

/-- The positions a taken frame names tell what was lost. -/
structure Decisive (s : Observed) (f : EngineFrame) : Prop where
  /-- A bus event moves the origin that sent it. -/
  own : f.isControl = false → f.origin ∈ s.1.changed f.next
  /-- It moves no other origin to its next number: the frame with that number was lost. -/
  others : f.isControl = false → ∀ ns ∈ s.1.changed f.next, ns ≠ f.origin →
    s.1.move f.toFrameInput f.next ns ≠ .onward
  /-- A new epoch is one no event was let through in since the origin was re-based. -/
  epochs : ∀ ns ∈ s.1.changed f.next, s.1.move f.toFrameInput f.next ns = .restart →
    ∀ p ∈ f.positionAt ns, ∀ e ∈ s.2, e.isEventIn ns p.epoch = true → ¬ Since (.rebased ns) [e] s.2
  /-- A bare frame comes while no peer has a position. -/
  peers : f.isBare = true → ∀ ns ∈ s.1.applied.keys, ns = LOCAL_NAMESPACE

instance (s : Observed) (f : EngineFrame) : Decidable (Decisive s f) :=
  decidable_of_iff
    ((f.isControl = false → f.origin ∈ s.1.changed f.next)
      ∧ (f.isControl = false → ∀ ns ∈ s.1.changed f.next, ns ≠ f.origin →
        s.1.move f.toFrameInput f.next ns ≠ .onward)
      ∧ (∀ ns ∈ s.1.changed f.next, s.1.move f.toFrameInput f.next ns = .restart →
        ∀ p ∈ f.positionAt ns, ∀ e ∈ s.2, e.isEventIn ns p.epoch = true →
          ¬ Since (.rebased ns) [e] s.2)
      ∧ (f.isBare = true → ∀ ns ∈ s.1.applied.keys, ns = LOCAL_NAMESPACE))
    ⟨fun h ↦ ⟨h.1, h.2.1, h.2.2.1, h.2.2.2⟩, fun h ↦ ⟨h.own, h.others, h.epochs, h.peers⟩⟩

/-- The condition under which the cursor detects what it should. -/
def Sound (s : Observed) : CursorOp → Prop
  | .frame f => s.1.Takes f → Decisive s f
  | .gap _ | .clear => True

instance (s : Observed) : (op : CursorOp) → Decidable (Sound s op)
  | .frame f => inferInstanceAs (Decidable (s.1.Takes f → Decisive s f))
  | .gap _ | .clear => .isTrue trivial

/-! ## What a frame does -/

variable {s : StreamCursor} {f : EngineFrame} {ns : String}

theorem StreamCursor.mem_changed {next : InsertionMap String String} :
    ns ∈ s.changed next ↔ ns ∈ next.keys ∧ next.get? ns ≠ s.applied.get? ns := by
  rw [StreamCursor.changed, mem_filter, decide_eq_true_iff]

theorem EngineFrame.exists_trimmedId (f : EngineFrame) :
    ∃ id, trimmedId f.id = some id ∧ f.next = originPositions (some id)
      ∧ (f.isBare = true ↔ '=' ∉ id.toList) := by
  rcases hid : trimmedId f.id with _ | id
  · have hnone : f.origin ∈ (originPositions none).keys := hid ▸ f.horigin
    exact absurd hnone (not_mem_nil)
  · exact ⟨id, rfl, by rw [EngineFrame.next, hid], by simp [EngineFrame.isBare, hid]⟩

theorem EngineFrame.exists_positionAt (h : ns ∈ f.next.keys) : ∃ p, f.positionAt ns = some p := by
  rw [← InsertionMap.contains_iff, InsertionMap.contains, isSome_iff_exists] at h
  obtain ⟨v, hv⟩ := h
  have hposition := f.hpositions (ns, v) ((InsertionMap.get?_eq_some_iff f.next ns v).mp hv)
  rw [EngineFrame.positionAt, hv]
  exact isSome_iff_exists.mp hposition

theorem StreamCursor.frame_of_takes (h : s.Takes f) :
    ∃ id origin, f.next = originPositions (some id) ∧ (f.isBare = true ↔ '=' ∉ id.toList)
      ∧ s.frame f.toFrameInput
        = (s.advance id f.next, ⟨true, origin, s.resync? f.toFrameInput f.next⟩) := by
  obtain ⟨id, hid, hnext, hbare⟩ := f.exists_trimmedId
  obtain ⟨hbehind, hdup⟩ := h
  refine ⟨id, (resolveEventOrigin (some id) s.applied).1, hnext, hbare, ?_⟩
  rw [hbare, hid] at hdup
  rw [StreamCursor.frame, hid]
  dsimp only
  rw [← hnext]
  rw [if_neg (by simp [hbehind]), if_neg (by simpa using hdup)]

/-- A frame that is not taken leaves the cursor as it is, owes nothing, and lets no event through. -/
theorem StreamCursor.frame_of_not_takes (h : ¬ s.Takes f) :
    (s.frame f.toFrameInput).1 = s ∧ (s.frame f.toFrameInput).2.resync = none
      ∧ ((s.frame f.toFrameInput).2.apply = true → f.isControl = true) := by
  obtain ⟨id, hid, hnext, hbare⟩ := f.exists_trimmedId
  rw [StreamCursor.frame, hid]
  dsimp only
  rw [← hnext]
  split
  · exact ⟨rfl, rfl, fun h ↦ h⟩
  · rename_i hbehind
    have hdup : s.changed f.next = [] ∧ '=' ∉ id.toList ∧ ¬ f.isControl = true
        ∧ (enginePosition (some id)).isSome = true := by
      by_contra hdup
      refine h ⟨by simpa using hbehind, ?_⟩
      rw [hbare, hid]
      simpa using hdup
    rw [if_pos hdup]
    exact ⟨rfl, rfl, fun h ↦ absurd h (by simp)⟩

/-! ### The positions afterwards -/

private theorem mem_of_mem_trim {text : List Char} {c : Char} (h : c ∈ JsText.trim text) : c ∈ text := by
  have hinner := (dropWhile_suffix JsText.isSpace).subset (mem_reverse.mp h)
  exact (dropWhile_suffix JsText.isSpace).subset (mem_reverse.mp hinner)

theorem eq_local_of_mem_keys {id : String} (hbare : '=' ∉ id.toList)
    (h : ns ∈ (originPositions (some id)).keys) : ns = LOCAL_NAMESPACE := by
  have htrim : '=' ∉ JsText.trim id.toList := fun hmem ↦ hbare (mem_of_mem_trim hmem)
  rw [originPositions] at h
  split at h
  · exact absurd h not_mem_nil
  · rw [InsertionMap.mem_keys_set] at h
    exact h.resolve_right not_mem_nil

theorem StreamCursor.get?_advance {id : String} (hnext : f.next = originPositions (some id))
    (hbare : f.isBare = true ↔ '=' ∉ id.toList)
    (hpeers : f.isBare = true → ∀ ns ∈ s.applied.keys, ns = LOCAL_NAMESPACE) (ns : String) :
    (s.advance id f.next).applied.get? ns = (f.next.get? ns).or (s.applied.get? ns) := by
  rw [StreamCursor.advance]
  split
  · exact InsertionMap.get?_setAll_entries s.applied f.next ns
  · rename_i heq
    have hlocal : ∀ ns ∈ f.next.keys, ns = LOCAL_NAMESPACE :=
      fun ns h ↦ eq_local_of_mem_keys heq (hnext ▸ h)
    rcases hget : f.next.get? ns with _ | v
    · rw [none_or, eq_comm, InsertionMap.get?_eq_none_iff]
      intro hmem
      have horigin : LOCAL_NAMESPACE ∈ f.next.keys := hlocal f.origin f.horigin ▸ f.horigin
      rw [← hpeers (hbare.mpr heq) ns hmem] at horigin
      exact (InsertionMap.get?_eq_none_iff f.next ns).mp hget horigin
    · rw [some_or]

theorem StreamCursor.position_advance {id : String} (hnext : f.next = originPositions (some id))
    (hbare : f.isBare = true ↔ '=' ∉ id.toList)
    (hpeers : f.isBare = true → ∀ ns ∈ s.applied.keys, ns = LOCAL_NAMESPACE) (ns : String) :
    (s.advance id f.next).position ns
      = if ns ∈ s.changed f.next then f.positionAt ns else s.position ns := by
  rw [StreamCursor.position, StreamCursor.get?_advance hnext hbare hpeers ns]
  rcases hget : f.next.get? ns with _ | v
  · have hkey : ns ∉ f.next.keys := (InsertionMap.get?_eq_none_iff f.next ns).mp hget
    rw [if_neg fun h ↦ hkey (StreamCursor.mem_changed.mp h).1, none_or, StreamCursor.position]
  · have hkey : ns ∈ f.next.keys := by
      by_contra h
      rw [(InsertionMap.get?_eq_none_iff f.next ns).mpr h] at hget
      exact absurd hget (by simp)
    rw [some_or]
    by_cases hsame : s.applied.get? ns = some v
    · rw [if_neg fun h ↦ (StreamCursor.mem_changed.mp h).2 (hget.trans hsame.symm),
        StreamCursor.position, hsame]
    · rw [if_pos (StreamCursor.mem_changed.mpr ⟨hkey, fun h ↦ hsame (h.symm.trans hget)⟩),
        EngineFrame.positionAt, hget]

/-! ### The signals -/

/-- The origins a reset frame is about. -/
def StreamCursor.resetNames (s : StreamCursor) (f : EngineFrame) : List String :=
  if s.changed f.next ≠ [] then s.changed f.next else f.next.keys

theorem StreamCursor.signals_of_takes (h : s.Takes f) :
    s.signals (.frame f) = if f.isReset = true
      then (s.resetNames f).map .rebased ++ (s.resetNames f).map .resynced
      else ((s.changed f.next).filter fun ns ↦ (s.move f.toFrameInput f.next ns).isLoss).map
        .resynced := by
  obtain ⟨id, origin, -, -, hframe⟩ := StreamCursor.frame_of_takes h
  rw [StreamCursor.signals, hframe, StreamCursor.resync?, StreamCursor.resetNames]
  by_cases hreset : f.isReset = true
  · simp only [hreset, if_true]
  · simp only [hreset, Bool.false_eq_true, if_false]
    by_cases hholes : (s.changed f.next).filter
        (fun ns ↦ (s.move f.toFrameInput f.next ns).isLoss) = []
    · simp [hholes]
    · simp only [ne_eq, hholes, not_false_eq_true, if_true]

theorem StreamCursor.rebased_mem_signals (h : s.Takes f) :
    .rebased ns ∈ s.signals (.frame f) ↔ f.isReset = true ∧ ns ∈ s.resetNames f := by
  rw [StreamCursor.signals_of_takes h]
  split_ifs with hreset <;> simp [hreset]

theorem StreamCursor.resynced_mem_signals (h : s.Takes f) (hmem : ns ∈ s.changed f.next)
    (hloss : f.isReset = true ∨ (s.move f.toFrameInput f.next ns).isLoss = true) :
    .resynced ns ∈ s.signals (.frame f) := by
  rw [StreamCursor.signals_of_takes h]
  split_ifs with hreset
  · have hnames : ns ∈ s.resetNames f := by
      rwa [StreamCursor.resetNames, if_pos (ne_nil_of_mem hmem)]
    simpa using hnames
  · simpa [hmem] using hloss.resolve_left hreset

theorem StreamCursor.not_isEventOf_of_mem_signals (s : StreamCursor) (op : CursorOp) :
    ∀ e ∈ s.signals op, CursorEvent.isEventOf ns e = false := by
  intro e he
  have hsignal : ∀ names : List String, e ∈ names.map .rebased ++ names.map .resynced →
      CursorEvent.isEventOf ns e = false := by
    intro names h
    rcases mem_append.mp h with h | h
    · obtain ⟨o, -, rfl⟩ := List.mem_map.mp h
      rfl
    · obtain ⟨o, -, rfl⟩ := List.mem_map.mp h
      rfl
  rcases op with f | names | _
  · rw [StreamCursor.signals] at he
    split at he
    · exact hsignal _ he
    · exact hsignal _ (mem_append_right _ he)
    · exact absurd he not_mem_nil
  · exact hsignal _ he
  · exact absurd he not_mem_nil

/-! ### The moves -/

/-- Where an origin that a taken frame moves comes from. -/
inductive Moved (s : StreamCursor) (f : EngineFrame) (ns : String) (prev cur : EngineId) : Prop
  | reset (hreset : f.isReset = true)
  | rebased (hrebase : ns ∈ s.rebase)
  | restarted (hmove : s.move f.toFrameInput f.next ns = .restart) (hepoch : cur.epoch ≠ prev.epoch)
  | skipped (hmove : s.move f.toFrameInput f.next ns = .hole) (hepoch : cur.epoch = prev.epoch)
      (hseq : prev.seq < cur.seq)
  | onward (hmove : s.move f.toFrameInput f.next ns = .onward) (hcontrol : f.isControl = false)
      (hfollows : Follows cur prev)

theorem StreamCursor.moved_of_takes (h : s.Takes f) (hmem : ns ∈ s.changed f.next) {prev cur : EngineId}
    (hprev : s.position ns = some prev) (hcur : f.positionAt ns = some cur) :
    Moved s f ns prev cur := by
  have hbehind : s.move f.toFrameInput f.next ns ≠ .behind := by
    have hnone := h.1
    rw [StreamCursor.isBehind, List.any_eq_false] at hnone
    simpa using hnone ns hmem
  by_cases hbase : f.isReset = true ∨ ns ∈ s.rebase
  · exact hbase.elim .reset .rebased
  · have hmove : s.move f.toFrameInput f.next ns
        = if cur.epoch ≠ prev.epoch then .restart
          else if cur.seq ≤ prev.seq then .behind
          else if prev.seq + (if f.isControl then 0 else 1) < cur.seq then .hole
          else .onward := by
      rw [EngineFrame.positionAt] at hcur
      rw [StreamCursor.move, if_neg hbase, hprev, hcur]
    by_cases hepoch : cur.epoch = prev.epoch
    · rw [if_neg (not_not.mpr hepoch)] at hmove
      by_cases hle : cur.seq ≤ prev.seq
      · exact absurd (hmove.trans (if_pos hle)) hbehind
      · rw [if_neg hle] at hmove
        rcases hcontrol : f.isControl with _ | _ <;> rw [hcontrol] at hmove
        · by_cases hlt : prev.seq + 1 < cur.seq
          · exact .skipped (hmove.trans (if_pos hlt)) hepoch (by omega)
          · exact .onward (hmove.trans (if_neg hlt)) hcontrol ⟨hepoch, by omega⟩
        · exact .skipped (hmove.trans (if_pos (by simpa using hle))) hepoch (by omega)
    · exact .restarted (hmove.trans (if_pos hepoch)) hepoch

/-! ## The invariant -/

structure TracksOrigin (s : StreamCursor) (log : List CursorEvent) (o : String) : Prop where
  /-- It stands at the last event let through, unless a resync was reported since. -/
  standing : ∀ p, latest (CursorEvent.isEventOf o) log = some (.event o p) →
    s.position o = some p ∨ Since (.event o p) [.resynced o] log
  /-- An origin to be re-based is owed nothing, and is at its start. -/
  flagged : o ∈ s.rebase → ∀ p,
    (latest (CursorEvent.isEventOf o) log = some (.event o p) → Since (.event o p) [.resynced o] log)
      ∧ ¬ Since (.rebased o) [.event o p] log
  /-- It stands at or past every event of its epoch since the origin was re-based. -/
  ahead : ∀ p, Since (.rebased o) [.event o p] log →
    ∃ q, s.position o = some q ∧ (p.epoch = q.epoch → p.seq ≤ q.seq)

/-- What the cursor knows. -/
def Tracks (s : Observed) : Prop := ∀ o, TracksOrigin s.1 s.2 o

theorem tracks_nil (s : StreamCursor) (hrebase : s.rebase = ∅) : Tracks (s, []) := by
  have hnever : ∀ o p, ¬ Since (.rebased o) [.event o p] ([] : List CursorEvent) := by
    rintro o p ⟨after, hsuffix, hsublist, -⟩
    rw [suffix_nil.mp hsuffix] at hsublist
    exact absurd hsublist (by simp)
  intro o
  refine ⟨fun p h ↦ absurd h (by simp), fun h ↦ absurd h ?_, fun p h ↦ absurd h (hnever o p)⟩
  rw [hrebase]
  exact Finset.notMem_empty o

variable {log later : List CursorEvent} {o : String}

theorem not_mem_of_not_isEventOf {p : EngineId}
    (h : ∀ e ∈ later, CursorEvent.isEventOf o e = false) : .event o p ∉ later :=
  fun hmem ↦ absurd (h _ hmem) (by simp [CursorEvent.isEventOf])

/-- Whether an event was let through since the origin was re-based. -/
theorem since_rebased_append_iff {p : EngineId}
    (h : ∀ e ∈ later, CursorEvent.isEventOf o e = false) :
    Since (.rebased o) [.event o p] (log ++ later)
      ↔ Since (.rebased o) [.event o p] log ∧ .rebased o ∉ later := by
  refine since_append_iff fun e he ↦ ?_
  rw [mem_singleton.mp he]
  exact not_mem_of_not_isEventOf h

/-- An origin that stands where it stood, and of which nothing is let through. -/
theorem TracksOrigin.of_position {s s' : StreamCursor} (h : TracksOrigin s log o)
    (hlater : ∀ e ∈ later, CursorEvent.isEventOf o e = false) (hposition : s'.position o = s.position o)
    (hrebase : o ∈ s'.rebase → o ∈ s.rebase ∨ .rebased o ∈ later ∧ .resynced o ∈ later) :
    TracksOrigin s' (log ++ later) o where
  standing := by
    intro p hlatest
    rw [latest_append_of_neg log hlater] at hlatest
    rw [hposition]
    exact (h.standing p hlatest).imp_right fun hsince ↦ hsince.append (not_mem_of_not_isEventOf hlater)
  flagged := by
    intro hmem p
    rw [latest_append_of_neg log hlater, since_rebased_append_iff hlater]
    rcases hrebase hmem with hmem | ⟨hrebased, hresynced⟩
    · have hflagged := h.flagged hmem p
      refine ⟨fun hlatest ↦ ?_, fun hsince ↦ hflagged.2 hsince.1⟩
      exact (hflagged.1 hlatest).append (not_mem_of_not_isEventOf hlater)
    · refine ⟨fun _ ↦ ?_, fun hsince ↦ hsince.2 hrebased⟩
      exact since_append_of_mem hresynced (not_mem_of_not_isEventOf hlater)
  ahead := by
    intro p hsince
    rw [hposition]
    exact h.ahead p ((since_rebased_append_iff hlater).mp hsince).1

/-! ### An origin a frame moves -/

theorem StreamCursor.letsThrough?_of_takes (h : s.Takes f) (hcur : f.positionAt f.origin = some cur) :
    s.letsThrough? (.frame f) = if f.isControl = true then none else some (f.origin, cur) := by
  obtain ⟨id, origin, -, -, hframe⟩ := StreamCursor.frame_of_takes h
  rw [StreamCursor.letsThrough?, hframe, hcur]
  rcases f.isControl with _ | _ <;> rfl

section Moves

variable {log : List CursorEvent} {prev cur : EngineId}

theorem lt_of_since_rebased (hs : TracksOrigin s log ns) (htakes : s.Takes f)
    (hdecisive : Decisive (s, log) f) (hmem : ns ∈ s.changed f.next) (hcur : f.positionAt ns = some cur)
    {p : EngineId} (hepoch : p.epoch = cur.epoch)
    (hsince : Since (.rebased ns) [.event ns p] (log ++ s.signals (.frame f))) : p.seq < cur.seq := by
  obtain ⟨hsince, hrebased⟩ := (since_rebased_append_iff
    (s.not_isEventOf_of_mem_signals (.frame f))).mp hsince
  obtain ⟨q, hq, hle⟩ := hs.ahead p hsince
  rcases StreamCursor.moved_of_takes htakes hmem hq hcur with
    hreset | hrebase | ⟨hmove, -⟩ | ⟨-, hsame, hseq⟩ | ⟨-, -, hfollows⟩
  · refine absurd ((StreamCursor.rebased_mem_signals htakes).mpr ⟨hreset, ?_⟩) hrebased
    rwa [StreamCursor.resetNames, if_pos (ne_nil_of_mem hmem)]
  · exact absurd hsince (hs.flagged hrebase p).2
  · have hmemlog : .event ns p ∈ log := by
      obtain ⟨after, hsuffix, hsublist, -⟩ := hsince
      exact hsuffix.subset (hsublist.subset mem_cons_self)
    refine absurd hsince (hdecisive.epochs ns hmem hmove cur hcur _ hmemlog ?_)
    simp [CursorEvent.isEventIn, hepoch]
  · exact lt_of_le_of_lt (hle (hepoch.trans hsame)) hseq
  · have hnext := hfollows.2
    have hseq := hle (hepoch.trans hfollows.1)
    omega

theorem resynced_or_onward (hs : TracksOrigin s log ns) (htakes : s.Takes f)
    (hmem : ns ∈ s.changed f.next) (hcur : f.positionAt ns = some cur)
    (hlatest : latest (CursorEvent.isEventOf ns) log = some (.event ns prev)) :
    Since (.event ns prev) [.resynced ns] (log ++ s.signals (.frame f))
      ∨ s.move f.toFrameInput f.next ns = .onward ∧ f.isControl = false ∧ Follows cur prev := by
  have hsignals : .event ns prev ∉ s.signals (.frame f) :=
    not_mem_of_not_isEventOf (s.not_isEventOf_of_mem_signals (.frame f))
  have hreported : f.isReset = true ∨ (s.move f.toFrameInput f.next ns).isLoss = true →
      Since (.event ns prev) [.resynced ns] (log ++ s.signals (.frame f)) := fun h ↦
    since_append_of_mem (StreamCursor.resynced_mem_signals htakes hmem h) hsignals
  rcases hs.standing prev hlatest with hprev | hsince
  · rcases StreamCursor.moved_of_takes htakes hmem hprev hcur with
      hreset | hrebase | ⟨hmove, -⟩ | ⟨hmove, -, -⟩ | ⟨hmove, hcontrol, hfollows⟩
    · exact Or.inl (hreported (Or.inl hreset))
    · exact Or.inl (((hs.flagged hrebase prev).1 hlatest).append hsignals)
    · exact Or.inl (hreported (Or.inr (by rw [hmove]; rfl)))
    · exact Or.inl (hreported (Or.inr (by rw [hmove]; rfl)))
    · exact Or.inr ⟨hmove, hcontrol, hfollows⟩
  · exact Or.inl (hsince.append hsignals)

theorem tracksOrigin_of_moved {s' : StreamCursor} {delivered : List CursorEvent}
    (hs : TracksOrigin s log ns) (htakes : s.Takes f) (hdecisive : Decisive (s, log) f)
    (hmem : ns ∈ s.changed f.next) (hcur : f.positionAt ns = some cur)
    (hposition : s'.position ns = some cur) (hrebase : ns ∉ s'.rebase)
    (hother : f.isControl = false → ns ≠ f.origin)
    (hdelivered : ∀ e ∈ delivered, CursorEvent.isEventOf ns e = false) :
    TracksOrigin s' (log ++ s.signals (.frame f) ++ delivered) ns where
  standing := by
    intro p hlatest
    rw [latest_append_of_neg _ hdelivered,
      latest_append_of_neg log (s.not_isEventOf_of_mem_signals (.frame f))] at hlatest
    rcases resynced_or_onward hs htakes hmem hcur hlatest with hsince | ⟨hmove, hcontrol, -⟩
    · exact Or.inr (hsince.append (not_mem_of_not_isEventOf hdelivered))
    · exact absurd hmove (hdecisive.others hcontrol ns hmem (hother hcontrol))
  flagged := fun hmem ↦ absurd hmem hrebase
  ahead := by
    intro p hsince
    refine ⟨cur, hposition, fun hepoch ↦ le_of_lt ?_⟩
    have hbefore := ((since_rebased_append_iff hdelivered).mp hsince).1
    exact lt_of_since_rebased hs htakes hdecisive hmem hcur hepoch hbefore

theorem tracksOrigin_of_event {s' : StreamCursor} (hs : TracksOrigin s log ns) (htakes : s.Takes f)
    (hdecisive : Decisive (s, log) f) (hmem : ns ∈ s.changed f.next)
    (hcur : f.positionAt ns = some cur) (hposition : s'.position ns = some cur)
    (hrebase : ns ∉ s'.rebase) :
    TracksOrigin s' (log ++ s.signals (.frame f) ++ [.event ns cur]) ns where
  standing := by
    intro p hlatest
    rw [latest_concat_of_pos _ (by simp [CursorEvent.isEventOf])] at hlatest
    obtain ⟨-, rfl⟩ := CursorEvent.event.inj (Option.some.inj hlatest)
    exact Or.inl hposition
  flagged := fun hmem ↦ absurd hmem hrebase
  ahead := by
    intro p hsince
    refine ⟨cur, hposition, fun hepoch ↦ ?_⟩
    by_cases hp : p = cur
    · rw [hp]
    · have hbefore := hsince.of_concat (by simpa using Ne.symm hp)
      exact le_of_lt (lt_of_since_rebased hs htakes hdecisive hmem hcur hepoch hbefore)

end Moves

/-! ## The run -/

/-- The event an operation lets through, as a log. -/
def StreamCursor.delivered (s : StreamCursor) (op : CursorOp) : List CursorEvent :=
  ((s.letsThrough? op).map fun e ↦ CursorEvent.event e.1 e.2).toList

theorem Observed.step_frame (s : StreamCursor) (log : List CursorEvent) (f : EngineFrame) :
    Observed.step (s, log) (.frame f)
      = (s.next (.frame f), log ++ s.signals (.frame f) ++ s.delivered (.frame f)) := rfl

theorem StreamCursor.not_isEventOf_of_mem_delivered (htakes : s.Takes f)
    (h : f.isControl = true ∨ o ≠ f.origin) :
    ∀ e ∈ s.delivered (.frame f), CursorEvent.isEventOf o e = false := by
  obtain ⟨cur, hcur⟩ := f.exists_positionAt f.horigin
  intro e he
  rw [StreamCursor.delivered, StreamCursor.letsThrough?_of_takes htakes hcur] at he
  rcases hcontrol : f.isControl with _ | _
  · have horigin : o ≠ f.origin := h.resolve_left (by simp [hcontrol])
    obtain rfl : e = .event f.origin cur := by simpa [hcontrol] using he
    simpa [CursorEvent.isEventOf] using Ne.symm horigin
  · exact absurd he (by simp [hcontrol])

theorem tracks_of_takes {log : List CursorEvent} (hs : Tracks (s, log)) (htakes : s.Takes f)
    (hdecisive : Decisive (s, log) f) : Tracks (Observed.step (s, log) (.frame f)) := by
  intro o
  obtain ⟨id, origin, hnext, hbare, hframe⟩ := StreamCursor.frame_of_takes htakes
  have hposition := StreamCursor.position_advance hnext hbare hdecisive.peers o
  have hrebase : o ∈ (s.advance id f.next).rebase ↔ o ∈ s.rebase ∧ o ∉ s.changed f.next := by
    simp [StreamCursor.advance]
  rw [Observed.step_frame, StreamCursor.next, hframe]
  by_cases hmem : o ∈ s.changed f.next
  · obtain ⟨p, hp⟩ := f.exists_positionAt (StreamCursor.mem_changed.mp hmem).1
    rw [if_pos hmem, hp] at hposition
    have hunflagged : o ∉ (s.advance id f.next).rebase := fun h ↦ (hrebase.mp h).2 hmem
    by_cases hevent : f.isControl = false ∧ o = f.origin
    · obtain ⟨hcontrol, rfl⟩ := hevent
      rw [StreamCursor.delivered, StreamCursor.letsThrough?_of_takes htakes hp,
        if_neg (by simp [hcontrol])]
      exact tracksOrigin_of_event (hs f.origin) htakes hdecisive hmem hp hposition hunflagged
    · refine tracksOrigin_of_moved (hs o) htakes hdecisive hmem hp hposition hunflagged
        (fun hcontrol horigin ↦ hevent ⟨hcontrol, horigin⟩)
        (StreamCursor.not_isEventOf_of_mem_delivered htakes ?_)
      rcases hcontrol : f.isControl with _ | _
      · exact Or.inr fun horigin ↦ hevent ⟨hcontrol, horigin⟩
      · exact Or.inl rfl
  · rw [if_neg hmem] at hposition
    have hother : f.isControl = true ∨ o ≠ f.origin := by
      rcases hcontrol : f.isControl with _ | _
      · exact Or.inr fun horigin ↦ hmem (horigin ▸ hdecisive.own hcontrol)
      · exact Or.inl rfl
    rw [append_assoc]
    refine (hs o).of_position (fun e he ↦ ?_) hposition fun h ↦ Or.inl (hrebase.mp h).1
    rcases mem_append.mp he with he | he
    · exact s.not_isEventOf_of_mem_signals (.frame f) e he
    · exact StreamCursor.not_isEventOf_of_mem_delivered htakes hother e he

theorem tracks_step (s : Observed) (op : CursorOp) (hs : Tracks s) (hop : Sound s op) :
    Tracks (s.step op) := by
  obtain ⟨s, log⟩ := s
  rcases op with f | names | _
  · by_cases htakes : s.Takes f
    · exact tracks_of_takes hs htakes (hop htakes)
    · obtain ⟨hsame, hresync, happly⟩ := StreamCursor.frame_of_not_takes htakes
      have hsignals : s.signals (.frame f) = [] := by rw [StreamCursor.signals, hresync]
      have hdelivered : s.delivered (.frame f) = [] := by
        rw [StreamCursor.delivered, StreamCursor.letsThrough?,
          if_neg fun h ↦ h.2 (happly h.1), map_none, toList_none]
      rw [Observed.step_frame, StreamCursor.next, hsame, hsignals, hdelivered, append_nil,
        append_nil]
      exact hs
  · intro o
    have hstep : Observed.step (s, log) (.gap names) = (s.gap names, log ++ s.signals (.gap names)) :=
      congrArg (Prod.mk _) (append_nil _)
    rw [hstep]
    refine (hs o).of_position (s.not_isEventOf_of_mem_signals (.gap names)) rfl fun hmem ↦ ?_
    refine (Finset.mem_union.mp hmem).imp_right fun hgapped ↦ ?_
    rw [List.mem_toFinset] at hgapped
    exact ⟨by simp [StreamCursor.signals, hgapped], by simp [StreamCursor.signals, hgapped]⟩
  · exact tracks_nil s.clear rfl

theorem lossLaw_of_tracks (s : Observed) (op : CursorOp) (hs : Tracks s) (hop : Sound s op) :
    LossLaw s op := by
  obtain ⟨s, log⟩ := s
  have hnothing : s.letsThrough? op = none → LossLaw (s, log) op := by
    intro hnone
    exact ⟨fun o p h ↦ absurd (hnone.symm.trans h) (by simp),
      fun o p q h ↦ absurd (hnone.symm.trans h) (by simp)⟩
  rcases op with f | names | _
  · by_cases htakes : s.Takes f
    · obtain ⟨cur, hcur⟩ := f.exists_positionAt f.horigin
      have hthrough := StreamCursor.letsThrough?_of_takes htakes hcur
      rcases hcontrol : f.isControl with _ | _
      · rw [if_neg (by simp [hcontrol])] at hthrough
        have hdecisive := hop htakes
        have hmem := hdecisive.own hcontrol
        refine ⟨fun o p h seq hsince ↦ ?_, fun o p q h hlatest hfollows ↦ ?_⟩
        all_goals obtain ⟨rfl, rfl⟩ := Prod.mk.inj (Option.some.inj (hthrough.symm.trans h))
        · exact lt_of_since_rebased (p := ⟨cur.epoch, seq⟩) (hs f.origin) htakes hdecisive hmem hcur
            rfl hsince
        · rcases resynced_or_onward (hs f.origin) htakes hmem hcur hlatest with hsince | honward
          · exact hsince
          · exact absurd honward.2.2 hfollows
      · exact hnothing (hthrough.trans (if_pos hcontrol))
    · have happly := (StreamCursor.frame_of_not_takes htakes).2.2
      exact hnothing (if_neg fun h ↦ h.2 (happly h.1))
  · exact hnothing rfl
  · exact hnothing rfl

/-- In every run in which each frame's positions tell what was lost, no event is let through twice
between two re-basings of its origin, and every loss comes with a resync. -/
theorem lossLaw_run (initial : Option String) (ops : List CursorOp)
    (h : Guarded Observed.step Sound (createStreamCursor initial, []) ops) :
    Guarded Observed.step LossLaw (createStreamCursor initial, []) ops :=
  h.of_invariant tracks_step lossLaw_of_tracks (tracks_nil _ rfl)

/-- A frame of the peer `studio`, at its 42nd event. -/
def studio42 : EngineFrame :=
  ⟨⟨some "local=E:5;studio=P:42", some "message.part.updated"⟩, "studio", by decide, by decide⟩

/-- The next frame of the local engine; the 43rd event of the peer was lost. -/
def local6 : EngineFrame :=
  ⟨⟨some "local=E:6;studio=P:43", some "message.part.updated"⟩, LOCAL_NAMESPACE, by decide, by decide⟩

/-- The 44th event of the peer. -/
def studio44 : EngineFrame :=
  ⟨⟨some "local=E:6;studio=P:44", some "message.part.updated"⟩, "studio", by decide, by decide⟩

theorem lossLaw_run_announcedGap :
    Guarded Observed.step Sound (createStreamCursor none, [])
        [.frame studio42, .gap [LOCAL_NAMESPACE], .frame studio44]
      ∧ Guarded Observed.step LossLaw (createStreamCursor none, [])
        [.frame studio42, .gap [LOCAL_NAMESPACE], .frame studio44] :=
  have hsound : Guarded Observed.step Sound (createStreamCursor none, [])
      [.frame studio42, .gap [LOCAL_NAMESPACE], .frame studio44] := by decide +kernel
  ⟨hsound, lossLaw_run none _ hsound⟩

/-- A copy of a composite event is let through again; and a lost event goes unreported when the next
frame is another origin's. -/
theorem not_lossLaw_copy :
    ¬ Guarded Observed.step LossLaw (createStreamCursor none, []) [.frame studio42, .frame studio42]
      ∧ ¬ Guarded Observed.step LossLaw (createStreamCursor none, [])
        [.frame studio42, .frame local6, .frame studio44] := by
  constructor
  · rintro ⟨-, hcopy, -⟩
    have htwice := hcopy.increasing "studio" ⟨"P", 42⟩ (by decide +kernel) 42 (by decide +kernel)
    exact lt_irrefl 42 htwice
  · rintro ⟨-, -, hlost, -⟩
    have hreported := hlost.loud "studio" ⟨"P", 44⟩ ⟨"P", 42⟩ (by decide +kernel) (by decide +kernel)
      (by decide)
    exact absurd hreported (by decide +kernel)

end Amicode.Client
