import Mathlib.Data.List.Pairwise
import Amicode.Foundation.InsertionMap
import Amicode.Replay.Resume

/-!
# The bus that feeds the buffer

`bus/global.ts` numbers every emitted event once; a sync copy takes the number of the event it
mirrors, found by the source event's id in a window of recent ids. The tap of `global-replay.ts`
turns each numbered event into a frame, or into a hole when it cannot be serialized.

A run of the engine drives its buffer through a run of the stream (`stream_run`), so everything
proved about streams holds of the engine. What the numbering adds is `Numbered`: the frames that
are not sync copies carry strictly increasing sequences. Hence a subscriber without sync copies
always resumes exactly (`resumed_source`). One with sync copies does not: a connection lost between
an event and its copy loses the copy (`not_resumed_syncCopy`).
-/

namespace Amicode.Replay

/-- How many recent source-event ids are remembered. -/
def MIRROR_WINDOW : ℕ := 256

/-- The emitter: the last sequence assigned, and the sequences of recent events by id. -/
structure GlobalBus where
  seq : ℕ := 0
  mirrors : InsertionMap String ℕ := ∅

/-- The payload `emit` sends on: one without an id takes that of its sync event, or a fresh one. -/
def Payload.identified (fresh : String) (payload : Payload) : Payload :=
  match payload.id, payload.syncEventId with
  | .absent, .absent => { payload with id := .text fresh }
  | .absent, syncEventId => { payload with id := syncEventId }
  | _, _ => payload

/-- Is the event a sync event? -/
def GlobalEvent.isSync (event : GlobalEvent) : Bool :=
  (event.payload.bind Payload.type) == some "sync"

/-- The id a sync event names as its source, when it is a string. -/
def GlobalEvent.sourceId? (event : GlobalEvent) : Option String :=
  match event.payload with
  | some ⟨_, _, .text id⟩ => some id
  | _ => none

namespace GlobalBus

/-- Remember the sequence of an event id; the oldest id leaves a full window. -/
def remember (id : String) (seq : ℕ) (mirrors : InsertionMap String ℕ) : InsertionMap String ℕ :=
  let mirrors := mirrors.set id seq
  if MIRROR_WINDOW < mirrors.size then
    match mirrors.keys.head? with
    | some oldest => mirrors.erase oldest
    | none => mirrors
  else mirrors

def sequence (event : GlobalEvent) (bus : GlobalBus) : ℕ × GlobalBus :=
  if event.isSync then
    match event.sourceId?.bind bus.mirrors.get? with
    | some source => (source, bus)
    | none => (bus.seq + 1, { bus with seq := bus.seq + 1 })
  else
    let seq := bus.seq + 1
    match event.textId? with
    | some id => (seq, { seq := seq, mirrors := remember id seq bus.mirrors })
    | none => (seq, { bus with seq := seq })

/-- `emit`: the event the taps see, with its sequence. -/
def emit (fresh : String) (event : GlobalEvent) (bus : GlobalBus) :
    GlobalEvent × ℕ × GlobalBus :=
  let event : GlobalEvent := ⟨event.payload.map (Payload.identified fresh)⟩
  let (seq, bus) := bus.sequence event
  (event, seq, bus)

end GlobalBus

/-! ## The engine -/

/-- The bus and the buffer its tap feeds. -/
structure Engine where
  bus : GlobalBus := {}
  stream : Stream

/-- What happens in an engine. `data` is the serialized event, `none` when it does not serialize;
`fresh` is the id drawn for an event without one. -/
inductive EngineOp where
  | emit (event : GlobalEvent) (fresh : String) (data : Option String) (time now : ℤ)
  | subscribe (cursor : Option String) (sync : Bool) (now : ℤ)
  | start (i : ℕ)
  | close (i : ℕ)

/-- The tap: what it does to the buffer for a numbered event. -/
def tap (event : GlobalEvent) (seq : ℕ) (data : Option String) (time now : ℤ)
    (buffer : ReplayBuffer) : ReplayOp :=
  -- a sync event that consumed a fresh sequence is a frame of its own
  let syncCopy := event.isSync && decide (seq ≤ buffer.current)
  match data with
  | none => .skip seq
  | some data => .push time now seq event data syncCopy

namespace Engine

variable (config : ReplayConfig)

/-- A fresh engine; its buffer starts where the bus does. -/
def init : Engine := { bus := { seq := config.start }, stream := Stream.init config }

/-- What an operation is to the buffer. -/
def streamOp (e : Engine) : EngineOp → ReplayOp
  | .emit event fresh data time now =>
    let (event, seq, _) := e.bus.emit fresh event
    tap event seq data time now e.stream.buffer
  | .subscribe cursor sync now => .subscribe cursor sync now
  | .start i => .start i
  | .close i => .close i

def busStep (bus : GlobalBus) : EngineOp → GlobalBus
  | .emit event fresh _ _ _ => (bus.emit fresh event).2.2
  | .subscribe .. | .start _ | .close _ => bus

/-- One operation. -/
def step (e : Engine) (op : EngineOp) : Engine :=
  { bus := busStep e.bus op, stream := e.stream.step config (e.streamOp op) }

theorem stream_run (e : Engine) (ops : List EngineOp) :
    ∃ ops', (StepMachine.run (step config) e ops).stream
      = StepMachine.run (Stream.step config) e.stream ops' := by
  induction ops generalizing e with
  | nil => exact ⟨[], rfl⟩
  | cons op ops ih =>
    obtain ⟨ops', h⟩ := ih (e.step config op)
    exact ⟨e.streamOp op :: ops', h⟩

end Engine

/-! ## The numbering -/

theorem GlobalBus.get?_remember (id : String) (seq : ℕ) (mirrors : InsertionMap String ℕ)
    {k : String} {v : ℕ} (h : (remember id seq mirrors).get? k = some v) :
    v = seq ∨ mirrors.get? k = some v := by
  have hset : (mirrors.set id seq).get? k = some v → v = seq ∨ mirrors.get? k = some v := by
    rw [InsertionMap.get?_set]
    split_ifs
    · rintro ⟨⟩
      exact Or.inl rfl
    · exact Or.inr
  rw [remember] at h
  split_ifs at h
  · split at h
    · rw [InsertionMap.get?_erase] at h
      split_ifs at h
      exact hset h
    · exact hset h
  · exact hset h

/-- Two frames are in the order of their sequences, unless one is a sync copy. -/
def Numbered (f g : Frame) : Prop :=
  f.syncCopy = false → g.syncCopy = false → f.seq < g.seq

namespace Engine

variable {config : ReplayConfig}

/-- The buffer has seen every number the bus assigned, and numbers grow. -/
structure Counted (e : Engine) : Prop where
  current : e.stream.buffer.current = e.bus.seq
  mirrored : ∀ id seq, e.bus.mirrors.get? id = some seq → seq ≤ e.bus.seq
  seq_le : ∀ f ∈ e.stream.published, f.seq ≤ e.bus.seq
  numbered : e.stream.published.Pairwise Numbered

theorem counted_init : (init config).Counted :=
  ⟨rfl, fun id seq h ↦ by simp [init] at h, by simp [init, Stream.init], List.Pairwise.nil⟩

theorem sequence_cases (event : GlobalEvent) {bus : GlobalBus}
    (h : ∀ id seq, bus.mirrors.get? id = some seq → seq ≤ bus.seq) :
    (event.isSync = true ∧ (bus.sequence event).1 ≤ bus.seq ∧ (bus.sequence event).2 = bus)
      ∨ ((bus.sequence event).1 = bus.seq + 1 ∧ (bus.sequence event).2.seq = bus.seq + 1
        ∧ ∀ id seq, (bus.sequence event).2.mirrors.get? id = some seq → seq ≤ bus.seq + 1) := by
  have hle : ∀ id seq, bus.mirrors.get? id = some seq → seq ≤ bus.seq + 1 :=
    fun id seq hs ↦ Nat.le_succ_of_le (h id seq hs)
  rw [GlobalBus.sequence]
  split_ifs with hsync
  · rcases hsource : event.sourceId?.bind bus.mirrors.get? with _ | source
    · exact Or.inr ⟨rfl, rfl, hle⟩
    · obtain ⟨id, -, hid⟩ := Option.bind_eq_some_iff.mp hsource
      exact Or.inl ⟨hsync, h id source hid, rfl⟩
  · rcases event.textId? with _ | id
    · exact Or.inr ⟨rfl, rfl, hle⟩
    · refine Or.inr ⟨rfl, rfl, fun k v hv ↦ ?_⟩
      rcases GlobalBus.get?_remember id (bus.seq + 1) bus.mirrors hv with rfl | hv
      · exact le_refl _
      · exact hle k v hv

/-- What the tap does to the stream: the current sequence covers the event's, and at most one
frame is published, with the event's sequence. -/
theorem tap_spec (config : ReplayConfig) (event : GlobalEvent) (seq : ℕ) (data : Option String) (time now : ℤ)
    (s : Stream) :
    (s.step config (tap event seq data time now s.buffer)).buffer.current
        = max s.buffer.current seq
      ∧ ((s.step config (tap event seq data time now s.buffer)).published = s.published
        ∨ ∃ frame, (s.step config (tap event seq data time now s.buffer)).published
            = s.published ++ [frame] ∧ frame.seq = seq
            ∧ frame.syncCopy = (event.isSync && decide (seq ≤ s.buffer.current))) := by
  rcases data with _ | data
  · exact ⟨rfl, Or.inl rfl⟩
  · exact ⟨rfl, Or.inr ⟨_, rfl, rfl, rfl⟩⟩

theorem counted_emit {e : Engine} (h : e.Counted) (event : GlobalEvent) (fresh : String)
    (data : Option String) (time now : ℤ) :
    (e.step config (.emit event fresh data time now)).Counted := by
  set event' : GlobalEvent := ⟨event.payload.map (Payload.identified fresh)⟩
  set seq := (e.bus.sequence event').1 with hseq
  obtain ⟨hcurrent, hpublished⟩ := tap_spec config event' seq data time now e.stream
  rw [h.current] at hcurrent hpublished
  -- a frame that is not a sync copy carries a number above all those before it
  have hfresh : seq ≤ e.bus.seq ∧ event'.isSync = true ∨ e.bus.seq < seq := by
    rcases sequence_cases event' h.mirrored with ⟨hsync, hle, -⟩ | ⟨heq, -, -⟩
    · exact Or.inl ⟨hle, hsync⟩
    · exact Or.inr (by omega)
  have hbus : (e.bus.sequence event').2.seq = max e.bus.seq seq
      ∧ ∀ id n, (e.bus.sequence event').2.mirrors.get? id = some n → n ≤ max e.bus.seq seq := by
    rcases sequence_cases event' h.mirrored with ⟨-, hle, hsame⟩ | ⟨heq, hnext, hmirrors⟩
    · rw [hsame, max_eq_left hle]
      exact ⟨rfl, h.mirrored⟩
    · rw [← hseq] at heq
      rw [hnext, heq, max_eq_right (Nat.le_succ _)]
      exact ⟨rfl, hmirrors⟩
  have hold : ∀ f ∈ e.stream.published, f.seq ≤ max e.bus.seq seq :=
    fun f hf ↦ le_trans (h.seq_le f hf) (le_max_left _ _)
  refine ⟨hcurrent.trans hbus.1.symm, fun id n hn ↦ le_of_le_of_eq (hbus.2 id n hn) hbus.1.symm,
    ?_, ?_⟩
  · intro f hf
    refine le_of_le_of_eq ?_ hbus.1.symm
    rcases hpublished with hsame | ⟨frame, happend, hframe, -⟩
    · exact hold f (hsame ▸ hf)
    · rcases List.mem_append.mp (happend ▸ hf : f ∈ _ ++ [frame]) with hf | hf
      · exact hold f hf
      · obtain rfl := List.mem_singleton.mp hf
        exact le_of_eq_of_le hframe (le_max_right _ _)
  · rcases hpublished with hsame | ⟨frame, happend, hframe, hcopy⟩
    · exact hsame ▸ h.numbered
    · show (e.stream.step config (tap event' seq data time now _)).published.Pairwise Numbered
      rw [happend]
      refine List.pairwise_append.mpr ⟨h.numbered, List.pairwise_singleton _ _, ?_⟩
      intro f hf g hg _ hsource
      obtain rfl := List.mem_singleton.mp hg
      have hle := h.seq_le f hf
      rcases hfresh with ⟨hseen, hsync⟩ | hlt
      · exact absurd hsource (by simp [hcopy, hsync, hseen])
      · omega

theorem counted_step (e : Engine) (op : EngineOp) (h : e.Counted) :
    (e.step config op).Counted := by
  rcases op with ⟨event, fresh, data, time, now⟩ | ⟨cursor, sync, now⟩ | i | i
  · exact counted_emit h event fresh data time now
  · exact ⟨h.current, h.mirrored, h.seq_le, h.numbered⟩
  · exact ⟨h.current, h.mirrored, h.seq_le, h.numbered⟩
  · exact ⟨h.current, h.mirrored, h.seq_le, h.numbered⟩

theorem counted_run (ops : List EngineOp) :
    (StepMachine.run (step config) (init config) ops).Counted :=
  StepMachine.invariant_run (fun e op ↦ counted_step e op) counted_init ops

/-- Of two published frames that are no sync copies, the sequences and the push orders agree. -/
theorem Counted.seq_lt_iff {e : Engine} (h : e.Counted) (hs : e.stream.Sound config)
    {f g : Frame} (hf : f ∈ e.stream.published) (hg : g ∈ e.stream.published)
    (hfs : f.syncCopy = false) (hgs : g.syncCopy = false) :
    f.seq < g.seq ↔ f.ordinal < g.ordinal := by
  by_cases heq : f = g
  · rw [heq]
    exact iff_of_false (lt_irrefl _) (lt_irrefl _)
  · let R (f g : Frame) : Prop :=
      (Numbered f g ∧ f.ordinal < g.ordinal) ∨ (Numbered g f ∧ g.ordinal < f.ordinal)
    have hR : Std.Symm R := ⟨fun _ _ ↦ Or.symm⟩
    have hboth : e.stream.published.Pairwise R := (h.numbered.and hs.ordinals).imp Or.inl
    rcases hboth.forall hf hg heq with ⟨hseq, hord⟩ | ⟨hseq, hord⟩
    · exact iff_of_true (hseq hfs hgs) hord
    · exact iff_of_false (Nat.lt_asymm (hseq hgs hfs)) (Nat.lt_asymm hord)

/-- In every run of an engine, a subscriber without sync copies that resumes from the id of the
last frame it received is reset or gets exactly the frames after it. -/
theorem resumed_source (before after : List EngineOp) (last : Frame) (keep : Frame → Bool)
    (now : ℤ) :
    let e := StepMachine.run (step config) (init config) before
    let t := (StepMachine.run (step config)
      (e.step config (.subscribe last.id false now)) after).stream
    last ∈ e.stream.published → last.syncCopy = false →
      t.Subscribed e.stream.buffer.subscriptions.length →
        t.Resumed false keep last.ordinal e.stream.buffer.subscriptions.length := by
  intro e t hlast hsource hopen
  obtain ⟨ops₁, hops₁⟩ := stream_run config (init config) before
  obtain ⟨ops₂, hops₂⟩ := stream_run config
    (e.step config (.subscribe last.id false now)) after
  have hs : e.stream.Sound config := by
    rw [hops₁]
    exact Stream.sound_run ops₁
  obtain ⟨live, hfol⟩ := Stream.follows_run
    (Stream.follows_subscribe config e.stream last.id false now) ops₂
  have hsevicted := hs.evicted now
  refine (Stream.resumed_iff hsevicted (hops₂ ▸ hfol) hopen keep
    (hs.ordinal_le last hlast)).mpr fun _ ↦ ?_
  refine (Stream.aligned_id_iff hsevicted hlast _ _).mpr fun f hf htakes ↦ ?_
  have hfs : f.syncCopy = false := by
    have := (Bool.and_eq_true _ _ ▸ htakes).1
    simpa [wanted] using this
  exact (counted_run before).seq_lt_iff hs hlast hf hsource hfs

theorem resumed_source_reconnect :
    let e := StepMachine.run (step smallConfig) (init smallConfig) [.emit (eventOf "a") "x" (some "A") 0 0]
    let t := (StepMachine.run (step smallConfig) (e.step smallConfig (.subscribe "e:1" false 0))
      [.emit (eventOf "b") "y" (some "B") 0 0]).stream
    t.Resumed false (fun _ ↦ true) 1 0 :=
  resumed_source _ _ Stream.copiedSource (fun _ ↦ true) 0 (by decide +kernel) rfl (by decide +kernel)

/-- An event and its sync copy. A subscriber with sync copies that received the event, and lost
its connection before the copy, resumes from the event's id: it is served without a reset, and the
copy is skipped for good. -/
theorem not_resumed_syncCopy :
    let e := StepMachine.run (step smallConfig) (init smallConfig)
      [.emit (eventOf "a") "x" (some "A") 0 0, .emit (syncEventOf "a") "y" (some "S") 0 0]
    let t := (e.step smallConfig (.subscribe "e:1" true 0)).stream
    (∃ last ∈ e.stream.published, last.id = "e:1" ∧ ¬ t.Resumed true (fun _ ↦ true) last.ordinal 0)
      ∧ t.Subscribed 0 := by
  decide +kernel

end Engine

end Amicode.Replay
