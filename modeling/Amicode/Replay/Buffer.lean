import Amicode.Foundation.StepMachine
import Amicode.Stream.EngineId

/-!
# The replay buffer of the global event stream

The engine serializes every event of its global bus once, into a frame stamped `<epoch>:<seq>`, and
keeps the recent frames in one buffer shared by all subscribers (`bus/global-replay.ts`). The buffer
is bounded by bytes and by age; a connection that resumes from a cursor it can still serve gets the
frames after the cursor and then live frames, any other cursor gets an explicit reset.

A sync copy shares the sequence number of the event it mirrors, so a sequence number does not
identify a frame; the push order `ordinal` does.

The clock is read by `push` (once for the frame's time, once by the eviction after it) and by
`subscribe`, and each reading is part of the operation. What the source keeps in the closure of a
subscription is the record `Subscription`; `sent` is what its `deliver` callback was called with.
`Stream` puts the list of all frames ever pushed beside the buffer.
-/

namespace Amicode.Replay

/-! ## Events and frames -/

/-- The value of an `id` property, as far as the engine looks at it: no property (or a nullish
value, where the source tests for that), a string, or anything else. -/
inductive PayloadId where
  | absent
  | text (id : String)
  | other
deriving DecidableEq

/-- The payload of an event, when it is an object. -/
structure Payload where
  id : PayloadId
  /-- `payload.type`, when it is a string. -/
  type : Option String
  /-- `payload.syncEvent?.id`. -/
  syncEventId : PayloadId
deriving DecidableEq

structure GlobalEvent where
  /-- `none`: the payload is not an object. -/
  payload : Option Payload
deriving DecidableEq

/-- `event.payload?.id`, when it is a string. -/
def GlobalEvent.textId? (event : GlobalEvent) : Option String :=
  match event.payload with
  | some ⟨.text id, _, _⟩ => some id
  | _ => none

structure Frame where
  /-- The SSE id `<epoch>:<seq>`. -/
  id : String
  seq : ℕ
  /-- The serialized event. -/
  data : String
  event : GlobalEvent
  /-- UTF-8 size of `data`, charged against the byte bound. -/
  bytes : ℕ
  /-- Push time in milliseconds, checked against the age bound. -/
  time : ℤ
  /-- Push order, unique per frame. -/
  ordinal : ℕ
  /-- Does the frame mirror an event that already has a frame of the same sequence? -/
  syncCopy : Bool
deriving DecidableEq

/-- What a replay buffer is constructed with. -/
structure ReplayConfig where
  /-- The process token. -/
  epoch : String
  epoch_ok : IsEpoch epoch
  /-- Retained frame bytes; the oldest frames are evicted past it. -/
  maxBytes : ℕ
  /-- Retained frame age in milliseconds; older frames are evicted. -/
  maxAgeMs : ℕ
  /-- The sequence the buffer starts at: events before it were never recorded. -/
  start : ℕ

/-- Why a cursor cannot be served. -/
inductive ResetReason where
  | epoch
  | ahead
  | evicted
deriving DecidableEq

/-! ## Subscriptions -/

/-- What a subscription is given when it is opened. -/
structure Opening where
  /-- Did it ask for sync copies? -/
  sync : Bool
  /-- The sequence its first frame follows. -/
  position : ℕ
  reset : Option ResetReason
  /-- Frames after the cursor, delivered before any live frame. -/
  replay : List Frame
  /-- The push order at that moment. -/
  watermark : ℕ
deriving DecidableEq

/-- A subscription, with what its closure holds. -/
structure Subscription extends Opening where
  /-- Live frames that arrived before `start`. -/
  pending : List Frame := []
  started : Bool := false
  /-- Is its listener registered? -/
  registered : Bool := true
  /-- The frames handed to `deliver`, oldest first. -/
  sent : List Frame := []
deriving DecidableEq

/-- Does a subscription that asked for sync copies, or did not, take the frame? -/
def wanted (sync : Bool) (frame : Frame) : Bool := sync || !frame.syncCopy

namespace Subscription

def listen (frame : Frame) (sub : Subscription) : Subscription :=
  if !(sub.registered && wanted sub.sync frame) then sub
  else if sub.started then { sub with sent := sub.sent ++ [frame] }
  else { sub with pending := sub.pending ++ [frame] }

/-- What `start` hands over before live delivery begins. -/
def queued (sub : Subscription) : List Frame :=
  sub.pending.filter fun frame ↦ sub.watermark < frame.ordinal

def start (sub : Subscription) : Subscription :=
  { sub with sent := sub.sent ++ sub.queued, pending := [], started := true }

def close (sub : Subscription) : Subscription :=
  { sub with registered := false, pending := [] }

/-- The frames the subscriber gets: its replay, the live frames delivered so far, and those it is
handed when it starts. -/
def received (sub : Subscription) : List Frame := sub.replay ++ sub.sent ++ sub.queued

end Subscription

/-! ## The buffer -/

/-- The state of the buffer. `frames` are the retained ones, oldest first. -/
structure ReplayBuffer where
  frames : List Frame := []
  bytes : ℕ := 0
  ordinal : ℕ := 0
  current : ℕ
  /-- The highest sequence whose frames are no longer all retained. -/
  floor : ℕ
  subscriptions : List Subscription := []
deriving DecidableEq

/-- The loop of the eviction: drop the oldest frame until retained bytes and the oldest frame's age
are both within bounds. -/
def evictFrom (maxBytes : ℕ) (oldest : ℤ) : ℕ → ℕ → List Frame → ℕ × ℕ × List Frame
  | bytes, floor, [] => (bytes, floor, [])
  | bytes, floor, frame :: rest =>
    if bytes ≤ maxBytes ∧ oldest ≤ frame.time then (bytes, floor, frame :: rest)
    else evictFrom maxBytes oldest (bytes - frame.bytes) (max floor frame.seq) rest

/-- Is the frame's payload id a string at or behind the cursor? -/
def Frame.atOrBehind (cursor : String) (frame : Frame) : Bool :=
  match frame.event.textId? with
  | some id => JsText.le id.toList cursor.toList
  | none => false

/-- The newest of the frames at or behind a payload-id cursor. -/
def newestAtOrBehind (cursor : String) (frames : List Frame) : Option Frame :=
  (frames.filter (Frame.atOrBehind cursor)).getLast?

namespace ReplayBuffer

variable (config : ReplayConfig)

def init : ReplayBuffer := { current := config.start, floor := config.start }

def evict (now : ℤ) (b : ReplayBuffer) : ReplayBuffer :=
  let (bytes, floor, frames) :=
    evictFrom config.maxBytes (now - config.maxAgeMs) b.bytes b.floor b.frames
  { b with bytes := bytes, floor := floor, frames := frames }

/-- `push`, before the eviction: the frame is stamped, retained and given to the listeners. -/
def append (time : ℤ) (seq : ℕ) (event : GlobalEvent) (data : String) (syncCopy : Bool)
    (b : ReplayBuffer) : Frame × ReplayBuffer :=
  let frame : Frame :=
    { id := formatID config.epoch seq, seq := seq, data := data, event := event
      bytes := data.utf8ByteSize, time := time, ordinal := b.ordinal + 1, syncCopy := syncCopy }
  (frame,
    { b with
      ordinal := b.ordinal + 1
      current := max b.current seq
      frames := b.frames ++ [frame]
      bytes := b.bytes + frame.bytes
      subscriptions := b.subscriptions.map (Subscription.listen frame) })

def push (time now : ℤ) (seq : ℕ) (event : GlobalEvent) (data : String) (syncCopy : Bool)
    (b : ReplayBuffer) : Frame × ReplayBuffer :=
  let (frame, b) := b.append config time seq event data syncCopy
  (frame, b.evict config now)

/-- `skip`: advance past a sequence that produced no frame. -/
def skip (seq : ℕ) (b : ReplayBuffer) : ReplayBuffer := { b with current := max b.current seq }

/-- `#resolve`: the position a cursor denotes, and why it cannot be served. -/
def resolve (cursor : Option String) (b : ReplayBuffer) : ℕ × Option ResetReason :=
  match cursor with
  | none => (b.current, none)
  | some cursor =>
    match EngineId.parse cursor with
    | some parsed =>
      if parsed.epoch ≠ config.epoch then (b.current, some .epoch)
      else if b.current < parsed.seq then (b.current, some .ahead)
      else if parsed.seq < b.floor then (b.current, some .evicted)
      else (parsed.seq, none)
    | none =>
      -- a payload id: the newest retained frame at or behind it stands for it
      match newestAtOrBehind cursor b.frames with
      | some frame => (frame.seq, none)
      | none => (b.current, some .evicted)

def replayAfter (sync : Bool) (resolved : ℕ × Option ResetReason) (b : ReplayBuffer) :
    List Frame :=
  if resolved.2.isSome then []
  else b.frames.filter fun frame ↦ resolved.1 < frame.seq && wanted sync frame

/-- What a buffer answers to a subscriber. -/
def opening (cursor : Option String) (sync : Bool) (b : ReplayBuffer) : Opening :=
  let resolved := b.resolve config cursor
  { sync := sync, position := resolved.1, reset := resolved.2
    replay := b.replayAfter sync resolved, watermark := b.ordinal }

/-- `subscribe`: the listener is registered before the buffer is read, so it misses nothing. -/
def subscribe (cursor : Option String) (sync : Bool) (now : ℤ) (b : ReplayBuffer) :
    ReplayBuffer :=
  let b := b.evict config now
  { b with subscriptions := b.subscriptions ++ [{ b.opening config cursor sync with }] }

/-- Let a closure of one subscription run. -/
def onSubscription (i : ℕ) (act : Subscription → Subscription) (b : ReplayBuffer) :
    ReplayBuffer :=
  { b with subscriptions := b.subscriptions.modify i act }

end ReplayBuffer

/-! ## Runs -/

/-- What happens to a buffer. -/
inductive ReplayOp where
  | push (time now : ℤ) (seq : ℕ) (event : GlobalEvent) (data : String) (syncCopy : Bool)
  | skip (seq : ℕ)
  | subscribe (cursor : Option String) (sync : Bool) (now : ℤ)
  | start (i : ℕ)
  | close (i : ℕ)

/-- The buffer together with every frame ever pushed, oldest first. -/
structure Stream where
  buffer : ReplayBuffer
  published : List Frame := []
deriving DecidableEq

namespace Stream

variable (config : ReplayConfig)

/-- A stream nothing was published on. -/
def init : Stream := { buffer := ReplayBuffer.init config }

/-- One operation. -/
def step (s : Stream) : ReplayOp → Stream
  | .push time now seq event data syncCopy =>
    let (frame, buffer) := s.buffer.push config time now seq event data syncCopy
    { buffer := buffer, published := s.published ++ [frame] }
  | .skip seq => { s with buffer := s.buffer.skip seq }
  | .subscribe cursor sync now => { s with buffer := s.buffer.subscribe config cursor sync now }
  | .start i => { s with buffer := s.buffer.onSubscription i Subscription.start }
  | .close i => { s with buffer := s.buffer.onSubscription i Subscription.close }

end Stream

end Amicode.Replay
