import Amicode.Foundation.JsObject
import Amicode.Stream.EngineId

/-!
# The queue of a member

The fan-out puts every frame of an engine stream into the queue of each member, from where the member's writer takes
it. A delta frame is merged into the last queued frame if that is a delta frame of the same part (`MemberQueue` of the
front door). The merged frame has the id of the first of them.

A frame is what its lines say: the values of its id lines and the JSON of its data line. The engine writes that JSON as
`JSON.stringify` does, a merged frame has it as `json.dumps` does.
-/

namespace Amicode.Coalescing

open JsObject

/-! ## Frames -/

structure Frame where
  /-- The values of its id lines. -/
  ids : List String
  /-- None if it has no data line, or one that is not JSON. -/
  data : Option JsonValue

/-- `(messageID, partID, field)`, each as its JSON text. -/
abbrev PartKey := List Char × List Char × List Char

/-- What an event is about: its properties, or the event itself. -/
def payload (event : List (String × JsonValue)) : List (String × JsonValue) :=
  match own? event "properties" with
  | some (.obj properties) => properties
  | _ => event

def keyText (value : Option JsonValue) : List Char := JsText.stringify (value.getD .null)

def partKey : JsonValue → Option PartKey
  | .obj event =>
    let d := payload event
    if ((own? d "messageID").getD .null).isNull || ((own? d "partID").getD .null).isNull then none
    else some (keyText (own? d "messageID"), keyText (own? d "partID"), keyText (own? d "field"))
  | _ => none

def deltaPartKey (frame : Frame) : Option PartKey :=
  match frame.data with
  | some event =>
    if JsText.includes (JsText.stringify event) "\"message.part.delta\"".toList then partKey event else none
  | none => none

/-- The delta text of an event. -/
def delta? : JsonValue → Option String
  | .obj event => (own? (payload event) "delta").bind JsonValue.str?
  | _ => none

/-! ## `json.dumps` -/

def dumpsUnit (n : ℕ) : List Char := '\\' :: 'u' :: JsText.padStart 4 '0' (Nat.toDigits 16 n)

def dumpsChar (c : Char) : List Char :=
  if c = '"' then ['\\', '"']
  else if c = '\\' then ['\\', '\\']
  else if c = '\n' then ['\\', 'n']
  else if c = '\r' then ['\\', 'r']
  else if c = '\t' then ['\\', 't']
  else if c = '\x08' then ['\\', 'b']
  else if c = '\x0c' then ['\\', 'f']
  else if ' ' ≤ c ∧ c ≤ '~' then [c]
  else (JsText.units c).flatMap dumpsUnit

def dumpsString (s : String) : List Char := '"' :: (s.toList.flatMap dumpsChar ++ ['"'])

mutual

def dumps : JsonValue → List Char
  | .null => "null".toList
  | .bool b => (if b then "true" else "false").toList
  | .num text => text.toList
  | .str s => dumpsString s
  | .arr items => '[' :: (JsText.join ", ".toList (dumpsItems items) ++ [']'])
  | .obj members => '{' :: (JsText.join ", ".toList (dumpsMembers members) ++ ['}'])

def dumpsItems : List JsonValue → List (List Char)
  | [] => []
  | item :: items => dumps item :: dumpsItems items

def dumpsMembers : List (String × JsonValue) → List (List Char)
  | [] => []
  | (key, value) :: members => (dumpsString key ++ ": ".toList ++ dumps value) :: dumpsMembers members

end

/-! ## Merging -/

def deltaMergeMaxBytes : ℕ := 262144

/-- The event of `prev` with the delta text of both. -/
def mergeEvents (prev next : JsonValue) : Option JsonValue :=
  match prev, delta? prev, delta? next with
  | .obj event, some before, some behind =>
    let text := JsonValue.str (before ++ behind)
    match own? event "properties" with
    | some (.obj properties) => some (.obj (assign event "properties" (.obj (assign properties "delta" text))))
    | _ => some (.obj (assign event "delta" text))
  | _, _, _ => none

def mergeDeltaFrames (prev next : Frame) : Option Frame :=
  match prev.data, next.data with
  | some before, some behind =>
    match mergeEvents before behind with
    | some merged =>
      if deltaMergeMaxBytes < (dumps merged).length then none else some ⟨prev.ids, some merged⟩
    | none => none
  | _, _ => none

/-! ## The queue -/

structure MemberQueue where
  /-- `none` tells the writer to end. -/
  items : List (Option Frame)
  tailKey : Option PartKey

namespace MemberQueue

def put (q : MemberQueue) (item : Option Frame) : MemberQueue := ⟨q.items ++ [item], none⟩

def putCoalescing (q : MemberQueue) (frame : Frame) (key : PartKey) : MemberQueue :=
  match q.items.getLast? with
  | some (some tail) =>
    match if q.tailKey = some key then mergeDeltaFrames tail frame else none with
    | some merged => { q with items := q.items.dropLast ++ [some merged] }
    | none => ⟨q.items ++ [some frame], some key⟩
  | _ => ⟨q.items ++ [some frame], some key⟩

end MemberQueue

/-! ## Runs -/

/-- An engine, and the number of its last frame before the run. -/
structure Engine where
  epoch : String
  epoch_ok : IsEpoch epoch
  start : ℕ

structure State where
  queue : MemberQueue
  /-- The frames of the engine that have been put. -/
  sent : List Frame
  taken : List Frame

def State.empty : State := ⟨⟨[], none⟩, [], []⟩

inductive Op
  | fan (event : JsonValue)
  /-- The next event of the engine is put without coalescing. -/
  | put (event : JsonValue)
  | close
  | get

def State.nextFrame (s : State) (engine : Engine) (event : JsonValue) : Frame :=
  ⟨[formatID engine.epoch (engine.start + s.sent.length + 1)], some event⟩

def State.step (engine : Engine) (s : State) : Op → State
  | .fan event =>
    let frame := s.nextFrame engine event
    { s with
      queue :=
        match deltaPartKey frame with
        | some key => s.queue.putCoalescing frame key
        | none => s.queue.put (some frame)
      sent := s.sent ++ [frame] }
  | .put event =>
    let frame := s.nextFrame engine event
    { s with queue := s.queue.put (some frame), sent := s.sent ++ [frame] }
  | .close => { s with queue := s.queue.put none }
  | .get =>
    match s.queue.items with
    | [] => s
    | item :: rest => { s with queue := ⟨rest, none⟩, taken := s.taken ++ item.toList }

end Amicode.Coalescing
