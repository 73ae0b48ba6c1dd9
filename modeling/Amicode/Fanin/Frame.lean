import Amicode.Foundation.InsertionMap
import Amicode.Stream.EngineId

/-!
# The composite cursor

The client of the fan-in keeps one opaque cursor, `local=<id>;<machineId>=<id>`, which the origin
parses into one resume id per namespace (`sse_composite_cursor.ts`). A bare scalar is the position
of the local arm.
-/

namespace Amicode

/-- The reserved namespace of the always-present local event source. -/
def LOCAL_NAMESPACE : String := "local"

/-- One entry of a composite cursor; an entry without `=`, or with an empty key, is skipped. -/
def parseEntry (entry : List Char) : Option (String × String) :=
  match entry.dropWhile (· ≠ '=') with
  | '=' :: value =>
    let key := entry.takeWhile (· ≠ '=')
    if key = [] then none else some (String.ofList key, String.ofList value)
  | _ => none

/-- Parse an opaque client cursor into a per-namespace resume map. -/
def parseCompositeCursor (cursor : Option String) : InsertionMap String String :=
  match cursor with
  | none => ∅
  | some text =>
    let trimmed := JsText.trim text.toList
    if trimmed = [] then ∅
    else if '=' ∉ trimmed then (∅ : InsertionMap String String).set LOCAL_NAMESPACE
      (String.ofList trimmed)
    else (∅ : InsertionMap String String).setAll
      ((JsText.splitOn [';'] trimmed).filterMap parseEntry)

/-- Format a per-namespace resume map back into the opaque cursor, in insertion order. -/
def formatCompositeCursor (map : InsertionMap String String) : String :=
  String.intercalate ";"
    ((map.entries.filter fun e ↦ e.1 ≠ "").map fun e ↦ e.1 ++ "=" ++ e.2)

/-- The relay's reading of an upstream id: an engine position, or nothing for any other id. -/
def parseEngineId (id : Option String) : Option EngineId := id.bind EngineId.parse

example : formatCompositeCursor (parseCompositeCursor (some "local=e:5;studio=s:42"))
    = "local=e:5;studio=s:42" := by decide

end Amicode

/-!
# Frames of the fan-in stream

The text-level helpers of `sse_fanin_aggregator.ts`: what a raw frame carries (a data line, an id,
one of the engine's control events), how its `id:` line is rewritten, and the frames the relay
writes on its own account.
-/

namespace Amicode

/-! ## Reading a frame -/

/-- The end-of-line style a frame uses. -/
def eolOf (rawFrame : String) : List Char :=
  if JsText.includes rawFrame.toList ['\r', '\n'] then ['\r', '\n'] else ['\n']

/-- The frame's event id: its last `id:` line, or nothing for an id-less frame. -/
def frameRawId (rawFrame : String) : Option String :=
  let values := (JsText.splitLines rawFrame.toList).filterMap fun line ↦
    (JsText.stripPrefix? ['i', 'd', ':'] line).map fun v ↦ (JsText.stripPrefix? [' '] v).getD v
  match values.getLast? with
  | none => none
  | some [] => none
  | some id => some (String.ofList id)

/-- Does the frame carry a `data` field, that is, an event the client dispatches? -/
def isDataFrame (rawFrame : String) : Bool :=
  (JsText.splitLines rawFrame.toList).any fun line ↦
    line == "data".toList || "data:".toList.isPrefixOf line

inductive EngineControlType
  | connected
  | heartbeat
  | unservable
deriving DecidableEq

/-- The closing quote of the control event's type, after one of the three names. -/
def controlTypeAt (text : List Char) : Option EngineControlType :=
  if "server.connected\"".toList.isPrefixOf text then some .connected
  else if "server.heartbeat\"".toList.isPrefixOf text then some .heartbeat
  else if "server.cursor.unservable\"".toList.isPrefixOf text then some .unservable
  else none

/-- The expression `ENGINE_CONTROL`, anchored at the head of the text. -/
def controlAt (text : List Char) : Option EngineControlType := do
  let afterData ← JsText.stripPrefix? "data:".toList text
  let afterSpace := (JsText.stripPrefix? [' '] afterData).getD afterData
  let afterOpen ← JsText.stripPrefix? "\x7b\"payload\":\x7b\"id\":\"".toList afterSpace
  let afterId := afterOpen.dropWhile fun c ↦ c ≠ '"' ∧ c ≠ '\\'
  let afterKey ← JsText.stripPrefix? "\",\"type\":\"".toList afterId
  controlTypeAt afterKey

/-- The line terminators after which a multi-line `^` matches. -/
def isLineTerminator (c : Char) : Bool :=
  c == '\n' || c == '\r' || c.toNat == 0x2028 || c.toNat == 0x2029

def scanControl (atLineStart : Bool) : List Char → Option EngineControlType
  | [] => none
  | c :: rest =>
    (if atLineStart then controlAt (c :: rest) else none).or
      (scanControl (isLineTerminator c) rest)

/-- Control frames are tiny; a bigger frame is never scanned. -/
def ENGINE_CONTROL_MAX_BYTES : ℕ := 2048

def engineControlType (rawFrame : String) : Option EngineControlType :=
  if JsText.utf16Length rawFrame.toList > ENGINE_CONTROL_MAX_BYTES then none
  else scanControl true rawFrame.toList

/-! ## Rewriting the id line -/

/-- Rebuild a frame with its `id:` line set to `newId`, every other line verbatim. The new line
goes just before the trailing blank tokens. -/
def rewriteFrameId (rawFrame : String) (newId : Option String) : String :=
  let eol := eolOf rawFrame
  let kept := (JsText.splitOn eol rawFrame.toList).filter fun token ↦
    !"id:".toList.isPrefixOf token
  let blanks := kept.reverse.takeWhile fun token ↦ token == []
  let body := kept.take (kept.length - blanks.length)
  let out := match newId with
    | none => kept
    | some id => body ++ ("id: ".toList ++ id.toList) :: blanks
  String.ofList (eol.intercalate out)

/-! ## Frames the relay writes itself -/

/-- The id-less, payload-less gap frame the client resyncs on. -/
def gapFrame (namespaces : List String) : String :=
  let names := (namespaces.map fun ns ↦ String.ofList (JsText.jsonString ns.toList))
  "event: amicode.sync.gap\ndata: \x7b\"type\":\"amicode.sync.gap\",\"namespaces\":["
    ++ String.intercalate "," names ++ "]\x7d\n\n"

/-- An SSE comment naming an unavailable source. -/
def honestSourceComment (machineId reason : String) : String :=
  ": amicode.fleet source " ++ machineId ++ " unavailable (" ++ reason ++ ")\n\n"

end Amicode
