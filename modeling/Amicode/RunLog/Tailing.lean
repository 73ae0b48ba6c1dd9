import Amicode.Foundation.JsNumber
import Amicode.Foundation.Utf8

/-!
# The lines of a run log

A solver writes its iterations and its pulses into the run log, each as a line of its own
(`run_dir_reader.ts`). A line is known by a regular expression; between its fields is white space, which no field
but the labels of a pulse can have, so that the expression is read off word by word.

A pulse is to be interpreted by the meta line before it (`PulseStream`): the last meta governs, and a record of
another shape is dropped.
-/

namespace Amicode.RunLog

open JsText

/-! ## Numbers -/

/-- A number as `Number` reads it. A zero has no sign. -/
inductive Num where
  | finite (value : ℚ)
  | infinite (negative : Bool)
  | nan
  deriving DecidableEq

/-- `Number(text)` of a decimal numeral. -/
def number (text : List Char) : Num :=
  match JsNumber.ofText? text with
  | some value => .finite value
  | none => .infinite (text.head? = some '-')

/-- Parse an AMICODE_ITER numeric field, mapping Julia's Inf/NaN to JS values. -/
def parseAmicoNum (s : List Char) : Num :=
  if s = "Inf".toList then .infinite false
  else if s = "-Inf".toList then .infinite true
  else if s = "NaN".toList ∨ s = "-NaN".toList then .nan
  else number s

/-- `/^\d+$/`. -/
def isDigits (text : List Char) : Bool := text ≠ [] && text.all isDigit

/-- `\d+(?:\.\d+)?(?:[eE][-+]?\d+)?`. -/
def isDecimal (text : List Char) : Bool :=
  let rest := text.dropWhile isDigit
  text.takeWhile isDigit ≠ [] &&
    match rest with
    | '.' :: fraction =>
      fraction.takeWhile isDigit ≠ [] && (JsNumber.exponent? (fraction.dropWhile isDigit)).isSome
    | _ => (JsNumber.exponent? rest).isSome

def isNum (text : List Char) : Bool :=
  let body := if text.head? = some '-' then text.drop 1 else text
  body = "Inf".toList || body = "NaN".toList || isDecimal body

/-! ## Words -/

def words (text : List Char) : List (List Char) := (text.splitOnP isSpace).filter (· ≠ [])

def field (name : String) (form : List Char → Bool) (word : List Char) : Option (List Char) :=
  (stripPrefix? name.toList word).filter form

/-- A field `[A-Za-z_][\w-]*=\S+` at the end of a line. -/
def isTailField (word : List Char) : Bool :=
  let key := word.takeWhile (· ≠ '=')
  let isWord (c : Char) : Bool := ('A' ≤ c && c ≤ 'Z') || ('a' ≤ c && c ≤ 'z') || c == '_'
  key.head?.any isWord && key.all (fun c ↦ isWord c || isDigit c || c == '-') && 2 ≤ (word.drop key.length).length

/-! ## Iterations -/

structure IterRecord where
  iter : Num
  f_val : Num
  inf_pr : Num
  inf_du : Num
  deriving DecidableEq

/-- `AMICODE_ITER_RE`, and the record of its match. -/
def parseIterLine (line : List Char) : Option IterRecord :=
  match words line with
  | [tag, iter, f, inf_pr, inf_du] =>
    if line.head?.any isSpace ∨ tag ≠ "AMICODE_ITER".toList then none
    else do
      let iter ← field "iter=" isDigits iter
      let f ← field "f=" isNum f
      let inf_pr ← field "inf_pr=" isNum inf_pr
      let inf_du ← field "inf_du=" isNum inf_du
      return ⟨number iter, parseAmicoNum f, parseAmicoNum inf_pr, parseAmicoNum inf_du⟩
  | _ => none

/-! ## Pulses -/

/-- How knot values interpolate between knots. -/
inductive PulseInterp where
  | zoh | linear | cubic
  deriving DecidableEq

structure PulseMeta where
  drives : Num
  knots : Num
  labels : List (List Char)
  bounds : List (Num × Num)
  interp : PulseInterp
  deriving DecidableEq

structure PulseRecord where
  iter : Num
  dt : Num
  values : List (List Num)
  deriving DecidableEq

def skipSpace (text : List Char) : Option (List Char) :=
  if text.head?.any isSpace then some (text.dropWhile isSpace) else none

/-- White space and a word. -/
def nextWord (text : List Char) : Option (List Char × List Char) :=
  (skipSpace text).map fun rest ↦ (rest.takeWhile (! isSpace ·), rest.dropWhile (! isSpace ·))

/-- Quoted labels with commas between them, from inside the first, and what follows them. -/
def scanLabels (label : List Char) : List Char → Option (List (List Char) × List Char)
  | [] => none
  | '"' :: ',' :: '"' :: rest => (scanLabels [] rest).map fun r ↦ (label :: r.1, r.2)
  | '"' :: rest => some ([label], rest)
  | ',' :: _ => none
  | c :: rest => scanLabels (label ++ [c]) rest

/-- A pair `lo:hi`. -/
def parseBound (text : List Char) : Option (Num × Num) :=
  match text.splitOn ':' with
  | [lo, hi] => if isNum lo && isNum hi then some (parseAmicoNum lo, parseAmicoNum hi) else none
  | _ => none

/-- The value of the first field `interp=`. -/
def interpOf (tail : List (List Char)) : PulseInterp :=
  match tail.findSome? (field "interp=" (· ≠ [])) with
  | some value => if value = "linear".toList then .linear else if value = "cubic".toList then .cubic else .zoh
  | none => .zoh

def parsePulseMetaLine (line : List Char) : Option PulseMeta := do
  let rest ← stripPrefix? "AMICODE_PULSE_META".toList line
  let (drives, rest) ← nextWord rest
  let drives ← field "drives=" isDigits drives
  let (knots, rest) ← nextWord rest
  let knots ← field "knots=" isDigits knots
  let rest ← skipSpace rest
  let rest ← stripPrefix? "labels=\"".toList rest
  let (labels, rest) ← scanLabels [] rest
  let rest ← if rest.head?.any isSpace then some rest else none
  match words rest with
  | [] => none
  | bounds :: tail => do
    let bounds ← stripPrefix? "bounds=".toList bounds
    let bounds ← (bounds.splitOn ',').mapM parseBound
    if tail.all isTailField then return ⟨number drives, number knots, labels, bounds, interpOf tail⟩ else none

def parsePulseRecordLine (line : List Char) : Option PulseRecord :=
  match words line with
  | tag :: iter :: dt :: a :: tail =>
    if line.head?.any isSpace ∨ tag ≠ "AMICODE_PULSE".toList ∨ ¬ tail.all isTailField then none
    else do
      let iter ← field "iter=" isDigits iter
      let dt ← field "dt=" isNum dt
      let a ← field "a=" (fun a ↦ (a.splitOn ';').all fun drive ↦ (drive.splitOn ',').all isNum) a
      return ⟨number iter, parseAmicoNum dt, (a.splitOn ';').map fun drive ↦ (drive.splitOn ',').map parseAmicoNum⟩
  | _ => none

inductive PulseEvent where
  | newMeta (m : PulseMeta)
  | record (r : PulseRecord)
  deriving DecidableEq

/-- Cross-line policy for the pulse stream: the governing meta is its state. -/
abbrev PulseStream := Option PulseMeta

/-- A meta that agrees with itself. -/
def PulseMeta.Sound (m : PulseMeta) : Prop :=
  .finite m.labels.length = m.drives ∧ .finite m.bounds.length = m.drives

instance : DecidablePred PulseMeta.Sound := fun m ↦
  inferInstanceAs (Decidable (.finite m.labels.length = m.drives ∧ .finite m.bounds.length = m.drives))

def PulseMeta.Governs (m : PulseMeta) (r : PulseRecord) : Prop :=
  .finite r.values.length = m.drives ∧ ∀ drive ∈ r.values, .finite drive.length = m.knots

instance (m : PulseMeta) : DecidablePred m.Governs := fun r ↦
  inferInstanceAs (Decidable (.finite r.values.length = m.drives ∧ ∀ drive ∈ r.values, .finite drive.length = m.knots))

def PulseStream.onLine (stream : PulseStream) (line : List Char) : PulseStream × Option PulseEvent :=
  match parsePulseMetaLine line with
  | some m => if m.Sound then (some m, some (.newMeta m)) else (stream, none)
  | none =>
    match parsePulseRecordLine line, stream with
    | some r, some m => if m.Governs r then (stream, some (.record r)) else (stream, none)
    | _, _ => (stream, none)

def PulseStream.onLines : PulseStream → List (List Char) → PulseStream × List PulseEvent
  | stream, [] => (stream, [])
  | stream, line :: lines =>
    let next := stream.onLine line
    let rest := PulseStream.onLines next.1 lines
    (rest.1, next.2.toList ++ rest.2)

end Amicode.RunLog

/-!
# Replay and tail

A run that is discovered is replayed from its run log (`ingestRunDir`), and its log is then tailed from the
number of bytes that the replay has read (`LogTailer`). Both hand records on to the pipeline of the run. The
replay hands on every iteration, but of the pulses the governing meta and the newest record only.

A read of the log sees the bytes that are there. `delivered` is all that the pipeline was handed.
-/

namespace Amicode.RunLog

open JsText

/-- What is handed on to the views of a run. -/
inductive Delivery where
  | iter (record : IterRecord)
  | pulse (event : PulseEvent)
  deriving DecidableEq

/-! ## The replay -/

/-- What the replay reads: whether there is a valid manifest, and the log. -/
structure RunDir where
  manifest : Bool
  log : Option (List UInt8)

/-- The loop of the replay over the lines: its own pulse stream, the governing meta and the newest record. -/
structure Replay where
  pulses : PulseStream
  iters : List IterRecord
  pulseMeta : Option PulseMeta
  newestPulse : Option PulseRecord

def Replay.line (r : Replay) (line : List Char) : Replay :=
  match parseIterLine line with
  | some record => { r with iters := r.iters ++ [record] }
  | none =>
    let next := r.pulses.onLine line
    match next.2 with
    -- new meta governs; stale records don't cross it
    | some (.newMeta m) => { r with pulses := next.1, pulseMeta := some m, newestPulse := none }
    | some (.record record) => { r with pulses := next.1, newestPulse := some record }
    | none => { r with pulses := next.1 }

/-- The deliveries of a replay, and the number of run.log bytes consumed. -/
def ingestRunDir (dir : RunDir) : List Delivery × ℕ :=
  if ¬ dir.manifest then ([], 0)
  else match dir.log with
    | none => ([], 0)
    | some bytes =>
      let logBody := decodeUtf8 bytes
      let replay := (logBody.splitOn '\n').foldl Replay.line ⟨none, [], none, none⟩
      (replay.iters.map .iter ++ (replay.pulseMeta.map fun m ↦ .pulse (.newMeta m)).toList
        ++ (replay.newestPulse.map fun record ↦ .pulse (.record record)).toList, (encodeUtf8 logBody).length)

/-! ## The tail -/

structure LogTailer where
  offset : ℕ
  buf : List Char

/-- The complete lines of a buffer, and what is left. -/
def takeLines (buf : List Char) : List (List Char) × List Char :=
  ((buf.splitOn '\n').dropLast, (buf.splitOn '\n').getLastD [])

/-- Read what was appended to the file. -/
def LogTailer.drain (t : LogTailer) (file : List UInt8) : LogTailer × List (List Char) :=
  let t : LogTailer := if file.length < t.offset then ⟨0, []⟩ else t
  if file.length = t.offset then (t, [])
  else
    let taken := takeLines (t.buf ++ decodeUtf8 (file.drop t.offset))
    (⟨file.length, taken.2⟩, taken.1)

/-! ## The pipeline of a run -/

structure RunPipeline where
  pulses : PulseStream
  tailer : LogTailer
  delivered : List Delivery

/-- `pipelineSink`: a meta arms the pipeline's own pulse stream. -/
def RunPipeline.sink (p : RunPipeline) (delivery : Delivery) : RunPipeline :=
  match delivery with
  | .pulse (.newMeta m) => { p with pulses := some m, delivered := p.delivered ++ [delivery] }
  | _ => { p with delivered := p.delivered ++ [delivery] }

/-- Replay the log and put a tailer behind what was read. -/
def registerRun (dir : RunDir) : RunPipeline :=
  let ingested := ingestRunDir dir
  ingested.1.foldl RunPipeline.sink ⟨none, ⟨ingested.2, []⟩, []⟩

def RunPipeline.onLine (p : RunPipeline) (line : List Char) : RunPipeline :=
  match parseIterLine line with
  | some record => { p with delivered := p.delivered ++ [.iter record] }
  | none =>
    let next := p.pulses.onLine line
    { p with pulses := next.1, delivered := p.delivered ++ (next.2.map .pulse).toList }

/-- The tailer reads the log. -/
def RunPipeline.drain (p : RunPipeline) (file : List UInt8) : RunPipeline :=
  let drained := p.tailer.drain file
  drained.2.foldl RunPipeline.onLine { p with tailer := drained.1 }

/-- A run from its discovery on, with what each drain of its log sees. -/
def watchRun (dir : RunDir) (drains : List (List UInt8)) : RunPipeline :=
  drains.foldl RunPipeline.drain (registerRun dir)

def Delivery.iter? : Delivery → Option IterRecord
  | .iter record => some record
  | .pulse _ => none

def Delivery.record? : Delivery → Option PulseRecord
  | .pulse (.record record) => some record
  | _ => none

def RunPipeline.iters (p : RunPipeline) : List IterRecord := p.delivered.filterMap (·.iter?)

def RunPipeline.records (p : RunPipeline) : List PulseRecord := p.delivered.filterMap (·.record?)

end Amicode.RunLog
