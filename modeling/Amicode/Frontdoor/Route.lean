import Amicode.Foundation.InsertionMap
import Amicode.Foundation.JsNumber
import Amicode.Foundation.Pattern

/-!
# The placement of a session

Where a request that names no placed session goes (`place_session`): to the shard of the pool with the least load, or
to the one that the placement provider advises (`place_with_jev`). The provider's answer, the probes of the shards and
the random choice of the local allocator are parameters. Whatever they are, the choice is in the pool
(`placeSession_mem`).
-/

namespace Amicode.Frontdoor

/-! ## Data -/

/-- The routing table. With one backend there is nothing to route, and no table is in use. -/
structure Table where
  backends : List ℤ
  defaultShard : ℤ
  pools : InsertionMap (List Char) (List ℤ)
  sharded : 1 < backends.length

/-- The pool of a directory; a missing one and an empty one are treated alike. -/
def Table.pool (table : Table) : Option (List Char) → List ℤ
  | some directory => if directory = [] then [] else (table.pools.get? directory).getD []
  | none => []

/-- What is going on at a shard. -/
structure Loads where
  dials : ℤ → ℕ
  groups : ℤ → ℕ

/-- All that `place_with_jev` reads. -/
structure Jev where
  enabled : Bool
  disabled : Bool
  hasKey : Bool
  localMode : Bool
  /-- The state is too large to be sent. -/
  overflow : Bool
  /-- The distribution of the answer, each key as `int` reads it; none if there is an outage. -/
  answer : Option (List (Option ℤ × ℚ))
  minConfidence : ℚ
  alive : ℤ → Bool
  /-- Where the random choice ends. -/
  pick : ℕ

/-! ## Placement -/

/-- `min(pool, key=lambda i: (loads[i], i))` -/
def leastLoaded (load : ℤ → ℕ) : List ℤ → Option ℤ
  | [] => none
  | first :: rest =>
    some (rest.foldl (fun best i ↦ if load i < load best ∨ (load i = load best ∧ i < best) then i else best) first)

/-- `_local_weighted_choice`, among the shards that answer, if there are any. -/
def localWeightedChoice (jev : Jev) (pool : List ℤ) : Option ℤ :=
  let alive := pool.filter jev.alive
  let candidates := if alive.isEmpty then pool else alive
  (candidates[jev.pick]?).or candidates.getLast?

/-- The key with the highest probability, the first of several. -/
def likeliest : List (Option ℤ × ℚ) → Option (Option ℤ × ℚ)
  | [] => none
  | first :: rest => some (rest.foldl (fun best entry ↦ if best.2 < entry.2 then entry else best) first)

/-- The advised shard; none if the key is not a number, which raises. -/
def placeWithJev (jev : Jev) (pool : List ℤ) (floor : ℤ) : Option ℤ :=
  let placeLocal := if jev.localMode then some ((localWeightedChoice jev pool).getD floor) else some floor
  if !jev.enabled || jev.disabled || !jev.hasKey then placeLocal
  else if jev.overflow then some floor
  else
    match jev.answer with
    | none => placeLocal
    | some distribution =>
      match likeliest distribution with
      | none => some floor
      | some (choice, confidence) =>
        if confidence < jev.minConfidence then some floor
        else choice.map fun shard ↦ if shard ∈ pool then shard else floor

/-- `place_session`; a request without a session does not ask the provider. -/
def placeSession (table : Table) (counts : ℤ → ℕ) (loads : Loads) (jev : Option Jev)
    (directory : Option (List Char)) : ℤ :=
  let pool := if (table.pool directory).isEmpty then [table.defaultShard] else table.pool directory
  let floor := (leastLoaded (fun i ↦ loads.dials i + loads.groups i + counts i) pool).getD table.defaultShard
  match jev with
  | none => floor
  | some jev => (placeWithJev jev pool floor).getD floor

/-! ## The choice is in the pool -/

theorem leastLoaded_mem {load : ℤ → ℕ} {pool : List ℤ} {shard : ℤ} (h : leastLoaded load pool = some shard) :
    shard ∈ pool := by
  rcases pool with _ | ⟨first, rest⟩
  · cases h
  · obtain rfl := Option.some.inj h
    refine List.foldlRecOn (motive := (· ∈ first :: rest)) rest _ List.mem_cons_self fun best hbest i hi ↦ ?_
    split_ifs
    · exact List.mem_cons_of_mem _ hi
    · exact hbest

theorem localWeightedChoice_mem {jev : Jev} {pool : List ℤ} {shard : ℤ}
    (h : localWeightedChoice jev pool = some shard) : shard ∈ pool := by
  have hcandidates : ∀ i ∈ (if (pool.filter jev.alive).isEmpty then pool else pool.filter jev.alive), i ∈ pool := by
    intro i hi
    split_ifs at hi
    · exact hi
    · exact List.mem_of_mem_filter hi
  rcases Option.or_eq_some_iff.mp h with h | ⟨-, h⟩
  · exact hcandidates shard (List.mem_of_getElem? h)
  · exact hcandidates shard (List.mem_of_getLast? h)

theorem placeWithJev_mem {jev : Jev} {pool : List ℤ} {floor shard : ℤ} (hfloor : floor ∈ pool)
    (h : placeWithJev jev pool floor = some shard) : shard ∈ pool := by
  have hlocal : ∀ i,
      (if jev.localMode then some ((localWeightedChoice jev pool).getD floor) else some floor) = some i →
        i ∈ pool := by
    intro i hi
    split_ifs at hi
    · obtain rfl := Option.some.inj hi
      rcases hchoice : localWeightedChoice jev pool with _ | choice
      · exact hfloor
      · exact localWeightedChoice_mem hchoice
    · exact Option.some.inj hi ▸ hfloor
  unfold placeWithJev at h
  dsimp only at h
  split at h
  · exact hlocal shard h
  · split at h
    · exact Option.some.inj h ▸ hfloor
    · split at h
      · exact hlocal shard h
      · split at h
        · exact Option.some.inj h ▸ hfloor
        · split at h
          · exact Option.some.inj h ▸ hfloor
          · obtain ⟨choice, -, rfl⟩ := Option.map_eq_some_iff.mp h
            split_ifs with hmem
            · exact hmem
            · exact hfloor

theorem placeSession_mem (table : Table) (counts : ℤ → ℕ) (loads : Loads) (jev : Option Jev)
    {directory : Option (List Char)} (hpool : table.pool directory ≠ []) :
    placeSession table counts loads jev directory ∈ table.pool directory := by
  unfold placeSession
  dsimp only
  rw [if_neg (by rwa [List.isEmpty_iff])]
  have hfloor : (leastLoaded (fun i ↦ loads.dials i + loads.groups i + counts i) (table.pool directory)).getD
      table.defaultShard ∈ table.pool directory := by
    obtain ⟨first, rest, heq⟩ := List.exists_cons_of_ne_nil hpool
    rw [heq]
    exact leastLoaded_mem rfl
  generalize (leastLoaded (fun i ↦ loads.dials i + loads.groups i + counts i) (table.pool directory)).getD
    table.defaultShard = floor at hfloor ⊢
  rcases jev with _ | jev
  · exact hfloor
  · dsimp only
    rcases hchoice : placeWithJev jev (table.pool directory) floor with _ | choice
    · exact hfloor
    · exact placeWithJev_mem hfloor hchoice

end Amicode.Frontdoor

/-!
# The routing of requests

A request that names a session goes to the shard that the session is pinned to. If it is pinned to none, the request
is placed and the session pinned (`_route`): the lookup, the placement and the pin are steps of their own, so that
those of several requests interleave. The session that a `POST /session` creates is pinned when its id is found in
what has been read of the response (`passthrough_capture`).
-/

namespace Amicode.Frontdoor

/-! ## Request targets -/

def isAscii (c : Char) : Bool := c.toNat < 128

/-- The byte that an escape stands for. -/
def escape? : List Char → Option UInt8
  | '%' :: a :: b :: _ =>
    match JsNumber.digit? 16 a, JsNumber.digit? 16 b with
    | some high, some low => some (UInt8.ofNat (16 * high + low))
    | _, _ => none
  | _ => none

/-- `urllib.parse.unquote_to_bytes`; the counter is what is left of an escape already read. -/
def unquoteToBytes : ℕ → List Char → List UInt8
  | _, [] => []
  | n + 1, _ :: rest => unquoteToBytes n rest
  | 0, c :: rest =>
    match escape? (c :: rest) with
    | some byte => byte :: unquoteToBytes 2 rest
    | none => UInt8.ofNat c.toNat :: unquoteToBytes 0 rest

/-- `urllib.parse.unquote`: each ASCII run is decoded by itself. -/
def unquote (text : List Char) : List Char :=
  (text.splitBy fun a b ↦ isAscii a == isAscii b).flatMap fun piece ↦
    if piece.all isAscii then JsText.decodeUtf8 (unquoteToBytes 0 piece) else piece

def directoryOf (raw : List Char) : Option (List Char) :=
  match raw.dropWhile (· ≠ '?') with
  | [] => none
  | _ :: query =>
    (JsText.splitOn ['&'] query).findSome? fun kv ↦ (JsText.stripPrefix? "directory=".toList kv).map unquote

example :
    directoryOf "/session/ses_1/message?limit=5&directory=%2Fhome%2Fp%C3%A9".toList = some "/home/pé".toList := by
  decide +kernel

/-- A character of `[A-Za-z0-9]`. -/
def isWord (c : Char) : Bool := ('A' ≤ c && c ≤ 'Z') || ('a' ≤ c && c ≤ 'z') || ('0' ≤ c && c ≤ '9')

/-- The match at the front of a prefix followed by a word. -/
def idAt (mark text : List Char) : Option (List Char) :=
  (Pattern.run [.lit mark, .many isWord true true] text).map fun m ↦ mark ++ m.1.flatten

def search (matchAt : List Char → Option (List Char)) : List Char → Option (List Char)
  | [] => matchAt []
  | c :: rest => (matchAt (c :: rest)).or (search matchAt rest)

/-- `_SES_RE.search` -/
def sesSearch (text : List Char) : Option (List Char) := search (idAt "ses_".toList) text

/-- `_SES_RE_B.search` -/
def sesSearchBytes (bytes : List UInt8) : Option (List Char) := sesSearch (bytes.map fun b ↦ Char.ofNat b.toNat)

/-- `_QUE_RE.search` -/
def queSearch (text : List Char) : Option (List Char) :=
  search (fun tail ↦ (idAt "que_".toList tail).or (idAt "per_".toList tail)) text

/-! ## Data -/

def cacheMax : ℕ := 2097152

structure SessionId where
  word : List Char
  word_ne_nil : word ≠ []
  isWord : ∀ c ∈ word, isWord c = true

def SessionId.text (id : SessionId) : List Char := "ses_".toList ++ id.word

/-- A request whose session has not been found in the map. -/
structure Request where
  sid : List Char
  directory : Option (List Char)
  placed : Option ℤ

/-- A `POST /session` in progress. -/
structure Creation where
  created : SessionId
  shard : ℤ
  buf : List UInt8
  pinned : Bool

structure Routed where
  sid : Option (List Char)
  shard : ℤ
  deriving DecidableEq

structure State where
  sessMap : InsertionMap (List Char) ℤ
  sessCount : ℤ → ℕ
  file : InsertionMap (List Char) ℤ
  /-- The last write of the map has succeeded. -/
  written : Bool
  requests : List Request
  creations : List Creation
  routed : List Routed

/-- The start of the front door, with the map that it finds. -/
def State.load (file : InsertionMap (List Char) ℤ) : State where
  sessMap := file
  sessCount := file.values.foldl (fun counts shard ↦ Function.update counts shard (counts shard + 1)) fun _ ↦ 0
  file := file
  written := true
  requests := []
  creations := []
  routed := []

/-! ## Steps -/

/-- What has been kept of a response. -/
def Creation.capture (creation : Creation) (chunk : List UInt8) : List UInt8 :=
  if creation.buf.length + chunk.length ≤ cacheMax + 65536 then creation.buf ++ chunk else []

namespace State

def pin (s : State) (sid : List Char) (shard : ℤ) (writes : Bool) : State :=
  let prev := s.sessMap.get? sid
  if prev = some shard then s
  else
    let counts := prev.elim s.sessCount fun old ↦ Function.update s.sessCount old (s.sessCount old - 1)
    let sessMap := s.sessMap.set sid shard
    { s with
      sessMap := sessMap
      sessCount := Function.update counts shard (counts shard + 1)
      file := if writes then sessMap else s.file
      written := writes }

/-- A request that needs no pin is routed at once; another one is to be placed. -/
def request (s : State) (table : Table) (questions : List Char → Option ℤ) (loads : Loads) (raw : List Char) :
    State :=
  let directory := directoryOf raw
  let pool := table.pool directory
  match sesSearch raw with
  | some sid =>
    match s.sessMap.get? sid with
    | some shard => { s with routed := s.routed ++ [⟨some sid, shard⟩] }
    | none =>
      if pool.isEmpty then { s with routed := s.routed ++ [⟨some sid, table.defaultShard⟩] }
      else { s with requests := s.requests ++ [⟨sid, directory, none⟩] }
  | none =>
    let stateless :=
      if 1 < pool.length then placeSession table s.sessCount loads none directory
      else pool.head?.getD table.defaultShard
    let posed := (((queSearch raw).bind questions).filter (· ∈ table.backends))
    { s with routed := s.routed ++ [⟨none, posed.getD stateless⟩] }

def place (s : State) (table : Table) (index : ℕ) (loads : Loads) (jev : Option Jev) : State :=
  match s.requests[index]? with
  | some request =>
    if request.placed = none then
      let shard :=
        match table.pool request.directory with
        | [only] => only
        | _ => placeSession table s.sessCount loads jev request.directory
      { s with requests := s.requests.set index { request with placed := some shard } }
    else s
  | none => s

/-- A placed request pins its session and is routed. -/
def pinRequest (s : State) (index : ℕ) (writes : Bool) : State :=
  match s.requests[index]? with
  | some request =>
    match request.placed with
    | some shard =>
      { s.pin request.sid shard writes with
        requests := s.requests.eraseIdx index
        routed := s.routed ++ [⟨some request.sid, shard⟩] }
    | none => s
  | none => s

/-- The shard of a `POST /session`. -/
def creating (s : State) (table : Table) (loads : Loads) (raw : List Char) : ℤ :=
  match table.pool (directoryOf raw) with
  | [] => table.defaultShard
  | [only] => only
  | _ => placeSession table s.sessCount loads none (directoryOf raw)

def create (s : State) (table : Table) (loads : Loads) (raw : List Char) (created : SessionId) : State :=
  { s with creations := s.creations ++ [⟨created, s.creating table loads raw, [], false⟩] }

/-- A read of the response of a `POST /session`. -/
def read (s : State) (index : ℕ) (chunk : List UInt8) (writes : Bool) : State :=
  match s.creations[index]? with
  | some creation =>
    let next := { creation with buf := creation.capture chunk }
    match if creation.pinned then none else sesSearchBytes next.buf with
    | none => { s with creations := s.creations.set index next }
    | some sid =>
      { s.pin sid creation.shard writes with creations := s.creations.set index { next with pinned := true } }
  | none => s

end State

inductive Op
  | request (questions : List Char → Option ℤ) (loads : Loads) (raw : List Char)
  | place (index : ℕ) (loads : Loads) (jev : Option Jev)
  | pinRequest (index : ℕ) (writes : Bool)
  | create (loads : Loads) (raw : List Char) (created : SessionId)
  | read (index : ℕ) (chunk : List UInt8) (writes : Bool)

def State.step (table : Table) (s : State) : Op → State
  | .request questions loads raw => s.request table questions loads raw
  | .place index loads jev => s.place table index loads jev
  | .pinRequest index writes => s.pinRequest index writes
  | .create loads raw created => s.create table loads raw created
  | .read index chunk writes => s.read index chunk writes

end Amicode.Frontdoor
