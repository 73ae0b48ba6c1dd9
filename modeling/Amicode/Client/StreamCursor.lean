import Amicode.Fanin.Frame
import Amicode.Foundation.JsNumber
import Amicode.Foundation.Lines
import Mathlib.Data.List.Sort

/-!
# The client's stream cursor

The client resumes the global event stream from the id of the last frame it applied, and checks the id of
every frame against it (`stream-cursor.ts`). An id is the position of one engine, `<epoch>:<seq>`, or the
composite of every origin's position. A bus event takes the next sequence number of its origin; a control
frame carries the current one. So the frame after the last one of an origin is the next number, anything
later is a hole, and anything at or behind it is a duplicate.

A sequence number is a natural number here: the engine counts its frames in an ECMAScript number, whose
numerals are read back exactly.
-/

open List

namespace Amicode.Client

/-! ## Positions -/

/-- The type of the frame that tells a client that its cursor cannot be served. -/
def RESET_TYPE : String := "server.cursor.unservable"

/-- The frames of a connection: they carry the current position and take no number. -/
def CONTROL_TYPES : List String := ["server.connected", "server.heartbeat", RESET_TYPE]

/-- `/^([A-Za-z0-9_-]+):(\d+)$/`, on the text as it is. -/
def enginePosition (value : Option String) : Option EngineId :=
  value.bind fun value ↦
    let text := value.toList
    let epoch := text.takeWhile isEpochChar
    match text.dropWhile isEpochChar with
    | ':' :: digits =>
      if epoch = [] then none
      else (JsText.decimal? digits).map fun seq ↦ ⟨String.ofList epoch, seq⟩
    | _ => none

/-- A stream id as one position for each origin; a bare id is the local engine's. -/
def originPositions (id : Option String) : InsertionMap String String :=
  match id with
  | none => ∅
  | some id =>
    let trimmed := JsText.trim id.toList
    if trimmed = [] then ∅
    else if '=' ∉ trimmed then (∅ : InsertionMap String String).set LOCAL_NAMESPACE
      (String.ofList trimmed)
    else (JsText.splitOn [';'] trimmed).foldl (fun out entry ↦
      match parseEntry entry with
      | some (ns, value) => out.set ns value
      | none => out) ∅

/-- `id?.trim()`, where an empty id counts as none. -/
def trimmedId (id : Option String) : Option String :=
  (id.map fun text ↦ String.ofList (JsText.trim text.toList)).filter (· ≠ "")

/-! ## The origin of a frame

The origin is read off the id: it is the first namespace whose value differs from the one last applied.
A record lists its array indices first, in ascending order. -/

/-- The number a property name is the canonical numeral of, if it is an array index. -/
def arrayIndex? (key : String) : Option ℕ :=
  (JsText.decimal? key.toList).filter fun n ↦ JsText.decimal n = key.toList ∧ n < 2 ^ 32 - 1

/-- `Object.keys`, for a record whose properties were created in this order. -/
def objectKeys (keys : List String) : List String :=
  ((keys.filterMap arrayIndex?).insertionSort (· ≤ ·)).map (fun n ↦ String.ofList (JsText.decimal n))
    ++ keys.filter fun key ↦ arrayIndex? key = none

/-- `parseCursorNamespaces`: a composite cursor as a record. Assigning a text to `__proto__` creates no
property. -/
def parseCursorNamespaces (id : Option String) : InsertionMap String String :=
  match id with
  | none => ∅
  | some text =>
    if '=' ∉ text.toList then ∅
    else ((∅ : InsertionMap String String).setAll
      ((JsText.splitOn [';'] text.toList).filterMap parseEntry)).filterKeys (· ≠ "__proto__")

/-- `resolveEventOrigin`: the peer that moved, or nothing for the local engine, and the positions to
compare with next. -/
def resolveEventOrigin (currentId : Option String) (previousCursor : InsertionMap String String) :
    Option String × InsertionMap String String :=
  match currentId with
  | none => (none, previousCursor)
  | some id =>
    if '=' ∉ id.toList then (none, previousCursor)
    else
      let current := parseCursorNamespaces (some id)
      let changed := (objectKeys current.keys).find? fun ns ↦ current.get? ns ≠ previousCursor.get? ns
      (changed.filter (· ≠ LOCAL_NAMESPACE), current)

/-! ## The cursor -/

/-- What the cursor is told of a data frame. -/
structure FrameInput where
  /-- The SSE id. -/
  id : Option String
  type : Option String

def FrameInput.isControl (input : FrameInput) : Bool := input.type.any (· ∈ CONTROL_TYPES)

def FrameInput.isReset (input : FrameInput) : Bool := input.type = some RESET_TYPE

inductive ResyncReason
  | hole | reset
deriving DecidableEq

/-- The origins whose frames were lost. -/
structure StreamResync where
  reason : ResyncReason
  namespaces : List String
deriving DecidableEq

/-- What the stream loop does with a frame. -/
structure StreamCursorVerdict where
  /-- False: a duplicate, to be dropped. -/
  apply : Bool
  /-- The peer that sent it, or nothing for the local engine. -/
  origin : Option String
  /-- Present when frames of these origins were lost. -/
  resync : Option StreamResync
deriving DecidableEq

structure StreamCursor where
  /-- The id of the last frame applied, verbatim. -/
  raw : Option String
  /-- The position of each origin. -/
  applied : InsertionMap String String
  /-- The origins whose next position is a new baseline, after an announced gap. -/
  rebase : Finset String

def createStreamCursor (initial : Option String) : StreamCursor where
  raw := trimmedId initial
  applied := originPositions (trimmedId initial)
  rebase := ∅

/-- How a frame moves an origin. -/
inductive Move
  /-- There is nothing to compare with: the position is a new baseline. -/
  | baseline
  /-- A new epoch nothing announced. -/
  | restart
  /-- At or behind what was applied. -/
  | behind
  /-- Past the next number. -/
  | hole
  /-- To the next number. -/
  | onward
deriving DecidableEq

/-- The frames in between were lost. -/
def Move.isLoss : Move → Bool
  | .restart | .hole => true
  | .baseline | .behind | .onward => false

namespace StreamCursor

/-- The position an origin was last seen at. -/
def position (cursor : StreamCursor) (ns : String) : Option EngineId :=
  enginePosition (cursor.applied.get? ns)

/-- The origins whose value differs from the one last applied. -/
def changed (cursor : StreamCursor) (next : InsertionMap String String) : List String :=
  next.keys.filter fun ns ↦ next.get? ns ≠ cursor.applied.get? ns

/-- What one turn of the contiguity loop finds. -/
def move (cursor : StreamCursor) (input : FrameInput) (next : InsertionMap String String)
    (ns : String) : Move :=
  if input.isReset ∨ ns ∈ cursor.rebase then .baseline
  else
    match cursor.position ns, enginePosition (next.get? ns) with
    | some prev, some cur =>
      if cur.epoch ≠ prev.epoch then .restart
      else if cur.seq ≤ prev.seq then .behind
      else if prev.seq + (if input.isControl then 0 else 1) < cur.seq then .hole
      else .onward
    | _, _ => .baseline

/-- The frame names an origin at or behind what was applied. -/
def isBehind (cursor : StreamCursor) (input : FrameInput) (next : InsertionMap String String) : Bool :=
  (cursor.changed next).any fun ns ↦ cursor.move input next ns = .behind

def advance (cursor : StreamCursor) (id : String) (next : InsertionMap String String) :
    StreamCursor where
  raw := some id
  applied := if '=' ∈ id.toList then cursor.applied.setAll next.entries else next
  rebase := cursor.rebase \ (cursor.changed next).toFinset

def resync? (cursor : StreamCursor) (input : FrameInput) (next : InsertionMap String String) :
    Option StreamResync :=
  let changed := cursor.changed next
  let holes := changed.filter fun ns ↦ (cursor.move input next ns).isLoss
  if input.isReset then some ⟨.reset, if changed ≠ [] then changed else next.keys⟩
  else if holes ≠ [] then some ⟨.hole, holes⟩
  else none

/-- `frame`: check a frame against the cursor, and move it. -/
def frame (cursor : StreamCursor) (input : FrameInput) : StreamCursor × StreamCursorVerdict :=
  match trimmedId input.id with
  | none => (cursor, ⟨true, none, none⟩)
  | some id =>
    let next := originPositions (some id)
    let origin := (resolveEventOrigin (some id) cursor.applied).1
    if cursor.isBehind input next then (cursor, ⟨input.isControl, origin, none⟩)
    else if cursor.changed next = [] ∧ '=' ∉ id.toList ∧ ¬ input.isControl
        ∧ (enginePosition (some id)).isSome then
      (cursor, ⟨false, origin, none⟩)
    else (cursor.advance id next, ⟨true, origin, cursor.resync? input next⟩)

/-- The origins a gap is about: the ones it names, or every one. -/
def gapped (cursor : StreamCursor) (namespaces : List String) : List String :=
  if namespaces ≠ [] then namespaces else cursor.applied.keys

/-- `gap`: the relay announced that frames of these origins were lost. -/
def gap (cursor : StreamCursor) (namespaces : List String) : StreamCursor :=
  { cursor with rebase := cursor.rebase ∪ (cursor.gapped namespaces).toFinset }

/-- `clear`: the next connection opens without a cursor. -/
def clear (_cursor : StreamCursor) : StreamCursor := ⟨none, ∅, ∅⟩

end StreamCursor

end Amicode.Client

/-!
# The two readers of the composite cursor

The relay prints a map of resume ids as one cursor and parses it (`sse_composite_cursor.ts`); the client reads the
same text as one position for each origin (`stream-cursor.ts`). Both trim the text first, so a map comes back if
its first namespace does not begin with white space and its last id does not end with it
(`parse_formatCompositeCursor`). The two readers find the same map in every text (`originPositions_eq`), and the
client takes a value for a position if it is an engine id as it stands.
-/

namespace Amicode

open JsText

/-! ## Printing and parsing -/

/-- What the separators ask of a map: its namespaces are not empty and have neither separator, its ids have no
`;`. -/
structure Composable (map : InsertionMap String String) : Prop where
  namespaces : ∀ e ∈ map.entries, e.1 ≠ "" ∧ '=' ∉ e.1.toList ∧ ';' ∉ e.1.toList
  ids : ∀ e ∈ map.entries, ';' ∉ e.2.toList

/-- Trimming takes nothing from the printed map. -/
structure Untrimmed (map : InsertionMap String String) : Prop where
  first : ∀ e ∈ map.entries.head?, ∀ c ∈ e.1.toList.head?, isSpace c = false
  last : ∀ e ∈ map.entries.getLast?, ∀ c ∈ e.2.toList.getLast?, isSpace c = false

def entryText (e : String × String) : List Char := e.1.toList ++ '=' :: e.2.toList

theorem parseEntry_entryText {e : String × String} (hne : e.1 ≠ "") (heq : '=' ∉ e.1.toList) :
    parseEntry (entryText e) = some e := by
  have hkey : ∀ c ∈ e.1.toList, decide (c ≠ '=') = true := fun c hc ↦ by
    have : c ≠ '=' := fun h ↦ heq (h ▸ hc)
    simpa using this
  have hlist : e.1.toList ≠ [] := fun hnil ↦ hne (String.toList_eq_nil_iff.mp hnil)
  rw [parseEntry, entryText, dropWhile_append_of_pos hkey, dropWhile_cons_of_neg (by simp),
    takeWhile_append_of_pos hkey, takeWhile_cons_of_neg (by simp), append_nil]
  show (if e.1.toList = [] then none else some (String.ofList e.1.toList, String.ofList e.2.toList)) = some e
  rw [if_neg hlist, String.ofList_toList, String.ofList_toList]

theorem entries_set_of_notMem {κ ν : Type*} [DecidableEq κ] {entries : List (κ × ν)} {key : κ} (value : ν)
    (h : key ∉ entries.map Prod.fst) : InsertionMap.Entries.set entries key value = entries ++ [(key, value)] := by
  induction entries with
  | nil => rfl
  | cons e entries ih =>
    rw [map_cons, mem_cons, not_or] at h
    rw [InsertionMap.Entries.set, if_neg (Ne.symm h.1), ih h.2, cons_append]

theorem setAll_entries {κ ν : Type*} [DecidableEq κ] (map : InsertionMap κ ν) :
    (∅ : InsertionMap κ ν).setAll map.entries = map := by
  have hwritten : ∀ (updates : List (κ × ν)) (m : InsertionMap κ ν),
      ((m.entries ++ updates).map Prod.fst).Nodup → (m.setAll updates).entries = m.entries ++ updates := by
    intro updates
    induction updates with
    | nil => exact fun m _ ↦ (append_nil _).symm
    | cons e updates ih =>
      intro m hnodup
      have hfresh : e.1 ∉ m.entries.map Prod.fst := by
        rw [map_append, nodup_append] at hnodup
        exact fun hmem ↦ hnodup.2.2 e.1 hmem e.1 (by simp) rfl
      have hset : (m.set e.1 e.2).entries = m.entries ++ [e] := entries_set_of_notMem e.2 hfresh
      have hrest := ih (m.set e.1 e.2) (by rwa [hset, append_assoc])
      rw [hset, append_assoc] at hrest
      exact hrest
  have hext : ∀ m m' : InsertionMap κ ν, m.entries = m'.entries → m = m' := by
    rintro ⟨entries, _⟩ ⟨_, _⟩ rfl
    rfl
  exact hext _ _ (hwritten map.entries ∅ map.nodup)

theorem trim_eq_self_of_ends {text : List Char} (hfirst : ∀ c ∈ text.head?, isSpace c = false)
    (hlast : ∀ c ∈ text.getLast?, isSpace c = false) : trim text = text := by
  have hkeep : ∀ l : List Char, (∀ c ∈ l.head?, isSpace c = false) → l.dropWhile isSpace = l := by
    intro l hl
    rcases l with _ | ⟨c, l⟩
    · rfl
    · exact dropWhile_cons_of_neg (by rw [hl c rfl]; exact Bool.false_ne_true)
  have hlast' : ∀ c ∈ text.reverse.head?, isSpace c = false := by
    rw [head?_reverse]
    exact hlast
  rw [trim, hkeep text hfirst, hkeep text.reverse hlast', reverse_reverse]

variable {map : InsertionMap String String}

theorem toList_formatCompositeCursor (h : Composable map) :
    (formatCompositeCursor map).toList = [';'].intercalate (map.entries.map entryText) := by
  have hnamed : (map.entries.filter fun e ↦ e.1 ≠ "") = map.entries :=
    filter_eq_self.mpr fun e he ↦ by simpa using (h.namespaces e he).1
  rw [formatCompositeCursor, hnamed, String.toList_intercalate, List.map_map]
  congr 1
  refine map_congr_left fun e _ ↦ ?_
  rw [Function.comp_apply, String.toList_append, String.toList_append, entryText, append_assoc]
  rfl

theorem trim_formatCompositeCursor (h : Composable map)
    (huntrimmed : Untrimmed map) :
    trim (formatCompositeCursor map).toList = (formatCompositeCursor map).toList := by
  rw [toList_formatCompositeCursor h]
  refine trim_eq_self_of_ends (fun c hc ↦ ?_) fun c hc ↦ ?_
  · rcases hentries : map.entries with _ | ⟨e, rest⟩
    · rw [hentries] at hc
      exact absurd hc (by simp)
    · -- the text begins with the first namespace
      have hne : e.1.toList ≠ [] := fun hnil ↦
        (h.namespaces e (by rw [hentries]; exact mem_cons_self)).1 (String.toList_eq_nil_iff.mp hnil)
      obtain ⟨d, key, hkey⟩ := exists_cons_of_ne_nil hne
      have hhead : ([';'].intercalate (map.entries.map entryText)).head? = some d := by
        rw [hentries, map_cons, entryText, hkey, cons_append, intercalate_cons_cons_left]
        rfl
      rw [hhead] at hc
      obtain rfl := Option.some.inj hc
      exact huntrimmed.first e (by rw [hentries]; rfl) d (by rw [hkey]; rfl)
  · rcases eq_nil_or_concat map.entries with hentries | ⟨rest, e, hentries⟩
    · rw [hentries] at hc
      exact absurd hc (by simp)
    · -- it ends with the last id, or with the `=` before an empty one
      rw [concat_eq_append] at hentries
      obtain ⟨x, hx⟩ : entryText e <:+ [';'].intercalate (map.entries.map entryText) := by
        rw [hentries, map_append, map_singleton]
        exact suffix_intercalate _ _ _
      rw [← hx, entryText] at hc
      rcases eq_nil_or_concat e.2.toList with hnil | ⟨front, d, hd⟩
      · rw [hnil, ← append_assoc, getLast?_concat] at hc
        rw [← Option.some.inj hc]
        rfl
      · rw [hd, concat_eq_append, ← cons_append, ← append_assoc, ← append_assoc,
          getLast?_concat] at hc
        obtain rfl := Option.some.inj hc
        exact huntrimmed.last e (by rw [hentries, getLast?_concat]; rfl) d
          (by rw [hd, concat_eq_append, getLast?_concat]; rfl)

theorem parse_formatCompositeCursor (h : Composable map)
    (huntrimmed : Untrimmed map) : parseCompositeCursor (some (formatCompositeCursor map)) = map := by
  have hentries := setAll_entries map
  rcases hmap : map.entries with _ | ⟨e, rest⟩
  · rw [hmap] at hentries
    rw [← hentries]
    rfl
  have htext : '=' ∈ [';'].intercalate (map.entries.map entryText) := by
    obtain ⟨x, hx⟩ : entryText e <+: [';'].intercalate (map.entries.map entryText) := by
      rw [hmap, map_cons]
      rcases rest with _ | ⟨next, rest⟩
      · rw [map_nil, intercalate_singleton]
      · rw [map_cons, intercalate_cons_cons, append_assoc]
        exact prefix_append _ _
    rw [← hx]
    exact mem_append_left _ (mem_append_right _ mem_cons_self)
  have hsplit : splitOn [';'] ([';'].intercalate (map.entries.map entryText)) = map.entries.map entryText := by
    rw [splitOn_singleton]
    refine splitOn_intercalate ';' (fun text htext ↦ ?_) (by rw [hmap]; exact cons_ne_nil _ _)
    obtain ⟨e', he', rfl⟩ := List.mem_map.mp htext
    rw [entryText, mem_append, mem_cons]
    rintro (hkey | hsep | hvalue)
    · exact (h.namespaces e' he').2.2 hkey
    · exact absurd hsep (by decide)
    · exact h.ids e' he' hvalue
  have hparsed : (map.entries.map entryText).filterMap parseEntry = map.entries := by
    have hread : ∀ e' ∈ map.entries, (parseEntry ∘ entryText) e' = some e' := fun e' he' ↦
      parseEntry_entryText (h.namespaces e' he').1 (h.namespaces e' he').2.1
    rw [filterMap_map, filterMap_congr hread, filterMap_some]
  rw [parseCompositeCursor, trim_formatCompositeCursor h huntrimmed, toList_formatCompositeCursor h,
    if_neg (ne_nil_of_mem htext), if_neg (not_not.mpr htext), hsplit, hparsed, hentries]

/-! ## The client's reading -/

namespace Client

theorem originPositions_eq (id : Option String) : originPositions id = parseCompositeCursor id := by
  rcases id with _ | text
  · rfl
  rw [originPositions, parseCompositeCursor]
  split
  · rfl
  split
  · rfl
  · rw [InsertionMap.setAll, foldl_filterMap]
    congr 1
    funext out entry
    rcases parseEntry entry with _ | ⟨ns, value⟩ <;> rfl

/-- A position as the client has it: the sequence number is what `Number` makes of the digits, nothing where that
is `Infinity`. -/
structure Position where
  epoch : String
  seq : Option ℕ
deriving DecidableEq

/-- `enginePosition`, with the number the client gets. -/
def readPosition (value : Option String) : Option Position :=
  value.bind fun value ↦
    let text := value.toList
    let epoch := text.takeWhile isEpochChar
    match text.dropWhile isEpochChar with
    | ':' :: digits =>
      if epoch = [] ∨ digits = [] ∨ digits.all isDigit = false then none
      else some ⟨String.ofList epoch, JsNumber.number digits⟩
    | _ => none

/-- An engine id: an epoch token and a numeral. -/
structure IsEngineId (value epoch : String) (digits : List Char) : Prop where
  text : value.toList = epoch.toList ++ ':' :: digits
  epoch : IsEpoch epoch
  ne : digits ≠ []
  digits : ∀ c ∈ digits, isDigit c = true

theorem readPosition_eq_some_iff {value : String} {position : Position} :
    readPosition (some value) = some position ↔
      ∃ digits, IsEngineId value position.epoch digits ∧ position.seq = JsNumber.number digits := by
  constructor
  · intro h
    rw [readPosition, Option.bind_some] at h
    dsimp only at h
    split at h
    · next digits hdrop =>
      split at h
      · exact absurd h (by simp)
      · next hfields =>
        rw [not_or, not_or] at hfields
        obtain ⟨hepoch, hne, hdigits⟩ := hfields
        obtain rfl := Option.some.inj h
        refine ⟨digits, ⟨?_, ⟨fun hnil ↦ hepoch ?_, ?_⟩, hne, ?_⟩, rfl⟩
        · dsimp only
          rw [String.toList_ofList, ← hdrop, takeWhile_append_dropWhile]
        · exact String.ofList_eq_empty_iff.mp hnil
        · intro c hc
          rw [String.toList_ofList] at hc
          exact mem_takeWhile_imp hc
        · exact List.all_eq_true.mp (by simpa using hdigits)
    · exact absurd h (by simp)
  · rintro ⟨digits, ⟨htext, ⟨hepoch, hchars⟩, hne, hdigits⟩, hseq⟩
    have hnil : position.epoch.toList ≠ [] := fun hnil ↦ hepoch (String.toList_eq_nil_iff.mp hnil)
    have hall : digits.all isDigit = true := List.all_eq_true.mpr hdigits
    rw [readPosition, Option.bind_some]
    dsimp only
    rw [htext, dropWhile_append_of_pos hchars, dropWhile_cons_of_neg (by decide),
      takeWhile_append_of_pos hchars, takeWhile_cons_of_neg (by decide), append_nil]
    show (if position.epoch.toList = [] ∨ digits = [] ∨ digits.all isDigit = false then none
      else some (Position.mk (String.ofList position.epoch.toList) (JsNumber.number digits))) = some position
    rw [if_neg (by simp [hnil, hne, hall]), String.ofList_toList, ← hseq]

/-- **The composite cursor.** A map whose ends are not white space comes back from its cursor, and in every text the
client reads the position of an origin exactly where the relay parses an engine id for its namespace. -/
theorem compositeCursor_agrees {map : InsertionMap String String} (h : Composable map) (huntrimmed : Untrimmed map) :
    parseCompositeCursor (some (formatCompositeCursor map)) = map ∧
      ∀ (id : Option String) (ns : String) (position : Position),
        readPosition ((originPositions id).get? ns) = some position ↔
          ∃ value digits, (parseCompositeCursor id).get? ns = some value ∧
            IsEngineId value position.epoch digits ∧ position.seq = JsNumber.number digits := by
  refine ⟨parse_formatCompositeCursor h huntrimmed, fun id ns position ↦ ?_⟩
  rw [originPositions_eq]
  rcases (parseCompositeCursor id).get? ns with _ | value
  · exact ⟨fun hnone ↦ absurd hnone (by simp [readPosition]), fun ⟨_, _, hnone, _⟩ ↦ absurd hnone (by simp)⟩
  · rw [readPosition_eq_some_iff]
    constructor
    · rintro ⟨digits, hid, hseq⟩
      exact ⟨value, digits, rfl, hid, hseq⟩
    · rintro ⟨value', digits, hvalue, hid, hseq⟩
      obtain rfl := Option.some.inj hvalue
      exact ⟨digits, hid, hseq⟩

/-- A cursor of two origins. -/
theorem compositeCursor_agrees_twoOrigins :
    ∃ map : InsertionMap String String, map.entries = [("local", "e:5"), ("studio", "s:42")] ∧
      parseCompositeCursor (some (formatCompositeCursor map)) = map ∧
        ∀ (id : Option String) (ns : String) (position : Position),
          readPosition ((originPositions id).get? ns) = some position ↔
            ∃ value digits, (parseCompositeCursor id).get? ns = some value ∧
              IsEngineId value position.epoch digits ∧ position.seq = JsNumber.number digits :=
  ⟨⟨[("local", "e:5"), ("studio", "s:42")], by decide⟩, rfl,
    compositeCursor_agrees ⟨by decide, by decide⟩
      ⟨by rintro _ ⟨⟩ _ ⟨⟩; decide, by rintro _ ⟨⟩ _ ⟨⟩; decide⟩⟩

/-- The blank at the end of an upstream id is trimmed away. -/
theorem not_parse_formatCompositeCursor :
    ¬ ∀ map : InsertionMap String String, Composable map →
      parseCompositeCursor (some (formatCompositeCursor map)) = map := by
  intro h
  have hread := congrArg (·.get? "local") (h ⟨[("local", "5 ")], by decide⟩ ⟨by decide, by decide⟩)
  exact absurd hread (by decide)

end Client

end Amicode
