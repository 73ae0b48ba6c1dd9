import Amicode.Foundation.JsNumber
import Amicode.Foundation.JsObject

/-!
# The TOML-subset reader

Widget manifests are read line by line. A line is a header, which makes a table and turns the reader to it, or
an assignment to a key of that table. The value of an assignment is a scalar or an array of strings; an array
whose bracket is not closed on its line takes the lines behind it, joined by a space, up to one with a bracket.
Scalars and arrays have a string reader each.

The tables are plain objects and so inherit names. A header that looks up a name which the table does not have
and every object inherits finds a function, or with `__proto__` the object every table inherits from. A document
that changes what a table inherits is not followed further (`Stop.prototype`).
-/

namespace Amicode.TomlLite

open JsText JsObject

/-- What `parseTomlLite` makes of a value. A number is a double: its value, or `none` if it is not finite. -/
inductive TomlValue where
  | str (text : List Char)
  | num (value : Option ℚ)
  | bool (b : Bool)
  | arr (items : List TomlValue)
  | table (members : List (String × TomlValue))

/-- The members of a table in the order in which they were made. -/
abbrev Members := List (String × TomlValue)

/-- Why a document has no value. -/
inductive Stop where
  | error (text : String)
  /-- The object that all tables inherit from was written to, or replaced for one of them. -/
  | prototype

/-! ## Scalars -/

/-- A character of a bare key: `[A-Za-z0-9_-]`. -/
def isBareChar (c : Char) : Bool :=
  ('A' ≤ c && c ≤ 'Z') || ('a' ≤ c && c ≤ 'z') || isDigit c || c == '_' || c == '-'

/-- `BARE_KEY.test`. -/
def isBareKey (text : List Char) : Bool := text ≠ [] && text.all isBareChar

/-- What a scalar string has for a backslash and the character behind it. -/
def unescape (n : Char) : Char := if n = 'n' then '\n' else if n = 't' then '\t' else n

/-- A quoted scalar behind its opening quote: its text, and what follows the closing quote. -/
def readQuoted (q : Char) : List Char → Option (List Char × List Char)
  | [] => none
  | [c] => if c = q then some ([], []) else none
  | c :: n :: rest =>
    if c = '\\' ∧ q = '"' then (readQuoted q rest).map fun r ↦ (unescape n :: r.1, r.2)
    else if c = q then some ([], n :: rest)
    else (readQuoted q (n :: rest)).map fun r ↦ (c :: r.1, r.2)

/-- Nothing but white space, or a comment behind it. -/
def isTail (text : List Char) : Bool := trim text == [] || ['#'].isPrefixOf (trim text)

/-- A number without its minus sign. -/
def unsigned : List Char → List Char
  | '-' :: rest => rest
  | text => text

/-- `/^-?\d+$/`. -/
def isInteger (text : List Char) : Bool := unsigned text ≠ [] && (unsigned text).all isDigit

/-- `/^-?\d*\.\d+$/`. -/
def isFraction (text : List Char) : Bool :=
  match (unsigned text).dropWhile isDigit with
  | '.' :: digits => digits ≠ [] && digits.all isDigit
  | _ => false

/-- A scalar without quotes. -/
def bareScalar (body : List Char) : Option TomlValue :=
  if body = "true".toList then some (.bool true)
  else if body = "false".toList then some (.bool false)
  else if isInteger body || isFraction body then some (.num (JsNumber.ofText? body))
  else none

/-- Parse one scalar token: quoted string, bool, number. -/
def scalar (raw : List Char) : Option TomlValue :=
  match trim raw with
  | [] => none
  | q :: rest =>
    if q = '"' ∨ q = '\'' then
      (readQuoted q rest).bind fun r ↦ if isTail r.2 then some (.str r.1) else none
    else bareScalar (trim ((q :: rest).takeWhile (· ≠ '#')))

/-! ## Arrays -/

inductive ArrayScan where
  | between
  | inside (quote : Char) (text : List Char)

def scanItems : ArrayScan → List Char → Option (List (List Char))
  | .between, [] => some []
  | .between, c :: rest =>
    if c = ' ' ∨ c = ',' ∨ c = '\t' then scanItems .between rest
    else if c = '"' ∨ c = '\'' then scanItems (.inside c []) rest
    else none
  | .inside _ _, [] => none
  | .inside q text, [c] => if c = q then some [text] else none
  | .inside q text, c :: n :: rest =>
    if c = '\\' ∧ q = '"' then scanItems (.inside q (text ++ [n])) rest
    else if c = q then (scanItems .between (n :: rest)).map (text :: ·)
    else scanItems (.inside q (text ++ [c])) (n :: rest)

/-- Split a bracketed array body into item tokens (strings only supported). -/
def stringArray (body : List Char) : Option (List (List Char)) := scanItems .between (trim body)

/-! ## Tables -/

/-- The table at a path from the root. -/
def tableAt? (members : Members) : List String → Option Members
  | [] => some members
  | part :: path =>
    match own? members part with
    | some (.table sub) => tableAt? sub path
    | _ => none

/-- The members with the table at a path changed. -/
def updateAt (f : Members → Members) (members : Members) : List String → Members
  | [] => f members
  | part :: path =>
    match own? members part with
    | some (.table sub) => assign members part (.table (updateAt f sub path))
    | _ => members

/-- Walk a path from the root, making the tables that are missing, and do something at its end. A part that
leads to no table is a conflict. -/
def walk (conflict : String) (finish : Members → Except Stop Members) (members : Members) :
    List String → Except Stop Members
  | [] => finish members
  | part :: path =>
    match own? members part with
    | some (.table sub) => (walk conflict finish sub path).map fun sub ↦ assign members part (.table sub)
    | some _ => .error (.error conflict)
    | none =>
      if part = "__proto__" then .error .prototype
      else if part ∈ inheritedNames then .error (.error conflict)
      else (walk conflict finish [] path).map fun sub ↦ assign members part (.table sub)

/-- Add an empty table to the array under a name, or make the array. -/
def pushEntry (conflict : String) (name : String) (members : Members) : Except Stop Members :=
  match own? members name with
  | some (.arr items) => .ok (assign members name (.arr (items ++ [.table []])))
  | some _ => .error (.error conflict)
  | none =>
    if name ∈ inheritedNames then .error (.error conflict) else .ok (assign members name (.arr [.table []]))

/-- Where assignments go: the table at a path, or the last entry of the array that a table has under a name. -/
inductive Location where
  | table (path : List String)
  | entry (path : List String) (name : String)

/-- The members of a table that is the last entry of an array. -/
def lastTable? (items : List TomlValue) : Option Members :=
  match items.getLast? with
  | some (.table members) => some members
  | _ => none

/-- The members of the table where assignments go. -/
def Location.members (root : Members) : Location → Members
  | .table path => (tableAt? root path).getD []
  | .entry path name =>
    match (tableAt? root path).bind (own? · name) with
    | some (.arr items) => (lastTable? items).getD []
    | _ => []

/-- The root with `value` under `key` where assignments go. -/
def Location.store (root : Members) (key : String) (value : TomlValue) : Location → Members
  | .table path => updateAt (assign · key value) root path
  | .entry path name =>
    updateAt (fun members ↦
      match own? members name with
      | some (.arr items) =>
        match lastTable? items with
        | some last => assign members name (.arr (items.dropLast ++ [.table (assign last key value)]))
        | none => members
      | _ => members) root path

/-! ## Lines -/

structure Reader where
  /-- The number of lines read. -/
  lines : ℕ
  root : Members
  current : Location
  /-- The key and the text of an array without a bracket that closes it. -/
  openArray : Option (String × List Char)

def errorAt (line : ℕ) (text : String) : String := "line " ++ toString line ++ ": " ++ text

/-- `current[key] = value`. A scalar under `__proto__` is not stored; an array is what the table inherits from
then. -/
def assignCurrent (r : Reader) (key : String) (value : TomlValue) : Except Stop Reader :=
  if key = "__proto__" then
    match value with
    | .arr _ => .error .prototype
    | _ => .ok r
  else .ok { r with root := r.current.store r.root key value }

/-- The text of an array with a bracket that may close it. -/
def closeArray (r : Reader) (key : String) (value : List Char) : Except Stop Reader :=
  match splitLast ']' value with
  | none => .error (.error (errorAt r.lines "unterminated array"))
  | some (before, after) =>
    if ¬ isTail after then .error (.error (errorAt r.lines "junk after array"))
    else match stringArray (before.drop 1) with
      | none => .error (.error (errorAt r.lines "bad string array"))
      | some items => assignCurrent { r with openArray := none } key (.arr (items.map .str))

/-- An array as far as it was read: closed if there is a bracket. -/
def continueArray (r : Reader) (key : String) (value : List Char) : Except Stop Reader :=
  if ']' ∈ value then closeArray r key value else .ok { r with openArray := some (key, value) }

/-- `[[array.of.tables]]`. -/
def tableArrayHeader (r : Reader) (line : List Char) : Except Stop Reader :=
  if ¬ [']', ']'].isSuffixOf line then .error (.error (errorAt r.lines "malformed table array header"))
  else
    let path := (trim (line.drop 2).dropLast.dropLast).splitOn '.'
    if path.any (¬ isBareKey ·) then .error (.error (errorAt r.lines "bad table array name"))
    else
      let names := path.map String.ofList
      let name := names.getLastD ""
      (walk (errorAt r.lines "table array path conflicts with value")
        (pushEntry (errorAt r.lines "table array conflicts with value") name) r.root names.dropLast).map
        fun root ↦ { r with root := root, current := .entry names.dropLast name }

/-- `[table]` / `[table.sub]`. -/
def tableHeader (r : Reader) (line : List Char) : Except Stop Reader :=
  if ¬ [']'].isSuffixOf line then .error (.error (errorAt r.lines "malformed table header"))
  else
    let path := (trim (line.drop 1).dropLast).splitOn '.'
    if path.any (¬ isBareKey ·) then .error (.error (errorAt r.lines "bad table name"))
    else
      let names := path.map String.ofList
      (walk (errorAt r.lines "table path conflicts with value") .ok r.root names).map
        fun root ↦ { r with root := root, current := .table names }

/-- `key = value`. -/
def assignment (r : Reader) (line : List Char) : Except Stop Reader :=
  match line.dropWhile (· ≠ '=') with
  | [] => .error (.error (errorAt r.lines "expected key = value"))
  | _ :: after =>
    let text := trim (line.takeWhile (· ≠ '='))
    let key := String.ofList text
    if ¬ isBareKey text then
      .error (.error (errorAt r.lines ("bad key " ++ String.ofList (jsonString text))))
    else if (own? (r.current.members r.root) key).isSome then
      .error (.error (errorAt r.lines ("duplicate key " ++ key)))
    else
      let value := trim after
      if ['['].isPrefixOf value then continueArray r key value
      else match scalar value with
        | none => .error (.error (errorAt r.lines ("bad value for " ++ key)))
        | some v => assignCurrent r key v

/-- A line that is not inside an array. -/
def statement (r : Reader) (line : List Char) : Except Stop Reader :=
  if line = [] ∨ ['#'].isPrefixOf line then .ok r
  else if ['[', '['].isPrefixOf line then tableArrayHeader r line
  else if ['['].isPrefixOf line then tableHeader r line
  else assignment r line

def readLine (r : Reader) (line : List Char) : Except Stop Reader :=
  let r := { r with lines := r.lines + 1 }
  match r.openArray with
  | some (key, value) => continueArray r key (value ++ ' ' :: trim line)
  | none => statement r (trim line)

def Reader.start : Reader := ⟨0, [], .table [], none⟩

/-- The document without an array that is not closed. -/
def Reader.finish (r : Reader) : Except Stop Members :=
  match r.openArray with
  | some _ => .error (.error (errorAt r.lines "unterminated array"))
  | none => .ok r.root

def parseTomlLite (src : List Char) : Except Stop Members :=
  ((src.splitOn '\n').foldlM readLine Reader.start).bind Reader.finish

end Amicode.TomlLite
