import Amicode.Foundation.JsonTree

/-!
# Data of ECMAScript programs

The values a program has after reading JSON or TOML, with `undefined` for what is absent. The numbers are a
parameter, with what the runtime does with them (`Numbers`). The members of an object are its own properties, in
their order; what an object inherits is code, and no name the programs read is inherited.
-/

open JsonTree

/-- A value that is data, over the numbers. -/
inductive JsData (ν : Type*) where
  | undefined
  | null
  | bool (b : Bool)
  | number (x : ν)
  | str (s : Text)
  | arr (items : List (JsData ν))
  | obj (members : List (Text × JsData ν))

structure Numbers (ν : Type*) where
  /-- `String(x)`. -/
  toText : ν → Text
  /-- `Number.isFinite(x)`, and true of every bigint. -/
  isFinite : ν → Bool

/-- A finite number is written in the characters of numerals. -/
def Numbers.Numerals {ν : Type*} (N : Numbers ν) : Prop :=
  ∀ x, N.isFinite x = true → N.toText x ≠ [] ∧ ∀ u ∈ N.toText x, u ∈ ascii "0123456789+-.e"

/-- Different finite numbers are written differently. -/
def Numbers.Injective {ν : Type*} (N : Numbers ν) : Prop :=
  ∀ x y, N.isFinite x = true → N.isFinite y = true → N.toText x = N.toText y → x = y

namespace JsData

variable {ν : Type*}

@[elab_as_elim, induction_eliminator]
theorem induct {P : JsData ν → Prop} (undefined : P .undefined) (null : P .null) (bool : ∀ b, P (.bool b))
    (number : ∀ x, P (.number x)) (str : ∀ s, P (.str s)) (arr : ∀ items, (∀ v ∈ items, P v) → P (.arr items))
    (obj : ∀ members : List (Text × JsData ν), (∀ e ∈ members, P e.2) → P (.obj members)) : ∀ v, P v
  | .undefined => undefined
  | .null => null
  | .bool b => bool b
  | .number x => number x
  | .str s => str s
  | .arr items => arr items fun v _ ↦ induct undefined null bool number str arr obj v
  | .obj members => obj members fun e _ ↦ induct undefined null bool number str arr obj e.2
decreasing_by
  · decreasing_trivial
  · have hlt := List.sizeOf_lt_of_mem ‹e ∈ members›
    have hsnd : sizeOf e.2 < sizeOf e := by
      obtain ⟨k, v⟩ := e
      simp only [Prod.mk.sizeOf_spec]
      omega
    simp only [JsData.obj.sizeOf_spec]
    omega

/-- The own property of an object, `undefined` where it has none. -/
def own (members : List (Text × JsData ν)) (key : Text) : JsData ν :=
  ((members.find? fun e ↦ e.1 = key).map Prod.snd).getD .undefined

/-- `value.key`, for a key that nothing inherits. -/
def get (value : JsData ν) (key : String) : JsData ν :=
  match value with
  | .obj members => own members (ascii key)
  | _ => .undefined

/-- `value == null`. -/
def isNullish : JsData ν → Bool
  | .undefined | .null => true
  | _ => false

/-- `value ?? other`. -/
def orElse (value other : JsData ν) : JsData ν := if value.isNullish then other else value

mutual

/-- `String(value)`; none where the conversion throws, which it does for an object with a property of the name
`toString` that is data. -/
def toText? (N : Numbers ν) : JsData ν → Option Text
  | .undefined => some (ascii "undefined")
  | .null => some (ascii "null")
  | .bool b => some (ascii (if b then "true" else "false"))
  | .number x => some (N.toText x)
  | .str s => some s
  | .arr items => (itemTexts? N items).map (join [unit ','])
  | .obj members => if (members.map Prod.fst).contains (ascii "toString") then none else some (ascii "[object Object]")
termination_by structural value => value

/-- The items of an array as `Array.prototype.join` writes them. -/
def itemTexts? (N : Numbers ν) : List (JsData ν) → Option (List Text)
  | [] => some []
  | item :: items => do
    let text ← if item.isNullish then some [] else toText? N item
    return text :: (← itemTexts? N items)
termination_by structural items => items

end

/-- The value can be written as JSON: it has no number but finite ones. -/
inductive Printable (N : Numbers ν) : JsData ν → Prop
  | undefined : Printable N .undefined
  | null : Printable N .null
  | bool {b : Bool} : Printable N (.bool b)
  | number {x : ν} : N.isFinite x = true → Printable N (.number x)
  | str {s : Text} : Printable N (.str s)
  | arr {items : List (JsData ν)} : (∀ v ∈ items, Printable N v) → Printable N (.arr items)
  | obj {members : List (Text × JsData ν)} : (∀ e ∈ members, Printable N e.2) → Printable N (.obj members)

/-- A JSON value: no `undefined`, the numbers finite, the keys of an object distinct. -/
inductive IsJson (N : Numbers ν) : JsData ν → Prop
  | null : IsJson N .null
  | bool {b : Bool} : IsJson N (.bool b)
  | number {x : ν} : N.isFinite x = true → IsJson N (.number x)
  | str {s : Text} : IsJson N (.str s)
  | arr {items : List (JsData ν)} : (∀ v ∈ items, IsJson N v) → IsJson N (.arr items)
  | obj {members : List (Text × JsData ν)} : (members.map Prod.fst).Nodup → (∀ e ∈ members, IsJson N e.2) →
    IsJson N (.obj members)

/-- Equal up to the order of the keys of objects. -/
inductive Same : JsData ν → JsData ν → Prop
  | undefined : Same .undefined .undefined
  | null : Same .null .null
  | bool {b : Bool} : Same (.bool b) (.bool b)
  | number {x : ν} : Same (.number x) (.number x)
  | str {s : Text} : Same (.str s) (.str s)
  | arr {as bs : List (JsData ν)} : as.length = bs.length →
    (∀ i (ha : i < as.length) (hb : i < bs.length), Same as[i] bs[i]) → Same (.arr as) (.arr bs)
  | obj {ms ns : List (Text × JsData ν)} : (∀ k, k ∈ ms.map Prod.fst ↔ k ∈ ns.map Prod.fst) →
    (∀ k a b, (k, a) ∈ ms → (k, b) ∈ ns → Same a b) → Same (.obj ms) (.obj ns)

theorem IsJson.printable {N : Numbers ν} {v : JsData ν} (h : IsJson N v) : Printable N v := by
  induction h with
  | null => exact .null
  | bool => exact .bool
  | number hx => exact .number hx
  | str => exact .str
  | arr _ ih => exact .arr ih
  | obj _ _ ih => exact .obj ih

end JsData

/-!
# `JSON.stringify`

Without indentation. A surrogate that is not one of a pair is escaped, a number that is not finite is `null`, and
what is undefined is left out of objects.
-/

namespace JsData

open JsonTree

variable {ν : Type*}

/-- `\u` and four hexadecimal digits. -/
def unicodeEscape (u : UInt16) : Text :=
  let digits := (Nat.toDigits 16 u.toNat).map unit
  ascii "\\u" ++ List.replicate (4 - digits.length) (unit '0') ++ digits

/-- One code unit that is no surrogate, between quotes. -/
def quoteUnit (u : UInt16) : Text :=
  if u = unit '"' then ascii "\\\""
  else if u = unit '\\' then ascii "\\\\"
  else if u = 0x08 then ascii "\\b"
  else if u = 0x09 then ascii "\\t"
  else if u = 0x0A then ascii "\\n"
  else if u = 0x0C then ascii "\\f"
  else if u = 0x0D then ascii "\\r"
  else if u < 0x20 then unicodeEscape u
  else [u]

def isHighSurrogate (u : UInt16) : Bool := 0xD800 ≤ u && u ≤ 0xDBFF

def isLowSurrogate (u : UInt16) : Bool := 0xDC00 ≤ u && u ≤ 0xDFFF

def quoteUnits : Text → Text
  | [] => []
  | [u] => if isHighSurrogate u || isLowSurrogate u then unicodeEscape u else quoteUnit u
  | u :: v :: rest =>
    if isHighSurrogate u then
      if isLowSurrogate v then u :: v :: quoteUnits rest else unicodeEscape u ++ quoteUnits (v :: rest)
    else if isLowSurrogate u then unicodeEscape u ++ quoteUnits (v :: rest)
    else quoteUnit u ++ quoteUnits (v :: rest)

def quoteJson (s : Text) : Text := unit '"' :: (quoteUnits s ++ [unit '"'])

mutual

/-- None where it is undefined. -/
def stringify? (N : Numbers ν) : JsData ν → Option Text
  | .undefined => none
  | .null => some (ascii "null")
  | .bool b => some (ascii (if b then "true" else "false"))
  | .number x => some (if N.isFinite x then N.toText x else ascii "null")
  | .str s => some (quoteJson s)
  | .arr items => some (unit '[' :: (join [unit ','] (stringifyItems N items) ++ [unit ']']))
  | .obj members => some (unit '\x7b' :: (join [unit ','] (stringifyMembers N members) ++ [unit '\x7d']))
termination_by structural value => value

def stringifyItems (N : Numbers ν) : List (JsData ν) → List Text
  | [] => []
  | item :: items => (stringify? N item).getD (ascii "null") :: stringifyItems N items
termination_by structural items => items

def stringifyMembers (N : Numbers ν) : List (Text × JsData ν) → List Text
  | [] => []
  | (key, value) :: members =>
    ((stringify? N value).map fun text ↦ quoteJson key ++ unit ':' :: text).toList ++ stringifyMembers N members
termination_by structural members => members

end

/-- `JSON.stringify(value)`, as a template prints it. -/
def printed (N : Numbers ν) (value : JsData ν) : Text := (stringify? N value).getD (ascii "undefined")

end JsData
