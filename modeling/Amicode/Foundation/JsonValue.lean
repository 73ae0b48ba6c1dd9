import Amicode.Foundation.JsText

/-!
# JSON values

The values a modelled program takes from `JSON.parse` or hands to `JSON.stringify`. A number is kept
as its decimal text, which is how the programs write and compare it; an object lists its members in
order, with distinct keys.
-/

inductive JsonValue where
  | null
  | bool (b : Bool)
  | num (text : String)
  | str (s : String)
  | arr (items : List JsonValue)
  | obj (members : List (String × JsonValue))

/-- The value of a member of an object; any other value has none. -/
def JsonValue.get? (value : JsonValue) (key : String) : Option JsonValue :=
  match value with
  | .obj members => (members.find? fun e ↦ e.1 = key).map Prod.snd
  | _ => none

def JsonValue.isNull : JsonValue → Bool
  | .null => true
  | _ => false

def JsonValue.str? : JsonValue → Option String
  | .str s => some s
  | _ => none

namespace JsText

/-- `Array.prototype.join`. -/
def join (sep : List Char) : List (List Char) → List Char
  | [] => []
  | [piece] => piece
  | piece :: rest => piece ++ sep ++ join sep rest

mutual

/-- `JSON.stringify`: the members of an object in their order. -/
def stringify : JsonValue → List Char
  | .null => "null".toList
  | .bool b => (if b then "true" else "false").toList
  | .num text => text.toList
  | .str s => jsonString s.toList
  | .arr items => '[' :: (join [','] (stringifyItems items) ++ [']'])
  | .obj members => '{' :: (join [','] (stringifyMembers members) ++ ['}'])

def stringifyItems : List JsonValue → List (List Char)
  | [] => []
  | item :: items => stringify item :: stringifyItems items

def stringifyMembers : List (String × JsonValue) → List (List Char)
  | [] => []
  | (key, value) :: members =>
    (jsonString key.toList ++ ':' :: stringify value) :: stringifyMembers members

end

mutual

/-- `String(value)`: an item of an array that is `null` is empty. -/
def toText : JsonValue → List Char
  | .null => "null".toList
  | .bool b => (if b then "true" else "false").toList
  | .num text => text.toList
  | .str s => s.toList
  | .arr items => join [','] (itemTexts items)
  | .obj _ => "[object Object]".toList
termination_by structural value => value

/-- The items of an array as `Array.prototype.join` writes them. -/
def itemTexts : List JsonValue → List (List Char)
  | [] => []
  | item :: items => (if item.isNull then [] else toText item) :: itemTexts items
termination_by structural items => items

end

/-- Insert an entry by its key, in the order of ECMAScript strings. -/
def insertByKey {α : Type*} (e : List Char × α) : List (List Char × α) → List (List Char × α)
  | [] => [e]
  | e' :: rest => if le e.1 e'.1 then e :: e' :: rest else e' :: insertByKey e rest

/-- The entries in the order of their keys. -/
def sortByKey {α : Type*} : List (List Char × α) → List (List Char × α)
  | [] => []
  | e :: rest => insertByKey e (sortByKey rest)

theorem perm_insertByKey {α : Type*} (e : List Char × α) (entries : List (List Char × α)) :
    (insertByKey e entries).Perm (e :: entries) := by
  induction entries with
  | nil => exact .refl _
  | cons e' rest ih =>
    rw [insertByKey]
    split
    · exact .refl _
    · exact (ih.cons e').trans (.swap e e' rest)

theorem perm_sortByKey {α : Type*} (entries : List (List Char × α)) : (sortByKey entries).Perm entries := by
  induction entries with
  | nil => exact .refl _
  | cons e rest ih => exact (perm_insertByKey e _).trans (ih.cons e)

/-! ## Reading back a string -/

/-- The value of a lower-case hexadecimal digit. -/
def hexValue (c : Char) : ℕ := "0123456789abcdef".toList.idxOf c

/-- Read one character of a JSON string literal, with what follows it. -/
def unescape : List Char → Option (Char × List Char)
  | '\\' :: 'n' :: rest => some ('\n', rest)
  | '\\' :: 'r' :: rest => some ('\r', rest)
  | '\\' :: 't' :: rest => some ('\t', rest)
  | '\\' :: 'b' :: rest => some (Char.ofNat 8, rest)
  | '\\' :: 'f' :: rest => some (Char.ofNat 12, rest)
  | '\\' :: 'u' :: '0' :: '0' :: high :: low :: rest =>
    some (Char.ofNat (16 * hexValue high + hexValue low), rest)
  | '\\' :: c :: rest => some (c, rest)
  | c :: rest => some (c, rest)
  | [] => none

private theorem hexValue_hexDigit {n : ℕ} (h : n < 0x20) :
    16 * hexValue (hexDigit (n / 16)) + hexValue (hexDigit (n % 16)) = n := by
  have hall : ∀ m : Fin 0x20,
      16 * hexValue (hexDigit (m.val / 16)) + hexValue (hexDigit (m.val % 16)) = m.val := by
    decide
  exact hall ⟨n, h⟩

/-- A character is read back from how it was written, whatever follows. -/
theorem unescape_jsonChar (c : Char) (rest : List Char) :
    unescape (jsonChar c ++ rest) = some (c, rest) := by
  have hnat {n : ℕ} (h : c.toNat = n) : Char.ofNat n = c := by rw [← h, Char.ofNat_toNat]
  unfold jsonChar
  split
  · rename_i h
    rw [h]
    rfl
  split
  · rename_i h
    rw [h]
    rfl
  split
  · rename_i h
    rw [h]
    rfl
  split
  · rename_i h
    rw [h]
    rfl
  split
  · rename_i h
    rw [h]
    rfl
  split
  · rename_i h
    exact congrArg (fun d ↦ some (d, rest)) (hnat h)
  split
  · rename_i h
    exact congrArg (fun d ↦ some (d, rest)) (hnat h)
  split
  · rename_i h
    exact congrArg (fun d ↦ some (d, rest)) (hnat (hexValue_hexDigit h).symm)
  · -- any other character stands for itself, and is no backslash
    rw [List.cons_append, List.nil_append, unescape.eq_def]
    split <;> simp_all

theorem jsonChar_append_inj {c d : Char} {x y : List Char} (h : jsonChar c ++ x = jsonChar d ++ y) :
    c = d ∧ x = y := by
  have hread := unescape_jsonChar c x
  rw [h, unescape_jsonChar] at hread
  simpa [eq_comm] using hread

private theorem jsonChar_ne_quote {c : Char} {x y : List Char} : jsonChar c ++ x ≠ '"' :: y := by
  intro h
  -- a quote is read as itself, and it is written with a backslash
  have hread := unescape_jsonChar c x
  rw [h, unescape] at hread
  · obtain ⟨rfl, rfl⟩ : '"' = c ∧ y = x := by simpa using hread
    cases h
  all_goals simp

/-- A string literal ends where its text does: two of them are the same as far as both go. -/
theorem jsonString_append_inj {a b x y : List Char} (h : jsonString a ++ x = jsonString b ++ y) :
    a = b ∧ x = y := by
  have hbody : ∀ a b : List Char, a.flatMap jsonChar ++ '"' :: x = b.flatMap jsonChar ++ '"' :: y →
      a = b ∧ x = y := by
    intro a
    induction a with
    | nil =>
      intro b hb
      cases b with
      | nil => exact ⟨rfl, (List.cons.inj hb).2⟩
      | cons d b =>
        rw [List.flatMap_cons, List.append_assoc] at hb
        exact absurd hb.symm jsonChar_ne_quote
    | cons c a ih =>
      intro b hb
      cases b with
      | nil =>
        rw [List.flatMap_cons, List.append_assoc] at hb
        exact absurd hb jsonChar_ne_quote
      | cons d b =>
        rw [List.flatMap_cons, List.flatMap_cons, List.append_assoc, List.append_assoc] at hb
        obtain ⟨rfl, hrest⟩ := jsonChar_append_inj hb
        obtain ⟨rfl, rfl⟩ := ih b hrest
        exact ⟨rfl, rfl⟩
  refine hbody a b ?_
  simpa [jsonString] using h

end JsText

/-!
# A library that reads what it writes

A parser and a printer of which it is assumed that the parser reads what the printer writes can be had for JSON
values, with a given text for a given value (`read_write`). The printer writes a code that is not the beginning of another
(`code_inj`).
-/

namespace JsonCode

/-- A text, each character behind a mark, in front of what follows it. -/
def codeText : List Char → List Char → List Char
  | [], rest => '.' :: rest
  | c :: text, rest => ',' :: c :: codeText text rest

mutual

/-- The code of a value in front of what follows it. -/
def code : JsonValue → List Char → List Char
  | .null, rest => '0' :: rest
  | .bool false, rest => '1' :: rest
  | .bool true, rest => '2' :: rest
  | .num text, rest => '3' :: codeText text.toList rest
  | .str text, rest => '4' :: codeText text.toList rest
  | .arr items, rest => '5' :: codeItems items rest
  | .obj members, rest => '6' :: codeMembers members rest
termination_by structural value => value

def codeItems : List JsonValue → List Char → List Char
  | [], rest => '.' :: rest
  | item :: items, rest => ',' :: code item (codeItems items rest)
termination_by structural items => items

def codeMembers : List (String × JsonValue) → List Char → List Char
  | [], rest => '.' :: rest
  | (key, value) :: members, rest => ',' :: codeText key.toList (code value (codeMembers members rest))
termination_by structural members => members

end

theorem codeText_inj {a b x y : List Char} (h : codeText a x = codeText b y) : a = b ∧ x = y := by
  induction a generalizing b with
  | nil =>
    rcases b with _ | ⟨d, b⟩
    · exact ⟨rfl, (List.cons.inj h).2⟩
    · exact absurd (List.cons.inj h).1 (by decide)
  | cons c a ih =>
    rcases b with _ | ⟨d, b⟩
    · exact absurd (List.cons.inj h).1 (by decide)
    · obtain ⟨rfl, hrest⟩ := List.cons.inj (List.cons.inj h).2
      obtain ⟨rfl, rfl⟩ := ih hrest
      exact ⟨rfl, rfl⟩

/-- The first character of the code tells what the value is. -/
def mark : JsonValue → Char
  | .null => '0'
  | .bool false => '1'
  | .bool true => '2'
  | .num _ => '3'
  | .str _ => '4'
  | .arr _ => '5'
  | .obj _ => '6'

theorem head?_code (value : JsonValue) (rest : List Char) : (code value rest).head? = some (mark value) := by
  cases value with
  | bool b => cases b <;> rfl
  | _ => rfl

theorem mark_eq {v w : JsonValue} {x y : List Char} (h : code v x = code w y) : mark v = mark w := by
  have hhead := congrArg List.head? h
  rw [head?_code, head?_code] at hhead
  exact Option.some.inj hhead

mutual

theorem code_inj : ∀ {v w : JsonValue} {x y : List Char}, code v x = code w y → v = w ∧ x = y
  | .null, w, x, y, h => by
    have hmark := mark_eq h
    cases w with
    | null => exact ⟨rfl, (List.cons.inj h).2⟩
    | bool b => cases b <;> simp [mark] at hmark
    | _ => simp [mark] at hmark
  | .bool a, w, x, y, h => by
    have hmark := mark_eq h
    cases w with
    | bool b =>
      cases a <;> cases b <;> first | exact ⟨rfl, (List.cons.inj h).2⟩ | simp [mark] at hmark
    | _ => cases a <;> simp [mark] at hmark
  | .num t, w, x, y, h => by
    have hmark := mark_eq h
    cases w with
    | num u =>
      obtain ⟨ht, hx⟩ := codeText_inj (List.cons.inj h).2
      exact ⟨by rw [String.toList_injective ht], hx⟩
    | bool b => cases b <;> simp [mark] at hmark
    | _ => simp [mark] at hmark
  | .str t, w, x, y, h => by
    have hmark := mark_eq h
    cases w with
    | str u =>
      obtain ⟨ht, hx⟩ := codeText_inj (List.cons.inj h).2
      exact ⟨by rw [String.toList_injective ht], hx⟩
    | bool b => cases b <;> simp [mark] at hmark
    | _ => simp [mark] at hmark
  | .arr items, w, x, y, h => by
    have hmark := mark_eq h
    cases w with
    | arr items' =>
      obtain ⟨hitems, hx⟩ := codeItems_inj (List.cons.inj h).2
      exact ⟨by rw [hitems], hx⟩
    | bool b => cases b <;> simp [mark] at hmark
    | _ => simp [mark] at hmark
  | .obj members, w, x, y, h => by
    have hmark := mark_eq h
    cases w with
    | obj members' =>
      obtain ⟨hmembers, hx⟩ := codeMembers_inj (List.cons.inj h).2
      exact ⟨by rw [hmembers], hx⟩
    | bool b => cases b <;> simp [mark] at hmark
    | _ => simp [mark] at hmark

theorem codeItems_inj : ∀ {v w : List JsonValue} {x y : List Char}, codeItems v x = codeItems w y → v = w ∧ x = y
  | [], [], _, _, h => ⟨rfl, (List.cons.inj h).2⟩
  | [], _ :: _, _, _, h => absurd (List.cons.inj h).1 (by decide)
  | _ :: _, [], _, _, h => absurd (List.cons.inj h).1 (by decide)
  | v :: vs, w :: ws, x, y, h => by
    obtain ⟨hv, hrest⟩ := code_inj (List.cons.inj h).2
    obtain ⟨hvs, hx⟩ := codeItems_inj hrest
    exact ⟨by rw [hv, hvs], hx⟩

theorem codeMembers_inj : ∀ {v w : List (String × JsonValue)} {x y : List Char},
    codeMembers v x = codeMembers w y → v = w ∧ x = y
  | [], [], _, _, h => ⟨rfl, (List.cons.inj h).2⟩
  | [], _ :: _, _, _, h => absurd (List.cons.inj h).1 (by decide)
  | _ :: _, [], _, _, h => absurd (List.cons.inj h).1 (by decide)
  | (k, v) :: vs, (l, w) :: ws, x, y, h => by
    obtain ⟨hk, hvalue⟩ := codeText_inj (List.cons.inj h).2
    obtain ⟨hv, hrest⟩ := code_inj hvalue
    obtain ⟨hvs, hx⟩ := codeMembers_inj hrest
    exact ⟨by rw [String.toList_injective hk, hv, hvs], hx⟩

end

/-! ## The library -/

section Library

open Classical

/-- The printer: the text that is given for one value, and a code of each other. -/
noncomputable def write (known : JsonValue) (text : List Char) (value : JsonValue) : List Char :=
  if value = known then text else code value []

/-- The parser: what the printer writes the text for. -/
noncomputable def read (known : JsonValue) (text written : List Char) : Except String JsonValue :=
  if h : ∃ value, write known text value = written then .ok h.choose else .error "nothing writes this"

theorem write_known (known : JsonValue) (text : List Char) : write known text known = text := if_pos rfl

variable (known : JsonValue) {text : List Char}

variable {known} in
theorem write_inj (htext : ∀ value, text.head? ≠ some (mark value)) {v w : JsonValue}
    (h : write known text v = write known text w) : v = w := by
  have hne (value : JsonValue) : text ≠ code value [] := by
    intro heq
    exact htext value (heq ▸ head?_code value [])
  unfold write at h
  split_ifs at h with hv hw hw
  · rw [hv, hw]
  · exact absurd h (hne w)
  · exact absurd h.symm (hne v)
  · exact (code_inj h).1

theorem read_write (htext : ∀ value, text.head? ≠ some (mark value)) (value : JsonValue) :
    read known text (write known text value) = .ok value := by
  have h : ∃ v, write known text v = write known text value := ⟨value, rfl⟩
  rw [read, dif_pos h, write_inj htext h.choose_spec]

end Library

end JsonCode
