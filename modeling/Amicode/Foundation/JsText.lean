import Mathlib.Algebra.GroupWithZero.Nat
import Mathlib.Data.List.DropRight
import Mathlib.Data.List.Infix

/-!
# Text as an ECMAScript program handles it

The string operations the modelled programs use, on lists of characters: splitting (at a fixed
separator, and at line ends), trimming, decimal numerals, UTF-16 lengths and order, and JSON string
quoting. Everything is computable and structurally recursive, so that a program built from these
functions runs inside `decide`.

A text is a list of Unicode scalar values. ECMAScript strings are sequences of UTF-16 units; the
two agree on well-formed text, and where a length or an order of units is what the language
defines, the functions below count units.
-/

open List

namespace JsText

/-! ## Splitting -/

/-- Put a character in front of the first piece. -/
def consHead (c : Char) : List (List Char) → List (List Char)
  | [] => [[c]]
  | piece :: rest => (c :: piece) :: rest

/-- `String.prototype.split` with a fixed separator; the counter is what is left of a separator
already matched. -/
def splitAux (sep : List Char) : ℕ → List Char → List (List Char)
  | _, [] => [[]]
  | n + 1, _ :: rest => splitAux sep n rest
  | 0, c :: rest =>
    if sep.isPrefixOf (c :: rest) then [] :: splitAux sep (sep.length - 1) rest
    else consHead c (splitAux sep 0 rest)

/-- The pieces of a text between the occurrences of a nonempty separator. -/
def splitOn (sep text : List Char) : List (List Char) := splitAux sep 0 text

theorem splitOn_of_notMem {c : Char} {text : List Char} (h : c ∉ text) : splitOn [c] text = [text] := by
  unfold splitOn
  induction text with
  | nil => rfl
  | cons d rest ih =>
    rw [mem_cons, not_or] at h
    have hprefix : [c].isPrefixOf (d :: rest) = false := by simpa [List.isPrefixOf] using h.1
    rw [splitAux, hprefix, ih h.2]
    rfl

/-- The lines of a text, a line ending at LF or CRLF: `split(/\r?\n/)`. -/
def splitLines : List Char → List (List Char)
  | [] => [[]]
  | '\r' :: '\n' :: rest => [] :: splitLines rest
  | '\n' :: rest => [] :: splitLines rest
  | c :: rest => consHead c (splitLines rest)

/-- `String.prototype.includes`. -/
def includes (text pattern : List Char) : Bool := text.tails.any pattern.isPrefixOf

/-- What follows a prefix, if the text has it. -/
def stripPrefix? : List Char → List Char → Option (List Char)
  | [], text => some text
  | _ :: _, [] => none
  | p :: ps, c :: cs => if p = c then stripPrefix? ps cs else none

/-! ## Trimming -/

/-- The white space and line terminators `String.prototype.trim` removes. -/
def isSpace (c : Char) : Bool :=
  let n := c.toNat
  (9 ≤ n && n ≤ 13) || n == 0x20 || n == 0xA0 || n == 0x1680 || (0x2000 ≤ n && n ≤ 0x200A)
    || n == 0x2028 || n == 0x2029 || n == 0x202F || n == 0x205F || n == 0x3000 || n == 0xFEFF

/-- `String.prototype.trim`. -/
def trim (text : List Char) : List Char :=
  ((text.dropWhile isSpace).reverse.dropWhile isSpace).reverse

theorem trim_eq_self {text : List Char} (h : ∀ c ∈ text, isSpace c = false) :
    trim text = text := by
  have hdrop : ∀ l : List Char, (∀ c ∈ l, isSpace c = false) → l.dropWhile isSpace = l := by
    intro l hl
    cases l with
    | nil => rfl
    | cons c rest => rw [dropWhile_cons_of_neg (by simp [hl c mem_cons_self])]
  rw [trim, hdrop text h, hdrop text.reverse (by simpa using h), reverse_reverse]

theorem trim_concat_newline {text : List Char} (hne : text ≠ []) (h : ∀ c ∈ text, isSpace c = false) :
    trim (text ++ ['\n']) = text := by
  obtain ⟨c, rest, rfl⟩ := exists_cons_of_ne_nil hne
  have hfirst : ((c :: rest) ++ ['\n']).dropWhile isSpace = (c :: rest) ++ ['\n'] :=
    dropWhile_cons_of_neg (by simp [h c mem_cons_self])
  have hlast : ('\n' :: (c :: rest).reverse).dropWhile isSpace = (c :: rest).reverse.dropWhile isSpace := rfl
  have hkept := trim_eq_self h
  rw [trim, dropWhile_cons_of_neg (by simp [h c mem_cons_self])] at hkept
  rw [trim, hfirst, reverse_append, reverse_singleton, singleton_append, hlast, hkept]

/-- What is asked of every character of a text is decided along the text. -/
instance decidableForallMem (text : List Char) (P : Char → Prop) [DecidablePred P] : Decidable (∀ c ∈ text, P c) :=
  List.decidableBAll P text

instance decidableForallUnit (text : List UInt16) (P : UInt16 → Prop) [DecidablePred P] :
    Decidable (∀ u ∈ text, P u) :=
  List.decidableBAll P text

instance lawfulBEqText : LawfulBEq (List Char) := List.instLawfulBEq

/-! ## Decimal numerals -/

/-- An ASCII digit: the class `\d` of a regular expression. -/
def isDigit (c : Char) : Bool := '0' ≤ c && c ≤ '9'

/-- The number a nonempty run of ASCII digits denotes. -/
def decimal? (text : List Char) : Option ℕ :=
  if text ≠ [] ∧ text.all isDigit then some (Nat.ofDigitChars 10 text 0) else none

/-- The decimal numeral of a number. -/
def decimal (n : ℕ) : List Char := Nat.toDigits 10 n

theorem isDigit_of_mem_decimal {n : ℕ} {c : Char} (h : c ∈ decimal n) : isDigit c = true := by
  have hd : c.isDigit = true := Nat.isDigit_of_mem_toDigits (by omega) (by omega) h
  simpa [isDigit, Char.isDigit, Char.le_def] using hd

@[simp] theorem decimal?_decimal (n : ℕ) : decimal? (decimal n) = some n := by
  have hall : (decimal n).all isDigit = true :=
    List.all_eq_true.mpr fun _ hc ↦ isDigit_of_mem_decimal hc
  rw [decimal?, if_pos ⟨Nat.toDigits_ne_nil, hall⟩, decimal, Nat.ofDigitChars_ten_toDigits]

/-- `String.prototype.padStart` for a text of single units. -/
def padStart (width : ℕ) (fill : Char) (text : List Char) : List Char :=
  List.replicate (width - text.length) fill ++ text

theorem decimal?_padStart (width n : ℕ) : decimal? (padStart width '0' (decimal n)) = some n := by
  have hall : (padStart width '0' (decimal n)).all isDigit = true := by
    refine List.all_eq_true.mpr fun c hc ↦ ?_
    rcases mem_append.mp hc with hc | hc
    · rw [(mem_replicate.mp hc).2]
      rfl
    · exact isDigit_of_mem_decimal hc
  have hne : padStart width '0' (decimal n) ≠ [] := by simp [padStart, decimal, Nat.toDigits_ne_nil]
  rw [decimal?, if_pos ⟨hne, hall⟩, padStart, Nat.ofDigitChars_append, Nat.ofDigitChars_replicate_zero, Nat.mul_zero,
    decimal, Nat.ofDigitChars_ten_toDigits]

/-- A text is read from the front up to a mark that is not in it. -/
theorem append_cons_inj {α : Type*} {mark : α} {a b x y : List α} (ha : mark ∉ a) (hb : mark ∉ b)
    (h : a ++ mark :: x = b ++ mark :: y) : a = b ∧ x = y := by
  induction a generalizing b with
  | nil =>
    cases b with
    | nil => exact ⟨rfl, (List.cons.inj h).2⟩
    | cons c b => exact absurd (List.cons.inj h).1 fun hc ↦ hb (hc ▸ mem_cons_self)
  | cons c a ih =>
    cases b with
    | nil => exact absurd (List.cons.inj h).1 fun hc ↦ ha (hc ▸ mem_cons_self)
    | cons d b =>
      obtain ⟨rfl, htail⟩ := List.cons.inj h
      obtain ⟨rfl, rfl⟩ := ih (fun hmem ↦ ha (mem_cons_of_mem _ hmem))
        (fun hmem ↦ hb (mem_cons_of_mem _ hmem)) htail
      exact ⟨rfl, rfl⟩

/-! ## UTF-8

A decoder reads one byte at a time. What does not continue a character is replaced by `U+FFFD`, and the
byte that showed it is read again as the start of the next one. -/

/-- What the character being read still owes. -/
structure Utf8State where
  /-- The number of bytes to come. -/
  needed : ℕ
  codePoint : ℕ
  /-- The least the next byte can be. -/
  lower : ℕ
  /-- The greatest the next byte can be. -/
  upper : ℕ

/-- Between characters. -/
def Utf8State.idle : Utf8State := ⟨0, 0, 0x80, 0xBF⟩

def utf8First (b : ℕ) : Utf8State × List Char :=
  if b ≤ 0x7F then (.idle, [Char.ofNat b])
  else if 0xC2 ≤ b ∧ b ≤ 0xDF then (⟨1, b % 32, 0x80, 0xBF⟩, [])
  else if b = 0xE0 then (⟨2, b % 16, 0xA0, 0xBF⟩, [])
  else if b = 0xED then (⟨2, b % 16, 0x80, 0x9F⟩, [])
  else if 0xE1 ≤ b ∧ b ≤ 0xEF then (⟨2, b % 16, 0x80, 0xBF⟩, [])
  else if b = 0xF0 then (⟨3, b % 8, 0x90, 0xBF⟩, [])
  else if b = 0xF4 then (⟨3, b % 8, 0x80, 0x8F⟩, [])
  else if 0xF1 ≤ b ∧ b ≤ 0xF3 then (⟨3, b % 8, 0x80, 0xBF⟩, [])
  else (.idle, ['\uFFFD'])

/-- The next byte. -/
def utf8Step (s : Utf8State) (b : ℕ) : Utf8State × List Char :=
  if s.needed = 0 then utf8First b
  else if b < s.lower ∨ s.upper < b then
    let next := utf8First b
    (next.1, '\uFFFD' :: next.2)
  else if s.needed = 1 then (.idle, [Char.ofNat (s.codePoint * 64 + b % 64)])
  else (⟨s.needed - 1, s.codePoint * 64 + b % 64, 0x80, 0xBF⟩, [])

def decodeUtf8From : Utf8State → List UInt8 → List Char
  | s, [] => if s.needed = 0 then [] else ['\uFFFD']
  | s, b :: rest =>
    let next := utf8Step s b.toNat
    next.2 ++ decodeUtf8From next.1 rest

/-- `buffer.toString("utf8")`. -/
def decodeUtf8 (bytes : List UInt8) : List Char := decodeUtf8From .idle bytes

example : decodeUtf8 [0xE2, 0x82, 0xAC, 0xE2, 0x82, 0x0A] = ['€', '\uFFFD', '\n'] := by decide

/-! ## UTF-16 -/

def units (c : Char) : List ℕ :=
  let n := c.toNat
  if n < 0x10000 then [n] else [0xD800 + (n - 0x10000) / 0x400, 0xDC00 + (n - 0x10000) % 0x400]

/-- `String.prototype.length`. -/
def utf16Length (text : List Char) : ℕ := (text.map fun c ↦ (units c).length).sum

/-- The order of ECMAScript strings: lexicographic in UTF-16 units. -/
def unitsLe : List ℕ → List ℕ → Bool
  | [], _ => true
  | _ :: _, [] => false
  | a :: as, b :: bs => a < b || (a == b && unitsLe as bs)

/-- The comparison `a <= b` of two strings. -/
def le (a b : List Char) : Bool := unitsLe (a.flatMap units) (b.flatMap units)

/-! ## JSON strings -/

/-- A lower-case hexadecimal digit. -/
def hexDigit (n : ℕ) : Char := "0123456789abcdef".toList.getD n '0'

/-- One character inside a JSON string literal, as `JSON.stringify` writes it. -/
def jsonChar (c : Char) : List Char :=
  if c = '"' then ['\\', '"']
  else if c = '\\' then ['\\', '\\']
  else if c = '\n' then ['\\', 'n']
  else if c = '\r' then ['\\', 'r']
  else if c = '\t' then ['\\', 't']
  else if c.toNat = 8 then ['\\', 'b']
  else if c.toNat = 12 then ['\\', 'f']
  else if c.toNat < 0x20 then ['\\', 'u', '0', '0', hexDigit (c.toNat / 16), hexDigit (c.toNat % 16)]
  else [c]

def jsonString (text : List Char) : List Char := '"' :: (text.flatMap jsonChar ++ ['"'])

end JsText

/-!
# What trimming keeps

`trim` takes the white space from both ends of a text. From a character that is no white space on, only the end
of the text is trimmed (`trim_append_cons`), and what stands before such a character keeps its end
(`rdropWhile_append_cons`). No other character is lost (`mem_trim`).

A text is divided at the last place of a mark (`splitLast`), whatever stands before it.
-/

namespace JsText

variable {α : Type*} {p : α → Bool}

theorem dropWhile_append_cons (x : List α) {c : α} (hc : p c = false) (y : List α) :
    (x ++ c :: y).dropWhile p = x.dropWhile p ++ c :: y := by
  rw [dropWhile_append]
  split_ifs with h
  · rw [List.isEmpty_iff.mp h, dropWhile_cons_of_neg (ne_true_of_eq_false hc), nil_append]
  · rfl

theorem rdropWhile_append_cons (x : List α) {c : α} (hc : p c = false) (y : List α) :
    (x ++ c :: y).rdropWhile p = x ++ c :: y.rdropWhile p := by
  induction y using List.reverseRecOn with
  | nil => rw [rdropWhile_concat_neg p x c (by simp [hc]), rdropWhile_nil]
  | append_singleton y d ih =>
    rw [← cons_append, ← append_assoc]
    by_cases hd : p d
    · rw [rdropWhile_concat_pos p _ d hd, ih, rdropWhile_concat_pos p _ d hd]
    · rw [rdropWhile_concat_neg p _ d hd, rdropWhile_concat_neg p _ d hd, append_assoc,
        cons_append]

theorem rdropWhile_append_of_pos (x : List α) {y : List α} (hy : ∀ c ∈ y, p c = true) :
    (x ++ y).rdropWhile p = x.rdropWhile p := by
  induction y using List.reverseRecOn with
  | nil => rw [append_nil]
  | append_singleton y d ih =>
    rw [← append_assoc, rdropWhile_concat_pos p _ d (hy d (by simp)), ih]
    exact fun c hc ↦ hy c (by simp [hc])

theorem mem_rdropWhile {c : α} (hc : p c = false) {text : List α} :
    c ∈ text.rdropWhile p ↔ c ∈ text := by
  refine ⟨fun h ↦ (List.rdropWhile_prefix p text).subset h, fun h ↦ ?_⟩
  obtain ⟨x, y, rfl⟩ := List.append_of_mem h
  rw [rdropWhile_append_cons x hc]
  exact mem_append_right _ mem_cons_self

variable (text : List Char)

theorem trim_eq_rdropWhile : trim text = (text.dropWhile isSpace).rdropWhile isSpace := rfl

theorem trim_append_of_space {a : List Char} (ha : ∀ c ∈ a, isSpace c = true) (text : List Char) :
    trim (a ++ text) = trim text := by
  rw [trim_eq_rdropWhile, dropWhile_append_of_pos ha]
  rfl

theorem trim_cons {c : Char} (hc : isSpace c = false) (text : List Char) :
    trim (c :: text) = c :: text.rdropWhile isSpace := by
  rw [trim_eq_rdropWhile, dropWhile_cons_of_neg (by simp [hc])]
  exact rdropWhile_append_cons [] hc text

theorem mem_trim {c : Char} (hc : isSpace c = false) {text : List Char} : c ∈ trim text ↔ c ∈ text := by
  rw [trim_eq_rdropWhile, mem_rdropWhile hc]
  refine ⟨fun h ↦ (dropWhile_suffix _).subset h, fun h ↦ ?_⟩
  rw [← takeWhile_append_dropWhile (p := isSpace) (l := text), mem_append] at h
  exact h.resolve_left fun htake ↦ absurd (mem_takeWhile_imp htake) (by simp [hc])

/-- Trimming the end of what is trimmed at both ends changes nothing. -/
theorem trim_rdropWhile : trim (text.rdropWhile isSpace) = trim text := by
  induction text with
  | nil => rfl
  | cons c text ih =>
    by_cases hc : isSpace c = true
    · by_cases hall : ∀ d ∈ text, isSpace d = true
      · have hnil : (c :: text).rdropWhile isSpace = [] :=
          rdropWhile_eq_nil_iff.mpr (forall_mem_cons.mpr ⟨hc, hall⟩)
        have hspace : ∀ d ∈ c :: text, isSpace d = true := forall_mem_cons.mpr ⟨hc, hall⟩
        rw [hnil, ← append_nil (c :: text), trim_append_of_space hspace]
      · push Not at hall
        obtain ⟨d, hd, hne⟩ := hall
        obtain ⟨x, y, rfl⟩ := List.append_of_mem hd
        have hd' : isSpace d = false := by simpa using hne
        rw [rdropWhile_append_cons x hd'] at ih
        have hspace : ∀ e ∈ [c], isSpace e = true := by simpa using hc
        have htrim := trim_append_of_space hspace
        rw [← cons_append, rdropWhile_append_cons _ hd', cons_append, cons_append]
        exact (htrim _).trans (ih.trans (htrim _).symm)
    · have hc' : isSpace c = false := by simpa using hc
      have hcons : (c :: text).rdropWhile isSpace = c :: text.rdropWhile isSpace :=
        rdropWhile_append_cons [] hc' text
      rw [hcons, trim_cons hc', trim_cons hc', rdropWhile_idempotent]

theorem trim_trim : trim (trim text) = trim text := by
  rw [trim_eq_rdropWhile text, trim_rdropWhile, trim_eq_rdropWhile, dropWhile_idempotent]

theorem trim_append_space {b : List Char} (hb : ∀ c ∈ b, isSpace c = true) : trim (text ++ b) = trim text := by
  rw [← trim_rdropWhile, rdropWhile_append_of_pos text hb, trim_rdropWhile]

/-! ## The last place of a mark -/

/-- What stands before the last `mark` of a text, and what stands behind it. -/
def splitLast (mark : Char) (text : List Char) : Option (List Char × List Char) :=
  match text.reverse.dropWhile (· ≠ mark) with
  | [] => none
  | _ :: before => some (before.reverse, (text.reverse.takeWhile (· ≠ mark)).reverse)

theorem splitLast_append {mark : Char} (before : List Char) {after : List Char} (h : mark ∉ after) :
    splitLast mark (before ++ mark :: after) = some (before, after) := by
  have hreverse : (before ++ mark :: after).reverse = after.reverse ++ mark :: before.reverse := by simp
  have hpos : ∀ c ∈ after.reverse, decide (c ≠ mark) = true := by
    intro c hc
    rw [decide_eq_true_iff]
    rintro rfl
    exact h (mem_reverse.mp hc)
  rw [splitLast, hreverse, dropWhile_append_of_pos hpos, takeWhile_append_of_pos hpos]
  simp

theorem exists_splitLast {mark : Char} {text : List Char} (h : mark ∈ text) :
    ∃ before after, text = before ++ mark :: after ∧ mark ∉ after := by
  obtain ⟨after, before, hreverse, hnot⟩ := eq_append_cons_of_mem (mem_reverse.mpr h)
  refine ⟨before.reverse, after.reverse, ?_, fun hmem ↦ hnot (mem_reverse.mp hmem)⟩
  rw [← reverse_reverse text, hreverse]
  simp

end JsText
