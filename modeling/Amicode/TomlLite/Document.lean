import Amicode.TomlLite.Parser

/-!
# Documents and what they denote

A document in the terms of the format, without reference to how it is read: expressions on lines of their own,
with white space, comments and line ends wherever the format allows them. An expression is empty, a table
header or an assignment of a string, an integer, a boolean or an array of strings to a bare key; the strings
are basic strings with all the escapes of the format, and an array may run over lines.

Next to its text an expression has an effect on the tables made so far and on the table the header above it
names. A document denotes the tables its expressions make, in the order in which they make them
(`Document.value?`); one that defines a key twice or puts a table under a key that has another value denotes
nothing.
-/

open List

namespace Amicode.TomlLite

open JsObject

/-! ## Layout -/

/-- White space in a line. -/
def isBlank (c : Char) : Bool := c == ' ' || c == '\t'

abbrev Blanks := { text : List Char // text.all isBlank }

/-- A comment without the `#`: no control character but the tab. -/
abbrev Comment := { text : List Char // text.all fun c ↦ c == '\t' || ' ' ≤ c }

def commentText : Option Comment → List Char
  | none => []
  | some comment => '#' :: comment.1

inductive Newline where
  | lf
  | crlf

/-- What stands before the line feed. -/
def Newline.return : Newline → List Char
  | .lf => []
  | .crlf => ['\r']

def Newline.text (newline : Newline) : List Char := newline.return ++ ['\n']

/-- What may stand behind a header or a value on its line. -/
structure Tail where
  space : Blanks
  comment : Option Comment

def Tail.text (tail : Tail) : List Char := tail.space.1 ++ commentText tail.comment

/-! ## Strings -/

/-- A character of a basic string that stands for itself. -/
def isPlain (c : Char) : Bool := c == '\t' || (' ' ≤ c && c ≠ '"' && c ≠ '\\' && c.toNat ≠ 0x7F)

inductive Escape where
  | backspace
  | tab
  | newline
  | formFeed
  | return
  | quote
  | backslash
  deriving DecidableEq

/-- What stands behind the backslash. -/
def Escape.letter : Escape → Char
  | .backspace => 'b'
  | .tab => 't'
  | .newline => 'n'
  | .formFeed => 'f'
  | .return => 'r'
  | .quote => '"'
  | .backslash => '\\'

def Escape.char : Escape → Char
  | .backspace => Char.ofNat 8
  | .tab => '\t'
  | .newline => '\n'
  | .formFeed => Char.ofNat 12
  | .return => '\r'
  | .quote => '"'
  | .backslash => '\\'

def numberIn (base : ℕ) (digits : List Char) : ℕ :=
  digits.foldl (fun n c ↦ base * n + (JsNumber.digit? base c).getD 0) 0

def areDigits (base : ℕ) (digits : List Char) : Bool := digits.all fun c ↦ (JsNumber.digit? base c).isSome

structure CodePoint where
  /-- Four digits for `\u`, eight for `\U`. -/
  long : Bool
  digits : List Char
  hexadecimal : areDigits 16 digits
  length : digits.length = if long then 8 else 4
  scalar : (numberIn 16 digits).isValidChar

def CodePoint.letter (p : CodePoint) : Char := if p.long then 'U' else 'u'

def CodePoint.char (p : CodePoint) : Char := Char.ofNatAux (numberIn 16 p.digits) p.scalar

/-- A piece of a basic string. -/
inductive Piece where
  | plain (c : Char) (h : isPlain c)
  | escape (e : Escape)
  | codePoint (p : CodePoint)

def Piece.text : Piece → List Char
  | .plain c _ => [c]
  | .escape e => ['\\', e.letter]
  | .codePoint p => '\\' :: p.letter :: p.digits

def Piece.char : Piece → Char
  | .plain c _ => c
  | .escape e => e.char
  | .codePoint p => p.char

/-- The text of a basic string between its quotes. -/
def piecesText (pieces : List Piece) : List Char := pieces.flatMap Piece.text

/-- A basic string. -/
def quotedText (pieces : List Piece) : List Char := '"' :: (piecesText pieces ++ ['"'])

/-! ## Integers -/

/-- The sign a decimal integer is written with. -/
inductive Sign where
  | none
  | plus
  | minus
  deriving DecidableEq

def Sign.text : Sign → List Char
  | .none => []
  | .plus => ['+']
  | .minus => ['-']

def Sign.apply (sign : Sign) (n : ℕ) : ℤ :=
  match sign with
  | .minus => -n
  | _ => n

inductive Base where
  | hexadecimal
  | octal
  | binary

def Base.letter : Base → Char
  | .hexadecimal => 'x'
  | .octal => 'o'
  | .binary => 'b'

def Base.value : Base → ℕ
  | .hexadecimal => 16
  | .octal => 8
  | .binary => 2

/-- Digits of a base, in groups divided by underscores. -/
structure Digits (base : ℕ) where
  first : List Char
  more : List (List Char)
  wellFormed : (first :: more).all fun group ↦ group ≠ [] && areDigits base group

def Digits.text {base : ℕ} (digits : Digits base) : List Char :=
  digits.first ++ digits.more.flatMap fun group ↦ '_' :: group

def Digits.value {base : ℕ} (digits : Digits base) : ℕ := numberIn base (digits.first ++ digits.more.flatten)

/-- An integer. A decimal one has no leading zero. -/
inductive Integer where
  | decimal (sign : Sign) (digits : Digits 10) (h : digits.first.head? = some '0' → digits.text = ['0'])
  | inBase (base : Base) (digits : Digits base.value)

def Integer.text : Integer → List Char
  | .decimal sign digits _ => sign.text ++ digits.text
  | .inBase base digits => '0' :: base.letter :: digits.text

def Integer.value : Integer → ℤ
  | .decimal sign digits _ => sign.apply digits.value
  | .inBase _ digits => digits.value

/-! ## Values -/

/-- A part of an array between its brackets and in one line. -/
inductive Token where
  | blank (c : Char) (h : isBlank c)
  | comma
  | str (pieces : List Piece)

def Token.text : Token → List Char
  | .blank c _ => [c]
  | .comma => [',']
  | .str pieces => quotedText pieces

def tokensText (tokens : List Token) : List Char := tokens.flatMap Token.text

def strings (tokens : List Token) : List (List Piece) :=
  tokens.filterMap fun
    | .str pieces => some pieces
    | _ => none

/-- Strings and commas alternate, and no comma comes first. -/
def alternate : Bool → List Token → Bool
  | _, [] => true
  | first, .blank _ _ :: tokens => alternate first tokens
  | true, .str _ :: tokens => alternate false tokens
  | false, .comma :: tokens => alternate true tokens
  | _, _ => false

/-- A line of an array that does not close it. -/
structure Row where
  tokens : List Token
  comment : Option Comment
  newline : Newline

def Row.line (row : Row) : List Char := tokensText row.tokens ++ commentText row.comment ++ row.newline.return

structure StringArray where
  rows : List Row
  /-- What stands before the bracket that closes it. -/
  last : List Token
  alternate : alternate true (rows.flatMap Row.tokens ++ last)

def StringArray.text (array : StringArray) : List Char :=
  '[' :: (array.rows.flatMap fun row ↦ row.line ++ ['\n']) ++ tokensText array.last ++ [']']

def StringArray.items (array : StringArray) : List (List Piece) :=
  strings (array.rows.flatMap Row.tokens ++ array.last)

inductive Value where
  | str (pieces : List Piece)
  | int (n : Integer)
  | bool (b : Bool)
  | array (array : StringArray)

def Value.text : Value → List Char
  | .str pieces => quotedText pieces
  | .int n => n.text
  | .bool b => (if b then "true" else "false").toList
  | .array a => a.text

def Value.value : Value → TomlValue
  | .str pieces => .str (pieces.map Piece.char)
  | .int n => .num (some n.value)
  | .bool b => .bool b
  | .array a => .arr (a.items.map fun pieces ↦ .str (pieces.map Piece.char))

/-! ## Expressions -/

abbrev Key := { text : List Char // text ≠ [] ∧ text.all fun c ↦ c.isAlphanum || c == '_' || c == '-' }

def Key.name (key : Key) : String := String.ofList key.1

/-- A table header: keys with dots between them. -/
structure Header where
  opening : Blanks
  first : Key
  /-- The keys that follow, each with the white space before and behind the dot in front of it. -/
  more : List (Blanks × Blanks × Key)
  closing : Blanks

def Header.keysText (header : Header) : List Char :=
  header.first.1 ++ header.more.flatMap fun m ↦ m.1.1 ++ '.' :: (m.2.1.1 ++ m.2.2.1)

def Header.text (header : Header) : List Char :=
  '[' :: (header.opening.1 ++ header.keysText ++ header.closing.1 ++ [']'])

/-- The table that a header names. -/
def Header.path (header : Header) : List String := header.first.name :: header.more.map fun m ↦ m.2.2.name

inductive Expression where
  | empty (tail : Tail)
  | table (indent : Blanks) (header : Header) (tail : Tail)
  | assign (indent : Blanks) (key : Key) (before after : Blanks) (value : Value) (tail : Tail)

def Expression.text : Expression → List Char
  | .empty tail => tail.text
  | .table indent header tail => indent.1 ++ header.text ++ tail.text
  | .assign indent key before after value tail =>
    indent.1 ++ key.1 ++ before.1 ++ '=' :: (after.1 ++ value.text ++ tail.text)

/-- The tables with one at a path; the tables missing on the way are made. No other value can be on the way. -/
def define (members : Members) : List String → Option Members
  | [] => some members
  | part :: path =>
    match own? members part with
    | some (.table sub) => (define sub path).map fun sub ↦ assign members part (.table sub)
    | some _ => none
    | none => (define [] path).map fun sub ↦ assign members part (.table sub)

/-- What a document has so far. -/
structure Tables where
  root : Members
  /-- The table that the last header names. -/
  current : List String

/-- The table named last gets a key that it does not have. -/
def Tables.add (tables : Tables) (key : String) (value : TomlValue) : Option Tables :=
  if (own? ((tableAt? tables.root tables.current).getD []) key).isSome then none
  else some { tables with root := updateAt (JsObject.assign · key value) tables.root tables.current }

def Expression.effect (tables : Tables) : Expression → Option Tables
  | .empty _ => some tables
  | .table _ header _ => (define tables.root header.path).map fun root ↦ ⟨root, header.path⟩
  | .assign _ key _ _ value _ => tables.add key.name value.value

/-! ## Documents -/

def headerPaths (expressions : List Expression) : List (List String) :=
  expressions.filterMap fun
    | .table _ header _ => some header.path
    | _ => none

/-- Expressions on lines of their own; no two of them are headers of one table. -/
structure Document where
  lines : List (Expression × Newline)
  last : Expression
  nodup : (headerPaths (lines.map Prod.fst ++ [last])).Nodup

def Document.expressions (document : Document) : List Expression := document.lines.map Prod.fst ++ [document.last]

def Document.text (document : Document) : List Char :=
  (document.lines.flatMap fun l ↦ l.1.text ++ l.2.text) ++ document.last.text

def Document.value? (document : Document) : Option Members :=
  (document.expressions.foldlM Expression.effect ⟨[], []⟩).map Tables.root

end Amicode.TomlLite

/-!
# How strings and the items of arrays are read

A string is read piece by piece, as a scalar and as an item of an array, and the two differ in what they make of
an escape (`Piece.read`). What is read is what the string denotes exactly if every escape in it is one that the
reader knows (`readText_eq_iff`); between the quotes nothing else matters, brackets and `#` included.

The items of an array are found token by token (`scanItems_tokens`). A scan that comes upon another character
between two items (`scanItems_stuck`), or ends inside a string (`scanItems_pieces`), finds nothing.
-/

namespace Amicode.TomlLite

open JsText

/-- What is read for a piece, where `known` is what the reader has for the character behind a backslash. -/
def Piece.read (known : Char → Char) : Piece → List Char
  | .plain c _ => [c]
  | .escape e => [known e.letter]
  | .codePoint p => known p.letter :: p.digits

def readText (known : Char → Char) (pieces : List Piece) : List Char := pieces.flatMap (Piece.read known)

/-- A piece is read as what it stands for. -/
def Piece.Known (known : Char → Char) : Piece → Prop
  | .plain _ _ => True
  | .escape e => known e.letter = e.char
  | .codePoint _ => False

def scalarEscapes : List Escape := [.quote, .backslash, .newline, .tab]

/-- The escapes that a string in an array can have. -/
def itemEscapes : List Escape := [.quote, .backslash]

/-- A piece of a string without an escape, or with one of some. -/
def Piece.Within (escapes : List Escape) : Piece → Prop
  | .plain _ _ => True
  | .escape e => e ∈ escapes
  | .codePoint _ => False

theorem unescape_letter (e : Escape) : unescape e.letter = e.char ↔ e ∈ scalarEscapes := by
  cases e <;> decide

theorem id_letter (e : Escape) : id e.letter = e.char ↔ e ∈ itemEscapes := by
  cases e <;> decide

variable (piece : Piece)

theorem Piece.known_scalar_iff : piece.Known unescape ↔ piece.Within scalarEscapes := by
  cases piece with
  | escape e => exact unescape_letter e
  | _ => rfl

theorem Piece.known_item_iff : piece.Known id ↔ piece.Within itemEscapes := by
  cases piece with
  | escape e => exact id_letter e
  | _ => rfl

variable {known : Char → Char}

theorem CodePoint.digits_ne_nil (p : CodePoint) : p.digits ≠ [] := by
  have hlength := p.length
  intro hnil
  rw [hnil] at hlength
  split_ifs at hlength

theorem Piece.read_eq_iff : piece.read known = [piece.char] ↔ piece.Known known := by
  cases piece with
  | plain c h => simp [read, char, Known]
  | escape e => simp [read, char, Known]
  | codePoint p =>
    -- the digits are read as themselves, and there are some
    simp [read, Known, p.digits_ne_nil]

theorem Piece.length_read_pos (known : Char → Char) (piece : Piece) : 1 ≤ (piece.read known).length := by
  cases piece <;> simp [read]

theorem length_le_readText (known : Char → Char) (pieces : List Piece) :
    pieces.length ≤ (readText known pieces).length := by
  induction pieces with
  | nil => exact Nat.zero_le _
  | cons piece pieces ih =>
    have hpos := piece.length_read_pos known
    rw [readText, flatMap_cons, length_append, length_cons]
    have ih' : pieces.length ≤ (pieces.flatMap (Piece.read known)).length := ih
    omega

/-- A string is read as what it denotes exactly if all its pieces are. -/
theorem readText_eq_iff {pieces : List Piece} :
    readText known pieces = pieces.map Piece.char ↔ ∀ piece ∈ pieces, piece.Known known := by
  induction pieces with
  | nil => simp [readText]
  | cons piece pieces ih =>
    rw [forall_mem_cons, ← ih, ← piece.read_eq_iff, readText, flatMap_cons, map_cons,
      ← singleton_append]
    constructor
    · intro h
      -- the rest is read as no less than its length, so that nothing is left for a second character here
      have hlength := congrArg List.length h
      have hrest := length_le_readText known pieces
      have hpos := piece.length_read_pos known
      rw [readText] at hrest
      simp only [length_append, length_singleton, length_map] at hlength
      exact append_inj h (by simp only [length_singleton]; omega)
    · rintro ⟨hpiece, hrest⟩
      rw [hpiece]
      exact congrArg _ hrest

/-! ## Scalars -/

/-- A character with no meaning to a string reader. -/
def IsOrdinary (c : Char) : Prop := c ≠ '\\' ∧ c ≠ '"'

theorem isOrdinary_of_isPlain {c : Char} (h : isPlain c) : IsOrdinary c := by
  constructor <;> rintro rfl <;> exact absurd h (by decide)

theorem CodePoint.isOrdinary_digits (p : CodePoint) : ∀ c ∈ p.digits, IsOrdinary c := by
  intro c h
  have hdigit := List.all_eq_true.mp p.hexadecimal c h
  constructor <;> rintro rfl <;> exact absurd hdigit (by decide)

theorem readQuoted_quote (rest : List Char) : readQuoted '"' ('"' :: rest) = some ([], rest) := by
  cases rest with
  | nil => rfl
  | cons n rest => rw [readQuoted, if_neg (by decide), if_pos rfl]

theorem readQuoted_ordinary {c : Char} (hc : IsOrdinary c) (rest : List Char) :
    readQuoted '"' (c :: rest) = (readQuoted '"' rest).map fun r ↦ (c :: r.1, r.2) := by
  cases rest with
  | nil => exact if_neg hc.2
  | cons n rest => rw [readQuoted, if_neg fun h ↦ hc.1 h.1, if_neg hc.2]

theorem readQuoted_digits {text : List Char} (h : ∀ c ∈ text, IsOrdinary c) (rest : List Char) :
    readQuoted '"' (text ++ rest) = (readQuoted '"' rest).map fun r ↦ (text ++ r.1, r.2) := by
  induction text with
  | nil => exact Option.map_id'.symm
  | cons c text ih =>
    obtain ⟨hc, htext⟩ := forall_mem_cons.mp h
    rw [cons_append, readQuoted_ordinary hc, ih htext, Option.map_map]
    rfl

theorem readQuoted_escape (n : Char) (rest : List Char) :
    readQuoted '"' ('\\' :: n :: rest) = (readQuoted '"' rest).map fun r ↦ (unescape n :: r.1, r.2) := by
  rw [readQuoted, if_pos ⟨rfl, rfl⟩]

theorem readQuoted_piece (piece : Piece) (rest : List Char) :
    readQuoted '"' (piece.text ++ rest)
      = (readQuoted '"' rest).map fun r ↦ (piece.read unescape ++ r.1, r.2) := by
  cases piece with
  | plain c h => exact readQuoted_ordinary (isOrdinary_of_isPlain h) rest
  | escape e => exact readQuoted_escape e.letter rest
  | codePoint p =>
    have hdigits := readQuoted_digits p.isOrdinary_digits rest
    have hescape := readQuoted_escape p.letter (p.digits ++ rest)
    rw [hdigits, Option.map_map] at hescape
    exact hescape

theorem readQuoted_pieces (pieces : List Piece) (rest : List Char) :
    readQuoted '"' (piecesText pieces ++ '"' :: rest) = some (readText unescape pieces, rest) := by
  induction pieces with
  | nil => exact readQuoted_quote rest
  | cons piece pieces ih =>
    rw [piecesText, flatMap_cons, append_assoc, readQuoted_piece, ← piecesText, ih]
    rfl

/-! ## Items of arrays -/

theorem scanItems_quote (read rest : List Char) :
    scanItems (.inside '"' read) ('"' :: rest) = (scanItems .between rest).map (read :: ·) := by
  cases rest with
  | nil => rfl
  | cons n rest =>
    have hquote : ¬ ('"' = '\\' ∧ '"' = '"') := by decide
    exact (if_neg hquote).trans (if_pos rfl)

theorem scanItems_ordinary {c : Char} (hc : IsOrdinary c) (read rest : List Char) :
    scanItems (.inside '"' read) (c :: rest) = scanItems (.inside '"' (read ++ [c])) rest := by
  cases rest with
  | nil => exact if_neg hc.2
  | cons n rest => exact (if_neg fun h ↦ hc.1 h.1).trans (if_neg hc.2)

theorem scanItems_digits {text : List Char} (h : ∀ c ∈ text, IsOrdinary c) (read rest : List Char) :
    scanItems (.inside '"' read) (text ++ rest) = scanItems (.inside '"' (read ++ text)) rest := by
  induction text generalizing read with
  | nil => rw [nil_append, append_nil]
  | cons c text ih =>
    obtain ⟨hc, htext⟩ := forall_mem_cons.mp h
    rw [cons_append, scanItems_ordinary hc, ih htext, append_assoc, singleton_append]

theorem scanItems_escape (n : Char) (read rest : List Char) :
    scanItems (.inside '"' read) ('\\' :: n :: rest) = scanItems (.inside '"' (read ++ [n])) rest := by
  rw [scanItems, if_pos ⟨rfl, rfl⟩]

theorem scanItems_piece (piece : Piece) (read rest : List Char) :
    scanItems (.inside '"' read) (piece.text ++ rest)
      = scanItems (.inside '"' (read ++ piece.read id)) rest := by
  cases piece with
  | plain c h => exact scanItems_ordinary (isOrdinary_of_isPlain h) read rest
  | escape e => exact scanItems_escape e.letter read rest
  | codePoint p =>
    have hdigits := scanItems_digits p.isOrdinary_digits (read ++ [p.letter]) rest
    have hescape := scanItems_escape p.letter read (p.digits ++ rest)
    rw [hdigits, append_assoc, singleton_append] at hescape
    exact hescape

theorem scanItems_pieces (pieces : List Piece) (read rest : List Char) :
    scanItems (.inside '"' read) (piecesText pieces ++ rest)
      = scanItems (.inside '"' (read ++ readText id pieces)) rest := by
  induction pieces generalizing read with
  | nil => simp [piecesText, readText]
  | cons piece pieces ih =>
    rw [piecesText, flatMap_cons, append_assoc, scanItems_piece, ← piecesText, ih, append_assoc]
    rfl

theorem scanItems_token (token : Token) (rest : List Char) :
    scanItems .between (token.text ++ rest)
      = (scanItems .between rest).map ((strings [token]).map (readText id) ++ ·) := by
  cases token with
  | blank c h =>
    have hc : c = ' ' ∨ c = ',' ∨ c = '\t' := by
      simp only [isBlank, Bool.or_eq_true, beq_iff_eq] at h
      exact h.imp id .inr
    change scanItems .between (c :: rest) = _
    rw [scanItems, if_pos hc]
    simp [strings]
  | comma => exact Option.map_id'.symm
  | str pieces =>
    have hopen : scanItems .between ((Token.str pieces).text ++ rest)
        = scanItems (.inside '"' []) (piecesText pieces ++ '"' :: rest) := by
      rw [Token.text, quotedText, cons_append, append_assoc]
      rfl
    rw [hopen, scanItems_pieces, nil_append, scanItems_quote]
    rfl

variable (tokens : List Token)

theorem scanItems_tokens (rest : List Char) : scanItems .between (tokensText tokens ++ rest)
      = (scanItems .between rest).map ((strings tokens).map (readText id) ++ ·) := by
  induction tokens with
  | nil => simp [tokensText, strings]
  | cons token tokens ih =>
    have hstrings : strings (token :: tokens) = strings [token] ++ strings tokens := by
      rw [← singleton_append, strings, filterMap_append]
      rfl
    rw [tokensText, flatMap_cons, append_assoc, scanItems_token, ← tokensText, ih, Option.map_map,
      hstrings, map_append]
    simp [Function.comp_def, append_assoc]

theorem scanItems_stuck {c : Char} (hc : c = '#' ∨ c = ']') (rest : List Char) :
    scanItems .between (tokensText tokens ++ c :: rest) = none := by
  rw [scanItems_tokens]
  rcases hc with rfl | rfl <;> rfl

theorem scanItems_unterminated (pieces : List Piece) :
    scanItems .between (tokensText tokens ++ '"' :: piecesText pieces) = none := by
  have hinside : scanItems .between ('"' :: piecesText pieces) = none := by
    have h := scanItems_pieces pieces [] []
    rw [append_nil] at h
    exact h
  rw [scanItems_tokens, hinside, Option.map_none]

end Amicode.TomlLite
