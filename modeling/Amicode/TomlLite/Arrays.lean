import Amicode.TomlLite.Scalars

/-!
# How arrays are read

The reader joins the lines of an array, each trimmed, up to the first with a `]`, and then divides what it has
at the last `]`. That bracket is the one that closes the array if no comment and no bracket stands in the lines
before (`Row.Plain`) and no bracket in the comment behind it: then the strings are found (`readRows_plain`).

Otherwise the reader stops (`readRows_stuck`). The text up to the last bracket then has a `#` between two
strings, a bracket between two strings, or ends inside a string (`exists_of_tokens`), and each ends the scan.
Trimming takes nothing but blanks from the tokens of a line (`exists_trim_tokens`), or from the end of a string
that is not closed (`exists_rdropWhile_pieces`).
-/

namespace Amicode.TomlLite

open JsText List

/-! ## Trimming tokens -/

def Token.isBlank : Token → Bool
  | .blank _ _ => true
  | _ => false

/-- The tokens without the white space between them. -/
def inked (tokens : List Token) : List Token := tokens.filter (! ·.isBlank)

theorem inked_append (a b : List Token) : inked (a ++ b) = inked a ++ inked b := filter_append _ _

variable (tokens : List Token)

theorem strings_inked : strings (inked tokens) = strings tokens := by
  induction tokens with
  | nil => rfl
  | cons token tokens ih =>
    cases token with
    | blank c h => exact ih
    | comma => exact ih
    | str pieces => exact congrArg (pieces :: ·) ih

theorem mem_tokensText_inked {c : Char} (hc : isSpace c = false) (tokens : List Token) :
    c ∈ tokensText (inked tokens) ↔ c ∈ tokensText tokens := by
  induction tokens with
  | nil => rfl
  | cons token tokens ih =>
    cases token with
    | blank d h =>
      have hne : c ≠ d := by
        rintro rfl
        rw [isSpace_of_isBlank h] at hc
        cases hc
      have hcons : c ∈ tokensText (.blank d h :: tokens) ↔ c = d ∨ c ∈ tokensText tokens := mem_cons
      rw [hcons, or_iff_right hne]
      exact ih
    | comma => exact mem_append.trans ((or_congr_right ih).trans mem_append.symm)
    | str pieces => exact mem_append.trans ((or_congr_right ih).trans mem_append.symm)

/-- What stands behind tokens: nothing, or no white space first. -/
def EndsTokens (rest : List Char) : Prop := ∀ c ∈ rest.head?, isSpace c = false

theorem endsTokens_nil : EndsTokens [] := by simp [EndsTokens]

theorem endsTokens_cons {c : Char} (hc : isSpace c = false) (rest : List Char) : EndsTokens (c :: rest) := by
  rintro d hd
  rwa [← Option.some.inj hd]

theorem tokensText_append (a b : List Token) : tokensText (a ++ b) = tokensText a ++ tokensText b :=
  flatMap_append

variable {rest : List Char} {value : List Char}

theorem exists_dropWhile_tokens (h : EndsTokens rest) :
    ∃ tokens', (tokensText tokens ++ rest).dropWhile isSpace = tokensText tokens' ++ rest ∧
      inked tokens' = inked tokens := by
  induction tokens with
  | nil =>
    refine ⟨[], ?_, rfl⟩
    cases rest with
    | nil => rfl
    | cons c rest => exact dropWhile_cons_of_neg (by simp [h c rfl])
  | cons token tokens ih =>
    cases token with
    | blank c hc =>
      obtain ⟨tokens', htext, hinked⟩ := ih
      refine ⟨tokens', ?_, hinked⟩
      rw [← htext]
      exact dropWhile_cons_of_pos (isSpace_of_isBlank hc)
    | comma => exact ⟨.comma :: tokens, dropWhile_cons_of_neg (by decide), rfl⟩
    | str pieces => exact ⟨.str pieces :: tokens, dropWhile_cons_of_neg (by decide), rfl⟩

theorem exists_rdropWhile_tokens :
    ∃ tokens', (tokensText tokens).rdropWhile isSpace = tokensText tokens' ∧ inked tokens' = inked tokens := by
  induction tokens using List.reverseRecOn with
  | nil => exact ⟨[], rfl, rfl⟩
  | append_singleton tokens token ih =>
    rw [tokensText_append]
    cases token with
    | blank c hc =>
      obtain ⟨tokens', htext, hinked⟩ := ih
      refine ⟨tokens', ?_, ?_⟩
      · rw [← htext]
        exact rdropWhile_concat_pos _ _ _ (isSpace_of_isBlank hc)
      · rw [hinked, inked_append]
        exact (append_nil _).symm
    | comma =>
      refine ⟨tokens ++ [.comma], ?_, rfl⟩
      rw [tokensText_append]
      exact rdropWhile_concat_neg _ _ _ (by decide)
    | str pieces =>
      refine ⟨tokens ++ [.str pieces], ?_, rfl⟩
      have htext : tokensText tokens ++ tokensText [.str pieces]
          = (tokensText tokens ++ '"' :: piecesText pieces) ++ ['"'] := by
        simp [tokensText, Token.text, quotedText]
      rw [tokensText_append, htext]
      exact rdropWhile_concat_neg _ _ _ (by decide)

/-- Trimming takes nothing but blanks from tokens and what follows them. -/
theorem exists_trim_tokens (h : EndsTokens rest) :
    ∃ tokens', trim (tokensText tokens ++ rest) = tokensText tokens' ++ rest.rdropWhile isSpace ∧
      inked tokens' = inked tokens := by
  obtain ⟨front, hfront, hinked⟩ := exists_dropWhile_tokens tokens h
  rw [trim_eq_rdropWhile, hfront]
  cases rest with
  | nil =>
    obtain ⟨tokens', htext, hinked'⟩ := exists_rdropWhile_tokens front
    refine ⟨tokens', ?_, hinked'.trans hinked⟩
    rw [append_nil, htext, rdropWhile_nil, append_nil]
  | cons c rest =>
    refine ⟨front, ?_, hinked⟩
    rw [rdropWhile_append_cons _ (h c rfl)]
    exact congrArg _ (rdropWhile_append_cons [] (h c rfl) rest).symm

theorem exists_trim_cons {c : Char} (hc : isSpace c = false) (rest : List Char) :
    ∃ tokens', trim (tokensText tokens ++ c :: rest) = tokensText tokens' ++ c :: rest.rdropWhile isSpace ∧
      inked tokens' = inked tokens := by
  obtain ⟨tokens', htrim, hinked⟩ := exists_trim_tokens tokens (endsTokens_cons hc rest)
  exact ⟨tokens', htrim.trans (congrArg _ (rdropWhile_append_cons [] hc rest)), hinked⟩

theorem exists_rdropWhile_pieces (pieces : List Piece) :
    ∃ pieces', (piecesText pieces).rdropWhile isSpace = piecesText pieces' := by
  induction pieces using List.reverseRecOn with
  | nil => exact ⟨[], rfl⟩
  | append_singleton pieces piece ih =>
    have happend : piecesText (pieces ++ [piece]) = piecesText pieces ++ piece.text := by
      simp [piecesText]
    -- only a plain character can be white space
    have hkeep : ∀ front c, piece.text = front ++ [c] → isSpace c = false →
        (piecesText (pieces ++ [piece])).rdropWhile isSpace = piecesText (pieces ++ [piece]) := by
      intro front c htext hc
      rw [happend, htext, ← append_assoc]
      exact rdropWhile_concat_neg _ _ _ (by simp [hc])
    cases piece with
    | plain c hplain =>
      by_cases hc : isSpace c = true
      · obtain ⟨pieces', htext⟩ := ih
        refine ⟨pieces', ?_⟩
        rw [happend, ← htext]
        exact rdropWhile_concat_pos _ _ _ hc
      · exact ⟨_, hkeep [] c rfl (by simpa using hc)⟩
    | escape e => exact ⟨_, hkeep ['\\'] e.letter rfl (by cases e <;> decide)⟩
    | codePoint p =>
      obtain ⟨front, c, hdigits⟩ := p.digits.eq_nil_or_concat.resolve_left p.digits_ne_nil
      have hc : isSpace c = false := by
        have hmem : c ∈ p.digits := by rw [hdigits]; simp
        exact (plain_of_toNat (toNat_of_digit? (List.all_eq_true.mp p.hexadecimal c hmem))).1
      refine ⟨_, hkeep ('\\' :: p.letter :: front) c ?_ hc⟩
      rw [Piece.text, hdigits, concat_eq_append]
      rfl

/-! ## The last bracket -/

/-- A text without the mark in front of another is in front of the mark there. -/
theorem exists_of_append_mark {mark : Char} {u y b a : List Char} (hu : mark ∉ u) (h : u ++ y = b ++ mark :: a) :
    ∃ b', b = u ++ b' ∧ y = b' ++ mark :: a := by
  obtain ⟨b', rfl, hy⟩ | ⟨u', rfl, hmark⟩ := append_eq_append_iff.mp h
  · exact ⟨b', rfl, hy⟩
  · cases u' with
    | nil => exact ⟨[], by simp, hmark.symm⟩
    | cons c u' =>
      obtain ⟨rfl, -⟩ := List.cons.inj hmark
      exact absurd (by simp) hu

/-- In front of a bracket a string is over, or it is cut. -/
theorem exists_of_pieces (pieces : List Piece) {y b a : List Char}
    (h : piecesText pieces ++ '"' :: y = b ++ ']' :: a) :
    (∃ pieces', b = piecesText pieces') ∨
      ∃ b', b = piecesText pieces ++ '"' :: b' ∧ y = b' ++ ']' :: a := by
  induction pieces generalizing b with
  | nil =>
    have hquote : ']' ∉ ['"'] := by decide
    obtain ⟨b', rfl, hy⟩ := exists_of_append_mark (u := ['"']) hquote h
    exact .inr ⟨b', rfl, hy⟩
  | cons piece pieces ih =>
    have hcons : piecesText (piece :: pieces) = piece.text ++ piecesText pieces := rfl
    rw [hcons, append_assoc] at h
    -- behind a piece without a bracket the rest is cut, or over
    have hpass : ']' ∉ piece.text → (∃ pieces', b = piecesText pieces') ∨
        ∃ b', b = piecesText (piece :: pieces) ++ '"' :: b' ∧ y = b' ++ ']' :: a := by
      intro hnot
      obtain ⟨b', rfl, hrest⟩ := exists_of_append_mark hnot h
      obtain ⟨pieces', rfl⟩ | ⟨b'', rfl, hy⟩ := ih hrest
      · exact .inl ⟨piece :: pieces', rfl⟩
      · exact .inr ⟨b'', by rw [hcons, append_assoc], hy⟩
    cases piece with
    | plain c hc =>
      by_cases hbracket : c = ']'
      · cases b with
        | nil => exact .inl ⟨[], rfl⟩
        | cons d b =>
          obtain ⟨rfl, htail⟩ := List.cons.inj h
          obtain ⟨pieces', rfl⟩ | ⟨b', rfl, hy⟩ := ih htail
          · exact .inl ⟨.plain c hc :: pieces', rfl⟩
          · exact .inr ⟨b', rfl, hy⟩
      · exact hpass (by simpa [Piece.text] using Ne.symm hbracket)
    | escape e => exact hpass (by cases e <;> decide)
    | codePoint p =>
      refine hpass fun hmem ↦ ?_
      obtain heq | hmem := mem_cons.mp hmem
      · exact absurd heq (by decide)
      obtain heq | hmem := mem_cons.mp hmem
      · revert heq
        rw [CodePoint.letter]
        split_ifs <;> decide
      · exact absurd (List.all_eq_true.mp p.hexadecimal _ hmem) (by decide)

/-- What ends the scan of an array: a `#` between two strings, or the end of the text inside a string. -/
def IsStuck (text : List Char) : Prop :=
  ∃ tokens : List Token, (∃ rest, text = tokensText tokens ++ '#' :: rest) ∨
    ∃ pieces, text = tokensText tokens ++ '"' :: piecesText pieces

theorem IsStuck.append {text : List Char} (h : IsStuck text) (tokens : List Token) :
    IsStuck (tokensText tokens ++ text) := by
  obtain ⟨tokens', ⟨rest, rfl⟩ | ⟨pieces, rfl⟩⟩ := h
  · exact ⟨tokens ++ tokens', .inl ⟨rest, by rw [tokensText_append, append_assoc]⟩⟩
  · exact ⟨tokens ++ tokens', .inr ⟨pieces, by rw [tokensText_append, append_assoc]⟩⟩

/-- What the reader has of an array before it is closed: tokens, and from the first comment on anything. -/
def IsRest (rest : List Char) : Prop := rest = [] ∨ ∃ text, rest = '#' :: text

/-- Every bracket in an array that is not closed is inside a string or behind a `#`. -/
theorem isStuck_of_bracket (tokens : List Token) {rest body after : List Char} (hrest : IsRest rest)
    (h : tokensText tokens ++ rest = body ++ ']' :: after) : IsStuck body := by
  induction tokens generalizing body with
  | nil =>
    obtain rfl | ⟨text, rfl⟩ := hrest
    · exact absurd h.symm (by simp [tokensText])
    · have hhash : ']' ∉ ['#'] := by decide
      obtain ⟨body', rfl, -⟩ := exists_of_append_mark (u := ['#']) hhash h
      exact ⟨[], .inl ⟨body', rfl⟩⟩
  | cons token tokens ih =>
    have hcons : tokensText (token :: tokens) = token.text ++ tokensText tokens := rfl
    rw [hcons, append_assoc] at h
    have hpass : ']' ∉ token.text → IsStuck body := by
      intro hnot
      obtain ⟨body', rfl, htail⟩ := exists_of_append_mark hnot h
      have := (ih htail).append [token]
      simpa [tokensText] using this
    cases token with
    | blank c hc =>
      refine hpass fun hmem ↦ ?_
      rw [Token.text, mem_singleton] at hmem
      rw [← hmem] at hc
      exact absurd hc (by decide)
    | comma => exact hpass (by decide)
    | str pieces =>
      have hquote : ']' ∉ ['"'] := by decide
      have htext : (Token.str pieces).text ++ (tokensText tokens ++ rest)
          = ['"'] ++ (piecesText pieces ++ '"' :: (tokensText tokens ++ rest)) := by
        simp [Token.text, quotedText]
      rw [htext] at h
      obtain ⟨body', rfl, hbody⟩ := exists_of_append_mark hquote h
      obtain ⟨pieces', rfl⟩ | ⟨body'', rfl, htail⟩ := exists_of_pieces pieces hbody
      · exact ⟨[], .inr ⟨pieces', rfl⟩⟩
      · have := (ih htail).append [.str pieces]
        simpa [tokensText, Token.text, quotedText] using this

theorem stringArray_stuck {body : List Char} (h : IsStuck body) : stringArray body = none := by
  obtain ⟨tokens, ⟨rest, rfl⟩ | ⟨pieces, rfl⟩⟩ := h
  · obtain ⟨tokens', htrim, -⟩ := exists_trim_cons tokens (c := '#') (by decide) rest
    rw [stringArray, htrim]
    exact scanItems_stuck tokens' (.inl rfl) _
  · obtain ⟨tokens', htrim, -⟩ := exists_trim_cons tokens (c := '"') (by decide) (piecesText pieces)
    obtain ⟨pieces', hpieces⟩ := exists_rdropWhile_pieces pieces
    rw [stringArray, htrim, hpieces]
    exact scanItems_unterminated tokens' pieces'

variable (tokens : List Token)

/-- A bracket where the array is closed ends the scan too. -/
theorem stringArray_closed (rest : List Char) : stringArray (tokensText tokens ++ ']' :: rest) = none := by
  obtain ⟨tokens', htrim, -⟩ := exists_trim_cons tokens (c := ']') (by decide) rest
  rw [stringArray, htrim]
  exact scanItems_stuck tokens' (.inr rfl) _

theorem stringArray_tokens : stringArray (tokensText tokens) = some ((strings tokens).map (readText id)) := by
  obtain ⟨tokens', htrim, hinked⟩ := exists_trim_tokens tokens endsTokens_nil
  rw [append_nil, rdropWhile_nil] at htrim
  rw [stringArray, htrim, scanItems_tokens, ← strings_inked tokens', hinked, strings_inked]
  exact congrArg some (append_nil _)

/-! ## Closing an array -/

variable {r : Reader} {key : String}

/-- A text with the last bracket in it where the scan does not get through. -/
theorem closeArray_of_none {before after : List Char} (hafter : ']' ∉ after)
    (h : stringArray (before.drop 1) = none) :
    ∃ stop, closeArray r key (before ++ ']' :: after) = .error stop := by
  rw [closeArray, splitLast_append before hafter]
  dsimp only
  rw [h]
  split_ifs
  · exact ⟨_, rfl⟩
  · exact ⟨_, rfl⟩

theorem closeArray_stuck (hrest : IsRest rest) (h : ']' ∈ tokensText tokens ++ rest) :
    ∃ stop, closeArray r key ('[' :: (tokensText tokens ++ rest)) = .error stop := by
  obtain ⟨body, after, hbody, hafter⟩ := exists_splitLast h
  rw [hbody, ← cons_append]
  exact closeArray_of_none hafter (stringArray_stuck (isStuck_of_bracket tokens hrest hbody))

theorem closeArray_bracket (h : ']' ∈ rest) :
    ∃ stop, closeArray r key ('[' :: (tokensText tokens ++ ']' :: rest)) = .error stop := by
  obtain ⟨before, after, rfl, hafter⟩ := exists_splitLast h
  have htext : '[' :: (tokensText tokens ++ ']' :: (before ++ ']' :: after))
      = ('[' :: (tokensText tokens ++ ']' :: before)) ++ ']' :: after := by
    simp
  rw [htext]
  exact closeArray_of_none hafter (stringArray_closed tokens before)

def readArray (pieces : List (List Piece)) : TomlValue := .arr (pieces.map fun pieces ↦ .str (readText id pieces))

theorem closeArray_tokens (htail : isTail rest = true) (h : ']' ∉ rest) :
    closeArray r key ('[' :: (tokensText tokens ++ ']' :: rest))
      = assignCurrent { r with openArray := none } key (readArray (strings tokens)) := by
  have hitems : stringArray (('[' :: tokensText tokens).drop 1) = some ((strings tokens).map (readText id)) :=
    stringArray_tokens tokens
  rw [← cons_append, closeArray, splitLast_append _ h]
  dsimp only
  rw [if_neg (by simp [htail]), hitems]
  dsimp only
  rw [readArray, List.map_map]
  rfl

/-! ## Line by line -/

/-- A line of an array that does not change where the reader takes it to end. -/
def Row.Plain (row : Row) : Prop := row.comment = none ∧ ']' ∉ tokensText row.tokens

/-- The line that closes an array. -/
def lastLine (last : List Token) (tail : Tail) (newline : Newline) : List Char :=
  tokensText last ++ ']' :: tail.line newline

theorem exists_trim_row (row : Row) :
    ∃ tokens rest, trim row.line = tokensText tokens ++ rest ∧ inked tokens = inked row.tokens ∧ IsRest rest ∧
      (rest = [] ↔ row.comment = none) := by
  rw [Row.line, trim_append_space _ (isSpace_of_mem_return row.newline)]
  cases row.comment with
  | none =>
    obtain ⟨tokens, htrim, hinked⟩ := exists_trim_tokens row.tokens endsTokens_nil
    exact ⟨tokens, [], htrim, hinked, .inl rfl, by simp⟩
  | some comment =>
    obtain ⟨tokens, htrim, hinked⟩ := exists_trim_cons row.tokens (c := '#') (by decide) comment.1
    exact ⟨tokens, _, htrim, hinked, .inr ⟨_, rfl⟩, by simp⟩

theorem exists_join_row (tokens : List Token) (hrest : IsRest rest) (row : Row) :
    ∃ tokens' rest', ('[' :: (tokensText tokens ++ rest)) ++ ' ' :: trim row.line
        = '[' :: (tokensText tokens' ++ rest') ∧ IsRest rest' ∧ (rest' = [] ↔ rest = [] ∧ row.comment = none) ∧
      (rest = [] → inked tokens' = inked tokens ++ inked row.tokens) := by
  obtain rfl | ⟨text, rfl⟩ := hrest
  · obtain ⟨row', rest', htrim, hinked, hrest', hnil⟩ := exists_trim_row row
    refine ⟨tokens ++ .blank ' ' rfl :: row', rest', ?_, hrest', by simpa using hnil, fun _ ↦ ?_⟩
    · rw [htrim, tokensText_append]
      simp [tokensText, Token.text]
    · rw [inked_append, ← hinked]
      rfl
  · exact ⟨tokens, '#' :: (text ++ ' ' :: trim row.line), by simp, .inr ⟨_, rfl⟩, by simp, by simp⟩

theorem readLine_open (h : r.openArray = some (key, value)) (line : List Char) :
    readLine r line = continueArray { r with lines := r.lines + 1 } key (value ++ ' ' :: trim line) := by
  rw [readLine, h]

theorem continueArray_closed (h : ']' ∈ value) :
    continueArray r key value = closeArray r key value := if_pos h

theorem continueArray_open (h : ']' ∉ value) :
    continueArray r key value = .ok { r with openArray := some (key, value) } := if_neg h

/-- The reader goes on with an array and then reads the rest of its lines. -/
def readRows (r : Reader) (key : String) (value : List Char) (rows : List Row) (line : List Char) :
    Except Stop Reader :=
  (continueArray r key value).bind fun r ↦ (rows.map Row.line ++ [line]).foldlM readLine r

theorem notMem_open {text : List Char} (h : ']' ∉ text) : ']' ∉ '[' :: text :=
  not_mem_cons_of_ne_of_not_mem (by decide) h

theorem readRows_nil (h : ']' ∉ value) {line : List Char} (hline : ']' ∈ line) :
    readRows r key value [] line
      = closeArray ⟨r.lines + 1, r.root, r.current, some (key, value)⟩ key (value ++ ' ' :: trim line) := by
  have hmem : ']' ∈ value ++ ' ' :: trim line :=
    mem_append_right _ (mem_cons_of_mem _ ((mem_trim (by decide)).mpr hline))
  rw [readRows, continueArray_open h]
  change (List.foldlM readLine _ [line]) = _
  rw [foldlM_cons, readLine_open rfl, continueArray_closed hmem]
  exact bind_pure _

theorem readRows_cons (h : ']' ∉ value) (row : Row) (rows : List Row) (line : List Char) :
    readRows r key value (row :: rows) line
      = readRows ⟨r.lines + 1, r.root, r.current, some (key, value)⟩ key (value ++ ' ' :: trim row.line) rows line := by
  rw [readRows, continueArray_open h]
  change (List.foldlM readLine _ (row.line :: (rows.map Row.line ++ [line]))) = _
  rw [foldlM_cons, readLine_open rfl]
  rfl

theorem readRows_of_bracket (tokens : List Token) (hrest : IsRest rest)
    (h : ']' ∈ tokensText tokens ++ rest) (rows : List Row) (line : List Char) :
    ∃ stop, readRows r key ('[' :: (tokensText tokens ++ rest)) rows line = .error stop := by
  have hstuck : ∃ stop, closeArray r key ('[' :: (tokensText tokens ++ rest)) = .error stop :=
    closeArray_stuck tokens hrest h
  obtain ⟨stop, hstop⟩ := hstuck
  rw [readRows, continueArray_closed (mem_cons_of_mem _ h), hstop]
  exact ⟨stop, rfl⟩

section

variable (last : List Token) (tail : Tail) (newline : Newline)

theorem bracket_mem_lastLine : ']' ∈ lastLine last tail newline := by simp [lastLine]

theorem exists_join_lastLine (tokens : List Token) :
    ∃ tokens', ('[' :: tokensText tokens) ++ ' ' :: trim (lastLine last tail newline)
        = '[' :: (tokensText tokens' ++ ']' :: (tail.line newline).rdropWhile isSpace) ∧
      strings tokens' = strings (tokens ++ last) := by
  obtain ⟨last', htrim, hinked⟩ := exists_trim_cons last (c := ']') (by decide) (tail.line newline)
  refine ⟨tokens ++ .blank ' ' rfl :: last', ?_, ?_⟩
  · rw [lastLine, htrim, tokensText_append]
    simp [tokensText, Token.text]
  · rw [← strings_inked, inked_append, ← strings_inked (tokens ++ last), inked_append, ← hinked]
    rfl

theorem bracket_mem_tail :
    ']' ∈ (tail.line newline).rdropWhile isSpace ↔ ']' ∈ commentText tail.comment := by
  have hblank : ']' ∉ tail.space.1 := fun h ↦ absurd (isSpace_of_mem_blanks _ _ h) (by decide)
  have hreturn : ']' ∉ newline.return := by cases newline <;> decide
  rw [mem_rdropWhile (by decide), Tail.line, Tail.text, mem_append, mem_append, or_iff_left hreturn,
    or_iff_right hblank]

end

variable {last : List Token} {tail : Tail} {newline : Newline}

theorem bracket_mem_of_inked {a b : List Token} (h : inked a = inked b) :
    ']' ∈ tokensText a ↔ ']' ∈ tokensText b := by
  rw [← mem_tokensText_inked (by decide) a, h, mem_tokensText_inked (by decide)]

theorem bracket_mem_join {tokens tokens' : List Token} {row : Row}
    (h : inked tokens' = inked tokens ++ inked row.tokens) :
    ']' ∈ tokensText tokens' ↔ ']' ∈ tokensText tokens ∨ ']' ∈ tokensText row.tokens := by
  rw [← inked_append] at h
  rw [bracket_mem_of_inked h, tokensText_append, mem_append]

theorem readRows_plain (rows : List Row) (tokens : List Token) (htokens : ']' ∉ tokensText tokens)
    (hrows : ∀ row ∈ rows, row.Plain) (htail : ']' ∉ commentText tail.comment) :
    ∃ n, readRows r key ('[' :: tokensText tokens) rows (lastLine last tail newline)
      = assignCurrent { r with lines := n, openArray := none } key
          (readArray (strings (tokens ++ rows.flatMap Row.tokens ++ last))) := by
  induction rows generalizing r tokens with
  | nil =>
    obtain ⟨tokens', hjoin, hstrings⟩ := exists_join_lastLine last tail newline tokens
    refine ⟨r.lines + 1, ?_⟩
    rw [readRows_nil (notMem_open htokens) (bracket_mem_lastLine last tail newline), hjoin,
      closeArray_tokens _ (by rw [isTail_rdropWhile, isTail_tail])
        ((bracket_mem_tail tail newline).not.mpr htail), hstrings, flatMap_nil, append_nil]
  | cons row rows ih =>
    obtain ⟨hrow, hrows⟩ := forall_mem_cons.mp hrows
    obtain ⟨tokens', rest', hjoin, -, hnil, hinked⟩ := exists_join_row tokens (.inl rfl) row
    obtain rfl : rest' = [] := hnil.mpr ⟨rfl, hrow.1⟩
    rw [append_nil, append_nil] at hjoin
    have hbracket : ']' ∉ tokensText tokens' :=
      (bracket_mem_join (hinked rfl)).not.mpr (not_or.mpr ⟨htokens, hrow.2⟩)
    obtain ⟨n, hn⟩ := ih tokens' hbracket hrows
    refine ⟨n, ?_⟩
    have hstrings : strings (tokens' ++ rows.flatMap Row.tokens ++ last)
        = strings (tokens ++ (row :: rows).flatMap Row.tokens ++ last) := by
      rw [← strings_inked, append_assoc, inked_append, hinked rfl, ← inked_append, ← inked_append,
        strings_inked, flatMap_cons]
      simp only [append_assoc]
    rw [readRows_cons (notMem_open htokens), hjoin, hn, hstrings]

theorem readRows_stuck (rows : List Row) (tokens : List Token) {rest : List Char} (hrest : IsRest rest)
    (h : ¬ (rest = [] ∧ ']' ∉ tokensText tokens ∧ (∀ row ∈ rows, row.Plain) ∧ ']' ∉ commentText tail.comment)) :
    ∃ stop, readRows r key ('[' :: (tokensText tokens ++ rest)) rows (lastLine last tail newline) = .error stop := by
  induction rows generalizing r tokens rest with
  | nil =>
    by_cases hbracket : ']' ∈ tokensText tokens ++ rest
    · exact readRows_of_bracket tokens hrest hbracket [] _
    rw [readRows_nil (notMem_open hbracket) (bracket_mem_lastLine last tail newline)]
    obtain rfl | ⟨text, rfl⟩ := hrest
    · have htail : ']' ∈ commentText tail.comment := by
        by_contra htail
        exact h ⟨rfl, by simpa using hbracket, by simp, htail⟩
      obtain ⟨tokens', hjoin, -⟩ := exists_join_lastLine last tail newline tokens
      rw [append_nil, hjoin]
      exact closeArray_bracket _ ((bracket_mem_tail tail newline).mpr htail)
    · have htext : ('[' :: (tokensText tokens ++ '#' :: text)) ++ ' ' :: trim (lastLine last tail newline)
          = '[' :: (tokensText tokens ++ '#' :: (text ++ ' ' :: trim (lastLine last tail newline))) := by
        simp
      rw [htext]
      have hlast : ']' ∈ trim (lastLine last tail newline) := (mem_trim (by decide)).mpr (bracket_mem_lastLine ..)
      exact closeArray_stuck tokens (.inr ⟨_, rfl⟩) (by simp [hlast])
  | cons row rows ih =>
    by_cases hbracket : ']' ∈ tokensText tokens ++ rest
    · exact readRows_of_bracket tokens hrest hbracket _ _
    obtain ⟨tokens', rest', hjoin, hrest', hnil, hinked⟩ := exists_join_row tokens hrest row
    rw [readRows_cons (notMem_open hbracket), hjoin]
    refine ih tokens' hrest' ?_
    -- if the rest of the array were plain, this line would not be
    rintro ⟨hnil', hbracket', hrows, htail⟩
    obtain ⟨rfl, hcomment⟩ := hnil.mp hnil'
    obtain ⟨htokens, hrow⟩ := not_or.mp ((bracket_mem_join (hinked rfl)).not.mp hbracket')
    exact h ⟨rfl, htokens, forall_mem_cons.mpr ⟨⟨hcomment, hrow⟩, hrows⟩, htail⟩

/-! ## Whole arrays -/

/-- The array ends, for the reader, where it does. -/
def StringArray.Plain (array : StringArray) (tail : Tail) : Prop :=
  (∀ row ∈ array.rows, row.Plain) ∧ ']' ∉ commentText tail.comment

def StringArray.lines (array : StringArray) (tail : Tail) (newline : Newline) : List (List Char) :=
  array.rows.map Row.line ++ [lastLine array.last tail newline]

/-- The first line of an array that is not its last, without the white space at its end. -/
theorem exists_rdropWhile_row (row : Row) :
    ∃ tokens rest, row.line.rdropWhile isSpace = tokensText tokens ++ rest ∧ inked tokens = inked row.tokens ∧
      IsRest rest ∧ (rest = [] ↔ row.comment = none) := by
  rw [Row.line, rdropWhile_append_of_pos _ (isSpace_of_mem_return row.newline)]
  cases row.comment with
  | none =>
    obtain ⟨tokens, htext, hinked⟩ := exists_rdropWhile_tokens row.tokens
    exact ⟨tokens, [], by rw [commentText, append_nil, htext, append_nil], hinked, .inl rfl, by simp⟩
  | some comment =>
    exact ⟨row.tokens, '#' :: comment.1.rdropWhile isSpace, rdropWhile_append_cons _ (by decide) _, rfl, .inr ⟨_, rfl⟩,
      by simp⟩

/-- The reader at the first line of an array, and then at the others. -/
def readArrayLines (r : Reader) (key : String) (lines : List (List Char)) : Except Stop Reader :=
  (continueArray r key ('[' :: (lines.headD []).rdropWhile isSpace)).bind fun r ↦ lines.tail.foldlM readLine r

theorem readArrayLines_single (last : List Token) (tail : Tail) (newline : Newline) :
    readArrayLines r key [lastLine last tail newline]
      = closeArray r key ('[' :: (tokensText last ++ ']' :: (tail.line newline).rdropWhile isSpace)) := by
  have htext : (lastLine last tail newline).rdropWhile isSpace
      = tokensText last ++ ']' :: (tail.line newline).rdropWhile isSpace :=
    rdropWhile_append_cons _ (by decide) _
  rw [readArrayLines, headD_cons, htext, continueArray_closed (by simp), tail_cons]
  exact bind_pure (closeArray r key _)

theorem readArrayLines_cons (row : Row) (rows : List Row) (line : List Char) :
    readArrayLines r key (row.line :: (rows.map Row.line ++ [line]))
      = readRows r key ('[' :: row.line.rdropWhile isSpace) rows line := rfl

theorem readArrayLines_plain {array : StringArray} (h : array.Plain tail) :
    ∃ n, readArrayLines r key (array.lines tail newline)
      = assignCurrent { r with lines := n, openArray := none } key (readArray array.items) := by
  obtain ⟨hrows, htail⟩ := h
  rw [StringArray.lines, StringArray.items]
  cases hcases : array.rows with
  | nil =>
    refine ⟨r.lines, ?_⟩
    rw [map_nil, nil_append, readArrayLines_single,
      closeArray_tokens _ (by rw [isTail_rdropWhile, isTail_tail]) ((bracket_mem_tail tail newline).not.mpr htail)]
    rfl
  | cons row rows =>
    rw [hcases] at hrows
    obtain ⟨hrow, hrows⟩ := forall_mem_cons.mp hrows
    obtain ⟨tokens, rest, htext, hinked, -, hnil⟩ := exists_rdropWhile_row row
    obtain rfl : rest = [] := hnil.mpr hrow.1
    rw [append_nil] at htext
    have hbracket : ']' ∉ tokensText tokens := (bracket_mem_of_inked hinked).not.mpr hrow.2
    have hstrings : strings ((row :: rows).flatMap Row.tokens ++ array.last)
        = strings (tokens ++ rows.flatMap Row.tokens ++ array.last) := by
      rw [flatMap_cons, ← strings_inked, append_assoc, inked_append, ← hinked, ← inked_append,
        strings_inked, append_assoc]
    rw [map_cons, cons_append, readArrayLines_cons, htext, hstrings]
    exact readRows_plain rows tokens hbracket hrows htail

theorem readArrayLines_stuck {array : StringArray} (h : ¬ array.Plain tail) :
    ∃ stop, readArrayLines r key (array.lines tail newline) = .error stop := by
  rw [StringArray.lines]
  cases hcases : array.rows with
  | nil =>
    rw [map_nil, nil_append, readArrayLines_single]
    refine closeArray_bracket _ ((bracket_mem_tail tail newline).mpr ?_)
    by_contra htail
    exact h ⟨by simp [hcases], htail⟩
  | cons row rows =>
    obtain ⟨tokens, rest, htext, hinked, hrest, hnil⟩ := exists_rdropWhile_row row
    rw [map_cons, cons_append, readArrayLines_cons, htext]
    refine readRows_stuck rows tokens hrest ?_
    rintro ⟨hnil', hbracket, hrows, htail⟩
    refine h ⟨?_, htail⟩
    rw [hcases]
    exact forall_mem_cons.mpr ⟨⟨hnil.mp hnil', (bracket_mem_of_inked hinked).not.mp hbracket⟩, hrows⟩

end Amicode.TomlLite
