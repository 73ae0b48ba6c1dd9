import Amicode.TomlLite.Arrays

/-!
# How expressions are read

What the reader makes of the lines of one expression, starting between two lines (`readLines_agrees`). It
depends on the tables so far, and is either other tables or that the reader stops (`Expression.read?`): at a
header with a comment behind it or with white space around a dot, at an array that it takes to end elsewhere, and
at an integer it has no form for.
-/

namespace Amicode.TomlLite

open JsText JsObject List

/-! ## What is read -/

instance : DecidablePred Row.Plain := fun row ↦
  inferInstanceAs (Decidable (row.comment = none ∧ ']' ∉ tokensText row.tokens))

instance (array : StringArray) (tail : Tail) : Decidable (array.Plain tail) :=
  inferInstanceAs (Decidable ((∀ row ∈ array.rows, row.Plain) ∧ ']' ∉ commentText tail.comment))

/-- What the reader makes of a value, if it does not stop. -/
def Value.read? (tail : Tail) : Value → Option TomlValue
  | .str pieces => some (.str (readText unescape pieces))
  | .int n => n.read?
  | .bool b => some (.bool b)
  | .array a => if a.Plain tail then some (readArray a.items) else none

/-- No white space stands around a dot. -/
def Header.Compact (header : Header) : Prop := ∀ m ∈ header.more, m.1.1 = [] ∧ m.2.1.1 = []

instance : DecidablePred Header.Compact := fun header ↦
  inferInstanceAs (Decidable (∀ m ∈ header.more, m.1.1 = [] ∧ m.2.1.1 = []))

/-- A value is stored, unless its key is the one by which a table reaches what it inherits from. -/
def Tables.store? (tables : Tables) (key : String) (value : TomlValue) : Option Tables :=
  if key = "__proto__" then
    match value with
    | .arr _ => none
    | _ => some tables
  else some { tables with root := updateAt (JsObject.assign · key value) tables.root tables.current }

/-- What the reader makes of an expression, if it does not stop. -/
def Expression.read? (tables : Tables) : Expression → Option Tables
  | .empty _ => some tables
  | .table _ header tail =>
    if tail.comment = none ∧ header.Compact then
      (walk "" .ok tables.root header.path).toOption.map fun root ↦ ⟨root, header.path⟩
    else none
  | .assign _ key _ _ value tail =>
    if (own? ((tableAt? tables.root tables.current).getD []) key.name).isSome then none
    else (value.read? tail).bind (tables.store? key.name)

def Tables.reader (tables : Tables) (lines : ℕ) : Reader := ⟨lines, tables.root, .table tables.current, none⟩

def Agrees (result : Except Stop Reader) : Option Tables → Prop
  | none => ∃ stop, result = .error stop
  | some tables => ∃ n, result = .ok (tables.reader n)

/-! ## Characters of a line -/

variable {c : Char}

/-- The bare characters of the format are those of the reader. -/
theorem isBareChar_of_isAlphanum (h : c.isAlphanum || c == '_' || c == '-') : isBareChar c = true := by
  change (((decide ('A' ≤ c ∧ c ≤ 'Z') || (decide ('a' ≤ c) && decide (c ≤ 'z')))
    || (decide ('0' ≤ c) && decide (c ≤ '9'))) || c == '_' || c == '-') = true at h
  rwa [Bool.decide_and] at h

theorem isSpace_of_isBareChar (h : isBareChar c = true) : isSpace c = false := by
  simp only [isBareChar, isDigit, Bool.or_eq_true, Bool.and_eq_true, decide_eq_true_eq, beq_iff_eq] at h
  obtain (((hc | hc) | hc) | rfl) | rfl := h
  · exact (plain_of_toNat ⟨le_trans (by decide) (toNat_of_le hc).1, le_trans (toNat_of_le hc).2 (by decide)⟩).1
  · exact (plain_of_toNat ⟨le_trans (by decide) (toNat_of_le hc).1, le_trans (toNat_of_le hc).2 (by decide)⟩).1
  · exact (plain_of_toNat ⟨le_trans (by decide) (toNat_of_le hc).1, le_trans (toNat_of_le hc).2 (by decide)⟩).1
  · decide
  · decide

theorem Key.isBareKey_text (key : Key) : isBareKey key.1 = true := by
  rw [isBareKey, Bool.and_eq_true, decide_eq_true_iff]
  exact ⟨key.2.1, List.all_eq_true.mpr fun c hc ↦ isBareChar_of_isAlphanum (List.all_eq_true.mp key.2.2 c hc)⟩

theorem Key.bareChars (key : Key) : ∀ c ∈ key.1, isBareChar c = true := fun c hc ↦
  isBareChar_of_isAlphanum (List.all_eq_true.mp key.2.2 c hc)

theorem Key.notMem (key : Key) (h : isBareChar c = false) : c ∉ key.1 := by
  intro hc
  rw [key.bareChars c hc] at h
  cases h

theorem Blanks.notMem (blanks : Blanks) (h : isBlank c = false) : c ∉ blanks.1 := by
  intro hc
  rw [List.all_eq_true.mp blanks.2 c hc] at h
  cases h

theorem lf_notMem_commentText (comment : Option Comment) : '\n' ∉ commentText comment := by
  cases comment with
  | none => exact not_mem_nil
  | some comment =>
    rw [commentText, mem_cons, not_or]
    exact ⟨by decide, fun hc ↦ absurd (List.all_eq_true.mp comment.2 _ hc) (by decide)⟩

theorem lf_notMem_return (newline : Newline) : '\n' ∉ newline.return := by cases newline <;> decide

theorem lf_notMem_tail (tail : Tail) (newline : Newline) : '\n' ∉ tail.line newline := by
  simp only [Tail.line, Tail.text, mem_append, not_or]
  exact ⟨⟨Blanks.notMem _ rfl, lf_notMem_commentText _⟩, lf_notMem_return _⟩

theorem lf_notMem_quotedText (pieces : List Piece) : '\n' ∉ quotedText pieces := by
  have hpiece : ∀ piece ∈ pieces, '\n' ∉ piece.text := by
    intro piece _
    cases piece with
    | plain c h =>
      rw [Piece.text, mem_singleton]
      rintro rfl
      exact absurd h (by decide)
    | escape e => cases e <;> decide
    | codePoint p =>
      rw [Piece.text, mem_cons, mem_cons, not_or, not_or, CodePoint.letter]
      refine ⟨by decide, by split_ifs <;> decide, fun hc ↦ ?_⟩
      exact absurd (List.all_eq_true.mp p.hexadecimal _ hc) (by decide)
  rw [quotedText, mem_cons, mem_append, not_or, not_or, piecesText, mem_flatMap]
  refine ⟨by decide, ?_, by decide⟩
  rintro ⟨piece, hmem, hc⟩
  exact hpiece piece hmem hc

theorem lf_notMem_tokensText (tokens : List Token) : '\n' ∉ tokensText tokens := by
  rw [tokensText, mem_flatMap]
  rintro ⟨token, -, hc⟩
  cases token with
  | blank c h =>
    obtain rfl := mem_singleton.mp hc
    exact absurd h (by decide)
  | comma => exact absurd hc (by decide)
  | str pieces => exact lf_notMem_quotedText pieces hc

theorem lf_notMem_row (row : Row) : '\n' ∉ row.line := by
  simp only [Row.line, mem_append, not_or]
  exact ⟨⟨lf_notMem_tokensText _, lf_notMem_commentText _⟩, lf_notMem_return _⟩

theorem lf_notMem_lastLine (last : List Token) (tail : Tail) (newline : Newline) :
    '\n' ∉ lastLine last tail newline := by
  rw [lastLine, mem_append, mem_cons, not_or, not_or]
  exact ⟨lf_notMem_tokensText _, by decide, lf_notMem_tail _ _⟩

/-! ## Empty lines and headers -/

theorem readLine_none {r : Reader} (h : r.openArray = none) (line : List Char) :
    readLine r line = statement { r with lines := r.lines + 1 } (trim line) := by
  rw [readLine, h]

variable (tables : Tables) (n : ℕ)

theorem readLine_empty (tail : Tail) (newline : Newline) :
    readLine (tables.reader n) (tail.line newline) = .ok (tables.reader (n + 1)) := by
  rw [readLine_none rfl, trim_tail]
  cases tail.comment with
  | none => rfl
  | some comment =>
    have hcons : ('#' :: comment.1).rdropWhile isSpace = '#' :: comment.1.rdropWhile isSpace :=
      rdropWhile_append_cons [] (by decide) comment.1
    rw [commentText, hcons]
    exact if_pos (.inr rfl)

theorem Header.exists_keysText (header : Header) :
    (∃ c rest, header.keysText = c :: rest ∧ isBareChar c = true) ∧
      ∃ front c, header.keysText = front ++ [c] ∧ isBareChar c = true := by
  obtain ⟨opening, first, more, closing⟩ := header
  rw [keysText]
  constructor
  · obtain ⟨c, rest, hfirst⟩ := exists_cons_of_ne_nil first.2.1
    exact ⟨c, _, by rw [hfirst]; rfl, first.bareChars c (by rw [hfirst]; exact mem_cons_self)⟩
  · have hlast : ∀ key : Key, ∃ front c, key.1 = front ++ [c] ∧ isBareChar c = true := by
      intro key
      obtain ⟨front, c, hkey⟩ := key.1.eq_nil_or_concat.resolve_left key.2.1
      rw [concat_eq_append] at hkey
      exact ⟨front, c, hkey, key.bareChars c (by rw [hkey]; simp)⟩
    obtain rfl | ⟨more', m, rfl⟩ := more.eq_nil_or_concat
    · obtain ⟨front, c, hkey, hc⟩ := hlast first
      exact ⟨front, c, by rw [hkey]; simp, hc⟩
    · obtain ⟨front, c, hkey, hc⟩ := hlast m.2.2
      refine ⟨first.1 ++ (more'.flatMap fun m ↦ m.1.1 ++ '.' :: (m.2.1.1 ++ m.2.2.1))
        ++ (m.1.1 ++ '.' :: (m.2.1.1 ++ front)), c, ?_, hc⟩
      rw [concat_eq_append, flatMap_append, flatMap_singleton, hkey]
      simp

/-- What stands between the brackets of a header. -/
def Header.inside (header : Header) : List Char := header.opening.1 ++ header.keysText ++ header.closing.1

theorem trim_inside (header : Header) : trim header.inside = header.keysText := by
  obtain ⟨⟨c, rest, hcons, hc⟩, front, d, hconcat, hd⟩ := header.exists_keysText
  rw [Header.inside, append_assoc, trim_append_of_space (isSpace_of_mem_blanks _),
    trim_append_space _ (isSpace_of_mem_blanks _), hcons, trim_cons (isSpace_of_isBareChar hc)]
  have hlast : (c :: rest).rdropWhile isSpace = c :: rest := by
    rw [← hcons, hconcat]
    exact rdropWhile_concat_neg _ _ _ (by simp [isSpace_of_isBareChar hd])
  rwa [show (c :: rest).rdropWhile isSpace = c :: rest.rdropWhile isSpace from
    rdropWhile_append_cons [] (isSpace_of_isBareChar hc) rest] at hlast

theorem mem_of_mem_intercalate {sep : List Char} {pieces : List (List Char)}
    (h : c ∈ sep.intercalate pieces) : c ∈ sep ∨ ∃ piece ∈ pieces, c ∈ piece := by
  induction pieces with
  | nil => cases h
  | cons piece pieces ih =>
    by_cases hnil : pieces = []
    · rw [hnil, intercalate_singleton] at h
      exact .inr ⟨piece, mem_cons_self, h⟩
    · rw [intercalate_cons_of_ne_nil hnil, mem_append, mem_append] at h
      obtain (h | h) | h := h
      · exact .inr ⟨piece, mem_cons_self, h⟩
      · exact .inl h
      · refine (ih h).imp id ?_
        rintro ⟨p, hp, hc⟩
        exact ⟨p, mem_cons_of_mem _ hp, hc⟩

theorem any_not_isBareKey {text : List Char} (hmem : c ∈ text) (hdot : c ≠ '.')
    (hc : isBareChar c = false) : (text.splitOn '.').any (¬ isBareKey ·) = true := by
  have hjoin : ['.'].intercalate (text.splitOn '.') = text := List.intercalate_splitOn '.'
  rw [← hjoin] at hmem
  obtain hsep | ⟨part, hpart, hmem⟩ := mem_of_mem_intercalate hmem
  · exact absurd (mem_singleton.mp hsep) hdot
  refine List.any_eq_true.mpr ⟨part, hpart, decide_eq_true fun hkey ↦ ?_⟩
  rw [isBareKey, Bool.and_eq_true] at hkey
  rw [List.all_eq_true.mp hkey.2 c hmem] at hc
  cases hc

theorem splitOn_keysText (header : Header) (h : header.Compact) :
    header.keysText.splitOn '.' = header.first.1 :: header.more.map fun m ↦ m.2.2.1 := by
  obtain ⟨opening, first, more, closing⟩ := header
  induction more generalizing first with
  | nil =>
    rw [Header.keysText, flatMap_nil, append_nil]
    exact splitOn_eq_singleton (first.notMem (by decide))
  | cons m more ih =>
    obtain ⟨⟨hbefore, hbehind⟩, hmore⟩ := forall_mem_cons.mp h
    have htail := ih m.2.2 hmore
    rw [Header.keysText] at htail ⊢
    rw [flatMap_cons, hbefore, hbehind]
    exact (splitOn_append_cons_self_of_not_mem (first.notMem (by decide)) _).trans (congrArg _ htail)

variable {header : Header}

theorem exists_blank_of_not_compact (h : ¬ header.Compact) : ∃ c ∈ header.keysText, isBlank c = true := by
  rw [Header.Compact] at h
  push Not at h
  obtain ⟨m, hm, hne⟩ := h
  have hmem : ∀ c ∈ m.1.1 ++ '.' :: (m.2.1.1 ++ m.2.2.1), c ∈ header.keysText := fun c hc ↦
    mem_append_right _ (mem_flatMap.mpr ⟨m, hm, hc⟩)
  by_cases hbefore : m.1.1 = []
  · obtain ⟨c, rest, hcons⟩ := exists_cons_of_ne_nil (hne hbefore)
    exact ⟨c, hmem c (by simp [hcons]), List.all_eq_true.mp m.2.1.2 c (by rw [hcons]; exact mem_cons_self)⟩
  · obtain ⟨c, rest, hcons⟩ := exists_cons_of_ne_nil hbefore
    exact ⟨c, hmem c (by simp [hcons]), List.all_eq_true.mp m.1.2 c (by rw [hcons]; exact mem_cons_self)⟩

theorem toOption_map {ε α β : Type*} (x : Except ε α) (f : α → β) : (x.map f).toOption = x.toOption.map f := by
  cases x <;> rfl

theorem walk_toOption (c d : String) (members : Members) (path : List String) :
    (walk c .ok members path).toOption = (walk d .ok members path).toOption := by
  induction path generalizing members with
  | nil => rfl
  | cons part path ih =>
    rw [walk, walk]
    split
    · rw [toOption_map, toOption_map, ih]
    · rfl
    · split_ifs
      · rfl
      · rfl
      · rw [toOption_map, toOption_map, ih]

variable (r : Reader)

/-- The reader at a header and what stands behind it, trimmed. -/
theorem statement_header (header : Header) (behind : List Char) :
    statement r ('[' :: (header.inside ++ ']' :: behind)) = tableHeader r ('[' :: (header.inside ++ ']' :: behind)) := by
  obtain ⟨⟨c, rest, hkeys, hc⟩, -⟩ := header.exists_keysText
  -- the first character behind the bracket is a blank or a bare one
  have hdouble : ¬ ['[', '['].isPrefixOf ('[' :: (header.inside ++ ']' :: behind)) = true := by
    rw [Header.inside]
    cases hopening : header.opening.1 with
    | nil =>
      have hne : c ≠ '[' := by
        rintro rfl
        exact absurd hc (by decide)
      simpa [hkeys, List.isPrefixOf] using hne.symm
    | cons d opening =>
      have hne : d ≠ '[' := by
        rintro rfl
        have hblank : '[' ∉ header.opening.1 := Blanks.notMem header.opening (by decide)
        exact hblank (by rw [hopening]; exact mem_cons_self)
      simpa [List.isPrefixOf] using hne.symm
  rw [statement, if_neg (by simp [List.isPrefixOf]), if_neg hdouble, if_pos (by simp [List.isPrefixOf])]

theorem tableHeader_of_any {r : Reader} {line : List Char} (hmem : c ∈ (line.drop 1).dropLast)
    (hspace : isSpace c = false) (hdot : c ≠ '.') (hc : isBareChar c = false) :
    ∃ stop, tableHeader r line = .error stop := by
  have hany := any_not_isBareKey ((mem_trim hspace).mpr hmem) hdot hc
  rw [tableHeader]
  dsimp only
  split_ifs
  · exact ⟨_, rfl⟩
  · exact ⟨_, rfl⟩

theorem tableHeader_comment (front behind : List Char) :
    ∃ stop, tableHeader r ('[' :: (front ++ '#' :: behind)) = .error stop := by
  obtain rfl | ⟨rest, c, rfl⟩ := behind.eq_nil_or_concat
  · have hsuffix : [']'].isSuffixOf ('[' :: (front ++ ['#'])) = false := by
      rw [← cons_append]
      simp [List.isSuffixOf, List.isPrefixOf]
    rw [tableHeader, hsuffix]
    exact ⟨_, rfl⟩
  · have hinner : (('[' :: (front ++ '#' :: rest.concat c)).drop 1).dropLast = front ++ '#' :: rest := by
      rw [drop_one, tail_cons, concat_eq_append, ← cons_append, ← append_assoc,
        dropLast_concat]
    have hmem : '#' ∈ (('[' :: (front ++ '#' :: rest.concat c)).drop 1).dropLast := by
      rw [hinner]
      simp
    exact tableHeader_of_any hmem (by decide) (by decide) (by decide)

theorem closed_header (header : Header) :
    [']'].isSuffixOf ('[' :: (header.inside ++ [']'])) = true ∧
      (('[' :: (header.inside ++ [']'])).drop 1).dropLast = header.inside := by
  refine ⟨?_, ?_⟩
  · rw [isSuffixOf_iff_suffix]
    exact ⟨'[' :: header.inside, rfl⟩
  · rw [drop_one, tail_cons, dropLast_concat]

theorem tableHeader_compact (h : header.Compact) : tableHeader r ('[' :: (header.inside ++ [']']))
      = (walk (errorAt r.lines "table path conflicts with value") .ok r.root header.path).map
          fun root ↦ { r with root := root, current := .table header.path } := by
  obtain ⟨hsuffix, hinside⟩ := closed_header header
  have hkeys : ¬ (header.keysText.splitOn '.').any (¬ isBareKey ·) = true := by
    rw [splitOn_keysText header h]
    simp [Key.isBareKey_text]
  have hpath : (header.keysText.splitOn '.').map String.ofList = header.path := by
    rw [splitOn_keysText header h, Header.path, map_cons, List.map_map]
    rfl
  rw [tableHeader, if_neg (not_not_intro hsuffix), hinside, trim_inside]
  rw [if_neg hkeys, hpath]

theorem tableHeader_not_compact (h : ¬ header.Compact) :
    ∃ stop, tableHeader r ('[' :: (header.inside ++ [']'])) = .error stop := by
  obtain ⟨hsuffix, hinside⟩ := closed_header header
  obtain ⟨c, hmem, hblank⟩ := exists_blank_of_not_compact h
  have hc : c ≠ '.' ∧ isBareChar c = false := by
    simp only [isBlank, Bool.or_eq_true, beq_iff_eq] at hblank
    obtain rfl | rfl := hblank <;> decide
  rw [tableHeader, if_neg (not_not_intro hsuffix), hinside, trim_inside]
  rw [if_pos (any_not_isBareKey hmem hc.1 hc.2)]
  exact ⟨_, rfl⟩

variable (indent : Blanks)

/-- A header is read as the walk to its table, if nothing stands behind it and around its dots. -/
theorem readLine_table (header : Header) (tail : Tail) (newline : Newline) :
    Agrees (readLine (tables.reader n) (indent.1 ++ header.text ++ tail.line newline))
      ((Expression.table indent header tail).read? tables) := by
  have htrim : trim (indent.1 ++ header.text ++ tail.line newline)
      = '[' :: (header.inside ++ ']' :: (tail.line newline).rdropWhile isSpace) := by
    have htext : header.text ++ tail.line newline = '[' :: (header.inside ++ ']' :: tail.line newline) := by
      simp [Header.text, Header.inside]
    rw [append_assoc, trim_append_of_space (isSpace_of_mem_blanks indent), htext, trim_cons (by decide),
      rdropWhile_append_cons _ (by decide)]
  rw [readLine_none rfl, htrim, statement_header, Expression.read?]
  cases hcomment : tail.comment with
  | some comment =>
    have hend : (tail.line newline).rdropWhile isSpace
        = tail.space.1 ++ '#' :: comment.1.rdropWhile isSpace := by
      rw [Tail.line, rdropWhile_append_of_pos _ (isSpace_of_mem_return newline), Tail.text, hcomment, commentText,
        rdropWhile_append_cons _ (by decide)]
    have hsplit : header.inside ++ ']' :: (tail.space.1 ++ '#' :: comment.1.rdropWhile isSpace)
        = (header.inside ++ ']' :: tail.space.1) ++ '#' :: comment.1.rdropWhile isSpace := by
      simp
    rw [if_neg (by simp), hend, hsplit]
    exact tableHeader_comment _ _ _
  | none =>
    have hend : (tail.line newline).rdropWhile isSpace = [] := by
      rw [rdropWhile_eq_nil_iff, Tail.line, Tail.text, hcomment, commentText, append_nil]
      exact forall_mem_append.mpr ⟨isSpace_of_mem_blanks _, isSpace_of_mem_return _⟩
    rw [hend]
    by_cases hcompact : header.Compact
    · rw [if_pos ⟨rfl, hcompact⟩, tableHeader_compact _ hcompact,
        walk_toOption "" (errorAt (n + 1) "table path conflicts with value")]
      change Agrees ((walk (errorAt (n + 1) _) .ok tables.root header.path).map _) _
      cases walk (errorAt (n + 1) "table path conflicts with value") .ok tables.root header.path with
      | error stop => exact ⟨stop, rfl⟩
      | ok root => exact ⟨n + 1, rfl⟩
    · rw [if_neg fun h ↦ hcompact h.2]
      exact tableHeader_not_compact _ hcompact

/-! ## Assignments -/

theorem assignCurrent_agrees (key : String) (value : TomlValue) :
    Agrees (assignCurrent (tables.reader n) key value) (tables.store? key value) := by
  unfold assignCurrent Tables.store?
  split_ifs
  · cases value with
    | arr items => exact ⟨_, rfl⟩
    | _ => exact ⟨n, rfl⟩
  · exact ⟨n, rfl⟩

theorem readLine_assign (key : Key) (before : Blanks) (rest : List Char) :
    readLine (tables.reader n) (indent.1 ++ key.1 ++ before.1 ++ '=' :: rest)
      = if (own? ((tableAt? tables.root tables.current).getD []) key.name).isSome then
          .error (.error (errorAt (n + 1) ("duplicate key " ++ key.name)))
        else if ['['].isPrefixOf (trim rest) then continueArray (tables.reader (n + 1)) key.name (trim rest)
        else match scalar (trim rest) with
          | none => .error (.error (errorAt (n + 1) ("bad value for " ++ key.name)))
          | some v => assignCurrent (tables.reader (n + 1)) key.name v := by
  obtain ⟨c, name, hkey⟩ := exists_cons_of_ne_nil key.2.1
  have hc : isBareChar c = true := key.bareChars c (by rw [hkey]; exact mem_cons_self)
  have htrim : trim (indent.1 ++ key.1 ++ before.1 ++ '=' :: rest)
      = key.1 ++ before.1 ++ '=' :: rest.rdropWhile isSpace := by
    rw [append_assoc, append_assoc, trim_append_of_space (isSpace_of_mem_blanks indent), hkey,
      cons_append, trim_cons (isSpace_of_isBareChar hc), ← append_assoc,
      rdropWhile_append_cons _ (by decide)]
    rfl
  have hstatement : ∀ r, statement r (key.1 ++ before.1 ++ '=' :: rest.rdropWhile isSpace)
      = assignment r (key.1 ++ before.1 ++ '=' :: rest.rdropWhile isSpace) := by
    intro r
    have hhash : c ≠ '#' := by rintro rfl; exact absurd hc (by decide)
    have hbracket : c ≠ '[' := by rintro rfl; exact absurd hc (by decide)
    rw [statement, hkey]
    rw [if_neg (by simp [List.isPrefixOf, hhash.symm]), if_neg (by simp [List.isPrefixOf, hbracket.symm]),
      if_neg (by simp [List.isPrefixOf, hbracket.symm])]
  have hbefore : ∀ d ∈ key.1 ++ before.1, decide (d ≠ '=') = true := by
    intro d hd
    rw [decide_eq_true_iff]
    rintro rfl
    exact (mem_append.mp hd).elim (key.notMem (by decide)) (Blanks.notMem before (by decide))
  have hname : trim (key.1 ++ before.1) = key.1 := by
    rw [trim_append_space _ (isSpace_of_mem_blanks before)]
    exact trim_eq_self fun d hd ↦ isSpace_of_isBareChar (key.bareChars d hd)
  rw [readLine_none rfl, htrim, hstatement, assignment, dropWhile_append_of_pos hbefore,
    takeWhile_append_of_pos hbefore, dropWhile_cons_of_neg (by simp),
    takeWhile_cons_of_neg (by simp), append_nil]
  dsimp only
  rw [hname, if_neg (not_not_intro key.isBareKey_text), trim_rdropWhile]
  rfl

theorem readLine_scalar (key : Key) (before after : Blanks)
    {text rest : List Char} (htext : text = c :: rest) (hspace : isSpace c = false)
    (hc : c ≠ '[') (tail : Tail) (newline : Newline) {read : Option TomlValue}
    (hread : scalar (text ++ tail.line newline) = read) : Agrees (readLine (tables.reader n)
        (indent.1 ++ key.1 ++ before.1 ++ '=' :: (after.1 ++ text ++ tail.line newline)))
      (if (own? ((tableAt? tables.root tables.current).getD []) key.name).isSome then none
        else read.bind (tables.store? key.name)) := by
  have htrim : trim (after.1 ++ text ++ tail.line newline) = trim (text ++ tail.line newline) := by
    rw [append_assoc, trim_append_of_space (isSpace_of_mem_blanks after)]
  have hbracket : ¬ ['['].isPrefixOf (trim (text ++ tail.line newline)) = true := by
    rw [htext, cons_append, trim_cons hspace]
    simpa [List.isPrefixOf] using hc.symm
  rw [readLine_assign, htrim, if_neg hbracket, scalar_trim, hread]
  split_ifs
  · exact ⟨_, rfl⟩
  · cases read with
    | none => exact ⟨_, rfl⟩
    | some v => exact assignCurrent_agrees tables (n + 1) key.name v

theorem digit?_ne_bracket {base : ℕ} (h : (JsNumber.digit? base c).isSome) : c ≠ '[' := by
  rintro rfl
  have hnone : JsNumber.digit? base '[' = none := if_neg (lt_irrefl base)
  rw [hnone] at h
  cases h

theorem Integer.exists_text (n : Integer) : ∃ c rest, n.text = c :: rest ∧ isSpace c = false ∧ c ≠ '[' := by
  obtain ⟨c, rest, hcons⟩ := exists_cons_of_ne_nil n.isBare.ne_nil
  refine ⟨c, rest, hcons, (n.isBare.plain c (by rw [hcons]; exact mem_cons_self)).1, ?_⟩
  cases n with
  | inBase base digits =>
    obtain ⟨rfl, -⟩ := List.cons.inj hcons
    decide
  | decimal sign digits h =>
    obtain ⟨d, first, hfirst⟩ := exists_cons_of_ne_nil digits.first_ne_nil
    rw [text, Digits.text, hfirst] at hcons
    cases sign with
    | plus =>
      obtain ⟨rfl, -⟩ := List.cons.inj hcons
      decide
    | minus =>
      obtain ⟨rfl, -⟩ := List.cons.inj hcons
      decide
    | none =>
      obtain ⟨rfl, -⟩ := List.cons.inj hcons
      exact digit?_ne_bracket (List.all_eq_true.mp digits.areDigits_first d (by rw [hfirst]; exact mem_cons_self))

theorem splitOn_rows {front : List Char} (hfront : '\n' ∉ front) (rows : List Row) {line : List Char}
    (hline : '\n' ∉ line) :
    (front ++ (rows.flatMap (fun row ↦ row.line ++ ['\n']) ++ line)).splitOn '\n'
      = (front ++ (rows.map Row.line ++ [line]).headD []) :: (rows.map Row.line ++ [line]).tail := by
  induction rows generalizing front with
  | nil => exact splitOn_eq_singleton (by simp [hfront, hline])
  | cons row rows ih =>
    have hrow : '\n' ∉ front ++ row.line := by
      rw [mem_append, not_or]
      exact ⟨hfront, lf_notMem_row row⟩
    have htext : front ++ ((row :: rows).flatMap (fun row ↦ row.line ++ ['\n']) ++ line)
        = (front ++ row.line) ++ '\n' :: (rows.flatMap (fun row ↦ row.line ++ ['\n']) ++ line) := by
      simp
    have hnil : '\n' ∉ ([] : List Char) := not_mem_nil
    have hrest := ih hnil
    rw [nil_append, nil_append] at hrest
    rw [htext, splitOn_append_cons_self_of_not_mem hrow, hrest]
    cases rows <;> rfl

theorem readLines_array (key : Key) (before after : Blanks)
    (array : StringArray) (tail : Tail) (newline : Newline) :
    Agrees ((((indent.1 ++ key.1 ++ before.1 ++ '=' :: (after.1 ++ array.text ++ tail.line newline)).splitOn
        '\n').foldlM readLine (tables.reader n)))
      ((Expression.assign indent key before after (.array array) tail).read? tables) := by
  have hfront : '\n' ∉ indent.1 ++ key.1 ++ before.1 ++ '=' :: (after.1 ++ ['[']) := by
    simp only [mem_append, mem_cons, not_mem_nil, not_or, or_false]
    exact ⟨⟨⟨Blanks.notMem _ rfl, key.notMem (by decide)⟩, Blanks.notMem _ rfl⟩, by decide, Blanks.notMem _ rfl,
      by decide⟩
  have htext : indent.1 ++ key.1 ++ before.1 ++ '=' :: (after.1 ++ array.text ++ tail.line newline)
      = (indent.1 ++ key.1 ++ before.1 ++ '=' :: (after.1 ++ ['[']))
        ++ (array.rows.flatMap (fun row ↦ row.line ++ ['\n']) ++ lastLine array.last tail newline) := by
    simp [StringArray.text, lastLine]
  have hfirst : ∀ line, indent.1 ++ key.1 ++ before.1 ++ '=' :: (after.1 ++ ['[']) ++ line
      = indent.1 ++ key.1 ++ before.1 ++ '=' :: (after.1 ++ '[' :: line) := by
    intro line
    simp
  have htrim : ∀ line, trim (after.1 ++ '[' :: line) = '[' :: line.rdropWhile isSpace := by
    intro line
    rw [trim_append_of_space (isSpace_of_mem_blanks after), trim_cons (by decide)]
  have hbracket : ∀ line, ['['].isPrefixOf ('[' :: line) = true := by simp [List.isPrefixOf]
  rw [htext, splitOn_rows hfront _ (lf_notMem_lastLine _ _ _), ← StringArray.lines, foldlM_cons, hfirst,
    readLine_assign, htrim, if_pos (hbracket _), Expression.read?]
  split_ifs with hdup
  · exact ⟨_, rfl⟩
  change Agrees (readArrayLines (tables.reader (n + 1)) key.name (array.lines tail newline)) _
  rw [Value.read?]
  split_ifs with hplain
  · have hread : ∃ m, readArrayLines (tables.reader (n + 1)) key.name (array.lines tail newline)
        = assignCurrent (tables.reader m) key.name (readArray array.items) := readArrayLines_plain hplain
    obtain ⟨m, hm⟩ := hread
    rw [hm]
    exact assignCurrent_agrees tables m key.name (readArray array.items)
  · exact readArrayLines_stuck hplain

/-! ## Expressions -/

theorem lf_notMem_bare {text : List Char} (h : IsBare text) : '\n' ∉ text := fun hmem ↦
  absurd (h.plain _ hmem).1 (by decide)

theorem readLines_agrees (expression : Expression) (newline : Newline) (tables : Tables) (n : ℕ) :
    Agrees (((expression.text ++ newline.return).splitOn '\n').foldlM readLine (tables.reader n))
      (expression.read? tables) := by
  have hsingle : ∀ line, '\n' ∉ line →
      (line.splitOn '\n').foldlM readLine (tables.reader n) = readLine (tables.reader n) line := by
    intro line hline
    rw [splitOn_eq_singleton hline, foldlM_cons]
    exact bind_pure (readLine (tables.reader n) line)
  cases expression with
  | empty tail =>
    rw [Expression.text, ← Tail.line, hsingle _ (lf_notMem_tail tail newline), readLine_empty]
    exact ⟨n + 1, rfl⟩
  | table indent header tail =>
    have htext : (Expression.table indent header tail).text ++ newline.return
        = indent.1 ++ header.text ++ tail.line newline := by
      rw [Expression.text, Tail.line, append_assoc]
    have hkeys : '\n' ∉ header.keysText := by
      rw [Header.keysText, mem_append, mem_flatMap, not_or]
      refine ⟨header.first.notMem (by decide), ?_⟩
      rintro ⟨m, -, hc⟩
      simp only [mem_append, mem_cons] at hc
      obtain hc | hc | hc | hc := hc
      · exact Blanks.notMem m.1 rfl hc
      · exact absurd hc (by decide)
      · exact Blanks.notMem m.2.1 rfl hc
      · exact m.2.2.notMem (by decide) hc
    have hline : '\n' ∉ indent.1 ++ header.text ++ tail.line newline := by
      simp only [Header.text, mem_append, mem_cons, not_mem_nil, or_false, not_or]
      exact ⟨⟨Blanks.notMem _ rfl, by decide, ⟨⟨Blanks.notMem _ rfl, hkeys⟩, Blanks.notMem _ rfl⟩, by decide⟩,
        lf_notMem_tail tail newline⟩
    rw [htext, hsingle _ hline]
    exact readLine_table tables n indent header tail newline
  | assign indent key before after value tail =>
    have htext : (Expression.assign indent key before after value tail).text ++ newline.return
        = indent.1 ++ key.1 ++ before.1 ++ '=' :: (after.1 ++ value.text ++ tail.line newline) := by
      simp [Expression.text, Tail.line]
    have hline : '\n' ∉ value.text →
        '\n' ∉ indent.1 ++ key.1 ++ before.1 ++ '=' :: (after.1 ++ value.text ++ tail.line newline) := by
      intro hvalue
      simp only [mem_append, mem_cons, not_or]
      exact ⟨⟨⟨Blanks.notMem _ rfl, key.notMem (by decide)⟩, Blanks.notMem _ rfl⟩, by decide,
        ⟨Blanks.notMem _ rfl, hvalue⟩, lf_notMem_tail tail newline⟩
    rw [htext]
    cases value with
    | str pieces =>
      rw [hsingle _ (hline (lf_notMem_quotedText pieces))]
      exact readLine_scalar tables n indent key before after rfl (by decide) (by decide) tail newline
        (scalar_str pieces tail newline)
    | int i =>
      obtain ⟨c, rest, hcons, hspace, hc⟩ := i.exists_text
      rw [hsingle _ (hline (lf_notMem_bare i.isBare))]
      exact readLine_scalar tables n indent key before after hcons hspace hc tail newline
        ((scalar_bare i.isBare tail newline).trans (bareScalar_int i))
    | bool b =>
      have hcons : ∃ c rest, (Value.bool b).text = c :: rest ∧ isSpace c = false ∧ c ≠ '[' := by
        cases b
        · exact ⟨'f', _, rfl, by decide, by decide⟩
        · exact ⟨'t', _, rfl, by decide, by decide⟩
      obtain ⟨c, rest, hcons, hspace, hc⟩ := hcons
      rw [hsingle _ (hline (lf_notMem_bare (isBare_bool b)))]
      exact readLine_scalar tables n indent key before after hcons hspace hc tail newline
        ((scalar_bare (isBare_bool b) tail newline).trans (bareScalar_bool b))
    | array array => exact readLines_array tables n indent key before after array tail newline

end Amicode.TomlLite
