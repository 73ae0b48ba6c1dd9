import Amicode.ImportGate.Script

/-!
# What the import gate lets through

The gate is sound if every package that an accepted script loads is permitted, and it is not over-strict if a script
whose statements stand on lines of their own is accepted when its packages are. `gateLaw_iff` says exactly when both
hold of a script. The scan reads the first statement of a line only, and takes the names of a selection for packages.
-/

open List Option

namespace Amicode.ImportGate

open JsText (isSpace trim)

/-! ## The characters of a script -/

def isItemChar (c : Char) : Bool := isNameChar c || c ∈ [' ', '\t', '.']

theorem isSpace_of_blank (blank : Blank) : ∀ c ∈ blank.text, isSpace c = true := by
  intro c hc
  rcases blank.chars c hc with rfl | rfl <;> decide

theorem isItemChar_of_blank (blank : Blank) : ∀ c ∈ blank.text, isItemChar c = true := by
  intro c hc
  rcases blank.chars c hc with rfl | rfl <;> decide

theorem isItemChar_of_name (name : Name) : ∀ c ∈ name.text, isItemChar c = true := by
  intro c hc
  simp [isItemChar, name.chars c hc]

variable {c : Char} {name : Text} {clause : Clause}

theorem notSpace_of_isNameChar (h : isNameChar c = true) : isSpace c = false := by
  simp only [isNameChar, Bool.and_eq_true, Bool.not_eq_true'] at h
  exact h.1

theorem isItemChar_of_path (path : Path) : ∀ c ∈ path.text, isItemChar c = true := by
  intro c hc
  rcases mem_append.mp hc with hc | hc
  · rw [(mem_replicate.mp hc).2]
    decide
  · rcases mem_append.mp hc with hc | hc
    · exact isItemChar_of_name path.root c hc
    · obtain ⟨name, -, hc⟩ := mem_flatMap.mp hc
      rcases mem_cons.mp hc with rfl | hc
      · decide
      · exact isItemChar_of_name name c hc

theorem isItemChar_of_item (item : Item) : ∀ c ∈ item.text, isItemChar c = true := by
  intro c hc
  simp only [Item.text, mem_append] at hc
  rcases hc with hc | hc | hc | hc
  · exact isItemChar_of_blank item.before c hc
  · exact isItemChar_of_path item.path c hc
  · unfold Item.renameText at hc
    split at hc
    · exact absurd hc not_mem_nil
    · next before after name _ =>
      simp only [mem_append] at hc
      rcases hc with ((hc | hc) | hc) | hc
      · exact isItemChar_of_blank before.toBlank c hc
      · have has : ∀ c ∈ "as".toList, isItemChar c = true := by decide
        exact has c hc
      · exact isItemChar_of_blank after.toBlank c hc
      · exact isItemChar_of_name name c hc
  · exact isItemChar_of_blank item.after c hc

theorem mem_clause (clause : Clause) : ∀ c ∈ clause.text, isItemChar c = true ∨ c = ',' ∨ c = ':' := by
  intro c hc
  simp only [Clause.text, mem_append] at hc
  rcases hc with hc | hc | hc
  · unfold Clause.sourceText at hc
    split at hc
    · exact absurd hc not_mem_nil
    · next path blank _ =>
      simp only [mem_append, mem_singleton] at hc
      rcases hc with hc | hc | hc
      · exact .inl (isItemChar_of_path path c hc)
      · exact .inl (isItemChar_of_blank blank c hc)
      · exact .inr (.inr hc)
  · exact .inl (isItemChar_of_item clause.first c hc)
  · obtain ⟨item, -, hc⟩ := mem_flatMap.mp hc
    rcases mem_cons.mp hc with rfl | hc
    · exact .inr (.inl rfl)
    · exact .inl (isItemChar_of_item item c hc)

theorem notMem_clause (clause : Clause) (hitem : isItemChar c = false) (hcomma : c ≠ ',')
    (hcolon : c ≠ ':') : c ∉ clause.text := by
  intro hc
  rcases mem_clause clause c hc with h | h | h
  · rw [hitem] at h
    cases h
  · exact hcomma h
  · exact hcolon h

/-! ## One line of the text -/

theorem newline_notMem_tail (statement : Statement) : '\n' ∉ statement.tail := by
  intro hc
  rcases mem_append.mp hc with hc | hc
  · obtain ⟨gap, -, hc⟩ := mem_flatMap.mp hc
    rcases mem_append.mp hc with hc | hc
    · exact absurd (isItemChar_of_blank gap.toBlank _ hc) (by decide)
    · exact absurd hc (by decide)
  · exact absurd (isItemChar_of_blank statement.after _ hc) (by decide)

theorem newline_notMem_begins (begins : List Gap) :
    '\n' ∉ begins.flatMap fun gap ↦ "begin".toList ++ gap.text := by
  intro hc
  obtain ⟨gap, -, hc⟩ := mem_flatMap.mp hc
  rcases mem_append.mp hc with hc | hc
  · exact absurd hc (by decide)
  · exact absurd (isItemChar_of_blank gap.toBlank _ hc) (by decide)

theorem newline_notMem_commaIf (breaks : Bool) : '\n' ∉ commaIf breaks := by cases breaks <;> decide

theorem newline_notMem_core (core : Core) : '\n' ∉ core.text := by
  intro hc
  match core with
  | .imports keyword gap clause breaks =>
    simp only [Core.text, mem_append] at hc
    rcases hc with hc | hc | hc | hc
    · cases keyword <;> exact absurd hc (by decide)
    · exact absurd (isItemChar_of_blank gap.toBlank _ hc) (by decide)
    · exact notMem_clause clause (by decide) (by decide) (by decide) hc
    · exact newline_notMem_commaIf breaks hc
  | .continues packages first rest breaks =>
    simp only [Core.text, mem_append] at hc
    rcases hc with hc | hc | hc
    · exact absurd (isItemChar_of_item first _ hc) (by decide)
    · obtain ⟨item, -, hc⟩ := mem_flatMap.mp hc
      rcases mem_cons.mp hc with hc | hc
      · exact absurd hc (by decide)
      · exact absurd (isItemChar_of_item item _ hc) (by decide)
    · exact newline_notMem_commaIf breaks hc
  | .other statement => exact statement.oneLine hc

theorem newline_notMem_statement (statement : Statement) : '\n' ∉ statement.text := by
  simp only [Statement.text, mem_append, not_or]
  exact ⟨fun hc ↦ absurd (isItemChar_of_blank statement.before _ hc) (by decide), newline_notMem_begins _,
    newline_notMem_core _, newline_notMem_tail _⟩

theorem newline_notMem_line (line : Line) : '\n' ∉ line.text := by
  simp only [Line.text, Line.tail, mem_append, not_or]
  refine ⟨fun hc ↦ absurd (isItemChar_of_blank line.first.before _ hc) (by decide), newline_notMem_begins _,
    newline_notMem_core _, newline_notMem_tail _, fun hc ↦ ?_, fun hc ↦ ?_, ?_⟩
  · obtain ⟨statement, -, hc⟩ := mem_flatMap.mp hc
    exact (mem_cons.mp hc).elim (by decide) (newline_notMem_statement statement)
  · cases hcomment : line.comment with
    | none =>
      rw [hcomment] at hc
      exact absurd hc not_mem_nil
    | some comment =>
      rw [hcomment] at hc
      exact (mem_cons.mp hc).elim (by decide) (line.oneLine comment hcomment)
  · split <;> decide

variable (script : Script)

theorem splitOn_text : script.text.splitOn '\n' = script.lines.map (·.text) := by
  refine splitOn_intercalate '\n' (fun text htext ↦ ?_) (by simpa using script.ne)
  obtain ⟨line, -, rfl⟩ := List.mem_map.mp htext
  exact newline_notMem_line line

/-! ## What the scan reads of a line -/

/-- What stands behind the first statement, up to the comment. -/
def Line.readTail (line : Line) : Text := stripComment line.tail

/-- The statement the scan reads: the first of its line, if it is not in a block and the line has no CR the scan
sees. -/
def Line.read? (line : Line) : Option (Clause × Bool) :=
  match line.first.begins, line.first.core with
  | [], .imports _ _ clause breaks =>
    if line.readTail.all (!isLineTerminator ·) then some (clause, breaks) else none
  | _, _ => none

/-- What stands behind the keyword of that statement. -/
def Line.payload (line : Line) (read : Clause × Bool) : Text := read.1.text ++ (commaIf read.2 ++ line.readTail)

theorem stripComment_append {a b : Text} (h : '#' ∉ a) : stripComment (a ++ b) = a ++ stripComment b :=
  takeWhile_append_of_pos fun c hc ↦ by simpa using ne_of_mem_of_not_mem hc h

theorem notMem_keywords_of_head {word : Text} (hu : c ≠ 'u') (hi : c ≠ 'i') : c :: word ∉ keywords := by
  simp [keywords, hu, hi]

theorem token_space_append {blank text : Text} (h : ∀ c ∈ blank, isSpace c = true) : token (blank ++ text) = token text := by
  rw [token, dropWhile_append_of_pos h, token]

/-- A word, and what follows it up to the next white space. -/
theorem token_word_append {word rest : Text} (hne : word ≠ []) (h : ∀ c ∈ word, isSpace c = false) :
    token (word ++ rest) = word ++ rest.takeWhile (!isSpace ·) := by
  obtain ⟨c, word, rfl⟩ := exists_cons_of_ne_nil hne
  rw [token, cons_append, dropWhile_cons_of_neg (by simp [h c mem_cons_self]), ← cons_append,
    takeWhile_append_of_pos fun d hd ↦ by simp [h d hd]]

theorem append_notMem_keywords {word rest : Text} (hword : word ∉ keywords)
    (h : ∀ c ∈ rest.head?, c ∉ "usingmport".toList) : word ++ rest ∉ keywords := by
  rcases rest with _ | ⟨c, rest⟩
  · rwa [append_nil]
  · have hletters : ∀ keyword ∈ keywords, ∀ d ∈ keyword, d ∈ "usingmport".toList := by decide
    exact fun hmem ↦ h c rfl (hletters _ hmem c (mem_append_right _ mem_cons_self))

theorem head_append {P : Char → Prop} {a b : Text} (ha : ∀ c ∈ a.head?, P c) (hb : ∀ c ∈ b.head?, P c) :
    ∀ c ∈ (a ++ b).head?, P c := by
  intro c hc
  rw [head?_append, mem_def, or_eq_some_iff] at hc
  exact hc.elim (ha c) fun h ↦ hb c h.2

variable (line : Line)

/-- Behind the statement and what ends its blocks there is nothing, a CR or a semicolon. -/
theorem readTail_eq : ∃ rest, line.readTail = line.first.tail ++ rest ∧
    (rest = [] ∨ (rest = ['\r'] ∧ line.cr = true ∧ line.comment = none) ∨
      (line.rest ≠ [] ∧ ∃ more, rest = ';' :: more)) := by
  have hhash : '#' ∉ line.first.tail := by
    intro hc
    rcases mem_append.mp hc with hc | hc
    · obtain ⟨gap, -, hc⟩ := mem_flatMap.mp hc
      rcases mem_append.mp hc with hc | hc
      · exact absurd (isItemChar_of_blank gap.toBlank _ hc) (by decide)
      · exact absurd hc (by decide)
    · exact absurd (isItemChar_of_blank line.first.after _ hc) (by decide)
  refine ⟨_, stripComment_append hhash, ?_⟩
  rcases hrest : line.rest with _ | ⟨statement, rest⟩
  · rw [flatMap_nil, nil_append]
    rcases line.comment with _ | comment
    · rcases line.cr with _ | _
      · exact .inl rfl
      · exact .inr (.inl ⟨rfl, rfl, rfl⟩)
    · exact .inl (takeWhile_cons_of_neg (by decide))
  · rw [flatMap_cons, cons_append, cons_append]
    exact .inr (.inr ⟨cons_ne_nil _ _, _, takeWhile_cons_of_pos (by decide)⟩)

/-- What can stand behind a name. -/
def EndsName (rest : Text) : Prop := ∀ c ∈ rest.head?, isSpace c = true ∨ c ∈ ['.', ',', ';', ':']

theorem endsName_blank (blank : Blank) : EndsName blank.text :=
  fun c hc ↦ .inl (isSpace_of_blank blank c (mem_of_head? hc))

theorem endsName_gap_append (gap : Gap) (text : Text) : EndsName (gap.text ++ text) := by
  obtain ⟨_, more, hgap⟩ := exists_cons_of_ne_nil gap.ne
  rw [hgap]
  exact fun c hc ↦ .inl (isSpace_of_blank gap.toBlank c (hgap ▸ Option.some.inj hc ▸ mem_cons_self))

theorem endsName_rename (item : Item) : EndsName item.renameText := by
  unfold Item.renameText
  split
  · exact fun c hc ↦ absurd hc (by simp)
  · rw [append_assoc, append_assoc]
    exact endsName_gap_append _ _

theorem endsName_cons (text : Text) (h : c ∈ ['.', ',', ';', ':']) : EndsName (c :: text) :=
  fun _ hd ↦ .inr (Option.some.inj hd ▸ h)

theorem endsName_nil : EndsName [] := fun _ hc ↦ absurd hc (by simp)

theorem endsName_flatMap {α : Type*} (f : α → Text) (h : c ∈ ['.', ',', ';', ':']) (values : List α) :
    EndsName (values.flatMap (c :: f ·)) := by
  rcases values with _ | ⟨value, values⟩
  · exact endsName_nil
  · exact endsName_cons _ h

/-- White space, a semicolon or nothing comes behind a statement. -/
theorem endsName_readTail : EndsName line.readTail := by
  obtain ⟨rest, hrest, hcases⟩ := readTail_eq line
  rw [hrest, Statement.tail]
  refine head_append (head_append ?_ (endsName_blank line.first.after)) ?_
  · rcases line.first.ends with _ | ⟨gap, ends⟩
    · exact endsName_nil
    · rw [flatMap_cons, append_assoc]
      exact endsName_gap_append gap _
  · rcases hcases with rfl | ⟨rfl, -⟩ | ⟨-, more, rfl⟩
    · exact endsName_nil
    · exact fun c hc ↦ .inl (Option.some.inj hc ▸ by decide)
    · exact endsName_cons more (by decide)

theorem token_readTail : token line.readTail ∉ keywords := by
  obtain ⟨rest, hrest, hcases⟩ := readTail_eq line
  rw [hrest, Statement.tail]
  rcases line.first.ends with _ | ⟨gap, ends⟩
  · rw [flatMap_nil, nil_append, token_space_append (isSpace_of_blank line.first.after)]
    rcases hcases with rfl | ⟨rfl, -⟩ | ⟨-, more, rfl⟩
    · decide
    · decide
    · rw [show ';' :: more = [';'] ++ more from rfl, token_word_append (cons_ne_nil _ _) (by decide)]
      exact notMem_keywords_of_head (by decide) (by decide)
  · rw [flatMap_cons, append_assoc, append_assoc, append_assoc,
      token_space_append (isSpace_of_blank gap.toBlank), token_word_append (by decide) (by decide)]
    exact notMem_keywords_of_head (by decide) (by decide)

theorem exists_notSpace (clause : Clause) : ∃ c ∈ clause.text, isSpace c = false := by
  have hpath : ∀ path : Path, ∃ c ∈ path.text, isSpace c = false := by
    intro path
    obtain ⟨c, name, hname⟩ := exists_cons_of_ne_nil path.root.ne
    have hc : c ∈ path.root.text := hname ▸ mem_cons_self
    exact ⟨c, mem_append_right _ (mem_append_left _ hc), notSpace_of_isNameChar (path.root.chars c hc)⟩
  obtain ⟨c, hc, hspace⟩ := hpath clause.first.path
  exact ⟨c, mem_append_right _ (mem_append_left _ (mem_append_right _ (mem_append_left _ hc))), hspace⟩

theorem dropWhile_payload (read : Clause × Bool) : (line.payload read).dropWhile isSpace =
    read.1.text.dropWhile isSpace ++ (commaIf read.2 ++ line.readTail) ∧ read.1.text.dropWhile isSpace ≠ [] := by
  obtain ⟨c, hc, hspace⟩ := exists_notSpace read.1
  have hne : read.1.text.dropWhile isSpace ≠ [] := by
    intro hnil
    rw [dropWhile_eq_nil_iff.mp hnil c hc] at hspace
    cases hspace
  refine ⟨?_, hne⟩
  rw [Line.payload, dropWhile_append, if_neg (by simpa using hne)]

theorem isSpace_of_isLineTerminator (h : isLineTerminator c = true) : isSpace c = true := by
  simp only [isLineTerminator, decide_eq_true_eq, mem_cons, not_mem_nil, or_false] at h
  unfold isSpace
  rcases h with h | h | h | h <;> simp [h]

theorem all_payload (read : Clause × Bool) :
    ((line.payload read).dropWhile isSpace).all (!isLineTerminator ·) = line.readTail.all (!isLineTerminator ·) := by
  have hclause : (read.1.text.dropWhile isSpace).all (!isLineTerminator ·) = true := by
    refine List.all_eq_true.mpr fun c hc ↦ ?_
    have hmem : c ∈ read.1.text := (dropWhile_suffix isSpace).subset hc
    rw [Bool.not_eq_true']
    by_contra hterminator
    rw [Bool.not_eq_false] at hterminator
    have hnot : ∀ d ∈ [' ', '\t', '.'], isLineTerminator d = false := by decide
    rcases mem_clause read.1 c hmem with hitem | rfl | rfl
    · rw [isItemChar, Bool.or_eq_true, decide_eq_true_iff] at hitem
      rcases hitem with hname | hother
      · exact absurd (isSpace_of_isLineTerminator hterminator) (by simp [notSpace_of_isNameChar hname])
      · exact absurd (hnot c hother) (by simp [hterminator])
    · exact absurd hterminator (by decide)
    · exact absurd hterminator (by decide)
  have hcomma : (commaIf read.2).all (!isLineTerminator ·) = true := by cases read.2 <;> decide
  rw [(dropWhile_payload line read).1, all_append, all_append, hclause, hcomma, Bool.true_and, Bool.true_and]

/-- A word that goes on behind its name does not do so with a letter. -/
theorem head_takeWhile {rest : Text} (h : EndsName rest) :
    ∀ c ∈ (rest.takeWhile (!isSpace ·)).head?, c ∉ "usingmport".toList := by
  intro c hc
  have hnot : ∀ c ∈ ['.', ',', ';', ':'], c ∉ "usingmport".toList := by decide
  rcases rest with _ | ⟨d, rest⟩
  · cases hc
  · by_cases hd : isSpace d = true
    · rw [takeWhile_cons_of_neg (by simp [hd])] at hc
      cases hc
    · rw [takeWhile_cons_of_pos (by simp [hd])] at hc
      exact Option.some.inj hc ▸ hnot d ((h d rfl).resolve_left hd)

theorem token_path_append (path : Path) {rest : Text} (h : EndsName rest) : token (path.text ++ rest) ∉ keywords := by
  have hspace : ∀ c ∈ path.root.text, isSpace c = false := fun c hc ↦ notSpace_of_isNameChar (path.root.chars c hc)
  rw [Path.text]
  rcases path.dots with _ | dots
  · rw [replicate_zero, nil_append, append_assoc, token_word_append path.root.ne hspace]
    refine append_notMem_keywords (fun hmem ↦ path.root.notReserved ?_) (head_takeWhile ?_)
    · have hreserved : ∀ word ∈ keywords, word ∈ reserved := by decide
      exact hreserved _ hmem
    · exact head_append (endsName_flatMap _ (by decide) _) h
  · rw [replicate_succ, cons_append, cons_append, ← singleton_append,
      token_word_append (cons_ne_nil _ _) (by decide)]
    exact notMem_keywords_of_head (by decide) (by decide)

theorem token_line_notMem
    (h : ∀ keyword gap clause breaks, line.first.begins = [] → line.first.core ≠ .imports keyword gap clause breaks) :
    token (stripComment line.text) ∉ keywords := by
  have hbefore : '#' ∉ line.first.before.text := fun hc ↦
    absurd (isItemChar_of_blank line.first.before _ hc) (by decide)
  rw [Line.text, stripComment_append hbefore, token_space_append (isSpace_of_blank _)]
  rcases hbegins : line.first.begins with _ | ⟨gap, begins⟩
  · rw [flatMap_nil, nil_append]
    match hcore : line.first.core with
    | .imports keyword gap clause breaks => exact absurd hcore (h keyword gap clause breaks hbegins)
    | .continues packages first rest breaks =>
      have hhash : '#' ∉ first.text ++ (rest.flatMap (',' :: ·.text) ++ commaIf breaks) := by
        simp only [mem_append, not_or]
        refine ⟨fun hc ↦ absurd (isItemChar_of_item first _ hc) (by decide), fun hc ↦ ?_, by cases breaks <;> decide⟩
        obtain ⟨item, -, hc⟩ := mem_flatMap.mp hc
        exact (mem_cons.mp hc).elim (by decide) fun hc ↦ absurd (isItemChar_of_item item _ hc) (by decide)
      have hcomma : EndsName (commaIf breaks) := by
        cases breaks with
        | false => exact endsName_nil
        | true => exact endsName_cons [] (by decide)
      rw [Core.text, stripComment_append hhash, Item.text]
      simp only [append_assoc]
      rw [token_space_append (isSpace_of_blank _)]
      exact token_path_append first.path (head_append (endsName_rename first) (head_append (endsName_blank first.after)
        (head_append (endsName_flatMap _ (by decide) _) (head_append hcomma (endsName_readTail line)))))
    | .other statement =>
      rw [Core.text]
      by_cases hhash : '#' ∈ statement.text
      · have hstrip : stripComment (statement.text ++ line.tail) = stripComment statement.text := by
          rw [stripComment, takeWhile_append, if_neg, stripComment]
          intro hlength
          have hwhole := (List.takeWhile_prefix _).eq_of_length hlength
          exact absurd (mem_takeWhile_imp (hwhole ▸ hhash)) (by simp)
        rw [hstrip]
        exact statement.notImport
      · have hstrip : stripComment statement.text = statement.text := by
          simpa [stripComment] using stripComment_append (b := []) hhash
        have hword := statement.notImport
        rw [stripComment_append hhash]
        rw [hstrip] at hword
        by_cases hblank : statement.text.dropWhile isSpace = []
        · rw [token_space_append (dropWhile_eq_nil_iff.mp hblank)]
          exact token_readTail line
        · rw [token, dropWhile_append, if_neg (by simpa using hblank), takeWhile_append]
          split_ifs with hlength
          · -- the word may go on behind the statement
            have hwhole : (statement.text.dropWhile isSpace).takeWhile (!isSpace ·) = statement.text.dropWhile isSpace :=
              (List.takeWhile_prefix _).eq_of_length hlength
            rw [token, hwhole] at hword
            exact append_notMem_keywords hword (head_takeWhile (endsName_readTail line))
          · exact hword
  · -- the word is `begin`
    have hbegin : '#' ∉ "begin".toList ++ gap.text := by
      rw [mem_append, not_or]
      exact ⟨by decide, fun hc ↦ absurd (isItemChar_of_blank gap.toBlank _ hc) (by decide)⟩
    rw [flatMap_cons, append_assoc, stripComment_append hbegin, append_assoc,
      token_word_append (by decide) (by decide)]
    exact notMem_keywords_of_head (by decide) (by decide)

theorem payload?_text : payload? line.text = line.read?.map fun read ↦ (line.payload read).dropWhile isSpace := by
  have hnone : (∀ keyword gap clause breaks, line.first.begins = [] →
      line.first.core ≠ .imports keyword gap clause breaks) → payload? line.text = none := by
    intro h
    cases hpayload : payload? line.text with
    | none => rfl
    | some payload => exact absurd (token_mem_keywords hpayload) (token_line_notMem line h)
  unfold Line.read?
  split
  · next keyword gap clause breaks hbegins hcore =>
    have hhash : '#' ∉ line.first.before.text ++ (keyword.text ++ (gap.text ++ (clause.text ++ commaIf breaks))) := by
      simp only [mem_append, not_or]
      exact ⟨fun hc ↦ absurd (isItemChar_of_blank line.first.before _ hc) (by decide), by cases keyword <;> decide,
        fun hc ↦ absurd (isItemChar_of_blank gap.toBlank _ hc) (by decide),
        notMem_clause clause (by decide) (by decide) (by decide), by cases breaks <;> decide⟩
    have htext : stripComment line.text = line.first.before.text ++
        (keyword.text ++ (gap.text ++ line.payload (clause, breaks))) := by
      rw [Line.text, hbegins, hcore, flatMap_nil, nil_append, Core.text, ← append_assoc,
        stripComment_append hhash]
      simp only [Line.payload, Line.readTail, append_assoc]
    have hkeyword : keyword.text ∈ keywords := by cases keyword <;> decide
    have hpayload := dropWhile_payload line (clause, breaks)
    rw [payload?, htext, importLine_of_keyword (isSpace_of_blank _) hkeyword (isSpace_of_blank gap.toBlank) gap.ne
      (by rw [hpayload.1]; exact append_ne_nil_of_left_ne_nil hpayload.2 _), all_payload]
    split_ifs <;> rfl
  · next hcases =>
    rw [map_none]
    exact hnone fun keyword gap clause breaks hbegins hcore ↦ hcases keyword gap clause breaks hbegins hcore

theorem shown_dropWhile (payload : Text) : shown (payload.dropWhile isSpace) = shown payload := by
  conv_rhs => rw [← takeWhile_append_dropWhile (p := isSpace) (l := payload)]
  exact (shown_space_append fun c hc ↦ mem_takeWhile_imp hc).symm

theorem breaksOff_dropWhile (payload : Text) : BreaksOff (payload.dropWhile isSpace) ↔ BreaksOff payload := by
  unfold BreaksOff
  rw [trim, dropWhile_idempotent, trim]

variable (allow : Allow)

theorem accepts_script_iff : Accepts script.text allow ↔
    ∀ line ∈ script.lines, ∀ read ∈ line.read?, ¬ BreaksOff (line.payload read) ∧
      ∀ name ∈ shown (line.payload read), name ≠ [] → Permitted allow name := by
  rw [accepts_iff, splitOn_text, List.forall_mem_map]
  refine forall₂_congr fun line _ ↦ ?_
  rw [payload?_text]
  constructor
  · intro h read hread
    have hpayload := h _ (Option.mem_map_of_mem _ hread)
    rwa [breaksOff_dropWhile, shown_dropWhile] at hpayload
  · intro h payload hpayload
    obtain ⟨read, hread, rfl⟩ := map_eq_some_iff.mp hpayload
    rw [breaksOff_dropWhile, shown_dropWhile]
    exact h read hread

/-! ## Statements on lines of their own -/

/-- The statement is all in its line. -/
def Core.Whole : Core → Prop
  | .imports _ _ _ breaks => breaks = false
  | .continues .. => False
  | .other _ => True

/-- Each statement stands on its own line. -/
def Script.OwnLines (script : Script) : Prop := ∀ line ∈ script.lines, line.rest = [] ∧ line.first.core.Whole

def Path.word (path : Path) : Text := if path.dots = 0 then path.root.text else []

def Clause.word (clause : Clause) : Text :=
  match clause.source with
  | none => clause.first.path.word
  | some (path, _) => path.word

/-- A word ends here. -/
def Separated (rest : Text) : Prop := ∀ c ∈ rest.head?, isSeparator c = true

theorem separated_nil : Separated [] := fun _ hc ↦ absurd hc (by simp)

theorem separated_of_space {text : Text} (h : ∀ c ∈ text, isSpace c = true) : Separated text :=
  fun c hc ↦ isSeparator_of_isSpace (h c (mem_of_head? hc))

theorem firstWord_path {before rest : Text} (hbefore : ∀ c ∈ before, isSpace c = true) (path : Path)
    (hrest : Separated rest) : firstWord (before ++ (path.text ++ rest)) = path.word := by
  rw [firstWord_space_append hbefore, Path.text, Path.word, firstWord]
  have hseparated : Separated (path.rest.flatMap ('.' :: ·.text) ++ rest) := by
    refine head_append ?_ hrest
    rcases path.rest with _ | ⟨name, names⟩
    · exact separated_nil
    · exact fun c hc ↦ Option.some.inj hc ▸ by decide
  rcases hdots : path.dots with _ | dots
  · obtain ⟨c, name, hname⟩ := exists_cons_of_ne_nil path.root.ne
    have hchars : ∀ d ∈ path.root.text, isSeparator d = false := by
      intro d hd
      have hd := path.root.chars d hd
      simp only [isNameChar, Bool.and_eq_true, Bool.not_eq_true', decide_eq_true_eq, mem_cons, not_or] at hd
      simp [isSeparator, hd.1, hd.2.1, hd.2.2.1]
    have hspace : isSpace c = false :=
      notSpace_of_isNameChar (path.root.chars c (hname ▸ mem_cons_self))
    rw [replicate_zero, nil_append, append_assoc, if_pos rfl, hname, cons_append,
      dropWhile_cons_of_neg (by simp [hspace]), ← cons_append, ← hname,
      takeWhile_append_of_pos fun d hd ↦ by simp [hchars d hd]]
    rcases hmore : path.rest.flatMap ('.' :: ·.text) ++ rest with _ | ⟨d, more⟩
    · rw [takeWhile_nil, append_nil]
    · rw [takeWhile_cons_of_neg (by simp [hseparated d (hmore ▸ rfl)]), append_nil]
  · rw [replicate_succ, cons_append, cons_append, dropWhile_cons_of_neg (by decide),
      takeWhile_cons_of_neg (by decide), if_neg (Nat.succ_ne_zero _)]

theorem separated_gap_append (gap : Gap) (text : Text) : Separated (gap.text ++ text) := by
  obtain ⟨_, more, hgap⟩ := exists_cons_of_ne_nil gap.ne
  rw [hgap]
  exact fun c hc ↦ isSeparator_of_isSpace
    (isSpace_of_blank gap.toBlank c (hgap ▸ Option.some.inj hc ▸ mem_cons_self))

theorem firstWord_item (item : Item) {rest : Text} (hrest : Separated rest) :
    firstWord (item.text ++ rest) = item.path.word := by
  rw [Item.text]
  simp only [append_assoc]
  refine firstWord_path (isSpace_of_blank _) item.path (head_append ?_ (head_append ?_ hrest))
  · unfold Item.renameText
    split
    · exact separated_nil
    · rw [append_assoc, append_assoc]
      exact separated_gap_append _ _
  · exact separated_of_space (isSpace_of_blank _)

theorem shown_items {text word tail : Text} (items : List Item) (hcomma : ',' ∉ text)
    (hword : ∀ rest, Separated rest → firstWord (text ++ rest) = word) (htail : ',' ∉ tail) (hsep : Separated tail) :
    shown (text ++ (items.flatMap (',' :: ·.text) ++ tail)) = word :: items.map (·.path.word) := by
  induction items generalizing text word with
  | nil =>
    rw [flatMap_nil, nil_append, shown,
      splitOn_eq_singleton fun hc ↦ (mem_append.mp hc).elim hcomma htail, map_singleton,
      hword tail hsep, map_nil]
  | cons item items ih =>
    have hitem : ',' ∉ item.text := fun hc ↦ absurd (isItemChar_of_item item _ hc) (by decide)
    have ih := ih hitem fun rest hrest ↦ firstWord_item item hrest
    rw [flatMap_cons, append_assoc, cons_append, shown,
      splitOn_append_cons_self_of_not_mem hcomma, map_cons, ← shown, ih, map_cons]
    have hfirst := hword [] separated_nil
    rw [append_nil] at hfirst
    rw [hfirst]

/-- The last character that is not white space is no comma. -/
def EndsWhole (text : Text) : Prop :=
  ∃ a c blank, text = a ++ c :: blank ∧ isSpace c = false ∧ c ≠ ',' ∧ ∀ d ∈ blank, isSpace d = true

theorem EndsWhole.not_breaksOff {text : Text} (h : EndsWhole text) : ¬ BreaksOff text := by
  obtain ⟨a, c, blank, rfl, hspace, hcomma, hblank⟩ := h
  have hdrop : ∃ b, (a ++ c :: blank).dropWhile isSpace = b ++ c :: blank := by
    rw [dropWhile_append]
    split_ifs
    · exact ⟨[], dropWhile_cons_of_neg (by simp [hspace])⟩
    · exact ⟨_, rfl⟩
  obtain ⟨b, hb⟩ := hdrop
  have hlast : (trim (a ++ c :: blank)).getLast? = some c := by
    rw [trim, hb, reverse_append, reverse_cons, append_assoc,
      dropWhile_append_of_pos fun d hd ↦ hblank d (mem_reverse.mp hd), singleton_append,
      dropWhile_cons_of_neg (by simp [hspace]), getLast?_reverse, head?_cons]
  rw [BreaksOff, hlast]
  exact fun h ↦ hcomma (Option.some.inj h)

theorem EndsWhole.prepend {text : Text} (h : EndsWhole text) (before : Text) : EndsWhole (before ++ text) := by
  obtain ⟨a, c, blank, rfl, h⟩ := h
  exact ⟨before ++ a, c, blank, (append_assoc _ _ _).symm, h⟩

theorem EndsWhole.append_space {text blank : Text} (h : EndsWhole text) (hblank : ∀ c ∈ blank, isSpace c = true) :
    EndsWhole (text ++ blank) := by
  obtain ⟨a, c, blank', rfl, hspace, hcomma, hblank'⟩ := h
  exact ⟨a, c, blank' ++ blank, by rw [append_assoc, cons_append], hspace, hcomma,
    fun d hd ↦ (mem_append.mp hd).elim (hblank' d) (hblank d)⟩

theorem endsWhole_name (name : Name) : EndsWhole name.text := by
  obtain ⟨a, c, hname⟩ := (eq_nil_or_concat name.text).resolve_left name.ne
  have hc := name.chars c (hname ▸ by simp)
  refine ⟨a, c, [], by rw [hname, concat_eq_append], notSpace_of_isNameChar hc, ?_,
    fun d hd ↦ absurd hd not_mem_nil⟩
  rintro rfl
  exact absurd hc (by decide)

theorem endsWhole_item (item : Item) : EndsWhole item.text := by
  have hpath : EndsWhole item.path.text := by
    refine EndsWhole.prepend ?_ _
    rcases eq_nil_or_concat item.path.rest with hrest | ⟨names, name, hrest⟩
    · rw [hrest, flatMap_nil, append_nil]
      exact endsWhole_name _
    · rw [hrest, concat_eq_append, flatMap_append, flatMap_singleton, ← append_assoc]
      exact ((endsWhole_name name).prepend ['.']).prepend _
  refine EndsWhole.prepend ?_ _
  rw [← append_assoc]
  refine EndsWhole.append_space ?_ (isSpace_of_blank _)
  unfold Item.renameText
  split
  · rw [append_nil]
    exact hpath
  · exact ((endsWhole_name _).prepend _).prepend _

theorem endsWhole_clause (clause : Clause) : EndsWhole clause.text := by
  refine EndsWhole.prepend ?_ _
  rcases eq_nil_or_concat clause.rest with hrest | ⟨items, item, hrest⟩
  · rw [hrest, flatMap_nil, append_nil]
    exact endsWhole_item _
  · rw [hrest, concat_eq_append, flatMap_append, flatMap_singleton, ← append_assoc]
    exact ((endsWhole_item item).prepend [',']).prepend _

theorem own_payload {line : Line} (hrest : line.rest = []) (clause : Clause) :
    ¬ BreaksOff (line.payload (clause, false)) ∧
      shown (line.payload (clause, false)) = clause.word :: clause.rest.map (·.path.word) := by
  obtain ⟨rest, htail, hcases⟩ := readTail_eq line
  have hspace : ∀ c ∈ rest, isSpace c = true := by
    rcases hcases with rfl | ⟨rfl, -⟩ | ⟨hne, -⟩
    · exact fun c hc ↦ absurd hc not_mem_nil
    · decide
    · exact absurd hrest hne
  have hpayload : line.payload (clause, false) = clause.text ++ line.readTail := rfl
  rw [hpayload, htail, Statement.tail]
  constructor
  · -- the last character is that of an item or of `end`
    refine EndsWhole.not_breaksOff ?_
    rw [← append_assoc, ← append_assoc]
    refine EndsWhole.append_space (EndsWhole.append_space ?_ (isSpace_of_blank _)) hspace
    rcases eq_nil_or_concat line.first.ends with hends | ⟨gaps, gap, hends⟩
    · rw [hends, flatMap_nil, append_nil]
      exact endsWhole_clause clause
    · rw [hends, concat_eq_append, flatMap_append, flatMap_singleton, ← append_assoc]
      have hend : EndsWhole "end".toList :=
        ⟨['e', 'n'], 'd', [], rfl, by decide, by decide, fun d hd ↦ absurd hd not_mem_nil⟩
      exact (hend.prepend gap.text).prepend _
  · have hcomma : ',' ∉ line.first.ends.flatMap (fun gap ↦ gap.text ++ "end".toList) ++ line.first.after.text ++ rest := by
      simp only [mem_append, not_or]
      refine ⟨⟨fun hc ↦ ?_, comma_notMem_of_isSpace (isSpace_of_blank _)⟩, comma_notMem_of_isSpace hspace⟩
      obtain ⟨gap, -, hc⟩ := mem_flatMap.mp hc
      exact (mem_append.mp hc).elim (comma_notMem_of_isSpace (isSpace_of_blank gap.toBlank)) (by decide)
    have hseparated : Separated
        (line.first.ends.flatMap (fun gap ↦ gap.text ++ "end".toList) ++ line.first.after.text ++ rest) := by
      refine head_append (head_append ?_ (separated_of_space (isSpace_of_blank _))) (separated_of_space hspace)
      rcases line.first.ends with _ | ⟨gap, gaps⟩
      · exact separated_nil
      · rw [flatMap_cons, append_assoc]
        exact separated_gap_append gap _
    have hfirst : ',' ∉ clause.sourceText ++ clause.first.text := by
      rw [mem_append, not_or]
      refine ⟨?_, fun hc ↦ absurd (isItemChar_of_item clause.first _ hc) (by decide)⟩
      unfold Clause.sourceText
      split
      · exact not_mem_nil
      · next path blank _ =>
        simp only [mem_append, not_or]
        exact ⟨fun hc ↦ absurd (isItemChar_of_path path _ hc) (by decide),
          comma_notMem_of_isSpace (isSpace_of_blank blank), by decide⟩
    rw [Clause.text, ← append_assoc clause.sourceText, append_assoc (clause.sourceText ++ _)]
    refine shown_items clause.rest hfirst (fun more hmore ↦ ?_) hcomma hseparated
    obtain ⟨_ | ⟨path, blank⟩, first, items⟩ := clause
    · exact firstWord_item first hmore
    · -- the colon ends the name of the package
      rw [Clause.sourceText, ← nil_append (path.text ++ _ ++ _ ++ more), append_assoc, append_assoc]
      refine firstWord_path (fun c hc ↦ absurd hc not_mem_nil) path ?_
      rw [append_assoc]
      exact head_append (separated_of_space (isSpace_of_blank blank)) fun c hc ↦ Option.some.inj hc ▸ by decide

/-! ## The law -/

structure GateLaw (script : Script) (allow : Allow) : Prop where
  sound : Accepts script.text allow → ∀ package ∈ script.loads, Permitted allow package
  complete : script.OwnLines → (∀ package ∈ script.loads, Permitted allow package) → Accepts script.text allow

/-- A package that is not permitted is not loaded behind the back of the scan: a statement that it reads breaks off,
or shows a name that is not permitted. -/
def Caught (script : Script) (allow : Allow) : Prop :=
  ∀ package ∈ script.loads, ¬ Permitted allow package →
    ∃ line ∈ script.lines, ∃ read ∈ line.read?, BreaksOff (line.payload read) ∨
      ∃ name ∈ shown (line.payload read), name ≠ [] ∧ ¬ Permitted allow name

/-- The names that a statement selects after its first comma are permitted like packages. -/
def SelectionsPermitted (script : Script) (allow : Allow) : Prop :=
  script.OwnLines → (∀ package ∈ script.loads, Permitted allow package) →
    ∀ line ∈ script.lines, ∀ read ∈ line.read?, ∀ name ∈ read.1.selectedLater, Permitted allow name

theorem sound_iff :
    (Accepts script.text allow → ∀ package ∈ script.loads, Permitted allow package) ↔ Caught script allow := by
  rw [accepts_script_iff]
  constructor
  · intro h package hpackage hnot
    by_contra hnone
    refine hnot (h (fun line hline read hread ↦ ⟨fun hbreaks ↦ ?_, fun name hname hne ↦ ?_⟩) package hpackage)
    · exact hnone ⟨line, hline, read, hread, .inl hbreaks⟩
    · by_contra hforbidden
      exact hnone ⟨line, hline, read, hread, .inr ⟨name, hname, hne, hforbidden⟩⟩
  · intro h haccepts package hpackage
    by_contra hnot
    obtain ⟨line, hline, read, hread, hread'⟩ := h package hpackage hnot
    obtain ⟨hwhole, hshown⟩ := haccepts line hline read hread
    rcases hread' with hbreaks | ⟨name, hname, hne, hforbidden⟩
    · exact hwhole hbreaks
    · exact hforbidden (hshown name hname hne)

theorem package?_of_word {path : Path} (h : path.word ≠ []) : path.package? = some path.word := by
  unfold Path.word at h
  unfold Path.package? Path.word
  split_ifs at h ⊢ with hdots
  · rfl
  · exact absurd rfl h

theorem word_of_package? {path : Path} (h : path.package? = some name) :
    name ≠ [] ∧ path.word = name := by
  unfold Path.package? at h
  unfold Path.word
  split_ifs at h ⊢ with hdots
  exact ⟨Option.some.inj h ▸ path.root.ne, Option.some.inj h⟩

theorem mem_words (hname : name ∈ clause.word :: clause.rest.map (·.path.word))
    (hne : name ≠ []) : name ∈ clause.loads ∨ name ∈ clause.selectedLater := by
  obtain ⟨_ | ⟨path, blank⟩, first, items⟩ := clause
  · -- packages between commas
    have hmem : name ∈ (first :: items).map (·.path.word) := hname
    obtain ⟨item, hitem, rfl⟩ := List.mem_map.mp hmem
    exact .inl (mem_filterMap.mpr ⟨item, hitem, package?_of_word hne⟩)
  · rcases mem_cons.mp hname with rfl | hname
    · exact .inl (mem_toList.mpr (package?_of_word hne))
    · obtain ⟨item, hitem, rfl⟩ := List.mem_map.mp hname
      exact .inr (mem_filterMap.mpr ⟨item, hitem, package?_of_word hne⟩)

/-- The scan shows what a clause selects after the first comma. -/
theorem words_of_selectedLater (h : name ∈ clause.selectedLater) :
    name ≠ [] ∧ name ∈ clause.word :: clause.rest.map (·.path.word) := by
  unfold Clause.selectedLater at h
  split at h
  · exact absurd h not_mem_nil
  · obtain ⟨item, hitem, hpackage⟩ := mem_filterMap.mp h
    obtain ⟨hne, hword⟩ := word_of_package? hpackage
    exact ⟨hne, mem_cons_of_mem _ (List.mem_map.mpr ⟨item, hitem, hword⟩)⟩

theorem read_own {line : Line} {read : Clause × Bool} (h : line.read? = some read) (hwhole : line.first.core.Whole) :
    read.2 = false ∧ line.first.core.loads = read.1.loads := by
  unfold Line.read? at h
  split at h
  · next keyword gap clause breaks hbegins hcore =>
    split_ifs at h
    cases h
    rw [hcore] at hwhole ⊢
    exact ⟨hwhole, rfl⟩
  · cases h

theorem complete_iff :
    (script.OwnLines → (∀ package ∈ script.loads, Permitted allow package) → Accepts script.text allow)
      ↔ SelectionsPermitted script allow := by
  refine forall_congr' fun hown ↦ forall_congr' fun hloads ↦ ?_
  rw [accepts_script_iff]
  refine forall₂_congr fun line hline ↦ forall₂_congr fun read hread ↦ ?_
  obtain ⟨hrest, hwhole⟩ := hown line hline
  obtain ⟨clause, breaks⟩ := read
  obtain ⟨rfl, hcore⟩ := read_own hread hwhole
  obtain ⟨hnotBreaks, hshown⟩ := own_payload hrest clause
  rw [hshown]
  constructor
  · rintro ⟨-, h⟩ name hname
    obtain ⟨hne, hword⟩ := words_of_selectedLater hname
    exact h name hword hne
  · refine fun h ↦ ⟨hnotBreaks, fun name hname hne ↦ ?_⟩
    rcases mem_words hname hne with hloaded | hselected
    · refine hloads name (mem_flatMap.mpr ⟨line, hline, mem_flatMap.mpr ⟨line.first, mem_cons_self, ?_⟩⟩)
      rw [hcore]
      exact hloaded
    · exact h name hselected

/-- The gate is sound and not over-strict for a script, if and only if no package that is not permitted escapes the
scan, and the names selected after a comma are permitted. -/
theorem gateLaw_iff (script : Script) (allow : Allow) :
    GateLaw script allow ↔ Caught script allow ∧ SelectionsPermitted script allow := by
  rw [← sound_iff, ← complete_iff]
  exact ⟨fun h ↦ ⟨h.sound, h.complete⟩, fun h ↦ ⟨h.1, h.2⟩⟩

def noBlank : Blank := ⟨[], by decide⟩

def zygote : Item where
  before := noBlank
  path := ⟨0, ⟨"Zygote".toList, by decide, by decide, by decide⟩, []⟩
  rename := none
  after := noBlank

/-- `x;using Zygote` -/
def secondStatement : Script where
  lines :=
    [{  first := ⟨noBlank, [], .other ⟨['x'], by decide, by decide⟩, [], noBlank⟩
        rest :=
          [⟨noBlank, [], .imports .usingWord ⟨⟨[' '], by decide⟩, by decide⟩ ⟨none, zygote, []⟩ false, [], noBlank⟩]
        comment := none
        cr := false
        oneLine := by simp }]
  ne := List.cons_ne_nil _ _

/-- A package that is loaded behind a semicolon escapes the scan. -/
theorem not_gateLaw_secondStatement : ¬ GateLaw secondStatement ⟨[], []⟩ := by
  intro h
  have haccepts : Accepts secondStatement.text ⟨[], []⟩ :=
    (accepts_script_iff secondStatement ⟨[], []⟩).mpr fun line hline read hread ↦ by
      rw [List.mem_singleton.mp hline] at hread
      cases hread
  have hpermitted : Permitted ⟨[], []⟩ "Zygote".toList := h.sound haccepts _ List.mem_cons_self
  exact absurd hpermitted (by decide)

end Amicode.ImportGate
