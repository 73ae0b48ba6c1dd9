import Amicode.TomlLite.Tree

/-!
# The reader and what documents denote

A document is read as its expressions are (`parse_agrees`), and the reader returns what the document denotes
exactly if it can read every expression (`parseTomlLite_iff`):

* behind a header stands no comment, around its dots no white space, and no part of it is an inherited name;
* no key is `__proto__`;
* a scalar string has no escapes but those of a quote, a backslash, a line feed and a tab, and the strings of an
  array none but those of a quote and a backslash;
* an integer is a decimal one without a plus sign and without underscores, and is a double;
* in an array no comment stands before the line of its last bracket, and neither a string before that line nor
  the comment behind the bracket has a `]`.

For the one direction the two readings of an expression are compared (`Expression.read?_of_readable`). For the
other, the first expression that is not read right leaves a value in the tables that the format has not there,
or none where the format has one, and nothing behind it can mend that.
-/

namespace Amicode.TomlLite

open JsText JsObject List Option

/-! ## What can be read -/

/-- The reader can read a value in front of the end of its line. -/
def Value.Readable (tail : Tail) : Value → Prop
  | .str pieces => ∀ piece ∈ pieces, piece.Within scalarEscapes
  | .int n => n.Readable
  | .bool _ => True
  | .array a => a.Plain tail ∧ ∀ pieces ∈ a.items, ∀ piece ∈ pieces, piece.Within itemEscapes

def Expression.Readable : Expression → Prop
  | .empty _ => True
  | .table _ header tail =>
    tail.comment = none ∧ header.Compact ∧ ∀ part ∈ header.path, part ∉ inheritedNames
  | .assign _ key _ _ value tail => key.name ≠ "__proto__" ∧ value.Readable tail

def Document.Readable (document : Document) : Prop := ∀ expression ∈ document.expressions, expression.Readable

theorem Value.read?_eq_iff (value : Value) (tail : Tail) :
    value.read? tail = some value.value ↔ value.Readable tail := by
  cases value with
  | str pieces =>
    rw [read?, Value.value, Option.some.injEq, TomlValue.str.injEq, readText_eq_iff, Readable]
    exact forall₂_congr fun piece _ ↦ piece.known_scalar_iff
  | int n => exact n.read?_eq_iff
  | bool b => exact iff_of_true rfl trivial
  | array a =>
    rw [read?, Value.value, Readable]
    split_ifs with hplain
    · rw [Option.some.injEq, readArray, TomlValue.arr.injEq, map_inj_left, and_iff_right hplain]
      refine forall₂_congr fun pieces _ ↦ ?_
      rw [TomlValue.str.injEq, readText_eq_iff]
      exact forall₂_congr fun piece _ ↦ piece.known_item_iff
    · exact iff_of_false (fun heq ↦ by cases heq) fun h ↦ hplain h.1

/-! ## The document as its expressions -/

theorem Agrees.bind {result : Except Stop Reader} {tables? : Option Tables} {f : Reader → Except Stop Reader}
    {g : Tables → Option Tables} (h : Agrees result tables?)
    (hnext : ∀ tables n, Agrees (f (tables.reader n)) (g tables)) : Agrees (result.bind f) (tables?.bind g) := by
  cases tables? with
  | none =>
    obtain ⟨stop, rfl⟩ := h
    exact ⟨stop, rfl⟩
  | some tables =>
    obtain ⟨n, rfl⟩ := h
    exact hnext tables n

theorem readLines_expressions (lines : List (Expression × Newline)) (last : Expression) (tables : Tables) (n : ℕ) :
    Agrees ((((lines.flatMap fun l ↦ l.1.text ++ l.2.text) ++ last.text).splitOn '\n').foldlM readLine
        (tables.reader n))
      ((lines.map Prod.fst ++ [last]).foldlM Expression.read? tables) := by
  induction lines generalizing tables n with
  | nil =>
    have h := readLines_agrees last .lf tables n
    rw [Newline.return, append_nil] at h
    have hlast : ([last] : List Expression).foldlM Expression.read? tables = last.read? tables := by
      rw [foldlM_cons]
      exact bind_pure (last.read? tables)
    exact hlast.symm ▸ h
  | cons line lines ih =>
    have htext : ((line :: lines).flatMap fun l ↦ l.1.text ++ l.2.text) ++ last.text
        = (line.1.text ++ line.2.return)
          ++ '\n' :: ((lines.flatMap fun l ↦ l.1.text ++ l.2.text) ++ last.text) := by
      simp [Newline.text]
    rw [htext, splitOn_append_cons_self, foldlM_append, map_cons, cons_append,
      foldlM_cons]
    exact (readLines_agrees line.1 line.2 tables n).bind fun tables n ↦ ih tables n

theorem parse_agrees (document : Document) :
    (parseTomlLite document.text).toOption
      = (document.expressions.foldlM Expression.read? ⟨[], []⟩).map Tables.root := by
  have h := readLines_expressions document.lines document.last ⟨[], []⟩ 0
  rw [parseTomlLite, Document.expressions]
  change (Except.bind (List.foldlM readLine (Tables.reader ⟨[], []⟩ 0) _) Reader.finish).toOption = _
  rw [Document.text]
  cases hread : (document.lines.map Prod.fst ++ [document.last]).foldlM Expression.read? ⟨[], []⟩ with
  | none =>
    rw [hread] at h
    obtain ⟨stop, hstop⟩ := h
    rw [hstop]
    rfl
  | some tables =>
    rw [hread] at h
    obtain ⟨n, hn⟩ := h
    rw [hn]
    rfl

/-! ## What both readings keep -/

/-- The table that the last header names is there. -/
def Tables.Placed (tables : Tables) : Prop := (tableAt? tables.root tables.current).isSome

section

variable {expression : Expression} {tables tables' : Tables}

theorem effect_assign {indent before after : Blanks} {key : Key} {value : Value} {tail : Tail}
    (h : (Expression.assign indent key before after value tail).effect tables = some tables') :
    own? ((tableAt? tables.root tables.current).getD []) key.name = none ∧
      tables' = ⟨updateAt (JsObject.assign · key.name value.value) tables.root tables.current, tables.current⟩ := by
  rw [Expression.effect, Tables.add] at h
  split_ifs at h with hnew
  exact ⟨by simpa using hnew, (Option.some.inj h).symm⟩

theorem placed_effect (h : tables.Placed) (heffect : expression.effect tables = some tables') : tables'.Placed := by
  cases expression with
  | empty tail =>
    obtain rfl := Option.some.inj heffect
    exact h
  | table indent header tail =>
    obtain ⟨root, hroot, rfl⟩ := map_eq_some_iff.mp heffect
    exact tableAt?_define hroot
  | assign indent key before after value tail =>
    obtain ⟨-, rfl⟩ := effect_assign heffect
    rw [Tables.Placed, tableAt?_updateAt, isSome_map]
    exact h

theorem valueAt?_effect {path : List String} {key : String} {value : TomlValue} (hleaf : value.IsLeaf)
    (heffect : expression.effect tables = some tables') (h : valueAt? tables.root path key = some value) :
    valueAt? tables'.root path key = some value := by
  cases expression with
  | empty tail =>
    obtain rfl := Option.some.inj heffect
    exact h
  | table indent header tail =>
    obtain ⟨root, hroot, rfl⟩ := map_eq_some_iff.mp heffect
    exact valueAt?_define hleaf hroot h
  | assign indent name before after stored tail =>
    obtain ⟨hnew, rfl⟩ := effect_assign heffect
    exact valueAt?_store hleaf hnew h

theorem read?_table {indent : Blanks} {header : Header} {tail : Tail}
    (h : (Expression.table indent header tail).read? tables = some tables') :
    tail.comment = none ∧ header.Compact ∧ (walk "" .ok tables.root header.path).toOption = some tables'.root ∧
      tables'.current = header.path := by
  rw [Expression.read?] at h
  split_ifs at h with hreadable
  obtain ⟨root, hroot, rfl⟩ := map_eq_some_iff.mp h
  exact ⟨hreadable.1, hreadable.2, hroot, rfl⟩

theorem read?_assign {indent before after : Blanks} {key : Key} {value : Value} {tail : Tail}
    (h : (Expression.assign indent key before after value tail).read? tables = some tables') :
    own? ((tableAt? tables.root tables.current).getD []) key.name = none ∧ ∃ read, value.read? tail = some read ∧
      (key.name = "__proto__" ∧ tables' = tables ∨ key.name ≠ "__proto__" ∧
        tables' = ⟨updateAt (JsObject.assign · key.name read) tables.root tables.current, tables.current⟩) := by
  rw [Expression.read?] at h
  split_ifs at h with hnew
  obtain ⟨read, hread, hstore⟩ := bind_eq_some_iff.mp h
  refine ⟨by simpa using hnew, read, hread, ?_⟩
  unfold Tables.store? at hstore
  split_ifs at hstore with hkey
  · refine .inl ⟨hkey, ?_⟩
    split at hstore
    · cases hstore
    · exact (Option.some.inj hstore).symm
  · exact .inr ⟨hkey, (Option.some.inj hstore).symm⟩

theorem tidy_read? (h : Tidy tables.root) (hread : expression.read? tables = some tables') : Tidy tables'.root := by
  cases expression with
  | empty tail =>
    obtain rfl := Option.some.inj hread
    exact h
  | table indent header tail => exact h.walk (read?_table hread).2.2.1
  | assign indent key before after value tail =>
    obtain ⟨-, read, hvalue, ⟨-, rfl⟩ | ⟨hkey, rfl⟩⟩ := read?_assign hread
    · exact h
    · exact h.store hkey (Value.isLeaf_read? hvalue)

theorem valueAt?_read? {path : List String} {key : String} {value : TomlValue} (hleaf : value.IsLeaf)
    (hread : expression.read? tables = some tables') (h : valueAt? tables.root path key = some value) :
    valueAt? tables'.root path key = some value := by
  cases expression with
  | empty tail =>
    obtain rfl := Option.some.inj hread
    exact h
  | table indent header tail => exact valueAt?_define hleaf (define_of_walk (read?_table hread).2.2.1) h
  | assign indent name before after stored tail =>
    obtain ⟨hnew, read, -, ⟨-, rfl⟩ | ⟨-, rfl⟩⟩ := read?_assign hread
    · exact h
    · exact valueAt?_store hleaf hnew h

theorem Expression.read?_of_readable (h : expression.Readable) (heffect : expression.effect tables = some tables') :
    expression.read? tables = some tables' := by
  cases expression with
  | empty tail => exact heffect
  | table indent header tail =>
    obtain ⟨root, hroot, rfl⟩ := map_eq_some_iff.mp heffect
    rw [read?, if_pos ⟨h.1, h.2.1⟩, walk_of_define h.2.2 hroot, map_some]
  | assign indent key before after value tail =>
    obtain ⟨hnew, rfl⟩ := effect_assign heffect
    rw [read?, if_neg (by simp [hnew]), (value.read?_eq_iff tail).mpr h.2, bind_some]
    exact if_neg h.1

/-- Where the reader goes on behind an expression that it cannot read, one value differs: the format has another
than the reader, or the reader has none under the key that leads to what a table inherits from. -/
theorem exists_of_not_readable (h : ¬ expression.Readable) (htidy : Tidy tables.root) (hplaced : tables.Placed)
    {read : Tables} (heffect : expression.effect tables = some tables') (hread : expression.read? tables = some read) :
    ∃ path key value, value.IsLeaf ∧ valueAt? tables'.root path key = some value ∧
      (key = "__proto__" ∨ ∃ other, other.IsLeaf ∧ other ≠ value ∧ valueAt? read.root path key = some other) := by
  cases expression with
  | empty tail => exact absurd trivial h
  | table indent header tail =>
    obtain ⟨hcomment, hcompact, hwalk, -⟩ := read?_table hread
    -- only an inherited name is left, and the walk stops there
    exact absurd ⟨hcomment, hcompact, htidy.not_inherited_of_walk hwalk⟩ h
  | assign indent key before after value tail =>
    obtain ⟨-, rfl⟩ := effect_assign heffect
    obtain ⟨-, other, hvalue, hstored⟩ := read?_assign hread
    refine ⟨tables.current, key.name, value.value, value.isLeaf_value, valueAt?_store_self hplaced _ _, ?_⟩
    obtain ⟨hkey, -⟩ | ⟨hkey, rfl⟩ := hstored
    · exact .inl hkey
    · refine .inr ⟨other, Value.isLeaf_read? hvalue, ?_, valueAt?_store_self hplaced _ _⟩
      rintro rfl
      exact h ⟨hkey, (value.read?_eq_iff tail).mp hvalue⟩

end

/-! ## Runs -/

variable {expressions : List Expression} {tables final : Tables}

theorem foldlM_preserves {step : Tables → Expression → Option Tables} {p : Tables → Prop}
    (hstep : ∀ expression tables next, step tables expression = some next → p tables → p next)
    (hrun : expressions.foldlM step tables = some final) (h : p tables) : p final := by
  induction expressions generalizing tables with
  | nil =>
    obtain rfl := Option.some.inj hrun
    exact h
  | cons expression expressions ih =>
    obtain ⟨next, hnext, hrest⟩ := bind_eq_some_iff.mp hrun
    exact ih hrest (hstep expression tables next hnext h)

theorem reads_of_readable (h : ∀ expression ∈ expressions, expression.Readable)
    (hrun : expressions.foldlM Expression.effect tables = some final) :
    expressions.foldlM Expression.read? tables = some final := by
  induction expressions generalizing tables with
  | nil => exact hrun
  | cons expression expressions ih =>
    obtain ⟨hfirst, hrest⟩ := forall_mem_cons.mp h
    obtain ⟨next, heffect, hnext⟩ := bind_eq_some_iff.mp hrun
    rw [foldlM_cons, Expression.read?_of_readable hfirst heffect]
    exact ih hrest hnext

theorem readable_of_reads {tables final read : Tables} (htidy : Tidy tables.root)
    (hplaced : tables.Placed) (heffects : expressions.foldlM Expression.effect tables = some final)
    (hreads : expressions.foldlM Expression.read? tables = some read) (hroot : read.root = final.root) :
    ∀ expression ∈ expressions, expression.Readable := by
  induction expressions generalizing tables with
  | nil => exact forall_mem_nil _
  | cons expression expressions ih =>
    obtain ⟨next, heffect, hrest⟩ := bind_eq_some_iff.mp heffects
    obtain ⟨next', hread, hrest'⟩ := bind_eq_some_iff.mp hreads
    have hfirst : expression.Readable := by
      by_contra hnot
      obtain ⟨path, key, value, hleaf, hvalue, hdiffers⟩ :=
        exists_of_not_readable hnot htidy hplaced heffect hread
      have hfinal := foldlM_preserves (fun _ _ _ ↦ valueAt?_effect hleaf) hrest hvalue
      rw [← hroot] at hfinal
      obtain rfl | ⟨other, hother, hne, hread'⟩ := hdiffers
      · -- nothing stands under that key in the tables of the reader
        obtain ⟨found, hfound, hown⟩ := bind_eq_some_iff.mp hfinal
        have htidy' := foldlM_preserves (fun _ _ _ hread h ↦ tidy_read? h hread) hrest' (tidy_read? htidy hread)
        have hnone := (htidy' path found hfound).1
        cases hnone.symm.trans hown
      · have hkept := foldlM_preserves (fun _ _ _ ↦ valueAt?_read? hother) hrest' hread'
        exact hne (Option.some.inj (hkept.symm.trans hfinal))
    have hsame : next' = next :=
      Option.some.inj (hread.symm.trans (Expression.read?_of_readable hfirst heffect))
    subst hsame
    exact forall_mem_cons.mpr ⟨hfirst, ih (tidy_read? htidy hread) (placed_effect hplaced heffect) hrest hrest'⟩

/-- The reader returns what a document denotes exactly if it can read the document. -/
theorem parseTomlLite_iff (document : Document) (members : Members) (h : document.value? = some members) :
    parseTomlLite document.text = .ok members ↔ document.Readable := by
  obtain ⟨final, heffects, rfl⟩ := Option.map_eq_some_iff.mp h
  have hparse := parse_agrees document
  have htidy : Tidy (Tables.root ⟨[], []⟩) := tidy_nil
  have hplaced : Tables.Placed ⟨[], []⟩ := rfl
  constructor
  · intro hok
    rw [hok] at hparse
    obtain ⟨read, hreads, hroot⟩ := Option.map_eq_some_iff.mp hparse.symm
    exact readable_of_reads htidy hplaced heffects hreads hroot
  · intro hreadable
    rw [reads_of_readable hreadable heffects] at hparse
    cases hresult : parseTomlLite document.text with
    | error stop =>
      rw [hresult] at hparse
      cases hparse
    | ok members =>
      rw [hresult] at hparse
      exact congrArg Except.ok (Option.some.inj hparse)

/-! ## Two documents -/

/-- `a = ["\n"]`. -/
def escapedItem : Document where
  lines := []
  last := .assign ⟨[], rfl⟩ ⟨['a'], by decide⟩ ⟨[' '], rfl⟩ ⟨[' '], rfl⟩
    (.array ⟨[], [.str [.escape .newline]], rfl⟩) ⟨⟨[], rfl⟩, none⟩
  nodup := by decide

/-- A line feed in a string of an array is read as the letter that it is written with. -/
theorem not_parse_escapedItem :
    ¬ ∀ (document : Document) (members : Members), document.value? = some members →
      parseTomlLite document.text = .ok members := by
  intro h
  have hdenotes : escapedItem.value? = some [("a", .arr [.str ['\n']])] := rfl
  have hread : parseTomlLite escapedItem.text = .ok [("a", .arr [.str ['n']])] := rfl
  have hsame := hread.symm.trans (h escapedItem _ hdenotes)
  simp at hsame

/-- Two lines: `[config.stats]` and `id = "[#]" # "`. -/
def bracketedId : Document where
  lines := [(.table ⟨[], rfl⟩
    ⟨⟨[], rfl⟩, ⟨"config".toList, by decide⟩, [(⟨[], rfl⟩, ⟨[], rfl⟩, ⟨"stats".toList, by decide⟩)], ⟨[], rfl⟩⟩
    ⟨⟨[], rfl⟩, none⟩, .lf)]
  last := .assign ⟨[], rfl⟩ ⟨"id".toList, by decide⟩ ⟨[' '], rfl⟩ ⟨[' '], rfl⟩
    (.str [.plain '[' rfl, .plain '#' rfl, .plain ']' rfl]) ⟨⟨[' '], rfl⟩, some ⟨[' ', '"'], by decide⟩⟩
  nodup := by decide

theorem parseTomlLite_bracketedId_iff :
    parseTomlLite bracketedId.text
        = .ok [("config", .table [("stats", .table [("id", .str "[#]".toList)])])] ↔ bracketedId.Readable :=
  parseTomlLite_iff bracketedId _ rfl

end Amicode.TomlLite
