import Amicode.Foundation.Pattern

/-!
# The import scan

Before a script is launched, the packages that its `using` and `import` lines name are checked against what is
allowed (`import_scan.ts`, step 2 of `gate.ts`). The scan looks at one line at a time: if it begins with one of the
two words, what follows is cut at its commas, and the first word of each part is a package.

The main result says when a script is accepted: no line breaks off at a comma, and all that the lines show is
permitted (`accepts_iff`).
-/

open List

namespace Amicode.ImportGate

open JsText (isSpace trim stripPrefix?)

abbrev Text := List Char

/-! ## The scan -/

def JULIA_STDLIBS : List String :=
  ["LinearAlgebra", "Random", "Statistics", "SparseArrays", "Printf", "TOML", "Dates", "Test", "Pkg",
    "Serialization", "SHA", "Logging", "Markdown", "UUIDs", "Distributed", "InteractiveUtils", "Base64", "Unicode",
    "REPL"]

/-- The characters `.` of a regular expression does not match. -/
def isLineTerminator (c : Char) : Bool := c.toNat ∈ [0x0A, 0x0D, 0x2028, 0x2029]

/-- `/^\s*(using|import)\s+(.+)$/`, its second group. -/
def IMPORT_LINE (line : Text) : Option Text :=
  let text := line.dropWhile isSpace
  match (stripPrefix? "using".toList text).or (stripPrefix? "import".toList text) with
  | none => none
  | some rest =>
    -- the white space takes all it can, but for the last one if nothing follows
    let payload := if rest.all isSpace then rest.drop (max 1 (rest.length - 1)) else rest.dropWhile isSpace
    if rest.head?.any isSpace ∧ payload ≠ [] ∧ payload.all (!isLineTerminator ·) then some payload else none

def stripComment (line : Text) : Text := line.takeWhile (· ≠ '#')

/-- What ends a root: `/[.:\s]/`. -/
def isSeparator (c : Char) : Bool := c = '.' ∨ c = ':' ∨ isSpace c

/-- The root that an item adds, unless it is there already. -/
def scanItem (roots : List Text) (item : Text) : List Text :=
  let trimmed := trim item
  if trimmed = [] then roots
  else
    let root := trimmed.takeWhile (!isSeparator ·)
    if root ≠ [] ∧ root ∉ roots then roots ++ [root] else roots

def scanLine (roots : List Text) (rawLine : Text) : Except Text (List Text) :=
  match IMPORT_LINE (stripComment rawLine) with
  | none => .ok roots
  | some found =>
    let payload := trim found
    if payload.getLast? = some ',' then
      .error "multi-line using/import not supported — one statement per line".toList
    else .ok ((payload.splitOn ',').foldl scanItem roots)

def scanImports (script : Text) : Except Text (List Text) := (script.splitOn '\n').foldlM scanLine []

/-- What an authoring configuration allows. -/
structure Allow where
  allowlist : List String
  support_set : List String

def Allow.permitted (allow : Allow) : List Text :=
  (allow.allowlist ++ allow.support_set ++ JULIA_STDLIBS).map (·.toList)

def checkImports (roots : List Text) (allow : Allow) : Except Text Unit :=
  let blocked := roots.filter (· ∉ allow.permitted)
  if blocked.length = 0 then .ok ()
  else
    .error (", ".toList.intercalate blocked ++
      ": not in the allowed package set (entitlement allowlist ∪ support set ∪ stdlibs)".toList)

def importStep (script : Text) (authoring : Allow) : Except Text Unit :=
  match scanImports script with
  | .error reason => .error reason
  | .ok roots => checkImports roots authoring

/-- The script passes the import step. -/
def Accepts (script : Text) (authoring : Allow) : Prop := importStep script authoring = .ok ()

/-- A package of this name may be loaded. -/
def Permitted (allow : Allow) (name : Text) : Prop := name ∈ allow.permitted

instance (allow : Allow) (name : Text) : Decidable (Permitted allow name) :=
  inferInstanceAs (Decidable (name ∈ allow.permitted))

/-! ## Lines that begin with a keyword -/

/-- What stands before the first white space of a line, behind its indentation. -/
def token (line : Text) : Text := (line.dropWhile isSpace).takeWhile (!isSpace ·)

def keywords : List Text := ["using".toList, "import".toList]

theorem notSpace_of_mem_keywords {word : Text} (h : word ∈ keywords) : ∀ c ∈ word, isSpace c = false := by
  simp only [keywords, mem_cons, not_mem_nil, or_false] at h
  rcases h with rfl | rfl <;> decide

/-- A line that the scan reads begins with one of the two words. -/
theorem token_mem_keywords {line payload : Text} (h : IMPORT_LINE line = some payload) : token line ∈ keywords := by
  unfold IMPORT_LINE at h
  dsimp only at h
  split at h
  · cases h
  · next rest hstrip =>
    have hhead : rest.head?.any isSpace = true := by
      by_contra hnot
      rw [if_neg fun hall ↦ hnot hall.1] at h
      cases h
    have hspace : rest.takeWhile (!isSpace ·) = [] := by
      rcases rest with _ | ⟨c, rest⟩
      · rfl
      · exact takeWhile_cons_of_neg (by simpa using hhead)
    have hword : ∀ word ∈ keywords, stripPrefix? word (line.dropWhile isSpace) = some rest → token line ∈ keywords := by
      intro word hmem hword
      rw [token, Pattern.stripPrefix?_eq_some hword,
        takeWhile_append_of_pos fun c hc ↦ by simp [notSpace_of_mem_keywords hmem c hc], hspace, append_nil]
      exact hmem
    rcases Option.or_eq_some_iff.mp hstrip with husing | ⟨-, himport⟩
    · exact hword _ (by simp [keywords]) husing
    · exact hword _ (by simp [keywords]) himport

theorem importLine_of_keyword {indent word gap rest : Text} (hindent : ∀ c ∈ indent, isSpace c = true)
    (hword : word ∈ keywords) (hgap : ∀ c ∈ gap, isSpace c = true) (hne : gap ≠ [])
    (hrest : rest.dropWhile isSpace ≠ []) :
    IMPORT_LINE (indent ++ (word ++ (gap ++ rest))) =
      if (rest.dropWhile isSpace).all (!isLineTerminator ·) then some (rest.dropWhile isSpace) else none := by
  have hdrop : (indent ++ (word ++ (gap ++ rest))).dropWhile isSpace = word ++ (gap ++ rest) := by
    rw [dropWhile_append_of_pos hindent]
    simp only [keywords, mem_cons, not_mem_nil, or_false] at hword
    rcases hword with rfl | rfl <;> exact dropWhile_cons_of_neg (by decide)
  have hstrip : (stripPrefix? "using".toList (word ++ (gap ++ rest))).or
      (stripPrefix? "import".toList (word ++ (gap ++ rest))) = some (gap ++ rest) := by
    simp only [keywords, mem_cons, not_mem_nil, or_false] at hword
    rcases hword with rfl | rfl <;> rw [Pattern.stripPrefix?_append] <;> rfl
  have hall : ¬ (gap ++ rest).all isSpace = true := by
    intro hall
    rw [all_append, Bool.and_eq_true] at hall
    exact hrest (dropWhile_eq_nil_iff.mpr (List.all_eq_true.mp hall.2))
  have hhead : (gap ++ rest).head?.any isSpace = true := by
    obtain ⟨c, gap, rfl⟩ := exists_cons_of_ne_nil hne
    exact hgap c mem_cons_self
  unfold IMPORT_LINE
  dsimp only
  rw [hdrop, hstrip]
  dsimp only
  rw [if_neg hall, dropWhile_append_of_pos hgap]
  by_cases hterminators : (rest.dropWhile isSpace).all (!isLineTerminator ·) = true
  · rw [if_pos ⟨hhead, hrest, hterminators⟩, if_pos hterminators]
  · rw [if_neg fun h ↦ hterminators h.2.2, if_neg hterminators]

/-! ## What the lines show -/

def firstWord (item : Text) : Text := (item.dropWhile isSpace).takeWhile (!isSeparator ·)

/-- The first words between the commas. -/
def shown (payload : Text) : List Text := (payload.splitOn ',').map firstWord

/-- The last character that is not white space is a comma. -/
def BreaksOff (payload : Text) : Prop := (trim payload).getLast? = some ','

instance (payload : Text) : Decidable (BreaksOff payload) :=
  inferInstanceAs (Decidable ((trim payload).getLast? = some ','))

theorem isSeparator_of_isSpace {c : Char} (h : isSpace c = true) : isSeparator c = true := by
  simp [isSeparator, h]

theorem takeWhile_append_space {text blank : Text} (h : ∀ c ∈ blank, isSpace c = true) :
    (text ++ blank).takeWhile (!isSeparator ·) = text.takeWhile (!isSeparator ·) := by
  induction text with
  | nil =>
    rcases blank with _ | ⟨c, blank⟩
    · rfl
    · exact takeWhile_cons_of_neg (by simp [isSeparator_of_isSpace (h c mem_cons_self)])
  | cons c text ih =>
    by_cases hc : isSeparator c = true
    · rw [cons_append, takeWhile_cons_of_neg (by simp [hc]), takeWhile_cons_of_neg (by simp [hc])]
    · rw [cons_append, takeWhile_cons_of_pos (by simp [hc]), takeWhile_cons_of_pos (by simp [hc]), ih]

theorem exists_trim_append (text : Text) :
    ∃ before after, text = before ++ trim text ++ after ∧ (∀ c ∈ before, isSpace c = true) ∧
      (∀ c ∈ after, isSpace c = true) ∧ text.dropWhile isSpace = trim text ++ after := by
  have hdrop : text.dropWhile isSpace
      = trim text ++ ((text.dropWhile isSpace).reverse.takeWhile isSpace).reverse := by
    rw [trim, ← reverse_append, takeWhile_append_dropWhile, reverse_reverse]
  refine ⟨text.takeWhile isSpace, ((text.dropWhile isSpace).reverse.takeWhile isSpace).reverse, ?_, ?_, ?_, hdrop⟩
  · rw [append_assoc, ← hdrop, takeWhile_append_dropWhile]
  · exact fun c hc ↦ mem_takeWhile_imp hc
  · exact fun c hc ↦ mem_takeWhile_imp (mem_reverse.mp hc)

theorem takeWhile_trim (item : Text) : (trim item).takeWhile (!isSeparator ·) = firstWord item := by
  obtain ⟨before, after, -, -, hafter, hdrop⟩ := exists_trim_append item
  rw [firstWord, hdrop, takeWhile_append_space hafter]

theorem firstWord_append_space {item blank : Text} (h : ∀ c ∈ blank, isSpace c = true) :
    firstWord (item ++ blank) = firstWord item := by
  have hdrop : (item ++ blank).dropWhile isSpace = item.dropWhile isSpace ++ (if item.all isSpace then [] else blank) := by
    rw [dropWhile_append]
    by_cases hitem : item.all isSpace = true
    · have hnil : item.dropWhile isSpace = [] := dropWhile_eq_nil_iff.mpr (by simpa using hitem)
      simpa [hnil, hitem] using h
    · have hne : item.dropWhile isSpace ≠ [] := fun hnil ↦ hitem (by simpa using dropWhile_eq_nil_iff.mp hnil)
      simp [hitem, hne]
  rw [firstWord, firstWord, hdrop]
  split_ifs
  · rw [append_nil]
  · exact takeWhile_append_space h

theorem firstWord_space_append {item blank : Text} (h : ∀ c ∈ blank, isSpace c = true) :
    firstWord (blank ++ item) = firstWord item := by
  rw [firstWord, dropWhile_append_of_pos h, firstWord]

theorem comma_notMem_of_isSpace {blank : Text} (h : ∀ c ∈ blank, isSpace c = true) : ',' ∉ blank :=
  fun hmem ↦ absurd (h _ hmem) (by decide)

theorem shown_space_append {payload blank : Text} (h : ∀ c ∈ blank, isSpace c = true) :
    shown (blank ++ payload) = shown payload := by
  unfold shown
  by_cases hcomma : ',' ∈ payload
  · obtain ⟨a, b, rfl, ha⟩ := eq_append_cons_of_mem hcomma
    have hblank : ',' ∉ blank ++ a := fun hmem ↦ (mem_append.mp hmem).elim (comma_notMem_of_isSpace h) ha
    rw [← append_assoc, splitOn_append_cons_self_of_not_mem hblank,
      splitOn_append_cons_self_of_not_mem ha, map_cons, map_cons, firstWord_space_append h]
  · have hblank : ',' ∉ blank ++ payload :=
      fun hmem ↦ (mem_append.mp hmem).elim (comma_notMem_of_isSpace h) hcomma
    rw [splitOn_eq_singleton hblank, splitOn_eq_singleton hcomma, map_singleton, map_singleton,
      firstWord_space_append h]

theorem shown_append_space {payload blank : Text} (h : ∀ c ∈ blank, isSpace c = true) :
    shown (payload ++ blank) = shown payload := by
  unfold shown
  -- the blank joins what follows the last comma
  by_cases hcomma : ',' ∈ payload
  · obtain ⟨b, a, hsplit, hb⟩ := eq_append_cons_of_mem (mem_reverse.mpr hcomma)
    have hpayload : payload = a.reverse ++ ',' :: b.reverse := by
      rw [← reverse_reverse payload, hsplit]
      simp
    have hb' : ',' ∉ b.reverse := fun hmem ↦ hb (mem_reverse.mp hmem)
    have hblank : ',' ∉ b.reverse ++ blank :=
      fun hmem ↦ (mem_append.mp hmem).elim hb' (comma_notMem_of_isSpace h)
    rw [hpayload, append_assoc, cons_append, splitOn_append_cons_self, splitOn_append_cons_self,
      splitOn_eq_singleton hblank, splitOn_eq_singleton hb', map_append, map_append,
      map_singleton, map_singleton, firstWord_append_space h]
  · have hblank : ',' ∉ payload ++ blank :=
      fun hmem ↦ (mem_append.mp hmem).elim hcomma (comma_notMem_of_isSpace h)
    rw [splitOn_eq_singleton hblank, splitOn_eq_singleton hcomma, map_singleton, map_singleton,
      firstWord_append_space h]

theorem shown_trim (payload : Text) : shown (trim payload) = shown payload := by
  obtain ⟨before, after, htext, hbefore, hafter, -⟩ := exists_trim_append payload
  conv_rhs => rw [htext]
  rw [append_assoc, shown_space_append hbefore, shown_append_space hafter]

/-! ## When a script is accepted -/

theorem mem_scanItem_iff {roots : List Text} {item root : Text} :
    root ∈ scanItem roots item ↔ root ∈ roots ∨ (root ≠ [] ∧ root = firstWord item) := by
  unfold scanItem
  dsimp only
  split_ifs with hempty hnew
  · have hnone : firstWord item = [] := by rw [← takeWhile_trim, hempty, takeWhile_nil]
    rw [hnone]
    exact ⟨.inl, fun h ↦ h.elim id fun h ↦ absurd h.2 h.1⟩
  · rw [takeWhile_trim] at hnew ⊢
    rw [mem_append, mem_singleton]
    exact or_congr_right ⟨fun h ↦ ⟨h ▸ hnew.1, h⟩, fun h ↦ h.2⟩
  · rw [takeWhile_trim] at hnew
    refine ⟨.inl, fun h ↦ h.elim id ?_⟩
    rintro ⟨hne, rfl⟩
    exact not_not.mp fun hnot ↦ hnew ⟨hne, hnot⟩

theorem mem_foldl_scanItem_iff {items roots : List Text} {root : Text} :
    root ∈ items.foldl scanItem roots ↔ root ∈ roots ∨ (root ≠ [] ∧ root ∈ items.map firstWord) := by
  induction items generalizing roots with
  | nil => simp
  | cons item items ih =>
    rw [foldl_cons, ih, mem_scanItem_iff, map_cons, mem_cons]
    tauto

/-- What a line names after `using` or `import`, if the scan sees that. -/
def payload? (rawLine : Text) : Option Text := IMPORT_LINE (stripComment rawLine)

theorem scanLine_eq (roots : List Text) {rawLine : Text} (h : ∀ payload ∈ payload? rawLine, ¬ BreaksOff payload) :
    ∃ roots', scanLine roots rawLine = .ok roots' ∧ ∀ root, root ∈ roots' ↔
      root ∈ roots ∨ (root ≠ [] ∧ ∃ payload ∈ payload? rawLine, root ∈ shown payload) := by
  unfold scanLine
  cases hpayload : payload? rawLine with
  | none =>
    rw [payload?] at hpayload
    rw [hpayload]
    exact ⟨roots, rfl, fun root ↦ by simp⟩
  | some payload =>
    have hwhole : ¬ (trim payload).getLast? = some ',' := h payload hpayload
    rw [payload?] at hpayload
    rw [hpayload]
    refine ⟨_, if_neg hwhole, fun root ↦ ?_⟩
    rw [mem_foldl_scanItem_iff, ← shown, shown_trim]
    simp

theorem scanLines_spec (rawLines roots : List Text) :
    if ∃ rawLine ∈ rawLines, ∃ payload ∈ payload? rawLine, BreaksOff payload then
      ∃ reason, rawLines.foldlM scanLine roots = .error reason
    else ∃ roots', rawLines.foldlM scanLine roots = .ok roots' ∧ ∀ root, root ∈ roots' ↔
      root ∈ roots ∨ (root ≠ [] ∧ ∃ rawLine ∈ rawLines, ∃ payload ∈ payload? rawLine, root ∈ shown payload) := by
  induction rawLines generalizing roots with
  | nil => exact ⟨roots, rfl, fun root ↦ by simp⟩
  | cons rawLine rawLines ih =>
    rw [foldlM_cons]
    by_cases hbreaks : ∃ payload ∈ payload? rawLine, BreaksOff payload
    · obtain ⟨payload, hpayload, hbreak⟩ := hbreaks
      rw [if_pos ⟨rawLine, mem_cons_self, payload, hpayload, hbreak⟩]
      rw [Option.mem_def, payload?] at hpayload
      have herror : scanLine roots rawLine
          = .error "multi-line using/import not supported — one statement per line".toList := by
        unfold scanLine
        rw [hpayload]
        exact if_pos hbreak
      exact ⟨_, by rw [herror]; rfl⟩
    · push Not at hbreaks
      obtain ⟨roots', hroots', hmem⟩ := scanLine_eq roots hbreaks
      rw [hroots']
      have hlater : (∃ line ∈ rawLine :: rawLines, ∃ payload ∈ payload? line, BreaksOff payload)
          ↔ ∃ line ∈ rawLines, ∃ payload ∈ payload? line, BreaksOff payload := by
        rw [exists_mem_cons_iff]
        exact or_iff_right fun ⟨payload, hpayload, hbreak⟩ ↦ hbreaks payload hpayload hbreak
      have ih := ih roots'
      simp only [hlater]
      split_ifs at ih ⊢ with hlines
      · exact ih
      · obtain ⟨roots'', hroots'', hmem'⟩ := ih
        refine ⟨roots'', hroots'', fun root ↦ ?_⟩
        rw [hmem', hmem, exists_mem_cons_iff, or_assoc, ← and_or_left]

theorem checkImports_eq_ok_iff {roots : List Text} {allow : Allow} :
    checkImports roots allow = .ok () ↔ ∀ root ∈ roots, Permitted allow root := by
  unfold checkImports Permitted
  dsimp only
  split_ifs with hblocked
  · rw [length_eq_zero_iff, filter_eq_nil_iff] at hblocked
    exact iff_of_true rfl fun root hroot ↦ by simpa using hblocked root hroot
  · rw [length_eq_zero_iff, filter_eq_nil_iff] at hblocked
    exact iff_of_false (by simp) fun h ↦ hblocked fun root hroot ↦ by simpa using h root hroot

theorem accepts_iff {script : Text} {allow : Allow} : Accepts script allow ↔
    ∀ rawLine ∈ script.splitOn '\n', ∀ payload ∈ payload? rawLine,
      ¬ BreaksOff payload ∧ ∀ root ∈ shown payload, root ≠ [] → Permitted allow root := by
  have hspec := scanLines_spec (script.splitOn '\n') []
  unfold Accepts importStep scanImports
  split_ifs at hspec with hbreaks
  · obtain ⟨reason, hreason⟩ := hspec
    rw [hreason]
    obtain ⟨rawLine, hline, payload, hpayload, hbreak⟩ := hbreaks
    exact iff_of_false (by simp) fun h ↦ (h rawLine hline payload hpayload).1 hbreak
  · obtain ⟨roots, hroots, hmem⟩ := hspec
    push Not at hbreaks
    rw [hroots]
    rw [checkImports_eq_ok_iff]
    constructor
    · exact fun h rawLine hline payload hpayload ↦ ⟨hbreaks rawLine hline payload hpayload,
        fun root hroot hne ↦ h root ((hmem root).mpr (.inr ⟨hne, rawLine, hline, payload, hpayload, hroot⟩))⟩
    · intro h root hroot
      rcases (hmem root).mp hroot with hroot | ⟨hne, rawLine, hline, payload, hpayload, hroot⟩
      · exact absurd hroot not_mem_nil
      · exact (h rawLine hline payload hpayload).2 root hroot hne

end Amicode.ImportGate

/-!
# Scripts

A Julia script as it is written: lines of statements with semicolons between them, some of them inside `begin … end`,
with line comments. A `using` or `import` statement names packages, or selects names of one package, and may go on in
the next line behind a comma. What it loads is read off the statements, not off the text.
-/

namespace Amicode.ImportGate

open JsText (isSpace)

/-! ## The pieces of a statement -/

/-- Indentation, or white space inside a line. -/
structure Blank where
  text : Text
  chars : ∀ c ∈ text, c = ' ' ∨ c = '\t'

/-- White space that separates two words. -/
structure Gap extends Blank where
  ne : text ≠ []

def isNameChar (c : Char) : Bool := !isSpace c && c ∉ ['.', ':', ',', ';', '#']

def reserved : List Text := ["using".toList, "import".toList, "as".toList, "begin".toList, "end".toList]

structure Name where
  text : Text
  ne : text ≠ []
  chars : ∀ c ∈ text, isNameChar c = true
  notReserved : text ∉ reserved

/-- `A.B.C`, or with dots in front of it a module of the script itself. -/
structure Path where
  dots : ℕ
  root : Name
  rest : List Name

def Path.text (path : Path) : Text :=
  List.replicate path.dots '.' ++ (path.root.text ++ path.rest.flatMap ('.' :: ·.text))

def Path.package? (path : Path) : Option Text := if path.dots = 0 then some path.root.text else none

/-- A path or a name between commas, maybe with a new name. -/
structure Item where
  before : Blank
  path : Path
  rename : Option (Gap × Gap × Name)
  after : Blank

/-- `as` and the new name. -/
def Item.renameText (item : Item) : Text :=
  match item.rename with
  | none => []
  | some (before, after, name) => before.text ++ "as".toList ++ after.text ++ name.text

def Item.text (item : Item) : Text :=
  item.before.text ++ (item.path.text ++ (item.renameText ++ item.after.text))

/-- What stands behind `using` or `import`: packages, or names of one package. -/
structure Clause where
  source : Option (Path × Blank)
  first : Item
  rest : List Item

/-- The package that names are selected from. -/
def Clause.sourceText (clause : Clause) : Text :=
  match clause.source with
  | none => []
  | some (path, blank) => path.text ++ (blank.text ++ [':'])

def Clause.text (clause : Clause) : Text :=
  clause.sourceText ++ (clause.first.text ++ clause.rest.flatMap (',' :: ·.text))

def Clause.loads (clause : Clause) : List Text :=
  match clause.source with
  | none => (clause.first :: clause.rest).filterMap (·.path.package?)
  | some (path, _) => path.package?.toList

/-- The first names of what is selected after the first comma. -/
def Clause.selectedLater (clause : Clause) : List Text :=
  match clause.source with
  | none => []
  | some _ => clause.rest.filterMap (·.path.package?)

/-! ## Statements, lines and scripts -/

/-- A statement that is neither `using` nor `import`. -/
structure Other where
  text : Text
  oneLine : '\n' ∉ text
  notImport : token (stripComment text) ∉ keywords

inductive Keyword
  | usingWord
  | importWord

def Keyword.text : Keyword → Text
  | .usingWord => "using".toList
  | .importWord => "import".toList

inductive Core
  /-- With a comma behind it, the statement goes on in the next line. -/
  | imports (keyword : Keyword) (gap : Gap) (clause : Clause) (breaks : Bool)
  /-- The rest of a statement that the line before began, packages or names. -/
  | continues (packages : Bool) (first : Item) (rest : List Item) (breaks : Bool)
  | other (statement : Other)

def commaIf (breaks : Bool) : Text := if breaks then [','] else []

def Core.text : Core → Text
  | .imports keyword gap clause breaks => keyword.text ++ (gap.text ++ (clause.text ++ commaIf breaks))
  | .continues _ first rest breaks => first.text ++ (rest.flatMap (',' :: ·.text) ++ commaIf breaks)
  | .other statement => statement.text

def Core.loads : Core → List Text
  | .imports _ _ clause _ => clause.loads
  | .continues packages first rest _ => if packages then (first :: rest).filterMap (·.path.package?) else []
  | .other _ => []

/-- A statement, with the blocks that begin before it and end behind it in its line. -/
structure Statement where
  before : Blank
  begins : List Gap
  core : Core
  ends : List Gap
  after : Blank

/-- What stands behind a statement up to the next one. -/
def Statement.tail (statement : Statement) : Text :=
  statement.ends.flatMap (fun gap ↦ gap.text ++ "end".toList) ++ statement.after.text

def Statement.text (statement : Statement) : Text :=
  statement.before.text ++ (statement.begins.flatMap (fun gap ↦ "begin".toList ++ gap.text) ++
    (statement.core.text ++ statement.tail))

structure Line where
  first : Statement
  rest : List Statement
  comment : Option Text
  /-- The line ends with CR LF. -/
  cr : Bool
  oneLine : ∀ text ∈ comment, '\n' ∉ text

/-- What stands behind the first statement of a line. -/
def Line.tail (line : Line) : Text :=
  line.first.tail ++ (line.rest.flatMap (';' :: ·.text) ++
    (line.comment.elim [] ('#' :: ·) ++ if line.cr then ['\r'] else []))

def Line.text (line : Line) : Text :=
  line.first.before.text ++ (line.first.begins.flatMap (fun gap ↦ "begin".toList ++ gap.text) ++
    (line.first.core.text ++ line.tail))

def Line.statements (line : Line) : List Statement := line.first :: line.rest

structure Script where
  lines : List Line
  ne : lines ≠ []

def Script.text (script : Script) : Text := ['\n'].intercalate (script.lines.map (·.text))

def Script.loads (script : Script) : List Text :=
  script.lines.flatMap fun line ↦ line.statements.flatMap (·.core.loads)

end Amicode.ImportGate
