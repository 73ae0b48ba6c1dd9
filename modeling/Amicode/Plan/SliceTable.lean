import Amicode.Plan.Compile

/-!
# The plan table of a spec

A spec executes itself: the rows of the table under `## Plan` are steps, each to be filed as an issue
(`spec_slices.ts`). A row has a number, by which other rows name it, the repository of its issue, and a text; if
the first issue the text refers to stands in certain places, the row adopts that issue and files none.

A row number is what `Number` makes of digits, so it is a double, or infinite.
-/

open List

namespace Amicode.Plan

def SLICES_ORG : String := "harmoniqs"

inductive PlanTableErrorKind
  | missingTable
  | badHeader
  | badRow
  | duplicateRow
  | badTaskType
  | danglingAfter
  | afterCycle
  deriving DecidableEq, Repr

structure PlanTableError where
  kind : PlanTableErrorKind
  message : String

/-- The repository is `owner/name`. -/
structure IssueAddr where
  repo : String
  number : Option ℕ
  deriving DecidableEq

/-- A row of the table. -/
structure SliceStep extends CompiledStep where
  row : Option ℕ
  tier : Option ℕ
  title : String
  repo : String
  adopts : Option IssueAddr

def EXPECTED_HEADER : List String := ["#", "tier", "step", "repo", "task_type", "after"]

/-- What an `after` cell of a row holds that is after none. -/
def NONE : List String := ["—", "–", "-", ""]

/-! ## Adoption -/

/-- `[A-Za-z0-9._-]`. -/
def isNameChar (c : Char) : Bool := c.isAlphanum || c = '.' || c = '_' || c = '-'

/-- `\w`. -/
def isWordChar (c : Char) : Bool := c.isAlphanum || c = '_'

/-- `text.replace(/`[^`]*`/g, spaces)`: code spans give way to spaces. -/
def blankCode : Bool → List Char → List Char
  | _, [] => []
  | true, c :: text => ' ' :: blankCode (c ≠ '`') text
  | false, c :: text =>
    if c = '`' ∧ '`' ∈ text then ' ' :: blankCode true text else c :: blankCode false text

/-- A reference to an issue, and the text after it. -/
structure IssueRef where
  owner : List Char
  repo : List Char
  digits : List Char
  rest : List Char

/-- `#` and digits that no word goes on. -/
def issueNumber? (owner repo : List Char) : List Char → Option IssueRef
  | '#' :: text =>
    let digits := text.takeWhile JsText.isDigit
    let rest := text.dropWhile JsText.isDigit
    if digits = [] || rest.head?.any isWordChar then none else some ⟨owner, repo, digits, rest⟩
  | _ => none

/-- The reference at the front of a text: `owner/repo#N`, `repo#N`, `#N`. -/
def issueRefAt? (text : List Char) : Option IssueRef :=
  let word := text.takeWhile isNameChar
  match text.dropWhile isNameChar with
  | '/' :: rest =>
    if word = [] then none
    else issueNumber? word (rest.takeWhile isNameChar) (rest.dropWhile isNameChar)
  | rest => issueNumber? [] word rest

/-- The first reference of a text, and the character before it. None begins inside a word or a path. -/
def firstIssueRef? : Option Char → List Char → Option (Option Char × IssueRef)
  | _, [] => none
  | before, c :: text =>
    if before.any fun b ↦ isWordChar b || b = '.' || b = '/' || b = '#' || b = '-' then
      firstIssueRef? (some c) text
    else
      match issueRefAt? (c :: text) with
      | some ref => some (before, ref)
      | none => firstIssueRef? (some c) text

def parseAdoption (stepText : List Char) (rowRepo : String) : Option IssueAddr :=
  match firstIssueRef? none (blankCode false (JsText.trim stepText)) with
  | none => none
  | some (before, ref) =>
    let number := JsNumber.number ref.digits
    if ref.owner ≠ [] ∧ ref.repo ≠ [] then
      some ⟨String.ofList ref.owner ++ "/" ++ String.ofList ref.repo, number⟩
    else if ref.repo ≠ [] then some ⟨SLICES_ORG ++ "/" ++ String.ofList ref.repo, number⟩
    else
      let parenthesized := before = some '(' ∧ ref.rest.head? = some ')'
      if parenthesized ∨ before = none then some ⟨SLICES_ORG ++ "/" ++ rowRepo, number⟩ else none

/-! ## Lines of the table -/

/-- The pieces of a line at the pipes that are not escaped. -/
def pipePieces : List Char → List (List Char)
  | [] => [[]]
  | '\\' :: '|' :: line => JsText.consHead '|' (pipePieces line)
  | '|' :: line => [] :: pipePieces line
  | c :: line => JsText.consHead c (pipePieces line)

def startsWithPipe (line : List Char) : Bool := (JsText.trim line).head? = some '|'

def cells (line : List Char) : List (List Char) :=
  let t := JsText.trim line
  let out := pipePieces line
  let out := if startsWithPipe line then out.tail else out
  let out := if "|".toList.isSuffixOf t && !"\\|".toList.isSuffixOf t then out.dropLast else out
  out.map JsText.trim

/-- `/^##\s+Plan\s*$/`. -/
def isPlanHeading (line : List Char) : Bool :=
  match JsText.stripPrefix? "##".toList line with
  | none => false
  | some rest =>
    match JsText.stripPrefix? "Plan".toList (rest.dropWhile JsText.isSpace) with
    | none => false
    | some tail => rest.head?.any JsText.isSpace && tail.all JsText.isSpace

/-- `/^#{1,2}\s/`. -/
def endsSection : List Char → Bool
  | '#' :: '#' :: c :: _ => JsText.isSpace c
  | '#' :: c :: _ => JsText.isSpace c
  | _ => false

/-- `/^:?-+:?$/`. -/
def isSeparatorCell (cell : List Char) : Bool :=
  let dashes := (JsText.stripPrefix? ":".toList cell).getD cell
  (dashes.head? = some '-') && (dashes.dropWhile (· = '-') ∈ [[], [':']])

/-- `/^\d+$/`. -/
def isDigits (cell : List Char) : Bool := !cell.isEmpty && cell.all JsText.isDigit

def cellText (cell : List Char) : String := String.ofList cell

/-- `String(number)`. -/
def rowText (n : Option ℕ) : String := String.ofList (JsNumber.numberText n)

/-- The `after` cell: the rows a row is after. -/
def readAfter (place : String) (afterRaw : List Char) : Except PlanTableError (Option (List String)) :=
  if cellText afterRaw ∈ NONE then .ok none
  else
    let needs := (JsText.splitOn [','] afterRaw).map JsText.trim
    if needs.all isDigits then .ok (some (needs.map cellText))
    else .error ⟨.badRow, place ++ ": after must be row numbers or —, got \"" ++ cellText afterRaw ++ "\""⟩

/-- One line of the table, given the row numbers before it. -/
def readRow (place : String) (seen : List (Option ℕ)) : List (List Char) → Except PlanTableError SliceStep
  | [num, tierRaw, title, repo, task_type, afterRaw] =>
    let row := JsNumber.number num
    if !isDigits num then
      .error ⟨.badRow, place ++ ": row number must be a non-negative integer, got \"" ++ cellText num ++ "\""⟩
    else if row ∈ seen then
      .error ⟨.duplicateRow, place ++ ": row " ++ rowText row ++ " appears twice"⟩
    else if !isDigits tierRaw then
      .error ⟨.badRow, place ++ ": tier must be an integer, got \"" ++ cellText tierRaw ++ "\""⟩
    else if title = [] then .error ⟨.badRow, place ++ ": empty step"⟩
    else if repo = [] || !repo.all isNameChar then
      .error ⟨.badRow, place ++ ": repo must be a bare harmoniqs repo name, got \"" ++ cellText repo ++ "\""⟩
    else if cellText task_type ∉ TASK_TYPES then
      .error ⟨.badTaskType, place ++ ": task_type \"" ++ cellText task_type ++ "\" is not one of ("
        ++ String.intercalate ", " TASK_TYPES ++ ")"⟩
    else
      match readAfter place afterRaw with
      | .error e => .error e
      | .ok needs =>
        .ok {
          id := rowText row
          model := ""
          task_type := cellText task_type
          variant := none
          gates := none
          needs := needs
          optional := false
          device := none
          row := row
          tier := JsNumber.number tierRaw
          title := cellText title
          repo := cellText repo
          adopts := parseAdoption title (cellText repo) }
  | cells => .error ⟨.badRow, place ++ ": expected 6 cells, got " ++ toString cells.length⟩

/-- The lines below the separator, as far as the table goes; `line` counts from the top of the note. -/
def readRows (line : ℕ) (seen : List (Option ℕ)) : List (List Char) → Except PlanTableError (List SliceStep)
  | [] => .ok []
  | l :: rest =>
    if startsWithPipe l then
      match readRow ("Plan table line " ++ toString line) seen (cells l) with
      | .error e => .error e
      | .ok step =>
        match readRows (line + 1) (step.row :: seen) rest with
        | .error e => .error e
        | .ok steps => .ok (step :: steps)
    else .ok []

/-! ## Edges -/

/-- The first row that is after none of the table, or after itself. -/
def checkAfter (rows : List (Option ℕ)) (s : SliceStep) : List String → Except PlanTableError Unit
  | [] => .ok ()
  | n :: rest =>
    let number := JsNumber.number n.toList
    if number ∉ rows then
      .error ⟨.danglingAfter,
        "row " ++ rowText s.row ++ ": after names row " ++ n ++ ", which is not in the table"⟩
    else if number = s.row then .error ⟨.afterCycle, "row " ++ rowText s.row ++ " is after itself"⟩
    else checkAfter rows s rest

def checkAfters (rows : List (Option ℕ)) : List SliceStep → Except PlanTableError Unit
  | [] => .ok ()
  | s :: rest =>
    match checkAfter rows s (s.needs.getD []) with
    | .error e => .error e
    | .ok () => checkAfters rows rest

/-- The search for a cycle: the ids it is done with, and those it is below. -/
structure CycleSearch where
  done : List String
  stack : List String

def needsOf (steps : List SliceStep) (id : String) : List String :=
  ((steps.reverse.find? (·.id = id)).bind (·.needs)).getD []

/-- Visit an id; the error is the cycle. Below an id are only ids of the table, and each at most once, so that
the depth is that of the table at most. -/
def visit (steps : List SliceStep) : ℕ → CycleSearch → String → Except (List String) CycleSearch
  | 0, search, _ => .ok search
  | depth + 1, search, id =>
    if id ∈ search.done then .ok search
    else if id ∈ search.stack then .error (search.stack.dropWhile (· ≠ id) ++ [id])
    else
      match (needsOf steps id).foldlM (visit steps depth) { search with stack := search.stack ++ [id] } with
      | .error cycle => .error cycle
      | .ok below => .ok { done := id :: below.done, stack := search.stack }

def findCycle (steps : List SliceStep) : Option (List String) :=
  match (steps.map (·.id)).foldlM (visit steps (steps.length + 2)) { done := [], stack := [] } with
  | .error cycle => some cycle
  | .ok _ => none

/-! ## The table -/

/-- The lines of the `## Plan` section, and the index of its heading. -/
def planSection? (lines : List (List Char)) : Option (ℕ × List (List Char)) :=
  match lines.dropWhile (!isPlanHeading ·) with
  | [] => none
  | _ :: rest => some (lines.findIdx isPlanHeading, rest.takeWhile (!endsSection ·))

def parsePlanTable (markdown : List Char) : Except PlanTableError (List SliceStep) :=
  match planSection? (JsText.splitLines markdown) with
  | none => .error ⟨.missingTable, "no `## Plan` section in the spec"⟩
  | some (start, lines) =>
    match lines.dropWhile (!startsWithPipe ·) with
    | [] => .error ⟨.missingTable, "the `## Plan` section has no table"⟩
    | head :: rest =>
      let headerAt := lines.findIdx startsWithPipe
      let header := (cells head).map cellText
      if header ≠ EXPECTED_HEADER then
        .error ⟨.badHeader, "Plan table header must be | " ++ String.intercalate " | " EXPECTED_HEADER
          ++ " |, got | " ++ String.intercalate " | " header ++ " |"⟩
      else
        match rest with
        | [] => .error ⟨.badHeader, "Plan table header is not followed by a |---| separator line"⟩
        | sep :: rows =>
          if !(cells sep).all isSeparatorCell then
            .error ⟨.badHeader, "Plan table header is not followed by a |---| separator line"⟩
          else
            match readRows (start + headerAt + 4) [] rows with
            | .error e => .error e
            | .ok steps =>
              if steps = [] then .error ⟨.missingTable, "the Plan table has no rows"⟩
              else
                match checkAfters (steps.map (·.row)) steps with
                | .error e => .error e
                | .ok () =>
                  match findCycle steps with
                  | some cycle =>
                    .error ⟨.afterCycle, "after edges form a cycle: " ++ String.intercalate " → " cycle⟩
                  | none => .ok steps

/-! ## What is accepted -/

structure RowChecked (s : SliceStep) : Prop where
  id : s.id = rowText s.row
  number : ∀ n, s.row = some n → JsNumber.toDouble n = n
  task_type : s.task_type ∈ TASK_TYPES
  needs : ∀ n ∈ s.needs.getD [], isDigits n.toList = true

/-- What is checked of a table. -/
structure Accepted (steps : List SliceStep) : Prop where
  nonempty : steps ≠ []
  rows : (steps.map (·.row)).Nodup
  checked : ∀ s ∈ steps, RowChecked s
  needs : ∀ s ∈ steps, ∀ n ∈ s.needs.getD [], JsNumber.number n.toList ∈ steps.map (·.row)

theorem isDigits_iff {cell : List Char} :
    isDigits cell = true ↔ cell ≠ [] ∧ ∀ c ∈ cell, JsText.isDigit c = true := by
  simp [isDigits]

theorem readAfter_digits {place : String} {afterRaw : List Char} {needs : Option (List String)}
    (h : readAfter place afterRaw = .ok needs) : ∀ n ∈ needs.getD [], isDigits n.toList = true := by
  unfold readAfter at h
  dsimp only at h
  split_ifs at h with hnone hdigits
  · cases h
    exact fun n hn ↦ absurd hn not_mem_nil
  · cases h
    intro n hn
    obtain ⟨cell, hcell, rfl⟩ := List.mem_map.mp hn
    rw [cellText, String.toList_ofList]
    exact List.all_eq_true.mp hdigits cell hcell

theorem checked_of_readRow {place : String} {seen : List (Option ℕ)} {row : List (List Char)} {s : SliceStep}
    (h : readRow place seen row = .ok s) : RowChecked s ∧ s.row ∉ seen := by
  unfold readRow at h
  split at h
  · next num tierRaw title repo task_type afterRaw =>
    dsimp only at h
    split_ifs at h with hnum hseen htier htitle hrepo htask
    split at h
    · cases h
    · next needs hneeds =>
      cases h
      refine ⟨⟨rfl, ?_, htask, readAfter_digits hneeds⟩, hseen⟩
      have hdigits := isDigits_iff.mp (by simpa using hnum)
      exact fun n hn ↦ JsNumber.toDouble_number hdigits.1 hdigits.2 hn
  · cases h

variable {steps : List SliceStep}

theorem checked_of_readRows {line : ℕ} {seen : List (Option ℕ)} {lines : List (List Char)}
    (h : readRows line seen lines = .ok steps) :
    (∀ s ∈ steps, RowChecked s ∧ s.row ∉ seen) ∧ (steps.map (·.row)).Nodup := by
  induction lines generalizing line seen steps with
  | nil =>
    cases h
    exact ⟨fun s hs ↦ absurd hs not_mem_nil, nodup_nil⟩
  | cons l rest ih =>
    rw [readRows] at h
    split at h
    · split at h
      · cases h
      · next step hstep =>
        split at h
        · cases h
        · next tail htail =>
          cases h
          obtain ⟨hchecked, hnodup⟩ := ih htail
          refine ⟨fun s hs ↦ ?_, ?_⟩
          · obtain rfl | hs := mem_cons.mp hs
            · exact checked_of_readRow hstep
            · exact ⟨(hchecked s hs).1, fun hmem ↦ (hchecked s hs).2 (mem_cons_of_mem _ hmem)⟩
          · rw [map_cons, nodup_cons]
            refine ⟨fun hmem ↦ ?_, hnodup⟩
            obtain ⟨s, hs, hrow⟩ := List.mem_map.mp hmem
            exact (hchecked s hs).2 (hrow ▸ mem_cons_self)
    · cases h
      exact ⟨fun s hs ↦ absurd hs not_mem_nil, nodup_nil⟩

theorem needs_of_checkAfter {rows : List (Option ℕ)} {s : SliceStep} {needs : List String}
    (h : checkAfter rows s needs = .ok ()) : ∀ n ∈ needs, JsNumber.number n.toList ∈ rows := by
  induction needs with
  | nil => exact fun n hn ↦ absurd hn not_mem_nil
  | cons m rest ih =>
    unfold checkAfter at h
    dsimp only at h
    split_ifs at h with hrow hself
    intro n hn
    obtain rfl | hn := mem_cons.mp hn
    · exact hrow
    · exact ih h n hn

theorem needs_of_checkAfters {rows : List (Option ℕ)}
    (h : checkAfters rows steps = .ok ()) :
    ∀ s ∈ steps, ∀ n ∈ s.needs.getD [], JsNumber.number n.toList ∈ rows := by
  induction steps with
  | nil => exact fun s hs ↦ absurd hs not_mem_nil
  | cons t rest ih =>
    rw [checkAfters] at h
    split at h
    · cases h
    · next hcheck =>
      intro s hs
      obtain rfl | hs := mem_cons.mp hs
      · exact needs_of_checkAfter hcheck
      · exact ih h s hs

theorem accepted_of_parsePlanTable {markdown : List Char}
    (h : parsePlanTable markdown = .ok steps) : Accepted steps := by
  unfold parsePlanTable at h
  split at h
  · cases h
  split at h
  · cases h
  dsimp only at h
  split_ifs at h
  split at h
  · cases h
  split_ifs at h
  split at h
  · cases h
  next rows hrows =>
  split_ifs at h with hempty
  split at h
  · cases h
  next hafters =>
  split at h
  · cases h
  cases h
  obtain ⟨hchecked, hnodup⟩ := checked_of_readRows hrows
  exact ⟨hempty, hnodup, fun s hs ↦ (hchecked s hs).1, needs_of_checkAfters hafters⟩

structure PlanTable where
  markdown : List Char
  steps : List SliceStep
  parsed : parsePlanTable markdown = .ok steps

theorem PlanTable.accepted (table : PlanTable) : Accepted table.steps := accepted_of_parsePlanTable table.parsed

end Amicode.Plan
