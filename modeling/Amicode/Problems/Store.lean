import Amicode.Foundation.InsertionMap
import Amicode.Foundation.JsText
import Mathlib.Data.Set.Finite.Basic
import Mathlib.Data.Set.Finite.Range

/-!
# Slugs and paths of problem workspaces

The directory of a problem is called by its slug, which is made of its name: lower case, with a dash for
whatever is neither a letter nor a digit (`opencode-plugin/entities.ts`). It shares its place with the pointer
to the active problem, and the functions that take a slug join it to the root as a path, so that other texts
than a slug lead to the same directory (`opencode-plugin/problems.ts`).

Lower case is that of the language, here any map of texts.
-/

namespace Amicode.Problems

open JsText

abbrev Text := List Char

/-- `[a-z0-9]`. -/
def isSlugChar (c : Char) : Bool := ('a' ≤ c && c ≤ 'z') || isDigit c

/-- `replace(/[^a-z0-9]+/g, "-")`; the flag says that the text stands within a run. -/
def dashRuns : Bool → Text → Text
  | _, [] => []
  | inRun, c :: rest =>
    if isSlugChar c then c :: dashRuns false rest
    else if inRun then dashRuns true rest
    else '-' :: dashRuns true rest

/-- `replace(/^-+|-+$/g, "")`. -/
def stripDashes (text : Text) : Text := (text.dropWhile (· = '-')).rdropWhile (· = '-')

def deriveSlug (toLowerCase : Text → Text) (name : Text) : Text :=
  match stripDashes (dashRuns false (toLowerCase name)) with
  | [] => "untitled".toList
  | slug => slug

/-- `${base}-${i}`. -/
def candidate (base : Text) (i : ℕ) : Text := base ++ '-' :: decimal i

theorem candidate_injective (base : Text) : Function.Injective (candidate base) := by
  intro i j h
  have h := congrArg decimal? (List.cons.inj (List.append_cancel_left h)).2
  rwa [decimal?_decimal, decimal?_decimal, Option.some.injEq] at h

variable (taken : List Text)

theorem exists_free (base : Text) : ∃ i, candidate base (i + 2) ∉ taken := by
  have hinjective : Function.Injective fun i ↦ candidate base (i + 2) :=
    fun i j h ↦ Nat.add_right_cancel (candidate_injective base h)
  by_contra! hall
  exact Set.infinite_range_of_injective hinjective
    ((List.finite_toSet taken).subset (Set.range_subset_iff.mpr hall))

/-- The base, or the first of its numbered names that is not taken. -/
def uniqueSlug (taken : List Text) (base : Text) : Text :=
  if base ∈ taken then candidate base (Nat.find (exists_free taken base) + 2) else base

theorem uniqueSlug_notMem (base : Text) : uniqueSlug taken base ∉ taken := by
  unfold uniqueSlug
  split_ifs with h
  · exact Nat.find_spec (exists_free taken base)
  · exact h

/-! ## Paths -/

/-- Walk a path: empty parts and `.` stay, `..` goes up. -/
def walk : List Text → List Text → List Text
  | place, [] => place
  | place, part :: parts =>
    if part = [] ∨ part = ['.'] then walk place parts
    else if part = ['.', '.'] then walk place.dropLast parts
    else walk (place ++ [part]) parts

/-- The place that `path.join(root, text)` names, if it is right below the root. -/
def childOf (root : List Text) (text : Text) : Option Text :=
  let place := walk root (splitOn ['/'] text)
  if place.dropLast = root then place.getLast? else none

/-- A name that a path of one part spells. -/
structure Plain (text : Text) : Prop where
  ne_nil : text ≠ []
  char : ∀ c ∈ text, isSlugChar c = true ∨ c = '-'

theorem isSpace_of_slugChar {c : Char} (h : isSlugChar c = true ∨ c = '-') : isSpace c = false := by
  have hrange : c.toNat = 45 ∨ (48 ≤ c.toNat ∧ c.toNat ≤ 57) ∨ (97 ≤ c.toNat ∧ c.toNat ≤ 122) := by
    rcases h with h | rfl
    · simp only [isSlugChar, isDigit, Bool.or_eq_true, Bool.and_eq_true, decide_eq_true_eq] at h
      exact .inr (h.symm.imp id id)
    · exact .inl rfl
  simp only [isSpace, Bool.or_eq_false_iff, Bool.and_eq_false_iff, decide_eq_false_iff_not, beq_eq_false_iff_ne]
  omega

variable {text : Text}

theorem slash_notMem (h : ∀ c ∈ text, isSlugChar c = true ∨ c = '-') : '/' ∉ text := by
  intro hmem
  exact absurd (h '/' hmem) (by decide)

theorem dot_notMem (h : ∀ c ∈ text, isSlugChar c = true ∨ c = '-') : '.' ∉ text := by
  intro hmem
  exact absurd (h '.' hmem) (by decide)

theorem childOf_plain (root : List Text) (h : Plain text) : childOf root text = some text := by
  have hdot : '.' ∉ text := dot_notMem h.char
  have hparts : splitOn ['/'] text = [text] := splitOn_of_notMem (slash_notMem h.char)
  have hempty : ¬ (text = [] ∨ text = ['.']) := by
    rintro (rfl | rfl)
    · exact h.ne_nil rfl
    · exact hdot (by decide)
  have hup : ¬ text = ['.', '.'] := by
    rintro rfl
    exact hdot (by decide)
  unfold childOf
  rw [hparts, walk, if_neg hempty, if_neg hup, walk]
  simp

theorem trim_plain (h : Plain text) : trim (text ++ ['\n']) = text :=
  trim_concat_newline h.ne_nil fun c hc ↦ isSpace_of_slugChar (h.char c hc)

/-! ## Slugs are plain -/

theorem char_dashRuns {inRun : Bool} {c : Char} (h : c ∈ dashRuns inRun text) :
    isSlugChar c = true ∨ c = '-' := by
  induction text generalizing inRun with
  | nil => exact absurd h List.not_mem_nil
  | cons d rest ih =>
    unfold dashRuns at h
    split_ifs at h with hd hrun
    · rcases List.mem_cons.mp h with rfl | h
      · exact .inl hd
      · exact ih h
    · exact ih h
    · rcases List.mem_cons.mp h with rfl | h
      · exact .inr rfl
      · exact ih h

theorem mem_of_mem_stripDashes {c : Char} (h : c ∈ stripDashes text) : c ∈ text :=
  (List.dropWhile_sublist _).subset ((List.rdropWhile_prefix _ _).subset h)

theorem plain_deriveSlug (toLowerCase : Text → Text) (name : Text) : Plain (deriveSlug toLowerCase name) := by
  unfold deriveSlug
  split
  · exact ⟨by decide, by decide⟩
  · next hslug => exact ⟨hslug, fun c hc ↦ char_dashRuns (mem_of_mem_stripDashes hc)⟩

theorem plain_candidate {base : Text} (h : Plain base) (i : ℕ) : Plain (candidate base i) := by
  refine ⟨by simp [candidate], fun c hc ↦ ?_⟩
  rcases List.mem_append.mp hc with hc | hc
  · exact h.char c hc
  · rcases List.mem_cons.mp hc with rfl | hc
    · exact .inr rfl
    · exact .inl (by simp [isSlugChar, isDigit_of_mem_decimal hc])

theorem plain_uniqueSlug {base : Text} (h : Plain base) : Plain (uniqueSlug taken base) := by
  unfold uniqueSlug
  split_ifs
  · exact plain_candidate h _
  · exact h

end Amicode.Problems

/-!
# The store of problem workspaces

A problem has a directory of its own under one root, with its record, which is written twice, and its log of
events. Beside the directories lies the pointer to the active problem (`opencode-plugin/problems.ts`).

Of a directory the model has the record and the log, which are all that these functions write. The calls come
one at a time. Nothing outside the root is a workspace.
-/

namespace Amicode.Problems

open InsertionMap JsText

inductive Status
  | designing
  | archived
deriving DecidableEq

structure ProblemMeta where
  name : Text
  slug : Text
  created : ℕ
  status : Status
  recorded : Option ℕ
deriving DecidableEq

/-- What an event records, with its diff. -/
inductive Action
  | created
  | renamed (name : Text × Text) (slug : Option (Text × Text))
  | archived (status : Status × Status)
deriving DecidableEq

structure LogEvent where
  seq : ℕ
  ts : ℕ
  action : Action
deriving DecidableEq

structure Workspace where
  problem : ProblemMeta
  events : List LogEvent
deriving DecidableEq

structure Store where
  dirs : List (Text × Workspace)
  /-- The text of the pointer file. -/
  active : Option Text
deriving DecidableEq

def Store.empty : Store := ⟨[], none⟩

structure Env where
  /-- The parts of the root's path. -/
  root : List Text
  toLowerCase : Text → Text
  /-- How long the name of a directory can be. -/
  nameMax : ℕ

inductive Failure
  | noSuchProblem (slug : Text)
  /-- The pointer is a directory. -/
  | EISDIR
  | ENAMETOOLONG
deriving DecidableEq

/-- What a call leaves, and what it returns or throws. -/
abbrev Result := Store × Except Failure (Option ProblemMeta)

def ACTIVE_FILE : Text := "active".toList

def Store.workspace? (s : Store) (dir : Text) : Option Workspace := Entries.get? s.dirs dir

def Store.setWorkspace (s : Store) (dir : Text) (w : Workspace) : Store := { s with dirs := Entries.set s.dirs dir w }

/-- The names that are there. -/
def Store.taken (s : Store) : List Text := s.dirs.map Prod.fst ++ (s.active.map fun _ ↦ ACTIVE_FILE).toList

/-- The pointer can be neither read nor written: its path is that of a workspace. -/
def Store.obstructed (s : Store) : Bool := (s.workspace? ACTIVE_FILE).isSome

/-- `readProblemMeta` with the directory that a text leads to. -/
def findProblem (env : Env) (s : Store) (text : Text) : Option (Text × Workspace) :=
  (childOf env.root text).bind fun dir ↦ (s.workspace? dir).map fun w ↦ (dir, w)

/-- The text of the pointer, if it leads to a workspace. What else it may lead to is nothing to its readers. -/
def readActiveSlug (env : Env) (s : Store) : Except Failure (Option Text) :=
  if s.obstructed then .error .EISDIR
  else .ok ((s.active.map trim).filter fun slug ↦ (findProblem env s slug).isSome)

/-- `setActiveSlug`, and what follows it. -/
def setActiveSlug (slug : Text) (next : Store → Result) (s : Store) : Result :=
  if s.obstructed then (s, .error .EISDIR) else next { s with active := some (slug ++ ['\n']) }

/-- Write the record into the directory of its slug. -/
def writeProblemMeta (now : ℕ) (problem : ProblemMeta) (s : Store) : Store :=
  s.setWorkspace problem.slug
    ⟨{ problem with recorded := some now }, ((s.workspace? problem.slug).map Workspace.events).getD []⟩

def appendEvent (now : ℕ) (dir : Text) (action : Action) (s : Store) : Store :=
  match s.workspace? dir with
  | none => s
  | some w => s.setWorkspace dir { w with events := w.events ++ [⟨w.events.length + 1, now, action⟩] }

/-! ## Lifecycle -/

def createProblem (env : Env) (now : ℕ) (name : Text) (s : Store) : Result :=
  let slug := uniqueSlug s.taken (deriveSlug env.toLowerCase name)
  let problem : ProblemMeta := ⟨name, slug, now, .designing, none⟩
  if env.nameMax < slug.length then (s, .error .ENAMETOOLONG)
  else
    setActiveSlug slug (fun s ↦ (appendEvent now slug .created s, .ok (some problem)))
      (writeProblemMeta now problem s)

/-- A record without a time comes before all others. -/
def recordedLe : Option ℕ → Option ℕ → Bool
  | none, _ => true
  | some _, none => false
  | some a, some b => a ≤ b

/-- The problems that a query finds by their names, the last recorded first. -/
def findByName (env : Env) (s : Store) (query : Text) : List ProblemMeta :=
  ((s.dirs.map fun dir ↦ dir.2.problem).filter fun problem ↦
    problem.status ≠ .archived && includes (env.toLowerCase problem.name) (trim (env.toLowerCase query))).mergeSort
      fun a b ↦ recordedLe b.recorded a.recorded

def openProblem (env : Env) (query : Text) (s : Store) : Result :=
  match findProblem env s query with
  | some (_, w) => setActiveSlug query (fun s ↦ (s, .ok (some w.problem))) s
  | none =>
    match findByName env s query with
    | [] => (s, .ok none)
    | problem :: _ => setActiveSlug problem.slug (fun s ↦ (s, .ok (some problem))) s

def UNTITLED : Text := "untitled".toList

/-- Move the directory of a workspace, and write its record and its log at the new place. -/
def moveProblem (env : Env) (now : ℕ) (dir : Text) (w : Workspace) (newName : Text) (slug : Text) (wasActive : Bool)
    (s : Store) : Result :=
  let newSlug := uniqueSlug s.taken (deriveSlug env.toLowerCase newName)
  let updated := { w.problem with name := newName, slug := newSlug }
  let finish : Store → Result := fun s ↦
    (appendEvent now newSlug (.renamed (w.problem.name, newName) (some (slug, newSlug))) s, .ok (some updated))
  if env.nameMax < newSlug.length then (s, .error .ENAMETOOLONG)
  else
    let moved := writeProblemMeta now updated ({ s with dirs := Entries.erase s.dirs dir }.setWorkspace newSlug w)
    if wasActive then setActiveSlug newSlug finish moved else finish moved

def renameProblem (env : Env) (now : ℕ) (slug newName : Text) (s : Store) : Result :=
  match findProblem env s slug with
  | none => (s, .error (.noSuchProblem slug))
  | some (dir, w) =>
    if UNTITLED.isPrefixOf slug then
      match readActiveSlug env s with
      | .error failure => (s, .error failure)
      | .ok active => moveProblem env now dir w newName slug (active = some slug) s
    else
      let updated := { w.problem with name := newName }
      (appendEvent now dir (.renamed (w.problem.name, newName) none) (writeProblemMeta now updated s),
        .ok (some updated))

def archiveProblem (env : Env) (now : ℕ) (slug : Text) (s : Store) : Result :=
  match findProblem env s slug with
  | none => (s, .error (.noSuchProblem slug))
  | some (dir, w) =>
    let updated := { w.problem with status := .archived }
    (appendEvent now dir (.archived (w.problem.status, .archived)) (writeProblemMeta now updated s),
      .ok (some updated))

/-- The active problem, or a new one that is called by the date. -/
def ensureActiveProblem (env : Env) (now : ℕ) (date : Text) (s : Store) : Result :=
  match readActiveSlug env s with
  | .error failure => (s, .error failure)
  | .ok active =>
    match active.bind (findProblem env s) with
    | some (_, w) => (s, .ok (some w.problem))
    | none => createProblem env now ("Untitled ".toList ++ date) s

inductive ProblemCall
  | createProblem (now : ℕ) (name : Text)
  | openProblem (query : Text)
  | renameProblem (now : ℕ) (slug newName : Text)
  | archiveProblem (now : ℕ) (slug : Text)
  | ensureActiveProblem (now : ℕ) (date : Text)
deriving DecidableEq

def call (env : Env) (s : Store) : ProblemCall → Result
  | .createProblem now name => createProblem env now name s
  | .openProblem query => openProblem env query s
  | .renameProblem now slug newName => renameProblem env now slug newName s
  | .archiveProblem now slug => archiveProblem env now slug s
  | .ensureActiveProblem now date => ensureActiveProblem env now date s

def callStep (env : Env) (s : Store) (c : ProblemCall) : Store := (call env s c).1

end Amicode.Problems
