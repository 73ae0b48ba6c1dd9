import Mathlib.Data.List.Basic

/-!
# The masked baseline of an exemplar

The hash of a script with every line between fill-point markers masked (`baseline.ts`); the gate admits a composed
script whose hash is the one of its exemplar. The markers are given by regular expressions; how the runtime tests
a line is a parameter, as is the hash.

Each masked line leaves a line, so that the hash sees how many lines a block has, and nothing else of them.
-/

namespace Amicode.Baseline

abbrev Line := List Char

def DEFAULT_BEGIN : String := "^# ── FILL IN"

def DEFAULT_END : String := "^# ─────"

def MASKED : Line := "#MASKED".toList

/-- What the two expressions match. -/
structure Markers where
  begins : Line → Bool
  ends : Line → Bool

def markersOf (test : String → Line → Bool) (beginSource endSource : Option String) : Markers :=
  ⟨test (beginSource.getD DEFAULT_BEGIN), test (endSource.getD DEFAULT_END)⟩

/-- The scan, inside a block or not. -/
def maskLines (k : Markers) : Bool → List Line → List Line
  | _, [] => []
  | false, line :: lines => line :: maskLines k (k.begins line) lines
  | true, line :: lines =>
    if k.ends line then line :: maskLines k false lines else MASKED :: maskLines k true lines

def maskFillPoints (k : Markers) (text : List Char) : List Char :=
  ['\n'].intercalate (maskLines k false (text.splitOn '\n'))

def maskedHash (sha256 : List Char → String) (k : Markers) (text : List Char) : String :=
  "sha256:" ++ sha256 (maskFillPoints k text)

/-! ## Edits -/

/-- Whether the scan ends inside a block. -/
def endsInside (k : Markers) : Bool → List Line → Bool
  | inside, [] => inside
  | false, line :: lines => endsInside k (k.begins line) lines
  | true, line :: lines => endsInside k (!k.ends line) lines

/-- Every block is terminated. -/
def Terminated (k : Markers) (text : List Char) : Prop := endsInside k false (text.splitOn '\n') = false

/-- The lines between the markers of each block are replaced as it is allowed, and no others. -/
inductive Refilled (k : Markers) (allowed : List Line → List Line → Prop) : List Line → List Line → Prop
  | done : Refilled k allowed [] []
  | kept {line : Line} {lines lines' : List Line} (hline : k.begins line = false)
      (h : Refilled k allowed lines lines') : Refilled k allowed (line :: lines) (line :: lines')
  | block {first last : Line} {body body' lines lines' : List Line} (hfirst : k.begins first = true)
      (hbody : ∀ line ∈ body, k.ends line = false) (hbody' : ∀ line ∈ body', k.ends line = false)
      (hlast : k.ends last = true) (hallowed : allowed body body') (h : Refilled k allowed lines lines') :
      Refilled k allowed (first :: (body ++ last :: lines)) (first :: (body' ++ last :: lines'))

/-- The script is the exemplar with other lines, of any number, in its blocks. -/
def FillEdit (k : Markers) (exemplar script : List Char) : Prop :=
  Refilled k (fun _ _ ↦ True) (exemplar.splitOn '\n') (script.splitOn '\n')

/-- As many lines stand in each block as before. -/
def SameCounts (k : Markers) (exemplar script : List Char) : Prop :=
  Refilled k (fun body body' ↦ body'.length = body.length) (exemplar.splitOn '\n') (script.splitOn '\n')

variable {k : Markers}

theorem Refilled.mono {allowed allowed' : List Line → List Line → Prop} {lines lines' : List Line}
    (hallowed : ∀ body body', allowed body body' → allowed' body body') (h : Refilled k allowed lines lines') :
    Refilled k allowed' lines lines' := by
  induction h with
  | done => exact .done
  | kept hline _ ih => exact .kept hline ih
  | block hfirst hbody hbody' hlast h _ ih => exact .block hfirst hbody hbody' hlast (hallowed _ _ h) ih

theorem maskLines_body {body : List Line} (hbody : ∀ line ∈ body, k.ends line = false) {last : Line}
    (hlast : k.ends last = true) (lines : List Line) : maskLines k true (body ++ last :: lines) =
      List.replicate body.length MASKED ++ last :: maskLines k false lines := by
  induction body with
  | nil => simp [maskLines, hlast]
  | cons line body ih =>
    obtain ⟨hline, hbody⟩ := List.forall_mem_cons.mp hbody
    simp [maskLines, hline, ih hbody, List.replicate_succ]

theorem maskLines_of_refilled {lines lines' : List Line}
    (h : Refilled k (fun body body' ↦ body'.length = body.length) lines lines') :
    maskLines k false lines' = maskLines k false lines := by
  induction h with
  | done => rfl
  | kept hline _ ih => rw [maskLines, maskLines, hline, ih]
  | block hfirst hbody hbody' hlast hlength _ ih =>
    rw [maskLines, maskLines, hfirst, maskLines_body hbody hlast, maskLines_body hbody' hlast, hlength, ih]

theorem refilled_of_maskLines (hmask : k.ends MASKED = false) (lines : List Line) :
    (∀ lines', endsInside k false lines = false → maskLines k false lines' = maskLines k false lines →
      Refilled k (fun body body' ↦ body'.length = body.length) lines lines') ∧
    ∀ lines', endsInside k true lines = false → maskLines k true lines' = maskLines k true lines →
      ∃ body body' last rest rest', lines = body ++ last :: rest ∧ lines' = body' ++ last :: rest' ∧
        body'.length = body.length ∧ (∀ line ∈ body, k.ends line = false) ∧ (∀ line ∈ body', k.ends line = false) ∧
          k.ends last = true ∧ Refilled k (fun body body' ↦ body'.length = body.length) rest rest' := by
  induction lines with
  | nil =>
    refine ⟨fun lines' _ h ↦ ?_, fun _ hend ↦ absurd hend (by simp [endsInside])⟩
    rcases lines' with _ | ⟨line', lines'⟩
    · exact .done
    · simp [maskLines] at h
  | cons line lines ih =>
    refine ⟨fun lines' hend h ↦ ?_, fun lines' hend h ↦ ?_⟩
    · rcases lines' with _ | ⟨line', lines'⟩
      · simp [maskLines] at h
      obtain ⟨rfl, h⟩ := List.cons.inj h
      rw [endsInside] at hend
      by_cases hbegins : k.begins line' = true
      · rw [hbegins] at hend h
        obtain ⟨body, body', last, rest, rest', rfl, rfl, hlength, hbody, hbody', hlast, hrest⟩ := ih.2 lines' hend h
        exact .block hbegins hbody hbody' hlast hlength hrest
      · have hkept : k.begins line' = false := by simpa using hbegins
        rw [hkept] at hend h
        exact .kept hkept (ih.1 lines' hend h)
    · rcases lines' with _ | ⟨line', lines'⟩
      · rw [maskLines, maskLines] at h
        split_ifs at h
      rw [endsInside] at hend
      rw [maskLines, maskLines] at h
      by_cases hends : k.ends line = true <;> by_cases hends' : k.ends line' = true
      · rw [if_pos hends, if_pos hends'] at h
        obtain ⟨rfl, hsame⟩ := List.cons.inj h
        rw [hends] at hend
        exact ⟨[], [], line', lines, lines', rfl, rfl, rfl, by simp, by simp, hends, ih.1 lines' hend hsame⟩
      · rw [if_pos hends, if_neg hends'] at h
        exact absurd hends (by rw [← (List.cons.inj h).1, hmask]; decide)
      · rw [if_neg hends, if_pos hends'] at h
        exact absurd hends' (by rw [(List.cons.inj h).1, hmask]; decide)
      · rw [if_neg hends, if_neg hends'] at h
        rw [Bool.not_eq_true] at hends hends'
        rw [hends] at hend
        obtain ⟨body, body', last, rest, rest', rfl, rfl, hlength, hbody, hbody', hlast, hrest⟩ :=
          ih.2 lines' hend (List.cons.inj h).2
        exact ⟨line :: body, line' :: body', last, rest, rest', rfl, rfl, congrArg (· + 1) hlength,
          List.forall_mem_cons.mpr ⟨hends, hbody⟩, List.forall_mem_cons.mpr ⟨hends', hbody'⟩, hlast, hrest⟩

/-! ## The hash -/

theorem newline_notMem_maskLines (inside : Bool) {lines : List Line} (h : ∀ line ∈ lines, '\n' ∉ line) :
    ∀ line ∈ maskLines k inside lines, '\n' ∉ line := by
  induction lines generalizing inside with
  | nil => rcases inside with _ | _ <;> exact List.forall_mem_nil _
  | cons line lines ih =>
    obtain ⟨hline, hlines⟩ := List.forall_mem_cons.mp h
    rcases inside with _ | _
    · exact List.forall_mem_cons.mpr ⟨hline, ih _ hlines⟩
    · rw [maskLines]
      split_ifs
      · exact List.forall_mem_cons.mpr ⟨hline, ih _ hlines⟩
      · exact List.forall_mem_cons.mpr ⟨by decide, ih _ hlines⟩

theorem newline_notMem_splitOn (text : List Char) : ∀ line ∈ text.splitOn '\n', '\n' ∉ line := by
  induction text with
  | nil => simp
  | cons c text ih =>
    rw [List.splitOn_cons_eq_if_modifyHead]
    split_ifs with hc
    · exact List.forall_mem_cons.mpr ⟨List.not_mem_nil, ih⟩
    · rcases hsplit : text.splitOn '\n' with _ | ⟨line, lines⟩
      · exact absurd hsplit (List.splitOn_ne_nil _ _)
      · rw [hsplit] at ih
        obtain ⟨hline, hlines⟩ := List.forall_mem_cons.mp ih
        refine List.forall_mem_cons.mpr ⟨fun hmem ↦ ?_, hlines⟩
        exact (List.mem_cons.mp hmem).elim (fun h ↦ hc (beq_iff_eq.mpr h.symm)) hline

theorem splitOn_maskFillPoints (k : Markers) (text : List Char) :
    (maskFillPoints k text).splitOn '\n' = maskLines k false (text.splitOn '\n') := by
  refine List.splitOn_intercalate '\n' (newline_notMem_maskLines _ (newline_notMem_splitOn text)) ?_
  rcases hsplit : text.splitOn '\n' with _ | ⟨line, lines⟩
  · exact absurd hsplit (List.splitOn_ne_nil _ _)
  · exact List.cons_ne_nil _ _

theorem maskedHash_eq_iff {sha256 : List Char → String} (hsha : Function.Injective sha256) {exemplar : List Char}
    (hmask : k.ends MASKED = false) (hterminated : Terminated k exemplar) (script : List Char) :
    maskedHash sha256 k script = maskedHash sha256 k exemplar ↔ SameCounts k exemplar script := by
  constructor
  · intro h
    have htext := hsha ((String.append_right_inj "sha256:").mp h)
    have hlines := congrArg (List.splitOn '\n') htext
    rw [splitOn_maskFillPoints, splitOn_maskFillPoints] at hlines
    exact (refilled_of_maskLines hmask _).1 _ hterminated hlines
  · intro h
    rw [maskedHash, maskedHash, maskFillPoints, maskFillPoints, maskLines_of_refilled h]

/-- The hash of a script is the one of its exemplar exactly if the script is an edit of the fill points, unless the
edit changes the number of lines of a block. -/
theorem maskedHash_admits_iff (sha256 : List Char → String) (hsha : Function.Injective sha256) (k : Markers)
    (hmask : k.begins MASKED = false ∧ k.ends MASKED = false) (exemplar : List Char)
    (hterminated : Terminated k exemplar) (script : List Char) :
    (maskedHash sha256 k script = maskedHash sha256 k exemplar ↔ FillEdit k exemplar script) ↔
      (FillEdit k exemplar script → SameCounts k exemplar script) := by
  rw [maskedHash_eq_iff hsha hmask.2 hterminated]
  exact ⟨Iff.mpr, fun h ↦ ⟨Refilled.mono fun _ _ _ ↦ trivial, h⟩⟩

/-- The markers of the templates: an expression that is a caret and plain text matches where a line begins. -/
def templateMarkers : Markers :=
  markersOf (fun source line ↦ (source.toList.drop 1).isPrefixOf line) none none

def exemplarText : List Char := "# ── FILL IN\nT = 10\n# ─────".toList

theorem maskedHash_admits_template :
    (maskedHash String.ofList templateMarkers "# ── FILL IN\nT = 25\n# ─────".toList =
        maskedHash String.ofList templateMarkers exemplarText ↔
      FillEdit templateMarkers exemplarText "# ── FILL IN\nT = 25\n# ─────".toList) ↔
    (FillEdit templateMarkers exemplarText "# ── FILL IN\nT = 25\n# ─────".toList →
      SameCounts templateMarkers exemplarText "# ── FILL IN\nT = 25\n# ─────".toList) :=
  maskedHash_admits_iff String.ofList (fun _ _ h ↦ String.ofList_injective h) templateMarkers (by decide)
    exemplarText (show endsInside _ _ _ = false by decide +kernel) _

/-- A line more in the block of a template, and the script is no longer admitted. -/
theorem not_admits_lineAdded : ∃ (sha256 : List Char → String) (k : Markers) (exemplar script : List Char),
    Function.Injective sha256 ∧ (k.begins MASKED = false ∧ k.ends MASKED = false) ∧ Terminated k exemplar ∧
      FillEdit k exemplar script ∧ maskedHash sha256 k script ≠ maskedHash sha256 k exemplar := by
  refine ⟨String.ofList, templateMarkers, exemplarText, "# ── FILL IN\nT = 10\nN = 50\n# ─────".toList,
    fun _ _ h ↦ String.ofList_injective h, by decide, show endsInside _ _ _ = false by decide +kernel, ?_,
    by decide +kernel⟩
  exact @Refilled.block _ _ "# ── FILL IN".toList "# ─────".toList ["T = 10".toList]
    ["T = 10".toList, "N = 50".toList] [] [] (by decide) (by decide) (by decide) (by decide) trivial .done

end Amicode.Baseline
