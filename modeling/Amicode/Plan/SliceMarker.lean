import Amicode.Foundation.Pattern
import Amicode.Plan.SliceTable

/-!
# The marker of a slice

Every issue filed or adopted for a row carries a marker in its body, and by it a later run knows the issue
(`spec_slices.ts`). The marker is printed into the body and read back by a regular expression, so the printer
and the reader must agree. They do if the spec id has no white space and the row number is printed without an
exponent (`provenances_issueBody`, `provenances_adoptedBody`); otherwise no marker of this spec and row is read.
-/

namespace Amicode.Plan

open Pattern List

def VERB_TAG : List Char := "amico-spec-slices".toList

/-- `minLength: 1, maxLength: 200`. -/
structure SpecId where
  text : List Char
  nonempty : text ≠ []
  short : JsText.utf16Length text ≤ 200

/-- `[0-9a-f]`. -/
def isHex (c : Char) : Bool := JsText.isDigit c || ('a' ≤ c && c ≤ 'f')

/-- The hash of a decision surface. -/
structure DesignHash where
  text : List Char
  nonempty : text ≠ []
  hex : ∀ c ∈ text, isHex c = true

/-- The issue a run links what it files under, as `--prd` names it. -/
structure Prd where
  addr : IssueAddr
  plain : ∀ c ∈ addr.repo.toList, isNameChar c = true ∨ c = '/'

/-! ## The marker -/

def provenanceMarker (specId : List Char) (row : Option ℕ) (designHash : List Char) : List Char :=
  "<!-- ".toList ++ VERB_TAG ++ " spec=".toList ++ specId ++ " row=".toList ++ JsNumber.numberText row
    ++ " hash=".toList ++ designHash ++ " -->".toList

def isNotSpace (c : Char) : Bool := !JsText.isSpace c

/-- `/<!--\s*amico-spec-slices\s+spec=(\S+)\s+row=(\d+)\s+hash=([0-9a-f]+)\s*-->/`. -/
def MARKER_RE : List Item :=
  [.lit "<!--".toList, .many JsText.isSpace false false, .lit VERB_TAG, .many JsText.isSpace true false,
    .lit "spec=".toList, .many isNotSpace true true, .many JsText.isSpace true false,
    .lit "row=".toList, .many JsText.isDigit true true, .many JsText.isSpace true false,
    .lit "hash=".toList, .many isHex true true, .many JsText.isSpace false false, .lit "-->".toList]

structure Provenance where
  spec_id : List Char
  row : Option ℕ
  design_hash : List Char

def readMatch : List (List Char) → Option Provenance
  | [spec, row, hash] => some ⟨spec, JsNumber.number row, hash⟩
  | _ => none

/-- Every marker of a body. -/
def provenances (body : List Char) : List Provenance := (allMatches MARKER_RE body).filterMap readMatch

def parseProvenance (body : List Char) : Option Provenance := (provenances body).head?

def hasProvenance (body specId : List Char) (row : Option ℕ) : Bool :=
  (provenances body).any fun p ↦ p.spec_id = specId ∧ p.row = row

/-! ## Bodies -/

/-- `lines.join("\n")`. -/
def joinLines : List (List Char) → List Char
  | [] => []
  | [line] => line
  | line :: rest => line ++ '\n' :: joinLines rest

/-- `body.replace(/\s+$/, "")`. -/
def trimEnd (body : List Char) : List Char := (body.reverse.dropWhile JsText.isSpace).reverse

def adoptedBody (body : List Char) (step : SliceStep) (specId designHash : List Char) : List Char :=
  joinLines [
    trimEnd body,
    [],
    "Provenance: adopted by `amico spec slices` as `".toList ++ specId ++ "` row ".toList
      ++ JsNumber.numberText step.row ++ " (tier ".toList ++ JsNumber.numberText step.tier
      ++ "), design hash `".toList ++ designHash ++ "`.".toList,
    provenanceMarker specId step.row designHash,
    []]

/-- The rows a step is after, as its issue lists them. -/
def afterText (step : SliceStep) : List Char :=
  match step.needs.getD [] with
  | [] => "none".toList
  | needs => ", ".toList.intercalate (needs.map fun n ↦ "row ".toList ++ n.toList)

def issueBody (step : SliceStep) (specId designHash : List Char) (prd : Option IssueAddr) : List Char :=
  joinLines ([
    "**Spec:** `".toList ++ specId ++ "` — Plan row ".toList ++ JsNumber.numberText step.row
      ++ ", tier ".toList ++ JsNumber.numberText step.tier ++ ", task_type `".toList
      ++ step.task_type.toList ++ "`.".toList,
    [],
    "**After:** ".toList ++ afterText step ++ " (set as GitHub blocked-by edges).".toList]
    ++ (match prd with
      | some prd =>
        [[], "Part of ".toList ++ prd.repo.toList ++ "#".toList ++ JsNumber.numberText prd.number ++ ".".toList]
      | none => [])
    ++ [[],
    "Provenance: filed by `amico spec slices` from `".toList ++ specId ++ "` row ".toList
      ++ JsNumber.numberText step.row ++ ", design hash `".toList ++ designHash ++ "`.".toList,
    provenanceMarker specId step.row designHash,
    []])

/-! ## Reading the marker back -/

/-- A spec id that the marker is read back with. -/
def Unspaced (specId : List Char) : Prop := ∀ c ∈ specId, JsText.isSpace c = false

/-- A row number that is printed in digits alone. -/
def Plain (row : Option ℕ) : Prop := ∃ x < JsNumber.exponentFrom, row = some x

variable {specId hash rest : List Char} {row : Option ℕ}

theorem isSpace_of_isHex {c : Char} (h : isHex c = true) : JsText.isSpace c = false := by
  rw [isHex, Bool.or_eq_true] at h
  rcases h with h | h
  · exact JsNumber.isSpace_of_isDigit h
  · simp only [Bool.and_eq_true, decide_eq_true_eq, Char.le_def] at h
    have hlow : 97 ≤ c.toNat := h.1
    have hhigh : c.toNat ≤ 102 := h.2
    simp only [JsText.isSpace, Bool.or_eq_false_iff, Bool.and_eq_false_iff, decide_eq_false_iff_not,
      beq_eq_false_iff_ne]
    omega

theorem digits_of_plain (hrow : Plain row) :
    (∀ c ∈ JsNumber.numberText row, JsText.isDigit c = true) ∧ JsNumber.numberText row ≠ [] := by
  obtain ⟨x, hx, rfl⟩ := hrow
  rw [JsNumber.numberText_of_lt hx]
  exact ⟨fun c hc ↦ JsText.isDigit_of_mem_decimal hc, Nat.toDigits_ne_nil⟩

theorem isNotSpace_of_unspaced (hspec : Unspaced specId) : ∀ c ∈ specId, isNotSpace c = true :=
  fun c hc ↦ by rw [isNotSpace, hspec c hc]; rfl

theorem provenanceMarker_append (specId hash rest : List Char) (row : Option ℕ) :
    provenanceMarker specId row hash ++ rest
      = "<!--".toList ++ ([' '] ++ (VERB_TAG ++ ([' '] ++ ("spec=".toList ++ (specId ++ ([' ']
        ++ ("row=".toList ++ (JsNumber.numberText row ++ ([' '] ++ ("hash=".toList ++ (hash ++ ([' ']
        ++ ("-->".toList ++ rest))))))))))))) := by
  unfold provenanceMarker
  simp

structure IsLiteral (p : List Char) : Prop where
  nonempty : p ≠ []
  unspaced : ∀ c ∈ p, JsText.isSpace c = false
  letters : p ⊆ "<!-amico-spec-slices=row=hash=-->".toList

theorem isLiteral_open : IsLiteral "<!--".toList :=
  ⟨by simp, by simp [JsText.isSpace], by simp⟩

theorem isLiteral_tag : IsLiteral VERB_TAG := by
  have htext : IsLiteral "amico-spec-slices".toList := ⟨by simp, by simp [JsText.isSpace], by simp⟩
  exact htext

theorem isLiteral_spec : IsLiteral "spec=".toList :=
  ⟨by simp, by simp [JsText.isSpace], by simp⟩

theorem isLiteral_row : IsLiteral "row=".toList :=
  ⟨by simp, by simp [JsText.isSpace], by simp⟩

theorem isLiteral_hash : IsLiteral "hash=".toList :=
  ⟨by simp, by simp [JsText.isSpace], by simp⟩

theorem isLiteral_close : IsLiteral "-->".toList :=
  ⟨by simp, by simp [JsText.isSpace], by simp⟩

theorem dropWhile_lit {p : List Char} (rest : List Char) (hp : IsLiteral p) :
    (p ++ rest).dropWhile JsText.isSpace = p ++ rest := by
  cases p with
  | nil => exact absurd rfl hp.nonempty
  | cons c p => exact dropWhile_cons_of_neg (by simp [hp.unspaced c mem_cons_self])

theorem run_space_lit {p : List Char} (nonempty : Bool) (items : List Item) (hp : IsLiteral p) :
    run (.many JsText.isSpace nonempty false :: .lit p :: items) ([' '] ++ (p ++ rest)) = run items rest := by
  have hword : ∀ c ∈ [' '], JsText.isSpace c = true := by decide
  have hnext : (p ++ rest).takeWhile JsText.isSpace = [] := by
    cases p with
    | nil => exact absurd rfl hp.nonempty
    | cons c p => exact takeWhile_cons_of_neg (by simp [hp.unspaced c mem_cons_self])
  rw [run_many_append hword hnext (fun _ ↦ cons_ne_nil _ _), run_lit_append]
  cases run items rest <;> rfl

theorem run_word {cls : Char → Bool} {word : List Char} (items : List Item) (hword : ∀ c ∈ word, cls c = true)
    (hne : word ≠ []) (hspace : cls ' ' = false) :
    run (.many cls true true :: items) (word ++ ([' '] ++ rest))
      = (run items ([' '] ++ rest)).map fun m ↦ (word :: m.1, m.2) := by
  have hnext : ([' '] ++ rest).takeWhile cls = [] := takeWhile_cons_of_neg (by simp [hspace])
  exact run_many_append hword hnext fun _ ↦ hne

theorem run_provenanceMarker (hspec : Unspaced specId) (hne : specId ≠ []) (hrow : Plain row)
    (hhash : ∀ c ∈ hash, isHex c = true) (hhash' : hash ≠ []) :
    run MARKER_RE (provenanceMarker specId row hash ++ rest)
      = some ([specId, JsNumber.numberText row, hash], rest) := by
  obtain ⟨hdigits, hdigits'⟩ := digits_of_plain hrow
  rw [provenanceMarker_append, MARKER_RE, run_lit_append,
    run_space_lit _ _ isLiteral_tag, run_space_lit _ _ isLiteral_spec,
    run_word _ (isNotSpace_of_unspaced hspec) hne (by decide), run_space_lit _ _ isLiteral_row,
    run_word _ hdigits hdigits' (by decide), run_space_lit _ _ isLiteral_hash,
    run_word _ hhash hhash' (by decide), run_space_lit _ _ isLiteral_close]
  rfl

def ROW_RE : List Item :=
  [.lit "row=".toList, .many JsText.isDigit true true, .many JsText.isSpace true false,
    .lit "hash=".toList, .many isHex true true, .many JsText.isSpace false false, .lit "-->".toList]

/-- A row number that is printed with an exponent does not match. -/
theorem run_row_eq_none (hrow : ¬ Plain row) (tail : List Char) :
    run ROW_RE ("row=".toList ++ (JsNumber.numberText row ++ tail)) = none := by
  have hplain : ∀ x, row = some x → ¬ x < JsNumber.exponentFrom := fun x hx hlt ↦ hrow ⟨x, hlt, hx⟩
  obtain ⟨c, after, hdrop, -, hspace⟩ := JsNumber.dropWhile_numberText hplain
  have hdrop' : (JsNumber.numberText row ++ tail).dropWhile JsText.isDigit = c :: (after ++ tail) := by
    rw [dropWhile_append, hdrop]
    rfl
  rw [ROW_RE, run_lit_append, run, hdrop', run_many_eq_none _ _ (by simp [hspace])]
  simp

/-! ## Where no marker reaches across -/

/-- The literals that come behind white space, except that of the row, by their first letters. -/
theorem first_literals : "amico-spec-slices".toList.take 1 ⊆ "ash-".toList ∧ "spec=".toList.take 1 ⊆ "ash-".toList ∧
    "hash=".toList.take 1 ⊆ "ash-".toList ∧ "-->".toList.take 1 ⊆ "ash-".toList := by
  simp

variable {tail : List Char} {step : SliceStep}

/-- No marker reaches into a tail if no literal of the pattern goes on there, and no run is followed there by what
the pattern has behind it. -/
theorem blocks_marker (hhead : ∀ c ∈ tail.head?, c ∉ "<!-amico-spec-slices=row=hash=-->".toList)
    (hspaces : ∀ c ∈ (tail.dropWhile JsText.isSpace).head?, c ∉ "ash-".toList)
    (hrow : run ROW_RE (tail.dropWhile JsText.isSpace) = none)
    (hword : run (.many JsText.isSpace true false :: ROW_RE) (tail.dropWhile isNotSpace) = none)
    (hdigits : ∀ c ∈ tail.head?, JsText.isDigit c = false) (hhex : ∀ c ∈ tail.head?, isHex c = false) :
    Pattern.Blocks tail MARKER_RE := by
  have hlit : ∀ {p : List Char}, IsLiteral p → ∀ q, q <:+ p → q ≠ [] → JsText.stripPrefix? q tail = none :=
    fun hp q hq hne ↦ stripPrefix?_of_suffix (fun c hc hmem ↦ hhead c hc (hp.letters hmem)) hq hne
  have hnil : ∀ {p : List Char} (items : List Item), IsLiteral p → run (.lit p :: items) [] = none :=
    fun items hp ↦ run_lit_eq_none items hp.nonempty fun c hc ↦ by cases hc
  have hafter : ∀ {p : List Char} (items : List Item), IsLiteral p → p.take 1 ⊆ "ash-".toList →
      run (.lit p :: items) (tail.dropWhile JsText.isSpace) = none := by
    intro p items hp hfirst
    refine run_lit_eq_none items hp.nonempty fun c hc hpc ↦ hspaces c hc (hfirst (mem_of_mem_head? ?_))
    rw [head?_take]
    simpa using hpc
  have hstay : ∀ cls : Char → Bool, (∀ c ∈ tail.head?, cls c = false) → tail.dropWhile cls = tail := by
    intro cls h
    cases tail with
    | nil => rfl
    | cons c tail => exact dropWhile_cons_of_neg (by simp [h c rfl])
  obtain ⟨htag, hspec, hhash, hclose⟩ := first_literals
  have hrow' : run ROW_RE [] = none := hnil _ isLiteral_row
  refine ⟨hlit isLiteral_open, hafter _ isLiteral_tag htag, hnil _ isLiteral_tag, hlit isLiteral_tag,
    hafter _ isLiteral_spec hspec, hnil _ isLiteral_spec, hlit isLiteral_spec, hword,
    run_many_eq_none_of_rest true false hrow', hrow, hrow', hlit isLiteral_row, ?_, ?_,
    hafter _ isLiteral_hash hhash, hnil _ isLiteral_hash, hlit isLiteral_hash, ?_, ?_,
    hafter _ isLiteral_close hclose, hnil _ isLiteral_close, hlit isLiteral_close, trivial⟩
  · -- behind the digits
    rw [hstay _ hdigits]
    exact run_many_eq_none_of_rest true false (hafter _ isLiteral_hash hhash)
  · exact run_many_eq_none_of_rest true false (hnil _ isLiteral_hash)
  · -- behind the hash
    rw [hstay _ hhex]
    exact run_many_eq_none_of_rest false false (hafter _ isLiteral_close hclose)
  · exact run_many_eq_none_of_rest false false (hnil _ isLiteral_close)

theorem blocks_of_mark
    (hword : run (.many JsText.isSpace true false :: ROW_RE) (tail.dropWhile isNotSpace) = none) :
    Pattern.Blocks ('`' :: tail) MARKER_RE := by
  have hspaces : ('`' :: tail).dropWhile JsText.isSpace = '`' :: tail := dropWhile_cons_of_neg (by decide)
  have hmark : ∀ {P : Char → Prop}, P '`' → ∀ c ∈ ('`' :: tail).head?, P c := fun h c hc ↦ Option.some.inj hc ▸ h
  refine blocks_marker (hmark (by simp)) ?_ ?_ ?_ (hmark (by decide)) (hmark (by decide))
  · rw [hspaces]
    exact hmark (by simp)
  · rw [hspaces]
    exact run_lit_eq_none _ isLiteral_row.nonempty (hmark (by simp))
  · rw [dropWhile_cons_of_pos (by decide)]
    exact hword

theorem blocks_of_space {a : Char} (ha : JsText.isSpace a = true)
    (hspaces : ∀ c ∈ (tail.dropWhile JsText.isSpace).head?, c ∉ "ash-".toList)
    (hrow : run ROW_RE (tail.dropWhile JsText.isSpace) = none) : Pattern.Blocks (a :: tail) MARKER_RE := by
  have hdrop : (a :: tail).dropWhile JsText.isSpace = tail.dropWhile JsText.isSpace := dropWhile_cons_of_pos ha
  have hhead : ∀ {P : Char → Prop}, P a → ∀ c ∈ (a :: tail).head?, P c := fun h c hc ↦ Option.some.inj hc ▸ h
  refine blocks_marker (hhead fun hmem ↦ ?_) (hdrop ▸ hspaces) (hdrop ▸ hrow) ?_ (hhead ?_) (hhead ?_)
  · have hletters : ∀ c ∈ "<!-amico-spec-slices=row=hash=-->".toList, JsText.isSpace c = false := by
      simp [JsText.isSpace]
    rw [hletters a hmem] at ha
    cases ha
  · rw [dropWhile_cons_of_neg (by simp [isNotSpace, ha])]
    exact run_many_eq_none_of_rest true false (hdrop ▸ hrow)
  · refine eq_false_of_ne_true fun h ↦ ?_
    rw [JsNumber.isSpace_of_isDigit h] at ha
    cases ha
  · refine eq_false_of_ne_true fun h ↦ ?_
    rw [isSpace_of_isHex h] at ha
    cases ha

/-! ## The markers of a body -/

theorem provenances_append (h : Pattern.Blocks tail MARKER_RE) (front : List Char) :
    provenances (front ++ tail) = provenances front ++ provenances tail := by
  rw [provenances, allMatches_append h, filterMap_append]
  rfl

theorem provenances_skip {piece tail : List Char} (h : '<' ∉ piece) :
    provenances (piece ++ tail) = provenances tail := by
  have hhead : "<!--".toList = '<' :: "!--".toList := by simp
  rw [provenances, MARKER_RE, hhead, allMatches_skip_of_notMem h, ← hhead]
  rfl

theorem provenances_eq_nil {piece : List Char} (h : '<' ∉ piece) : provenances piece = [] := by
  have hskip : provenances (piece ++ []) = provenances [] := provenances_skip h
  rw [append_nil] at hskip
  exact hskip

theorem provenances_of_unspaced (h : Unspaced specId) : provenances specId = [] := by
  have hitem : Item.many JsText.isSpace true false ∈ MARKER_RE := by
    rw [MARKER_RE]
    exact .tail _ (.tail _ (.tail _ (.head _)))
  rw [provenances, allMatches_of_class hitem h]
  rfl

/-- The spec id of a marker that is read has no white space. -/
theorem unspaced_of_mem_provenances {body : List Char} {p : Provenance} (h : p ∈ provenances body) :
    Unspaced p.spec_id := by
  obtain ⟨runs, hruns, hread⟩ := mem_filterMap.mp h
  have hclasses : keptClasses MARKER_RE = [isNotSpace, JsText.isDigit, isHex] := rfl
  have hkept := kept_of_mem_allMatches hruns
  rw [hclasses] at hkept
  obtain ⟨spec, _, hspec, _, rfl⟩ := forall₂_cons_left_iff.mp hkept
  unfold readMatch at hread
  split at hread
  · next heq =>
    cases heq
    cases hread
    exact fun c hc ↦ by simpa [isNotSpace] using hspec c hc
  · cases hread

theorem provenances_marker (hspec : Unspaced specId) (hne : specId ≠ []) (hrow : Plain row)
    (hdouble : ∀ n, row = some n → JsNumber.toDouble n = n) (hhash : ∀ c ∈ hash, isHex c = true)
    (hhash' : hash ≠ []) : provenances (provenanceMarker specId row hash ++ ['\n']) = [⟨specId, row, hash⟩] := by
  have hmarker : provenanceMarker specId row hash ≠ [] := by
    unfold provenanceMarker
    simp
  have hread : JsNumber.number (JsNumber.numberText row) = row := by
    obtain ⟨x, hx, rfl⟩ := hrow
    exact JsNumber.number_numberText (hdouble x rfl) hx
  have htail : allMatches MARKER_RE ['\n'] = [] := by decide +kernel
  rw [provenances, allMatches_of_run hmarker (run_provenanceMarker hspec hne hrow hhash hhash'), htail]
  simp [readMatch, hread]

/-- The characters of a number that is printed are no marks of a comment or of code. -/
theorem notMem_numberText {n : Option ℕ} : '<' ∉ JsNumber.numberText n := by
  intro h
  rcases JsNumber.isNumeral_of_mem_numberText h with h | h
  · exact absurd h (by decide)
  · exact absurd h (by simp)

theorem notMem_hash (hhash : ∀ c ∈ hash, isHex c = true) : '<' ∉ hash :=
  fun h ↦ absurd (hhash _ h) (by decide)

/-- No marker is read where its row number is printed with an exponent. -/
theorem provenances_marker_of_not_plain (hspec : Unspaced specId) (hrow : ¬ Plain row)
    (hhash : ∀ c ∈ hash, isHex c = true) : provenances (provenanceMarker specId row hash ++ ['\n']) = [] := by
  -- the marker up to the spec id, and the rest of it
  have hshape : provenanceMarker specId row hash ++ ['\n']
      = (['<'] ++ ("!-- ".toList ++ VERB_TAG ++ " spec=".toList) ++ specId)
        ++ (' ' :: ("row=".toList ++ (JsNumber.numberText row ++ (" hash=".toList ++ hash ++ " -->\n".toList)))) := by
    unfold provenanceMarker
    simp
  have hhashes : '<' ∉ " hash=".toList ++ hash ++ " -->\n".toList := by
    have := notMem_hash hhash
    simp [this]
  generalize " hash=".toList ++ hash ++ " -->\n".toList = after at hshape hhashes
  have hdrop := dropWhile_lit (JsNumber.numberText row ++ after) isLiteral_row
  have hblocks : Pattern.Blocks (' ' :: ("row=".toList ++ (JsNumber.numberText row ++ after))) MARKER_RE := by
    refine blocks_of_space (by decide) ?_ ?_
    · rw [hdrop]
      simp
    · rw [hdrop]
      exact run_row_eq_none hrow _
  have htail : provenances (' ' :: ("row=".toList ++ (JsNumber.numberText row ++ after))) = [] := by
    have := notMem_numberText (n := row)
    refine provenances_eq_nil ?_
    simp [this, hhashes]
  have hfront : run MARKER_RE (['<'] ++ ("!-- ".toList ++ VERB_TAG ++ " spec=".toList) ++ specId) = none := by
    have hpieces : ['<'] ++ ("!-- ".toList ++ VERB_TAG ++ " spec=".toList) ++ specId
        = "<!--".toList ++ ([' '] ++ (VERB_TAG ++ ([' '] ++ ("spec=".toList ++ specId)))) := by
      simp
    have hend : specId.dropWhile isNotSpace = [] := dropWhile_eq_nil_iff.mpr (isNotSpace_of_unspaced hspec)
    rw [hpieces, MARKER_RE, run_lit_append, run_space_lit _ _ isLiteral_tag, run_space_lit _ _ isLiteral_spec]
    refine run_many_eq_none_of_rest true true ?_
    rw [hend]
    exact run_many_eq_none false _ fun c hc ↦ by cases hc
  rw [hshape, provenances_append hblocks, htail, append_nil, append_assoc, singleton_append,
    provenances, allMatches_cons_of_none (by simpa using hfront)]
  have hskipped : '<' ∉ "!-- ".toList ++ "amico-spec-slices".toList ++ " spec=".toList := by simp
  have hskip : provenances ("!-- ".toList ++ VERB_TAG ++ " spec=".toList ++ specId) = provenances specId :=
    provenances_skip hskipped
  exact hskip.trans (provenances_of_unspaced hspec)

/-! ## The markers the bodies of a run have -/

/-- What an issue says between the two places where it names its spec. -/
def issueMiddle (step : SliceStep) (prd : Option IssueAddr) : List Char :=
  " — Plan row ".toList ++ JsNumber.numberText step.row ++ ", tier ".toList ++ JsNumber.numberText step.tier
    ++ ", task_type `".toList ++ step.task_type.toList ++ "`.\n\n**After:** ".toList ++ afterText step
    ++ " (set as GitHub blocked-by edges).".toList
    ++ (match prd with
      | some prd =>
        "\n\nPart of ".toList ++ prd.repo.toList ++ "#".toList ++ JsNumber.numberText prd.number ++ ".".toList
      | none => [])
    ++ "\n\nProvenance: filed by `amico spec slices` from `".toList

theorem issueBody_eq (step : SliceStep) (specId hash : List Char) (prd : Option IssueAddr) :
    issueBody step specId hash prd
      = "**Spec:** `".toList ++ (specId ++ ('`' :: (issueMiddle step prd ++ (specId ++ ('`' ::
        (" row ".toList ++ JsNumber.numberText step.row ++ ", design hash `".toList ++ hash ++ "`.\n".toList
          ++ (provenanceMarker specId step.row hash ++ ['\n']))))))) := by
  unfold issueBody issueMiddle
  cases prd <;> simp [joinLines]

theorem notMem_intercalate {c : Char} {sep : List Char} {pieces : List (List Char)} (hsep : c ∉ sep)
    (hpieces : ∀ piece ∈ pieces, c ∉ piece) : c ∉ sep.intercalate pieces := by
  induction pieces with
  | nil => exact not_mem_nil
  | cons piece pieces ih =>
    rw [forall_mem_cons] at hpieces
    rcases eq_or_ne pieces [] with rfl | hne
    · rw [intercalate_singleton]
      exact hpieces.1
    · rw [intercalate_cons_of_ne_nil hne, mem_append, mem_append]
      rintro ((hmem | hmem) | hmem)
      · exact hpieces.1 hmem
      · exact hsep hmem
      · exact ih hpieces.2 hmem

theorem notMem_afterText (h : ∀ n ∈ step.needs.getD [], isDigits n.toList = true) :
    '<' ∉ afterText step := by
  unfold afterText
  split
  · simp
  · next needs heq =>
    refine notMem_intercalate (by simp) fun piece hpiece hmem ↦ ?_
    obtain ⟨n, hn, rfl⟩ := List.mem_map.mp hpiece
    rcases mem_append.mp hmem with hmem | hmem
    · exact absurd hmem (by simp)
    · exact absurd ((isDigits_iff.mp (h n hn)).2 _ hmem) (by decide)

theorem notMem_issueMiddle {prd : Option Prd} (hstep : RowChecked step) :
    '<' ∉ issueMiddle step (prd.map (·.addr)) := by
  have hafter := notMem_afterText hstep.needs
  have htask : '<' ∉ step.task_type.toList := by
    have hall : ∀ task ∈ TASK_TYPES, '<' ∉ task.toList := by simp [TASK_TYPES]
    exact hall _ hstep.task_type
  have hnumber : ∀ n, '<' ∉ JsNumber.numberText n := fun n ↦ notMem_numberText
  unfold issueMiddle
  cases prd with
  | none => simp [hafter, htask, hnumber]
  | some prd =>
    have hrepo : '<' ∉ prd.addr.repo.toList := fun hmem ↦ absurd (prd.plain _ hmem) (by decide)
    simp [hafter, htask, hnumber, hrepo]

/-- No marker reaches across the end of a code span, if its row does not follow. -/
theorem blocks_of_code {c : Char} (hc : JsText.isSpace c = false)
    (hrow : run ROW_RE (c :: tail) = none) : Pattern.Blocks ('`' :: ' ' :: c :: tail) MARKER_RE := by
  refine blocks_of_mark (run_many_eq_none_of_rest true false ?_)
  rw [dropWhile_cons_of_neg (by decide), dropWhile_cons_of_pos (by decide),
    dropWhile_cons_of_neg (by simp [hc])]
  exact hrow

/-- The row of a marker is not named like the row of a text. -/
theorem run_row_space (tail : List Char) : run ROW_RE ('r' :: 'o' :: 'w' :: ' ' :: tail) = none := by
  have hrow : "row=".toList = ['r', 'o', 'w', '='] := by simp
  rw [ROW_RE, hrow]
  rfl

theorem provenances_named {after marker : List Char} (hspec : Unspaced specId) (hafter : '<' ∉ after) :
    provenances (specId ++ ('`' :: (" row ".toList ++ after ++ marker))) = provenances marker := by
  have hshape : '`' :: (" row ".toList ++ after ++ marker)
      = '`' :: ' ' :: 'r' :: 'o' :: 'w' :: ' ' :: (after ++ marker) := by
    simp
  have hblocks : Pattern.Blocks ('`' :: (" row ".toList ++ after ++ marker)) MARKER_RE := by
    rw [hshape]
    exact blocks_of_code (by decide) (run_row_space _)
  have hskip : provenances (("` row ".toList ++ after) ++ marker) = provenances marker := by
    refine provenances_skip ?_
    simp [hafter]
  rw [provenances_append hblocks, provenances_of_unspaced hspec, nil_append, ← hskip]
  simp

/-- The markers of an issue that is filed are those of its last line. -/
theorem provenances_issueBody {prd : Option Prd} (hstep : RowChecked step)
    (hspec : Unspaced specId) (hhash : ∀ c ∈ hash, isHex c = true) :
    provenances (issueBody step specId hash (prd.map (·.addr)))
      = provenances (provenanceMarker specId step.row hash ++ ['\n']) := by
  have hmiddle : '<' ∉ '`' :: issueMiddle step (prd.map (·.addr)) := by
    have hnone : '<' ∉ issueMiddle step (prd.map (·.addr)) := notMem_issueMiddle hstep
    simp [hnone]
  have hafter : '<' ∉ JsNumber.numberText step.row ++ ", design hash `".toList ++ hash ++ "`.\n".toList := by
    have := notMem_numberText (n := step.row)
    have := notMem_hash hhash
    simp [*]
  rw [issueBody_eq, provenances_skip (by simp)]
  generalize hnamed : specId ++ ('`' :: (" row ".toList ++ JsNumber.numberText step.row
    ++ ", design hash `".toList ++ hash ++ "`.\n".toList
    ++ (provenanceMarker specId step.row hash ++ ['\n']))) = named
  have hblocks : Pattern.Blocks ('`' :: (issueMiddle step (prd.map (·.addr)) ++ named)) MARKER_RE := by
    have hshape : ∃ tail, issueMiddle step (prd.map (·.addr)) ++ named = ' ' :: '—' :: tail := by
      unfold issueMiddle
      simp
    obtain ⟨tail, htail⟩ := hshape
    rw [htail]
    refine blocks_of_code (by decide) (run_lit_eq_none _ isLiteral_row.nonempty fun c hc ↦ ?_)
    obtain rfl := Option.some.inj hc
    simp
  rw [provenances_append hblocks, provenances_of_unspaced hspec, nil_append, ← cons_append,
    provenances_skip hmiddle, ← hnamed]
  calc provenances (specId ++ ('`' :: (" row ".toList ++ JsNumber.numberText step.row
        ++ ", design hash `".toList ++ hash ++ "`.\n".toList ++ (provenanceMarker specId step.row hash ++ ['\n']))))
      = provenances (specId ++ ('`' :: (" row ".toList ++ (JsNumber.numberText step.row
        ++ ", design hash `".toList ++ hash ++ "`.\n".toList)
        ++ (provenanceMarker specId step.row hash ++ ['\n'])))) := by
        simp only [append_assoc]
    _ = provenances (provenanceMarker specId step.row hash ++ ['\n']) := provenances_named hspec hafter

variable (body : List Char)

theorem provenances_trimEnd : provenances (trimEnd body) = provenances body := by
  have hbody : body = trimEnd body ++ (body.reverse.takeWhile JsText.isSpace).reverse := by
    rw [trimEnd, ← reverse_append, takeWhile_append_dropWhile, reverse_reverse]
  have hspaces : ∀ c ∈ (body.reverse.takeWhile JsText.isSpace).reverse, JsText.isSpace c = true :=
    fun c hc ↦ mem_takeWhile_imp (mem_reverse.mp hc)
  generalize (body.reverse.takeWhile JsText.isSpace).reverse = spaces at hbody hspaces
  have hnone : provenances spaces = [] :=
    provenances_eq_nil fun hmem ↦ absurd (hspaces _ hmem) (by decide)
  cases spaces with
  | nil => rw [← append_nil (trimEnd body), ← hbody]
  | cons a tail =>
    have hdrop : tail.dropWhile JsText.isSpace = [] :=
      dropWhile_eq_nil_iff.mpr fun c hc ↦ hspaces c (mem_cons_of_mem a hc)
    have hblocks : Pattern.Blocks (a :: tail) MARKER_RE := by
      refine blocks_of_space (hspaces a mem_cons_self) ?_ ?_
      · rw [hdrop]
        exact fun c hc ↦ by cases hc
      · rw [hdrop]
        exact run_lit_eq_none _ isLiteral_row.nonempty fun c hc ↦ by cases hc
    conv_rhs => rw [hbody, provenances_append hblocks, hnone, append_nil]

theorem adoptedBody_eq (step : SliceStep) (specId hash : List Char) : adoptedBody body step specId hash
      = trimEnd body ++ ('\n' :: '\n' :: 'P' :: ("rovenance: adopted by `amico spec slices` as `".toList
        ++ (specId ++ ('`' :: (" row ".toList ++ (JsNumber.numberText step.row ++ " (tier ".toList
          ++ JsNumber.numberText step.tier ++ "), design hash `".toList ++ hash ++ "`.\n".toList)
          ++ (provenanceMarker specId step.row hash ++ ['\n'])))))) := by
  unfold adoptedBody
  simp [joinLines]

/-- An issue that is adopted keeps its markers, and those of the last line come behind them. -/
theorem provenances_adoptedBody (hspec : Unspaced specId) (hhash : ∀ c ∈ hash, isHex c = true) :
    provenances (adoptedBody body step specId hash)
      = provenances body ++ provenances (provenanceMarker specId step.row hash ++ ['\n']) := by
  have hafter : '<' ∉ JsNumber.numberText step.row ++ " (tier ".toList ++ JsNumber.numberText step.tier
      ++ "), design hash `".toList ++ hash ++ "`.\n".toList := by
    have hnumber : ∀ n, '<' ∉ JsNumber.numberText n := fun n ↦ notMem_numberText
    have hhash' := notMem_hash hhash
    simp [hnumber, hhash']
  rw [adoptedBody_eq]
  generalize hnamed : specId ++ ('`' :: (" row ".toList ++ (JsNumber.numberText step.row ++ " (tier ".toList
    ++ JsNumber.numberText step.tier ++ "), design hash `".toList ++ hash ++ "`.\n".toList)
    ++ (provenanceMarker specId step.row hash ++ ['\n']))) = named
  have hblocks : Pattern.Blocks
      ('\n' :: '\n' :: 'P' :: ("rovenance: adopted by `amico spec slices` as `".toList ++ named)) MARKER_RE := by
    refine blocks_of_space (by decide) ?_ ?_ <;>
      rw [dropWhile_cons_of_pos (by decide), dropWhile_cons_of_neg (by decide)]
    · intro c hc
      obtain rfl := Option.some.inj hc
      simp
    · refine run_lit_eq_none _ isLiteral_row.nonempty fun c hc ↦ ?_
      obtain rfl := Option.some.inj hc
      simp
  have hskip : provenances ("\n\nProvenance: adopted by `amico spec slices` as `".toList ++ named) =
      provenances named :=
    provenances_skip (by simp)
  have hlast : provenances named = provenances (provenanceMarker specId step.row hash ++ ['\n']) :=
    hnamed ▸ provenances_named hspec hafter
  rw [provenances_append hblocks, provenances_trimEnd, ← hlast, ← hskip]
  simp

end Amicode.Plan
