import Amicode.Foundation.Pattern
import Amicode.Plan.Compile

/-!
# Rewriting a claim note

The note of a claim is a block of YAML between two fences, and prose. Two functions put another claim into it, the
stamp of an adoption (`renderStampedNote` in `claims.ts`) and the lifecycle pass (`rewriteClaimNote` in
`lifecycle.ts`): they find the block by one regular expression and write the claim in its place, the first by
`String.prototype.replace`, the second by cutting the note. The YAML library is a parameter.

A note is read by `parseFrontmatter`, which looks for the fences by regular expressions of its own.
-/

open List Option

namespace Amicode.Claims

open Plan (isBlank afterFence? isClosingFence beforeFence? parseFrontmatter)
open JsReplace

/-! ## The block -/

/-- What follows `---[ \t]*(\r?\n|$)`, without the flag `m`. -/
def afterBlockFence? (text : List Char) : Option (List Char) :=
  (JsText.stripPrefix? "---".toList text).bind fun rest ↦
    match rest.dropWhile isBlank with
    | [] => some []
    | '\r' :: '\n' :: rest => some rest
    | '\n' :: rest => some rest
    | _ => none

/-- What follows the first fence that stands behind a line feed. -/
def pastFence? : List Char → Option (List Char)
  | [] => none
  | c :: text =>
    match if c = '\n' then afterBlockFence? text else none with
    | some rest => some rest
    | none => pastFence? text

/-- What follows the match of `/^---[ \t]*\r?\n[\s\S]*?\r?\n---[ \t]*(\r?\n|$)/`. -/
def blockRest? (raw : List Char) : Option (List Char) := (afterFence? raw).bind pastFence?

/-- The match itself. -/
def frontmatterBlock? (raw : List Char) : Option (List Char) :=
  (blockRest? raw).map fun rest ↦ raw.take (raw.length - rest.length)

/-! ## The two functions -/

def trimEnd (text : List Char) : List Char := text.rdropWhile JsText.isSpace

def newBlock (stringifyYaml : JsonValue → List Char) (claim : JsonValue) : List Char :=
  "---\n".toList ++ trimEnd (stringifyYaml claim) ++ "\n---\n".toList

def malformed : String := "malformed claim note: could not isolate the frontmatter block"

def renderStampedNote (stringifyYaml : JsonValue → List Char) (raw : String) (claim : JsonValue) :
    Except String String :=
  match frontmatterBlock? raw.toList with
  | none => .error malformed
  | some block => .ok (String.ofList (replaceFirst raw.toList block (newBlock stringifyYaml claim)))

def rewriteClaimNote (stringifyYaml : JsonValue → List Char) (raw : String) (claim : JsonValue) :
    Except String String :=
  match frontmatterBlock? raw.toList with
  | none => .error malformed
  | some block =>
    let body := raw.toList.drop block.length
    .ok (String.ofList ("---\n".toList ++ trimEnd (stringifyYaml claim) ++ "\n---\n".toList ++ body))

/-! ## The body of a note -/

def afterLineEnd : List Char → List Char
  | '\r' :: '\n' :: rest => rest
  | '\n' :: rest => rest
  | rest => rest

/-- What follows a closing fence, for which `(\r?\n|$)` is looked for under the flag `m`. -/
def afterClosingFence (text : List Char) : List Char := afterLineEnd ((text.drop 3).dropWhile isBlank)

/-- The text around the first closing fence. -/
def splitFence : Bool → List Char → Option (List Char × List Char)
  | _, [] => none
  | lineStart, c :: text =>
    if lineStart && isClosingFence (c :: text) then some ([], afterClosingFence (c :: text))
    else (splitFence (Plan.isLineTerminator c) text).map fun e ↦ (c :: e.1, e.2)

/-- The text below the frontmatter that `parseFrontmatter` reads. -/
def noteBody? (raw : List Char) : Option (List Char) :=
  (afterFence? raw).bind fun afterOpen ↦ (splitFence true afterOpen).map Prod.snd

theorem beforeFence?_eq (lineStart : Bool) (text : List Char) :
    beforeFence? lineStart text = (splitFence lineStart text).map Prod.fst := by
  induction text generalizing lineStart with
  | nil => rfl
  | cons c text ih =>
    rw [beforeFence?, splitFence]
    split_ifs
    · rfl
    · rw [ih, Option.map_map, Option.map_map]
      rfl

/-! ## What is written -/

variable {stringifyYaml : JsonValue → List Char} {raw : String} {claim : JsonValue} {text rest block : List Char}

theorem isSuffix_behind (lineEnd : List Char) {tail : List Char}
    (hstrip : JsText.stripPrefix? "---".toList text = some tail) (h : tail.dropWhile isBlank = lineEnd ++ rest) :
    rest <:+ text := by
  have hline : rest <:+ tail.dropWhile isBlank := ⟨lineEnd, h.symm⟩
  exact (hline.trans (dropWhile_suffix _)).trans ⟨_, (Pattern.stripPrefix?_eq_some hstrip).symm⟩

theorem afterFence?_isSuffix (h : afterFence? text = some rest) : rest <:+ text := by
  obtain ⟨tail, hstrip, htail⟩ := bind_eq_some_iff.mp h
  split at htail
  · next heq =>
    cases htail
    exact isSuffix_behind ['\r', '\n'] hstrip heq
  · next heq =>
    cases htail
    exact isSuffix_behind ['\n'] hstrip heq
  · cases htail

theorem afterBlockFence?_isSuffix (h : afterBlockFence? text = some rest) : rest <:+ text := by
  obtain ⟨tail, hstrip, htail⟩ := bind_eq_some_iff.mp h
  split at htail
  · cases htail
    exact nil_suffix
  · next heq =>
    cases htail
    exact isSuffix_behind ['\r', '\n'] hstrip heq
  · next heq =>
    cases htail
    exact isSuffix_behind ['\n'] hstrip heq
  · cases htail

theorem pastFence?_isSuffix (h : pastFence? text = some rest) : rest <:+ text := by
  induction text with
  | nil => cases h
  | cons c text ih =>
    rw [pastFence?] at h
    split at h
    · next heq =>
      cases h
      split_ifs at heq
      exact (afterBlockFence?_isSuffix heq).trans (suffix_cons _ _)
    · exact (ih h).trans (suffix_cons _ _)

theorem frontmatterBlock?_eq_some (h : frontmatterBlock? text = some block) :
    ∃ rest, blockRest? text = some rest ∧ text = block ++ rest := by
  obtain ⟨rest, hrest, rfl⟩ := map_eq_some_iff.mp h
  obtain ⟨afterOpen, hopen, hpast⟩ := bind_eq_some_iff.mp hrest
  obtain ⟨front, rfl⟩ := (pastFence?_isSuffix hpast).trans (afterFence?_isSuffix hopen)
  refine ⟨rest, hrest, ?_⟩
  simp

theorem afterBlockFence?_ends (h : afterBlockFence? text = some rest) :
    rest = [] ∨ ∃ front, text = front ++ '\n' :: rest := by
  obtain ⟨tail, hstrip, htail⟩ := bind_eq_some_iff.mp h
  have htext : text = "---".toList ++ tail.takeWhile isBlank ++ tail.dropWhile isBlank := by
    rw [append_assoc, takeWhile_append_dropWhile]
    exact Pattern.stripPrefix?_eq_some hstrip
  split at htail
  · cases htail
    exact .inl rfl
  · next heq =>
    cases htail
    rw [heq] at htext
    exact .inr ⟨"---".toList ++ tail.takeWhile isBlank ++ ['\r'], by rw [htext]; simp⟩
  · next heq =>
    cases htail
    rw [heq] at htext
    exact .inr ⟨_, htext⟩
  · cases htail

theorem pastFence?_ends (h : pastFence? text = some rest) : rest = [] ∨ ∃ front, text = front ++ '\n' :: rest := by
  induction text with
  | nil => cases h
  | cons c text ih =>
    have hcons (hrest : rest = [] ∨ ∃ front, text = front ++ '\n' :: rest) :
        rest = [] ∨ ∃ front, c :: text = front ++ '\n' :: rest := by
      obtain hnil | ⟨front, rfl⟩ := hrest
      · exact .inl hnil
      · exact .inr ⟨c :: front, rfl⟩
    rw [pastFence?] at h
    split at h
    · next heq =>
      cases h
      split_ifs at heq
      exact hcons (afterBlockFence?_ends heq)
    · exact hcons (ih h)

theorem frontmatterBlock?_ends (h : frontmatterBlock? text = some block) (htext : text = block ++ rest) :
    rest = [] ∨ ∃ front, block = front ++ ['\n'] := by
  obtain ⟨rest', hrest, htext'⟩ := frontmatterBlock?_eq_some h
  rw [htext] at htext'
  obtain rfl := append_cancel_left htext'
  obtain ⟨afterOpen, hopen, hpast⟩ := bind_eq_some_iff.mp hrest
  obtain ⟨front, hfront⟩ := afterFence?_isSuffix hopen
  obtain hnil | ⟨middle, rfl⟩ := pastFence?_ends hpast
  · exact .inl hnil
  · have hsplit : block ++ rest = (front ++ middle ++ ['\n']) ++ rest := by
      rw [← htext, ← hfront]
      simp
    exact .inr ⟨front ++ middle, append_cancel_right hsplit⟩

theorem renderStampedNote_eq (h : frontmatterBlock? raw.toList = some block) (hraw : raw.toList = block ++ rest) :
    renderStampedNote stringifyYaml raw claim =
      .ok (String.ofList (substitute block [] rest (newBlock stringifyYaml claim) ++ rest)) := by
  rw [renderStampedNote, h]
  dsimp only
  rw [hraw, replaceFirst_append]

theorem rewriteClaimNote_eq (h : frontmatterBlock? raw.toList = some block) (hraw : raw.toList = block ++ rest) :
    rewriteClaimNote stringifyYaml raw claim = .ok (String.ofList (newBlock stringifyYaml claim ++ rest)) := by
  rw [rewriteClaimNote, h]
  dsimp only
  rw [hraw, drop_left, newBlock]

/-! ## Reading what is written -/

theorem dropWhile_append_newline (text rest : List Char) :
    (text ++ '\n' :: rest).dropWhile isBlank = text.dropWhile isBlank ++ '\n' :: rest :=
  JsText.dropWhile_append_cons text rfl rest

theorem isClosingFence_append_newline (text rest : List Char) :
    isClosingFence (text ++ '\n' :: rest) = isClosingFence (text ++ ['\n']) := by
  have hdashes : '\n' ∉ "---".toList := by decide
  rw [isClosingFence, isClosingFence, Pattern.stripPrefix?_append_cons hdashes,
    Pattern.stripPrefix?_append_cons hdashes]
  cases JsText.stripPrefix? "---".toList text with
  | none => rfl
  | some tail =>
    dsimp only [map_some]
    rw [dropWhile_append_newline, dropWhile_append_newline]
    cases tail.dropWhile isBlank <;> rfl

theorem afterLineEnd_append_newline (text rest : List Char) :
    afterLineEnd (text ++ '\n' :: rest) = afterLineEnd (text ++ ['\n']) ++ rest := by
  rcases text with _ | ⟨c, text⟩
  · rfl
  by_cases hfeed : c = '\n'
  · rw [hfeed, cons_append, cons_append, afterLineEnd, afterLineEnd, append_assoc,
      singleton_append]
  by_cases hreturn : c = '\r'
  · subst hreturn
    rcases text with _ | ⟨d, text⟩
    · rfl
    by_cases hd : d = '\n'
    · subst hd
      simp [afterLineEnd]
    · simp [afterLineEnd, hd]
  · simp [afterLineEnd, hfeed, hreturn]

theorem afterClosingFence_append_newline (h : isClosingFence (text ++ ['\n']) = true) (rest : List Char) :
    afterClosingFence (text ++ '\n' :: rest) = afterClosingFence (text ++ ['\n']) ++ rest := by
  rw [isClosingFence, Pattern.stripPrefix?_append_cons (by decide)] at h
  rcases hstrip : JsText.stripPrefix? "---".toList text with _ | tail
  · rw [hstrip] at h
    cases h
  · have hdrop (rest : List Char) : (text ++ '\n' :: rest).drop 3 = tail ++ '\n' :: rest := by
      rw [Pattern.stripPrefix?_eq_some hstrip]
      rfl
    rw [afterClosingFence, afterClosingFence, hdrop, hdrop, dropWhile_append_newline, dropWhile_append_newline,
      afterLineEnd_append_newline]

theorem splitFence_append_newline {lineStart : Bool} {before after : List Char}
    (h : splitFence lineStart (text ++ ['\n']) = some (before, after)) (rest : List Char) :
    splitFence lineStart (text ++ '\n' :: rest) = some (before, after ++ rest) := by
  induction text generalizing lineStart before after with
  | nil => cases lineStart <;> cases h
  | cons c text ih =>
    rw [cons_append, splitFence] at h ⊢
    rw [← cons_append] at h ⊢
    rw [isClosingFence_append_newline]
    split_ifs at h ⊢ with hfence
    · cases h
      rw [afterClosingFence_append_newline (Bool.and_eq_true_iff.mp hfence).2]
    · obtain ⟨e, he, heq⟩ := map_eq_some_iff.mp h
      cases heq
      rw [ih he]
      rfl

theorem exists_splitFence (lineStart : Bool) (text : List Char) :
    ∃ e, splitFence lineStart (text ++ "\n---\n".toList) = some e := by
  induction text generalizing lineStart with
  | nil => cases lineStart <;> exact ⟨_, rfl⟩
  | cons c text ih =>
    rw [cons_append, splitFence]
    split_ifs
    · exact ⟨_, rfl⟩
    · obtain ⟨e, he⟩ := ih (Plan.isLineTerminator c)
      rw [he]
      exact ⟨_, rfl⟩

variable (stringifyYaml)

theorem afterFence?_newBlock (claim : JsonValue) (rest : List Char) :
    afterFence? (newBlock stringifyYaml claim ++ rest) =
      some (trimEnd (stringifyYaml claim) ++ "\n---\n".toList ++ rest) := by
  simp [newBlock, afterFence?, JsText.stripPrefix?, isBlank, append_assoc]

theorem afterFence?_newBlock_nil (claim : JsonValue) :
    afterFence? (newBlock stringifyYaml claim) = some (trimEnd (stringifyYaml claim) ++ "\n---\n".toList) := by
  have hnil := afterFence?_newBlock stringifyYaml claim []
  rw [append_nil, append_nil] at hnil
  exact hnil

variable {stringifyYaml}

theorem splitFence_newBlock (yaml rest : List Char) : splitFence true (yaml ++ "\n---\n".toList ++ rest) =
    (splitFence true (yaml ++ "\n---\n".toList)).map fun e ↦ (e.1, e.2 ++ rest) := by
  have hshape (rest : List Char) : yaml ++ "\n---\n".toList ++ rest = (yaml ++ "\n---".toList) ++ '\n' :: rest := by
    simp
  obtain ⟨e, he⟩ := exists_splitFence true yaml
  have hend := hshape []
  rw [append_nil] at hend
  rw [he, hshape, splitFence_append_newline (hend ▸ he)]
  rfl

theorem noteBody?_newBlock (rest : List Char) : noteBody? (newBlock stringifyYaml claim ++ rest) =
    (noteBody? (newBlock stringifyYaml claim)).map (· ++ rest) := by
  rw [noteBody?, noteBody?, afterFence?_newBlock, afterFence?_newBlock_nil, bind_some, bind_some,
    splitFence_newBlock, Option.map_map, Option.map_map]
  rfl

theorem exists_noteBody?_newBlock (stringifyYaml : JsonValue → List Char) (claim : JsonValue) :
    ∃ tail, noteBody? (newBlock stringifyYaml claim) = some tail := by
  obtain ⟨e, he⟩ := exists_splitFence true (trimEnd (stringifyYaml claim))
  rw [noteBody?, afterFence?_newBlock_nil, bind_some, he]
  exact ⟨_, rfl⟩

variable {parseYaml : List Char → Except String JsonValue}

theorem parseFrontmatter_newBlock (rest : List Char) :
    parseFrontmatter parseYaml (String.ofList (newBlock stringifyYaml claim ++ rest)) =
      parseFrontmatter parseYaml (String.ofList (newBlock stringifyYaml claim)) := by
  rw [parseFrontmatter, parseFrontmatter, String.toList_ofList, String.toList_ofList, afterFence?_newBlock,
    afterFence?_newBlock_nil]
  dsimp only
  rw [beforeFence?_eq, beforeFence?_eq, splitFence_newBlock, Option.map_map]
  rfl

/-! ## The law -/

/-- The two functions agree, and what they make of a note with frontmatter has the claim for its frontmatter and the
note's body for its body. -/
structure NoteLaw (parseYaml : List Char → Except String JsonValue) (stringifyYaml : JsonValue → List Char)
    (raw : String) (members : List (String × JsonValue)) : Prop where
  agree : renderStampedNote stringifyYaml raw (.obj members) = rewriteClaimNote stringifyYaml raw (.obj members)
  rewritten : ∀ old, parseFrontmatter parseYaml raw = .ok old →
    ∃ out, rewriteClaimNote stringifyYaml raw (.obj members) = .ok out
      ∧ parseFrontmatter parseYaml out = .ok (.obj members) ∧ noteBody? out.toList = noteBody? raw.toList

/-- The new block as a template stands for itself. -/
def StandsForItself (stringifyYaml : JsonValue → List Char) (raw : String) (members : List (String × JsonValue)) :
    Prop :=
  ∀ block rest, frontmatterBlock? raw.toList = some block → raw.toList = block ++ rest →
    substitute block [] rest (newBlock stringifyYaml (.obj members)) = newBlock stringifyYaml (.obj members)

/-- The note has the block that is looked for, the new block by itself says the claim, and what is below the fence
where reading the new block ends is, with what is below the old block, what is below the frontmatter of the note. -/
def FitsIn (parseYaml : List Char → Except String JsonValue) (stringifyYaml : JsonValue → List Char) (raw : String)
    (members : List (String × JsonValue)) : Prop :=
  ∃ block rest tail, frontmatterBlock? raw.toList = some block ∧ raw.toList = block ++ rest
    ∧ parseFrontmatter parseYaml (String.ofList (newBlock stringifyYaml (.obj members))) = .ok (.obj members)
    ∧ noteBody? (newBlock stringifyYaml (.obj members)) = some tail ∧ noteBody? raw.toList = some (tail ++ rest)

variable {members : List (String × JsonValue)}

theorem agree_iff :
    renderStampedNote stringifyYaml raw (.obj members) = rewriteClaimNote stringifyYaml raw (.obj members) ↔
      StandsForItself stringifyYaml raw members := by
  constructor
  · intro h block rest hblock hraw
    rw [renderStampedNote_eq hblock hraw, rewriteClaimNote_eq hblock hraw] at h
    exact append_cancel_right (String.ofList_injective (Except.ok.inj h))
  · intro h
    rcases hblock : frontmatterBlock? raw.toList with _ | block
    · rw [renderStampedNote, rewriteClaimNote, hblock]
    · obtain ⟨rest, -, hraw⟩ := frontmatterBlock?_eq_some hblock
      rw [renderStampedNote_eq hblock hraw, rewriteClaimNote_eq hblock hraw, h block rest hblock hraw]

theorem rewritten_iff : (∃ out, rewriteClaimNote stringifyYaml raw (.obj members) = .ok out
      ∧ parseFrontmatter parseYaml out = .ok (.obj members) ∧ noteBody? out.toList = noteBody? raw.toList)
    ↔ FitsIn parseYaml stringifyYaml raw members := by
  constructor
  · rintro ⟨out, hout, hfields, hbody⟩
    rcases hblock : frontmatterBlock? raw.toList with _ | block
    · rw [rewriteClaimNote, hblock] at hout
      cases hout
    obtain ⟨rest, -, hraw⟩ := frontmatterBlock?_eq_some hblock
    rw [rewriteClaimNote_eq hblock hraw] at hout
    cases hout
    rw [parseFrontmatter_newBlock] at hfields
    rw [String.toList_ofList, noteBody?_newBlock] at hbody
    obtain ⟨tail, htail⟩ := exists_noteBody?_newBlock stringifyYaml (.obj members)
    rw [htail] at hbody
    exact ⟨block, rest, tail, hblock, hraw, hfields, htail, hbody.symm⟩
  · rintro ⟨block, rest, tail, hblock, hraw, hfields, htail, hbody⟩
    refine ⟨_, rewriteClaimNote_eq hblock hraw, ?_, ?_⟩
    · rw [parseFrontmatter_newBlock, hfields]
    · rw [String.toList_ofList, noteBody?_newBlock, htail, hbody]
      rfl

/-- The law holds of a note and a claim if and only if the claim's block stands for itself and fits into the note. -/
theorem noteLaw_iff : NoteLaw parseYaml stringifyYaml raw members ↔ StandsForItself stringifyYaml raw members
    ∧ ∀ old, parseFrontmatter parseYaml raw = .ok old → FitsIn parseYaml stringifyYaml raw members :=
  ⟨fun h ↦ ⟨agree_iff.mp h.agree, fun old hold ↦ rewritten_iff.mp (h.rewritten old hold)⟩,
    fun h ↦ ⟨agree_iff.mpr h.1, fun old hold ↦ rewritten_iff.mpr (h.2 old hold)⟩⟩

/-- A claim whose statement has two dollar signs in a row. -/
def pricedClaim : List (String × JsonValue) := [("statement", .str "costs $$5")]

def pricedText : List Char := "statement: costs $$5\n".toList

def pricedNote : String := "---\nstatement: costs $$5\n---\nprose\n"

/-- Written into its own note, the claim loses a dollar sign when it is stamped. -/
theorem not_noteLaw_priced : ¬ ∀ (parseYaml : List Char → Except String JsonValue)
    (stringifyYaml : JsonValue → List Char), (∀ value, parseYaml (stringifyYaml value) = .ok value) →
    ∀ raw members, NoteLaw parseYaml stringifyYaml raw members := by
  intro h
  have htext (value : JsonValue) : pricedText.head? ≠ some (JsonCode.mark value) := by
    rcases value with _ | b | _ | _ | _ | _
    · exact nofun
    · cases b <;> exact nofun
    all_goals exact nofun
  have hagree := (h _ _ (JsonCode.read_write (.obj pricedClaim) htext) pricedNote pricedClaim).agree
  have hblock : frontmatterBlock? pricedNote.toList = some "---\nstatement: costs $$5\n---\n".toList := by decide
  have hstands := agree_iff.mp hagree _ "prose\n".toList hblock rfl
  rw [newBlock, JsonCode.write_known] at hstands
  exact absurd hstands (by decide)

end Amicode.Claims
