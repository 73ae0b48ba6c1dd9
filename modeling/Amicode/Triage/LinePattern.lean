import Amicode.Plan.Compile
import Amicode.Foundation.Pattern

/-!
# Regular expressions for one line

The regular expressions that the triage edits a note by are all of one form, under the flag `m`: the start of a line,
maybe white space, a text (`products: [`), maybe an array up to its bracket, and white space to the end of a line.
White space is `\s`, line ends included, so that a match may begin above the line that the text stands on, and end
below it.

A text is seen here as lines with line feeds between them. No match begins in a line that is `Passed`
(`firstAt?_above`), and what is found for a line depends on the next one only (`at?_append`).
-/

open List Option

namespace Amicode.Triage

open JsText (isSpace stripPrefix?)

/-- The longest match of `\s*$`. -/
def toLineEnd? : List Char → Option (List Char)
  | [] => some []
  | c :: text =>
    if isSpace c then
      match toLineEnd? text with
      | some run => some (c :: run)
      | none => if Plan.isLineTerminator c then some [] else none
    else none

/-- `^text`, with `(\s*)` before the text and the rest of an array, `[^\]]*\]`, behind it where there is one, and
`\s*$` at the end. -/
structure LinePattern where
  indented : Bool
  bracketed : Bool
  text : List Char
  starts : ∃ c ∈ text.head?, isSpace c = false
  inLine : ∀ c ∈ text, Plan.isLineTerminator c = false

namespace LinePattern

def rest? (p : LinePattern) (text : List Char) : Option (List Char) :=
  if p.bracketed then
    match text.dropWhile (· ≠ ']') with
    | [] => none
    | bracket :: rest => (toLineEnd? rest).map fun run ↦ text.takeWhile (· ≠ ']') ++ bracket :: run
  else toLineEnd? text

/-- The captured white space. -/
def indent (p : LinePattern) (text : List Char) : List Char := if p.indented then text.takeWhile isSpace else []

/-- The match at the front of a text: the captured white space, and the whole of it. -/
def at? (p : LinePattern) (text : List Char) : Option (List Char × List Char) :=
  (stripPrefix? p.text (text.drop (p.indent text).length)).bind fun rest ↦
    (p.rest? rest).map fun run ↦ (p.indent text, p.indent text ++ p.text ++ run)

/-- The leftmost match, and the text before it. -/
def firstAt? (p : LinePattern) : Bool → List Char → Option (List Char × List Char × List Char)
  | _, [] => none
  | lineStart, c :: text =>
    match if lineStart then p.at? (c :: text) else none with
    | some found => some ([], found)
    | none => (p.firstAt? (Plan.isLineTerminator c) text).map fun e ↦ (c :: e.1, e.2)

end LinePattern

/-! ## White space to the end of a line -/

def IsLine (text : List Char) : Prop := ∀ c ∈ text, Plan.isLineTerminator c = false

/-- Nothing but white space. -/
def IsBlankLine (text : List Char) : Prop := ∀ c ∈ text, isSpace c = true

instance (text : List Char) : Decidable (IsLine text) := inferInstanceAs (Decidable (∀ c ∈ text, _))
instance (text : List Char) : Decidable (IsBlankLine text) := inferInstanceAs (Decidable (∀ c ∈ text, _))

variable {text rest : List Char} {c : Char}

theorem isSpace_newline : isSpace '\n' = true := by decide

theorem isLineTerminator_newline : Plan.isLineTerminator '\n' = true := by decide

theorem isSpace_of_isLineTerminator (h : Plan.isLineTerminator c = true) : isSpace c = true := by
  simp only [Plan.isLineTerminator, Bool.or_eq_true, decide_eq_true_eq] at h
  rcases h with ((rfl | rfl) | rfl) | rfl <;> decide

theorem toLineEnd?_of_not_blank (hline : IsLine text) (h : ¬ IsBlankLine text) (rest : List Char) :
    toLineEnd? (text ++ rest) = none := by
  induction text with
  | nil => exact absurd (fun c hc ↦ absurd hc not_mem_nil) h
  | cons c text ih =>
    obtain ⟨hc, hline⟩ := forall_mem_cons.mp hline
    rw [cons_append, toLineEnd?]
    by_cases hspace : isSpace c = true
    · have hrest : ¬ IsBlankLine text := fun hblank ↦ h (forall_mem_cons.mpr ⟨hspace, hblank⟩)
      rw [if_pos hspace, ih hline hrest]
      exact if_neg (ne_true_of_eq_false hc)
    · exact if_neg hspace

theorem toLineEnd?_of_blank (h : IsBlankLine text) : toLineEnd? text = some text := by
  induction text with
  | nil => rfl
  | cons c text ih =>
    obtain ⟨hc, htext⟩ := forall_mem_cons.mp h
    rw [toLineEnd?, if_pos hc, ih htext]

theorem toLineEnd?_of_blank_append (h : IsBlankLine text) (hrest : toLineEnd? rest = none) :
    toLineEnd? (text ++ '\n' :: rest) = some text := by
  induction text with
  | nil =>
    rw [nil_append, toLineEnd?, if_pos isSpace_newline, hrest]
    rfl
  | cons c text ih =>
    obtain ⟨hc, htext⟩ := forall_mem_cons.mp h
    rw [cons_append, toLineEnd?, if_pos hc, ih htext]

theorem drop_length_takeWhile (q : Char → Bool) (text : List Char) :
    text.drop (text.takeWhile q).length = text.dropWhile q := by
  have h : (text.takeWhile q ++ text.dropWhile q).drop (text.takeWhile q).length = text.dropWhile q := drop_left
  rwa [takeWhile_append_dropWhile] at h

/-! ## A line and what is below it -/

namespace LinePattern

variable {p : LinePattern} {line : List Char}

theorem newline_notMem_text (p : LinePattern) : '\n' ∉ p.text := fun h ↦
  absurd (p.inLine _ h) (by decide)

/-- A line on which an array is opened and not closed. -/
def Open (p : LinePattern) (line : List Char) : Prop :=
  p.bracketed = true ∧ ∃ rest, stripPrefix? p.text (line.drop (p.indent line).length) = some rest ∧ ']' ∉ rest

instance (p : LinePattern) (line : List Char) : Decidable (p.Open line) :=
  match h : stripPrefix? p.text (line.drop (p.indent line).length) with
  | none => .isFalse fun ⟨_, rest, hrest, _⟩ ↦ by rw [h] at hrest; cases hrest
  | some rest => decidable_of_iff (p.bracketed = true ∧ ']' ∉ rest) <| by
      rw [Open, h]
      simp

/-- The next line is not blank, where there is one. -/
def Settled (rest : List Char) : Prop := rest = [] ∨ ∃ next, rest = '\n' :: next ∧ toLineEnd? next = none

theorem indent_append (hblank : p.indented = true → ¬ IsBlankLine line) (rest : List Char) :
    p.indent (line ++ rest) = p.indent line := by
  unfold indent
  split_ifs with h
  · rw [takeWhile_append, if_neg]
    intro hlength
    refine hblank h fun c hc ↦ ?_
    have heq := (List.takeWhile_prefix isSpace).eq_of_length hlength
    rw [← heq] at hc
    exact mem_takeWhile_imp hc
  · rfl

/-- A line ends with its text, or with a line feed. -/
def EndsLine (rest : List Char) : Prop := rest = [] ∨ ∃ next, rest = '\n' :: next

variable {rest : List Char}

theorem Settled.endsLine (h : Settled rest) : EndsLine rest := by
  obtain rfl | ⟨next, rfl, -⟩ := h
  · exact .inl rfl
  · exact .inr ⟨next, rfl⟩

theorem stripPrefix?_append (hrest : EndsLine rest) (text : List Char) :
    stripPrefix? p.text (text ++ rest) = (stripPrefix? p.text text).map (· ++ rest) := by
  obtain rfl | ⟨next, rfl⟩ := hrest
  · simp
  · exact Pattern.stripPrefix?_append_cons p.newline_notMem_text text next

theorem toLineEnd?_append (hline : IsLine text) (hrest : toLineEnd? text ≠ none → Settled rest) :
    toLineEnd? (text ++ rest) = toLineEnd? text := by
  by_cases hblank : IsBlankLine text
  · have htext := toLineEnd?_of_blank hblank
    obtain rfl | ⟨next, rfl, hnext⟩ := hrest (by rw [htext]; exact some_ne_none _)
    · rw [append_nil]
    · rw [toLineEnd?_of_blank_append hblank hnext, htext]
  · have hnone := toLineEnd?_of_not_blank hline hblank []
    rw [append_nil] at hnone
    rw [toLineEnd?_of_not_blank hline hblank, hnone]

variable {front : List Char}

theorem rest?_of_bracket (hbracketed : p.bracketed = true) (hfront : ']' ∉ front) (back : List Char) :
    p.rest? (front ++ ']' :: back) = (toLineEnd? back).map fun run ↦ front ++ ']' :: run := by
  have hall : ∀ c ∈ front, decide (c ≠ ']') = true := fun c hc ↦ decide_eq_true (ne_of_mem_of_not_mem hc hfront)
  have hdrop : (front ++ ']' :: back).dropWhile (fun c ↦ decide (c ≠ ']')) = ']' :: back := by
    rw [dropWhile_append_of_pos hall]
    rfl
  have htake : (front ++ ']' :: back).takeWhile (fun c ↦ decide (c ≠ ']')) = front := by
    rw [takeWhile_append_of_pos hall]
    exact append_nil front
  rw [rest?, if_pos hbracketed, hdrop, htake]

theorem rest?_append (hline : IsLine text) (hclosed : p.bracketed = true → ']' ∈ text)
    (hrest : p.rest? text ≠ none → Settled rest) : p.rest? (text ++ rest) = p.rest? text := by
  by_cases hbracketed : p.bracketed = true
  · obtain ⟨front, back, rfl, hfront⟩ := eq_append_cons_of_mem (hclosed hbracketed)
    have hback : IsLine back := fun c hc ↦ hline c (mem_append_right _ (mem_cons_of_mem _ hc))
    rw [rest?_of_bracket hbracketed hfront] at hrest ⊢
    rw [append_assoc, cons_append, rest?_of_bracket hbracketed hfront,
      toLineEnd?_append hback fun h ↦ hrest (mt map_eq_none_iff.mp h)]
  · rw [rest?, if_neg hbracketed] at hrest ⊢
    rw [rest?, if_neg hbracketed, toLineEnd?_append hline hrest]

theorem at?_append (hline : IsLine line) (hblank : p.indented = true → ¬ IsBlankLine line)
    (hopen : ¬ p.Open line) (hends : EndsLine rest) (hrest : p.at? line ≠ none → Settled rest) :
    p.at? (line ++ rest) = p.at? line := by
  have hindent : (p.indent line).length ≤ line.length := by
    unfold indent
    split_ifs
    · exact (List.takeWhile_prefix _).length_le
    · exact Nat.zero_le _
  rw [at?, indent_append hblank, drop_append_of_le_length hindent, stripPrefix?_append hends]
  rw [at?] at hrest ⊢
  rcases hstrip : stripPrefix? p.text (line.drop (p.indent line).length) with _ | tail
  · rfl
  rw [hstrip] at hrest
  have htail : IsLine tail := by
    intro c hc
    have hmem : c ∈ line.drop (p.indent line).length := by
      rw [Pattern.stripPrefix?_eq_some hstrip]
      exact mem_append_right _ hc
    exact hline c (mem_of_mem_drop hmem)
  have hclosed : p.bracketed = true → ']' ∈ tail := fun hbracketed ↦ by_contra fun h ↦
    hopen ⟨hbracketed, tail, hstrip, h⟩
  rw [map_some, bind_some, bind_some,
    rest?_append htail hclosed fun h ↦ hrest (mt map_eq_none_iff.mp h)]

/-! ## What is found on a line -/

theorem toLineEnd?_eq_some {run : List Char} (hline : IsLine text) (h : toLineEnd? text = some run) : run = text := by
  by_cases hblank : IsBlankLine text
  · rw [toLineEnd?_of_blank hblank] at h
    exact (Option.some.inj h).symm
  · have hnone := toLineEnd?_of_not_blank hline hblank []
    rw [append_nil, h] at hnone
    cases hnone

theorem rest?_eq_some {run : List Char} (hline : IsLine text) (h : p.rest? text = some run) : run = text := by
  unfold rest? at h
  split_ifs at h
  · split at h
    · cases h
    · next bracket rest hrest =>
      obtain ⟨run', hrun, rfl⟩ := map_eq_some_iff.mp h
      have htext : text.takeWhile (fun c ↦ decide (c ≠ ']')) ++ bracket :: rest = text := by
        rw [← hrest, takeWhile_append_dropWhile]
      have hback : IsLine rest := fun c hc ↦
        hline c (htext ▸ mem_append_right _ (mem_cons_of_mem _ hc))
      rw [toLineEnd?_eq_some hback hrun, htext]
  · exact toLineEnd?_eq_some hline h

theorem at?_eq_some {i m : List Char} (hline : IsLine line) (h : p.at? line = some (i, m)) :
    m = line ∧ i = p.indent line ∧ ∃ rest, line = i ++ p.text ++ rest := by
  obtain ⟨rest, hstrip, hrest⟩ := bind_eq_some_iff.mp h
  obtain ⟨run, hrun, heq⟩ := map_eq_some_iff.mp hrest
  have htext := Pattern.stripPrefix?_eq_some hstrip
  have hindent : p.indent line ++ line.drop (p.indent line).length = line := by
    unfold indent
    split_ifs
    · rw [drop_length_takeWhile, takeWhile_append_dropWhile]
    · rfl
  have hback : IsLine rest := by
    intro c hc
    refine hline c (mem_of_mem_drop (i := (p.indent line).length) ?_)
    rw [htext]
    exact mem_append_right _ hc
  cases heq
  rw [htext, ← append_assoc] at hindent
  refine ⟨?_, rfl, rest, hindent.symm⟩
  rw [rest?_eq_some hback hrun, hindent]

theorem isSpace_of_mem_indent {c : Char} (h : c ∈ p.indent line) : isSpace c = true := by
  unfold indent at h
  split_ifs at h
  · exact mem_takeWhile_imp h
  · exact absurd h not_mem_nil

theorem at?_eq_none_of_other {q : LinePattern} (hline : IsLine line) (h : p.at? line ≠ none)
    (hpq : ¬ p.text <+: q.text) (hqp : ¬ q.text <+: p.text) : q.at? line = none := by
  have hbegins (r : LinePattern) (hr : r.at? line ≠ none) : r.text <+: line.dropWhile isSpace := by
    obtain ⟨⟨i, m⟩, him⟩ := ne_none_iff_exists'.mp hr
    obtain ⟨-, rfl, rest, hrest⟩ := at?_eq_some hline him
    obtain ⟨c, hc, hsolid⟩ := r.starts
    obtain ⟨tail, htail⟩ := head?_eq_some_iff.mp hc
    have hdrop : (r.indent line ++ r.text ++ rest).dropWhile isSpace = r.text ++ rest := by
      rw [append_assoc, dropWhile_append_of_pos fun c hc ↦ isSpace_of_mem_indent hc, htail,
        cons_append, dropWhile_cons_of_neg (ne_true_of_eq_false hsolid)]
    rw [← hrest] at hdrop
    exact ⟨rest, hdrop.symm⟩
  by_contra hq
  rcases prefix_or_prefix_of_prefix (hbegins p h) (hbegins q hq) with hle | hle
  · exact hpq hle
  · exact hqp hle

/-! ## Blank lines -/

theorem at?_eq_none {text : List Char} (h : stripPrefix? p.text (text.drop (p.indent text).length) = none) :
    p.at? text = none := by
  rw [at?, h]
  rfl

/-- The text of a pattern does not stand where there is white space. -/
theorem stripPrefix?_of_space {c : Char} (hc : isSpace c = true) (text : List Char) :
    stripPrefix? p.text (c :: text) = none := by
  obtain ⟨d, hd, hsolid⟩ := p.starts
  obtain ⟨tail, htail⟩ := head?_eq_some_iff.mp hd
  rw [htail]
  refine Pattern.stripPrefix?_cons_of_ne ?_
  rintro rfl
  rw [hc] at hsolid
  cases hsolid

theorem stripPrefix?_nil (p : LinePattern) : stripPrefix? p.text [] = none := by
  obtain ⟨d, hd, -⟩ := p.starts
  obtain ⟨tail, htail⟩ := head?_eq_some_iff.mp hd
  rw [htail]
  rfl

theorem indent_of_blank (hindented : p.indented = true) (hblank : IsBlankLine line) (next : List Char) :
    p.indent (line ++ '\n' :: next) = line ++ '\n' :: p.indent next := by
  rw [indent, indent, if_pos hindented, if_pos hindented, takeWhile_append_of_pos hblank, takeWhile_cons,
    if_pos isSpace_newline]

theorem at?_of_blank (hindented : p.indented = true) (hblank : IsBlankLine line) (next : List Char) :
    p.at? (line ++ '\n' :: next) = (p.at? next).map fun m ↦ (line ++ '\n' :: m.1, line ++ '\n' :: m.2) := by
  have hdrop : (line ++ '\n' :: next).drop (line ++ '\n' :: p.indent next).length =
      next.drop (p.indent next).length := by
    simp [drop_append]
  rw [at?, indent_of_blank hindented hblank, hdrop, at?]
  rcases stripPrefix? p.text (next.drop (p.indent next).length) with _ | tail
  · rfl
  · rw [bind_some, bind_some, Option.map_map]
    congr 1
    funext run
    simp

theorem at?_of_blank_of_not_indented (hindented : p.indented = false) (hblank : IsBlankLine line) (next : List Char) :
    p.at? (line ++ '\n' :: next) = none := by
  refine at?_eq_none ?_
  rw [indent, if_neg (by simp [hindented])]
  rcases line with _ | ⟨c, line⟩
  · exact stripPrefix?_of_space isSpace_newline next
  · exact stripPrefix?_of_space (hblank c mem_cons_self) _

theorem at?_blank (hblank : IsBlankLine line) : p.at? line = none := by
  refine at?_eq_none ?_
  unfold indent
  split_ifs
  · rw [(takeWhile_eq_self_iff).mpr hblank, drop_length]
    exact p.stripPrefix?_nil
  · rcases line with _ | ⟨c, line⟩
    · exact p.stripPrefix?_nil
    · exact stripPrefix?_of_space (hblank c mem_cons_self) _

/-! ## Lines that nothing is found on -/

/-- No match of the pattern begins on the line, whatever is below it; on a blank line one may, if it goes on below. -/
inductive Passed (p : LinePattern) : List Char → Prop
  | blank {x : List Char} (hblank : IsBlankLine x) (hline : IsLine x) : Passed p x
  | other {x : List Char} (hline : IsLine x) (hnone : ∀ rest, EndsLine rest → p.at? (x ++ rest) = none) : Passed p x
  /-- The line was written by an edit, and may be several. -/
  | foreign {front : List Char} {last : Char} (hspace : isSpace last = false) (hlast : last ∉ p.text)
      (htext : ¬ p.text <:+: front ++ [last]) : Passed p (front ++ [last])

def lineStart (start : Bool) (text : List Char) : Bool := text.foldl (fun _ c ↦ Plan.isLineTerminator c) start

theorem lineStart_of_isLine {text : List Char} (hne : text ≠ []) (hline : IsLine text) (start : Bool) :
    lineStart start text = false := by
  obtain ⟨front, last, rfl⟩ := eq_nil_or_concat text |>.resolve_left hne
  rw [lineStart, concat_eq_append, foldl_append]
  exact hline last (by simp)

theorem firstAt?_append (start : Bool) (rest : List Char)
    (h : ∀ u c v, front = u ++ c :: v → lineStart start u = true → p.at? (c :: v ++ rest) = none) :
    p.firstAt? start (front ++ rest) =
      (p.firstAt? (lineStart start front) rest).map fun e ↦ (front ++ e.1, e.2) := by
  induction front generalizing start with
  | nil => exact Option.map_id'.symm
  | cons c front ih =>
    have hnone : (if start = true then p.at? (c :: front ++ rest) else none) = none := by
      split_ifs with hstart
      · exact h [] c front rfl hstart
      · rfl
    rw [cons_append, firstAt?, ← cons_append, hnone]
    rw [ih (Plan.isLineTerminator c) fun u d v huv hu ↦ h (c :: u) d v (congrArg (c :: ·) huv) hu, Option.map_map]
    rfl

theorem firstAt?_of_isLine (hline : IsLine line) (rest : List Char)
    (h : line ≠ [] → p.at? (line ++ rest) = none) :
    p.firstAt? true (line ++ rest) = (p.firstAt? (lineStart true line) rest).map fun e ↦ (line ++ e.1, e.2) := by
  refine firstAt?_append true rest fun u c v huv hu ↦ ?_
  rcases eq_or_ne u [] with rfl | hne
  · rw [nil_append] at huv
    rw [← huv]
    exact h (huv ▸ cons_ne_nil c v)
  · have hu' : IsLine u := fun d hd ↦ hline d (huv ▸ mem_append_left _ hd)
    rw [lineStart_of_isLine hne hu'] at hu
    cases hu

/-- A text that an edit has written does not contain what is looked for, nor the beginning of it. -/
theorem at?_of_foreign {last : Char} (hspace : isSpace last = false) (hlast : last ∉ p.text)
    (htext : ¬ p.text <:+: front ++ [last]) (rest : List Char) : p.at? (front ++ last :: rest) = none := by
  have hdrop : ∃ back, back <:+ front ∧ (front ++ last :: rest).drop (p.indent (front ++ last :: rest)).length =
      back ++ last :: rest := by
    unfold indent
    split_ifs
    · refine ⟨front.dropWhile isSpace, dropWhile_suffix _, ?_⟩
      rw [drop_length_takeWhile, JsText.dropWhile_append_cons front hspace]
    · exact ⟨front, suffix_rfl, rfl⟩
  obtain ⟨back, hback, hdrop⟩ := hdrop
  refine at?_eq_none ?_
  rw [hdrop, Pattern.stripPrefix?_append_cons hlast, map_eq_none_iff]
  by_contra h
  obtain ⟨tail, htail⟩ := ne_none_iff_exists'.mp h
  have hpart : p.text <:+: back := ⟨[], tail, (Pattern.stripPrefix?_eq_some htail).symm⟩
  exact htext (hpart.trans (hback.isInfix.trans (prefix_append front [last]).isInfix))

/-! ## Looking through lines -/

/-- Lines, each with its line feed. -/
def above (lines : List (List Char)) : List Char := lines.flatMap (· ++ ['\n'])

/-- Lines, each behind a line feed. -/
def below (lines : List (List Char)) : List Char := lines.flatMap ('\n' :: ·)

theorem above_cons (line : List Char) (lines : List (List Char)) (rest : List Char) :
    above (line :: lines) ++ rest = line ++ '\n' :: (above lines ++ rest) := by
  simp [above]

theorem eq_or_of_append_newline {x u v : List Char} {c : Char} (h : x ++ ['\n'] = u ++ c :: v) :
    u = x ∨ ∃ w, v = w ++ ['\n'] ∧ x = u ++ c :: w := by
  rcases eq_nil_or_concat v with rfl | ⟨w, d, rfl⟩
  · exact .inl (append_inj' h rfl).1.symm
  · rw [concat_eq_append, ← cons_append, ← append_assoc] at h
    obtain ⟨hx, hd⟩ := append_inj' h rfl
    exact .inr ⟨w, by rw [concat_eq_append, ← List.cons.inj hd |>.1], hx⟩

theorem firstAt?_skip {x rest : List Char}
    (h : ∀ u c w, x = u ++ c :: w → lineStart true u = true → p.at? (c :: w ++ '\n' :: rest) = none)
    (hend : lineStart true x = true → p.at? ('\n' :: rest) = none) :
    p.firstAt? true (x ++ '\n' :: rest) = (p.firstAt? true rest).map fun e ↦ (x ++ '\n' :: e.1, e.2) := by
  have hpositions : ∀ u c v, x ++ ['\n'] = u ++ c :: v → lineStart true u = true → p.at? (c :: v ++ rest) = none := by
    intro u c v huv hu
    obtain rfl | ⟨w, rfl, hx⟩ := eq_or_of_append_newline huv
    · obtain ⟨rfl, rfl⟩ := List.cons.inj (append_cancel_left huv)
      exact hend hu
    · have hnone := h u c w hx hu
      simpa using hnone
  have hfirst := firstAt?_append true rest hpositions
  have hstart : lineStart true (x ++ ['\n']) = true := by
    rw [lineStart, foldl_append]
    exact isLineTerminator_newline
  rw [hstart, append_assoc, singleton_append] at hfirst
  simpa using hfirst

theorem firstAt?_skip_line (hline : IsLine line) (h : p.at? (line ++ '\n' :: rest) = none) :
    p.firstAt? true (line ++ '\n' :: rest) = (p.firstAt? true rest).map fun e ↦ (line ++ '\n' :: e.1, e.2) := by
  refine firstAt?_skip (fun u c w huw hu ↦ ?_) fun hu ↦ ?_
  · rcases eq_or_ne u [] with rfl | hne
    · rwa [huw, nil_append] at h
    · rw [lineStart_of_isLine hne fun d hd ↦ hline d (huw ▸ mem_append_left _ hd)] at hu
      cases hu
  · rcases eq_or_ne line [] with rfl | hne
    · exact h
    · rw [lineStart_of_isLine hne hline] at hu
      cases hu

theorem at?_within_foreign {front u w : List Char} {last c : Char} (hspace : isSpace last = false)
    (hlast : last ∉ p.text) (htext : ¬ p.text <:+: front ++ [last]) (h : front ++ [last] = u ++ c :: w)
    (rest : List Char) : p.at? (c :: w ++ rest) = none := by
  rcases eq_nil_or_concat w with rfl | ⟨w, d, rfl⟩
  · obtain ⟨-, hc⟩ := append_inj' h rfl
    rw [← (List.cons.inj hc).1]
    have hlone : ¬ p.text <:+: [] ++ [last] := fun h ↦ htext (h.trans (suffix_append front [last]).isInfix)
    exact at?_of_foreign hspace hlast hlone _
  · rw [concat_eq_append, ← cons_append, ← append_assoc] at h
    obtain ⟨hfront, hd⟩ := append_inj' h rfl
    rw [concat_eq_append, ← (List.cons.inj hd).1, ← cons_append, append_assoc, singleton_append]
    refine at?_of_foreign hspace hlast (fun h ↦ htext (h.trans ?_)) _
    rw [hfront, append_assoc]
    exact (suffix_append u _).isInfix

/-- A passed line is gone over, unless it is blank and the match it begins goes on below. -/
theorem firstAt?_passed (h : p.Passed line) (rest : List Char) :
    p.firstAt? true (line ++ '\n' :: rest) = (p.firstAt? true rest).map (fun e ↦ (line ++ '\n' :: e.1, e.2))
      ∨ p.indented = true ∧ IsBlankLine line ∧ p.at? rest ≠ none := by
  rcases h with ⟨hblank, hline⟩ | ⟨hline, hnone⟩ | ⟨hspace, hlast, htext⟩
  · by_cases hcross : p.indented = true ∧ p.at? rest ≠ none
    · exact .inr ⟨hcross.1, hblank, hcross.2⟩
    · refine .inl (firstAt?_skip_line hline ?_)
      rcases hindented : p.indented
      · exact at?_of_blank_of_not_indented hindented hblank _
      · rw [at?_of_blank hindented hblank, not_ne_iff.mp fun h ↦ hcross ⟨hindented, h⟩]
        rfl
  · exact .inl (firstAt?_skip_line hline (hnone _ (.inr ⟨_, rfl⟩)))
  · refine .inl (firstAt?_skip (fun u c w huw _ ↦ at?_within_foreign hspace hlast htext huw _) fun hu ↦ ?_)
    rw [lineStart, foldl_append] at hu
    exact absurd (isSpace_of_isLineTerminator hu) (ne_true_of_eq_false hspace)

theorem firstAt?_of_at? {m : List Char × List Char} (h : p.at? rest = some m) :
    p.firstAt? true rest = some ([], m) := by
  rcases rest with _ | ⟨c, rest⟩
  · rw [at?_blank fun c hc ↦ absurd hc not_mem_nil] at h
    cases h
  · rw [firstAt?, if_pos rfl, h]

theorem firstAt?_above {lines : List (List Char)} (hpassed : ∀ x ∈ lines, p.Passed x) {rest i m : List Char}
    (h : p.at? rest = some (i, m)) :
    ∃ before blank, p.firstAt? true (above lines ++ rest) = some (before, blank ++ i, blank ++ m)
      ∧ above lines = before ++ blank ∧ ∀ c ∈ blank, isSpace c = true := by
  induction lines with
  | nil => exact ⟨[], [], firstAt?_of_at? h, rfl, fun c hc ↦ absurd hc not_mem_nil⟩
  | cons x lines ih =>
    obtain ⟨hx, hlines⟩ := forall_mem_cons.mp hpassed
    obtain ⟨before, blank, hfirst, habove, hspace⟩ := ih hlines
    have hcons : above (x :: lines) = x ++ '\n' :: above lines := by
      simpa using above_cons x lines []
    rw [above_cons, hcons, habove]
    rcases firstAt?_passed hx (above lines ++ rest) with hskip | ⟨hindented, hblank, hat⟩
    · refine ⟨x ++ '\n' :: before, blank, ?_, by simp, hspace⟩
      rw [habove] at hskip hfirst
      rw [hskip, hfirst]
      rfl
    · -- the match begins on the blank line, or above it
      obtain ⟨m', hat⟩ := ne_none_iff_exists'.mp hat
      rw [firstAt?_of_at? hat] at hfirst
      cases hfirst
      refine ⟨[], x ++ '\n' :: blank, ?_, by simp, forall_mem_append.mpr ⟨hblank, ?_⟩⟩
      · have hfront := at?_of_blank hindented hblank (above lines ++ rest)
        rw [hat, habove] at hfront
        rw [firstAt?_of_at? hfront]
        simp
      · exact forall_mem_cons.mpr ⟨isSpace_newline, hspace⟩

theorem firstAt?_nil (p : LinePattern) (start : Bool) : p.firstAt? start [] = none := by
  cases start <;> rfl

theorem firstAt?_last (h : p.Passed line) : p.firstAt? true line = none := by
  have hmap (start : Bool) : (p.firstAt? start []).map (fun e ↦ (line ++ e.1, e.2)) = none := by
    rw [firstAt?_nil]
    rfl
  rw [← append_nil line]
  rcases h with ⟨hblank, hline⟩ | ⟨hline, hnone⟩ | ⟨hspace, hlast, htext⟩
  · rw [firstAt?_of_isLine hline [] fun _ ↦ by rw [append_nil, at?_blank hblank], hmap]
  · rw [firstAt?_of_isLine hline [] fun _ ↦ hnone [] (.inl rfl), hmap]
  · rw [firstAt?_append true [] fun u c w huw _ ↦ at?_within_foreign hspace hlast htext huw [], hmap]

theorem firstAt?_eq_none {lines : List (List Char)} (hpassed : ∀ x ∈ lines, p.Passed x) {last : List Char}
    (hlast : p.Passed last) : p.firstAt? true (above lines ++ last) = none := by
  induction lines with
  | nil => exact firstAt?_last hlast
  | cons x lines ih =>
    obtain ⟨hx, hlines⟩ := forall_mem_cons.mp hpassed
    have hrest := ih hlines
    rw [above_cons]
    rcases firstAt?_passed hx (above lines ++ last) with hskip | ⟨-, -, hat⟩
    · rw [hskip, hrest]
      rfl
    · obtain ⟨m, hat⟩ := ne_none_iff_exists'.mp hat
      rw [firstAt?_of_at? hat] at hrest
      cases hrest

end LinePattern

end Amicode.Triage
