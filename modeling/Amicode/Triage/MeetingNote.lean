import Amicode.Claims.NoteRewrite
import Amicode.Triage.LinePattern

/-!
# The rewriting of a meeting note

A meeting note waits for its tags: its frontmatter has a line for each of five tiers, one for what is unresolved, and
a status. `rewriteMeetingNote` (`triage.ts`) writes the tags of a proposal into these lines, the new status if there
are any, and links into the place that the note has for them. A field is looked for by a regular expression, and what
that matched is replaced as a text; only the status is replaced where it was found. Of a proposal it is kept what is
written.
-/

open List Option

namespace Amicode.Triage

open JsReplace

/-! ## Proposals -/

inductive Tier
  | products
  | projects
  | entities
  | types
  | themes
deriving DecidableEq

def Tier.key : Tier → String
  | .products => "products"
  | .projects => "projects"
  | .entities => "entities"
  | .types => "types"
  | .themes => "themes"

structure MeetingTags where
  products : List (List Char)
  projects : List (List Char)
  entities : List (List Char)
  types : List (List Char)
  themes : List (List Char)

structure MeetingTagProposal where
  tags : MeetingTags
  unresolved : List (List Char)

/-- The tiers with their values, in the order in which they are written. -/
def tiers (proposal : MeetingTagProposal) : List (Tier × List (List Char)) :=
  [(.products, proposal.tags.products), (.projects, proposal.tags.projects), (.entities, proposal.tags.entities),
    (.types, proposal.tags.types), (.themes, proposal.tags.themes)]

def tagArr (values : List (List Char)) : List Char :=
  '[' :: (JsText.join ", ".toList (values.map fun v ↦ '"' :: (v ++ ['"'])) ++ [']'])

/-! ## Edits -/

/-- A line to look for, and what to put in its place: the white space before it, a label, and an array. -/
structure Edit where
  pattern : LinePattern
  label : List Char
  values : Option (List (List Char))
  /-- What was matched is replaced where its text first stands, and not where it was matched. -/
  byText : Bool
  missing : String

def Edit.written (e : Edit) (indent : List Char) : List Char := indent ++ e.label ++ e.values.elim [] tagArr

def Edit.run (e : Edit) (fm : List Char) : Except String (List Char) :=
  match e.pattern.firstAt? true fm with
  | none => .error e.missing
  | some (before, indent, line) =>
    if e.byText then .ok (replaceFirst fm line (e.written indent))
    else .ok (before ++ e.written indent ++ fm.drop (before.length + line.length))

/-- `/^(\s*)key: \[[^\]]*\]\s*$/m`. -/
def Tier.pattern (tier : Tier) : LinePattern where
  indented := true
  bracketed := true
  text := tier.key.toList ++ ": [".toList
  starts := by cases tier <;> exact ⟨_, rfl, by decide⟩
  inLine := by cases tier <;> decide

/-- `/^(unresolved): \[[^\]]*\]\s*$/m`. -/
def unresolvedPattern : LinePattern where
  indented := false
  bracketed := true
  text := "unresolved: [".toList
  starts := ⟨_, rfl, by decide⟩
  inLine := by decide

/-- `/^status: pending-tag\s*$/m`. -/
def statusPattern : LinePattern where
  indented := false
  bracketed := false
  text := "status: pending-tag".toList
  starts := ⟨_, rfl, by decide⟩
  inLine := by decide

def tierEdit (tier : Tier) (values : List (List Char)) : Edit where
  pattern := tier.pattern
  label := tier.key.toList ++ ": ".toList
  values := some values
  byText := true
  missing := "malformed meeting note: no `" ++ tier.key ++ ": […]` line in the frontmatter"

def unresolvedEdit (values : List (List Char)) : Edit where
  pattern := unresolvedPattern
  label := "unresolved: ".toList
  values := some values
  byText := true
  missing := "malformed meeting note: no `unresolved: […]` line in the frontmatter"

def statusEdit : Edit where
  pattern := statusPattern
  label := "status: complete".toList
  values := none
  byText := false
  missing := "malformed meeting note: expected `status: pending-tag`"

/-- The tiers, what is unresolved, and the status if there is any tag. -/
def edits (proposal : MeetingTagProposal) : List Edit :=
  (tiers proposal).map (fun t ↦ tierEdit t.1 t.2) ++ unresolvedEdit proposal.unresolved ::
    (if (tiers proposal).any (fun t ↦ t.2 ≠ []) then [statusEdit] else [])

def placeholder : List Char := "- (auto-linked at curation)".toList

def noPlaceholder : String :=
  "malformed meeting note: no `## Context Links` placeholder to replace — never a guessed insertion"

def rewriteMeetingNote (raw : List Char) (proposal : MeetingTagProposal) (contextLinkLines : List (List Char)) :
    Except String (List Char) :=
  match Claims.frontmatterBlock? raw with
  | none => .error "malformed meeting note: could not isolate the frontmatter block"
  | some block =>
    match (edits proposal).foldlM (fun fm e ↦ e.run fm) block with
    | .error message => .error message
    | .ok fm =>
      let out := replaceFirst raw block fm
      if contextLinkLines = [] then .ok out
      else if JsText.includes out placeholder then
        .ok (replaceFirst out placeholder (JsText.join ['\n'] contextLinkLines))
      else .error noPlaceholder

end Amicode.Triage

/-!
# What the rewriting of a meeting note leaves as it is

A note's frontmatter is seen here as lines, of which some have been written anew (`Line`). Each edit writes one line,
the first of its form, and no other (`run_edit`); a run of edits writes one line each, all of them different
(`run_edits`). The conditions on the note (`Regular`) say that no text is taken for another that stands above it, those
on what is written (`Edit.Sound`, `Edit.Apart`) that it means nothing as a template and that no edit finds what another
has written.
-/

namespace Amicode.Triage

open JsReplace
open JsText (isSpace stripPrefix?)
open LinePattern (above below Passed Settled EndsLine)

/-! ## Lines of a text -/

theorem join_eq (before : List (List Char)) (line : List Char) (after : List (List Char)) :
    JsText.join ['\n'] (before ++ line :: after) = above before ++ line ++ below after := by
  induction before with
  | nil =>
    induction after generalizing line with
    | nil => simp [JsText.join, above, below]
    | cons next after ih =>
      have hrest := ih next
      rw [nil_append] at hrest
      rw [nil_append, JsText.join, hrest]
      · simp [above, below]
      · simp
  | cons x before ih =>
    rw [cons_append, JsText.join, ih]
    · simp [above, append_assoc]
    · exact fun h ↦ absurd (append_eq_nil_iff.mp h).2 (cons_ne_nil _ _)

/-- A text without a line feed that begins in the lines above stands on one of them. -/
theorem exists_of_occurrence {lines : List (List Char)} {q t u v : List Char} (hq : '\n' ∉ q)
    (h : above lines ++ t = u ++ q ++ v) (hlt : u.length < (above lines).length) : ∃ x ∈ lines, q <:+: x := by
  induction lines generalizing u with
  | nil => exact absurd hlt (Nat.not_lt_zero _)
  | cons x lines ih =>
    rw [LinePattern.above_cons, append_assoc] at h
    rcases append_eq_append_iff.mp h with ⟨w, rfl, hrest⟩ | ⟨w, rfl, hrest⟩
    · rcases w with _ | ⟨c, w⟩
      · -- it would begin with the line feed
        rcases q with _ | ⟨c, q⟩
        · exact ⟨x, mem_cons_self, nil_infix⟩
        · exact absurd (mem_cons.mpr (.inl (List.cons.inj hrest).1)) hq
      · have hlength : w.length < (above lines).length := by
          have hcons := congrArg List.length (LinePattern.above_cons x lines [])
          simp only [length_append, length_cons, length_nil] at hcons hlt
          omega
        obtain ⟨y, hy, hpart⟩ := ih (by rw [(List.cons.inj hrest).2, append_assoc]; rfl) hlength
        exact ⟨y, mem_cons_of_mem _ hy, hpart⟩
    · refine ⟨u ++ w, mem_cons_self, ?_⟩
      rcases append_eq_append_iff.mp hrest with ⟨z, rfl, -⟩ | ⟨z, rfl, hz⟩
      · exact ⟨u, z, append_assoc _ _ _⟩
      · rcases z with _ | ⟨c, z⟩
        · rw [append_nil]
          exact (suffix_append u w).isInfix
        · refine absurd (mem_append_right _ (mem_cons.mpr (.inl (List.cons.inj hz).1))) hq

/-! ## Lines, some of them written anew -/

structure Line where
  old : List Char
  new : Option (List Char)

def Line.text (line : Line) : List Char := line.new.getD line.old

/-- What was there and what is there now, where an edit has written. -/
def Line.edit? (line : Line) : Option (List Char × List Char) := line.new.map (line.old, ·)

def textOf (lines : List Line) : List Char := JsText.join ['\n'] (lines.map Line.text)

theorem textOf_eq (before : List Line) (line : Line) (after : List Line) :
    textOf (before ++ line :: after) =
      above (before.map Line.text) ++ line.text ++ below (after.map Line.text) := by
  rw [textOf, map_append, map_cons, join_eq]

/-- A written text that a pattern does not look into: its own text is not in it, nor the last character of it in the
pattern's. -/
def Foreign (p : LinePattern) (text : List Char) : Prop :=
  ∃ front last, text = front ++ [last] ∧ isSpace last = false ∧ last ∉ p.text ∧ ¬ p.text <:+: text

/-- A text that begins on a line that is not blank. -/
def Solid (text : List Char) : Prop := ∀ rest, toLineEnd? (text ++ rest) = none

/-- The conditions on the lines of a note, for the edits that are made to it. -/
structure Regular (lines : List (List Char)) (edits : List Edit) : Prop where
  isLine : ∀ x ∈ lines, IsLine x
  literal : ∀ x ∈ lines, hasDirective x = false
  /-- Arrays are closed on the line they are opened on. -/
  closed : ∀ e ∈ edits, ∀ x ∈ lines, ¬ e.pattern.Open x
  /-- No blank line follows a line that is written anew. -/
  notBlankBelow : lines.IsChain fun x y ↦ (∃ e ∈ edits, e.pattern.at? x ≠ none) → ¬ IsBlankLine y
  /-- The text of a line that is written anew does not stand above it. -/
  noCopyAbove : ∀ e ∈ edits, ∀ x ∈ lines.find? (fun x ↦ (e.pattern.at? x).isSome),
    ∀ y ∈ lines.takeWhile (fun x ↦ (e.pattern.at? x).isNone), ¬ x <:+: y

/-- What an edit writes is literal, and begins and ends in a line. -/
structure Edit.Sound (e : Edit) : Prop where
  solid : ∀ indent, IsLine indent → IsBlankLine indent → Solid (e.written indent)
  literal : ∀ indent, IsBlankLine indent → hasDirective (e.written indent) = false

/-- Neither edit finds the line of the other, nor the second what the first has written. -/
structure Edit.Apart (e f : Edit) : Prop where
  left : ¬ e.pattern.text <+: f.pattern.text
  right : ¬ f.pattern.text <+: e.pattern.text
  foreign : ∀ indent, IsBlankLine indent → Foreign f.pattern (e.written indent)

structure Stage (lines : List (List Char)) (edits : List Edit) (ls : List Line) : Prop where
  old : ls.map Line.old = lines
  written : ∀ l ∈ ls, ∀ w ∈ l.new, Solid w ∧ ∀ e ∈ edits, Foreign e.pattern w ∧ e.pattern.at? l.old = none

variable {lines : List (List Char)} {e : Edit} {es : List Edit} {ls : List Line}

variable {l : Line} {before after : List Line}

section

variable (hreg : Regular lines (e :: es)) (hstage : Stage lines (e :: es) ls)

include hreg hstage

theorem Stage.passed (hl : l ∈ ls) (hnone : e.pattern.at? l.old = none) : Passed e.pattern l.text := by
  have hmem : l.old ∈ lines := hstage.old ▸ List.mem_map_of_mem hl
  have hline := hreg.isLine _ hmem
  rcases hnew : l.new with _ | w
  · rw [Line.text, hnew]
    change Passed e.pattern l.old
    by_cases hblank : IsBlankLine l.old
    · exact .blank hblank hline
    · refine .other hline fun rest hrest ↦ ?_
      rw [LinePattern.at?_append hline (fun _ ↦ hblank) (hreg.closed e mem_cons_self _ hmem) hrest
        fun h ↦ absurd hnone h, hnone]
  · obtain ⟨front, last, rfl, hspace, hlast, htext⟩ := ((hstage.written l hl w hnew).2 e mem_cons_self).1
    rw [Line.text, hnew]
    exact .foreign hspace hlast htext

theorem run_eq_error (hnone : ∀ x ∈ lines, e.pattern.at? x = none) : e.run (textOf ls) = .error e.missing := by
  have hpassed : ∀ l ∈ ls, Passed e.pattern l.text := fun l hl ↦
    hstage.passed hreg hl (hnone _ (hstage.old ▸ List.mem_map_of_mem hl))
  have hfirst : e.pattern.firstAt? true (textOf ls) = none := by
    rcases eq_nil_or_concat ls with rfl | ⟨front, last, rfl⟩
    · exact LinePattern.firstAt?_nil _ _
    · rw [concat_eq_append] at hpassed ⊢
      rw [textOf_eq, map_nil]
      change e.pattern.firstAt? true (above (front.map Line.text) ++ last.text ++ []) = none
      rw [append_nil]
      refine LinePattern.firstAt?_eq_none (List.forall_mem_map.mpr fun l hl ↦ ?_) ?_
      · exact hpassed l (mem_append_left _ hl)
      · exact hpassed last (by simp)
  rw [Edit.run, hfirst]

/-- What stands below a line that is written anew begins with a line that is not blank. -/
theorem Stage.settled (hls : ls = before ++ l :: after) (hat : e.pattern.at? l.old ≠ none) :
    Settled (below (after.map Line.text)) := by
  rcases after with _ | ⟨next, after⟩
  · exact .inl rfl
  refine .inr ⟨next.text ++ below (after.map Line.text), rfl, ?_⟩
  have hmem : next ∈ ls := by simp [hls]
  rcases hnew : next.new with _ | w
  · have hchain := hreg.notBlankBelow
    rw [← hstage.old, hls, map_append, map_cons, map_cons, isChain_append_cons_cons] at hchain
    rw [Line.text, hnew]
    exact toLineEnd?_of_not_blank (hreg.isLine _ (hstage.old ▸ List.mem_map_of_mem hmem))
      (hchain.2.1 ⟨e, mem_cons_self, hat⟩) _
  · rw [Line.text, hnew]
    exact (hstage.written next hmem w hnew).1 _

end

/-- The first line that a pattern is found on, and the lines above it. -/
theorem find?_first {p : LinePattern} {before : List (List Char)} {x : List Char}
    (hbefore : ∀ y ∈ before, p.at? y = none) (hx : p.at? x ≠ none) (after : List (List Char)) :
    (before ++ x :: after).find? (fun x ↦ (p.at? x).isSome) = some x
      ∧ (before ++ x :: after).takeWhile (fun x ↦ (p.at? x).isNone) = before := by
  have hsome : (p.at? x).isSome = true := isSome_iff_ne_none.mpr hx
  constructor
  · rw [find?_append, find?_eq_none.mpr fun y hy ↦ by simp [hbefore y hy], none_or, find?_cons,
      hsome]
  · rw [takeWhile_append_of_pos fun y hy ↦ by simp [hbefore y hy],
      takeWhile_cons_of_neg (by simpa using hx), append_nil]

/-- No copy of the line that is written anew stands above it, not even in what has been written. -/
theorem Stage.not_above (hreg : Regular lines (e :: es)) (hstage : Stage lines (e :: es) ls)
    (hls : ls = before ++ l :: after) (hbefore : ∀ y ∈ before, e.pattern.at? y.old = none)
    (hat : e.pattern.at? l.old ≠ none) : ∀ x ∈ before.map Line.text, ¬ l.old <:+: x := by
  have hlines : lines = before.map Line.old ++ l.old :: after.map Line.old := by
    rw [← hstage.old, hls, map_append, map_cons]
  have hline : IsLine l.old := hreg.isLine _ (by simp [hlines])
  obtain ⟨⟨i, m⟩, him⟩ := ne_none_iff_exists'.mp hat
  obtain ⟨-, -, rest, hrest⟩ := LinePattern.at?_eq_some hline him
  intro x hx hcopy
  obtain ⟨y, hy, rfl⟩ := List.mem_map.mp hx
  rcases hnew : y.new with _ | w
  · rw [Line.text, hnew] at hcopy
    obtain ⟨hfind, htake⟩ := find?_first (List.forall_mem_map.mpr hbefore) hat (after.map Line.old)
    rw [← hlines] at hfind htake
    refine hreg.noCopyAbove e mem_cons_self l.old hfind y.old ?_ hcopy
    rw [htake]
    exact List.mem_map_of_mem hy
  · rw [Line.text, hnew] at hcopy
    obtain ⟨-, -, -, -, -, htext⟩ := ((hstage.written y (by simp [hls, hy]) w hnew).2 e mem_cons_self).1
    refine htext (IsInfix.trans ⟨i, rest, ?_⟩ hcopy)
    rw [hrest]

theorem run_eq_ok (hreg : Regular lines (e :: es)) (hstage : Stage lines (e :: es) ls) (hsound : e.Sound)
    (hls : ls = before ++ l :: after) {i : List Char}
    (hbefore : ∀ y ∈ before, e.pattern.at? y.old = none) (hkept : l.new = none)
    (hat : e.pattern.at? l.old = some (i, l.old)) :
    e.run (textOf ls) = .ok (textOf (before ++ ⟨l.old, some (e.written i)⟩ :: after)) := by
  have hmem : l.old ∈ lines := hstage.old ▸ List.mem_map_of_mem (by simp [hls])
  have hline := hreg.isLine _ hmem
  have hne : e.pattern.at? l.old ≠ none := by rw [hat]; exact some_ne_none _
  have hsettled := hstage.settled hreg hls hne
  have hnotBlank : ¬ IsBlankLine l.old := fun h ↦ hne (LinePattern.at?_blank h)
  have hbelow : e.pattern.at? (l.old ++ below (after.map Line.text)) = some (i, l.old) := by
    rw [LinePattern.at?_append hline (fun _ ↦ hnotBlank) (hreg.closed e mem_cons_self _ hmem) hsettled.endsLine
      fun _ ↦ hsettled, hat]
  have hpassed : ∀ x ∈ before.map Line.text, Passed e.pattern x := List.forall_mem_map.mpr fun y hy ↦
    hstage.passed hreg (by simp [hls, hy]) (hbefore y hy)
  obtain ⟨front, blank, hfirst, habove, hblank⟩ := LinePattern.firstAt?_above hpassed hbelow
  have htext : textOf ls = above (before.map Line.text) ++ (l.old ++ below (after.map Line.text)) := by
    rw [hls, textOf_eq, Line.text, hkept, append_assoc]
    rfl
  have hnew : textOf (before ++ ⟨l.old, some (e.written i)⟩ :: after) =
      front ++ e.written (blank ++ i) ++ below (after.map Line.text) := by
    rw [textOf_eq, habove, Edit.written, Edit.written]
    simp [Line.text, append_assoc]
  have hfront : textOf ls = front ++ (blank ++ l.old) ++ below (after.map Line.text) := by
    rw [htext, habove]
    simp [append_assoc]
  have hcut : cut? (blank ++ l.old) (textOf ls) = some (front, below (after.map Line.text)) := by
    rw [hfront]
    refine cut?_eq_some fun u v huv ↦ ?_
    by_contra hlt
    rw [Nat.not_le] at hlt
    -- the line would begin above the place where it was found
    have hcopy : above (before.map Line.text) ++ (l.old ++ below (after.map Line.text)) =
        (u ++ blank) ++ l.old ++ v := by
      rw [← htext, hfront, huv]
      simp [append_assoc]
    have hlength : (u ++ blank).length < (above (before.map Line.text)).length := by
      rw [habove, length_append, length_append]
      omega
    have hnewline : '\n' ∉ l.old := fun h ↦ absurd (hline _ h) (by decide)
    obtain ⟨x, hx, hpart⟩ := exists_of_occurrence hnewline hcopy hlength
    exact hstage.not_above hreg hls hbefore hne x hx hpart
  have hindent : IsBlankLine (blank ++ i) := by
    obtain ⟨-, rfl, -⟩ := LinePattern.at?_eq_some hline hat
    exact forall_mem_append.mpr ⟨hblank, fun c hc ↦ LinePattern.isSpace_of_mem_indent hc⟩
  rw [Edit.run, htext, hfirst, ← htext, hnew]
  dsimp only
  split_ifs
  · rw [replaceFirst_eq hcut, substitute_eq_self (hsound.literal _ hindent)]
  · have hdrop : (textOf ls).drop (front.length + (blank ++ l.old).length) = below (after.map Line.text) := by
      rw [hfront, ← length_append, drop_left]
    rw [hdrop]

/-! ## A run of edits -/

/-- What an edit has written, and in place of what: the first line of its form. -/
structure Writes (lines : List (List Char)) (e : Edit) (d : List Char × List Char) : Prop where
  first : lines.find? (fun x ↦ (e.pattern.at? x).isSome) = some d.1
  written : ∃ indent, e.pattern.at? d.1 = some (indent, d.1) ∧ d.2 = e.written indent

theorem Regular.tail (h : Regular lines (e :: es)) : Regular lines es where
  isLine := h.isLine
  literal := h.literal
  closed f hf := h.closed f (mem_cons_of_mem _ hf)
  notBlankBelow := h.notBlankBelow.imp fun x y hxy hx ↦ hxy <| by
    obtain ⟨f, hf, hat⟩ := hx
    exact ⟨f, mem_cons_of_mem _ hf, hat⟩
  noCopyAbove f hf := h.noCopyAbove f (mem_cons_of_mem _ hf)

theorem run_edit (hreg : Regular lines (e :: es)) (hstage : Stage lines (e :: es) ls) (hsound : e.Sound)
    (hapart : ∀ f ∈ es, e.Apart f) :
    (e.run (textOf ls) = .error e.missing ∧ ∀ x ∈ lines, e.pattern.at? x = none) ∨
      ∃ ls' d, e.run (textOf ls) = .ok (textOf ls') ∧ Stage lines es ls' ∧ Writes lines e d
        ∧ (ls'.filterMap Line.edit?).Perm (d :: ls.filterMap Line.edit?) := by
  by_cases hnone : ∀ x ∈ lines, e.pattern.at? x = none
  · exact .inl ⟨run_eq_error hreg hstage hnone, hnone⟩
  have hexists : ∃ l ∈ ls, e.pattern.at? l.old ≠ none := by
    simp only [not_forall] at hnone
    obtain ⟨x, hx, hat⟩ := hnone
    rw [← hstage.old] at hx
    obtain ⟨l, hl, rfl⟩ := List.mem_map.mp hx
    exact ⟨l, hl, hat⟩
  have hfind : (ls.find? fun l ↦ (e.pattern.at? l.old).isSome).isSome = true := by
    obtain ⟨l, hl, hat⟩ := hexists
    exact find?_isSome.mpr ⟨l, hl, isSome_iff_ne_none.mpr hat⟩
  obtain ⟨l, hl⟩ := isSome_iff_exists.mp hfind
  obtain ⟨hat, before, after, hls, hbefore⟩ := find?_eq_some_iff_append.mp hl
  have hne : e.pattern.at? l.old ≠ none := isSome_iff_ne_none.mp hat
  have hbefore : ∀ y ∈ before, e.pattern.at? y.old = none := fun y hy ↦ by simpa using hbefore y hy
  have hmem : l ∈ ls := by simp [hls]
  have hlines : lines = before.map Line.old ++ l.old :: after.map Line.old := by
    rw [← hstage.old, hls, map_append, map_cons]
  have hline := hreg.isLine l.old (by simp [hlines])
  obtain ⟨⟨i, m⟩, him⟩ := ne_none_iff_exists'.mp hne
  obtain ⟨rfl, hi, rest, hrest⟩ := LinePattern.at?_eq_some hline him
  have hkept : l.new = none := by
    by_contra hnew
    obtain ⟨w, hw⟩ := ne_none_iff_exists'.mp hnew
    exact hne ((hstage.written l hmem w hw).2 e mem_cons_self).2
  have hblank : IsBlankLine i := by
    rw [hi]
    exact fun c hc ↦ LinePattern.isSpace_of_mem_indent hc
  have hindent : IsLine i := by
    intro c hc
    refine hline c ?_
    rw [hrest]
    exact mem_append_left _ (mem_append_left _ hc)
  refine .inr ⟨before ++ ⟨l.old, some (e.written i)⟩ :: after, (l.old, e.written i),
    run_eq_ok hreg hstage hsound hls hbefore hkept him, ⟨?_, fun y hy w hw ↦ ?_⟩, ⟨?_, i, him, rfl⟩, ?_⟩
  · rw [hlines, map_append, map_cons]
  · rcases mem_append.mp hy with hy | hy
    · obtain ⟨hsolid, hall⟩ := hstage.written y (by simp [hls, hy]) w hw
      exact ⟨hsolid, fun f hf ↦ hall f (mem_cons_of_mem _ hf)⟩
    rcases mem_cons.mp hy with rfl | hy
    · cases hw
      refine ⟨hsound.solid i hindent hblank, fun f hf ↦ ⟨(hapart f hf).foreign i hblank, ?_⟩⟩
      exact LinePattern.at?_eq_none_of_other hline hne (hapart f hf).left (hapart f hf).right
    · obtain ⟨hsolid, hall⟩ := hstage.written y (by simp [hls, hy]) w hw
      exact ⟨hsolid, fun f hf ↦ hall f (mem_cons_of_mem _ hf)⟩
  · rw [hlines]
    exact (find?_first (List.forall_mem_map.mpr hbefore) hne _).1
  · have hedit : l.edit? = none := by rw [Line.edit?, hkept]; rfl
    rw [hls, filterMap_append, filterMap_append, filterMap_cons, filterMap_cons, hedit]
    exact perm_middle

theorem run_edits (hreg : Regular lines es) (hstage : Stage lines es ls) (hsound : ∀ e ∈ es, e.Sound)
    (hapart : es.Pairwise Edit.Apart) :
    (∃ e ∈ es, es.foldlM (fun fm e ↦ e.run fm) (textOf ls) = .error e.missing ∧ ∀ x ∈ lines, e.pattern.at? x = none) ∨
      ∃ ls' ds, es.foldlM (fun fm e ↦ e.run fm) (textOf ls) = .ok (textOf ls') ∧ ls'.map Line.old = lines
        ∧ List.Forall₂ (Writes lines) es ds ∧ (ls'.filterMap Line.edit?).Perm (ds ++ ls.filterMap Line.edit?) := by
  induction es generalizing ls with
  | nil => exact .inr ⟨ls, [], rfl, hstage.old, .nil, .refl _⟩
  | cons e es ih =>
    obtain ⟨he, hes⟩ := forall_mem_cons.mp hsound
    obtain ⟨hfirst, hrest⟩ := pairwise_cons.mp hapart
    rcases run_edit hreg hstage he hfirst with ⟨hrun, hnone⟩ | ⟨ls', d, hrun, hstage', hd, hperm⟩
    · refine .inl ⟨e, mem_cons_self, ?_, hnone⟩
      rw [foldlM_cons, hrun]
      rfl
    · have hcons : (e :: es).foldlM (fun fm e ↦ e.run fm) (textOf ls) =
          es.foldlM (fun fm e ↦ e.run fm) (textOf ls') := by
        rw [foldlM_cons, hrun]
        rfl
      rw [hcons]
      rcases ih hreg.tail hstage' hes hrest with ⟨f, hf, hrun', hnone⟩ | ⟨ls'', ds, hrun', hold, hds, hperm'⟩
      · exact .inl ⟨f, mem_cons_of_mem _ hf, hrun', hnone⟩
      · exact .inr ⟨ls'', d :: ds, hrun', hold, .cons hd hds,
          hperm'.trans ((hperm.append_left ds).trans perm_middle)⟩

end Amicode.Triage
