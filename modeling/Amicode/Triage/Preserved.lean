import Amicode.Triage.MeetingNote

/-!
# The lines that a rewritten meeting note keeps

The edits that a proposal asks for meet the conditions of a run of edits if the tags are plain: no tag contains the
text of a field, nor a pair of characters that means something in a template (`Plain`). Then the note keeps every line
of its frontmatter but the ones of the fields, each of which is written once, and its prose but for the placeholder.
-/

namespace Amicode.Triage

open JsReplace List
open JsText (isSpace)
open LinePattern (above below)

/-! ## What stands in a list of tags -/

variable {q : List Char}

/-- What stands on both sides of a character stands on one of them, if the character is not in it. -/
theorem part_of_append_cons {c : Char} (hc : c ∉ q) {x y : List Char} (h : q <:+: x ++ c :: y) :
    q <:+: x ∨ q <:+: y := by
  have hhead {r : List Char} (hr : r ≠ []) (hle : r <+: c :: y) : c ∈ r := by
    obtain ⟨d, r, rfl⟩ := exists_cons_of_ne_nil hr
    obtain ⟨tail, htail⟩ := hle
    exact mem_cons.mpr (.inl (List.cons.inj htail).1.symm)
  rcases infix_append_iff_ne_nil.mp h with hx | hcons | ⟨front, back, -, hback, rfl, -, hle⟩
  · exact .inl hx
  · rcases infix_cons_iff.mp hcons with hle | hy
    · rcases eq_or_ne q [] with rfl | hne
      · exact .inl nil_infix
      · exact absurd (hhead hne hle) hc
    · exact .inr hy
  · exact absurd (mem_append_right front (hhead hback hle)) hc

/-- What does not begin with white space does not begin in it. -/
theorem part_of_blank_append (hq : ∃ c ∈ q.head?, isSpace c = false) {blank y : List Char}
    (hblank : IsBlankLine blank) (h : q <:+: blank ++ y) : q <:+: y := by
  induction blank with
  | nil => exact h
  | cons c blank ih =>
    obtain ⟨hc, hblank⟩ := forall_mem_cons.mp hblank
    rcases infix_cons_iff.mp h with ⟨tail, htail⟩ | hrest
    · obtain ⟨d, hd, hsolid⟩ := hq
      obtain ⟨q', rfl⟩ := head?_eq_some_iff.mp hd
      rw [(List.cons.inj htail).1, hc] at hsolid
      cases hsolid
    · exact ih hblank hrest

/-- The tags behind the opening bracket, up to the closing one. -/
def tagTail (values : List (List Char)) : List Char :=
  JsText.join ", ".toList (values.map fun v ↦ '"' :: (v ++ ['"'])) ++ [']']

theorem tagArr_eq (values : List (List Char)) : tagArr values = '[' :: tagTail values := rfl

theorem tagTail_singleton (v : List Char) : tagTail [v] = '"' :: (v ++ '"' :: [']']) := by
  simp [tagTail, JsText.join]

theorem tagTail_cons (v w : List Char) (values : List (List Char)) :
    tagTail (v :: w :: values) = '"' :: (v ++ '"' :: (", ".toList ++ tagTail (w :: values))) := by
  simp [tagTail, JsText.join]

theorem exists_tagTail (v : List Char) (values : List (List Char)) : ∃ tail, tagTail (v :: values) = '"' :: tail := by
  cases values with
  | nil => exact ⟨_, tagTail_singleton v⟩
  | cons w values => exact ⟨_, tagTail_cons v w values⟩

variable {values : List (List Char)} {xs : List (List Char)}

/-- A text without a quotation mark that stands in a list of tags stands in a tag, or between two. -/
theorem part_of_tagTail (hquote : '"' ∉ q) (h : q <:+: tagTail values) :
    (∃ v ∈ values, q <:+: v) ∨ q <:+: ", ".toList ∨ q <:+: [']'] := by
  induction values with
  | nil => exact .inr (.inr h)
  | cons v values ih =>
    rcases values with _ | ⟨w, values⟩
    · rw [tagTail_singleton] at h
      rcases part_of_append_cons hquote (x := []) h with hnil | h
      · exact .inr (.inr (hnil.trans nil_infix))
      rcases part_of_append_cons hquote h with h | h
      · exact .inl ⟨v, mem_cons_self, h⟩
      · exact .inr (.inr h)
    · rw [tagTail_cons] at h
      rcases part_of_append_cons hquote (x := []) h with hnil | h
      · exact .inr (.inr (hnil.trans nil_infix))
      rcases part_of_append_cons hquote h with h | h
      · exact .inl ⟨v, mem_cons_self, h⟩
      obtain ⟨tail, htail⟩ := exists_tagTail w values
      rw [htail] at h ih
      rcases part_of_append_cons hquote h with h | h
      · exact .inr (.inl h)
      · rcases ih (infix_cons h) with ⟨u, hu, hpart⟩ | hpart
        · exact .inl ⟨u, mem_cons_of_mem _ hu, hpart⟩
        · exact .inr hpart

theorem not_part_of_field (hq : ∃ c ∈ q.head?, isSpace c = false) (hquote : '"' ∉ q) {label indent : List Char}
    (hlabel : ¬ q <:+: label ++ "[]".toList) (hcomma : ¬ q <:+: ", ".toList)
    (hvalues : ∀ v ∈ values, ¬ q <:+: v) (hindent : IsBlankLine indent) :
    ¬ q <:+: indent ++ label ++ tagArr values := by
  intro h
  rw [append_assoc] at h
  have hfield := part_of_blank_append hq hindent h
  rcases values with _ | ⟨v, values⟩
  · exact hlabel hfield
  obtain ⟨tail, htail⟩ := exists_tagTail v values
  have hopen : label ++ tagArr (v :: values) = (label ++ ['[']) ++ '"' :: tail := by
    rw [tagArr_eq, htail]
    simp
  rw [hopen] at hfield
  rcases part_of_append_cons hquote hfield with h | h
  · exact hlabel (h.trans ⟨[], [']'], by simp⟩)
  have htags : q <:+: tagTail (v :: values) := htail ▸ infix_cons h
  rcases part_of_tagTail hquote htags with ⟨w, hw, hpart⟩ | hpart | hpart
  · exact hvalues w hw hpart
  · exact hcomma hpart
  · exact hlabel (hpart.trans ⟨label ++ ['['], [], by simp⟩)

theorem hasDirective_tagArr (h : ∀ v ∈ values, hasDirective v = false) :
    hasDirective (tagArr values) = false := by
  rw [tagArr_eq, hasDirective_cons (by decide)]
  induction values with
  | nil => rfl
  | cons v values ih =>
    obtain ⟨hv, hvalues⟩ := forall_mem_cons.mp h
    rcases values with _ | ⟨w, values⟩
    · rw [tagTail_singleton, hasDirective_cons (by decide), hasDirective_append_cons (by decide) (by decide), hv]
      rfl
    · rw [tagTail_cons, hasDirective_cons (by decide), hasDirective_append_cons (by decide) (by decide), hv,
        hasDirective_append_of_notMem (by decide), ih hvalues]
      rfl

/-! ## The edits of a proposal -/

def tagsOf (proposal : MeetingTagProposal) : List (List Char) :=
  (tiers proposal).flatMap Prod.snd ++ proposal.unresolved

/-- No tag means anything as a template, nor has it the text of a field that is looked for. -/
structure Plain (proposal : MeetingTagProposal) : Prop where
  literal : ∀ v ∈ tagsOf proposal, hasDirective v = false
  foreign : ∀ e ∈ edits proposal, ∀ v ∈ tagsOf proposal, ¬ e.pattern.text <:+: v

theorem solid_of_label {indent label rest : List Char} (hindent : IsLine indent)
    (hlabel : ∃ c ∈ label.head?, isSpace c = false) : Solid (indent ++ label ++ rest) := by
  intro below
  obtain ⟨c, hc, hsolid⟩ := hlabel
  obtain ⟨tail, rfl⟩ := head?_eq_some_iff.mp hc
  have hline : IsLine (indent ++ [c]) := by
    refine forall_mem_append.mpr ⟨hindent, forall_mem_singleton.mpr ?_⟩
    by_contra h
    rw [isSpace_of_isLineTerminator ((Bool.not_eq_false _).mp h)] at hsolid
    cases hsolid
  have hblank : ¬ IsBlankLine (indent ++ [c]) := fun h ↦
    absurd (h c (by simp)) (ne_true_of_eq_false hsolid)
  have hnone := toLineEnd?_of_not_blank hline hblank (tail ++ rest ++ below)
  simpa using hnone

theorem sound_of_label {e : Edit} (hlabel : ∃ c ∈ e.label.head?, isSpace c = false) (hdollar : '$' ∉ e.label)
    (hvalues : ∀ vs ∈ e.values, ∀ v ∈ vs, hasDirective v = false) : e.Sound where
  solid indent hline _ := solid_of_label hline hlabel
  literal indent hblank := by
    have hindent : '$' ∉ indent := fun h ↦ absurd (hblank _ h) (by decide)
    rw [Edit.written, append_assoc, hasDirective_append_of_notMem hindent,
      hasDirective_append_of_notMem hdollar]
    rcases hv : e.values with _ | vs
    · rfl
    · exact hasDirective_tagArr (hvalues vs hv)

/-- The text of a pattern against a field that another edit writes. -/
structure Distinct (q label text : List Char) : Prop where
  left : ¬ text <+: q
  right : ¬ q <+: text
  quote : '"' ∉ q
  bracket : ']' ∉ q
  comma : ¬ q <:+: ", ".toList
  label : ¬ q <:+: label ++ "[]".toList

theorem apart_of_distinct {e f : Edit} {vs : List (List Char)} (hvalues : e.values = some vs)
    (h : Distinct f.pattern.text e.label e.pattern.text) (hforeign : ∀ v ∈ vs, ¬ f.pattern.text <:+: v) :
    e.Apart f where
  left := h.left
  right := h.right
  foreign indent hindent := by
    have hwritten : e.written indent = indent ++ e.label ++ tagArr vs := by
      rw [Edit.written, hvalues]
      rfl
    rw [hwritten]
    refine ⟨indent ++ e.label ++ '[' :: JsText.join ", ".toList (vs.map fun v ↦ '"' :: (v ++ ['"'])), ']', ?_,
      by decide, h.bracket, not_part_of_field f.pattern.starts h.quote h.label h.comma hforeign hindent⟩
    rw [tagArr, append_assoc, append_assoc, append_assoc, cons_append]

theorem distinct_tier {s t : Tier} (h : s ≠ t) :
    Distinct t.pattern.text (s.key.toList ++ ": ".toList) s.pattern.text := by
  cases s <;> cases t <;> first
    | exact absurd rfl h
    | exact ⟨by decide, by decide, by decide, by decide, by decide, by decide⟩

theorem distinct_unresolved (t : Tier) :
    Distinct unresolvedPattern.text (t.key.toList ++ ": ".toList) t.pattern.text := by
  cases t <;> exact ⟨by decide, by decide, by decide, by decide, by decide, by decide⟩

theorem distinct_status (t : Tier) :
    Distinct statusPattern.text (t.key.toList ++ ": ".toList) t.pattern.text := by
  cases t <;> exact ⟨by decide, by decide, by decide, by decide, by decide, by decide⟩

theorem distinct_unresolved_status :
    Distinct statusPattern.text "unresolved: ".toList unresolvedPattern.text :=
  ⟨by decide, by decide, by decide, by decide, by decide, by decide⟩

variable {proposal : MeetingTagProposal}

theorem mem_tagsOf_of_tier {t : Tier × List (List Char)} (ht : t ∈ tiers proposal) {v : List Char} (hv : v ∈ t.2) :
    v ∈ tagsOf proposal :=
  mem_append_left _ (mem_flatMap.mpr ⟨t, ht, hv⟩)

theorem mem_edits {e : Edit} : e ∈ edits proposal ↔ (∃ t ∈ tiers proposal, tierEdit t.1 t.2 = e)
    ∨ e = unresolvedEdit proposal.unresolved
    ∨ (tiers proposal).any (fun t ↦ t.2 ≠ []) = true ∧ e = statusEdit := by
  rw [edits, mem_append, List.mem_map, mem_cons]
  by_cases h : (tiers proposal).any (fun t ↦ t.2 ≠ []) = true
  · rw [if_pos h, mem_singleton, and_iff_right h]
  · rw [if_neg h]
    simp only [not_mem_nil, h, Bool.false_eq_true, false_and]

theorem key_starts (t : Tier) : ∃ c ∈ (t.key.toList ++ ": ".toList).head?, isSpace c = false := by
  cases t <;> exact ⟨_, rfl, by decide⟩

theorem dollar_notMem_key (t : Tier) : '$' ∉ t.key.toList ++ ": ".toList := by
  cases t <;> decide

theorem Plain.sound (h : Plain proposal) : ∀ e ∈ edits proposal, e.Sound := by
  intro e he
  rcases mem_edits.mp he with ⟨⟨t, vs⟩, ht, rfl⟩ | rfl | ⟨-, rfl⟩
  · refine sound_of_label (key_starts t) (dollar_notMem_key t) ?_
    rintro _ ⟨⟩ v hv
    exact h.literal v (mem_tagsOf_of_tier ht hv)
  · have hdollar : '$' ∉ "unresolved: ".toList := by decide
    refine sound_of_label ⟨_, rfl, by decide⟩ hdollar ?_
    rintro _ ⟨⟩ v hv
    exact h.literal v (mem_append_right _ hv)
  · exact sound_of_label ⟨_, rfl, by decide⟩ (by decide) nofun

theorem Plain.apart (h : Plain proposal) : (edits proposal).Pairwise Edit.Apart := by
  have hforeign {e : Edit} (he : e ∈ edits proposal) {t : Tier × List (List Char)} (ht : t ∈ tiers proposal) :
      ∀ v ∈ t.2, ¬ e.pattern.text <:+: v := fun v hv ↦ h.foreign e he v (mem_tagsOf_of_tier ht hv)
  have htiers : (tiers proposal).Pairwise fun s t ↦ s.1 ≠ t.1 := by simp [tiers]
  rw [edits, pairwise_append]
  refine ⟨?_, ?_, ?_⟩
  · rw [pairwise_map]
    refine htiers.imp_of_mem fun {s t} hs ht hne ↦ ?_
    exact apart_of_distinct rfl (distinct_tier hne) (hforeign (mem_edits.mpr (.inl ⟨t, ht, rfl⟩)) hs)
  · refine pairwise_cons.mpr ⟨fun f hf ↦ ?_, ?_⟩
    · split_ifs at hf with hany
      · cases mem_singleton.mp hf
        refine apart_of_distinct rfl distinct_unresolved_status fun v hv ↦ ?_
        exact h.foreign statusEdit (mem_edits.mpr (.inr (.inr ⟨hany, rfl⟩))) v (mem_append_right _ hv)
      · cases hf
    · split_ifs
      · exact pairwise_singleton _ _
      · exact .nil
  · intro e he f hf
    obtain ⟨s, hs, rfl⟩ := List.mem_map.mp he
    rcases mem_cons.mp hf with rfl | hf
    · exact apart_of_distinct rfl (distinct_unresolved s.1) (hforeign (mem_edits.mpr (.inr (.inl rfl))) hs)
    · split_ifs at hf with hany
      · cases mem_singleton.mp hf
        exact apart_of_distinct rfl (distinct_status s.1) (hforeign (mem_edits.mpr (.inr (.inr ⟨hany, rfl⟩))) hs)
      · cases hf

/-! ## The note -/

/-- The links stand in the place of the first placeholder. -/
def Linked (contextLinkLines : List (List Char)) (prose prose' : List Char) : Prop :=
  (contextLinkLines = [] ∧ prose' = prose) ∨
    (contextLinkLines ≠ [] ∧ ∃ before after, cut? placeholder prose = some (before, after)
      ∧ prose' = before ++ JsText.join ['\n'] contextLinkLines ++ after)

/-- Every edit has written one line, the first of its form, and no other line of the frontmatter has changed; the
prose has the links in it. -/
def Rewritten (lines : List (List Char)) (prose : List Char) (proposal : MeetingTagProposal)
    (contextLinkLines : List (List Char)) (out : List Char) : Prop :=
  ∃ ls ds prose', ls.map Line.old = lines ∧ List.Forall₂ (Writes lines) (edits proposal) ds
    ∧ (ls.filterMap Line.edit?).Perm ds ∧ Linked contextLinkLines prose prose' ∧ out = textOf ls ++ prose'

/-- A note of lines and prose, and a proposal and links that can be put into it. -/
structure Tidy (raw : List Char) (lines : List (List Char)) (prose : List Char) (proposal : MeetingTagProposal)
    (contextLinkLines : List (List Char)) : Prop where
  block : Claims.frontmatterBlock? raw = some (JsText.join ['\n'] lines)
  prose : raw = JsText.join ['\n'] lines ++ prose
  regular : Regular lines (edits proposal)
  plain : Plain proposal
  literal : hasDirective (JsText.join ['\n'] contextLinkLines) = false
  /-- The placeholder does not stand in the frontmatter, and is not brought there. -/
  place : contextLinkLines ≠ [] →
    ¬ placeholder <:+: JsText.join ['\n'] lines ∧ ∀ v ∈ tagsOf proposal, ¬ placeholder <:+: v

theorem hasDirective_join (h : ∀ x ∈ xs, hasDirective x = false) :
    hasDirective (JsText.join ['\n'] xs) = false := by
  induction xs with
  | nil => rfl
  | cons x xs ih =>
    obtain ⟨hx, hxs⟩ := forall_mem_cons.mp h
    rcases xs with _ | ⟨y, xs⟩
    · exact hx
    · rw [JsText.join, append_assoc, singleton_append,
        hasDirective_append_cons (by decide) (by decide), hx, ih hxs]
      · rfl
      · simp

theorem part_of_join (hq : '\n' ∉ q) (hne : q ≠ []) (h : q <:+: JsText.join ['\n'] xs) :
    ∃ x ∈ xs, q <:+: x := by
  induction xs with
  | nil => exact absurd (infix_nil.mp h) hne
  | cons x xs ih =>
    rcases xs with _ | ⟨y, xs⟩
    · exact ⟨x, mem_cons_self, h⟩
    · rw [JsText.join, append_assoc, singleton_append] at h
      · rcases part_of_append_cons hq h with h | h
        · exact ⟨x, mem_cons_self, h⟩
        · obtain ⟨z, hz, hpart⟩ := ih h
          exact ⟨z, mem_cons_of_mem _ hz, hpart⟩
      · simp

theorem exists_of_forall₂ {α β : Type*} {R : α → β → Prop} {as : List α} {bs : List β} (h : List.Forall₂ R as bs)
    {b : β} (hb : b ∈ bs) : ∃ a ∈ as, R a b := by
  induction h with
  | nil => cases hb
  | cons hab _ ih =>
    rcases mem_cons.mp hb with rfl | hb
    · exact ⟨_, mem_cons_self, hab⟩
    · obtain ⟨a, ha, hr⟩ := ih hb
      exact ⟨a, mem_cons_of_mem _ ha, hr⟩

theorem part_join {x : List Char} (hx : x ∈ xs) (sep : List Char) :
    x <:+: JsText.join sep xs := by
  induction xs with
  | nil => cases hx
  | cons y xs ih =>
    rcases xs with _ | ⟨z, xs⟩
    · rw [mem_singleton.mp hx]
      exact infix_rfl
    rw [JsText.join]
    · rcases mem_cons.mp hx with rfl | hx
      · exact ⟨[], sep ++ JsText.join sep (z :: xs), by simp⟩
      · exact (ih hx).trans (suffix_append _ _).isInfix
    · simp

theorem part_tagArr {v : List Char} (hv : v ∈ values) : v <:+: tagArr values := by
  have hquoted : v <:+: '"' :: (v ++ ['"']) := ⟨['"'], ['"'], by simp⟩
  have hmem : '"' :: (v ++ ['"']) ∈ values.map fun v ↦ '"' :: (v ++ ['"']) :=
    List.mem_map_of_mem (f := fun v ↦ '"' :: (v ++ ['"'])) hv
  exact hquoted.trans ((part_join hmem ", ".toList).trans ⟨['['], [']'], by simp [tagArr]⟩)

section Run

variable {raw prose : List Char} {lines : List (List Char)} {contextLinkLines : List (List Char)} {ls : List Line}
  {ds : List (List Char × List Char)}

theorem exists_edit (hreg : Regular lines (edits proposal)) (hds : List.Forall₂ (Writes lines) (edits proposal) ds)
    (hperm : (ls.filterMap Line.edit?).Perm ds) {l : Line} (hl : l ∈ ls) {w : List Char} (hw : l.new = some w) :
    ∃ e ∈ edits proposal, e.pattern.at? l.old ≠ none ∧ ∃ indent, IsBlankLine indent ∧ w = e.written indent := by
  have hmem : (l.old, w) ∈ ds := by
    refine hperm.subset (mem_filterMap.mpr ⟨l, hl, ?_⟩)
    rw [Line.edit?, hw]
    rfl
  obtain ⟨e, he, hwrites⟩ := exists_of_forall₂ hds hmem
  obtain ⟨indent, hat, hwritten⟩ := hwrites.written
  have hline := hreg.isLine _ (mem_of_find?_eq_some hwrites.first)
  obtain ⟨-, hindent, -⟩ := LinePattern.at?_eq_some hline hat
  refine ⟨e, he, hat ▸ Option.some_ne_none _, indent, ?_, hwritten⟩
  rw [hindent]
  exact fun c hc ↦ LinePattern.isSpace_of_mem_indent hc

theorem hasDirective_textOf (hreg : Regular lines (edits proposal)) (hplain : Plain proposal)
    (hold : ls.map Line.old = lines) (hds : List.Forall₂ (Writes lines) (edits proposal) ds)
    (hperm : (ls.filterMap Line.edit?).Perm ds) : hasDirective (textOf ls) = false := by
  refine hasDirective_join (List.forall_mem_map.mpr fun l hl ↦ ?_)
  rcases hnew : l.new with _ | w
  · rw [Line.text, hnew]
    exact hreg.literal _ (hold ▸ List.mem_map_of_mem hl)
  · obtain ⟨e, he, -, indent, hindent, rfl⟩ := exists_edit hreg hds hperm hl hnew
    rw [Line.text, hnew]
    exact (hplain.sound e he).literal indent hindent

theorem tag_part_textOf (hds : List.Forall₂ (Writes lines) (edits proposal) ds)
    (hperm : (ls.filterMap Line.edit?).Perm ds) {v : List Char} (hv : v ∈ tagsOf proposal) : v <:+: textOf ls := by
  have hedit : ∃ e ∈ edits proposal, ∃ vs, e.values = some vs ∧ v ∈ vs := by
    rcases mem_append.mp hv with hv | hv
    · obtain ⟨t, ht, hv⟩ := mem_flatMap.mp hv
      exact ⟨_, mem_edits.mpr (.inl ⟨t, ht, rfl⟩), t.2, rfl, hv⟩
    · exact ⟨_, mem_edits.mpr (.inr (.inl rfl)), _, rfl, hv⟩
  obtain ⟨e, he, vs, hvs, hv⟩ := hedit
  obtain ⟨d, hd, hwrites⟩ := exists_of_forall₂ hds.flip he
  obtain ⟨l, hl, hld⟩ := mem_filterMap.mp (hperm.symm.subset hd)
  obtain ⟨w, hw, rfl⟩ := Option.map_eq_some_iff.mp hld
  obtain ⟨indent, -, hwritten⟩ := hwrites.written
  have htext : l.text = indent ++ e.label ++ tagArr vs := by
    have hw' : w = e.written indent := hwritten
    rw [Line.text, hw, Option.getD_some, hw', Edit.written, hvs]
    rfl
  have hline : v <:+: l.text := by
    rw [htext]
    exact (part_tagArr hv).trans (suffix_append _ _).isInfix
  exact hline.trans (part_join (List.mem_map_of_mem hl) _)

theorem placeholder_notMem_key (t : Tier) : ¬ placeholder <:+: (t.key.toList ++ ": ".toList) ++ "[]".toList := by
  cases t <;> decide

theorem placeholder_notMem_written {e : Edit} (he : e ∈ edits proposal)
    (hvalues : ∀ v ∈ tagsOf proposal, ¬ placeholder <:+: v) {indent : List Char} (hindent : IsBlankLine indent) :
    ¬ placeholder <:+: e.written indent := by
  have hstarts : ∃ c ∈ placeholder.head?, isSpace c = false := ⟨'-', rfl, by decide⟩
  rcases mem_edits.mp he with ⟨⟨t, vs⟩, ht, rfl⟩ | rfl | ⟨-, rfl⟩
  · exact not_part_of_field hstarts (by decide) (placeholder_notMem_key t) (by decide)
      (fun v hv ↦ hvalues v (mem_tagsOf_of_tier ht hv)) hindent
  · have hunresolved : ¬ placeholder <:+: "unresolved: ".toList ++ "[]".toList := by decide
    exact not_part_of_field hstarts (by decide) hunresolved (by decide)
      (fun v hv ↦ hvalues v (mem_append_right _ hv)) hindent
  · intro h
    rw [Edit.written, append_assoc] at h
    exact absurd (part_of_blank_append hstarts hindent h) (by decide)

section

variable (hreg : Regular lines (edits proposal)) (hold : ls.map Line.old = lines)
  (hds : List.Forall₂ (Writes lines) (edits proposal) ds) (hperm : (ls.filterMap Line.edit?).Perm ds)

include hreg hold hds hperm

/-- The frontmatter does not have the placeholder, as it was and as it is now. -/
theorem placeholder_notMem_textOf
    (hlines : ¬ placeholder <:+: JsText.join ['\n'] lines) (hvalues : ∀ v ∈ tagsOf proposal, ¬ placeholder <:+: v) :
    ¬ placeholder <:+: textOf ls := by
  intro h
  obtain ⟨x, hx, hpart⟩ := part_of_join (by decide) (by decide) h
  obtain ⟨l, hl, rfl⟩ := List.mem_map.mp hx
  rcases hnew : l.new with _ | w
  · rw [Line.text, hnew] at hpart
    obtain ⟨before, after, hsplit⟩ := List.append_of_mem (hold ▸ List.mem_map_of_mem hl : l.old ∈ lines)
    refine hlines (hpart.trans ?_)
    rw [hsplit, join_eq]
    exact ⟨_, _, rfl⟩
  · obtain ⟨e, he, -, indent, hindent, rfl⟩ := exists_edit hreg hds hperm hl hnew
    rw [Line.text, hnew] at hpart
    exact placeholder_notMem_written he hvalues hindent hpart

theorem textOf_ends {front : List Char} (hends : JsText.join ['\n'] lines = front ++ ['\n']) :
    ∃ front', textOf ls = front' ++ ['\n'] := by
  rcases eq_nil_or_concat ls with rfl | ⟨init, last, rfl⟩
  · rw [← hold] at hends
    exact absurd (append_eq_nil_iff.mp hends.symm).2 (cons_ne_nil _ _)
  rw [concat_eq_append] at hold hperm ⊢
  have hlast : last.old = [] := by
    rw [← hold, map_append, map_cons, map_nil, join_eq] at hends
    rcases eq_nil_or_concat last.old with hnil | ⟨x, c, hx⟩
    · exact hnil
    · rw [hx, concat_eq_append] at hends
      have hc : c = '\n' := by
        have hend := congrArg List.getLast? hends
        simpa [below] using hend
      have hline := hreg.isLine last.old (by simp [← hold])
      exact absurd (hline c (by simp [hx])) (by rw [hc]; decide)
  have hkept : last.new = none := by
    by_contra hnew
    obtain ⟨w, hw⟩ := Option.ne_none_iff_exists'.mp hnew
    obtain ⟨e, -, hat, -⟩ := exists_edit hreg hds hperm (mem_append_right init mem_cons_self) hw
    rw [hlast] at hat
    exact hat (LinePattern.at?_blank fun c hc ↦ absurd hc not_mem_nil)
  have htext : textOf (init ++ [last]) = above (init.map Line.text) := by
    rw [textOf_eq, Line.text, hkept]
    simp [hlast, below]
  rcases eq_nil_or_concat init with rfl | ⟨init, x, rfl⟩
  · rw [← hold] at hends
    simp [hlast, JsText.join] at hends
  · rw [htext, concat_eq_append]
    exact ⟨above (init.map Line.text) ++ x.text, by simp [above]⟩

end

theorem cut?_placeholder (hlines : ¬ placeholder <:+: textOf ls)
    (hends : prose = [] ∨ ∃ front, textOf ls = front ++ ['\n']) :
    cut? placeholder (textOf ls ++ prose) = (cut? placeholder prose).map fun e ↦ (textOf ls ++ e.1, e.2) := by
  refine cut?_append_left fun a b hab ↦ ?_
  by_contra hlt
  rw [Nat.not_le] at hlt
  obtain rfl | ⟨front, hfront⟩ := hends
  · rw [append_nil] at hab
    exact hlines ⟨a, b, hab.symm⟩
  · have habove : textOf ls = above [front] := by
      rw [hfront]
      simp [above]
    rw [habove] at hab hlt
    obtain ⟨x, hx, hpart⟩ := exists_of_occurrence (by decide) hab hlt
    rw [mem_singleton.mp hx] at hpart
    rw [hfront] at hlines
    exact hlines (hpart.trans (prefix_append front _).isInfix)

theorem stage_start (lines : List (List Char)) (es : List Edit) : Stage lines es (lines.map fun x ↦ ⟨x, none⟩) where
  old := by rw [List.map_map]; exact List.map_id lines
  written l hl w hw := by
    obtain ⟨x, -, rfl⟩ := List.mem_map.mp hl
    cases hw

theorem textOf_start (lines : List (List Char)) :
    textOf (lines.map fun x ↦ ⟨x, none⟩) = JsText.join ['\n'] lines := by
  rw [textOf, List.map_map]
  exact congrArg _ (List.map_id lines)

theorem run_tidy (h : Tidy raw lines prose proposal contextLinkLines) :
    (∃ e ∈ edits proposal, rewriteMeetingNote raw proposal contextLinkLines = .error e.missing
        ∧ ∀ x ∈ lines, e.pattern.at? x = none) ∨
      ∃ ls ds, (edits proposal).foldlM (fun fm e ↦ e.run fm) (JsText.join ['\n'] lines) = .ok (textOf ls)
        ∧ ls.map Line.old = lines ∧ List.Forall₂ (Writes lines) (edits proposal) ds
        ∧ (ls.filterMap Line.edit?).Perm ds := by
  have hrun := run_edits h.regular (stage_start lines _) h.plain.sound h.plain.apart
  have hnothing : (lines.map fun x ↦ (⟨x, none⟩ : Line)).filterMap Line.edit? = [] := by
    rw [filterMap_map]
    exact filterMap_eq_nil_iff.mpr fun x _ ↦ rfl
  rw [textOf_start, hnothing] at hrun
  rcases hrun with ⟨e, he, hrun, hnone⟩ | ⟨ls, ds, hrun, hold, hds, hperm⟩
  · refine .inl ⟨e, he, ?_, hnone⟩
    rw [rewriteMeetingNote, h.block]
    dsimp only
    rw [hrun]
  · exact .inr ⟨ls, ds, hrun, hold, hds, by rwa [append_nil] at hperm⟩

end Run

/-- A note whose frontmatter is complete, with the place for the links. -/
def pendingLines : List (List Char) :=
  ["---", "title: sync", "status: pending-tag", "tags:", "  products: []", "  projects: []", "  entities: []",
    "  types: []", "  themes: []", "unresolved: [\"acme\"]", "---", ""].map String.toList

def pendingProse : List Char := "# sync\n\n## Context Links\n- (auto-linked at curation)\n".toList

def pendingNote : List Char := JsText.join ['\n'] pendingLines ++ pendingProse

def pendingProposal : MeetingTagProposal where
  tags := ⟨["piccolo".toList], [], [], [], []⟩
  unresolved := []

def pendingLinks : List (List Char) := ["- [[sync.transcript]]".toList]

theorem tidy_pending : Tidy pendingNote pendingLines pendingProse pendingProposal pendingLinks where
  block := by decide +kernel
  prose := rfl
  regular := {
    isLine := by decide +kernel
    literal := by decide +kernel
    closed := by decide +kernel
    notBlankBelow := by decide +kernel
    noCopyAbove := by decide +kernel }
  plain := ⟨by decide +kernel, by decide +kernel⟩
  literal := by decide +kernel
  place _ := ⟨by decide +kernel, by decide +kernel⟩


def pendingOut : List Char :=
  JsText.join ['\n'] (["---", "title: sync", "status: complete", "tags:", "  products: [\"piccolo\"]",
    "  projects: []", "  entities: []", "  types: []", "  themes: []", "unresolved: []", "---", "# sync", "", "## Context Links",
    "- [[sync.transcript]]", ""].map String.toList)

end Amicode.Triage
