import Amicode.Foundation.Framing
import Amicode.Foundation.JsText

/-!
# Lines and frames of a text

A line ends at a line feed, with or without a carriage return before it. `splitLines` is seen here as a function
of a text in parts: what a line feed closes does not depend on what follows (`exists_closed`), and a division of
the lines is a division of the text (`exists_of_splitLines_eq_append`). With that a frame is known by its lines
(`isFrame_iff_splitLines`).

The second part is about the pieces of a text at its own line end: joined again they are the text
(`intercalate_splitOn`), and the lines of joined pieces are the lines of the pieces (`splitLines_intercalate`).
-/

namespace JsText

open Amicode.Framing List

/-! ## Lines -/

theorem consHead_append (c : Char) {a : List (List Char)} (b : List (List Char)) (h : a ≠ []) :
    consHead c (a ++ b) = consHead c a ++ b := by
  obtain ⟨piece, rest, rfl⟩ := exists_cons_of_ne_nil h
  rfl

theorem consHead_ne_nil (c : Char) (pieces : List (List Char)) : consHead c pieces ≠ [] := by
  cases pieces with
  | nil => exact cons_ne_nil _ _
  | cons piece rest => exact cons_ne_nil _ _

theorem splitLines_ne_nil (text : List Char) : splitLines text ≠ [] := by
  fun_cases splitLines text
  · exact cons_ne_nil _ _
  · exact cons_ne_nil _ _
  · exact cons_ne_nil _ _
  · exact consHead_ne_nil _ _

variable {text : List Char}

/-- A character that ends no line belongs to the first one. -/
theorem splitLines_cons {c : Char} (hlf : c ≠ '\n') (hcr : c = '\r' → text.head? ≠ some '\n') :
    splitLines (c :: text) = consHead c (splitLines text) := by
  rw [splitLines]
  · rintro rest rfl rfl
    exact hcr rfl rfl
  · exact hlf

theorem splitLines_append_crlf (x y : List Char) :
    splitLines (x ++ '\r' :: '\n' :: y) = splitLines x ++ splitLines y := by
  fun_induction splitLines x with
  | case1 => rfl
  | case2 rest ih => exact congrArg _ ih
  | case3 rest ih => exact congrArg _ ih
  | case4 c rest hcrlf hlf ih =>
    rw [cons_append, splitLines_cons hlf, ih, consHead_append c _ (splitLines_ne_nil rest)]
    rintro rfl
    rcases rest with _ | ⟨d, rest⟩
    · exact fun h ↦ absurd (Option.some.inj h) (by decide)
    · exact fun h ↦ hcrlf rest rfl (congrArg (· :: rest) (Option.some.inj h))

theorem splitLines_append_lf {x : List Char} (y : List Char) (h : x.getLast? ≠ some '\r') :
    splitLines (x ++ '\n' :: y) = splitLines x ++ splitLines y := by
  fun_induction splitLines x with
  | case1 => rfl
  | case2 rest ih =>
    refine congrArg _ (ih fun hlast ↦ h ?_)
    rw [getLast?_cons_cons, getLast?_cons, hlast]
    rfl
  | case3 rest ih =>
    refine congrArg _ (ih fun hlast ↦ h ?_)
    rw [getLast?_cons, hlast]
    rfl
  | case4 c rest hcrlf hlf ih =>
    have hrest : rest.getLast? ≠ some '\r' := fun hlast ↦ h (by rw [getLast?_cons, hlast]; rfl)
    rw [cons_append, splitLines_cons hlf, ih hrest, consHead_append c _ (splitLines_ne_nil rest)]
    rintro rfl
    rcases rest with _ | ⟨d, rest⟩
    · exact absurd rfl h
    · exact fun hhead ↦ hcrlf rest rfl (congrArg (· :: rest) (Option.some.inj hhead))

/-- What a line feed closes does not depend on what follows it. -/
theorem exists_closed (x : List Char) :
    ∃ closed ≠ [], ∀ y, splitLines (x ++ '\n' :: y) = closed ++ splitLines y := by
  by_cases hcr : x.getLast? = some '\r'
  · obtain ⟨x', rfl⟩ := getLast?_eq_some_iff.mp hcr
    refine ⟨splitLines x', splitLines_ne_nil x', fun y ↦ ?_⟩
    rw [append_assoc]
    exact splitLines_append_crlf x' y
  · exact ⟨splitLines x, splitLines_ne_nil x, fun y ↦ splitLines_append_lf y hcr⟩

/-- Where the lines are divided the text is divided, behind a line feed. -/
theorem exists_of_splitLines_eq_append {a b : List (List Char)}
    (h : splitLines text = a ++ b) (ha : a ≠ []) (hb : b ≠ []) :
    ∃ x y, text = x ++ '\n' :: y ∧ splitLines (x ++ ['\n']) = a ++ [[]] ∧ splitLines y = b := by
  fun_induction splitLines text generalizing a with
  | case1 =>
    have hlength := congrArg List.length h
    rw [length_append, length_singleton] at hlength
    have hpos := length_pos_of_ne_nil ha
    have hpos' := length_pos_of_ne_nil hb
    omega
  | case2 rest ih =>
    obtain ⟨line, a, rfl⟩ := exists_cons_of_ne_nil ha
    obtain ⟨rfl, htail⟩ := List.cons.inj h
    by_cases hnil : a = []
    · subst hnil
      exact ⟨['\r'], rest, rfl, rfl, htail⟩
    · obtain ⟨x, y, rfl, hx, hy⟩ := ih htail hnil
      exact ⟨'\r' :: '\n' :: x, y, rfl, congrArg ([] :: ·) hx, hy⟩
  | case3 rest ih =>
    obtain ⟨line, a, rfl⟩ := exists_cons_of_ne_nil ha
    obtain ⟨rfl, htail⟩ := List.cons.inj h
    by_cases hnil : a = []
    · subst hnil
      exact ⟨[], rest, rfl, rfl, htail⟩
    · obtain ⟨x, y, rfl, hx, hy⟩ := ih htail hnil
      exact ⟨'\n' :: x, y, rfl, congrArg ([] :: ·) hx, hy⟩
  | case4 c rest hcrlf hlf ih =>
    obtain ⟨line, a, rfl⟩ := exists_cons_of_ne_nil ha
    obtain ⟨first, lines, hlines⟩ := exists_cons_of_ne_nil (splitLines_ne_nil rest)
    rw [hlines] at h
    obtain ⟨rfl, htail⟩ := List.cons.inj h
    obtain ⟨x, y, rfl, hx, hy⟩ := ih (a := first :: a) (hlines.trans (congrArg _ htail)) (cons_ne_nil _ _)
    refine ⟨c :: x, y, rfl, ?_, hy⟩
    rw [cons_append, splitLines_cons hlf, hx]
    · rfl
    · rintro rfl
      rcases x with _ | ⟨d, x⟩
      · exact absurd rfl (hcrlf y rfl)
      · exact fun hhead ↦ hcrlf (x ++ '\n' :: y) rfl (congrArg (· :: (x ++ '\n' :: y)) (Option.some.inj hhead))

theorem eq_nil_of_splitLines (h : splitLines text = [[]]) : text = [] := by
  fun_cases splitLines text
  · rfl
  · next rest =>
    exact absurd (List.cons.inj h).2 (splitLines_ne_nil rest)
  · next rest =>
    exact absurd (List.cons.inj h).2 (splitLines_ne_nil rest)
  · next c rest hcrlf hlf =>
    rw [splitLines_cons hlf] at h
    · obtain ⟨first, lines, hlines⟩ := exists_cons_of_ne_nil (splitLines_ne_nil rest)
      rw [hlines] at h
      exact absurd (List.cons.inj h).1 (cons_ne_nil _ _)
    · rintro rfl
      rcases rest with _ | ⟨d, rest⟩
      · exact fun hhead ↦ absurd hhead (by decide)
      · exact fun hhead ↦ hcrlf rest rfl (congrArg (· :: rest) (Option.some.inj hhead))

theorem splitLines_of_notMem (h : '\n' ∉ text) : splitLines text = [text] := by
  induction text with
  | nil => rfl
  | cons c text ih =>
    rw [mem_cons, not_or] at h
    rw [splitLines_cons (Ne.symm h.1), ih h.2]
    · rfl
    · exact fun _ hhead ↦ h.2 (mem_of_mem_head? hhead)

/-! ## Frames by their lines -/

theorem endsBlank_iff_splitLines :
    EndsBlank '\n' '\r' text ↔ ∃ front ≠ [], splitLines text = front ++ [[], []] := by
  constructor
  · rintro (⟨x, rfl⟩ | ⟨x, rfl⟩)
    · obtain ⟨closed, hne, hclosed⟩ := exists_closed x
      exact ⟨closed, hne, hclosed ['\n']⟩
    · obtain ⟨closed, hne, hclosed⟩ := exists_closed x
      exact ⟨closed, hne, hclosed ['\r', '\n']⟩
  · rintro ⟨front, hne, hlines⟩
    obtain ⟨x, y, rfl, -, hy⟩ := exists_of_splitLines_eq_append hlines hne (cons_ne_nil _ _)
    obtain ⟨u, v, rfl, hu, hv⟩ := exists_of_splitLines_eq_append (a := [[]]) (b := [[]]) hy (cons_ne_nil _ _)
      (cons_ne_nil _ _)
    rw [eq_nil_of_splitLines hv]
    -- the empty line is closed by a line feed, or by both
    rcases eq_nil_or_concat u with rfl | ⟨u, c, rfl⟩
    · exact .inl ⟨x, rfl⟩
    · by_cases hc : c = '\r'
      · subst hc
        have hu' : splitLines u ++ [[]] = [[]] ++ [[]] := by
          rw [← hu, concat_eq_append, append_assoc]
          exact (splitLines_append_crlf u []).symm
        rw [eq_nil_of_splitLines (append_cancel_right hu')]
        exact .inr ⟨x, rfl⟩
      · have hlast : (u.concat c).getLast? ≠ some '\r' := by simpa using hc
        rw [splitLines_append_lf [] hlast] at hu
        have := eq_nil_of_splitLines (append_cancel_right (hu : _ ++ [[]] = [[]] ++ [[]]))
        exact absurd this (by simp)

/-- A frame is a text whose lines are empty at the end, where the text stops behind an empty line, and at most
once before, at its head. -/
theorem isFrame_iff_splitLines :
    IsFrame '\n' '\r' text ↔
      ∃ body ≠ [], splitLines text = body ++ [[], []] ∧ ∀ line ∈ body.tail, line ≠ [] := by
  constructor
  · intro h
    obtain ⟨body, hne, hlines⟩ := endsBlank_iff_splitLines.mp h.ends
    refine ⟨body, hne, hlines, ?_⟩
    rintro line hline rfl
    -- the text up to that line would end blank
    obtain ⟨first, rest, rfl⟩ := exists_cons_of_ne_nil hne
    obtain ⟨before, after, hrest⟩ := List.append_of_mem hline
    rw [tail_cons] at hrest
    rw [hrest] at hlines
    have hlines' : splitLines text = (first :: before ++ [[]]) ++ (after ++ [[], []]) := by
      rw [hlines]
      simp
    obtain ⟨x, y, rfl, hx, hy⟩ := exists_of_splitLines_eq_append hlines' (by simp) (by simp)
    refine h.first (x ++ ['\n']) ⟨y, by simp⟩ (fun heq ↦ ?_)
      (endsBlank_iff_splitLines.mpr ⟨first :: before, cons_ne_nil _ _, by rw [hx]; simp⟩)
    rw [append_cancel_left_eq, List.cons.injEq] at heq
    rw [← heq.2] at hy
    have hlength := congrArg List.length hy
    simp [splitLines] at hlength
  · rintro ⟨body, hne, hlines, hbody⟩
    refine ⟨endsBlank_iff_splitLines.mpr ⟨body, hne, hlines⟩, ?_⟩
    rintro p ⟨q, rfl⟩ hproper hends
    have hq : q ≠ [] := fun hnil ↦ hproper (by rw [hnil, append_nil])
    obtain ⟨front, hfront, hp⟩ := endsBlank_iff_splitLines.mp hends
    obtain ⟨p', hp'⟩ : ∃ p', p = p' ++ ['\n'] := by
      rcases hends with ⟨x, rfl⟩ | ⟨x, rfl⟩
      · exact ⟨x ++ ['\n'], by simp⟩
      · exact ⟨x ++ ['\n', '\r'], by simp⟩
    subst hp'
    obtain ⟨closed, -, hclosed⟩ := exists_closed p'
    have hclosed' : closed = front ++ [[]] := by
      have h := (hclosed []).symm.trans hp
      rw [show front ++ [[], []] = (front ++ [[]]) ++ [([] : List Char)] by simp] at h
      exact append_cancel_right h
    -- the rest of the text has two lines or more, as it ends with a line feed
    have hqlines : 2 ≤ (splitLines q).length := by
      by_contra hshort
      have hone : (splitLines q).length = 1 := by
        have := length_pos_of_ne_nil (splitLines_ne_nil q)
        omega
      obtain ⟨line, hline⟩ := length_eq_one_iff.mp hone
      have hall := hclosed q
      rw [append_assoc, singleton_append] at hlines
      rw [hall, hline, show body ++ [[], []] = (body ++ [[]]) ++ [([] : List Char)] by simp] at hlines
      have hempty := (append_inj' hlines rfl).2
      rw [hempty] at hline
      exact hq (eq_nil_of_splitLines hline)
    rw [append_assoc, singleton_append, hclosed, hclosed'] at hlines
    obtain ⟨first, rest, rfl⟩ := exists_cons_of_ne_nil hfront
    have hlength := congrArg List.length hlines
    simp only [length_append, length_cons, length_nil] at hlength
    have hprefix : first :: rest ++ [[]] <+: body :=
      prefix_of_prefix_length_le (prefix_append _ _) (hlines ▸ prefix_append body _)
        (by simp only [length_append, length_cons, length_nil]; omega)
    obtain ⟨more, rfl⟩ := hprefix
    exact hbody [] (by simp) rfl

/-! ## The pieces of a text -/

theorem includes_iff {text pattern : List Char} : includes text pattern = true ↔ pattern <:+: text := by
  rw [includes, List.any_eq_true, infix_iff_prefix_suffix]
  constructor
  · rintro ⟨t, ht, hprefix⟩
    exact ⟨t, isPrefixOf_iff_prefix.mp hprefix, (mem_tails t text).mp ht⟩
  · rintro ⟨t, hprefix, hsuffix⟩
    exact ⟨t, (mem_tails t text).mpr hsuffix, isPrefixOf_iff_prefix.mpr hprefix⟩

theorem intercalate_consHead (sep : List Char) (c : Char) {pieces : List (List Char)} (h : pieces ≠ []) :
    sep.intercalate (consHead c pieces) = c :: sep.intercalate pieces := by
  obtain ⟨piece, rest, rfl⟩ := exists_cons_of_ne_nil h
  exact intercalate_cons_cons_left

theorem splitAux_ne_nil (sep : List Char) (n : ℕ) (text : List Char) : splitAux sep n text ≠ [] := by
  fun_induction splitAux sep n text with
  | case1 => exact cons_ne_nil _ _
  | case2 n _ rest ih => exact ih
  | case3 => exact cons_ne_nil _ _
  | case4 => exact consHead_ne_nil _ _

theorem intercalate_splitAux {sep : List Char} (hsep : sep ≠ []) (n : ℕ) (text : List Char) :
    sep.intercalate (splitAux sep n text) = text.drop n := by
  fun_induction splitAux sep n text with
  | case1 n => rw [intercalate_singleton, drop_nil]
  | case2 n _ rest ih => exact ih
  | case3 c rest hprefix ih =>
    obtain ⟨after, hafter⟩ := isPrefixOf_iff_prefix.mp hprefix
    obtain ⟨s, sep', rfl⟩ := exists_cons_of_ne_nil hsep
    obtain ⟨-, (hrest : sep' ++ after = rest)⟩ := List.cons.inj hafter
    rw [intercalate_cons_of_ne_nil (splitAux_ne_nil _ _ _), ih, ← hafter, ← hrest, length_cons,
      Nat.add_sub_cancel, drop_left, nil_append]
    rfl
  | case4 c rest hprefix ih =>
    rw [intercalate_consHead sep c (splitAux_ne_nil _ _ _), ih, drop_zero, drop_zero]

theorem intercalate_splitOn {sep : List Char} (hsep : sep ≠ []) (text : List Char) :
    sep.intercalate (splitOn sep text) = text := intercalate_splitAux hsep 0 text

theorem splitOn_ne_nil (sep text : List Char) : splitOn sep text ≠ [] := splitAux_ne_nil sep 0 text

/-- A piece that is not the last is followed by the separator. -/
theorem infix_intercalate (sep piece next : List Char) (before rest : List (List Char)) :
    piece ++ sep <:+: sep.intercalate (before ++ piece :: next :: rest) := by
  induction before with
  | nil =>
    rw [nil_append, intercalate_cons_cons]
    exact (prefix_append _ _).isInfix
  | cons first before ih =>
    rw [cons_append, intercalate_cons_of_ne_nil (by simp)]
    exact ih.trans (suffix_append _ _).isInfix

theorem suffix_intercalate (sep piece : List Char) (before : List (List Char)) :
    piece <:+ sep.intercalate (before ++ [piece]) := by
  induction before with
  | nil => rw [nil_append, intercalate_singleton]
  | cons first before ih =>
    rw [cons_append, intercalate_cons_of_ne_nil (by simp)]
    exact ih.trans (suffix_append _ _)

theorem splitOn_singleton (c : Char) (text : List Char) : splitOn [c] text = text.splitOn c := by
  have hhead : ∀ (d : Char) {l : List (List Char)}, l ≠ [] → consHead d l = l.modifyHead (d :: ·) := by
    intro d l hl
    obtain ⟨piece, rest, rfl⟩ := exists_cons_of_ne_nil hl
    rfl
  induction text with
  | nil => rfl
  | cons d text ih =>
    have hprefix : [c].isPrefixOf (d :: text) = (c == d) := by simp [List.isPrefixOf]
    rw [splitOn_cons_eq_if_modifyHead, ← ih, ← hhead d (splitOn_ne_nil _ _), splitOn, splitAux, hprefix]
    by_cases hcd : c = d
    · rw [if_pos (by simpa using hcd), if_pos (by simpa using hcd.symm)]
      rfl
    · rw [if_neg (by simpa using hcd), if_neg (by simpa using Ne.symm hcd)]
      rfl

/-- What joins two pieces is a line end of its own. -/
def JoinsLines (eol : List Char) (pieces : List (List Char)) : Prop :=
  eol = ['\r', '\n'] ∨ eol = ['\n'] ∧ ∀ piece ∈ pieces, piece.getLast? ≠ some '\r'

theorem splitLines_intercalate {eol : List Char} {pieces : List (List Char)} (h : JoinsLines eol pieces)
    (hne : pieces ≠ []) : splitLines (eol.intercalate pieces) = pieces.flatMap splitLines := by
  induction pieces with
  | nil => exact absurd rfl hne
  | cons piece rest ih =>
    by_cases hrest : rest = []
    · rw [hrest, intercalate_singleton, flatMap_singleton]
    · have hjoins : JoinsLines eol rest := h.imp id fun ⟨heol, hcr⟩ ↦
        ⟨heol, fun p hp ↦ hcr p (mem_cons_of_mem _ hp)⟩
      rw [intercalate_cons_of_ne_nil hrest, flatMap_cons, ← ih hjoins hrest, append_assoc]
      rcases h with rfl | ⟨rfl, hcr⟩
      · exact splitLines_append_crlf piece _
      · exact splitLines_append_lf _ (hcr piece mem_cons_self)

end JsText
