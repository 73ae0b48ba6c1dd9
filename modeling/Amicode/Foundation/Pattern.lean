import Amicode.Foundation.JsText

/-!
# Patterns without choice

A pattern is a sequence of literals and of runs of a class of characters. It matches at the front of a text in at
most one way: a run takes all it can. That is what a regular expression of this form finds too, if what follows a
run cannot begin with a character of its class, since then no shorter run leads to a match.

`allMatches` finds the matches from left to right, as `matchAll` does. The rule to reason about a text in pieces is
`allMatches_append`: if no match can begin in the first piece and reach the second (`Blocks`), the matches of the
whole are those of the pieces.
-/

open List Option

namespace Pattern

inductive Item
  | lit (text : List Char)
  /-- A run of a class, maybe with at least one character, maybe kept. -/
  | many (cls : Char → Bool) (nonempty kept : Bool)

/-- The kept runs of a match at the front, and what follows it. -/
def run : List Item → List Char → Option (List (List Char) × List Char)
  | [], text => some ([], text)
  | .lit p :: items, text =>
    match JsText.stripPrefix? p text with
    | none => none
    | some rest => run items rest
  | .many cls nonempty kept :: items, text =>
    if nonempty && (text.takeWhile cls).isEmpty then none
    else
      match run items (text.dropWhile cls) with
      | none => none
      | some (runs, rest) => some (if kept then text.takeWhile cls :: runs else runs, rest)

/-- The matches from left to right; the counter is what is left of a match already found. -/
def matchesFrom (items : List Item) : ℕ → List Char → List (List (List Char))
  | _, [] => []
  | n + 1, _ :: rest => matchesFrom items n rest
  | 0, c :: rest =>
    match run items (c :: rest) with
    | none => matchesFrom items 0 rest
    | some (runs, after) => runs :: matchesFrom items (rest.length - after.length) rest

/-- The kept runs of every match, for a pattern that matches no empty text. -/
def allMatches (items : List Item) (text : List Char) : List (List (List Char)) := matchesFrom items 0 text

variable {items : List Item} {text : List Char}

/-! ## Literals and runs -/

@[simp] theorem stripPrefix?_append (p rest : List Char) : JsText.stripPrefix? p (p ++ rest) = some rest := by
  induction p with
  | nil => rfl
  | cons c p ih => rw [cons_append, JsText.stripPrefix?, if_pos rfl, ih]

theorem stripPrefix?_eq_some {p rest : List Char} (h : JsText.stripPrefix? p text = some rest) :
    text = p ++ rest := by
  induction p generalizing text with
  | nil => exact Option.some.inj h
  | cons c p ih =>
    cases text with
    | nil => cases h
    | cons d text =>
      rw [JsText.stripPrefix?] at h
      split at h
      · next hc => rw [hc, ih h, cons_append]
      · cases h

theorem stripPrefix?_cons_of_ne {p rest : List Char} {a c : Char} (h : a ≠ c) :
    JsText.stripPrefix? (a :: p) (c :: rest) = none := by
  rw [JsText.stripPrefix?, if_neg h]

theorem stripPrefix?_append_cons {p : List Char} {c : Char} (hc : c ∉ p) (text rest : List Char) :
    JsText.stripPrefix? p (text ++ c :: rest) = (JsText.stripPrefix? p text).map (· ++ c :: rest) := by
  induction p generalizing text with
  | nil => rfl
  | cons a p ih =>
    obtain ⟨ha, hp⟩ := not_or.mp (mt mem_cons.mpr hc)
    cases text with
    | nil => exact stripPrefix?_cons_of_ne (Ne.symm ha)
    | cons d text =>
      rw [cons_append, JsText.stripPrefix?, JsText.stripPrefix?]
      split_ifs
      · exact ih hp text
      · rfl

theorem run_lit_append (p rest : List Char) : run (.lit p :: items) (p ++ rest) = run items rest := by
  rw [run, stripPrefix?_append]

/-- A literal does not match where another character stands, nor at the end. -/
theorem run_lit_eq_none {p : List Char} (items : List Item) (hp : p ≠ [])
    (h : ∀ c ∈ text.head?, p.head? ≠ some c) : run (.lit p :: items) text = none := by
  rw [run]
  cases p with
  | nil => exact absurd rfl hp
  | cons a p =>
    cases text with
    | nil => rfl
    | cons c text => rw [stripPrefix?_cons_of_ne fun hac ↦ h c rfl (congrArg some hac)]

variable {cls : Char → Bool} {runs : List (List Char)} {tail : List Char}

/-- A nonempty run does not match where no character of its class stands. -/
theorem run_many_eq_none (kept : Bool) (items : List Item)
    (h : ∀ c ∈ text.head?, cls c = false) : run (.many cls true kept :: items) text = none := by
  have hnone : text.takeWhile cls = [] := by
    cases text with
    | nil => rfl
    | cons c text => exact takeWhile_cons_of_neg (by simp [h c rfl])
  rw [run, hnone]
  rfl

/-- A run does not help what follows it where that does not match behind the whole of it. -/
theorem run_many_eq_none_of_rest (nonempty kept : Bool)
    (h : run items (text.dropWhile cls) = none) : run (.many cls nonempty kept :: items) text = none := by
  rw [run, h, ite_self]

theorem run_many_append {nonempty kept : Bool} {word rest : List Char}
    (hword : ∀ c ∈ word, cls c = true) (hrest : rest.takeWhile cls = []) (hne : nonempty = true → word ≠ []) :
    run (.many cls nonempty kept :: items) (word ++ rest) =
      (run items rest).map fun m ↦ (if kept then word :: m.1 else m.1, m.2) := by
  have htake : (word ++ rest).takeWhile cls = word := by
    rw [takeWhile_append_of_pos hword, hrest, append_nil]
  have hdrop : (word ++ rest).dropWhile cls = rest := by
    rw [dropWhile_append_of_pos hword]
    cases rest with
    | nil => rfl
    | cons c rest =>
      rw [takeWhile_cons] at hrest
      split at hrest
      · cases hrest
      · next h => exact dropWhile_cons_of_neg h
  rw [run, htake, hdrop]
  have hguard : (nonempty && word.isEmpty) = false := by
    cases nonempty with
    | false => rfl
    | true => simpa using hne rfl
  rw [hguard]
  cases run items rest <;> rfl

/-- The classes of the runs a pattern keeps. -/
def keptClasses : List Item → List (Char → Bool)
  | [] => []
  | .lit _ :: items => keptClasses items
  | .many cls _ kept :: items => if kept then cls :: keptClasses items else keptClasses items

theorem run_kept {rest : List Char} (h : run items text = some (runs, rest)) :
    List.Forall₂ (fun cls word ↦ ∀ c ∈ word, cls c = true) (keptClasses items) runs := by
  induction items generalizing text runs rest with
  | nil =>
    cases h
    exact .nil
  | cons item items ih =>
    cases item with
    | lit p =>
      rw [run] at h
      split at h
      · cases h
      · exact ih h
    | many cls nonempty kept =>
      rw [run] at h
      split at h
      · cases h
      · split at h
        · cases h
        · next hrun =>
          cases h
          cases kept with
          | true => exact .cons (fun c hc ↦ mem_takeWhile_imp hc) (ih hrun)
          | false => exact ih hrun

theorem kept_of_mem_matchesFrom {n : ℕ} (h : runs ∈ matchesFrom items n text) :
    List.Forall₂ (fun cls word ↦ ∀ c ∈ word, cls c = true) (keptClasses items) runs := by
  induction text generalizing n with
  | nil => exact absurd h (by cases n <;> simp [matchesFrom])
  | cons c text ih =>
    cases n with
    | succ n => exact ih h
    | zero =>
      rw [matchesFrom] at h
      split at h
      · exact ih h
      · next hrun =>
        obtain rfl | h := mem_cons.1 h
        · exact run_kept hrun
        · exact ih h

theorem kept_of_mem_allMatches (h : runs ∈ allMatches items text) :
    List.Forall₂ (fun cls word ↦ ∀ c ∈ word, cls c = true) (keptClasses items) runs :=
  kept_of_mem_matchesFrom h

theorem run_eq_none_of_class {kept : Bool} (hitem : Item.many cls true kept ∈ items)
    (h : ∀ c ∈ text, cls c = false) : run items text = none := by
  induction items generalizing text with
  | nil => cases hitem
  | cons item items ih =>
    cases item with
    | lit p =>
      rw [run]
      split
      · rfl
      · next rest hrest =>
        have hmem : Item.many cls true kept ∈ items := by simpa using hitem
        refine ih hmem fun c hc ↦ h c ?_
        rw [stripPrefix?_eq_some hrest]
        exact mem_append_right p hc
    | many cls' nonempty kept' =>
      rw [run]
      split
      · rfl
      · next hguard =>
        obtain heq | hmem := mem_cons.1 hitem
        · obtain ⟨rfl, rfl, -⟩ := Item.many.inj heq
          have hnone := run_many_eq_none kept' items fun c hc ↦ h c (mem_of_mem_head? hc)
          rw [run, if_neg hguard] at hnone
          exact hnone
        · have hrest : run items (text.dropWhile cls') = none :=
            ih hmem fun c hc ↦ h c ((dropWhile_suffix cls').subset hc)
          rw [hrest]

/-! ## Texts in pieces -/

/-- No match that begins before `tail` reaches into it. -/
def Blocks (tail : List Char) : List Item → Prop
  | [] => True
  | .lit p :: items => (∀ q, q <:+ p → q ≠ [] → JsText.stripPrefix? q tail = none) ∧ Blocks tail items
  | .many cls _ _ :: items => run items (tail.dropWhile cls) = none ∧ run items [] = none ∧ Blocks tail items

theorem stripPrefix?_of_suffix {p q tail : List Char} (h : ∀ c ∈ tail.head?, c ∉ p) (hq : q <:+ p) (hne : q ≠ []) :
    JsText.stripPrefix? q tail = none := by
  cases q with
  | nil => exact absurd rfl hne
  | cons a q =>
    cases tail with
    | nil => rfl
    | cons c tail => exact stripPrefix?_cons_of_ne fun hac ↦ h c rfl (hac ▸ hq.subset mem_cons_self)

theorem stripPrefix?_append_right {p tail : List Char} (text : List Char)
    (h : ∀ q, q <:+ p → q ≠ [] → JsText.stripPrefix? q tail = none) :
    JsText.stripPrefix? p (text ++ tail) = (JsText.stripPrefix? p text).map (· ++ tail) := by
  induction p generalizing text with
  | nil => rfl
  | cons a p ih =>
    cases text with
    | nil => exact h _ (suffix_refl _) (cons_ne_nil _ _)
    | cons c text =>
      rw [cons_append, JsText.stripPrefix?, JsText.stripPrefix?]
      split
      · exact ih text fun q hq ↦ h q (hq.trans (suffix_cons a p))
      · rfl

theorem run_append (h : Blocks tail items) (text : List Char) :
    run items (text ++ tail) = (run items text).map fun m ↦ (m.1, m.2 ++ tail) := by
  induction items generalizing text with
  | nil => rfl
  | cons item items ih =>
    cases item with
    | lit p =>
      rw [run, run, stripPrefix?_append_right text h.1]
      cases JsText.stripPrefix? p text with
      | none => rfl
      | some rest => exact ih h.2 rest
    | many cls nonempty kept =>
      obtain ⟨htail, hnil, hitems⟩ := h
      rw [run, run]
      by_cases hall : ∀ c ∈ text, cls c = true
      · -- the run eats up the text, and neither goes on from there
        have hdrop : text.dropWhile cls = [] := dropWhile_eq_nil_iff.2 hall
        have hdrop' : (text ++ tail).dropWhile cls = tail.dropWhile cls := dropWhile_append_of_pos hall
        simp only [hdrop, hdrop', htail, hnil, ite_self, map_none]
      · have hdrop : (text ++ tail).dropWhile cls = text.dropWhile cls ++ tail := by
          rw [dropWhile_append, if_neg]
          simpa [dropWhile_eq_nil_iff] using hall
        have htake : (text ++ tail).takeWhile cls = text.takeWhile cls := by
          have hsplit := takeWhile_append_dropWhile (p := cls) (l := text ++ tail)
          have hsplit' := takeWhile_append_dropWhile (p := cls) (l := text)
          rw [hdrop, ← append_assoc] at hsplit
          have hfront := append_cancel_right hsplit
          exact append_cancel_right (hfront.trans hsplit'.symm)
        rw [htake, hdrop, ih hitems]
        split
        · rfl
        · cases run items (text.dropWhile cls) <;> rfl

theorem matchesFrom_append (h : Blocks tail items) (n : ℕ) (text : List Char)
    (hn : n ≤ text.length) :
    matchesFrom items n (text ++ tail) = matchesFrom items n text ++ allMatches items tail := by
  induction text generalizing n with
  | nil =>
    rw [Nat.le_zero.1 hn]
    rfl
  | cons c rest ih =>
    cases n with
    | succ n =>
      rw [cons_append, matchesFrom, matchesFrom]
      exact ih n (Nat.le_of_succ_le_succ hn)
    | zero =>
      rw [cons_append, matchesFrom, matchesFrom, ← cons_append, run_append h]
      cases run items (c :: rest) with
      | none => exact ih 0 (Nat.zero_le _)
      | some m =>
        have hlen : (rest ++ tail).length - (m.2 ++ tail).length = rest.length - m.2.length := by
          rw [length_append, length_append]
          omega
        simp only [map_some, hlen, cons_append]
        rw [ih _ (Nat.sub_le _ _)]

theorem allMatches_append (h : Blocks tail items) (text : List Char) :
    allMatches items (text ++ tail) = allMatches items text ++ allMatches items tail :=
  matchesFrom_append h 0 text (Nat.zero_le _)

theorem allMatches_cons_of_none {c : Char} (h : run items (c :: text) = none) :
    allMatches items (c :: text) = allMatches items text := by
  rw [allMatches, matchesFrom, h]
  rfl

theorem allMatches_skip {piece tail : List Char}
    (h : ∀ q, q <:+ piece → q ≠ [] → run items (q ++ tail) = none) :
    allMatches items (piece ++ tail) = allMatches items tail := by
  induction piece with
  | nil => rfl
  | cons c piece ih =>
    have hhere := h (c :: piece) (suffix_refl _) (cons_ne_nil _ _)
    rw [cons_append] at hhere ⊢
    rw [allMatches_cons_of_none hhere]
    exact ih fun q hq ↦ h q (hq.trans (suffix_cons c piece))

/-- In a text without a character of a class that must occur, nothing matches. -/
theorem allMatches_of_class {kept : Bool} (hitem : Item.many cls true kept ∈ items)
    (h : ∀ c ∈ text, cls c = false) : allMatches items text = [] := by
  have hskip : allMatches items (text ++ []) = allMatches items [] :=
    allMatches_skip fun q hq _ ↦ run_eq_none_of_class hitem fun c hc ↦ h c (hq.subset (by simpa using hc))
  rw [append_nil] at hskip
  exact hskip

/-- No match begins at a character that the pattern does not begin with. -/
theorem allMatches_skip_of_notMem {a : Char} {p piece tail : List Char} (h : a ∉ piece) :
    allMatches (.lit (a :: p) :: items) (piece ++ tail) = allMatches (.lit (a :: p) :: items) tail := by
  refine allMatches_skip fun q hq hne ↦ ?_
  cases q with
  | nil => exact absurd rfl hne
  | cons c q =>
    have hc : a ≠ c := fun hac ↦ h (hac ▸ hq.subset mem_cons_self)
    rw [cons_append, run, stripPrefix?_cons_of_ne hc]

theorem allMatches_of_run {word rest : List Char} (hword : word ≠ [])
    (h : run items (word ++ rest) = some (runs, rest)) :
    allMatches items (word ++ rest) = runs :: allMatches items rest := by
  have hdrop : ∀ (n : ℕ) (front : List Char), front.length = n →
      matchesFrom items n (front ++ rest) = allMatches items rest := by
    intro n
    induction n with
    | zero =>
      intro front hfront
      rw [length_eq_zero_iff.1 hfront]
      rfl
    | succ n ih =>
      intro front hfront
      cases front with
      | nil => cases hfront
      | cons c front =>
        rw [cons_append, matchesFrom]
        exact ih front (Nat.succ.inj hfront)
  cases word with
  | nil => exact absurd rfl hword
  | cons c word =>
    rw [allMatches, cons_append, matchesFrom, ← cons_append, h]
    simp only [length_append, Nat.add_sub_cancel]
    rw [hdrop _ word rfl]

end Pattern

/-!
# `String.prototype.replace` with a string pattern

The first occurrence of the pattern is replaced by the template, in which `$$`, `$&`, `` $` `` and `$'` stand for a
dollar sign, the pattern, what precedes it and what follows it. A template without such a pair stands for itself
(`substitute_eq_self`).
-/

namespace JsReplace

/-- What may follow a dollar sign in a template: a dollar sign, an ampersand, a backquote and an apostrophe. -/
def isDirective (c : Char) : Bool := c = '$' || c = '&' || c = '\x60' || c = '\x27'

/-- What a directive stands for. -/
def expand (matched before after : List Char) (c : Char) : List Char :=
  if c = '$' then ['$']
  else if c = '&' then matched
  else if c = '\x60' then before
  else after

/-- `GetSubstitution`, for a match without captures. -/
def substitute (matched before after : List Char) : List Char → List Char
  | [] => []
  | [c] => [c]
  | c :: d :: template =>
    if c = '$' && isDirective d then expand matched before after d ++ substitute matched before after template
    else c :: substitute matched before after (d :: template)

/-- The text around the first occurrence of the pattern. -/
def cut? (pattern : List Char) : List Char → Option (List Char × List Char)
  | [] => if pattern = [] then some ([], []) else none
  | c :: text =>
    match JsText.stripPrefix? pattern (c :: text) with
    | some rest => some ([], rest)
    | none => (cut? pattern text).map fun e ↦ (c :: e.1, e.2)

/-- `text.replace(pattern, template)`. -/
def replaceFirst (text pattern template : List Char) : List Char :=
  match cut? pattern text with
  | none => text
  | some (before, after) => before ++ substitute pattern before after template ++ after

/-! ## Templates -/

/-- A directive stands in the template. -/
def hasDirective : List Char → Bool
  | [] => false
  | [_] => false
  | c :: d :: template => (c = '$' && isDirective d) || hasDirective (d :: template)

variable {matched before after pattern template text : List Char}

theorem substitute_eq_self (h : hasDirective template = false) :
    substitute matched before after template = template := by
  fun_induction substitute matched before after template with
  | case1 => rfl
  | case2 c => rfl
  | case3 c d template hdirective ih =>
    rw [hasDirective, hdirective] at h
    cases h
  | case4 c d template hdirective ih =>
    rw [hasDirective, Bool.or_eq_false_iff] at h
    rw [ih h.2]

theorem hasDirective_cons {c : Char} (h : c ≠ '$') (template : List Char) :
    hasDirective (c :: template) = hasDirective template := by
  cases template with
  | nil => rfl
  | cons d template => rw [hasDirective, decide_eq_false h, Bool.false_and, Bool.false_or]

theorem hasDirective_append_of_notMem (h : '$' ∉ before) (after : List Char) :
    hasDirective (before ++ after) = hasDirective after := by
  induction before with
  | nil => rfl
  | cons c before ih =>
    obtain ⟨hc, hbefore⟩ := not_or.mp (mt mem_cons.mpr h)
    rw [cons_append, hasDirective_cons (Ne.symm hc), ih hbefore]

/-- No directive comes about where two templates meet, if the second does not begin with one of the characters. -/
theorem hasDirective_append (h : ∀ c ∈ after.head?, isDirective c = false) :
    hasDirective (before ++ after) = (hasDirective before || hasDirective after) := by
  induction before with
  | nil => rfl
  | cons c before ih =>
    rcases before with _ | ⟨d, before⟩
    · rcases after with _ | ⟨d, after⟩
      · rfl
      · have hd := h d rfl
        simp [hasDirective, hd]
    · rw [cons_append, cons_append, hasDirective, hasDirective, ← cons_append, ih, Bool.or_assoc]

/-- A character that is in no directive keeps two templates apart. -/
theorem hasDirective_append_cons {c : Char} (hdollar : c ≠ '$') (hc : isDirective c = false)
    (before after : List Char) :
    hasDirective (before ++ c :: after) = (hasDirective before || hasDirective after) := by
  rw [hasDirective_append, hasDirective_cons hdollar]
  rintro d ⟨⟩
  exact hc

/-! ## The first occurrence -/

theorem cut?_append (pattern rest : List Char) : cut? pattern (pattern ++ rest) = some ([], rest) := by
  rcases hpattern : pattern with _ | ⟨c, p⟩
  · cases rest <;> rfl
  · rw [cons_append, cut?, ← cons_append, Pattern.stripPrefix?_append]

theorem replaceFirst_append (pattern rest template : List Char) :
    replaceFirst (pattern ++ rest) pattern template = substitute pattern [] rest template ++ rest := by
  rw [replaceFirst, cut?_append]
  rfl

/-- The occurrence that no other begins before is the first. -/
theorem cut?_eq_some (hfirst : ∀ a b, before ++ pattern ++ after = a ++ pattern ++ b → before.length ≤ a.length) :
    cut? pattern (before ++ pattern ++ after) = some (before, after) := by
  induction before with
  | nil => exact cut?_append pattern after
  | cons c before ih =>
    have hnone : JsText.stripPrefix? pattern (c :: before ++ pattern ++ after) = none := by
      by_contra h
      obtain ⟨rest, hrest⟩ := ne_none_iff_exists'.mp h
      exact absurd (hfirst [] rest (Pattern.stripPrefix?_eq_some hrest)) (by simp)
    rw [cons_append, cons_append] at hnone ⊢
    rw [cut?, hnone]
    rw [ih fun a b hab ↦ ?_]
    · rfl
    · have := hfirst (c :: a) b (congrArg (c :: ·) hab)
      simpa using this

theorem cut?_spec (h : cut? pattern text = some (before, after)) :
    text = before ++ pattern ++ after ∧ ∀ a b, text = a ++ pattern ++ b → before.length ≤ a.length := by
  induction text generalizing before with
  | nil =>
    rw [cut?] at h
    split_ifs at h with hpattern
    cases h
    exact ⟨by rw [hpattern]; rfl, fun a b _ ↦ Nat.zero_le _⟩
  | cons c text ih =>
    rw [cut?] at h
    split at h
    · next rest hrest =>
      cases h
      exact ⟨Pattern.stripPrefix?_eq_some hrest, fun a b _ ↦ Nat.zero_le _⟩
    · next hnone =>
      obtain ⟨⟨before, after⟩, he, heq⟩ := map_eq_some_iff.mp h
      cases heq
      obtain ⟨htext, hfirst⟩ := ih he
      refine ⟨congrArg (c :: ·) htext, fun a b hab ↦ ?_⟩
      rcases a with _ | ⟨d, a⟩
      · rw [hab, nil_append, Pattern.stripPrefix?_append] at hnone
        cases hnone
      · exact Nat.succ_le_succ (hfirst a b (List.cons.inj hab).2)

theorem cut?_eq_none_iff : cut? pattern text = none ↔ ¬ pattern <:+: text := by
  constructor
  · intro h
    induction text with
    | nil =>
      rw [cut?] at h
      split_ifs at h with hpattern
      rwa [infix_nil]
    | cons c text ih =>
      rw [cut?] at h
      split at h
      · cases h
      · next hnone =>
        rw [infix_cons_iff]
        rintro (⟨rest, hrest⟩ | hpart)
        · rw [← hrest, Pattern.stripPrefix?_append] at hnone
          cases hnone
        · exact ih (map_eq_none_iff.mp h) hpart
  · intro h
    rcases hcut : cut? pattern text with _ | ⟨before, after⟩
    · rfl
    · exact absurd ⟨before, after, (cut?_spec hcut).1.symm⟩ h

/-- Where the pattern does not begin in the first piece, it is looked for behind it. -/
theorem cut?_append_left {front : List Char}
    (h : ∀ a b, front ++ text = a ++ pattern ++ b → front.length ≤ a.length) :
    cut? pattern (front ++ text) = (cut? pattern text).map fun e ↦ (front ++ e.1, e.2) := by
  have hsplit (a b : List Char) (hab : front ++ text = a ++ pattern ++ b) :
      ∃ u, a = front ++ u ∧ text = u ++ pattern ++ b := by
    have hbegins : front <+: a :=
      prefix_of_prefix_length_le ⟨text, rfl⟩ ⟨pattern ++ b, by rw [hab, append_assoc]⟩ (h a b hab)
    obtain ⟨u, rfl⟩ := hbegins
    rw [append_assoc, append_assoc] at hab
    exact ⟨u, rfl, by rw [append_cancel_left hab, append_assoc]⟩
  rcases hcut : cut? pattern text with _ | ⟨before, after⟩
  · rw [map_none, cut?_eq_none_iff]
    rintro ⟨a, b, hab⟩
    obtain ⟨u, -, hu⟩ := hsplit a b hab.symm
    exact cut?_eq_none_iff.mp hcut ⟨u, b, hu.symm⟩
  · obtain ⟨htext, hfirst⟩ := cut?_spec hcut
    have hfront : front ++ text = (front ++ before) ++ pattern ++ after := by
      rw [htext]
      simp [append_assoc]
    rw [map_some, hfront]
    refine cut?_eq_some fun a b hab ↦ ?_
    obtain ⟨u, rfl, hu⟩ := hsplit a b (hfront.trans hab)
    rw [length_append, length_append]
    exact Nat.add_le_add_left (hfirst u b hu) _

theorem includes_iff : JsText.includes text pattern = true ↔ pattern <:+: text := by
  rw [JsText.includes, List.any_eq_true, infix_iff_prefix_suffix]
  constructor
  · rintro ⟨t, ht, hbegins⟩
    exact ⟨t, isPrefixOf_iff_prefix.mp hbegins, (mem_tails _ _).mp ht⟩
  · rintro ⟨t, hbegins, ht⟩
    exact ⟨t, (mem_tails _ _).mpr ht, isPrefixOf_iff_prefix.mpr hbegins⟩

/-- Where the pattern first stands it is replaced, and nothing else is. -/
theorem replaceFirst_eq (h : cut? pattern text = some (before, after)) (template : List Char) :
    replaceFirst text pattern template = before ++ substitute pattern before after template ++ after := by
  rw [replaceFirst, h]

end JsReplace
