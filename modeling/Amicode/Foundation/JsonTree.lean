import Mathlib.Data.List.TakeWhile
import Mathlib.Data.List.Basic

/-!
# JSON texts as trees

A JSON text without white space is read back in one way: the tree it was written from, and what follows it
(`render_append_inj`). A tree has words (the literals and the numerals), strings, arrays and objects, the
members in the order they are written in. How a string is put between quotes is a parameter (`Quoting`).

A text is a sequence of UTF-16 code units, surrogates included.
-/

open List

namespace JsonTree

/-- A text, in UTF-16 code units. -/
abbrev Text := List UInt16

def unit (c : Char) : UInt16 := UInt16.ofNat c.toNat

def ascii (s : String) : Text := s.toList.map unit

/-- The punctuation of JSON. -/
def IsMark (u : UInt16) : Prop := u ∈ ascii "\"[]\x7b\x7d,:"

instance : DecidablePred IsMark := fun _ ↦ inferInstanceAs (Decidable (_ ∈ _))

/-- A word is not empty and has no punctuation. -/
def IsWord (text : Text) : Prop := text ≠ [] ∧ ∀ u ∈ text, ¬ IsMark u

instance (text : Text) : Decidable (IsWord text) := inferInstanceAs (Decidable (_ ∧ _))

/-- What a JSON text without white space says. -/
inductive Tree where
  | word (text : Text)
  | str (s : Text)
  | arr (items : List Tree)
  | obj (members : List (Text × Tree))

namespace Tree

@[elab_as_elim, induction_eliminator]
theorem induct {P : Tree → Prop} (word : ∀ t, P (.word t)) (str : ∀ s, P (.str s))
    (arr : ∀ items, (∀ t ∈ items, P t) → P (.arr items))
    (obj : ∀ members : List (Text × Tree), (∀ e ∈ members, P e.2) → P (.obj members)) : ∀ t, P t
  | .word t => word t
  | .str s => str s
  | .arr items => arr items fun t _ ↦ induct word str arr obj t
  | .obj members => obj members fun e _ ↦ induct word str arr obj e.2
decreasing_by
  · decreasing_trivial
  · have hlt := sizeOf_lt_of_mem ‹e ∈ members›
    have hsnd : sizeOf e.2 < sizeOf e := by
      obtain ⟨k, t⟩ := e
      simp only [Prod.mk.sizeOf_spec]
      omega
    simp only [Tree.obj.sizeOf_spec]
    omega

/-- Every word of the tree is one. -/
inductive Valid : Tree → Prop
  | word {text : Text} : IsWord text → Valid (.word text)
  | str {s : Text} : Valid (.str s)
  | arr {items : List Tree} : (∀ t ∈ items, Valid t) → Valid (.arr items)
  | obj {members : List (Text × Tree)} : (∀ e ∈ members, Valid e.2) → Valid (.obj members)

end Tree

/-! ## Writing a tree -/

/-- `Array.prototype.join`. -/
def join (sep : Text) : List Text → Text
  | [] => []
  | [piece] => piece
  | piece :: rest => piece ++ sep ++ join sep rest

section

variable (quote : Text → Text)

mutual

def render : Tree → Text
  | .word text => text
  | .str s => quote s
  | .arr items => unit '[' :: (join [unit ','] (renderItems items) ++ [unit ']'])
  | .obj members => unit '\x7b' :: (join [unit ','] (renderMembers members) ++ [unit '\x7d'])

def renderItems : List Tree → List Text
  | [] => []
  | item :: items => render item :: renderItems items

def renderMembers : List (Text × Tree) → List Text
  | [] => []
  | (key, value) :: members => (quote key ++ unit ':' :: render value) :: renderMembers members

end

theorem renderItems_eq (items : List Tree) : renderItems quote items = items.map (render quote) := by
  induction items with
  | nil => rfl
  | cons item items ih => rw [renderItems, ih, map_cons]

def renderMember (e : Text × Tree) : Text := quote e.1 ++ unit ':' :: render quote e.2

theorem renderMembers_eq (members : List (Text × Tree)) :
    renderMembers quote members = members.map (renderMember quote) := by
  induction members with
  | nil => rfl
  | cons e members ih =>
    obtain ⟨key, value⟩ := e
    rw [renderMembers, ih, map_cons, renderMember]

end

/-! ## Reading it back -/

/-- What may follow a tree: nothing, or punctuation. -/
def Ends (x : Text) : Prop := ∀ u ∈ x.head?, IsMark u

theorem ends_cons {u : UInt16} {x : Text} (h : IsMark u) : Ends (u :: x) := by
  rintro v hv
  rw [head?_cons, Option.mem_some_iff] at hv
  exact hv ▸ h

theorem word_append_inj {s t x y : Text} (hs : IsWord s) (ht : IsWord t) (hx : Ends x) (hy : Ends y)
    (h : s ++ x = t ++ y) : s = t ∧ x = y := by
  have hread : ∀ {s x : Text}, IsWord s → Ends x → (s ++ x).takeWhile (fun u ↦ ¬ IsMark u) = s := by
    intro s x hs hx
    rw [takeWhile_append_of_pos fun u hu ↦ decide_eq_true (hs.2 u hu)]
    rcases x with _ | ⟨u, x⟩
    · exact append_nil s
    · rw [takeWhile_cons_of_neg, append_nil]
      simpa using hx u rfl
  have hst : s = t := by rw [← hread hs hx, h, hread ht hy]
  subst hst
  exact ⟨rfl, append_cancel_left h⟩

theorem join_cons (sep piece : Text) (rest : List Text) :
    join sep (piece :: rest) = piece ++ rest.flatMap (sep ++ ·) := by
  induction rest generalizing piece with
  | nil => exact (append_nil piece).symm
  | cons next rest ih => rw [join, ih, flatMap_cons, append_assoc, append_assoc]; simp

theorem join_append_inj {β : Type*} {piece : β → Text} {close : UInt16} (hclose : IsMark close)
    (hcomma : close ≠ unit ',') {as bs : List β} {x y : Text}
    (hfirst : ∀ e, (e ∈ as ∨ e ∈ bs) → ∃ u rest, piece e = u :: rest ∧ u ≠ close)
    (hinj : ∀ a ∈ as, ∀ b ∈ bs, ∀ x y, Ends x → Ends y → piece a ++ x = piece b ++ y → a = b ∧ x = y)
    (h : join [unit ','] (as.map piece) ++ close :: x = join [unit ','] (bs.map piece) ++ close :: y) :
    as = bs ∧ x = y := by
  have hmark : IsMark (unit ',') := by decide
  -- what follows a piece: commas with pieces, then the closing mark
  have hends : ∀ (l : List β) (x : Text), Ends ((l.map piece).flatMap ([unit ','] ++ ·) ++ close :: x) := by
    rintro (_ | ⟨e, l⟩) x
    · exact ends_cons hclose
    · exact ends_cons hmark
  have htail : ∀ as' bs' : List β, (∀ a ∈ as', a ∈ as) → (∀ b ∈ bs', b ∈ bs) →
      (as'.map piece).flatMap ([unit ','] ++ ·) ++ close :: x
        = (bs'.map piece).flatMap ([unit ','] ++ ·) ++ close :: y → as' = bs' ∧ x = y := by
    intro as'
    induction as' with
    | nil =>
      rintro (_ | ⟨b, bs'⟩) - - h
      · exact ⟨rfl, (List.cons.inj h).2⟩
      · exact absurd (List.cons.inj h).1 hcomma
    | cons a as' ih =>
      rintro (_ | ⟨b, bs'⟩) ha hb h
      · exact absurd (List.cons.inj h).1.symm hcomma
      · simp only [map_cons, flatMap_cons, cons_append, nil_append, append_assoc,
          List.cons.injEq, true_and] at h
        obtain ⟨rfl, hrest⟩ := hinj a (ha a mem_cons_self) b (hb b mem_cons_self) _ _
          (hends as' x) (hends bs' y) h
        obtain ⟨rfl, rfl⟩ := ih bs' (fun a h ↦ ha a (mem_cons_of_mem _ h))
          (fun b h ↦ hb b (mem_cons_of_mem _ h)) hrest
        exact ⟨rfl, rfl⟩
  rcases as with _ | ⟨a, as⟩
  · rcases bs with _ | ⟨b, bs⟩
    · exact ⟨rfl, (List.cons.inj h).2⟩
    · obtain ⟨u, rest, hb, hu⟩ := hfirst b (.inr mem_cons_self)
      rw [map_cons, join_cons, hb] at h
      exact absurd (List.cons.inj h).1.symm hu
  · rcases bs with _ | ⟨b, bs⟩
    · obtain ⟨u, rest, ha, hu⟩ := hfirst a (.inl mem_cons_self)
      rw [map_cons, join_cons, ha] at h
      exact absurd (List.cons.inj h).1 hu
    · rw [map_cons, map_cons, join_cons, join_cons, append_assoc, append_assoc] at h
      obtain ⟨rfl, hrest⟩ := hinj a mem_cons_self b mem_cons_self _ _ (hends as x) (hends bs y) h
      obtain ⟨rfl, rfl⟩ := htail as bs (fun a ↦ mem_cons_of_mem _) (fun b ↦ mem_cons_of_mem _) hrest
      exact ⟨rfl, rfl⟩

/-- How strings are put between quotes: a string is read back from its quotes, whatever follows. -/
structure Quoting (quote : Text → Text) : Prop where
  head : ∀ s, ∃ rest, quote s = unit '"' :: rest
  inj : ∀ {a b x y : Text}, quote a ++ x = quote b ++ y → a = b ∧ x = y

/-- The punctuation a tree begins with. -/
def Tree.opener : Tree → Option UInt16
  | .word _ => none
  | .str _ => some (unit '"')
  | .arr _ => some (unit '[')
  | .obj _ => some (unit '\x7b')

section

variable {quote : Text → Text} (hquote : Quoting quote)

include hquote

theorem exists_first {a : Tree} (ha : a.Valid) :
    ∃ u rest, render quote a = u :: rest ∧ (if IsMark u then some u else none) = a.opener := by
  cases ha with
  | @word text h =>
    rcases text with _ | ⟨u, rest⟩
    · exact absurd rfl h.1
    · exact ⟨u, rest, rfl, if_neg (h.2 u mem_cons_self)⟩
  | @str s =>
    obtain ⟨rest, hs⟩ := hquote.head s
    exact ⟨_, rest, hs, if_pos (by decide)⟩
  | arr h => exact ⟨_, _, rfl, if_pos (by decide)⟩
  | obj h => exact ⟨_, _, rfl, if_pos (by decide)⟩

theorem exists_first_ne {a : Tree} (ha : a.Valid) {close : UInt16} (hmark : IsMark close)
    (hstr : close ≠ unit '"') (harr : close ≠ unit '[') (hobj : close ≠ unit '\x7b') :
    ∃ u rest, render quote a = u :: rest ∧ u ≠ close := by
  obtain ⟨u, rest, hu, hopener⟩ := exists_first hquote ha
  refine ⟨u, rest, hu, ?_⟩
  rintro rfl
  rw [if_pos hmark] at hopener
  cases ha with
  | word => cases hopener
  | str => exact hstr (Option.some.inj hopener)
  | arr => exact harr (Option.some.inj hopener)
  | obj => exact hobj (Option.some.inj hopener)

theorem opener_eq {a b : Tree} {x y : Text} (ha : a.Valid) (hb : b.Valid)
    (h : render quote a ++ x = render quote b ++ y) : a.opener = b.opener := by
  obtain ⟨u, rest, hu, hopener⟩ := exists_first hquote ha
  obtain ⟨v, rest', hv, hopener'⟩ := exists_first hquote hb
  rw [hu, hv] at h
  rw [← hopener, ← hopener', (List.cons.inj h).1]

theorem render_append_inj {a b : Tree} {x y : Text} (ha : a.Valid) (hb : b.Valid) (hx : Ends x) (hy : Ends y)
    (h : render quote a ++ x = render quote b ++ y) : a = b ∧ x = y := by
  induction a generalizing b x y with
  | word s =>
    have hopener := opener_eq hquote ha hb h
    cases hb with
    | word ht =>
      cases ha with | word hs =>
      obtain ⟨rfl, rfl⟩ := word_append_inj hs ht hx hy h
      exact ⟨rfl, rfl⟩
    | _ => cases hopener
  | str s =>
    have hopener := opener_eq hquote ha hb h
    cases hb with
    | str =>
      obtain ⟨rfl, rfl⟩ := hquote.inj h
      exact ⟨rfl, rfl⟩
    | _ => exact absurd hopener (of_decide_eq_true rfl)
  | arr items ih =>
    have hopener := opener_eq hquote ha hb h
    cases hb with
    | @arr items' hitems' =>
      cases ha with | arr hitems =>
      simp only [render, cons_append, append_assoc, nil_append, List.cons.injEq, true_and,
        renderItems_eq] at h
      refine (join_append_inj (by decide) (by decide) ?_ ?_ h).imp_left (congrArg Tree.arr)
      · rintro t (ht | ht)
        · exact exists_first_ne hquote (hitems t ht) (by decide) (by decide) (by decide) (by decide)
        · exact exists_first_ne hquote (hitems' t ht) (by decide) (by decide) (by decide) (by decide)
      · exact fun t ht t' ht' x y hx hy ↦ ih t ht (hitems t ht) (hitems' t' ht') hx hy
    | _ => exact absurd hopener (of_decide_eq_true rfl)
  | obj members ih =>
    have hopener := opener_eq hquote ha hb h
    cases hb with
    | @obj members' hmembers' =>
      cases ha with | obj hmembers =>
      simp only [render, cons_append, append_assoc, nil_append, List.cons.injEq, true_and,
        renderMembers_eq] at h
      refine (join_append_inj (by decide) (by decide) ?_ ?_ h).imp_left (congrArg Tree.obj)
      · rintro e -
        obtain ⟨rest, hrest⟩ := hquote.head e.1
        exact ⟨_, _, by rw [renderMember, hrest]; rfl, by decide⟩
      · -- a member is read as its key, then the colon, then its value
        rintro ⟨k, t⟩ he ⟨k', t'⟩ he' x y hx hy h
        simp only [renderMember, append_assoc, cons_append] at h
        obtain ⟨rfl, hvalue⟩ := hquote.inj h
        obtain ⟨rfl, rfl⟩ := ih _ he (hmembers _ he) (hmembers' _ he') hx hy (List.cons.inj hvalue).2
        exact ⟨rfl, rfl⟩
    | _ => exact absurd hopener (of_decide_eq_true rfl)

theorem render_inj {a b : Tree} (ha : a.Valid) (hb : b.Valid) (h : render quote a = render quote b) : a = b :=
  (render_append_inj hquote ha hb (x := []) (y := []) (by rintro _ ⟨⟩) (by rintro _ ⟨⟩)
    (congrArg (· ++ []) h)).1

end

end JsonTree
