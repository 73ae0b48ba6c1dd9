import Amicode.TomlLite.Document

/-!
# How scalars are read

What the reader makes of a string, an integer or a boolean, whatever stands behind it on its line
(`scalar_value`). An integer is read if it is a decimal one without a plus sign and without underscores, and then
as the double next to it; with any other it stops.
-/

namespace Amicode.TomlLite

open JsText List

variable {c : Char}

theorem isSpace_of_isBlank (h : isBlank c) : isSpace c = true := by
  simp only [isBlank, Bool.or_eq_true, beq_iff_eq] at h
  rcases h with rfl | rfl <;> decide

theorem isSpace_of_mem_blanks (blanks : Blanks) : ∀ c ∈ blanks.1, isSpace c = true :=
  fun c hc ↦ isSpace_of_isBlank (List.all_eq_true.mp blanks.2 c hc)

theorem isSpace_of_mem_return (newline : Newline) : ∀ c ∈ newline.return, isSpace c = true := by
  cases newline <;> decide

/-! ## The end of a line -/

/-- Behind a header or a value on its line, and up to the line feed. -/
def Tail.line (tail : Tail) (newline : Newline) : List Char := tail.text ++ newline.return

theorem trim_tail (tail : Tail) (newline : Newline) :
    trim (tail.line newline) = (commentText tail.comment).rdropWhile isSpace := by
  rw [Tail.line, trim_append_space _ (isSpace_of_mem_return newline), Tail.text,
    trim_append_of_space (isSpace_of_mem_blanks tail.space)]
  cases tail.comment with
  | none => rfl
  | some comment =>
    rw [commentText, trim_cons (by decide)]
    exact (rdropWhile_append_cons [] (by decide) comment.1).symm

theorem isTail_tail (tail : Tail) (newline : Newline) : isTail (tail.line newline) = true := by
  rw [isTail, trim_tail]
  cases tail.comment with
  | none => rfl
  | some comment =>
    have hcons : ('#' :: comment.1).rdropWhile isSpace = '#' :: comment.1.rdropWhile isSpace :=
      rdropWhile_append_cons [] (by decide) comment.1
    rw [commentText, hcons]
    rfl

theorem isTail_rdropWhile (text : List Char) : isTail (text.rdropWhile isSpace) = isTail text := by
  rw [isTail, trim_rdropWhile, isTail]

theorem isSpace_before_comment (tail : Tail) (newline : Newline) :
    ∀ c ∈ ((tail.line newline).rdropWhile isSpace).takeWhile (· ≠ '#'), isSpace c = true := by
  have hspace := isSpace_of_mem_blanks tail.space
  rw [Tail.line, rdropWhile_append_of_pos _ (isSpace_of_mem_return newline), Tail.text]
  cases tail.comment with
  | none =>
    have hnil : (tail.space.1 ++ commentText none).rdropWhile isSpace = [] :=
      rdropWhile_eq_nil_iff.mpr (by simpa [commentText] using hspace)
    rw [hnil]
    simp
  | some comment =>
    rw [commentText, rdropWhile_append_cons _ (by decide)]
    have hpos : ∀ c ∈ tail.space.1, decide (c ≠ '#') = true := by
      intro c hc
      rw [decide_eq_true_iff]
      rintro rfl
      exact absurd (hspace _ hc) (by decide)
    rw [takeWhile_append_of_pos hpos]
    simpa using hspace

theorem scalar_trim (text : List Char) : scalar (trim text) = scalar text := by
  rw [scalar, trim_trim, scalar]

/-! ## Strings -/

theorem scalar_str (pieces : List Piece) (tail : Tail) (newline : Newline) :
    scalar (quotedText pieces ++ tail.line newline) = some (.str (readText unescape pieces)) := by
  have htrim : trim (quotedText pieces ++ tail.line newline)
      = '"' :: (piecesText pieces ++ '"' :: (tail.line newline).rdropWhile isSpace) := by
    rw [quotedText, cons_append, append_assoc, trim_cons (by decide), singleton_append,
      rdropWhile_append_cons _ (by decide)]
  rw [scalar, htrim]
  dsimp only
  rw [if_pos (.inl rfl), readQuoted_pieces, Option.bind_some, isTail_rdropWhile, isTail_tail, if_pos rfl]

/-! ## Scalars without quotes -/

/-- A text that is read as a scalar without quotes. -/
structure IsBare (text : List Char) : Prop where
  ne_nil : text ≠ []
  plain : ∀ c ∈ text, isSpace c = false ∧ c ≠ '#' ∧ c ≠ '"' ∧ c ≠ '\''

variable {text : List Char}

theorem scalar_bare (h : IsBare text) (tail : Tail) (newline : Newline) :
    scalar (text ++ tail.line newline) = bareScalar text := by
  have hlast : ∀ rest, (text ++ rest).rdropWhile isSpace = text ++ rest.rdropWhile isSpace := by
    intro rest
    obtain ⟨front, c, rfl⟩ := text.eq_nil_or_concat.resolve_left h.ne_nil
    rw [concat_eq_append, append_assoc, append_assoc]
    exact rdropWhile_append_cons front (h.plain c (by simp)).1 rest
  have htrim : trim (text ++ tail.line newline) = text ++ (tail.line newline).rdropWhile isSpace := by
    obtain ⟨c, rest, rfl⟩ := exists_cons_of_ne_nil h.ne_nil
    rw [← hlast, cons_append, trim_cons (h.plain c mem_cons_self).1]
    exact (rdropWhile_append_cons [] (h.plain c mem_cons_self).1 _).symm
  have hhash : ∀ c ∈ text, decide (c ≠ '#') = true := fun c hc ↦ decide_eq_true (h.plain c hc).2.1
  have hbody : trim (((text ++ (tail.line newline).rdropWhile isSpace)).takeWhile (· ≠ '#')) = text := by
    rw [takeWhile_append_of_pos hhash, trim_append_space _ (isSpace_before_comment tail newline)]
    exact trim_eq_self fun c hc ↦ (h.plain c hc).1
  rw [scalar, htrim]
  obtain ⟨c, rest, rfl⟩ := exists_cons_of_ne_nil h.ne_nil
  have hquote := (h.plain c mem_cons_self).2.2
  rw [cons_append] at hbody ⊢
  exact (if_neg (not_or.mpr hquote)).trans (congrArg bareScalar hbody)

theorem bareScalar_bool (b : Bool) : bareScalar (if b then "true" else "false").toList = some (.bool b) := by
  cases b <;> rfl

theorem isBare_bool (b : Bool) : IsBare (if b then "true" else "false").toList := by
  cases b <;> exact ⟨by decide, by decide⟩

/-! ## Integers -/

/-- What the reader makes of an integer, if it does not stop. -/
def Integer.read? : Integer → Option TomlValue
  | .decimal sign digits _ =>
    if sign ≠ .plus ∧ digits.more = [] then some (.num (JsNumber.ofText? (sign.text ++ digits.text))) else none
  | .inBase _ _ => none

theorem toNat_of_le {a b c : Char} (h : a ≤ c ∧ c ≤ b) : a.toNat ≤ c.toNat ∧ c.toNat ≤ b.toNat := h

/-- Digits, letters and what stands between them are no white space and begin nothing else. -/
theorem plain_of_toNat (h : '0'.toNat ≤ c.toNat ∧ c.toNat ≤ 'z'.toNat) :
    isSpace c = false ∧ c ≠ '#' ∧ c ≠ '"' ∧ c ≠ '\'' := by
  have hlow : 0x30 ≤ c.toNat := h.1
  have hhigh : c.toNat ≤ 0x7A := h.2
  refine ⟨?_, ?_, ?_, ?_⟩
  · simp only [isSpace, Bool.or_eq_false_iff, Bool.and_eq_false_iff, decide_eq_false_iff_not,
      beq_eq_false_iff_ne]
    omega
  all_goals
    rintro rfl
    exact absurd hlow (by decide)

theorem toNat_of_digit? {base : ℕ} (h : (JsNumber.digit? base c).isSome) :
    '0'.toNat ≤ c.toNat ∧ c.toNat ≤ 'z'.toNat := by
  have hbounds : ('0' ≤ c ∧ c ≤ '9') ∨ ('a' ≤ c ∧ c ≤ 'f') ∨ ('A' ≤ c ∧ c ≤ 'F') := by
    by_contra hnone
    obtain ⟨hdigit, hlower, hupper⟩ := not_or.mp hnone |>.imp id not_or.mp
    rw [JsNumber.digit?, if_neg hdigit, if_neg hlower, if_neg hupper, if_neg (lt_irrefl base)] at h
    cases h
  obtain hc | hc | hc := hbounds
  all_goals exact ⟨le_trans (by decide) (toNat_of_le hc).1, le_trans (toNat_of_le hc).2 (by decide)⟩

theorem digit?_ten (h : (JsNumber.digit? 10 c).isSome) :
    isDigit c = true ∧ (JsNumber.digit? 10 c).getD 0 = c.toNat - '0'.toNat := by
  by_cases hdigit : '0' ≤ c ∧ c ≤ '9'
  · have hvalue : JsNumber.digit? 10 c = some (c.toNat - '0'.toNat) := by
      have hhigh : c.toNat ≤ 57 := (toNat_of_le hdigit).2
      have hzero : '0'.toNat = 48 := rfl
      rw [JsNumber.digit?, if_pos hdigit]
      exact if_pos (by omega)
    exact ⟨by simpa [isDigit] using hdigit, by rw [hvalue]; rfl⟩
  · -- a letter is no digit of the base ten
    rw [JsNumber.digit?, if_neg hdigit] at h
    split_ifs at h <;> first | omega | cases h

theorem numberIn_ten {digits : List Char} (h : areDigits 10 digits) (n : ℕ) :
    digits.foldl (fun n c ↦ 10 * n + (JsNumber.digit? 10 c).getD 0) n = Nat.ofDigitChars 10 digits n := by
  induction digits generalizing n with
  | nil => rfl
  | cons c digits ih =>
    rw [areDigits, all_cons, Bool.and_eq_true] at h
    rw [foldl_cons, (digit?_ten h.1).2, ih h.2, Nat.ofDigitChars_cons]

section

variable {base : ℕ} (digits : Digits base)

theorem Digits.first_ne_nil : digits.first ≠ [] := by
  have h := List.all_eq_true.mp digits.wellFormed digits.first mem_cons_self
  simp only [Bool.and_eq_true, decide_eq_true_eq] at h
  exact h.1

theorem Digits.areDigits_first : areDigits base digits.first := by
  have h := List.all_eq_true.mp digits.wellFormed digits.first mem_cons_self
  exact (Bool.and_eq_true _ _ ▸ h).2

theorem Digits.plain : ∀ c ∈ digits.text, isSpace c = false ∧ c ≠ '#' ∧ c ≠ '"' ∧ c ≠ '\'' := by
  intro c hc
  have hall : ∀ group ∈ digits.first :: digits.more, c ∈ group → (JsNumber.digit? base c).isSome := by
    intro group hgroup hmem
    have h := List.all_eq_true.mp digits.wellFormed group hgroup
    rw [Bool.and_eq_true] at h
    exact List.all_eq_true.mp h.2 c hmem
  rw [Digits.text, mem_append, mem_flatMap] at hc
  obtain hc | ⟨group, hgroup, hc⟩ := hc
  · exact plain_of_toNat (toNat_of_digit? (hall _ mem_cons_self hc))
  · obtain rfl | hc := mem_cons.mp hc
    · decide
    · exact plain_of_toNat (toNat_of_digit? (hall _ (mem_cons_of_mem _ hgroup) hc))

end

theorem Integer.isBare (n : Integer) : IsBare n.text := by
  cases n with
  | decimal sign digits h =>
    refine ⟨?_, fun c hc ↦ ?_⟩
    · simp [text, Digits.text, digits.first_ne_nil]
    · have hsign : ∀ c ∈ sign.text, isSpace c = false ∧ c ≠ '#' ∧ c ≠ '"' ∧ c ≠ '\'' := by
        cases sign <;> decide
      exact (mem_append.mp hc).elim (hsign c) (digits.plain c)
  | inBase base digits =>
    refine ⟨cons_ne_nil _ _, fun c hc ↦ ?_⟩
    obtain rfl | hc := mem_cons.mp hc
    · decide
    obtain rfl | hc := mem_cons.mp hc
    · cases base <;> decide
    · exact digits.plain c hc

theorem unsigned_of_head? (h : text.head? ≠ some '-') : unsigned text = text := by
  rw [unsigned]
  rintro rest rfl
  exact h rfl

theorem mem_of_mem_unsigned (h : c ∈ unsigned text) : c ∈ text := by
  unfold unsigned at h
  split at h
  · exact mem_cons_of_mem _ h
  · exact h

theorem bareScalar_stuck {text digits rest : List Char} (h : unsigned text = digits ++ c :: rest)
    (hdigits : ∀ d ∈ digits, isDigit d = true) (hc : c ∈ ['+', '_', 'x', 'o', 'b']) : bareScalar text = none := by
  have hmem : c ∈ text := mem_of_mem_unsigned (by rw [h]; simp)
  have hall : ∀ c ∈ ['+', '_', 'x', 'o', 'b'],
      isDigit c = false ∧ c ≠ '.' ∧ c ∉ "true".toList ∧ c ∉ "false".toList := by
    decide
  have hc' := hall c hc
  have htrue : text ≠ "true".toList := fun heq ↦ hc'.2.2.1 (heq ▸ hmem)
  have hfalse : text ≠ "false".toList := fun heq ↦ hc'.2.2.2 (heq ▸ hmem)
  have hinteger : isInteger text = false := by
    rw [isInteger, h]
    simp [hc'.1]
  have hfraction : isFraction text = false := by
    rw [isFraction, h, dropWhile_append_of_pos hdigits, dropWhile_cons_of_neg (by simp [hc'.1])]
    split
    · next heq => exact absurd (List.cons.inj heq).1 hc'.2.1
    · rfl
  rw [bareScalar, if_neg htrue, if_neg hfalse, hinteger, hfraction]
  rfl

theorem bareScalar_digits {sign digits : List Char} (hsign : sign = [] ∨ sign = ['-']) (hne : digits ≠ [])
    (h : ∀ c ∈ digits, isDigit c = true) :
    bareScalar (sign ++ digits) = some (.num (JsNumber.ofText? (sign ++ digits))) := by
  obtain ⟨c, rest, rfl⟩ := exists_cons_of_ne_nil hne
  have hc := h c mem_cons_self
  have hunsigned : unsigned (sign ++ c :: rest) = c :: rest := by
    obtain rfl | rfl := hsign
    · refine unsigned_of_head? fun hhead ↦ ?_
      rw [nil_append, head?_cons, Option.some.injEq] at hhead
      rw [hhead] at hc
      exact absurd hc (by decide)
    · rfl
  have hinteger : isInteger (sign ++ c :: rest) = true := by
    rw [isInteger, hunsigned]
    simpa using h
  -- a word has a letter where the digits have their last
  have hword : ∀ word, (∃ d ∈ word, d ∉ ['-'] ∧ isDigit d = false) → sign ++ c :: rest ≠ word := by
    rintro word ⟨d, hd, hminus, hdigit⟩ rfl
    obtain hd | hd := mem_append.mp hd
    · obtain rfl | rfl := hsign
      · cases hd
      · exact hminus hd
    · rw [h d hd] at hdigit
      cases hdigit
  rw [bareScalar, if_neg (hword _ ⟨'e', by decide, by decide, by decide⟩),
    if_neg (hword _ ⟨'e', by decide, by decide, by decide⟩), hinteger]
  rfl

theorem bareScalar_int (n : Integer) : bareScalar n.text = n.read? := by
  cases n with
  | inBase base digits =>
    have hletter : base.letter ∈ ['+', '_', 'x', 'o', 'b'] := by cases base <;> decide
    have hunsigned : unsigned (Integer.inBase base digits).text = ['0'] ++ base.letter :: digits.text := rfl
    exact bareScalar_stuck hunsigned (by decide) hletter
  | decimal sign digits h =>
    have hfirst : ∀ c ∈ digits.first, isDigit c = true := fun c hc ↦
      (digit?_ten (List.all_eq_true.mp digits.areDigits_first c hc)).1
    have hhead : digits.text.head? ≠ some '-' := by
      obtain ⟨c, rest, heq⟩ := exists_cons_of_ne_nil digits.first_ne_nil
      rw [Digits.text, heq, cons_append, head?_cons, Ne, Option.some.injEq]
      rintro rfl
      exact absurd (hfirst _ (heq ▸ mem_cons_self)) (by decide)
    by_cases hplus : sign = .plus
    · subst hplus
      have hunsigned : unsigned (Integer.decimal .plus digits h).text = [] ++ '+' :: digits.text := rfl
      exact bareScalar_stuck hunsigned (forall_mem_nil _) (by decide)
    have hsign : sign.text = [] ∨ sign.text = ['-'] := by
      cases sign with
      | none => exact .inl rfl
      | plus => exact absurd rfl hplus
      | minus => exact .inr rfl
    rw [Integer.read?, Integer.text]
    by_cases hmore : digits.more = []
    · have htext : digits.text = digits.first := by rw [Digits.text, hmore, flatMap_nil, append_nil]
      rw [if_pos ⟨hplus, hmore⟩, htext]
      exact bareScalar_digits hsign digits.first_ne_nil hfirst
    · have hunsigned : unsigned (sign.text ++ digits.text) = digits.text := by
        obtain hsign | hsign := hsign
        · rw [hsign, nil_append, unsigned_of_head? hhead]
        · rw [hsign]
          rfl
      obtain ⟨group, more, hcons⟩ := exists_cons_of_ne_nil hmore
      have htext : unsigned (sign.text ++ digits.text)
          = digits.first ++ '_' :: (group ++ more.flatMap fun group ↦ '_' :: group) := by
        rw [hunsigned, Digits.text, hcons]
        rfl
      rw [if_neg fun h ↦ hmore h.2]
      exact bareScalar_stuck htext hfirst (by decide)

/-- The number is a finite double. -/
def IsDouble (q : ℚ) : Prop := JsNumber.toDouble q = q ∧ |q| < 2 ^ 1024

def Integer.Readable : Integer → Prop
  | .decimal sign digits _ => sign ≠ .plus ∧ digits.more = [] ∧ IsDouble (sign.apply digits.value)
  | .inBase _ _ => False

theorem ofText?_sign {sign : Sign} (hsign : sign ≠ .plus) {digits : List Char} (hne : digits ≠ [])
    (h : ∀ c ∈ digits, isDigit c = true) :
    JsNumber.ofText? (sign.text ++ digits)
      = (some (JsNumber.toDouble (sign.apply (Nat.ofDigitChars 10 digits 0)))).filter fun x ↦ |x| < 2 ^ 1024 := by
  cases sign with
  | plus => exact absurd rfl hsign
  | none => exact JsNumber.ofText?_digits hne h
  | minus =>
    have hspace : ∀ c ∈ '-' :: digits, isSpace c = false := by
      intro c hc
      obtain rfl | hc := mem_cons.mp hc
      · decide
      · exact JsNumber.isSpace_of_isDigit (h c hc)
    rw [Sign.text, singleton_append, JsNumber.ofText?, trim_eq_self hspace, JsNumber.exactValue?,
      JsNumber.unsignedDecimal?_digits hne h, Sign.apply, Int.cast_neg, Int.cast_natCast]
    rfl

theorem filter_toDouble_eq_iff (q : ℚ) :
    (some (JsNumber.toDouble q)).filter (fun x ↦ |x| < 2 ^ 1024) = some q ↔ IsDouble q := by
  rw [Option.filter_eq_some_iff, Option.some.injEq, decide_eq_true_iff]
  rfl

theorem Integer.read?_eq_iff (n : Integer) : n.read? = some (.num (some n.value)) ↔ n.Readable := by
  cases n with
  | inBase base digits => simp [read?, Readable]
  | decimal sign digits h =>
    by_cases hread : sign ≠ .plus ∧ digits.more = []
    · have hfirst : ∀ c ∈ digits.first, isDigit c = true := fun c hc ↦
        (digit?_ten (List.all_eq_true.mp digits.areDigits_first c hc)).1
      have hvalue : digits.value = Nat.ofDigitChars 10 digits.first 0 := by
        rw [Digits.value, hread.2, flatten_nil, append_nil]
        exact numberIn_ten digits.areDigits_first 0
      have htext : digits.text = digits.first := by
        rw [Digits.text, hread.2, flatMap_nil, append_nil]
      rw [read?, if_pos hread, Readable, ← and_assoc, and_iff_right hread, value, htext, hvalue,
        Option.some.injEq, TomlValue.num.injEq, ofText?_sign hread.1 digits.first_ne_nil hfirst,
        filter_toDouble_eq_iff]
    · rw [read?, if_neg hread, Readable, ← and_assoc]
      exact iff_of_false (fun heq ↦ by cases heq) fun h ↦ hread h.1

end Amicode.TomlLite
