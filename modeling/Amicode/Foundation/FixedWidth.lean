import Amicode.Foundation.JsText

/-!
# Numerals of one width

Numbers that are padded to the same width are ordered, as texts, like the numbers they are, whatever follows them
(`not_le_padded`).
-/

open List

namespace JsText

theorem unitsLe_append_left (a x y : List ℕ) : unitsLe (a ++ x) (a ++ y) = unitsLe x y := by
  induction a with
  | nil => rfl
  | cons n a ih => simp [unitsLe, ih]

/-- What two texts begin with does not matter for their order. -/
theorem le_append_left (a x y : List Char) : le (a ++ x) (a ++ y) = le x y := by
  rw [le, le, flatMap_append, flatMap_append, unitsLe_append_left]

theorem toNat_of_isDigit {c : Char} (h : isDigit c = true) : 48 ≤ c.toNat ∧ c.toNat ≤ 57 := by
  simp only [isDigit, Bool.and_eq_true, decide_eq_true_eq, Char.le_def] at h
  exact h

theorem units_of_isDigit {c : Char} (h : isDigit c = true) : units c = [c.toNat] := by
  have hdigit := toNat_of_isDigit h
  rw [units, if_pos (by omega)]

theorem ofDigitChars_cons_zero (c : Char) (digits : List Char) : Nat.ofDigitChars 10 (c :: digits) 0
    = 10 ^ digits.length * (c.toNat - 48) + Nat.ofDigitChars 10 digits 0 := by
  rw [Nat.ofDigitChars_cons, Nat.ofDigitChars_eq_ofDigitChars_zero, Nat.mul_zero, Nat.zero_add]
  rfl

theorem ofDigitChars_lt {digits : List Char} (h : ∀ c ∈ digits, isDigit c = true) :
    Nat.ofDigitChars 10 digits 0 < 10 ^ digits.length := by
  induction digits with
  | nil => simp
  | cons c digits ih =>
    have hc := toNat_of_isDigit (h c mem_cons_self)
    have hrest := ih fun d hd ↦ h d (mem_cons_of_mem c hd)
    have hdigit : 10 ^ digits.length * (c.toNat - 48) ≤ 10 ^ digits.length * 9 := Nat.mul_le_mul_left _ (by omega)
    rw [ofDigitChars_cons_zero, length_cons, pow_succ]
    omega

/-- Of two numerals of one width, that of the greater number does not come first. -/
theorem not_le_of_ofDigitChars_lt {a b : List Char} (hlength : a.length = b.length)
    (ha : ∀ c ∈ a, isDigit c = true) (hb : ∀ c ∈ b, isDigit c = true)
    (hlt : Nat.ofDigitChars 10 a 0 < Nat.ofDigitChars 10 b 0) (x y : List Char) : le (b ++ x) (a ++ y) = false := by
  induction a generalizing b with
  | nil =>
    rw [eq_nil_of_length_eq_zero hlength.symm] at hlt
    exact absurd hlt (lt_irrefl _)
  | cons c a ih =>
    rcases b with _ | ⟨d, b⟩
    · cases hlength
    have hlength' : a.length = b.length := Nat.succ.inj hlength
    have hd := toNat_of_isDigit (hb d mem_cons_self)
    have ha' : ∀ e ∈ a, isDigit e = true := fun e he ↦ ha e (mem_cons_of_mem c he)
    have hb' : ∀ e ∈ b, isDigit e = true := fun e he ↦ hb e (mem_cons_of_mem d he)
    have hcd : c.toNat ≤ d.toNat := by
      -- a smaller first digit outweighs the others
      by_contra hgt
      have hvalue := ofDigitChars_lt hb'
      have hdigit : 10 ^ a.length * (d.toNat - 48 + 1) ≤ 10 ^ a.length * (c.toNat - 48) :=
        Nat.mul_le_mul_left _ (by omega)
      rw [ofDigitChars_cons_zero, ofDigitChars_cons_zero, ← hlength'] at hlt
      rw [← hlength'] at hvalue
      rw [Nat.mul_add, Nat.mul_one] at hdigit
      omega
    have hrest := ih hlength' ha' hb'
    rw [le] at hrest ⊢
    simp only [cons_append, flatMap_cons, units_of_isDigit (ha c mem_cons_self),
      units_of_isDigit (hb d mem_cons_self), nil_append, unitsLe, Bool.or_eq_false_iff, decide_eq_false_iff_not,
      not_lt, hcd, true_and, Bool.and_eq_false_iff, beq_eq_false_iff_ne]
    rcases eq_or_ne d.toNat c.toNat with heq | hne
    · rw [ofDigitChars_cons_zero, ofDigitChars_cons_zero, heq, hlength'] at hlt
      exact .inr (hrest (by omega))
    · exact .inl hne

theorem length_padded {width n : ℕ} (hpos : 0 < width) (hlt : n < 10 ^ width) :
    (padStart width '0' (decimal n)).length = width := by
  have hle := (Nat.length_toDigits_le_iff (b := 10) (by omega) hpos).mpr hlt
  rw [padStart, length_append, length_replicate, decimal]
  omega

theorem isDigit_of_mem_padded {width n : ℕ} {c : Char} (h : c ∈ padStart width '0' (decimal n)) :
    isDigit c = true := by
  rcases mem_append.mp h with hc | hc
  · rw [(mem_replicate.mp hc).2]
    rfl
  · exact isDigit_of_mem_decimal hc

theorem ofDigitChars_padded (width n : ℕ) : Nat.ofDigitChars 10 (padStart width '0' (decimal n)) 0 = n := by
  rw [padStart, Nat.ofDigitChars_append, Nat.ofDigitChars_replicate_zero, Nat.mul_zero, decimal,
    Nat.ofDigitChars_ten_toDigits]

theorem not_le_padded {width m n : ℕ} (hpos : 0 < width) (hmn : m < n) (hn : n < 10 ^ width) (x y : List Char) :
    le (padStart width '0' (decimal n) ++ x) (padStart width '0' (decimal m) ++ y) = false := by
  refine not_le_of_ofDigitChars_lt ?_ (fun c ↦ isDigit_of_mem_padded) (fun c ↦ isDigit_of_mem_padded) ?_ x y
  · rw [length_padded hpos hn, length_padded hpos (hmn.trans hn)]
  · rwa [ofDigitChars_padded, ofDigitChars_padded]

end JsText
