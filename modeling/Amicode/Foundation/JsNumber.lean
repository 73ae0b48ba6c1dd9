import Amicode.Foundation.JsText
import Mathlib.Data.Int.Log
import Mathlib.Data.Rat.Floor
import Mathlib.Tactic.Positivity

/-!
# Numbers as an ECMAScript program computes with them

A Number is a double. Its value is a rational, and an operation rounds the exact result to the nearest
double, ties to even. What counting needs is here, adding one to a number that is at least one: below
`2 ^ 53` the doubles are at most one apart, so that the sum is larger than the number; from `2 ^ 53` on it
need not be. And the number a text denotes is here (`ofText?`).

Infinities and NaN are left out: JSON text has no literal for them, adding one to a finite double does not
overflow, and a text that denotes one of them has no finite value.
-/

open List Option Nat Int

open JsText

namespace JsNumber

/-- The nearest integer, ties to even. -/
def roundEven (q : ℚ) : ℤ :=
  let below := ⌊q⌋
  if q - below < 1 / 2 then below
  else if 1 / 2 < q - below then below + 1
  else if below % 2 = 0 then below else below + 1

theorem floor_le_roundEven (q : ℚ) : ⌊q⌋ ≤ roundEven q := by
  unfold roundEven
  dsimp only
  split_ifs <;> omega

theorem sub_half_le_roundEven (q : ℚ) : q - 1 / 2 ≤ roundEven q := by
  have hlt := Int.lt_floor_add_one q
  unfold roundEven
  dsimp only
  split_ifs <;> push_cast <;> linarith

/-- The distance between the doubles around a number: 53 significant bits, and no smaller than the
least subnormal. -/
def ulp (q : ℚ) : ℚ := 2 ^ max (Int.log 2 |q| - 52) (-1074)

theorem ulp_pos (q : ℚ) : 0 < ulp q := zpow_pos (by norm_num) _

/-- The double nearest to a number. -/
def toDouble (q : ℚ) : ℚ := roundEven (q / ulp q) * ulp q

/-- `x + 1`. -/
def addOne (x : ℚ) : ℚ := toDouble (x + 1)

theorem sub_half_ulp_le_toDouble (q : ℚ) : q - ulp q / 2 ≤ toDouble q := by
  have hpos := ulp_pos q
  calc q - ulp q / 2 = (q / ulp q - 1 / 2) * ulp q := by field_simp
    _ ≤ roundEven (q / ulp q) * ulp q :=
      mul_le_mul_of_nonneg_right (sub_half_le_roundEven _) hpos.le

theorem ulp_le_one {q : ℚ} (hpos : 0 < q) (hlt : q < 2 ^ 53) : ulp q ≤ 1 := by
  have hlog : Int.log 2 |q| ≤ 52 := by
    rw [abs_of_pos hpos]
    have : Int.log 2 q < 53 := (lt_zpow_iff_log_lt (by norm_num) hpos).mp (by exact_mod_cast hlt)
    omega
  calc ulp q = (2 : ℚ) ^ max (Int.log 2 |q| - 52) (-1074) := rfl
    _ ≤ 2 ^ (0 : ℤ) := zpow_le_zpow_right₀ (by norm_num) (by omega)
    _ = 1 := zpow_zero _

theorem ulp_eq_two {q : ℚ} (hle : 2 ^ 53 ≤ q) (hlt : q < 2 ^ 54) : ulp q = 2 := by
  have hpos : 0 < q := lt_of_lt_of_le (by norm_num) hle
  have hlog : Int.log 2 |q| = 53 := by
    rw [abs_of_pos hpos]
    have hlow : 53 ≤ Int.log 2 q :=
      (zpow_le_iff_le_log (by norm_num) hpos).mp (by exact_mod_cast hle)
    have hhigh : Int.log 2 q < 54 :=
      (lt_zpow_iff_log_lt (by norm_num) hpos).mp (by exact_mod_cast hlt)
    omega
  rw [ulp, hlog]
  norm_num

theorem lt_addOne {x : ℚ} (hone : 1 ≤ x) (hlt : x < 2 ^ 53) : x < addOne x := by
  by_cases hsum : x + 1 < 2 ^ 53
  · -- the doubles around the sum are at most one apart
    have hulp := ulp_le_one (by linarith : 0 < x + 1) hsum
    have hround := sub_half_ulp_le_toDouble (x + 1)
    rw [addOne]
    linarith
  · -- the doubles around the sum are the even numbers, and the sum is no less than the first of them
    have hulp : ulp (x + 1) = 2 := ulp_eq_two (not_lt.mp hsum) (by linarith)
    have hfloor : (2 ^ 52 : ℤ) ≤ ⌊(x + 1) / 2⌋ := Int.le_floor.mpr (by push_cast; linarith)
    have hround : (2 ^ 52 : ℚ) ≤ roundEven ((x + 1) / 2) := by
      exact_mod_cast hfloor.trans (floor_le_roundEven _)
    rw [addOne, toDouble, hulp]
    linarith

example : addOne 1 = 2 := by decide +kernel

/-! ## Reading a number -/

/-- The exponent of a decimal literal, with its sign: nothing, or `e` and digits. -/
def exponent? : List Char → Option ℤ
  | [] => some 0
  | mark :: text =>
    if mark = 'e' ∨ mark = 'E' then
      match text with
      | '+' :: digits => (JsText.decimal? digits).map Int.ofNat
      | '-' :: digits => (JsText.decimal? digits).map fun n ↦ -Int.ofNat n
      | digits => (JsText.decimal? digits).map Int.ofNat
    else none

/-- The exact value of an unsigned decimal literal: digits around a point, and an exponent. -/
def unsignedDecimal? (text : List Char) : Option ℚ :=
  let whole := text.takeWhile JsText.isDigit
  let (fraction, rest) := match text.dropWhile JsText.isDigit with
    | '.' :: rest => (rest.takeWhile JsText.isDigit, rest.dropWhile JsText.isDigit)
    | rest => ([], rest)
  if whole = [] ∧ fraction = [] then none
  else (exponent? rest).map fun e ↦
    (Nat.ofDigitChars 10 (whole ++ fraction) 0 : ℚ) * 10 ^ (e - (fraction.length : ℤ))

def digit? (base : ℕ) (c : Char) : Option ℕ :=
  let n := c.toNat
  let value :=
    if '0' ≤ c ∧ c ≤ '9' then n - '0'.toNat
    else if 'a' ≤ c ∧ c ≤ 'f' then n - 'a'.toNat + 10
    else if 'A' ≤ c ∧ c ≤ 'F' then n - 'A'.toNat + 10
    else base
  if value < base then some value else none

/-- The value of a nonempty run of digits of a base. -/
def inBase? (base : ℕ) (digits : List Char) : Option ℚ :=
  if digits = [] then none
  else (digits.mapM (digit? base)).map fun values ↦ (values.foldl (fun n d ↦ n * base + d) 0 : ℕ)

/-- The exact value of a numeric text without the space around it; an empty one denotes zero. -/
def exactValue? (text : List Char) : Option ℚ :=
  match text with
  | [] => some 0
  | '0' :: 'x' :: digits | '0' :: 'X' :: digits => inBase? 16 digits
  | '0' :: 'o' :: digits | '0' :: 'O' :: digits => inBase? 8 digits
  | '0' :: 'b' :: digits | '0' :: 'B' :: digits => inBase? 2 digits
  | '+' :: unsigned => unsignedDecimal? unsigned
  | '-' :: unsigned => (unsignedDecimal? unsigned).map fun q ↦ -q
  | unsigned => unsignedDecimal? unsigned

/-- `Number(text)`, where it is finite. -/
def ofText? (text : List Char) : Option ℚ :=
  ((exactValue? (JsText.trim text)).map toDouble).filter fun x ↦ |x| < 2 ^ 1024

example : ofText? " 12.5e1 ".toList = some 125 := by decide +kernel

end JsNumber

/-!
# Whole numbers as an ECMAScript program reads and prints them

`Number(digits)` rounds to a double, and `String(number)` prints as few digits as identify that double, in
exponent form from `10 ^ 21` on. A whole number is `none` where it is `Infinity`: digits can be too many for a
finite double. Below `10 ^ 21` what is printed is read back as the same number (`number_numberText`).
-/

namespace JsNumber

/-! ## Doubles round to themselves -/

theorem roundEven_intCast (m : ℤ) : roundEven m = m := by
  have hsub : (m : ℚ) - ⌊(m : ℚ)⌋ < 1 / 2 := by
    rw [floor_intCast, sub_self]
    norm_num
  rw [roundEven, if_pos hsub, floor_intCast]

theorem abs_roundEven_le {q : ℚ} {bound : ℤ} (h : |q| ≤ bound) : |roundEven q| ≤ bound := by
  have hq := abs_le.mp h
  have hfloor : ⌊q⌋ ≤ bound := Int.cast_le.mp ((Int.floor_le q).trans hq.2)
  have hfloor' : -bound ≤ ⌊q⌋ := Int.le_floor.mpr (by push_cast; exact hq.1)
  have hup : 0 < q - ⌊q⌋ → ⌊q⌋ + 1 ≤ bound := by
    intro hpos
    have : (⌊q⌋ : ℚ) < bound := by linarith [hq.2]
    exact Int.cast_lt.mp this
  rw [abs_le]
  unfold roundEven
  dsimp only
  split_ifs with hlow hhigh heven
  · exact ⟨hfloor', hfloor⟩
  · exact ⟨by omega, hup (by linarith)⟩
  · exact ⟨hfloor', hfloor⟩
  · exact ⟨by omega, hup (by linarith)⟩

theorem toDouble_of_eq {q : ℚ} {m e : ℤ} (hm : |m| ≤ 2 ^ 53) (he : -1074 ≤ e) (hq : q = m * 2 ^ e) :
    toDouble q = q := by
  rcases eq_or_ne m 0 with rfl | hm0
  · simp [hq, toDouble, show roundEven 0 = 0 from roundEven_intCast 0]
  have hqabs : |q| = |(m : ℚ)| * 2 ^ e := by
    rw [hq, abs_mul, abs_of_pos (zpow_pos (by norm_num : (0 : ℚ) < 2) e)]
  have hmpos : 0 < |(m : ℚ)| := abs_pos.mpr (Int.cast_ne_zero.mpr hm0)
  have hqpos : 0 < |q| := hqabs ▸ mul_pos hmpos (zpow_pos (by norm_num) e)
  -- the last place of the number is no lower than the last place the doubles around it have
  have hexists : ∃ n : ℤ, q = n * ulp q := by
    by_cases hmax : |m| = 2 ^ 53
    · have hval : |q| = 2 ^ (53 + e) := by
        rw [hqabs, zpow_add₀ (by norm_num : (2 : ℚ) ≠ 0)]
        congr 1
        exact_mod_cast hmax
      have hulp : ulp q = 2 ^ (e + 1) := by
        have hlog : Int.log 2 |q| = 53 + e := by
          rw [hval]
          exact_mod_cast log_zpow (R := ℚ) (b := 2) (by norm_num) (53 + e)
        rw [ulp, hlog, max_eq_left (by omega), show 53 + e - 52 = e + 1 by omega]
      obtain ⟨n, hn⟩ : ∃ n : ℤ, m = 2 * n := by
        rcases abs_choice m with h | h
        · exact ⟨2 ^ 52, by omega⟩
        · exact ⟨-2 ^ 52, by omega⟩
      refine ⟨n, ?_⟩
      rw [hulp, hq, zpow_add₀ (by norm_num : (2 : ℚ) ≠ 0), hn]
      push_cast
      ring
    · have hlt : |m| < 2 ^ 53 := lt_of_le_of_ne hm hmax
      have hlog : Int.log 2 |q| < 53 + e := by
        rw [← lt_zpow_iff_log_lt (by norm_num) hqpos, hqabs, zpow_add₀ (by norm_num)]
        refine mul_lt_mul_of_pos_right ?_ (zpow_pos (by norm_num) e)
        exact_mod_cast hlt
      have hle : max (Int.log 2 |q| - 52) (-1074) ≤ e := by omega
      obtain ⟨d, hd⟩ := Int.le.dest hle
      refine ⟨m * 2 ^ d, ?_⟩
      have hpow : (2 : ℚ) ^ e = 2 ^ d * ulp q := by
        rw [ulp, ← zpow_natCast, ← zpow_add₀ (by norm_num : (2 : ℚ) ≠ 0)]
        congr 1
        omega
      push_cast
      rw [mul_assoc, ← hpow]
      exact hq
  obtain ⟨n, hn⟩ := hexists
  have hdiv : q / ulp q = n := by
    rw [div_eq_iff (ulp_pos q).ne']
    exact hn
  rw [toDouble, hdiv, roundEven_intCast]
  exact hn.symm

theorem toDouble_toDouble (q : ℚ) : toDouble (toDouble q) = toDouble q := by
  refine toDouble_of_eq (m := roundEven (q / ulp q)) (e := max (Int.log 2 |q| - 52) (-1074)) ?_ ?_ rfl
  · have hbound : |q / ulp q| ≤ (2 ^ 53 : ℤ) := by
      rw [abs_div, abs_of_pos (ulp_pos q), div_le_iff₀ (ulp_pos q)]
      have hlt : |q| < 2 ^ (Int.log 2 |q| + 1) := lt_zpow_succ_log_self (by norm_num) |q|
      calc |q| ≤ 2 ^ (Int.log 2 |q| + 1) := by exact_mod_cast hlt.le
        _ ≤ 2 ^ (53 + max (Int.log 2 |q| - 52) (-1074)) := zpow_le_zpow_right₀ (by norm_num) (by omega)
        _ = ((2 ^ 53 : ℤ) : ℚ) * ulp q := by
          rw [zpow_add₀ (by norm_num : (2 : ℚ) ≠ 0), ulp]
          norm_num
    exact abs_roundEven_le hbound
  · exact le_max_right _ _

theorem exists_toDouble_natCast (n : ℕ) : ∃ k : ℕ, toDouble n = k := by
  by_cases hsmall : n < 2 ^ 53
  · refine ⟨n, toDouble_of_eq (m := n) (e := 0) ?_ (by norm_num) (by simp)⟩
    rw [abs_cast]
    exact_mod_cast hsmall.le
  · have hpos : (0 : ℚ) < n := by
      have : 0 < n := lt_of_lt_of_le (by positivity) (not_lt.mp hsmall)
      exact_mod_cast this
    have hlog : 53 ≤ Int.log 2 |(n : ℚ)| := by
      rw [abs_of_pos hpos]
      refine (zpow_le_iff_le_log (by norm_num) hpos).mp ?_
      exact_mod_cast not_lt.mp hsmall
    obtain ⟨d, hd⟩ := Int.le.dest (show (0 : ℤ) ≤ Int.log 2 |(n : ℚ)| - 52 by omega)
    have hulp : ulp n = 2 ^ d := by
      rw [ulp, max_eq_left (by omega), ← hd, zero_add, zpow_natCast]
    have hround : 0 ≤ roundEven ((n : ℚ) / ulp n) :=
      (floor_nonneg.mpr (div_nonneg hpos.le (ulp_pos _).le)).trans (floor_le_roundEven _)
    obtain ⟨r, hr⟩ := eq_ofNat_of_zero_le hround
    refine ⟨r * 2 ^ d, ?_⟩
    rw [toDouble, hr, hulp]
    push_cast
    rfl

/-! ## Whole numbers with a sign -/

theorem roundEven_neg (q : ℚ) : roundEven (-q) = -roundEven q := by
  by_cases hint : (⌊q⌋ : ℚ) = q
  · rw [← hint, ← cast_neg, roundEven_intCast, roundEven_intCast]
  · -- the integers around the number are the negated ones around the other
    have hceil : ⌈q⌉ = ⌊q⌋ + 1 := by
      have hlt : (⌊q⌋ : ℚ) < q := lt_of_le_of_ne (Int.floor_le q) hint
      refine Int.ceil_eq_iff.mpr ⟨by push_cast; linarith, ?_⟩
      exact_mod_cast (Int.lt_floor_add_one q).le
    have hfloor : ⌊-q⌋ = -⌊q⌋ - 1 := by
      rw [floor_neg, hceil]
      ring
    unfold roundEven
    rw [hfloor]
    push_cast
    split_ifs <;> first | omega | (exfalso; linarith)

theorem toDouble_neg (q : ℚ) : toDouble (-q) = -toDouble q := by
  rw [toDouble, toDouble, ulp, ulp, abs_neg, neg_div, roundEven_neg]
  push_cast
  ring

theorem exists_toDouble_intCast (n : ℤ) : ∃ k : ℤ, toDouble n = k := by
  obtain ⟨k, hk⟩ := exists_toDouble_natCast n.natAbs
  rcases natAbs_eq n with h | h
  · exact ⟨k, by rw [h, cast_natCast, hk, cast_natCast]⟩
  · exact ⟨-k, by rw [h, cast_neg, cast_natCast, toDouble_neg, hk, cast_neg, cast_natCast]⟩

/-! ## Reading digits -/

/-- `Number(digits)`, where it is finite. -/
def number (digits : List Char) : Option ℕ := (ofText? digits).map fun q ↦ q.num.toNat

variable {c : Char} {digits : List Char} {x : ℕ} {n : Option ℕ}

theorem isSpace_of_isDigit (h : JsText.isDigit c = true) : JsText.isSpace c = false := by
  simp only [JsText.isDigit, Bool.and_eq_true, decide_eq_true_eq, Char.le_def] at h
  have hlow : 48 ≤ c.toNat := h.1
  have hhigh : c.toNat ≤ 57 := h.2
  simp only [JsText.isSpace, Bool.or_eq_false_iff, Bool.and_eq_false_iff, decide_eq_false_iff_not,
    beq_eq_false_iff_ne]
  omega

section

variable (hne : digits ≠ []) (h : ∀ c ∈ digits, JsText.isDigit c = true)

include hne h

theorem unsignedDecimal?_digits : unsignedDecimal? digits = some (Nat.ofDigitChars 10 digits 0 : ℚ) := by
  have htake : digits.takeWhile JsText.isDigit = digits := takeWhile_eq_self_iff.mpr h
  have hdrop : digits.dropWhile JsText.isDigit = [] := dropWhile_eq_nil_iff.mpr h
  simp [unsignedDecimal?, htake, hdrop, hne, exponent?]

theorem exactValue?_digits : exactValue? digits = some (Nat.ofDigitChars 10 digits 0 : ℚ) := by
  have hunsigned := unsignedDecimal?_digits hne h
  -- no base and no sign is marked by digits
  have hmark : ∀ c, JsText.isDigit c = false → c ∉ digits := fun c hc hmem ↦ by
    rw [h c hmem] at hc
    cases hc
  unfold exactValue?
  split
  · exact absurd rfl hne
  · exact absurd (by simp) (hmark 'x' (by decide))
  · exact absurd (by simp) (hmark 'X' (by decide))
  · exact absurd (by simp) (hmark 'o' (by decide))
  · exact absurd (by simp) (hmark 'O' (by decide))
  · exact absurd (by simp) (hmark 'b' (by decide))
  · exact absurd (by simp) (hmark 'B' (by decide))
  · exact absurd (by simp) (hmark '+' (by decide))
  · exact absurd (by simp) (hmark '-' (by decide))
  · exact hunsigned

theorem ofText?_digits :
    ofText? digits = (some (toDouble (Nat.ofDigitChars 10 digits 0))).filter fun x ↦ |x| < 2 ^ 1024 := by
  have htrim : JsText.trim digits = digits := trim_eq_self fun c hc ↦ isSpace_of_isDigit (h c hc)
  rw [ofText?, htrim, exactValue?_digits hne h]
  rfl

end

/-- The digits of a whole number, behind its sign. -/
def signedDecimal (n : ℤ) : List Char :=
  if n < 0 then '-' :: JsText.decimal n.natAbs else JsText.decimal n.natAbs

/-- The digits of a double are read back as the double, if it is finite. -/
theorem ofText?_signedDecimal {n : ℤ} (h : toDouble n = n) :
    ofText? (signedDecimal n) = (some (n : ℚ)).filter fun x ↦ |x| < 2 ^ 1024 := by
  have hdigits : ∀ c ∈ JsText.decimal n.natAbs, JsText.isDigit c = true := fun c hc ↦ isDigit_of_mem_decimal hc
  have hne : JsText.decimal n.natAbs ≠ [] := toDigits_ne_nil
  have hvalue : Nat.ofDigitChars 10 (JsText.decimal n.natAbs) 0 = n.natAbs := ofDigitChars_ten_toDigits
  rw [signedDecimal]
  split_ifs with hneg
  · have hspace : ∀ c ∈ '-' :: JsText.decimal n.natAbs, JsText.isSpace c = false := by
      intro c hc
      rcases mem_cons.mp hc with rfl | hc
      · decide
      · exact isSpace_of_isDigit (hdigits c hc)
    have hexact : exactValue? ('-' :: JsText.decimal n.natAbs) = some (n : ℚ) := by
      have hunsigned : unsignedDecimal? (JsText.decimal n.natAbs) = some (n.natAbs : ℚ) := by
        rw [unsignedDecimal?_digits hne hdigits, hvalue]
      have hcast : -(n.natAbs : ℚ) = n := by
        rw [cast_natAbs, abs_of_neg hneg, cast_neg, neg_neg]
      rw [exactValue?, hunsigned, map_some, hcast]
    rw [ofText?, trim_eq_self hspace, hexact, map_some, h]
  · have hcast : ((n.natAbs : ℕ) : ℚ) = n := by rw [cast_natAbs, abs_of_nonneg (not_lt.mp hneg)]
    rw [ofText?_digits hne hdigits, hvalue, hcast, h]

theorem toDouble_number {n : ℕ} (hne : digits ≠ [])
    (h : ∀ c ∈ digits, JsText.isDigit c = true) (hn : number digits = some n) : toDouble n = n := by
  obtain ⟨q, hq, rfl⟩ := map_eq_some_iff.mp hn
  rw [ofText?_digits hne h, filter_eq_some_iff] at hq
  obtain ⟨k, hk⟩ := exists_toDouble_natCast (Nat.ofDigitChars 10 digits 0)
  have hqk : q = k := (Option.some.inj hq.1).symm.trans hk
  have hnum : q.num.toNat = k := by rw [hqk, Rat.num_natCast, toNat_natCast]
  rw [hnum, ← hk, toDouble_toDouble]

/-! ## Printing -/

/-- The number of the fewest digits before its zeros that rounds to `x`, trying `zeros` zeros and fewer. Where two
do, it is the nearer one. -/
def shortestFrom (x : ℕ) : ℕ → ℕ
  | 0 => x
  | zeros + 1 =>
    let unit := 10 ^ (zeros + 1)
    let below := x / unit * unit
    let above := below + unit
    if toDouble below = x ∧ (x - below ≤ above - x ∨ toDouble above ≠ x) then below
    else if toDouble above = x then above
    else shortestFrom x zeros

/-- The digits that `String(x)` prints, with the zeros. -/
def shortest (x : ℕ) : ℕ := shortestFrom x (JsText.decimal x).length

/-- Numbers are printed with an exponent from here on. -/
@[irreducible] def exponentFrom : ℕ := 10 ^ 21

/-- `String(x)`, from `exponentFrom` on. -/
def exponentText (x : ℕ) : List Char :=
  let digits := JsText.decimal (shortest x)
  let fraction := (digits.tail.reverse.dropWhile (· = '0')).reverse
  digits.head?.toList ++ (if fraction = [] then [] else '.' :: fraction) ++ "e+".toList
    ++ JsText.decimal (digits.length - 1)

/-- `String(x)`. -/
@[irreducible] def wholeText (x : ℕ) : List Char :=
  if x < exponentFrom then JsText.decimal (shortest x) else exponentText x

/-- `String(number)`. -/
def numberText : Option ℕ → List Char
  | none => "Infinity".toList
  | some x => wholeText x

theorem numberText_some (x : ℕ) : numberText (some x) = wholeText x := rfl

example : numberText (some (10 ^ 23)) = "1e+23".toList := by decide +kernel

theorem toDouble_shortestFrom (hx : toDouble x = x) (zeros : ℕ) : toDouble (shortestFrom x zeros) = x := by
  induction zeros with
  | zero => exact hx
  | succ zeros ih =>
    rw [shortestFrom]
    split_ifs with hbelow habove
    · exact hbelow.1
    · exact habove
    · exact ih

theorem exponentFrom_eq : exponentFrom = 10 ^ 21 := by
  rw [exponentFrom]

/-- What is printed without an exponent is read back as the same number. -/
theorem number_numberText (hx : toDouble x = x) (hlt : x < exponentFrom) :
    number (numberText (some x)) = some x := by
  have hdigits : ∀ c ∈ JsText.decimal (shortest x), JsText.isDigit c = true :=
    fun c hc ↦ isDigit_of_mem_decimal hc
  have hne : JsText.decimal (shortest x) ≠ [] := toDigits_ne_nil
  have hvalue : Nat.ofDigitChars 10 (JsText.decimal (shortest x)) 0 = shortest x :=
    ofDigitChars_ten_toDigits
  have hfinite : |(x : ℚ)| < 2 ^ 1024 := by
    rw [abs_cast]
    calc (x : ℚ) < (10 ^ 21 : ℕ) := by rwa [Nat.cast_lt, ← exponentFrom_eq]
      _ < 2 ^ 70 := by norm_num
      _ ≤ 2 ^ 1024 := pow_le_pow_right₀ (by norm_num) (by norm_num)
  rw [numberText_some, wholeText, if_pos hlt, number, ofText?_digits hne hdigits, hvalue,
    shortest, toDouble_shortestFrom hx, filter_some, if_pos (decide_eq_true hfinite)]
  simp

theorem numberText_of_lt (hlt : x < exponentFrom) : numberText (some x) = JsText.decimal (shortest x) := by
  rw [numberText_some, wholeText, if_pos hlt]

theorem dropWhile_numberText (h : ∀ x, n = some x → ¬ x < exponentFrom) :
    ∃ c rest, (numberText n).dropWhile JsText.isDigit = c :: rest ∧ JsText.isDigit c = false
      ∧ JsText.isSpace c = false := by
  cases n with
  | none => exact ⟨'I', "nfinity".toList, by decide, by decide, by decide⟩
  | some x =>
    rw [numberText_some, wholeText, if_neg (h x rfl), exponentText]
    have hhead : ∀ c ∈ (JsText.decimal (shortest x)).head?.toList, JsText.isDigit c = true :=
      fun c hc ↦ isDigit_of_mem_decimal (mem_of_mem_head? (mem_toList.mp hc))
    rw [append_assoc, append_assoc, dropWhile_append_of_pos hhead]
    split
    · exact ⟨'e', _, rfl, by decide, by decide⟩
    · exact ⟨'.', _, rfl, by decide, by decide⟩

theorem isNumeral_of_mem_numberText (h : c ∈ numberText n) :
    JsText.isDigit c = true ∨ c ∈ "Infinity.e+".toList := by
  cases n with
  | none => exact .inr (mem_append_left ".e+".toList h)
  | some x =>
    rw [numberText_some, wholeText] at h
    split at h
    · exact .inl (isDigit_of_mem_decimal h)
    · rw [exponentText] at h
      simp only [mem_append] at h
      obtain ((h | h) | h) | h := h
      · exact .inl (isDigit_of_mem_decimal (mem_of_mem_head? (mem_toList.mp h)))
      · split at h
        · cases h
        · obtain rfl | h := mem_cons.mp h
          · exact .inr (by decide)
          · have hmem := (dropWhile_suffix _).subset (mem_reverse.mp h)
            exact .inl (isDigit_of_mem_decimal (mem_of_mem_tail (mem_reverse.mp hmem)))
      · exact .inr (mem_append_right "Infinity.".toList h)
      · exact .inl (isDigit_of_mem_decimal h)

/-! ## Different numbers are printed differently -/

/-- What stands before the zeros at the end of a text, and the length of the text, determine it. -/
theorem eq_of_rdropWhile_eq {l l' : List Char} (hlength : l.length = l'.length)
    (h : l.rdropWhile (· = '0') = l'.rdropWhile (· = '0')) : l = l' := by
  have hsplit : ∀ l : List Char, ∃ zeros, l = l.rdropWhile (· = '0') ++ List.replicate zeros '0' := by
    intro l
    refine ⟨(l.reverse.takeWhile (· = '0')).length, ?_⟩
    have hzeros : ∀ c ∈ l.reverse.takeWhile (· = '0'), c = '0' := fun c hc ↦ by simpa using mem_takeWhile_imp hc
    rw [← reverse_inj, reverse_append, reverse_replicate, List.rdropWhile, reverse_reverse,
      ← eq_replicate_of_mem hzeros, takeWhile_append_dropWhile]
  obtain ⟨zeros, hl⟩ := hsplit l
  obtain ⟨zeros', hl'⟩ := hsplit l'
  rw [hl, hl', length_append, length_append, length_replicate, length_replicate, h] at hlength
  rw [hl, hl', h, Nat.add_left_cancel hlength]

theorem decimal_inj {m n : ℕ} (h : JsText.decimal m = JsText.decimal n) : m = n := by
  have hread := congrArg JsText.decimal? h
  rwa [decimal?_decimal, decimal?_decimal, Option.some.injEq] at hread

theorem not_mem_decimal (hc : JsText.isDigit c = false) (n : ℕ) : c ∉ JsText.decimal n := by
  intro hmem
  rw [isDigit_of_mem_decimal hmem] at hc
  cases hc

def fractionText (digits : List Char) : List Char :=
  if digits.rdropWhile (· = '0') = [] then [] else '.' :: digits.rdropWhile (· = '0')

theorem not_mem_fractionText (h : 'e' ∉ digits) : 'e' ∉ fractionText digits := by
  rw [fractionText]
  split_ifs
  · exact not_mem_nil
  · rw [mem_cons, not_or]
    exact ⟨by decide, fun hmem ↦ h ((List.rdropWhile_prefix _ _).subset hmem)⟩

theorem rdropWhile_of_fractionText {l l' : List Char} (h : fractionText l = fractionText l') :
    l.rdropWhile (· = '0') = l'.rdropWhile (· = '0') := by
  rw [fractionText, fractionText] at h
  split_ifs at h with hl hl' hl'
  · rw [hl, hl']
  · exact (cons.inj h).2

theorem exponentText_eq (h : JsText.decimal (shortest x) = c :: digits) :
    exponentText x = c :: (fractionText digits ++ 'e' :: '+' :: JsText.decimal digits.length) := by
  simp [exponentText, h, fractionText, List.rdropWhile]

theorem shortest_of_exponentText {x y : ℕ} (h : exponentText x = exponentText y) : shortest x = shortest y := by
  obtain ⟨c, digits, hx⟩ := exists_cons_of_ne_nil (l := JsText.decimal (shortest x)) toDigits_ne_nil
  obtain ⟨c', digits', hy⟩ := exists_cons_of_ne_nil (l := JsText.decimal (shortest y)) toDigits_ne_nil
  have hnot : 'e' ∉ digits := fun hmem ↦
    not_mem_decimal (by decide) (shortest x) (hx ▸ mem_cons_of_mem c hmem)
  have hnot' : 'e' ∉ '+' :: JsText.decimal digits.length := fun hmem ↦
    not_mem_decimal (by decide) digits.length ((mem_cons.mp hmem).resolve_left (by decide))
  rw [exponentText_eq hx, exponentText_eq hy] at h
  obtain ⟨hc, h⟩ := cons.inj h
  -- the exponent tells how many digits there are
  obtain ⟨hfraction, -, hexponent⟩ :=
    (append_cons_inj_of_notMem (not_mem_fractionText hnot) hnot').mp h
  have hdigits : digits = digits' :=
    eq_of_rdropWhile_eq (decimal_inj (cons.inj hexponent).2) (rdropWhile_of_fractionText hfraction)
  exact decimal_inj (by rw [hx, hy, hc, hdigits])

theorem shortest_inj {x y : ℕ} (hx : toDouble x = x) (hy : toDouble y = y) (h : shortest x = shortest y) : x = y := by
  have hread : (x : ℚ) = y := by
    rw [← toDouble_shortestFrom hx (JsText.decimal x).length, ← toDouble_shortestFrom hy (JsText.decimal y).length]
    exact congrArg (fun n : ℕ ↦ toDouble n) h
  exact_mod_cast hread

theorem lt_of_numberText_eq (hlt : x < exponentFrom) (h : numberText (some x) = numberText n) :
    ∃ y, n = some y ∧ y < exponentFrom := by
  by_contra hexponent
  push Not at hexponent
  obtain ⟨c, rest, hrest, -⟩ := dropWhile_numberText (n := n) fun y hy ↦ not_lt.mpr (hexponent y hy)
  rw [← h, numberText_of_lt hlt,
    dropWhile_eq_nil_iff.mpr fun c hc ↦ isDigit_of_mem_decimal hc] at hrest
  cases hrest

theorem numberText_ne_infinity (x : ℕ) : numberText (some x) ≠ numberText none := by
  intro h
  have hlt : ¬ x < exponentFrom := fun hlt ↦ by
    obtain ⟨y, hy, -⟩ := lt_of_numberText_eq hlt h
    cases hy
  obtain ⟨c, digits, hdigits⟩ := exists_cons_of_ne_nil (l := JsText.decimal (shortest x)) toDigits_ne_nil
  rw [numberText_some, wholeText, if_neg hlt, exponentText_eq hdigits] at h
  obtain rfl : c = 'I' := (cons.inj h).1
  exact not_mem_decimal (by decide) (shortest x) (hdigits ▸ mem_cons_self)

theorem shortest_of_numberText {x y : ℕ} (h : numberText (some x) = numberText (some y)) : shortest x = shortest y := by
  by_cases hlt : x < exponentFrom
  · obtain ⟨_, hy, hlt'⟩ := lt_of_numberText_eq hlt h
    cases hy
    rw [numberText_of_lt hlt, numberText_of_lt hlt'] at h
    exact decimal_inj h
  · have hlt' : ¬ y < exponentFrom := fun hlt' ↦ by
      obtain ⟨_, hx, hlt''⟩ := lt_of_numberText_eq hlt' h.symm
      cases hx
      exact hlt hlt''
    rw [numberText_some, numberText_some, wholeText, wholeText, if_neg hlt, if_neg hlt'] at h
    exact shortest_of_exponentText h

theorem numberText_inj {m n : Option ℕ} (hm : ∀ x, m = some x → toDouble x = x)
    (hn : ∀ y, n = some y → toDouble y = y) (h : numberText m = numberText n) : m = n := by
  rcases m with _ | x <;> rcases n with _ | y
  · rfl
  · exact absurd h.symm (numberText_ne_infinity y)
  · exact absurd h (numberText_ne_infinity x)
  · rw [shortest_inj (hm x rfl) (hn y rfl) (shortest_of_numberText h)]

end JsNumber
