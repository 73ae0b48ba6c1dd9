import Amicode.Foundation.JsText
import Mathlib.Tactic.NormNum

/-!
# Texts as bytes

The UTF-8 bytes of a text are decoded to the text (`decodeUtf8_encodeUtf8`), and so are those of a text in front
of any other bytes (`decodeUtf8_append`): where a read ends at the end of a character, what is decoded does not
depend on what follows.
-/

namespace JsText

/-- `Buffer.from(text, "utf8")`. -/
def encodeUtf8 (text : List Char) : List UInt8 := text.flatMap String.utf8EncodeChar

theorem encodeUtf8_append (a b : List Char) : encodeUtf8 (a ++ b) = encodeUtf8 a ++ encodeUtf8 b :=
  List.flatMap_append

theorem decodeUtf8From_cons (s : Utf8State) (b : UInt8) (rest : List UInt8) :
    decodeUtf8From s (b :: rest) = (utf8Step s b.toNat).2 ++ decodeUtf8From (utf8Step s b.toNat).1 rest := rfl

theorem utf8Step_idle (b : ℕ) : utf8Step .idle b = utf8First b := rfl

/-- A byte that continues a character and does not end it. -/
theorem utf8Step_continue {s : Utf8State} {b : ℕ} (hneeded : 2 ≤ s.needed) (hlower : s.lower ≤ b)
    (hupper : b ≤ s.upper) : utf8Step s b = (⟨s.needed - 1, s.codePoint * 64 + b % 64, 0x80, 0xBF⟩, []) := by
  rw [utf8Step, if_neg (by omega), if_neg (by omega), if_neg (by omega)]

theorem utf8Step_last {s : Utf8State} {b : ℕ} (hneeded : s.needed = 1) (hlower : s.lower ≤ b)
    (hupper : b ≤ s.upper) : utf8Step s b = (.idle, [Char.ofNat (s.codePoint * 64 + b % 64)]) := by
  rw [utf8Step, if_neg (by omega), if_neg (by omega), if_pos hneeded]

theorem utf8First_three {b : ℕ} (hlow : 0xE0 ≤ b) (hhigh : b ≤ 0xEF) :
    utf8First b = (⟨2, b % 16, if b = 0xE0 then 0xA0 else 0x80, if b = 0xED then 0x9F else 0xBF⟩, []) := by
  rw [utf8First, if_neg (by omega), if_neg (by omega)]
  split_ifs <;> first | omega | rfl

theorem utf8First_four {b : ℕ} (hlow : 0xF0 ≤ b) (hhigh : b ≤ 0xF4) :
    utf8First b = (⟨3, b % 8, if b = 0xF0 then 0x90 else 0x80, if b = 0xF4 then 0x8F else 0xBF⟩, []) := by
  rw [utf8First, if_neg (by omega), if_neg (by omega)]
  split_ifs <;> first | omega | rfl

theorem toNat_ofNat {n : ℕ} (h : n < 256) : (UInt8.ofNat n).toNat = n := by
  rw [UInt8.toNat_ofNat']
  omega

section

variable {v : ℕ} (rest : List UInt8)

theorem decode_one (h : v ≤ 0x7F) :
    decodeUtf8From .idle (UInt8.ofNat v :: rest) = Char.ofNat v :: decodeUtf8From .idle rest := by
  have hfirst : utf8First v = (.idle, [Char.ofNat v]) := if_pos h
  rw [decodeUtf8From_cons, toNat_ofNat (by omega), utf8Step_idle, hfirst]
  rfl

theorem utf8Step_low : utf8Step ⟨1, v / 64, 0x80, 0xBF⟩ (v % 0x40 + 0x80) = (.idle, [Char.ofNat v]) := by
  rw [utf8Step_last rfl (by dsimp only; omega) (by dsimp only; omega)]
  congr 3
  dsimp only
  omega

theorem decode_two (hlow : 0x7F < v) (hhigh : v ≤ 0x7FF) :
    decodeUtf8From .idle (UInt8.ofNat (v / 64 % 0x20 + 0xC0) :: UInt8.ofNat (v % 0x40 + 0x80) :: rest)
      = Char.ofNat v :: decodeUtf8From .idle rest := by
  have hfirst : utf8First (v / 64 % 0x20 + 0xC0) = (⟨1, v / 64, 0x80, 0xBF⟩, []) := by
    rw [utf8First, if_neg (by omega), if_pos (by omega)]
    congr 2
    omega
  rw [decodeUtf8From_cons, toNat_ofNat (by omega), utf8Step_idle, hfirst, decodeUtf8From_cons,
    toNat_ofNat (by omega), utf8Step_low]
  rfl

theorem decode_three (hlow : 0x7FF < v) (hhigh : v ≤ 0xFFFF) (hvalid : v < 0xD800 ∨ 0xDFFF < v) :
    decodeUtf8From .idle (UInt8.ofNat (v / 4096 % 0x10 + 0xE0) :: UInt8.ofNat (v / 64 % 0x40 + 0x80)
        :: UInt8.ofNat (v % 0x40 + 0x80) :: rest)
      = Char.ofNat v :: decodeUtf8From .idle rest := by
  have hfirst := utf8First_three (b := v / 4096 % 0x10 + 0xE0) (by omega) (by omega)
  -- the bounds of the second byte leave out overlong forms and surrogates
  have hnext : utf8Step (utf8First (v / 4096 % 0x10 + 0xE0)).1 (v / 64 % 0x40 + 0x80)
      = (⟨1, v / 64, 0x80, 0xBF⟩, []) := by
    rw [hfirst, utf8Step_continue (le_refl 2)]
    · congr 2
      dsimp only
      omega
    · dsimp only
      split_ifs <;> omega
    · dsimp only
      split_ifs <;> omega
  rw [decodeUtf8From_cons, toNat_ofNat (by omega), utf8Step_idle, decodeUtf8From_cons, toNat_ofNat (by omega),
    hnext, hfirst, decodeUtf8From_cons, toNat_ofNat (by omega), utf8Step_low]
  rfl

theorem decode_four (hlow : 0xFFFF < v) (hhigh : v < 0x110000) :
    decodeUtf8From .idle (UInt8.ofNat (v / 262144 % 0x08 + 0xF0) :: UInt8.ofNat (v / 4096 % 0x40 + 0x80)
        :: UInt8.ofNat (v / 64 % 0x40 + 0x80) :: UInt8.ofNat (v % 0x40 + 0x80) :: rest)
      = Char.ofNat v :: decodeUtf8From .idle rest := by
  have hfirst := utf8First_four (b := v / 262144 % 0x08 + 0xF0) (by omega) (by omega)
  have hnext : utf8Step (utf8First (v / 262144 % 0x08 + 0xF0)).1 (v / 4096 % 0x40 + 0x80)
      = (⟨2, v / 4096, 0x80, 0xBF⟩, []) := by
    rw [hfirst, utf8Step_continue (Nat.le_succ 2)]
    · congr 2
      dsimp only
      omega
    · dsimp only
      split_ifs <;> omega
    · dsimp only
      split_ifs <;> omega
  have hnext' : utf8Step ⟨2, v / 4096, 0x80, 0xBF⟩ (v / 64 % 0x40 + 0x80) = (⟨1, v / 64, 0x80, 0xBF⟩, []) := by
    rw [utf8Step_continue (le_refl 2) (by dsimp only; omega) (by dsimp only; omega)]
    congr 2
    dsimp only
    omega
  rw [decodeUtf8From_cons, toNat_ofNat (by omega), utf8Step_idle, decodeUtf8From_cons, toNat_ofNat (by omega),
    hnext, hfirst, decodeUtf8From_cons, toNat_ofNat (by omega), hnext', decodeUtf8From_cons,
    toNat_ofNat (by omega), utf8Step_low]
  rfl

end

/-- The bytes of a character are decoded to it, whatever follows. -/
theorem decodeUtf8From_encodeChar (c : Char) (rest : List UInt8) :
    decodeUtf8From .idle (String.utf8EncodeChar c ++ rest) = c :: decodeUtf8From .idle rest := by
  have hvalid : c.toNat < 0xD800 ∨ 0xDFFF < c.toNat ∧ c.toNat < 0x110000 := c.valid
  have hchar : Char.ofNat c.toNat = c := Char.ofNat_toNat c
  have hval : c.val.toNat = c.toNat := rfl
  unfold String.utf8EncodeChar
  dsimp only
  rw [hval]
  split_ifs with hone htwo hthree
  · exact (decode_one rest hone).trans (by rw [hchar])
  · exact (decode_two rest (by omega) htwo).trans (by rw [hchar])
  · exact (decode_three rest (by omega) hthree (by omega)).trans (by rw [hchar])
  · exact (decode_four rest (by omega) (by omega)).trans (by rw [hchar])

theorem decodeUtf8_append (text : List Char) (rest : List UInt8) :
    decodeUtf8 (encodeUtf8 text ++ rest) = text ++ decodeUtf8 rest := by
  induction text with
  | nil => rfl
  | cons c text ih =>
    have hcons : encodeUtf8 (c :: text) ++ rest = String.utf8EncodeChar c ++ (encodeUtf8 text ++ rest) := by
      rw [encodeUtf8, List.flatMap_cons, List.append_assoc]
      rfl
    rw [hcons, decodeUtf8, decodeUtf8From_encodeChar]
    exact congrArg (c :: ·) ih

@[simp] theorem decodeUtf8_encodeUtf8 (text : List Char) : decodeUtf8 (encodeUtf8 text) = text := by
  have h := decodeUtf8_append text []
  rwa [List.append_nil, show decodeUtf8 [] = [] from rfl, List.append_nil] at h

end JsText
