import Amicode.Foundation.JsText

/-!
# Engine stream positions

Every frame of an engine's global event stream is stamped `<epoch>:<seq>`: a random token of the
engine process and the number of the event. The engine formats and parses these ids
(`bus/global-replay.ts`), and the fan-in relay parses the same shape with the same expression
(`sse_fanin_aggregator.ts`), so the codec is shared.
-/

namespace Amicode

/-- A position of an engine's event stream. -/
structure EngineId where
  /-- The process token. -/
  epoch : String
  /-- The sequence number within the epoch. -/
  seq : ℕ
deriving DecidableEq

/-- The characters of an epoch token: `[A-Za-z0-9_-]`. -/
def isEpochChar (c : Char) : Bool := c.isAlphanum || c == '_' || c == '-'

/-- An epoch as the engine draws one: `randomBytes(6).toString("base64url")`. -/
def IsEpoch (epoch : String) : Prop := epoch ≠ "" ∧ ∀ c ∈ epoch.toList, isEpochChar c = true

instance (epoch : String) : Decidable (IsEpoch epoch) :=
  decidable_of_iff (epoch ≠ "" ∧ epoch.toList.all isEpochChar = true)
    (by rw [List.all_eq_true]; exact Iff.rfl)

/-- `/^([A-Za-z0-9_-]+):(\d+)$/` on the trimmed text. -/
def EngineId.parse (raw : String) : Option EngineId :=
  let text := JsText.trim raw.toList
  let epoch := text.takeWhile isEpochChar
  match text.dropWhile isEpochChar with
  | ':' :: digits =>
    if epoch = [] then none
    else (JsText.decimal? digits).map fun seq ↦ ⟨String.ofList epoch, seq⟩
  | _ => none

def formatID (epoch : String) (seq : ℕ) : String :=
  String.ofList (epoch.toList ++ ':' :: JsText.decimal seq)

/-! ## The round trip -/

private theorem isSpace_of_isEpochChar {c : Char} (h : isEpochChar c = true) :
    JsText.isSpace c = false := by
  have hn : c.val.toNat = c.toNat := rfl
  have hrange : (48 ≤ c.toNat ∧ c.toNat ≤ 122) ∨ c.toNat = 45 := by
    delta isEpochChar Char.isAlphanum Char.isAlpha Char.isUpper Char.isLower Char.isDigit at h
    simp only [Bool.or_eq_true, Bool.and_eq_true, decide_eq_true_eq, beq_iff_eq,
      UInt32.le_iff_toNat_le, hn] at h
    rcases h with (((⟨h₁, h₂⟩ | ⟨h₁, h₂⟩) | ⟨h₁, h₂⟩) | rfl) | rfl
    · exact Or.inl ⟨le_trans (by decide) h₁, le_trans h₂ (by decide)⟩
    · exact Or.inl ⟨le_trans (by decide) h₁, le_trans h₂ (by decide)⟩
    · exact Or.inl ⟨h₁, le_trans h₂ (by decide)⟩
    · exact Or.inl (by decide)
    · exact Or.inr (by decide)
  simp only [JsText.isSpace, Bool.or_eq_false_iff, Bool.and_eq_false_iff, decide_eq_false_iff_not,
    beq_eq_false_iff_ne]
  omega

private theorem isSpace_of_mem_decimal {n : ℕ} {c : Char} (h : c ∈ JsText.decimal n) :
    JsText.isSpace c = false := by
  have hd : c.isDigit = true := Nat.isDigit_of_mem_toDigits (by omega) (by omega) h
  exact isSpace_of_isEpochChar (by simp [isEpochChar, Char.isAlphanum, hd])

theorem parse_formatID {epoch : String} (h : IsEpoch epoch) (seq : ℕ) :
    EngineId.parse (formatID epoch seq) = some ⟨epoch, seq⟩ := by
  obtain ⟨hne, hchars⟩ := h
  have hcolon : isEpochChar ':' = false := by decide
  have htrim : JsText.trim (epoch.toList ++ ':' :: JsText.decimal seq)
      = epoch.toList ++ ':' :: JsText.decimal seq := by
    refine JsText.trim_eq_self fun c hc ↦ ?_
    rw [List.mem_append, List.mem_cons] at hc
    rcases hc with hc | rfl | hc
    · exact isSpace_of_isEpochChar (hchars c hc)
    · decide
    · exact isSpace_of_mem_decimal hc
  have htake : (epoch.toList ++ ':' :: JsText.decimal seq).takeWhile isEpochChar
      = epoch.toList := by
    rw [List.takeWhile_append_of_pos hchars, List.takeWhile_cons_of_neg (by simp [hcolon]),
      List.append_nil]
  have hdrop : (epoch.toList ++ ':' :: JsText.decimal seq).dropWhile isEpochChar
      = ':' :: JsText.decimal seq := by
    rw [List.dropWhile_append_of_pos hchars, List.dropWhile_cons_of_neg (by simp [hcolon])]
  have hlist : epoch.toList ≠ [] := by
    intro hnil
    exact hne (by rw [← String.ofList_toList (s := epoch), hnil])
  simp only [EngineId.parse, formatID, String.toList_ofList, htrim, htake, hdrop, hlist, if_false,
    JsText.decimal?_decimal, Option.map_some, String.ofList_toList]

end Amicode
