import Amicode.Foundation.Framing
import Amicode.Foundation.JsText

/-!
# The frame splitter

The readers of an upstream event stream cut its decoded text into whole frames (`sse_frame_splitter.ts`). A frame
ends at a blank line, with either line ending, and is relayed as it came. A text is its UTF-16 code units.
-/

open List

namespace Amicode.Stream

open Framing

def LF_CODE : UInt16 := 10

def CR_CODE : UInt16 := 13

/-- The pieces of the partial frame and its last two code units. -/
abbrev SseFrameSplitter := Scanner UInt16

namespace SseFrameSplitter

/-- `push`: feed one decoded chunk; the frames it completed, in order. -/
def push (splitter : SseFrameSplitter) (chunk : List UInt16) : SseFrameSplitter × List (List UInt16) :=
  Scanner.push LF_CODE CR_CODE splitter chunk

def pushAll (splitter : SseFrameSplitter) (chunks : List (List UInt16)) : SseFrameSplitter × List (List UInt16) :=
  Scanner.pushAll LF_CODE CR_CODE splitter chunks

/-- What the splitter finds in a text does not depend on the chunks the text comes in: it is the one way to cut the
text into frames that end at their first blank line, and a rest without a blank line. -/
theorem cut_iff (chunks : List (List UInt16)) :
    (pushAll .new chunks).2 = (push .new chunks.flatten).2 ∧
      ∀ frames rest, Cut LF_CODE CR_CODE chunks.flatten frames rest ↔
        frames = (pushAll .new chunks).2 ∧ rest = (pushAll .new chunks).1.buffer := by
  have hcut : Cut LF_CODE CR_CODE chunks.flatten (pushAll .new chunks).2 (pushAll .new chunks).1.buffer :=
    Scanner.cut_pushAll LF_CODE CR_CODE chunks
  constructor
  · have hwhole := Scanner.cut_pushAll LF_CODE CR_CODE [chunks.flatten]
    rw [List.flatten_singleton] at hwhole
    exact (hcut.unique hwhole).1
  · intro frames rest
    constructor
    · exact fun h ↦ h.unique hcut
    · rintro ⟨rfl, rfl⟩
      exact hcut

/-- A delimiter straddles two chunks, and the line feed behind it opens the next frame. -/
example : (pushAll .new [[97, 10, 13], [10, 10], [98]]).2 = [[97, 10, 13, 10]] ∧
    (pushAll .new [[97, 10, 13], [10, 10], [98]]).1.buffer = [10, 98] := by
  decide

end SseFrameSplitter

end Amicode.Stream

/-!
# Frames as text

The splitter reads UTF-16 code units and the relay rewrites text. A line feed or a carriage return is one code
unit and no part of another character, so that the code units of a text are a frame if the text is one
(`isFrame_utf16_iff`), and every frame in the code units of a text is that of a part of the text.
-/

namespace Amicode.Stream

open Framing

/-- The code units of a text. -/
def utf16 (text : List Char) : List UInt16 := (text.flatMap JsText.units).map UInt16.ofNat

/-- The character is one code unit, which no other character has. -/
def Alone (c : Char) (u : UInt16) : Prop :=
  utf16 [c] = [u] ∧ ∀ d, u ∈ utf16 [d] → d = c

theorem utf16_cons (c : Char) (text : List Char) : utf16 (c :: text) = utf16 [c] ++ utf16 text := by
  simp [utf16]

theorem utf16_append (a b : List Char) : utf16 (a ++ b) = utf16 a ++ utf16 b := by
  simp [utf16]

theorem utf16_ne_nil (c : Char) : utf16 [c] ≠ [] := by
  unfold utf16 JsText.units
  simp only [flatMap_cons, flatMap_nil, append_nil]
  split <;> simp

variable {text : List Char}

theorem eq_nil_of_utf16 (h : utf16 text = []) : text = [] := by
  rcases text with _ | ⟨c, text⟩
  · rfl
  · rw [utf16_cons, append_eq_nil_iff] at h
    exact absurd h.1 (utf16_ne_nil c)

/-- A code unit below the surrogates is a character of its own. -/
theorem alone_of_lt {c : Char} (h : c.toNat < 0x80) : Alone c (UInt16.ofNat c.toNat) := by
  have hunits : JsText.units c = [c.toNat] := if_pos (by omega)
  refine ⟨by rw [utf16, flatMap_singleton, hunits]; rfl, fun d hd ↦ ?_⟩
  rw [utf16, flatMap_singleton, List.mem_map] at hd
  obtain ⟨n, hn, heq⟩ := hd
  have hmod : n % 65536 = c.toNat := by
    have := congrArg UInt16.toNat heq
    rw [UInt16.toNat_ofNat', UInt16.toNat_ofNat'] at this
    omega
  have hvalid : d.toNat < 0x110000 := by
    rcases d.valid with hd | hd
    · exact hd.trans (by decide)
    · exact hd.2
  unfold JsText.units at hn
  dsimp only at hn
  split at hn
  · rw [mem_singleton] at hn
    exact Char.toNat_inj.mp (by omega)
  · rw [mem_cons, mem_singleton] at hn
    omega

theorem alone_lf : Alone '\n' LF_CODE := alone_of_lt (by decide)

theorem alone_cr : Alone '\r' CR_CODE := alone_of_lt (by decide)

theorem Alone.exists_of_utf16 {c : Char} {u : UInt16} (h : Alone c u) {a b : List UInt16}
    (htext : utf16 text = a ++ u :: b) : ∃ x y, text = x ++ c :: y ∧ utf16 x = a ∧ utf16 y = b := by
  induction text generalizing a with
  | nil => exact absurd htext (by simp [utf16])
  | cons d text ih =>
    rw [utf16_cons] at htext
    by_cases hd : d = c
    · subst hd
      rw [h.1, singleton_append] at htext
      rcases a with _ | ⟨v, a⟩
      · exact ⟨[], text, rfl, rfl, (List.cons.inj htext).2⟩
      · obtain ⟨rfl, htail⟩ := List.cons.inj htext
        obtain ⟨x, y, rfl, rfl, rfl⟩ := ih htail
        exact ⟨d :: x, y, rfl, by rw [utf16_cons, h.1]; rfl, rfl⟩
    · -- the units of the first character are all before the unit
      rcases append_eq_append_iff.mp htext with ⟨a', rfl, htail⟩ | ⟨b', hunits, -⟩
      · obtain ⟨x, y, rfl, rfl, rfl⟩ := ih htail
        exact ⟨d :: x, y, rfl, utf16_cons d x, rfl⟩
      · rcases b' with _ | ⟨v, b'⟩
        · rw [append_nil] at hunits
          subst hunits
          obtain ⟨x, y, rfl, hx, rfl⟩ := ih (a := []) (append_cancel_left (by rw [htext, nil_append]))
          refine ⟨d :: x, y, rfl, ?_, rfl⟩
          rw [utf16_cons, hx, append_nil]
        · have hv : v = u := by
            rw [hunits, append_assoc, append_cancel_left_eq] at htext
            exact (List.cons.inj htext).1
          exact absurd (h.2 d (by rw [hunits, hv]; simp)) hd

theorem endsBlank_utf16_iff :
    EndsBlank LF_CODE CR_CODE (utf16 text) ↔ EndsBlank '\n' '\r' text := by
  constructor
  · rintro (⟨a, ha⟩ | ⟨a, ha⟩)
    · obtain ⟨x, y, rfl, rfl, hy⟩ := alone_lf.exists_of_utf16 ha.symm
      obtain ⟨x', y', rfl, hx', hy'⟩ := alone_lf.exists_of_utf16 (a := []) hy
      rw [eq_nil_of_utf16 hx', eq_nil_of_utf16 hy']
      exact .inl ⟨x, rfl⟩
    · obtain ⟨x, y, rfl, rfl, hy⟩ := alone_lf.exists_of_utf16 ha.symm
      obtain ⟨x', y', rfl, hx', hy'⟩ := alone_cr.exists_of_utf16 (a := []) hy
      obtain ⟨x'', y'', rfl, hx'', hy''⟩ := alone_lf.exists_of_utf16 (a := []) hy'
      rw [eq_nil_of_utf16 hx', eq_nil_of_utf16 hx'', eq_nil_of_utf16 hy'']
      exact .inr ⟨x, rfl⟩
  · rintro (⟨x, rfl⟩ | ⟨x, rfl⟩)
    · exact .inl ⟨utf16 x, by rw [utf16_append]; rfl⟩
    · exact .inr ⟨utf16 x, by rw [utf16_append]; rfl⟩

theorem exists_prefix_of_endsBlank {p : List UInt16} (hp : p <+: utf16 text)
    (hends : EndsBlank LF_CODE CR_CODE p) : ∃ x, x <+: text ∧ utf16 x = p := by
  obtain ⟨rest, hrest⟩ := hp
  obtain ⟨a, rfl⟩ : ∃ a, p = a ++ [LF_CODE] := by
    rcases hends with ⟨a, rfl⟩ | ⟨a, rfl⟩
    · exact ⟨a ++ [LF_CODE], by simp⟩
    · exact ⟨a ++ [LF_CODE, CR_CODE], by simp⟩
  rw [append_assoc, singleton_append] at hrest
  obtain ⟨x, y, rfl, rfl, rfl⟩ := alone_lf.exists_of_utf16 hrest.symm
  exact ⟨x ++ ['\n'], ⟨y, by simp⟩, utf16_append x _⟩

theorem isFrame_utf16_iff :
    IsFrame LF_CODE CR_CODE (utf16 text) ↔ IsFrame '\n' '\r' text := by
  constructor
  · refine fun h ↦ ⟨endsBlank_utf16_iff.mp h.ends, fun p hp hne hends ↦ ?_⟩
    obtain ⟨rest, rfl⟩ := hp
    refine h.first (utf16 p) ⟨utf16 rest, (utf16_append p rest).symm⟩ (fun heq ↦ hne ?_)
      (endsBlank_utf16_iff.mpr hends)
    rw [utf16_append, self_eq_append_right] at heq
    rw [eq_nil_of_utf16 heq, append_nil]
  · refine fun h ↦ ⟨endsBlank_utf16_iff.mpr h.ends, fun p hp hne hends ↦ ?_⟩
    obtain ⟨x, hx, rfl⟩ := exists_prefix_of_endsBlank hp hends
    exact h.first x hx (fun heq ↦ hne (by rw [heq])) (endsBlank_utf16_iff.mp hends)

theorem pushAll_eq_singleton_iff {chunks : List (List UInt16)} (h : chunks.flatten = utf16 text) :
    ((SseFrameSplitter.pushAll .new chunks).2 = [utf16 text] ∧
      (SseFrameSplitter.pushAll .new chunks).1.buffer = []) ↔ IsFrame '\n' '\r' text := by
  have hcut := Scanner.cut_pushAll LF_CODE CR_CODE chunks
  rw [← isFrame_utf16_iff]
  constructor
  · rintro ⟨hframes, -⟩
    exact hcut.frames _ (by rw [show (Scanner.pushAll _ _ _ _).2 = _ from hframes]; exact mem_cons_self)
  · intro hframe
    have hwhole : Cut LF_CODE CR_CODE chunks.flatten [utf16 text] [] := by
      refine ⟨by rw [h]; simp, fun frame hmem ↦ ?_, fun p hp ↦ ?_⟩
      · rw [mem_singleton.mp hmem]
        exact hframe
      · rw [prefix_nil.mp hp]
        exact not_endsBlank_nil
    exact hcut.unique hwhole

end Amicode.Stream
