import Amicode.Fanin.Frame
import Amicode.Foundation.Lines
import Amicode.Stream.FrameText
import Mathlib.Data.List.Flatten

/-!
# Rewriting the id of a frame

`rewriteFrameId` splits a frame at the line end it guesses (CRLF if there is any), drops the pieces that begin with
`id:`, puts the new id before the empty pieces at the end, and joins the pieces again. The splitter takes either
line end, also mixed in one frame.

The lines of the result are those of the pieces that are kept, with the id line before the last `k` of them, which
are empty. So the result is one frame if `k` is two (`isFrame_rewritten_iff`), and its other lines are those of the
frame if no piece that is dropped has a line besides its ids. `Rewritable` says the same of the frame as it came
(`preserved_iff`).
-/

namespace Amicode

open JsText Framing List

/-- A line, or a piece, that begins with `id:`. -/
def isIdLine (line : List Char) : Bool := "id:".toList.isPrefixOf line

def pieces (frame : String) : List (List Char) := splitOn (eolOf frame) frame.toList

def otherLines (frame : String) : List (List Char) := (splitLines frame.toList).filter fun line ↦ !isIdLine line

/-- A frame survives that its id is rewritten: the result is exactly one frame for a splitter, whatever chunks it
comes in, its other lines are the ones of the frame, and its id is the new one. -/
structure Preserved (frame newId : String) : Prop where
  whole : ∀ chunks : List (List UInt16),
    chunks.flatten = Stream.utf16 (rewriteFrameId frame (some newId)).toList →
      (Stream.SseFrameSplitter.pushAll .new chunks).2 = [Stream.utf16 (rewriteFrameId frame (some newId)).toList] ∧
        (Stream.SseFrameSplitter.pushAll .new chunks).1.buffer = []
  lines : otherLines (rewriteFrameId frame (some newId)) = otherLines frame
  id : frameRawId (rewriteFrameId frame (some newId)) = some newId

/-- A frame whose id can be rewritten: its line end is the one the rewriter guesses where it matters. -/
structure Rewritable (frame newId : String) : Prop where
  id : newId ≠ ""
  /-- The last line and the empty line behind it end with the line end of the frame. -/
  ends : [[], []] <:+ pieces frame
  /-- No line hangs on an id line with the other line end. -/
  own : ∀ piece ∈ pieces frame, isIdLine piece = true → ∀ line ∈ splitLines piece, isIdLine line = true
  /-- The frame is not an empty line with nothing but ids behind it. -/
  fields : (pieces frame).filter (fun piece ↦ !isIdLine piece) ≠ [[], [], []]

/-! ## The pieces of a frame -/

theorem eolOf_ne_nil (frame : String) : eolOf frame ≠ [] := by
  unfold eolOf
  split <;> exact cons_ne_nil _ _

theorem intercalate_pieces (frame : String) : (eolOf frame).intercalate (pieces frame) = frame.toList :=
  intercalate_splitOn (eolOf_ne_nil frame) frame.toList

theorem getLast?_of_isFrame {text : List Char} (h : IsFrame '\n' '\r' text) : text.getLast? = some '\n' := by
  rcases h.ends with ⟨x, rfl⟩ | ⟨x, rfl⟩ <;> simp

theorem joinsLines_pieces {frame : String} (h : IsFrame '\n' '\r' frame.toList) :
    JoinsLines (eolOf frame) (pieces frame) := by
  have hjoined := intercalate_pieces frame
  by_cases hcrlf : includes frame.toList ['\r', '\n'] = true
  · exact .inl (if_pos hcrlf)
  · have heol : eolOf frame = ['\n'] := if_neg hcrlf
    refine .inr ⟨heol, fun piece hpiece hlast ↦ ?_⟩
    obtain ⟨front, rfl⟩ := getLast?_eq_some_iff.mp hlast
    obtain ⟨before, rest, hpieces⟩ := List.append_of_mem hpiece
    rw [hpieces, heol] at hjoined
    rcases rest with _ | ⟨next, rest⟩
    · -- the last piece would be the end of the frame
      have hsuffix := suffix_intercalate ['\n'] (front ++ ['\r']) before
      rw [hjoined] at hsuffix
      obtain ⟨x, hx⟩ := hsuffix
      have hend := getLast?_of_isFrame h
      rw [← hx, ← append_assoc, getLast?_concat] at hend
      exact absurd hend (by decide)
    · refine hcrlf (includes_iff.mpr ?_)
      have hinfix := infix_intercalate ['\n'] (front ++ ['\r']) next before rest
      rw [hjoined, append_assoc] at hinfix
      exact (suffix_append front _).isInfix.trans hinfix

theorem splitLines_frame {frame : String} (h : IsFrame '\n' '\r' frame.toList) :
    splitLines frame.toList = (pieces frame).flatMap splitLines := by
  rw [← splitLines_intercalate (joinsLines_pieces h) (splitOn_ne_nil _ _), intercalate_pieces]

/-! ## The rewritten frame -/

theorem exists_blanks (kept : List (List Char)) :
    ∃ body k, kept = body ++ List.replicate k [] ∧ body.getLast? ≠ some [] ∧
      kept.reverse.takeWhile (fun token ↦ token == []) = List.replicate k [] := by
  induction kept using List.reverseRecOn with
  | nil => exact ⟨[], 0, rfl, by simp, rfl⟩
  | append_singleton kept token ih =>
    obtain ⟨body, k, rfl, hlast, hblanks⟩ := ih
    rw [reverse_append, reverse_singleton, singleton_append]
    by_cases htoken : token = []
    · subst htoken
      refine ⟨body, k + 1, ?_, hlast, ?_⟩
      · rw [replicate_succ', append_assoc]
      · rw [takeWhile_cons_of_pos (by rfl), hblanks, replicate_succ]
    · refine ⟨body ++ List.replicate k [] ++ [token], 0, by simp, ?_, ?_⟩
      · rw [getLast?_concat]
        exact fun h ↦ htoken (Option.some.inj h)
      · rw [takeWhile_cons_of_neg (by simpa using htoken)]
        rfl

def idLine (newId : String) : List Char := "id: ".toList ++ newId.toList

theorem isIdLine_idLine (newId : String) : isIdLine (idLine newId) = true := rfl

theorem ne_nil_of_isIdLine {line : List Char} (h : isIdLine line = true) : line ≠ [] := by
  rintro rfl
  exact absurd h (by decide)

def keptPieces (frame : String) : List (List Char) := (pieces frame).filter fun piece ↦ !isIdLine piece

theorem toList_rewriteFrameId (frame newId : String) :
    (rewriteFrameId frame (some newId)).toList =
      (eolOf frame).intercalate
        ((keptPieces frame).take ((keptPieces frame).length -
            ((keptPieces frame).reverse.takeWhile fun token ↦ token == []).length) ++
          idLine newId :: (keptPieces frame).reverse.takeWhile fun token ↦ token == []) := String.toList_ofList

theorem rewriteFrameId_eq (frame newId : String) :
    ∃ body k, keptPieces frame = body ++ List.replicate k [] ∧ body.getLast? ≠ some [] ∧
      (rewriteFrameId frame (some newId)).toList
        = (eolOf frame).intercalate (body ++ idLine newId :: List.replicate k []) := by
  obtain ⟨body, k, hkept, hlast, hblanks⟩ := exists_blanks (keptPieces frame)
  refine ⟨body, k, hkept, hlast, ?_⟩
  rw [toList_rewriteFrameId, hblanks, hkept, length_append, Nat.add_sub_cancel, take_left]

variable {frame newId : String} {body : List (List Char)} {k : ℕ}

theorem joinsLines_rewritten
    (h : JoinsLines (eolOf frame) (pieces frame)) (hid : '\r' ∉ newId.toList)
    (hkept : keptPieces frame = body ++ List.replicate k []) :
    JoinsLines (eolOf frame) (body ++ idLine newId :: List.replicate k []) := by
  refine h.imp_right ?_
  rintro ⟨heol, hcr⟩
  refine ⟨heol, fun piece hpiece ↦ ?_⟩
  have hold : ∀ p ∈ body ++ List.replicate k [], p.getLast? ≠ some '\r' := fun p hp ↦
    hcr p (mem_of_mem_filter (hkept ▸ hp : p ∈ keptPieces frame))
  rcases mem_append.mp hpiece with hpiece | hpiece
  · exact hold piece (mem_append_left _ hpiece)
  rcases mem_cons.mp hpiece with rfl | hpiece
  · -- the id line ends with the id, or with a blank
    intro hlast
    rcases eq_nil_or_concat newId.toList with hnil | ⟨front, c, hc⟩
    · rw [idLine, hnil] at hlast
      exact absurd hlast (by decide)
    · rw [idLine, hc, concat_eq_append, ← append_assoc, getLast?_concat] at hlast
      rw [hc, Option.some.inj hlast] at hid
      exact hid (by simp)
  · exact hold piece (mem_append_right _ hpiece)

theorem exists_splitLines_rewritten (h : IsFrame '\n' '\r' frame.toList)
    (hlf : '\n' ∉ newId.toList) (hcr : '\r' ∉ newId.toList) :
    ∃ body k, keptPieces frame = body ++ List.replicate k [] ∧ body.getLast? ≠ some [] ∧
      splitLines (rewriteFrameId frame (some newId)).toList
        = body.flatMap splitLines ++ idLine newId :: List.replicate k [] := by
  obtain ⟨body, k, hkept, hlast, hrewritten⟩ := rewriteFrameId_eq frame newId
  refine ⟨body, k, hkept, hlast, ?_⟩
  have hline : splitLines (idLine newId) = [idLine newId] := by
    refine splitLines_of_notMem fun hmem ↦ ?_
    rcases mem_append.mp hmem with hmem | hmem
    · exact absurd hmem (by decide)
    · exact hlf hmem
  have hblanks : (List.replicate k ([] : List Char)).flatMap splitLines = List.replicate k [] := by
    rw [flatMap_replicate]
    exact flatten_replicate_singleton
  rw [hrewritten, splitLines_intercalate (joinsLines_rewritten (joinsLines_pieces h) hcr hkept) (by simp),
    flatMap_append, flatMap_cons, hline, hblanks]
  rfl

theorem isFrame_rewritten_iff {lines : List (List Char)}
    (h : splitLines (rewriteFrameId frame (some newId)).toList = lines ++ idLine newId :: List.replicate k []) :
    IsFrame '\n' '\r' (rewriteFrameId frame (some newId)).toList ↔ k = 2 ∧ ∀ line ∈ lines.tail, line ≠ [] := by
  have hid : idLine newId ≠ [] := ne_nil_of_isIdLine (isIdLine_idLine newId)
  rw [isFrame_iff_splitLines, h]
  constructor
  · rintro ⟨body, hne, hbody, hlines⟩
    have hreverse := congrArg List.reverse hbody
    rw [reverse_append, reverse_cons, reverse_replicate, reverse_append, append_assoc]
      at hreverse
    match k, hreverse with
    | 0, hreverse => exact absurd (List.cons.inj hreverse).1 hid
    | 1, hreverse => exact absurd (List.cons.inj (List.cons.inj hreverse).2).1 hid
    | k + 2, hreverse =>
      have hk : body = lines ++ idLine newId :: List.replicate k [] := by
        have hback : List.replicate k [] ++ ([idLine newId] ++ lines.reverse) = body.reverse :=
          (List.cons.inj (List.cons.inj hreverse).2).2
        rw [← reverse_reverse body, ← hback]
        simp
      subst hk
      have hmem : ∀ line ∈ lines.tail ++ List.replicate k [], line ≠ [] := by
        intro line hline
        refine hlines line ?_
        rcases lines with _ | ⟨first, lines⟩
        · exact hline
        · rcases mem_append.mp hline with hline | hline
          · exact mem_append_left _ hline
          · exact mem_append_right _ (mem_cons_of_mem _ hline)
      refine ⟨?_, fun line hline ↦ hmem line (mem_append_left _ hline)⟩
      rcases k with _ | k
      · rfl
      · exact absurd rfl (hmem [] (mem_append_right _ (by simp)))
  · rintro ⟨rfl, hlines⟩
    refine ⟨lines ++ [idLine newId], by simp, by simp, fun line hline ↦ ?_⟩
    rcases lines with _ | ⟨first, lines⟩
    · exact absurd hline not_mem_nil
    · rcases mem_append.mp hline with hline | hline
      · exact hlines line hline
      · rw [mem_singleton.mp hline]
        exact hid

def idValue? (line : List Char) : Option (List Char) :=
  (stripPrefix? ['i', 'd', ':'] line).map fun v ↦ (stripPrefix? [' '] v).getD v

theorem frameRawId_eq (frame : String) :
    frameRawId frame
      = (((splitLines frame.toList).filterMap idValue?).getLast?.filter (· ≠ [])).map String.ofList := by
  unfold frameRawId idValue?
  dsimp only
  generalize (List.filterMap _ (splitLines frame.toList)).getLast? = last
  rcases last with _ | ⟨_ | ⟨c, id⟩⟩ <;> rfl

theorem frameRawId_rewritten_iff {lines : List (List Char)}
    (h : splitLines (rewriteFrameId frame (some newId)).toList = lines ++ idLine newId :: List.replicate k []) :
    frameRawId (rewriteFrameId frame (some newId)) = some newId ↔ newId ≠ "" := by
  have hblanks : (List.replicate k []).filterMap idValue? = [] := by
    rw [filterMap_eq_nil_iff]
    intro line hline
    rw [(mem_replicate.mp hline).2]
    rfl
  have hvalue : idValue? (idLine newId) = some newId.toList := rfl
  rw [frameRawId_eq, h, filterMap_append, filterMap_cons_some hvalue, hblanks, getLast?_concat]
  by_cases hid : newId = ""
  · subst hid
    simp
  · have hne : newId.toList ≠ [] := fun hnil ↦ hid (String.toList_eq_nil_iff.mp hnil)
    simp [Option.filter, hne, hid]

/-! ## The frame as it came -/

/-- Dropping elements drops nothing that counts if nothing of them counts. -/
theorem filter_flatMap_eq_iff {α β : Type*} {tokens : List α} {keep : α → Bool} {lines : α → List β}
    {counts : β → Bool} :
    ((tokens.filter keep).flatMap lines).filter counts = (tokens.flatMap lines).filter counts ↔
      ∀ token ∈ tokens, keep token = false → ∀ line ∈ lines token, counts line = false := by
  induction tokens with
  | nil => simp
  | cons token tokens ih =>
    rw [forall_mem_cons, ← ih, flatMap_cons, filter_append]
    by_cases hkeep : keep token = true
    · rw [filter_cons_of_pos hkeep, flatMap_cons, filter_append, append_cancel_left_eq]
      simp [hkeep]
    · rw [filter_cons_of_neg hkeep]
      have hsub := ((filter_sublist (l := tokens) (p := keep)).flatMap lines).filter counts
      constructor
      · intro heq
        -- what is left is no longer than without the element
        have hle := hsub.length_le
        rw [heq, length_append] at hle
        have hnil : (lines token).filter counts = [] := length_eq_zero_iff.mp (by omega)
        refine ⟨fun _ line hline ↦ ?_, by rw [heq, hnil, nil_append]⟩
        by_contra hcounts
        exact filter_eq_nil_iff.mp hnil line hline (by simpa using hcounts)
      · rintro ⟨hnone, heq⟩
        have hnil : (lines token).filter counts = [] := filter_eq_nil_iff.mpr fun line hline ↦ by
          rw [hnone (by simpa using hkeep) line hline]
          exact Bool.false_ne_true
        rw [heq, hnil, nil_append]

theorem otherLines_rewritten_iff
    (hframe : splitLines frame.toList = (pieces frame).flatMap splitLines)
    (hkept : keptPieces frame = body ++ List.replicate k [])
    (h : splitLines (rewriteFrameId frame (some newId)).toList
      = body.flatMap splitLines ++ idLine newId :: List.replicate k []) :
    otherLines (rewriteFrameId frame (some newId)) = otherLines frame ↔
      ∀ piece ∈ pieces frame, isIdLine piece = true → ∀ line ∈ splitLines piece, isIdLine line = true := by
  have hblanks : (List.replicate k ([] : List Char)).flatMap splitLines = List.replicate k [] := by
    rw [flatMap_replicate]
    exact flatten_replicate_singleton
  have hother : otherLines (rewriteFrameId frame (some newId))
      = ((keptPieces frame).flatMap splitLines).filter fun line ↦ !isIdLine line := by
    rw [otherLines, h, hkept, flatMap_append, hblanks, filter_append, filter_append,
      filter_cons_of_neg (by rw [isIdLine_idLine]; exact Bool.false_ne_true)]
  rw [hother, otherLines, hframe, keptPieces, filter_flatMap_eq_iff]
  simp only [Bool.not_eq_false']

theorem exists_concat_of_flatMap {tokens lines kept : List (List Char)}
    (hown : ∀ piece ∈ tokens, isIdLine piece = true → ∀ line ∈ splitLines piece, isIdLine line = true)
    (hlines : tokens.flatMap splitLines = lines ++ [[]])
    (hkept : tokens.filter (fun piece ↦ !isIdLine piece) = kept ++ [[]]) :
    ∃ tokens', tokens = tokens' ++ [[]] ∧ tokens'.flatMap splitLines = lines ∧
      tokens'.filter (fun piece ↦ !isIdLine piece) = kept := by
  rcases eq_nil_or_concat tokens with rfl | ⟨tokens', token, rfl⟩
  · exact absurd hkept.symm (by simp)
  rw [concat_eq_append] at *
  by_cases htoken : isIdLine token = true
  · -- its last line would be an id line
    obtain ⟨front, line, hsplit⟩ : ∃ front line, splitLines token = front ++ [line] := by
      rcases eq_nil_or_concat (splitLines token) with hnil | ⟨front, line, hsplit⟩
      · exact absurd hnil (splitLines_ne_nil token)
      · exact ⟨front, line, by rw [hsplit, concat_eq_append]⟩
    have hid := hown token (by simp) htoken line (by rw [hsplit]; simp)
    rw [flatMap_append, flatMap_singleton, hsplit, ← append_assoc] at hlines
    have hempty := (append_inj' hlines rfl).2
    exact absurd (List.cons.inj hempty).1 (ne_nil_of_isIdLine hid)
  · rw [filter_append, filter_cons_of_pos (by simpa using htoken), filter_nil] at hkept
    obtain ⟨hkept', hempty⟩ := append_inj' hkept rfl
    obtain ⟨rfl, -⟩ := List.cons.inj hempty
    rw [flatMap_append, flatMap_singleton] at hlines
    exact ⟨tokens', rfl, append_cancel_right (hlines : _ ++ [[]] = _), hkept'⟩

theorem append_blanks_inj {a b : List (List Char)} {j k : ℕ} (ha : a.getLast? ≠ some []) (hb : b.getLast? ≠ some [])
    (h : a ++ List.replicate j [] = b ++ List.replicate k []) : a = b ∧ j = k := by
  induction j generalizing k with
  | zero =>
    rcases k with _ | k
    · exact ⟨by simpa using h, rfl⟩
    · rw [replicate_zero, append_nil, replicate_succ', ← append_assoc] at h
      exact absurd (by rw [h, getLast?_concat]) ha
  | succ j ih =>
    rw [replicate_succ', ← append_assoc] at h
    rcases k with _ | k
    · rw [replicate_zero, append_nil] at h
      exact absurd (by rw [← h, getLast?_concat]) hb
    · rw [replicate_succ', ← append_assoc] at h
      obtain ⟨rfl, rfl⟩ := ih (append_cancel_right h)
      exact ⟨rfl, rfl⟩

theorem getLast?_kept_ne {tokens front : List (List Char)} (hfront : tokens.flatMap splitLines = front)
    (hblank : ∀ line ∈ front.tail, line ≠ []) (hne : tokens.filter (fun piece ↦ !isIdLine piece) ≠ [[]]) :
    (tokens.filter fun piece ↦ !isIdLine piece).getLast? ≠ some [] := by
  intro hlast
  obtain ⟨w, hw⟩ := getLast?_eq_some_iff.mp hlast
  obtain ⟨u, rest, rfl, -, hrest⟩ := filter_eq_append_iff.mp hw
  obtain ⟨u', v, rfl, hu', -, hv⟩ := filter_eq_cons_iff.mp hrest
  have hu : u ++ u' = [] := by
    by_contra hu
    obtain ⟨first, more, hmore⟩ := exists_cons_of_ne_nil (l := (u ++ u').flatMap splitLines) (by
      obtain ⟨t, ts, hts⟩ := exists_cons_of_ne_nil hu
      rw [hts, flatMap_cons]
      exact append_ne_nil_of_left_ne_nil (splitLines_ne_nil t) _)
    have hsplit : front = first :: (more ++ [] :: v.flatMap splitLines) := by
      rw [← hfront, ← append_assoc, flatMap_append, hmore, flatMap_cons]
      rfl
    exact hblank [] (by rw [hsplit]; simp) rfl
  rw [← append_assoc, hu, nil_append, filter_cons_of_pos (by rfl), hv] at hne
  exact hne rfl

/-- Two empty pieces are kept at the end if the frame ends with them, unless one stands before them. -/
theorem blanks_eq_two_iff {frame : String}
    (hframe : IsFrame '\n' '\r' frame.toList) (hkept : keptPieces frame = body ++ List.replicate k [])
    (hlast : body.getLast? ≠ some [])
    (hown : ∀ piece ∈ pieces frame, isIdLine piece = true → ∀ line ∈ splitLines piece, isIdLine line = true) :
    (k = 2 ∧ ∀ line ∈ (body.flatMap splitLines).tail, line ≠ []) ↔
      [[], []] <:+ pieces frame ∧ keptPieces frame ≠ [[], [], []] := by
  obtain ⟨front, hfront, hlines, hblank⟩ := isFrame_iff_splitLines.mp hframe
  rw [splitLines_frame hframe] at hlines
  constructor
  · rintro ⟨rfl, -⟩
    rw [show front ++ [[], []] = (front ++ [[]]) ++ [([] : List Char)] by simp] at hlines
    have hkept' : (pieces frame).filter (fun piece ↦ !isIdLine piece) = (body ++ [[]]) ++ [[]] := by
      rw [show (pieces frame).filter _ = keptPieces frame from rfl, hkept]
      simp
    obtain ⟨tokens, htokens, hlines', hkept''⟩ := exists_concat_of_flatMap hown hlines hkept'
    obtain ⟨tokens', rfl, -, -⟩ := exists_concat_of_flatMap
      (fun piece hpiece ↦ hown piece (by rw [htokens]; exact mem_append_left _ hpiece)) hlines' hkept''
    refine ⟨⟨tokens', by rw [htokens]; simp⟩, fun heq ↦ hlast ?_⟩
    rw [heq] at hkept
    have hbody : ([[]] : List (List Char)) = body :=
      append_cancel_right (show [[]] ++ [[], []] = body ++ [[], []] from hkept)
    rw [← hbody]
    rfl
  · rintro ⟨⟨tokens, htokens⟩, hne⟩
    have hkept' : keptPieces frame = tokens.filter (fun piece ↦ !isIdLine piece) ++ [[], []] := by
      rw [keptPieces, ← htokens, filter_append]
      rfl
    have hfront' : tokens.flatMap splitLines = front := by
      rw [← htokens, flatMap_append] at hlines
      exact append_cancel_right (hlines : _ ++ [[], []] = _)
    have hlast' := getLast?_kept_ne hfront' hblank fun heq ↦ hne (by rw [hkept', heq]; rfl)
    obtain ⟨rfl, rfl⟩ := append_blanks_inj hlast hlast' (k := 2) (hkept.symm.trans hkept')
    refine ⟨rfl, fun line hline ↦ hblank line ?_⟩
    rw [← hfront']
    exact (((filter_sublist).flatMap splitLines).tail).subset hline

/-- **Rewriting the id.** What becomes of a frame that a splitter has emitted when its id is rewritten to an id
without line breaks: it is preserved if it is rewritable. -/
theorem preserved_iff {frame newId : String} {chunks : List (List UInt16)}
    (hframe : Stream.utf16 frame.toList ∈ (Stream.SseFrameSplitter.pushAll .new chunks).2)
    (hlf : '\n' ∉ newId.toList) (hcr : '\r' ∉ newId.toList) :
    Preserved frame newId ↔ Rewritable frame newId := by
  have hemitted : IsFrame '\n' '\r' frame.toList :=
    Stream.isFrame_utf16_iff.mp ((Scanner.cut_pushAll Stream.LF_CODE Stream.CR_CODE chunks).frames _ hframe)
  obtain ⟨body, k, hkept, hlast, hlines⟩ := exists_splitLines_rewritten hemitted hlf hcr
  have hother := otherLines_rewritten_iff (splitLines_frame hemitted) hkept hlines
  constructor
  · intro h
    have hwhole := (Stream.pushAll_eq_singleton_iff (List.flatten_singleton)).mp (h.whole [_] List.flatten_singleton)
    obtain ⟨hends, hfields⟩ := (blanks_eq_two_iff hemitted hkept hlast (hother.mp h.lines)).mp
      ((isFrame_rewritten_iff hlines).mp hwhole)
    exact ⟨(frameRawId_rewritten_iff hlines).mp h.id, hends, hother.mp h.lines, hfields⟩
  · intro h
    have hwhole := (isFrame_rewritten_iff hlines).mpr
      ((blanks_eq_two_iff hemitted hkept hlast h.own).mpr ⟨h.ends, h.fields⟩)
    exact ⟨fun _ hchunks ↦ (Stream.pushAll_eq_singleton_iff hchunks).mpr hwhole, hother.mpr h.own,
      (frameRawId_rewritten_iff hlines).mpr h.id⟩

/-- A frame with line feeds only, and its id rewritten. -/
theorem preserved_lineFeeds : Preserved "id: e:5\ndata: x\n\n" "m1=e:5" :=
  have hemitted : Stream.utf16 "id: e:5\ndata: x\n\n".toList ∈
      (Stream.SseFrameSplitter.pushAll .new [Stream.utf16 "id: e:5\ndata: x\n\n".toList]).2 := by
    decide +kernel
  (preserved_iff hemitted (by decide) (by decide)).mpr
    ⟨by decide, by decide +kernel, by decide +kernel, by decide +kernel⟩

/-- A line that hangs on an id line by a single line feed is lost with it. -/
theorem not_preserved_mixed :
    ¬ ∀ frame newId : String, ∀ chunks : List (List UInt16),
      Stream.utf16 frame.toList ∈ (Stream.SseFrameSplitter.pushAll .new chunks).2 →
        '\n' ∉ newId.toList → '\r' ∉ newId.toList → Preserved frame newId := by
  intro h
  have hlines := (h "data: x\r\nid: e:5\ndata: y\r\n\r\n" "m1=e:5"
    [Stream.utf16 "data: x\r\nid: e:5\ndata: y\r\n\r\n".toList] (by decide +kernel) (by decide) (by decide)).lines
  exact absurd hlines (by decide +kernel)

end Amicode
