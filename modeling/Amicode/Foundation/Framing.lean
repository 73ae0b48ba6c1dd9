import Mathlib.Data.List.Infix

/-!
# Frames that end at a blank line

A stream of symbols is cut into frames at its blank lines: a line feed ends a frame if its line is empty, that is
if it follows a line feed of the same frame, with or without a carriage return between them. `Cut` says what the
frames of a text are; there is one way to cut a text (`Cut.unique`).

A scanner reads the text in chunks. It keeps the partial frame in the pieces it came in and looks back at no more
than the last two symbols of it, and it finds the frames of the text whatever the chunks are (`cut_pushAll`).
-/

open List

namespace Amicode.Framing

variable {α : Type*} {lf cr : α}

/-! ## The frames of a text -/

/-- The text ends with a line feed whose line is empty. -/
def EndsBlank (lf cr : α) (text : List α) : Prop := [lf, lf] <:+ text ∨ [lf, cr, lf] <:+ text

instance [DecidableEq α] (lf cr : α) (text : List α) : Decidable (EndsBlank lf cr text) :=
  inferInstanceAs (Decidable (_ ∨ _))

/-- A text that ends at its first blank line. -/
structure IsFrame (lf cr : α) (frame : List α) : Prop where
  ends : EndsBlank lf cr frame
  first : ∀ p, p <+: frame → p ≠ frame → ¬ EndsBlank lf cr p

/-- A text in frames, and the rest behind its last blank line. -/
structure Cut (lf cr : α) (text : List α) (frames : List (List α)) (rest : List α) : Prop where
  text_eq : frames.flatten ++ rest = text
  frames : ∀ frame ∈ frames, IsFrame lf cr frame
  rest : ∀ p, p <+: rest → ¬ EndsBlank lf cr p

theorem not_endsBlank_nil : ¬ EndsBlank lf cr [] := by
  simp [EndsBlank]

theorem IsFrame.ne_nil {frame : List α} (h : IsFrame lf cr frame) : frame ≠ [] := by
  rintro rfl
  exact not_endsBlank_nil h.ends

theorem IsFrame.eq_of_append {frame frame' rest rest' : List α} (h : IsFrame lf cr frame)
    (h' : IsFrame lf cr frame') (heq : frame ++ rest = frame' ++ rest') : frame = frame' := by
  by_contra hne
  rcases prefix_or_prefix_of_prefix (prefix_append frame rest) (heq ▸ prefix_append frame' rest')
    with hprefix | hprefix
  · exact h'.first frame hprefix hne h.ends
  · exact h.first frame' hprefix (Ne.symm hne) h'.ends

theorem Cut.unique {text rest rest' : List α} {frames frames' : List (List α)} (h : Cut lf cr text frames rest)
    (h' : Cut lf cr text frames' rest') : frames = frames' ∧ rest = rest' := by
  induction frames generalizing text frames' with
  | nil =>
    have htext : rest = text := h.text_eq
    cases frames' with
    | nil => exact ⟨rfl, htext.trans h'.text_eq.symm⟩
    | cons frame frames' =>
      -- the frame would end at a blank line of the rest
      have hprefix : frame <+: rest := by
        rw [htext, ← h'.text_eq, flatten_cons, append_assoc]
        exact prefix_append _ _
      exact absurd (h'.frames frame mem_cons_self).ends (h.rest frame hprefix)
  | cons frame frames ih =>
    have htext := h.text_eq
    rw [flatten_cons, append_assoc] at htext
    cases frames' with
    | nil =>
      have hprefix : frame <+: rest' := by
        rw [show rest' = text from h'.text_eq, ← htext]
        exact prefix_append _ _
      exact absurd (h.frames frame mem_cons_self).ends (h'.rest frame hprefix)
    | cons frame' frames' =>
      have htext' := h'.text_eq
      rw [flatten_cons, append_assoc] at htext'
      have hframe : frame = frame' :=
        (h.frames frame mem_cons_self).eq_of_append (h'.frames frame' mem_cons_self)
          (htext.trans htext'.symm)
      subst hframe
      have hcut : Cut lf cr (frames.flatten ++ rest) frames rest :=
        ⟨rfl, fun f hf ↦ h.frames f (mem_cons_of_mem _ hf), h.rest⟩
      have hcut' : Cut lf cr (frames.flatten ++ rest) frames' rest' :=
        ⟨append_cancel_left (htext'.trans htext.symm), fun f hf ↦ h'.frames f (mem_cons_of_mem _ hf),
          h'.rest⟩
      obtain ⟨hframes, hrest⟩ := ih hcut hcut'
      exact ⟨by rw [hframes], hrest⟩

theorem endsBlank_concat_iff {text : List α} {c : α} :
    EndsBlank lf cr (text ++ [c]) ↔ c = lf ∧
      (text.reverse[0]? = some lf ∨ text.reverse[0]? = some cr ∧ text.reverse[1]? = some lf) := by
  rw [EndsBlank, ← reverse_prefix, ← reverse_prefix, reverse_append]
  rcases text.reverse with _ | ⟨b, _ | ⟨a, rest⟩⟩
  · simp
  · simp [eq_comm]
  · simp [eq_comm, and_or_left]

/-! ## A scanner -/

/-- The last two symbols. -/
def lastTwo (text : List α) : List α := text.drop (text.length - 2)

structure Scanner (α : Type*) where
  /-- The partial frame, in the pieces it came in. -/
  parts : List (List α)
  /-- The last two symbols of the partial frame, or fewer if it has fewer. -/
  tail : List α

/-- A scanner that has read nothing. -/
def Scanner.new : Scanner α := ⟨[], []⟩

/-- The partial frame. -/
def Scanner.buffer (s : Scanner α) : List α := s.parts.flatten

/-- The state of the loop over a chunk. -/
structure Scan (α : Type*) where
  parts : List (List α)
  /-- Where the partial frame resumes in the chunk. -/
  start : ℕ
  /-- The first position of the partial frame; it is negative in the tail. -/
  floor : ℤ
  frames : List (List α)

/-- The symbol at a position of the chunk, which reaches into the tail but not before the frame. -/
def symbolAt (chunk tail : List α) (floor i : ℤ) : Option α :=
  if i < floor then none
  else if 0 ≤ i then chunk[i.toNat]?
  else tail[(tail.length + i).toNat]?

theorem lastTwo_append {a b : List α} (h : 2 ≤ b.length) : lastTwo (a ++ b) = lastTwo b := by
  rw [lastTwo, lastTwo, length_append, drop_append, drop_eq_nil_of_le (by omega), nil_append]
  congr 1
  omega

theorem lastTwo_lastTwo_append (a b : List α) : lastTwo (lastTwo a ++ b) = lastTwo (a ++ b) := by
  rw [lastTwo, lastTwo, lastTwo, length_append, length_append, length_drop, drop_append,
    drop_append, drop_drop, length_drop]
  congr 2 <;> omega

/-- The scanner holds the end of its partial frame. -/
def Scanner.Sound (s : Scanner α) : Prop := s.tail = lastTwo s.buffer

theorem Scanner.sound_new : (Scanner.new : Scanner α).Sound := rfl

variable {chunk : List α}

theorem symbolAt_append (held : List α) {i k : ℕ} (hi : i ≤ chunk.length) (hk : k < 2) :
    symbolAt chunk (lastTwo held) (-((lastTwo held).length : ℤ)) (i - (k + 1 : ℕ))
      = (held ++ chunk.take i).reverse[k]? := by
  have htail : (lastTwo held).length = min 2 held.length := by
    rw [lastTwo, length_drop]
    omega
  have hlength : (held ++ chunk.take i).length = held.length + i := by
    rw [length_append, length_take_of_le hi]
  unfold symbolAt
  by_cases hshort : held.length + i ≤ k
  · rw [if_pos (by omega), getElem?_eq_none (by rw [length_reverse]; omega)]
  · rw [if_neg (by omega), getElem?_reverse (by omega), hlength]
    split
    · have hpos : held.length + i - 1 - k = held.length + ((i : ℤ) - (k + 1 : ℕ)).toNat := by omega
      rw [hpos, getElem?_append_right (by omega), Nat.add_sub_cancel_left,
        getElem?_take_of_lt (by omega)]
    · have hpos : held.length + i - 1 - k
          = held.length - 2 + (((lastTwo held).length : ℤ) + ((i : ℤ) - (k + 1 : ℕ))).toNat := by omega
      rw [hpos, getElem?_append_left (by omega), lastTwo, getElem?_drop]

theorem symbolAt_drop (tail : List α) {start i : ℕ} (k : ℕ) (hstart : start ≤ i) (hi : i ≤ chunk.length) :
    symbolAt chunk tail start (i - (k + 1 : ℕ)) = ((chunk.take i).drop start).reverse[k]? := by
  have hlength : ((chunk.take i).drop start).length = i - start := by
    rw [length_drop, length_take_of_le hi]
  unfold symbolAt
  by_cases hshort : i - start ≤ k
  · rw [if_pos (by omega), getElem?_eq_none (by rw [length_reverse]; omega)]
  · have hpos : ((i : ℤ) - (k + 1 : ℕ)).toNat = start + (i - start - 1 - k) := by omega
    rw [if_neg (by omega), if_pos (by omega), getElem?_reverse (by omega), hlength, getElem?_drop,
      getElem?_take_of_lt (by omega), hpos]

/-! ## Symbol by symbol -/

variable [DecidableEq α]

/-- The frames so far and the partial frame, after one more symbol. -/
def feed (lf cr : α) (s : List (List α) × List α) (c : α) : List (List α) × List α :=
  if EndsBlank lf cr (s.2 ++ [c]) then (s.1 ++ [s.2 ++ [c]], []) else (s.1, s.2 ++ [c])

/-- The frames that a text completes, and the partial frame after it. -/
def feedAll (lf cr : α) (held text : List α) : List (List α) × List α := text.foldl (feed lf cr) ([], held)

theorem feed_of_ends {s : List (List α) × List α} {c : α} (h : EndsBlank lf cr (s.2 ++ [c])) :
    feed lf cr s c = (s.1 ++ [s.2 ++ [c]], []) := if_pos h

theorem feed_of_not {s : List (List α) × List α} {c : α} (h : ¬ EndsBlank lf cr (s.2 ++ [c])) :
    feed lf cr s c = (s.1, s.2 ++ [c]) := if_neg h

theorem feed_append (frames : List (List α)) (s : List (List α) × List α) (c : α) :
    feed lf cr (frames ++ s.1, s.2) c = (frames ++ (feed lf cr s c).1, (feed lf cr s c).2) := by
  unfold feed
  split <;> simp

theorem foldl_feed (frames : List (List α)) (s : List (List α) × List α) (text : List α) :
    text.foldl (feed lf cr) (frames ++ s.1, s.2)
      = (frames ++ (text.foldl (feed lf cr) s).1, (text.foldl (feed lf cr) s).2) := by
  induction text generalizing s with
  | nil => rfl
  | cons c text ih => rw [foldl_cons, foldl_cons, feed_append, ih]

theorem feedAll_append (held a b : List α) :
    feedAll lf cr held (a ++ b)
      = ((feedAll lf cr held a).1 ++ (feedAll lf cr (feedAll lf cr held a).2 b).1,
        (feedAll lf cr (feedAll lf cr held a).2 b).2) := by
  have h : b.foldl (feed lf cr) ((feedAll lf cr held a).1 ++ [], (feedAll lf cr held a).2) = _ :=
    foldl_feed (feedAll lf cr held a).1 ([], (feedAll lf cr held a).2) b
  rw [append_nil] at h
  rw [feedAll, foldl_append]
  exact h

theorem feedAll_concat (held text : List α) (c : α) :
    feedAll lf cr held (text ++ [c]) = feed lf cr (feedAll lf cr held text) c := by
  rw [feedAll, foldl_append]
  rfl

theorem cut_feedAll (text : List α) : Cut lf cr text (feedAll lf cr [] text).1 (feedAll lf cr [] text).2 := by
  induction text using List.reverseRecOn with
  | nil =>
    refine ⟨rfl, fun frame hframe ↦ (not_mem_nil hframe).elim, fun p hp ↦ ?_⟩
    rw [prefix_nil.mp hp]
    exact not_endsBlank_nil
  | append_singleton text c ih =>
    rw [feedAll_concat]
    generalize feedAll lf cr [] text = s at ih
    have hproper : ∀ p, p <+: s.2 ++ [c] → p ≠ s.2 ++ [c] → ¬ EndsBlank lf cr p := fun p hp hne ↦
      ih.rest p ((prefix_concat_iff.mp hp).resolve_left hne)
    unfold feed
    split
    · next hends =>
      refine ⟨?_, fun frame hframe ↦ ?_, fun p hp ↦ ?_⟩
      · rw [← ih.text_eq]
        simp
      · rcases mem_append.mp hframe with hframe | hframe
        · exact ih.frames frame hframe
        · rw [mem_singleton.mp hframe]
          exact ⟨hends, hproper⟩
      · rw [prefix_nil.mp hp]
        exact not_endsBlank_nil
    · next hends =>
      refine ⟨?_, ih.frames, fun p hp ↦ ?_⟩
      · rw [← ih.text_eq, append_assoc]
      · by_cases hne : p = s.2 ++ [c]
        · rw [hne]
          exact hends
        · exact hproper p hp hne

/-! ## The loop over a chunk -/

def scanLineFeed (lf cr : α) (chunk tail : List α) (s : Scan α) (i : ℕ) : Scan α :=
  let prev := symbolAt chunk tail s.floor (i - 1)
  if prev ≠ some lf ∧ ¬ (prev = some cr ∧ symbolAt chunk tail s.floor (i - 2) = some lf) then s
  else
    { parts := []
      start := i + 1
      floor := i + 1
      frames := s.frames ++ [(s.parts ++ [(chunk.take (i + 1)).drop s.start]).flatten] }

def lineFeeds (lf : α) (chunk : List α) : List ℕ := (List.range chunk.length).filter fun i ↦ chunk[i]? = some lf

/-- The loop over a chunk. -/
def Scanner.scan (lf cr : α) (s : Scanner α) (chunk : List α) : Scan α :=
  (lineFeeds lf chunk).foldl (scanLineFeed lf cr chunk s.tail) ⟨s.parts, 0, -(s.tail.length : ℤ), []⟩

def Scanner.push (lf cr : α) (s : Scanner α) (chunk : List α) : Scanner α × List (List α) :=
  if chunk = [] then (s, [])
  else
    let scan := s.scan lf cr chunk
    let rest := chunk.drop scan.start
    if scan.start < chunk.length then
      (⟨scan.parts ++ [rest],
        if 2 ≤ rest.length then lastTwo rest
        else lastTwo (if scan.start = 0 then s.tail ++ rest else rest)⟩, scan.frames)
    else (⟨scan.parts, []⟩, scan.frames)

/-- The scanner after some chunks, and the frames they complete. -/
def Scanner.pushAll (lf cr : α) (s : Scanner α) (chunks : List (List α)) : Scanner α × List (List α) :=
  chunks.foldl (fun (r : Scanner α × List (List α)) chunk ↦
    ((r.1.push lf cr chunk).1, r.2 ++ (r.1.push lf cr chunk).2)) (s, [])

/-! ## The scanner cuts the text -/

/-- The loop before position `i`: what it has found are the frames up to there, and it looks back into the partial
frame. -/
structure Scan.At (lf cr : α) (s : Scanner α) (chunk : List α) (i : ℕ) (scan : Scan α) : Prop where
  frames : scan.frames = (feedAll lf cr s.buffer (chunk.take i)).1
  partial_eq : scan.parts.flatten ++ (chunk.take i).drop scan.start = (feedAll lf cr s.buffer (chunk.take i)).2
  place : (scan.start = 0 ∧ scan.floor = -(s.tail.length : ℤ) ∧ scan.parts = s.parts) ∨
    (0 < scan.start ∧ scan.start ≤ i ∧ scan.floor = scan.start ∧ scan.parts = [])

variable {s : Scanner α} {scan : Scan α} {i : ℕ}

theorem Scan.At.start_le (h : Scan.At lf cr s chunk i scan) : scan.start ≤ i := by
  rcases h.place with ⟨hstart, -⟩ | ⟨-, hle, -⟩
  · omega
  · exact hle

theorem Scan.At.symbolAt_eq (hs : s.Sound)
    (h : Scan.At lf cr s chunk i scan) (hi : i ≤ chunk.length) {k : ℕ} (hk : k < 2) :
    symbolAt chunk s.tail scan.floor (i - (k + 1 : ℕ)) = (feedAll lf cr s.buffer (chunk.take i)).2.reverse[k]? := by
  rw [← h.partial_eq]
  rcases h.place with ⟨hstart, hfloor, hparts⟩ | ⟨-, hle, hfloor, hparts⟩
  · rw [hstart, hfloor, hparts, drop_zero, show s.tail = lastTwo s.buffer from hs]
    exact symbolAt_append s.buffer hi hk
  · rw [hfloor, hparts]
    exact symbolAt_drop s.tail k hle hi

theorem Scan.At.scanLineFeed (hs : s.Sound) (h : Scan.At lf cr s chunk i scan) (hlf : chunk[i]? = some lf) :
    Scan.At lf cr s chunk (i + 1) (scanLineFeed lf cr chunk s.tail scan i) := by
  obtain ⟨hi, -⟩ := List.getElem?_eq_some_iff.mp hlf
  have htake : chunk.take (i + 1) = chunk.take i ++ [lf] := by
    rw [take_add_one, hlf]
    rfl
  have hle : scan.start ≤ (chunk.take i).length := by
    rw [length_take_of_le hi.le]
    exact h.start_le
  have hdrop : (chunk.take (i + 1)).drop scan.start = (chunk.take i).drop scan.start ++ [lf] := by
    rw [htake, drop_append_of_le_length hle]
  have hprev := h.symbolAt_eq hs hi.le (k := 0) (by omega)
  have hprev' := h.symbolAt_eq hs hi.le (k := 1) (by omega)
  -- the test of the loop is that of the next symbol
  have hiff : EndsBlank lf cr ((feedAll lf cr s.buffer (chunk.take i)).2 ++ [lf]) ↔
      ¬ (symbolAt chunk s.tail scan.floor (i - 1) ≠ some lf ∧
        ¬ (symbolAt chunk s.tail scan.floor (i - 1) = some cr ∧
          symbolAt chunk s.tail scan.floor (i - 2) = some lf)) := by
    rw [endsBlank_concat_iff, ← hprev, ← hprev']
    push_cast
    rw [ne_eq]
    tauto
  unfold Framing.scanLineFeed
  dsimp only
  split
  · next hskip =>
    have hfeed := feed_of_not (s := feedAll lf cr s.buffer (chunk.take i)) fun hends ↦ hiff.mp hends hskip
    refine ⟨?_, ?_, ?_⟩
    · rw [htake, feedAll_concat, hfeed, h.frames]
    · rw [hdrop, htake, feedAll_concat, hfeed, ← h.partial_eq, append_assoc]
    · exact h.place.imp id fun ⟨hpos, hle, hrest⟩ ↦ ⟨hpos, hle.trans (Nat.le_succ i), hrest⟩
  · next hends =>
    have hfeed := feed_of_ends (s := feedAll lf cr s.buffer (chunk.take i)) (hiff.mpr hends)
    refine ⟨?_, ?_, .inr ⟨Nat.succ_pos i, le_rfl, by push_cast; rfl, rfl⟩⟩
    · rw [htake, feedAll_concat, hfeed, ← htake, hdrop, h.frames, ← h.partial_eq]
      simp
    · rw [htake, feedAll_concat, hfeed, flatten_nil, nil_append]
      exact drop_eq_nil_of_le (by rw [length_append, length_take_of_le hi.le]; rfl)

theorem Scan.At.succ (h : Scan.At lf cr s chunk i scan)
    (hi : i < chunk.length) (hlf : chunk[i]? ≠ some lf) : Scan.At lf cr s chunk (i + 1) scan := by
  obtain ⟨c, hc⟩ : ∃ c, chunk[i]? = some c := ⟨chunk[i], getElem?_eq_getElem hi⟩
  have htake : chunk.take (i + 1) = chunk.take i ++ [c] := by
    rw [take_add_one, hc]
    rfl
  have hle : scan.start ≤ (chunk.take i).length := by
    rw [length_take_of_le hi.le]
    exact h.start_le
  have hfeed := feed_of_not (s := feedAll lf cr s.buffer (chunk.take i)) (c := c) fun (hends : EndsBlank lf cr _) ↦ hlf (by
    rw [hc, (endsBlank_concat_iff.mp hends).1])
  refine ⟨?_, ?_, ?_⟩
  · rw [htake, feedAll_concat, hfeed, h.frames]
  · rw [htake, drop_append_of_le_length hle, feedAll_concat, hfeed, ← h.partial_eq, append_assoc]
  · exact h.place.imp id fun ⟨hpos, hle, hrest⟩ ↦ ⟨hpos, hle.trans (Nat.le_succ i), hrest⟩

theorem Scanner.at_scan (hs : s.Sound) (chunk : List α) :
    Scan.At lf cr s chunk chunk.length (s.scan lf cr chunk) := by
  have hloop : ∀ n ≤ chunk.length, Scan.At lf cr s chunk n
      (((List.range n).filter fun i ↦ chunk[i]? = some lf).foldl (Framing.scanLineFeed lf cr chunk s.tail)
        ⟨s.parts, 0, -(s.tail.length : ℤ), []⟩) := by
    intro n
    induction n with
    | zero => exact fun _ ↦ ⟨rfl, by simp [feedAll, buffer], .inl ⟨rfl, rfl, rfl⟩⟩
    | succ n ih =>
      intro hn
      have h := ih (Nat.le_of_succ_le hn)
      rw [range_succ, filter_append, foldl_append]
      by_cases hlf : chunk[n]? = some lf
      · rw [filter_cons_of_pos (by simpa using hlf)]
        exact h.scanLineFeed hs hlf
      · rw [filter_cons_of_neg (by simpa using hlf)]
        exact h.succ hn hlf
  exact hloop chunk.length le_rfl

theorem Scanner.push_eq (lf cr : α) (hs : s.Sound) (chunk : List α) :
    (s.push lf cr chunk).1.Sound ∧ (s.push lf cr chunk).1.buffer = (feedAll lf cr s.buffer chunk).2 ∧
      (s.push lf cr chunk).2 = (feedAll lf cr s.buffer chunk).1 := by
  have h : Scan.At lf cr s chunk chunk.length (s.scan lf cr chunk) := Scanner.at_scan hs chunk
  have hframes := h.frames
  have hpartial := h.partial_eq
  rw [take_length] at hframes hpartial
  unfold Scanner.push
  split
  · next hnil =>
    subst hnil
    exact ⟨hs, rfl, rfl⟩
  · dsimp only
    split
    · next hlt =>
      have hbuffer : (((s.scan lf cr chunk).parts ++ [chunk.drop (s.scan lf cr chunk).start]).flatten)
          = (s.scan lf cr chunk).parts.flatten ++ chunk.drop (s.scan lf cr chunk).start := by
        simp
      refine ⟨?_, hbuffer.trans hpartial, hframes⟩
      show _ = lastTwo (List.flatten _)
      rw [hbuffer]
      split
      · next hlong => exact (lastTwo_append hlong).symm
      · next hshort =>
        split
        · next hstart =>
          rcases h.place with ⟨-, -, hparts⟩ | ⟨hpos, -⟩
          · rw [hparts, show s.tail = lastTwo s.buffer from hs, lastTwo_lastTwo_append]
            rfl
          · omega
        · next hstart =>
          rcases h.place with ⟨hzero, -⟩ | ⟨-, -, -, hparts⟩
          · exact absurd hzero hstart
          · rw [hparts]
            rfl
    · next hge =>
      -- a frame ended with the chunk
      have hdrop : chunk.drop (s.scan lf cr chunk).start = [] := drop_eq_nil_of_le (by omega)
      have hparts : (s.scan lf cr chunk).parts = [] := by
        rcases h.place with ⟨hzero, -⟩ | ⟨-, -, -, hparts⟩
        · exact absurd (length_eq_zero_iff.mp (by omega)) ‹¬chunk = []›
        · exact hparts
      rw [hdrop, append_nil] at hpartial
      refine ⟨?_, hpartial, hframes⟩
      show [] = lastTwo (List.flatten _)
      rw [hparts]
      rfl

theorem Scanner.pushAll_eq (lf cr : α) (hs : s.Sound) (chunks : List (List α)) :
    (s.pushAll lf cr chunks).1.Sound ∧ (s.pushAll lf cr chunks).1.buffer = (feedAll lf cr s.buffer chunks.flatten).2 ∧
      (s.pushAll lf cr chunks).2 = (feedAll lf cr s.buffer chunks.flatten).1 := by
  induction chunks using List.reverseRecOn with
  | nil => exact ⟨hs, rfl, rfl⟩
  | append_singleton chunks chunk ih =>
    obtain ⟨hsound, hbuffer, hframes⟩ := ih
    obtain ⟨hsound', hbuffer', hframes'⟩ := Scanner.push_eq lf cr hsound chunk
    have hlast : s.pushAll lf cr (chunks ++ [chunk])
        = (((s.pushAll lf cr chunks).1.push lf cr chunk).1,
          (s.pushAll lf cr chunks).2 ++ ((s.pushAll lf cr chunks).1.push lf cr chunk).2) := by
      rw [Scanner.pushAll, foldl_append]
      rfl
    rw [hlast, flatten_append, flatten_singleton, feedAll_append, ← hbuffer, ← hframes]
    exact ⟨hsound', hbuffer', congrArg _ hframes'⟩

theorem Scanner.cut_pushAll (lf cr : α) (chunks : List (List α)) :
    Cut lf cr chunks.flatten (Scanner.new.pushAll lf cr chunks).2 (Scanner.new.pushAll lf cr chunks).1.buffer := by
  obtain ⟨-, hbuffer, hframes⟩ := Scanner.pushAll_eq lf cr Scanner.sound_new chunks
  rw [hbuffer, hframes]
  exact cut_feedAll chunks.flatten

end Amicode.Framing
