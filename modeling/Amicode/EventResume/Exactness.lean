import Amicode.EventResume.Reset
import Amicode.Foundation.Framing

/-!
# What a connection's filter drops

The filter is meant to drop the blocks whose id is a number at or below the resume position, to pass the others as
they came, and to report the greatest id it passed. A block's id is its last `id` line. The filter takes the last
one that `Number` reads instead, and `Number` reads an empty value as zero; so it drops, or reports, a block that
has no numeric id. `filterLaw_iff` says when that shows.
-/

namespace Amicode.EventResume

open Framing HighWater List Option

/-! ## The id of a block -/

def idValue? (line : List Char) : Option (List Char) :=
  if line = "id".toList then some [] else JsText.stripPrefix? "id:".toList line

/-- The id of a block, if its last `id` line has a number. -/
def numericId (block : List UInt8) : Option ℚ :=
  (((JsText.splitLines (JsText.decodeUtf8 block)).filterMap idValue?).getLast?).bind fun value ↦
    if JsText.trim value = [] then none else JsNumber.ofText? (JsText.trim value)

/-- The number that `Number` makes of a line, if it is an `id:` line; it makes zero of an empty value. -/
def coercedId? (line : List Char) : Option ℚ :=
  (JsText.stripPrefix? "id:".toList line).bind fun value ↦ JsNumber.ofText? (JsText.trim value)

/-- The numbers of the `id:` lines of a block. -/
def coercedIds (block : List UInt8) : List ℚ :=
  (JsText.splitLines (JsText.decodeUtf8 block)).filterMap coercedId?

theorem foldl_or_eq_getLast? {α β : Type*} (f : α → Option β) (l : List α) :
    l.foldl (fun found a ↦ (f a).or found) none = (l.filterMap f).getLast? := by
  induction l using List.reverseRecOn with
  | nil => rfl
  | append_singleton l a ih =>
    rw [foldl_append, ih, filterMap_append]
    cases ha : f a with
    | none => simp [ha]
    | some b => simp [ha]

theorem blockSeq_eq (block : List UInt8) : blockSeq (JsText.decodeUtf8 block) = (coercedIds block).getLast? := by
  rw [coercedIds, ← foldl_or_eq_getLast?, blockSeq]
  congr 1
  funext seq line
  unfold coercedId?
  cases JsText.stripPrefix? "id:".toList line <;> rfl

theorem coercedId?_of_idValue?_eq_none {line : List Char} (h : idValue? line = none) : coercedId? line = none := by
  unfold idValue? at h
  split at h
  · cases h
  · rw [coercedId?, h, bind_none]

theorem coercedId?_of_idValue? {line value : List Char} (h : idValue? line = some value)
    (hne : JsText.trim value ≠ []) : coercedId? line = JsNumber.ofText? (JsText.trim value) := by
  unfold idValue? at h
  split at h
  · cases h
    exact absurd rfl hne
  · rw [coercedId?, h, bind_some]

theorem getLast?_coercedIds {block : List UInt8} {n : ℚ} (h : numericId block = some n) :
    (coercedIds block).getLast? = some n := by
  obtain ⟨value, hlast, hvalue⟩ := bind_eq_some_iff.mp h
  rw [ite_none_left_eq_some] at hvalue
  unfold coercedIds
  generalize JsText.splitLines (JsText.decodeUtf8 block) = lines at hlast ⊢
  induction lines using List.reverseRecOn with
  | nil => cases hlast
  | append_singleton lines line ih =>
    rw [filterMap_append] at hlast ⊢
    cases hid : idValue? line with
    | none =>
      rw [filterMap_cons_none hid, filterMap_nil, append_nil] at hlast
      rw [filterMap_cons_none (coercedId?_of_idValue?_eq_none hid), filterMap_nil, append_nil]
      exact ih hlast
    | some v =>
      rw [filterMap_cons_some hid, filterMap_nil, getLast?_concat] at hlast
      obtain rfl := Option.some.inj hlast
      rw [filterMap_cons_some ((coercedId?_of_idValue? hid hvalue.1).trans hvalue.2), filterMap_nil,
        getLast?_concat]

/-! ## A connection -/

namespace SessionStreamFilter

def pushAll (filter : SessionStreamFilter) (chunks : List (List UInt8)) : PushResult :=
  chunks.foldl (fun r chunk ↦
    let pushed := r.filter.push chunk
    ⟨pushed.filter, r.reported ++ pushed.reported, r.out ++ pushed.out⟩) ⟨filter, [], []⟩

/-- What the client gets of a stream that ends. -/
def relayed (filter : SessionStreamFilter) (chunks : List (List UInt8)) : List UInt8 :=
  (filter.pushAll chunks).out ++ (filter.pushAll chunks).filter.flush.2

def scanner (filter : SessionStreamFilter) : Scanner UInt8 := ⟨filter.parts, filter.tail⟩

end SessionStreamFilter

/-- The state of the loop as that of a scanner. -/
def Scan.toScan (scan : Scan) : Framing.Scan UInt8 := ⟨scan.parts, scan.start, scan.floor, scan.frames⟩

theorem toScan_foldl (c tail : List UInt8) (scan : Scan) :
    ((lineFeeds c).foldl (scanLineFeed c tail) scan).toScan
      = (Framing.lineFeeds LF c).foldl (Framing.scanLineFeed LF CR c tail) scan.toScan := by
  refine (foldl_hom Scan.toScan fun scan i ↦ ?_).symm
  unfold scanLineFeed Framing.scanLineFeed
  dsimp only
  split
  · next hskip => exact (congrArg Scan.toScan (if_pos hskip)).symm
  · next hends =>
    rw [if_neg (show ¬ (byteAt c tail scan.floor (i - 1) ≠ some LF ∧ ¬ (byteAt c tail scan.floor (i - 1) = some CR ∧
      byteAt c tail scan.floor (i - 2) = some LF)) from hends)]
    rfl

namespace SessionStreamFilter

variable (filter : SessionStreamFilter)

theorem toScan_scan (c : List UInt8) :
    ((lineFeeds c).foldl (scanLineFeed c filter.tail) ⟨filter.parts, 0, -(filter.tail.length : ℤ), []⟩).toScan
      = filter.scanner.scan LF CR c :=
  toScan_foldl c filter.tail _

theorem lastTwo_of_short {bytes : List UInt8} (h : ¬ 2 ≤ bytes.length) : Framing.lastTwo bytes = bytes := by
  rw [Framing.lastTwo, show bytes.length - 2 = 0 by omega, drop_zero]

/-- A push forwards the frames of its scanner that are not delivered. -/
theorem push_eq (c : List UInt8) : let pushed := filter.scanner.push LF CR c
    (filter.push c).filter = ⟨filter.resumeFrom, pushed.1.parts, pushed.1.tail⟩ ∧
      (filter.push c).out = (pushed.2.filter fun frame ↦ !filter.isDelivered frame).flatten ∧
      (filter.push c).reported = (pushed.2.filter fun frame ↦ !filter.isDelivered frame).filterMap
        fun frame ↦ blockSeq (JsText.decodeUtf8 frame) := by
  intro pushed
  have hscan := toScan_scan filter c
  unfold pushed SessionStreamFilter.push Scanner.push
  rw [← hscan]
  generalize (lineFeeds c).foldl (scanLineFeed c filter.tail) ⟨filter.parts, 0, -(filter.tail.length : ℤ), []⟩ = scan
  by_cases hnil : c = []
  · rw [if_pos hnil, if_pos hnil]
    exact ⟨rfl, rfl, rfl⟩
  · rw [if_neg hnil, if_neg hnil]
    by_cases hlt : scan.start < c.length
    · have htail : (if 2 ≤ (c.drop scan.start).length then lastTwo (c.drop scan.start)
            else if scan.start = 0 then lastTwo (filter.tail ++ c.drop scan.start) else c.drop scan.start)
          = if 2 ≤ (c.drop scan.start).length then Framing.lastTwo (c.drop scan.start)
            else Framing.lastTwo (if scan.start = 0 then filter.tail ++ c.drop scan.start else c.drop scan.start) := by
        split
        · rfl
        · next hshort =>
          split
          · rfl
          · exact (lastTwo_of_short hshort).symm
      simp only [Scan.toScan, hlt, htail, ↓reduceIte]
      exact ⟨rfl, trivial, trivial⟩
    · simp only [Scan.toScan, hlt, ↓reduceIte]
      exact ⟨trivial, trivial, trivial⟩

theorem pushAll_eq (chunks : List (List UInt8)) : let pushed := filter.scanner.pushAll LF CR chunks
    (filter.pushAll chunks).filter = ⟨filter.resumeFrom, pushed.1.parts, pushed.1.tail⟩ ∧
      (filter.pushAll chunks).out = (pushed.2.filter fun frame ↦ !filter.isDelivered frame).flatten ∧
      (filter.pushAll chunks).reported = (pushed.2.filter fun frame ↦ !filter.isDelivered frame).filterMap
        fun frame ↦ blockSeq (JsText.decodeUtf8 frame) := by
  induction chunks using List.reverseRecOn with
  | nil => exact ⟨rfl, rfl, rfl⟩
  | append_singleton chunks chunk ih =>
    obtain ⟨hfilter, hout, hreported⟩ := ih
    obtain ⟨hfilter', hout', hreported'⟩ := push_eq (filter.pushAll chunks).filter chunk
    have hpushed : filter.pushAll (chunks ++ [chunk])
        = ⟨((filter.pushAll chunks).filter.push chunk).filter,
          (filter.pushAll chunks).reported ++ ((filter.pushAll chunks).filter.push chunk).reported,
          (filter.pushAll chunks).out ++ ((filter.pushAll chunks).filter.push chunk).out⟩ := by
      rw [pushAll, foldl_append]
      rfl
    have hscanner : filter.scanner.pushAll LF CR (chunks ++ [chunk])
        = (((filter.scanner.pushAll LF CR chunks).1.push LF CR chunk).1,
          (filter.scanner.pushAll LF CR chunks).2 ++ ((filter.scanner.pushAll LF CR chunks).1.push LF CR chunk).2) := by
      rw [Scanner.pushAll, foldl_append]
      rfl
    rw [hfilter] at hfilter' hout' hreported' hpushed
    rw [hpushed, hscanner]
    refine ⟨hfilter', ?_, ?_⟩
    · rw [filter_append, flatten_append, ← hout]
      exact congrArg _ hout'
    · rw [filter_append, filterMap_append, ← hreported]
      exact congrArg _ hreported'

theorem relayed_eq (resumeFrom : Option ℚ) (chunks : List (List UInt8)) :
    (new resumeFrom).relayed chunks
      = ((Scanner.new.pushAll LF CR chunks).2.filter fun frame ↦ !(new resumeFrom).isDelivered frame).flatten
        ++ (Scanner.new.pushAll LF CR chunks).1.buffer := by
  obtain ⟨hfilter, hout, -⟩ := pushAll_eq (new resumeFrom) chunks
  rw [relayed, hout, hfilter]
  congr 1
  unfold flush
  split
  · next hnil =>
    show [] = List.flatten _
    rw [show (Scanner.new.pushAll LF CR chunks).1.parts = [] from hnil]
    rfl
  · rfl

end SessionStreamFilter

/-! ## The law -/

/-- The block has a numeric id at or below the resume position. -/
def Replayed (resumeFrom : Option ℚ) (block : List UInt8) : Prop := ∃ n ∈ numericId block, ∃ r ∈ resumeFrom, n ≤ r

instance (resumeFrom : Option ℚ) (block : List UInt8) : Decidable (Replayed resumeFrom block) :=
  inferInstanceAs (Decidable (∃ n ∈ numericId block, ∃ r ∈ resumeFrom, n ≤ r))

/-- What is owed for a stream in these chunks, which is cut into blocks and a rest. -/
structure FilterLaw (resumeFrom : Option ℚ) (chunks : List (List UInt8)) (blocks : List (List UInt8))
    (rest : List UInt8) : Prop where
  /-- The client gets the stream without the replayed blocks. -/
  relayed : (SessionStreamFilter.new resumeFrom).relayed chunks
    = (blocks.filter fun block ↦ ¬ Replayed resumeFrom block).flatten ++ rest
  /-- The position reported is the greatest numeric id of the blocks forwarded. -/
  reported : IsHighWater (raiseAll none ((SessionStreamFilter.new resumeFrom).pushAll chunks).reported)
    {n | ∃ block ∈ blocks, ¬ Replayed resumeFrom block ∧ n ∈ numericId block}

/-- A block without a numeric id that has an `id:` line with a number, an empty one counted as zero: its last such
number is beyond the resume position, and no greater than every numeric id. -/
def Outrun (resumeFrom : Option ℚ) (blocks : List (List UInt8)) (block : List UInt8) : Prop :=
  numericId block = none → ∀ s ∈ (coercedIds block).getLast?,
    (∀ r ∈ resumeFrom, r < s) ∧ ∃ block' ∈ blocks, ∃ n ∈ numericId block', s ≤ n

theorem isDelivered_iff {resumeFrom : Option ℚ} {block : List UInt8} :
    (SessionStreamFilter.new resumeFrom).isDelivered block = true ↔
      ∃ s ∈ (coercedIds block).getLast?, ∃ r ∈ resumeFrom, s ≤ r := by
  unfold SessionStreamFilter.isDelivered
  rw [blockSeq_eq]
  cases (coercedIds block).getLast? <;> cases resumeFrom <;> simp [SessionStreamFilter.new]

theorem isDelivered_of_replayed {resumeFrom : Option ℚ} {block : List UInt8} (h : Replayed resumeFrom block) :
    (SessionStreamFilter.new resumeFrom).isDelivered block = true := by
  obtain ⟨n, hn, hr⟩ := h
  exact isDelivered_iff.mpr ⟨n, getLast?_coercedIds hn, hr⟩

theorem forall_of_flatten_filter {α : Type*} {p : List α → Bool} {l : List (List α)} (hne : ∀ a ∈ l, a ≠ [])
    (h : (l.filter p).flatten = l.flatten) : ∀ a ∈ l, p a = true := by
  induction l with
  | nil => exact fun a ha ↦ (not_mem_nil ha).elim
  | cons b l ih =>
    rw [forall_mem_cons] at hne ⊢
    by_cases hb : p b = true
    · rw [filter_cons_of_pos hb, flatten_cons, flatten_cons] at h
      exact ⟨hb, ih hne.2 (append_cancel_left h)⟩
    · have hle : (l.filter p).flatten.length ≤ l.flatten.length :=
        (filter_sublist.flatten).length_le
      have hpos : 0 < b.length := length_pos_iff.mpr hne.1
      rw [filter_cons_of_neg hb, flatten_cons] at h
      have hlength := congrArg List.length h
      rw [length_append] at hlength
      omega

variable {resumeFrom : Option ℚ} {chunks blocks : List (List UInt8)} {rest : List UInt8}

theorem mem_reported_iff (hcut : Cut LF CR chunks.flatten blocks rest) {s : ℚ} :
    s ∈ ((SessionStreamFilter.new resumeFrom).pushAll chunks).reported ↔
      ∃ block ∈ blocks, (SessionStreamFilter.new resumeFrom).isDelivered block = false ∧
        s ∈ (coercedIds block).getLast? := by
  obtain ⟨hblocks, -⟩ := hcut.unique (Scanner.cut_pushAll LF CR chunks)
  obtain ⟨-, -, hreported⟩ := SessionStreamFilter.pushAll_eq (.new resumeFrom) chunks
  rw [hreported, hblocks]
  simp only [mem_filterMap, mem_filter, blockSeq_eq, Bool.not_eq_true', mem_def, and_assoc]
  rfl

theorem relayed_eq_iff (hcut : Cut LF CR chunks.flatten blocks rest) :
    (SessionStreamFilter.new resumeFrom).relayed chunks
        = (blocks.filter fun block ↦ ¬ Replayed resumeFrom block).flatten ++ rest ↔
      ∀ block ∈ blocks, (SessionStreamFilter.new resumeFrom).isDelivered block = true →
        Replayed resumeFrom block := by
  obtain ⟨hblocks, hrest⟩ := hcut.unique (Scanner.cut_pushAll LF CR chunks)
  rw [SessionStreamFilter.relayed_eq, ← hblocks, ← hrest, append_cancel_right_eq]
  have hfilter : (blocks.filter fun block ↦ !(SessionStreamFilter.new resumeFrom).isDelivered block)
      = (blocks.filter fun block ↦ ¬ Replayed resumeFrom block).filter
        fun block ↦ !(SessionStreamFilter.new resumeFrom).isDelivered block := by
    rw [List.filter_filter]
    refine filter_congr fun block _ ↦ ?_
    by_cases hreplayed : Replayed resumeFrom block
    · simp [isDelivered_of_replayed hreplayed]
    · simp [hreplayed]
  rw [hfilter]
  constructor
  · intro h block hblock hdelivered
    by_contra hreplayed
    have hne : ∀ b ∈ blocks.filter fun block ↦ ¬ Replayed resumeFrom block, b ≠ [] :=
      fun b hb ↦ (hcut.frames b (mem_of_mem_filter hb)).ne_nil
    have hkept := forall_of_flatten_filter hne h block (mem_filter.mpr ⟨hblock, by simpa using hreplayed⟩)
    rw [hdelivered] at hkept
    cases hkept
  · intro h
    rw [filter_eq_self.mpr fun block hblock ↦ ?_]
    obtain ⟨hmem, hreplayed⟩ := mem_filter.mp hblock
    have hnot : ¬ Replayed resumeFrom block := by simpa using hreplayed
    rw [Bool.not_eq_true']
    exact eq_false_of_ne_true fun hdelivered ↦ hnot (h block hmem hdelivered)

/-- The filter meets the law on exactly the streams in which each block that is read as a number without having one
is outrun. -/
theorem filterLaw_iff (hcut : Cut LF CR chunks.flatten blocks rest) :
    FilterLaw resumeFrom chunks blocks rest ↔ ∀ block ∈ blocks, Outrun resumeFrom blocks block := by
  constructor
  · intro h block hblock hnone s hs
    have hrelayed := (relayed_eq_iff hcut).mp h.relayed
    have hnot : ¬ Replayed resumeFrom block := fun ⟨n, hn, _⟩ ↦ by
      rw [hnone] at hn
      cases hn
    have hkept : (SessionStreamFilter.new resumeFrom).isDelivered block = false :=
      eq_false_of_ne_true fun hdelivered ↦ hnot (hrelayed block hblock hdelivered)
    constructor
    · intro r hr
      by_contra hle
      rw [isDelivered_iff.mpr ⟨s, hs, r, hr, not_lt.mp hle⟩] at hkept
      cases hkept
    · -- the number is reported, so the mark, which is a numeric id, is no less
      have hmark : IsHighWater (raiseAll none ((SessionStreamFilter.new resumeFrom).pushAll chunks).reported)
          (∅ ∪ _) := isHighWater_empty.raiseAll _
      obtain ⟨m, hm, hle⟩ := hmark.2 s (.inr ((mem_reported_iff hcut).mpr ⟨block, hblock, hkept, hs⟩))
      obtain ⟨block', hblock', -, hn⟩ := h.reported.1 m hm
      exact ⟨block', hblock', m, hn, hle⟩
  · intro h
    -- no block without a numeric id is dropped
    have hrelayed : ∀ block ∈ blocks, (SessionStreamFilter.new resumeFrom).isDelivered block = true →
        Replayed resumeFrom block := by
      intro block hblock hdelivered
      obtain ⟨s, hs, r, hr, hle⟩ := isDelivered_iff.mp hdelivered
      cases hn : numericId block with
      | none => exact absurd ((h block hblock hn s hs).1 r hr) (not_lt.mpr hle)
      | some n =>
        obtain rfl := Option.some.inj ((getLast?_coercedIds hn).symm.trans hs)
        exact ⟨n, hn, r, hr, hle⟩
    refine ⟨(relayed_eq_iff hcut).mpr hrelayed, ?_⟩
    have hkept : ∀ block ∈ blocks, ¬ Replayed resumeFrom block →
        (SessionStreamFilter.new resumeFrom).isDelivered block = false := fun block hblock hnot ↦
      eq_false_of_ne_true fun hdelivered ↦ hnot (hrelayed block hblock hdelivered)
    have hnumeric : ∀ block ∈ blocks, ∀ n ∈ numericId block, ¬ Replayed resumeFrom block →
        n ∈ ((SessionStreamFilter.new resumeFrom).pushAll chunks).reported := fun block hblock n hn hnot ↦
      (mem_reported_iff hcut).mpr ⟨block, hblock, hkept block hblock hnot, getLast?_coercedIds hn⟩
    -- a number reported without being an id is outrun by an id that is forwarded
    have houtrun : ∀ s ∈ ((SessionStreamFilter.new resumeFrom).pushAll chunks).reported,
        ∃ block ∈ blocks, ¬ Replayed resumeFrom block ∧ ∃ n ∈ numericId block, s ≤ n := by
      intro s hs
      obtain ⟨block, hblock, hdelivered, hlast⟩ := (mem_reported_iff hcut).mp hs
      have hnot : ¬ Replayed resumeFrom block := fun hreplayed ↦ by
        rw [isDelivered_of_replayed hreplayed] at hdelivered
        cases hdelivered
      cases hn : numericId block with
      | some n =>
        obtain rfl := Option.some.inj ((getLast?_coercedIds hn).symm.trans hlast)
        exact ⟨block, hblock, hnot, n, hn, le_rfl⟩
      | none =>
        obtain ⟨hbeyond, block', hblock', n, hn', hle⟩ := h block hblock hn s hlast
        refine ⟨block', hblock', fun ⟨n', hn'', r, hr, hle'⟩ ↦ ?_, n, hn', hle⟩
        obtain rfl := Option.some.inj (hn'.symm.trans hn'')
        exact absurd (hbeyond r hr) (not_lt.mpr (hle.trans hle'))
    have hmark : IsHighWater (raiseAll none ((SessionStreamFilter.new resumeFrom).pushAll chunks).reported)
        (∅ ∪ _) := isHighWater_empty.raiseAll _
    constructor
    · intro m hm
      have hmem : m ∈ ((SessionStreamFilter.new resumeFrom).pushAll chunks).reported :=
        (hmark.1 m hm).resolve_left (Set.notMem_empty m)
      obtain ⟨block, hblock, hnot, n, hn, hle⟩ := houtrun m hmem
      obtain ⟨m', hm', hle'⟩ := hmark.2 n (.inr (hnumeric block hblock n hn hnot))
      obtain rfl := Option.some.inj (hm.symm.trans hm')
      exact ⟨block, hblock, hnot, le_antisymm hle hle' ▸ hn⟩
    · rintro n ⟨block, hblock, hnot, hn⟩
      exact hmark.2 n (.inr (hnumeric block hblock n hn hnot))

instance (resumeFrom : Option ℚ) (blocks : List (List UInt8)) (block : List UInt8) :
    Decidable (Outrun resumeFrom blocks block) :=
  inferInstanceAs (Decidable (numericId block = none → _))

/-- `id:1`, a comment and `id: 2`, with both line endings, in three chunks. -/
def resumedStream : List (List UInt8) :=
  [[105, 100, 58, 49, 10, 13], [10, 58, 10, 10, 105, 100], [58, 32, 50, 13, 10, 13, 10]]

theorem filterLaw_resumedStream : FilterLaw (some 1) resumedStream
    [[105, 100, 58, 49, 10, 13, 10], [58, 10, 10], [105, 100, 58, 32, 50, 13, 10, 13, 10]] [] := by
  have hfed : feedAll LF CR [] resumedStream.flatten
      = ([[105, 100, 58, 49, 10, 13, 10], [58, 10, 10], [105, 100, 58, 32, 50, 13, 10, 13, 10]], []) := by
    decide +kernel
  have hcut : Cut LF CR resumedStream.flatten _ _ := cut_feedAll resumedStream.flatten
  rw [hfed] at hcut
  exact (filterLaw_iff hcut).mpr (by decide +kernel)

/-- `id:` and a blank line. -/
def emptyId : List UInt8 := [105, 100, 58, 10, 10]

/-- A block with an empty id is dropped by every filter that resumes. -/
theorem not_filterLaw_emptyId :
    Cut LF CR [emptyId].flatten [emptyId] [] ∧ ¬ FilterLaw (some 1) [emptyId] [emptyId] [] := by
  have hcut : Cut LF CR [emptyId].flatten [emptyId] [] := cut_feedAll emptyId
  refine ⟨hcut, fun h ↦ ?_⟩
  have hdelivered : (SessionStreamFilter.new (some 1)).isDelivered emptyId = true := by decide +kernel
  obtain ⟨n, hn, -⟩ := (relayed_eq_iff hcut).mp h.relayed emptyId List.mem_cons_self hdelivered
  have hnone : numericId emptyId = none := by decide +kernel
  rw [hnone] at hn
  cases hn

end Amicode.EventResume
