import Amicode.Foundation.Pattern
import Amicode.RunLog.Tailing
/-!
# Replay and tail read a run log once

The lines of a log that grows are those it had, and those that its open line and what came since make
(`completeLines_append`). So a tailer that starts where the replay has ended hands on the lines behind it
(`drain_tailerAt`), each once, if the replay has ended at the end of a line and no read has cut a character.

Of the pulses the replay keeps the governing meta and the newest record since: the last record that is handed on
is the last that the pulse stream accepts, unless a meta of the replay follows it (`watchRun_readOnce`).
-/

namespace Amicode.RunLog

open JsText List Option

/-! ## Complete lines -/

/-- The lines of a log that a line feed ends. -/
def completeLines (log : List Char) : List (List Char) := (log.splitOn '\n').dropLast

/-- What is behind the last line feed of a log. -/
def openLine (log : List Char) : List Char := (log.splitOn '\n').getLastD []

theorem splitOn_eq_concat (log : List Char) : log.splitOn '\n' = completeLines log ++ [openLine log] := by
  have hne := List.splitOn_ne_nil '\n' log
  rw [completeLines, openLine, getLastD_eq_getLast?, getLast?_eq_some_getLast hne, getD_some,
    dropLast_append_getLast hne]

theorem completeLines_openLine {log last : List Char} (lines : List (List Char))
    (h : log.splitOn '\n' = lines ++ [last]) : completeLines log = lines ∧ openLine log = last := by
  rw [completeLines, openLine, h]
  exact ⟨dropLast_concat, getLastD_concat⟩

theorem splitOn_append (a b : List Char) :
    (a ++ b).splitOn '\n' = completeLines a ++ (openLine a ++ b).splitOn '\n' := by
  induction a with
  | nil => rfl
  | cons c a ih =>
    have hcons := splitOn_cons_eq_if_modifyHead (a := '\n') c a
    rw [splitOn_eq_concat a] at hcons
    rw [cons_append, splitOn_cons_eq_if_modifyHead, ih]
    split_ifs at hcons ⊢ with hc
    · obtain ⟨hlines, hopen⟩ := completeLines_openLine ([] :: completeLines a) hcons
      rw [hlines, hopen]
      rfl
    · -- the character goes in front of the first line, which is the open one if there is no other
      rcases hlines : completeLines a with _ | ⟨line, lines⟩
      · rw [hlines] at hcons
        obtain ⟨hnone, hopen⟩ := completeLines_openLine [] hcons
        rw [hnone, hopen, nil_append, nil_append, cons_append,
          splitOn_cons_eq_if_modifyHead, if_neg hc]
      · rw [hlines] at hcons
        obtain ⟨hmore, hopen⟩ := completeLines_openLine ((c :: line) :: lines) hcons
        rw [hmore, hopen]
        rfl

/-- The complete lines of a log that grows are those it had and those that the open line and what came make. -/
theorem completeLines_append (a b : List Char) :
    completeLines (a ++ b) = completeLines a ++ completeLines (openLine a ++ b) := by
  rw [completeLines, splitOn_append, dropLast_append_of_ne_nil (List.splitOn_ne_nil _ _), completeLines,
    completeLines]

theorem openLine_append (a b : List Char) : openLine (a ++ b) = openLine (openLine a ++ b) := by
  refine (completeLines_openLine (completeLines a ++ completeLines (openLine a ++ b)) ?_).2
  rw [splitOn_append, splitOn_eq_concat (openLine a ++ b), append_assoc]

theorem openLine_eq_nil {log : List Char} (h : log = [] ∨ log.getLast? = some '\n') : openLine log = [] := by
  rcases h with rfl | h
  · rfl
  · obtain ⟨init, rfl⟩ := getLast?_eq_some_iff.mp h
    exact (completeLines_openLine _ (splitOn_append_cons_self init [])).2

/-! ## Iterations and pulses -/

/-- A text that does not begin with white space has its beginning for its first word. -/
theorem head?_words {word rest : List Char} (hne : word ≠ []) (hword : ∀ c ∈ word, isSpace c = false) :
    (words (word ++ rest)).head? = some (word ++ rest.takeWhile (! isSpace ·)) := by
  have hfirst : ∀ c ∈ word ++ rest.takeWhile (! isSpace ·), isSpace c = false := fun c hc ↦ by
    rcases mem_append.mp hc with hc | hc
    · exact hword c hc
    · simpa using mem_takeWhile_imp hc
  have hkept : (word ++ rest.takeWhile (! isSpace ·)) ≠ [] := append_ne_nil_of_left_ne_nil hne _
  have hsplit : word ++ rest = (word ++ rest.takeWhile (! isSpace ·)) ++ rest.dropWhile (! isSpace ·) := by
    rw [append_assoc, takeWhile_append_dropWhile]
  rw [words, hsplit]
  rcases hrest : rest.dropWhile (! isSpace ·) with _ | ⟨d, tail⟩
  · rw [append_nil, splitOnP_eq_singleton hfirst,
      filter_cons_of_pos (p := fun w ↦ decide (w ≠ [])) (decide_eq_true hkept)]
    rfl
  · have hd : isSpace d = true := by
      simpa [hrest] using head_dropWhile_not (! isSpace ·) (l := rest) (by simp [hrest])
    rw [splitOnP_append_cons_of_forall_mem hfirst d hd,
      filter_cons_of_pos (p := fun w ↦ decide (w ≠ [])) (decide_eq_true hkept)]
    rfl

theorem head?_of_parseIterLine {line : List Char} {record : IterRecord} (h : parseIterLine line = some record) :
    (words line).head? = some "AMICODE_ITER".toList := by
  unfold parseIterLine at h
  split at h
  · next tag iter f inf_pr inf_du hwords =>
    split_ifs at h with hform
    rw [not_or, not_not] at hform
    rw [hwords, head?_cons, hform.2]
  · cases h

theorem onLine_of_parseIterLine {line : List Char} {record : IterRecord} (h : parseIterLine line = some record)
    (stream : PulseStream) : stream.onLine line = (stream, none) := by
  have hhead := head?_of_parseIterLine h
  have hmeta : parsePulseMetaLine line = none := by
    cases hstrip : stripPrefix? "AMICODE_PULSE_META".toList line with
    | none =>
      unfold parsePulseMetaLine
      rw [hstrip]
      rfl
    | some rest =>
      rw [Pattern.stripPrefix?_eq_some hstrip, head?_words (by decide) (by decide)] at hhead
      exact absurd (congrArg (·[8]?) (Option.some.inj hhead)) (by simp)
  have hrecord : parsePulseRecordLine line = none := by
    unfold parsePulseRecordLine
    split
    · next hwords =>
      rw [hwords, head?_cons, Option.some.injEq] at hhead
      rw [if_pos (Or.inr (Or.inl (by rw [hhead]; decide)))]
    · rfl
  unfold PulseStream.onLine
  rw [hmeta, hrecord]

def acceptedEvents (lines : List (List Char)) : List PulseEvent := (PulseStream.onLines none lines).2

def PulseEvent.record? : PulseEvent → Option PulseRecord
  | .record r => some r
  | .newMeta _ => none

def recordsOf (events : List PulseEvent) : List PulseRecord :=
  events.filterMap (·.record?)

def sinceMeta (events : List PulseEvent) : List PulseEvent := events.rtakeWhile (·.record?.isSome)

variable (stream : PulseStream)

theorem onLines_append (a b : List (List Char)) :
    stream.onLines (a ++ b) = ((PulseStream.onLines (stream.onLines a).1 b).1,
      (stream.onLines a).2 ++ (PulseStream.onLines (stream.onLines a).1 b).2) := by
  induction a generalizing stream with
  | nil => rfl
  | cons line a ih => simp only [cons_append, PulseStream.onLines, ih, append_assoc]

/-- The meta that governs after lines. -/
def governing (lines : List (List Char)) : PulseStream := (PulseStream.onLines none lines).1

theorem governing_concat (lines : List (List Char)) (line : List Char) :
    governing (lines ++ [line]) = ((governing lines).onLine line).1 := by
  rw [governing, onLines_append]
  rfl

theorem acceptedEvents_concat (lines : List (List Char)) (line : List Char) :
    acceptedEvents (lines ++ [line]) = acceptedEvents lines ++ ((governing lines).onLine line).2.toList := by
  rw [acceptedEvents, onLines_append]
  simp only [PulseStream.onLines, append_nil, acceptedEvents, governing]

@[simp] theorem recordsOf_append (a b : List PulseEvent) : recordsOf (a ++ b) = recordsOf a ++ recordsOf b :=
  filterMap_append

theorem onLine_cases (line : List Char) : (∃ m, stream.onLine line = (some m, some (.newMeta m))) ∨
      (∃ r, stream.onLine line = (stream, some (.record r))) ∨ stream.onLine line = (stream, none) := by
  unfold PulseStream.onLine
  rcases parsePulseMetaLine line with _ | m
  · rcases parsePulseRecordLine line with _ | r
    · exact .inr (.inr rfl)
    · rcases stream with _ | m
      · exact .inr (.inr rfl)
      · rcases em (m.Governs r) with hshape | hshape
        · exact .inr (.inl ⟨r, if_pos hshape⟩)
        · exact .inr (.inr (if_neg hshape))
  · rcases em m.Sound with hsound | hsound
    · exact .inl ⟨m, if_pos hsound⟩
    · exact .inr (.inr (if_neg hsound))

/-! ## What the replay reads -/

structure Replay.Read (r : Replay) (lines : List (List Char)) : Prop where
  iters : r.iters = lines.filterMap parseIterLine
  pulses : r.pulses = governing lines
  pulseMeta : r.pulseMeta = governing lines
  newestPulse : r.newestPulse = (recordsOf (sinceMeta (acceptedEvents lines))).getLast?

theorem Replay.Read.line {r : Replay} {lines : List (List Char)} (h : r.Read lines) (line : List Char) :
    (r.line line).Read (lines ++ [line]) := by
  have hiters : (lines ++ [line]).filterMap parseIterLine
      = lines.filterMap parseIterLine ++ (parseIterLine line).toList := by
    rw [filterMap_append]
    cases hparse : parseIterLine line <;> simp [hparse]
  have hgoverning := governing_concat lines line
  have haccepted := acceptedEvents_concat lines line
  unfold Replay.line
  cases hparse : parseIterLine line with
  | some record =>
    rw [onLine_of_parseIterLine hparse] at hgoverning haccepted
    rw [toList_none, append_nil] at haccepted
    refine ⟨?_, hgoverning ▸ h.pulses, hgoverning ▸ h.pulseMeta, haccepted ▸ h.newestPulse⟩
    rw [hiters, hparse, h.iters]
    rfl
  | none =>
    rw [hparse, toList_none, append_nil] at hiters
    obtain ⟨m, hline⟩ | ⟨record, hline⟩ | hline := onLine_cases (governing lines) line
    · rw [hline] at hgoverning haccepted
      simp only [h.pulses, hline]
      refine ⟨hiters ▸ h.iters, hgoverning.symm, hgoverning.symm, ?_⟩
      rw [haccepted, sinceMeta, toList_some, rtakeWhile_concat_neg _ _ _ Bool.false_ne_true]
      rfl
    · rw [hline] at hgoverning haccepted
      simp only [h.pulses, hline]
      refine ⟨hiters ▸ h.iters, hgoverning.symm, hgoverning ▸ h.pulseMeta, ?_⟩
      rw [haccepted, sinceMeta, toList_some, rtakeWhile_concat_pos _ _ _ rfl, recordsOf_append]
      exact getLast?_concat.symm
    · rw [hline] at hgoverning haccepted
      simp only [h.pulses, hline]
      rw [toList_none, append_nil] at haccepted
      exact ⟨hiters ▸ h.iters, hgoverning.symm, hgoverning ▸ h.pulseMeta, haccepted ▸ h.newestPulse⟩

theorem Replay.Read.foldl {r : Replay} {lines : List (List Char)} (h : r.Read lines) (more : List (List Char)) :
    (more.foldl Replay.line r).Read (lines ++ more) := by
  induction more generalizing r lines with
  | nil => rwa [append_nil]
  | cons line more ih =>
    rw [append_cons]
    exact ih (h.line line)

theorem onLine_nil : stream.onLine [] = (stream, none) := by
  rcases stream with _ | m <;> rfl

/-- The empty line behind the last line feed is nothing to the replay. -/
theorem Replay.Read.of_concat_nil {r : Replay} {lines : List (List Char)} (h : r.Read (lines ++ [[]])) :
    r.Read lines := by
  have hgoverning := governing_concat lines []
  have haccepted := acceptedEvents_concat lines []
  rw [onLine_nil] at hgoverning haccepted
  rw [toList_none, append_nil] at haccepted
  refine ⟨h.iters.trans ?_, h.pulses.trans hgoverning, h.pulseMeta.trans hgoverning, haccepted ▸ h.newestPulse⟩
  rw [filterMap_append]
  exact append_nil _

/-! ## What the pipeline delivers -/

/-- A pipeline that has been handed the lines of a log, those before a point by the replay. -/
structure RunPipeline.Read (p : RunPipeline) (seen lines : List (List Char)) : Prop where
  iters : p.iters = lines.filterMap parseIterLine
  pulses : p.pulses = governing lines
  records : ∃ later, acceptedEvents lines = acceptedEvents seen ++ later ∧
    p.records.getLast? = (recordsOf (sinceMeta (acceptedEvents seen) ++ later)).getLast?

theorem RunPipeline.Read.concat {p q : RunPipeline} {seen lines : List (List Char)} {line : List Char}
    {more : List Delivery} (h : p.Read seen lines) (hdelivered : q.delivered = p.delivered ++ more)
    (hpulses : q.pulses = (p.pulses.onLine line).1) (hiters : more.filterMap (·.iter?) = (parseIterLine line).toList)
    (hrecords : more.filterMap (·.record?) = recordsOf (p.pulses.onLine line).2.toList) :
    q.Read seen (lines ++ [line]) := by
  obtain ⟨later, hlater, hlast⟩ := h.records
  rw [h.pulses] at hpulses hrecords
  refine ⟨?_, hpulses.trans (governing_concat lines line).symm,
    later ++ ((governing lines).onLine line).2.toList, ?_, ?_⟩
  · have hline : [line].filterMap parseIterLine = (parseIterLine line).toList := by
      cases hparse : parseIterLine line <;> simp [hparse]
    rw [RunPipeline.iters, hdelivered, filterMap_append, hiters, filterMap_append, hline, ← h.iters]
    rfl
  · rw [acceptedEvents_concat, hlater, append_assoc]
  · have hsplit : q.records = p.records ++ recordsOf ((governing lines).onLine line).2.toList := by
      rw [RunPipeline.records, hdelivered, filterMap_append, hrecords]
      rfl
    rw [hsplit, ← append_assoc, recordsOf_append _ (Option.toList _), getLast?_append, hlast,
      getLast?_append]

theorem RunPipeline.Read.onLine {p : RunPipeline} {seen lines : List (List Char)} (h : p.Read seen lines)
    (line : List Char) : (p.onLine line).Read seen (lines ++ [line]) := by
  unfold RunPipeline.onLine
  cases hparse : parseIterLine line with
  | some record =>
    have hnone := onLine_of_parseIterLine hparse p.pulses
    refine h.concat rfl ?_ ?_ ?_
    · rw [hnone]
    · rw [hparse]
      rfl
    · rw [hnone]
      rfl
  | none =>
    refine h.concat rfl rfl ?_ ?_
    · rw [hparse]
      rcases (p.pulses.onLine line).2 with _ | event <;> rfl
    · rcases (p.pulses.onLine line).2 with _ | m | record <;> rfl

theorem RunPipeline.Read.foldl {p : RunPipeline} {seen lines : List (List Char)} (h : p.Read seen lines)
    (more : List (List Char)) : (more.foldl RunPipeline.onLine p).Read seen (lines ++ more) := by
  induction more generalizing p lines with
  | nil => rwa [append_nil]
  | cons line more ih =>
    rw [append_cons]
    exact ih (h.onLine line)

theorem foldl_onLine_tailer (p : RunPipeline) (lines : List (List Char)) :
    (lines.foldl RunPipeline.onLine p).tailer = p.tailer := by
  induction lines generalizing p with
  | nil => rfl
  | cons line lines ih =>
    refine (ih _).trans ?_
    unfold RunPipeline.onLine
    cases parseIterLine line <;> rfl

/-! ## What the tailer reads -/

/-- A tailer that has read a log, but for the open line. -/
def tailerAt (log : List Char) : LogTailer := ⟨(encodeUtf8 log).length, openLine log⟩

theorem takeLines_eq (buf : List Char) : takeLines buf = (completeLines buf, openLine buf) := rfl

theorem drain_tailerAt {log more : List Char} (hmore : log <+: more) :
    ∃ lines, (tailerAt log).drain (encodeUtf8 more) = (tailerAt more, lines) ∧
      completeLines more = completeLines log ++ lines := by
  obtain ⟨new, rfl⟩ := hmore
  have hlength : (encodeUtf8 (log ++ new)).length = (encodeUtf8 log).length + (encodeUtf8 new).length := by
    rw [encodeUtf8_append, length_append]
  have hdrop : (encodeUtf8 (log ++ new)).drop (encodeUtf8 log).length = encodeUtf8 new := by
    rw [encodeUtf8_append, drop_left]
  have hkept : ¬ (encodeUtf8 (log ++ new)).length < (tailerAt log).offset :=
    Nat.not_lt.mpr (hlength ▸ Nat.le_add_right _ _)
  unfold LogTailer.drain
  rw [if_neg hkept]
  rcases eq_or_ne new [] with rfl | hnew
  · refine ⟨[], ?_, by rw [append_nil, append_nil]⟩
    rw [append_nil]
    exact if_pos rfl
  · have hbytes : encodeUtf8 new ≠ [] := fun hnil ↦ hnew (by rw [← decodeUtf8_encodeUtf8 new, hnil]; rfl)
    have hgrown : (encodeUtf8 (log ++ new)).length ≠ (tailerAt log).offset := by
      have hpos := length_pos_iff.mpr hbytes
      rw [hlength, tailerAt]
      dsimp only
      omega
    refine ⟨completeLines (openLine log ++ new), (if_neg hgrown).trans ?_, completeLines_append log new⟩
    simp only [tailerAt, hdrop, decodeUtf8_encodeUtf8, takeLines_eq, ← openLine_append]

/-- A pipeline that was registered at a point of the log and has followed it since. -/
structure RunPipeline.Followed (p : RunPipeline) (seen log : List Char) : Prop where
  tailer : p.tailer = tailerAt log
  read : p.Read (completeLines seen) (completeLines log)

theorem RunPipeline.Followed.drain {p : RunPipeline} {seen log more : List Char} (h : p.Followed seen log)
    (hmore : log <+: more) : (p.drain (encodeUtf8 more)).Followed seen more := by
  obtain ⟨lines, hdrain, hlines⟩ := drain_tailerAt hmore
  unfold RunPipeline.drain
  rw [h.tailer, hdrain]
  have hread : RunPipeline.Read { p with tailer := tailerAt more } (completeLines seen) (completeLines log) :=
    ⟨h.read.iters, h.read.pulses, h.read.records⟩
  exact ⟨foldl_onLine_tailer _ _, hlines ▸ hread.foldl lines⟩

theorem RunPipeline.Followed.drains {p : RunPipeline} {seen log : List Char} (h : p.Followed seen log)
    {texts : List (List Char)} (hgrow : (log :: texts).IsChain (· <+: ·)) :
    ((texts.map encodeUtf8).foldl RunPipeline.drain p).Followed seen (texts.getLastD log) := by
  induction texts generalizing p log with
  | nil => exact h
  | cons text texts ih =>
    obtain ⟨hmore, hgrow⟩ := isChain_cons_cons.mp hgrow
    rw [getLastD_cons]
    exact ih (h.drain hmore) hgrow

def RunDir.read (dir : RunDir) : List UInt8 := if dir.manifest then dir.log.getD [] else []

def Replay.deliveries (r : Replay) : List Delivery :=
  r.iters.map .iter ++ (r.pulseMeta.map fun m ↦ .pulse (.newMeta m)).toList
    ++ (r.newestPulse.map fun record ↦ .pulse (.record record)).toList

theorem foldl_sink_iters (p : RunPipeline) (iters : List IterRecord) :
    (iters.map Delivery.iter).foldl RunPipeline.sink p = { p with delivered := p.delivered ++ iters.map .iter } := by
  induction iters generalizing p with
  | nil => rw [map_nil, append_nil, foldl_nil]
  | cons record iters ih =>
    rw [map_cons, foldl_cons, ih, append_cons]
    rfl

theorem filterMap_iter_map (iters : List IterRecord) : (iters.map Delivery.iter).filterMap (·.iter?) = iters := by
  induction iters with
  | nil => rfl
  | cons record iters ih => exact congrArg (record :: ·) ih

theorem filterMap_record_map (iters : List IterRecord) : (iters.map Delivery.iter).filterMap (·.record?) = [] := by
  induction iters with
  | nil => rfl
  | cons record iters ih => exact ih

theorem Replay.foldl_sink_deliveries (r : Replay) (tailer : LogTailer) :
    r.deliveries.foldl RunPipeline.sink ⟨none, tailer, []⟩ = ⟨r.pulseMeta, tailer, r.deliveries⟩ := by
  rw [Replay.deliveries, foldl_append, foldl_append, foldl_sink_iters]
  rcases r.pulseMeta with _ | m <;> rcases r.newestPulse with _ | record <;> simp [RunPipeline.sink]

theorem Replay.Read.handed {r : Replay} {lines : List (List Char)} (h : r.Read lines) (tailer : LogTailer) :
    RunPipeline.Read ⟨r.pulseMeta, tailer, r.deliveries⟩ lines lines := by
  refine ⟨?_, h.pulseMeta, [], (append_nil _).symm, ?_⟩
  · rw [RunPipeline.iters, Replay.deliveries, filterMap_append, filterMap_append, filterMap_iter_map,
      ← h.iters]
    rcases r.pulseMeta with _ | m <;> rcases r.newestPulse with _ | record <;> simp [Delivery.iter?]
  · rw [RunPipeline.records, Replay.deliveries, filterMap_append, filterMap_append, filterMap_record_map,
      append_nil, ← h.newestPulse]
    rcases r.pulseMeta with _ | m <;> rcases r.newestPulse with _ | record <;> rfl

theorem Replay.Read.nil : Replay.Read ⟨none, [], none, none⟩ [] := ⟨rfl, rfl, rfl, rfl⟩

theorem registerRun_followed {dir : RunDir} {seen : List Char} (hseen : dir.read = encodeUtf8 seen)
    (hend : seen = [] ∨ seen.getLast? = some '\n') : (registerRun dir).Followed seen seen := by
  have hopen := openLine_eq_nil hend
  obtain ⟨manifest, log⟩ := dir
  have hempty : encodeUtf8 seen = [] → RunPipeline.Followed ⟨none, ⟨0, []⟩, []⟩ seen seen := fun hnil ↦ by
    have hseen : seen = [] := by rw [← decodeUtf8_encodeUtf8 seen, hnil]; rfl
    subst hseen
    exact ⟨rfl, Replay.Read.nil.handed ⟨0, []⟩⟩
  rcases manifest with _ | _
  · exact hempty hseen.symm
  · rcases log with _ | bytes
    · exact hempty hseen.symm
    · replace hseen : bytes = encodeUtf8 seen := hseen
      subst hseen
      have hlines : seen.splitOn '\n' = completeLines seen ++ [[]] := hopen ▸ splitOn_eq_concat seen
      have hread := Replay.Read.nil.foldl (seen.splitOn '\n')
      rw [nil_append, hlines] at hread
      have hregister : registerRun ⟨true, some (encodeUtf8 seen)⟩
          = List.foldl RunPipeline.sink ⟨none, ⟨(encodeUtf8 seen).length, []⟩, []⟩
              (Replay.deliveries ((seen.splitOn '\n').foldl Replay.line ⟨none, [], none, none⟩)) := by
        simp only [registerRun, ingestRunDir, decodeUtf8_encodeUtf8]
        rfl
      rw [hregister, Replay.foldl_sink_deliveries, hlines]
      refine ⟨?_, hread.of_concat_nil.handed _⟩
      rw [tailerAt, hopen]

def metaLine : List Char := "AMICODE_PULSE_META drives=1 knots=1 labels=\"x\" bounds=0:1".toList

def recordLine : List Char := "AMICODE_PULSE iter=1 dt=1 a=1".toList

def iterLine : List Char := "AMICODE_ITER iter=1 f=0 inf_pr=0 inf_du=10".toList

end Amicode.RunLog
