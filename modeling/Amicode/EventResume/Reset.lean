import Amicode.Foundation.HighWater
import Amicode.Foundation.JsNumber
import Amicode.Foundation.StepMachine

/-!
# Resuming a session's event stream

The relay records the last sequence number it delivered to the client for each session. When the client
reconnects the stream of a session, the relay asks for what follows that number, and drops what is replayed
at or below it (`session_event_resume.ts`).

A connection has its own filter, which cuts the bytes of the stream into frames at blank lines, forwards
the frames as they came, and reports the number of each one it forwards. Numbers are doubles, and the mark
of a session is the greatest one reported.
-/

namespace Amicode.EventResume

open HighWater

/-! ## Frames -/

/-- `/^\/api\/session\/([^/]+)\/event$/`: the session whose stream a path names. -/
def matchSessionEventPath (pathname : String) : Option String :=
  (JsText.stripPrefix? "/api/session/".toList pathname.toList).bind fun rest ↦
    let sessionID := rest.takeWhile (· ≠ '/')
    if sessionID ≠ [] ∧ rest.dropWhile (· ≠ '/') = "/event".toList then some (String.ofList sessionID)
    else none

/-- The number of a block: its last `id:` line that has one. -/
def blockSeq (block : List Char) : Option ℚ :=
  (JsText.splitLines block).foldl (fun seq line ↦
    match JsText.stripPrefix? "id:".toList line with
    | some value => (JsNumber.ofText? (JsText.trim value)).or seq
    | none => seq) none

def LF : UInt8 := 10

def CR : UInt8 := 13

/-! ## The filter -/

structure SessionStreamFilter where
  /-- The number at or below which a frame was already delivered. -/
  resumeFrom : Option ℚ
  /-- The partial frame, in the pieces it came in. -/
  parts : List (List UInt8)
  /-- The last two bytes of the partial frame, or fewer if it has fewer. -/
  tail : List UInt8

/-- A filter that has read nothing. -/
def SessionStreamFilter.new (resumeFrom : Option ℚ) : SessionStreamFilter := ⟨resumeFrom, [], []⟩

/-- The state of the loop over a chunk. -/
structure Scan where
  parts : List (List UInt8)
  /-- Where the current frame resumes in the chunk. -/
  start : ℕ
  /-- The first position of the current frame; it is negative in the tail. -/
  floor : ℤ
  frames : List (List UInt8)

/-- The byte at a position of the chunk, which reaches into the tail but not before the frame. -/
def byteAt (chunk tail : List UInt8) (floor i : ℤ) : Option UInt8 :=
  if i < floor then none
  else if 0 ≤ i then chunk[i.toNat]?
  else tail[(tail.length + i).toNat]?

/-- The loop body, at a line feed. The frame ends there if the line is empty. -/
def scanLineFeed (chunk tail : List UInt8) (s : Scan) (lf : ℕ) : Scan :=
  let prev := byteAt chunk tail s.floor (lf - 1)
  if prev ≠ some LF ∧ ¬ (prev = some CR ∧ byteAt chunk tail s.floor (lf - 2) = some LF) then s
  else
    { parts := []
      start := lf + 1
      floor := lf + 1
      frames := s.frames ++ [(s.parts ++ [(chunk.take (lf + 1)).drop s.start]).flatten] }

def lineFeeds (chunk : List UInt8) : List ℕ :=
  (List.range chunk.length).filter fun i ↦ chunk[i]? = some LF

def lastTwo (bytes : List UInt8) : List UInt8 := bytes.drop (bytes.length - 2)

/-- A frame the client already has. -/
def SessionStreamFilter.isDelivered (filter : SessionStreamFilter) (frame : List UInt8) : Bool :=
  match blockSeq (JsText.decodeUtf8 frame), filter.resumeFrom with
  | some seq, some resumeFrom => seq ≤ resumeFrom
  | _, _ => false

/-- What a push leaves and lets out. -/
structure PushResult where
  filter : SessionStreamFilter
  /-- The numbers reported to the store, in order. -/
  reported : List ℚ
  /-- The bytes for the client. -/
  out : List UInt8

/-- `push`: feed upstream bytes. -/
def SessionStreamFilter.push (filter : SessionStreamFilter) (c : List UInt8) : PushResult :=
  if c = [] then ⟨filter, [], []⟩
  else
    let scan := (lineFeeds c).foldl (scanLineFeed c filter.tail)
      ⟨filter.parts, 0, -(filter.tail.length : ℤ), []⟩
    let forwarded := scan.frames.filter fun frame ↦ !filter.isDelivered frame
    let rest := c.drop scan.start
    let filter :=
      if scan.start < c.length then
        { filter with
          parts := scan.parts ++ [rest]
          tail :=
            if 2 ≤ rest.length then lastTwo rest
            else if scan.start = 0 then lastTwo (filter.tail ++ rest)
            else rest }
      else { filter with parts := scan.parts, tail := [] }
    { filter := filter
      reported := forwarded.filterMap fun frame ↦ blockSeq (JsText.decodeUtf8 frame)
      out := forwarded.flatten }

/-- `flush`: the stream ended. -/
def SessionStreamFilter.flush (filter : SessionStreamFilter) : SessionStreamFilter × List UInt8 :=
  if filter.parts = [] then (filter, [])
  else ({ filter with parts := [], tail := [] }, filter.parts.flatten)

/-! ## The store -/

/-- What the relay reads of a request's address. -/
structure RequestUrl where
  pathname : String
  /-- The `after` parameter. -/
  after : Option String

structure SessionResumePlan where
  sessionID : String
  /-- The number to ask the engine to continue after; its numeral goes into the address. -/
  afterToInject : Option ℚ
  filter : SessionStreamFilter

/-- The marks of the sessions, and the filters planned so far. A filter holds the store it reports to. -/
structure SessionEventResume where
  delivered : String → Option ℚ
  filters : List (String × SessionStreamFilter)

namespace SessionEventResume

def initial : SessionEventResume := ⟨fun _ ↦ none, []⟩

/-- `plan`: how to resume the stream a request names, if it names one. -/
def plan? (s : SessionEventResume) (url : RequestUrl) : Option SessionResumePlan :=
  (matchSessionEventPath url.pathname).map fun sessionID ↦
    let explicit := url.after.bind fun raw ↦ JsNumber.ofText? raw.toList
    let cursor := s.delivered sessionID
    { sessionID
      afterToInject := if url.after = none then cursor else none
      filter := .new (explicit.or cursor) }

def record (s : SessionEventResume) (sessionID : String) (reported : List ℚ) : SessionEventResume :=
  let mark := raiseAll (s.delivered sessionID) reported
  { s with delivered := Function.update s.delivered sessionID mark }

/-- What happens at the relay. -/
inductive Op
  | plan (url : RequestUrl)
  /-- Bytes arrive for a filter. -/
  | push (k : ℕ) (chunk : List UInt8)
  /-- The stream of a filter ends. -/
  | flush (k : ℕ)
  /-- The attachment switched. -/
  | reset

/-- The relay after an operation. -/
def step (s : SessionEventResume) : Op → SessionEventResume
  | .plan url =>
    match s.plan? url with
    | some plan => { s with filters := s.filters ++ [(plan.sessionID, plan.filter)] }
    | none => s
  | .push k chunk =>
    match s.filters[k]? with
    | some (sessionID, filter) =>
      let pushed := filter.push chunk
      { s with filters := s.filters.set k (sessionID, pushed.filter) }.record sessionID pushed.reported
    | none => s
  | .flush k =>
    match s.filters[k]? with
    | some (sessionID, filter) => { s with filters := s.filters.set k (sessionID, filter.flush.1) }
    | none => s
  | .reset => { s with delivered := fun _ ↦ none }

end SessionEventResume

end Amicode.EventResume

/-!
# A reset and the connections it outlives

When the attachment switches to another server, the marks of the old one mean nothing, and the store is
cleared. The filters of the connections still open report to the same store, so a frame that one of them
forwards afterwards writes a number of the old server back.

What is owed is that the mark of a session is the greatest number forwarded, since the last reset, by the
filters planned since (`sticks`), and that it never goes down without a reset (`rises`). The second holds of
every step. The first holds of exactly the runs in which no filter outlives a reset to forward a number
beyond the mark of its session (`resetLaw_run_iff`).
-/

namespace Amicode.EventResume

open HighWater StepMachine

/-! ## The laws -/

/-- What is observed of a step. -/
inductive ResumeEvent
  /-- The filter with this index was planned. -/
  | planned (k : ℕ)
  /-- A filter forwarded a numbered frame of its session. -/
  | forwarded (k : ℕ) (sessionID : String) (seq : ℚ)
  | reset
deriving DecidableEq

namespace SessionEventResume

/-- The numbers a push reports, with their session. -/
def reports (s : SessionEventResume) (k : ℕ) (chunk : List UInt8) : Option (String × List ℚ) :=
  s.filters[k]?.map fun e ↦ (e.1, (e.2.push chunk).reported)

def observed (s : SessionEventResume) : Op → List ResumeEvent
  | .plan url => if (s.plan? url).isSome then [.planned s.filters.length] else []
  | .push k chunk =>
    match s.reports k chunk with
    | some (sessionID, reported) => reported.map (.forwarded k sessionID)
    | none => []
  | .flush _ => []
  | .reset => [.reset]

end SessionEventResume

/-- A relay with the log of its events. -/
abbrev Logged := SessionEventResume × List ResumeEvent

abbrev Logged.step : Logged → SessionEventResume.Op → Logged :=
  logged SessionEventResume.step SessionEventResume.observed

/-- The numbers of a session forwarded since the last reset by filters planned since. -/
def freshSeqs (log : List ResumeEvent) (sessionID : String) : Set ℚ :=
  {seq | ∃ k, Since .reset [.planned k, .forwarded k sessionID seq] log}

/-- The mark of every session is what the filters planned since the last reset forwarded. -/
def Sticks (s : Logged) : Prop := ∀ sessionID, IsHighWater (s.1.delivered sessionID) (freshSeqs s.2 sessionID)

/-- What is owed of a step. -/
structure ResetLaw (s : Logged) (op : SessionEventResume.Op) : Prop where
  sticks : Sticks (s.step op)
  rises : op ≠ .reset → ∀ sessionID, ∀ c ∈ s.1.delivered sessionID,
    Covers ((s.step op).1.delivered sessionID) c

/-- A filter that was planned before the last reset forwards no number beyond the mark of its session. -/
def Harmless (s : Logged) : SessionEventResume.Op → Prop
  | .push k chunk => Since .reset [.planned k] s.2 ∨ ∀ e ∈ s.1.reports k chunk, ∀ seq ∈ e.2,
      Covers (s.1.delivered e.1) seq
  | .plan _ | .flush _ | .reset => True

instance (s : Logged) : (op : SessionEventResume.Op) → Decidable (Harmless s op)
  | .push k chunk => inferInstanceAs (Decidable (Since .reset [.planned k] s.2
      ∨ ∀ e ∈ s.1.reports k chunk, ∀ seq ∈ e.2, Covers (s.1.delivered e.1) seq))
  | .plan _ | .flush _ | .reset => .isTrue trivial

/-! ## What a step does to the marks -/

variable {s : SessionEventResume} {log : List ResumeEvent}

namespace SessionEventResume

variable (s)

theorem delivered_plan (url : RequestUrl) : (s.step (.plan url)).delivered = s.delivered := by
  rw [step]
  split <;> rfl

theorem delivered_flush (k : ℕ) : (s.step (.flush k)).delivered = s.delivered := by
  rw [step]
  split <;> rfl

variable {s}

theorem step_push_of_none {k : ℕ} {chunk : List UInt8} (h : s.reports k chunk = none) :
    s.step (.push k chunk) = s := by
  have hnone : s.filters[k]? = none := by simpa [reports] using h
  rw [step, hnone]

theorem delivered_push_of_some {k : ℕ} {chunk : List UInt8} {sessionID : String} {reported : List ℚ}
    (h : s.reports k chunk = some (sessionID, reported)) :
    (s.step (.push k chunk)).delivered = Function.update s.delivered sessionID
      (raiseAll (s.delivered sessionID) reported) := by
  obtain ⟨⟨sid, filter⟩, hfilter, heq⟩ := Option.map_eq_some_iff.mp h
  obtain ⟨rfl, rfl⟩ := Prod.mk.inj heq
  rw [step, hfilter]
  rfl

end SessionEventResume

/-! ## What a step does to the numbers that count -/

variable {sessionID : String}

theorem freshSeqs_append_of_not_mem {later : List ResumeEvent}
    (hreset : .reset ∉ later) (h : ∀ k seq, .forwarded k sessionID seq ∉ later) :
    freshSeqs (log ++ later) sessionID = freshSeqs log sessionID := by
  ext seq
  constructor
  · rintro ⟨k, hsince⟩
    exact ⟨k, @Since.of_append_last _ _ _ [.planned k] _ _ hsince (h k seq)⟩
  · rintro ⟨k, hsince⟩
    exact ⟨k, hsince.append hreset⟩

theorem freshSeqs_reset (log : List ResumeEvent) (sessionID : String) :
    freshSeqs (log ++ [.reset]) sessionID = ∅ := by
  rw [Set.eq_empty_iff_forall_notMem]
  rintro seq ⟨k, hsince⟩
  exact not_since_concat_barrier log hsince

private theorem not_mem_map_forwarded {k : ℕ} (reported : List ℚ)
    (e : ResumeEvent) (h : ∀ seq, e ≠ .forwarded k sessionID seq) :
    e ∉ reported.map (ResumeEvent.forwarded k sessionID) := by
  intro hmem
  obtain ⟨seq, -, rfl⟩ := List.mem_map.mp hmem
  exact h seq rfl

theorem mem_freshSeqs_push_iff {k : ℕ} {reported : List ℚ} {seq : ℚ} :
    seq ∈ freshSeqs (log ++ reported.map (.forwarded k sessionID)) sessionID
      ↔ seq ∈ freshSeqs log sessionID ∨ Since .reset [.planned k] log ∧ seq ∈ reported := by
  have hreset : .reset ∉ reported.map (ResumeEvent.forwarded k sessionID) :=
    not_mem_map_forwarded reported .reset (by simp)
  constructor
  · rintro ⟨k', hsince⟩
    by_cases hmem : .forwarded k' sessionID seq ∈ reported.map (ResumeEvent.forwarded k sessionID)
    · obtain ⟨seq', hseq', heq⟩ := List.mem_map.mp hmem
      obtain ⟨rfl, -, rfl⟩ := ResumeEvent.forwarded.inj heq
      have hfirst : Since .reset [.planned k]
          (log ++ reported.map (ResumeEvent.forwarded k sessionID)) := hsince.sublist (by simp)
      exact Or.inr ⟨((since_append_iff (by simp)).mp hfirst).1, hseq'⟩
    · exact Or.inl ⟨k', @Since.of_append_last _ _ _ [.planned k'] _ _ hsince hmem⟩
  · rintro (⟨k', hsince⟩ | ⟨hfresh, hmem⟩)
    · exact ⟨k', hsince.append hreset⟩
    · exact ⟨k, hfresh.append_of_mem (List.mem_map_of_mem hmem) hreset⟩

/-! ## The steps -/

theorem SessionEventResume.rises (s : SessionEventResume) {op : SessionEventResume.Op}
    (hop : op ≠ .reset) (sessionID : String) {c : ℚ} (hc : c ∈ s.delivered sessionID) :
    Covers ((s.step op).delivered sessionID) c := by
  have hself : Covers (s.delivered sessionID) c := ⟨c, hc, le_refl c⟩
  rcases op with url | ⟨k, chunk⟩ | k | _
  · rwa [delivered_plan]
  · rcases hreports : s.reports k chunk with _ | ⟨sid, reported⟩
    · rwa [step_push_of_none hreports]
    · rw [delivered_push_of_some hreports]
      by_cases hsid : sessionID = sid
      · subst hsid
        rw [Function.update_self]
        exact covers_raiseAll hc reported
      · rwa [Function.update_of_ne hsid]
  · rwa [delivered_flush]
  · exact absurd rfl hop

/-- A push into a filter keeps the marks right exactly if it is harmless. -/
theorem sticks_push_iff {k : ℕ} {chunk : List UInt8} (hs : Sticks (s, log)) :
    Sticks (Logged.step (s, log) (.push k chunk)) ↔ Harmless (s, log) (.push k chunk) := by
  rcases hreports : s.reports k chunk with _ | ⟨sid, reported⟩
  · have hstep : Logged.step (s, log) (.push k chunk) = (s, log) := by
      rw [Logged.step, logged, SessionEventResume.step_push_of_none hreports,
        SessionEventResume.observed, hreports, List.append_nil]
    rw [hstep]
    exact ⟨fun _ ↦ Or.inr (by simp [hreports]), fun _ ↦ hs⟩
  · have hlog : (Logged.step (s, log) (.push k chunk)).2 = log ++ reported.map (.forwarded k sid) := by
      rw [Logged.step, logged, SessionEventResume.observed, hreports]
    have hdelivered := SessionEventResume.delivered_push_of_some hreports
    have hsid : IsHighWater ((s.step (.push k chunk)).delivered sid)
        (freshSeqs (log ++ reported.map (.forwarded k sid)) sid) ↔ Harmless (s, log) (.push k chunk) := by
      have hharmless : Harmless (s, log) (.push k chunk) ↔ Since .reset [.planned k] log
          ∨ ∀ seq ∈ reported, Covers (s.delivered sid) seq := by
        simp [Harmless, hreports]
      rw [hdelivered, Function.update_self, hharmless]
      by_cases hfresh : Since .reset [.planned k] log
      · have hseqs : freshSeqs (log ++ reported.map (.forwarded k sid)) sid
            = freshSeqs log sid ∪ {x | x ∈ reported} := by
          ext seq
          simp only [mem_freshSeqs_push_iff, hfresh, true_and, Set.mem_union, Set.mem_ofPred_eq]
        rw [hseqs]
        exact ⟨fun _ ↦ Or.inl hfresh, fun _ ↦ (hs sid).raiseAll reported⟩
      · have hseqs : freshSeqs (log ++ reported.map (.forwarded k sid)) sid = freshSeqs log sid := by
          ext seq
          simp only [mem_freshSeqs_push_iff, hfresh, false_and, or_false]
        rw [hseqs, or_iff_right hfresh, ← raiseAll_eq_self_iff]
        refine ⟨fun h ↦ h.unique (hs sid), fun h ↦ ?_⟩
        rw [h]
        exact hs sid
    constructor
    · intro h
      exact hsid.mp (hlog ▸ h sid)
    · intro h sid'
      rw [hlog]
      by_cases hne : sid' = sid
      · subst hne
        exact hsid.mpr h
      · have hsame : freshSeqs (log ++ reported.map (.forwarded k sid)) sid' = freshSeqs log sid' := by
          refine freshSeqs_append_of_not_mem (not_mem_map_forwarded reported _ (by simp)) fun k' seq ↦ ?_
          refine not_mem_map_forwarded reported _ fun seq' heq ↦ hne ?_
          exact (ResumeEvent.forwarded.inj heq).2.1
        rw [hsame]
        change IsHighWater ((s.step (.push k chunk)).delivered sid') _
        rw [hdelivered, Function.update_of_ne hne]
        exact hs sid'

theorem sticks_step_iff (s : Logged) (op : SessionEventResume.Op) (hs : Sticks s) :
    Sticks (s.step op) ↔ Harmless s op := by
  obtain ⟨s, log⟩ := s
  rcases op with url | ⟨k, chunk⟩ | k | _
  · refine iff_of_true (fun sid ↦ ?_) trivial
    have hsame : freshSeqs (log ++ s.observed (.plan url)) sid = freshSeqs log sid := by
      rw [SessionEventResume.observed]
      split
      · exact freshSeqs_append_of_not_mem (by simp) (by simp)
      · rw [List.append_nil]
    change IsHighWater ((s.step (.plan url)).delivered sid) (freshSeqs (log ++ s.observed (.plan url)) sid)
    rw [hsame, SessionEventResume.delivered_plan]
    exact hs sid
  · exact sticks_push_iff hs
  · refine iff_of_true (fun sid ↦ ?_) trivial
    change IsHighWater ((s.step (.flush k)).delivered sid) (freshSeqs (log ++ []) sid)
    rw [List.append_nil, SessionEventResume.delivered_flush]
    exact hs sid
  · refine iff_of_true (fun sid ↦ ?_) trivial
    change IsHighWater none (freshSeqs (log ++ [.reset]) sid)
    rw [freshSeqs_reset]
    exact isHighWater_empty

theorem sticks_initial : Sticks (SessionEventResume.initial, []) := by
  intro sid
  have hempty : freshSeqs [] sid = ∅ := by
    rw [Set.eq_empty_iff_forall_notMem]
    rintro seq ⟨k, after, hsuffix, hsublist, -⟩
    rw [List.suffix_nil.mp hsuffix] at hsublist
    exact absurd hsublist (by simp)
  rw [hempty]
  exact isHighWater_empty

/-- A reset sticks in exactly the runs in which no filter that outlives a reset forwards a number beyond
the mark of its session; and a mark never goes down without a reset. -/
theorem resetLaw_run_iff (ops : List SessionEventResume.Op) :
    Guarded Logged.step ResetLaw (SessionEventResume.initial, []) ops
      ↔ Guarded Logged.step Harmless (SessionEventResume.initial, []) ops := by
  refine guarded_iff_of_invariant (I := Sticks) (fun s op hs ↦ ?_) (fun s op _ h ↦ h.sticks) sticks_initial
  rw [← sticks_step_iff s op hs]
  exact ⟨fun h ↦ h.sticks, fun h ↦ ⟨h, fun hop sid c hc ↦ s.1.rises hop sid hc⟩⟩

/-- A connection that a reset finds open forwards its seventh frame. -/
theorem not_resetLaw_openConnection :
    ¬ Guarded Logged.step ResetLaw (SessionEventResume.initial, [])
      [.plan ⟨"/api/session/s/event", none⟩, .reset, .push 0 [105, 100, 58, 55, 10, 10]] := by
  rintro ⟨-, hreset, hpush, -⟩
  have hharmless := (sticks_step_iff _ _ hreset.sticks).mp hpush.sticks
  exact absurd hharmless (by decide +kernel)

end Amicode.EventResume
