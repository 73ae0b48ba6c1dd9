import Amicode.Fanin.Trail

/-!
# No silent skip

A client that reconnects resumes each namespace from the position its last frame named, so a
position on the wire must not lie beyond a frame that was lost without a word. `NoSkip` is that law.

The relay announces dropped frames at the end of a drain, but a drain that stalls half way frees
room in the pending stream; a later frame of the same namespace then takes that room, ahead of the
announcement. `NoSkipAhead` rules this out, together with the same effect on the way to fleet-of-one,
where a frame held verbatim is written before everything that is pending. These are the only ways:
what precedes a frame in the stream is settled when the frame enters it, since later frames are
inserted with larger sequence numbers and a drain moves nothing.
-/

open List Bool

namespace Amicode

/-- Is the entry a gap frame naming the namespace? -/
def Entry.isGapOf (ns : String) : Entry → Bool
  | .control (.gap namespaces _) => ns ∈ namespaces
  | _ => false

/-- The frame was consumed, or is among the entries, or they announce a gap of its namespace made
after the frame was ingested. -/
def Arrival.ExcusedBy (entries : List Entry) (x : Arrival) : Prop :=
  x.consumed = true ∨ Entry.data x.ns x.frame ∈ entries
    ∨ (entries.drop x.mark).any (Entry.isGapOf x.ns) = true

/-- Every data frame of the namespace up to the position is excused by the entries. -/
def Reached (arrivals : List Arrival) (entries : List Entry) (ns : String) (id : EngineId) : Prop :=
  ∀ x ∈ arrivals, x.ns = ns → isDataFrame x.frame.raw = true → ∀ k,
    engineIdOf x.frame.raw = some k → k.epoch = id.epoch → k.seq ≤ id.seq → x.ExcusedBy entries

instance (entries : List Entry) (x : Arrival) : Decidable (x.ExcusedBy entries) :=
  inferInstanceAs (Decidable (_ ∨ _ ∨ _))

namespace Aggregator

/-- Does the relay, in composite mode, keep the frame for itself? -/
def consumes (a : Aggregator) (ns raw : String) : Bool :=
  !a.isVerbatim ns && (a.shakesHands ns raw || isReset raw)

/-- Is the relay stalled, with room for the frame? -/
def buffers (a : Aggregator) (ns raw : String) : Bool :=
  !a.flowing && (a.isVerbatim ns || (!a.consumes ns raw && a.depth ns < a.bufferBound))

end Aggregator

namespace Session

/-- Whenever a written frame puts a namespace at a position, every data frame of that namespace up
to the position has been written by then, or was consumed, or a gap has been announced since. -/
def NoSkip (s : Session) : Prop :=
  ∀ front chunk back, s.agg.sink.written = front ++ chunk :: back → ∀ ns id,
    chunk.position ns = some id → Reached s.arrivals ((front ++ [chunk]).map Chunk.entry) ns id

/-- Has no gap of the frame's namespace been written since it was ingested? -/
def unannounced (s : Session) (x : Arrival) : Bool :=
  !((s.agg.sink.written.map Chunk.entry).drop x.mark).any (Entry.isGapOf x.ns)

/-- Would the frame be buffered ahead of the announcement, or the writing, of an earlier data frame
of its namespace and epoch? In the pending stream that is a dropped frame for which no gap is
written or queued; in the verbatim buffer also a frame that still waits in the pending stream. -/
def skipsAhead (s : Session) (ns raw : String) : Bool :=
  s.agg.buffers ns raw && (engineIdOf raw).any fun id ↦ s.arrivals.any fun x ↦
    x.ns == ns && isDataFrame x.frame.raw && (engineIdOf x.frame.raw).any (·.epoch == id.epoch)
      && s.unannounced x
      && if s.agg.isVerbatim ns then
          x.dropped || (s.agg.pending.filterMap Entry.source).contains x.source
        else x.dropped && !s.agg.pending.any (Entry.isGapOf ns)

/-- The side condition of an operation: no frame is buffered ahead of an announcement. -/
def NoSkipAhead (s : Session) : FaninOp → Prop
  | .ingest ns raw => s.skipsAhead ns raw = false
  | _ => True

/-- The ids of a namespace's frames increase within an epoch, from the client's own position on.
Frames the relay consumes are exempt: they carry the position of the arm, not an event. -/
def Increasing (seed : InsertionMap String String) (s : Session) : FaninOp → Prop
  | .ingest ns raw => s.agg.consumes ns raw = false → ∀ id ∈ engineIdOf raw,
      (∀ x ∈ s.arrivals, x.ns = ns → x.consumed = false → ∀ k ∈ engineIdOf x.frame.raw,
        k.epoch = id.epoch → k.seq < id.seq) ∧
      ∀ j ∈ parseEngineId (seed.get? ns), j.epoch = id.epoch → j.seq < id.seq
  | _ => True

instance : ∀ s op, Decidable (NoSkipAhead s op)
  | s, .ingest ns raw => inferInstanceAs (Decidable (s.skipsAhead ns raw = false))
  | _, .setMembership _ | _, .reopenArm _ | _, .resume => .isTrue trivial

instance (seed : InsertionMap String String) : ∀ s op, Decidable (Increasing seed s op)
  | s, .ingest ns raw => inferInstanceAs (Decidable (s.agg.consumes ns raw = false →
      ∀ id ∈ engineIdOf raw,
        (∀ x ∈ s.arrivals, x.ns = ns → x.consumed = false → ∀ k ∈ engineIdOf x.frame.raw,
          k.epoch = id.epoch → k.seq < id.seq) ∧
        ∀ j ∈ parseEngineId (seed.get? ns), j.epoch = id.epoch → j.seq < id.seq))
  | _, .setMembership _ | _, .reopenArm _ | _, .resume => .isTrue trivial

end Session

/-! ## The order of the stream -/

/-- Every data entry of the stream is reached by what precedes it. -/
def NoJump (arrivals : List Arrival) (stream : List Entry) : Prop :=
  ∀ front ns frame back, stream = front ++ Entry.data ns frame :: back → ∀ id,
    engineIdOf frame.raw = some id → Reached arrivals (front ++ [Entry.data ns frame]) ns id

namespace Arrival

variable {x : Arrival} {entries : List Entry}

theorem ExcusedBy.append (h : x.ExcusedBy entries) (more : List Entry) :
    x.ExcusedBy (entries ++ more) := by
  rcases h with hconsumed | hmem | hgap
  · exact .inl hconsumed
  · exact .inr (.inl (mem_append_left _ hmem))
  · refine .inr (.inr ?_)
    rw [drop_append, any_append, hgap, Bool.true_or]

theorem ExcusedBy.insert {front back : List Entry} (h : x.ExcusedBy (front ++ back))
    (hmark : x.mark ≤ front.length) (e : Entry) : x.ExcusedBy (front ++ e :: back) := by
  rcases h with hconsumed | hmem | hgap
  · exact .inl hconsumed
  · refine .inr (.inl ?_)
    rcases mem_append.mp hmem with hf | hb
    · exact mem_append_left _ hf
    · exact mem_append_right _ (mem_cons_of_mem _ hb)
  · refine .inr (.inr ?_)
    rw [drop_append_of_le_length hmark, any_append] at hgap ⊢
    rw [any_cons]
    rcases or_eq_true_iff.mp hgap with hg | hg
    · rw [hg, Bool.true_or]
    · rw [hg, Bool.or_true, Bool.or_true]

end Arrival

private theorem split_insert {α : Type*} {A B front back : List α} {z y : α}
    (h : A ++ z :: B = front ++ y :: back) :
    (∃ rest, A = front ++ y :: rest) ∨ (front = A ∧ y = z) ∨
      ∃ mid, front = A ++ z :: mid ∧ B = mid ++ y :: back := by
  rcases append_eq_append_iff.mp h with ⟨as, hfront, hrest⟩ | ⟨bs, hA, hrest⟩
  · cases as with
    | nil =>
      rw [nil_append, List.cons.injEq] at hrest
      exact .inr (.inl ⟨by rw [hfront, append_nil], hrest.1.symm⟩)
    | cons e as =>
      rw [cons_append, List.cons.injEq] at hrest
      exact .inr (.inr ⟨as, by rw [hfront, hrest.1], hrest.2⟩)
  · cases bs with
    | nil =>
      rw [nil_append, List.cons.injEq] at hrest
      exact .inr (.inl ⟨by rw [hA, append_nil], hrest.1⟩)
    | cons e bs =>
      rw [cons_append, List.cons.injEq] at hrest
      exact .inl ⟨bs, by rw [hA, ← hrest.1]⟩

namespace NoJump

variable {arrivals : List Arrival} {stream : List Entry}

theorem controls (h : NoJump arrivals stream) {more : List Entry}
    (hmore : ∀ e ∈ more, e.isControl = true) : NoJump arrivals (stream ++ more) := by
  induction more using List.reverseRecOn with
  | nil => rwa [append_nil]
  | append_singleton more e ih =>
    have hmore' : ∀ e ∈ more, e.isControl = true := fun e he ↦ hmore e (mem_append_left _ he)
    intro front ns frame back hsplit id hid
    rw [← append_assoc] at hsplit
    rcases Aggregator.split_concat hsplit with ⟨-, he, -⟩ | ⟨back', -, hold⟩
    · have hcontrol := hmore e (mem_append_right _ (mem_singleton_self e))
      rw [← he] at hcontrol
      exact absurd hcontrol Bool.false_ne_true
    · exact ih hmore' front ns frame back' hold id hid

/-- A new arrival that is consumed, or whose position lies beyond those of its epoch. -/
theorem record (h : NoJump arrivals stream) {y : Arrival}
    (hy : y.consumed = true ∨ ∀ k, engineIdOf y.frame.raw = some k → ∀ frame id,
      Entry.data y.ns frame ∈ stream → engineIdOf frame.raw = some id → id.epoch = k.epoch →
      id.seq < k.seq) :
    NoJump (arrivals ++ [y]) stream := by
  intro front ns frame back hsplit id hid x hx hns hdata k hk hepoch hle
  rcases mem_append.mp hx with hold | hnew
  · exact h front ns frame back hsplit id hid x hold hns hdata k hk hepoch hle
  · rw [mem_singleton] at hnew
    subst hnew
    rcases hy with hconsumed | hbeyond
    · exact .inl hconsumed
    · have hmem : Entry.data x.ns frame ∈ stream := by rw [hsplit, hns]; simp
      exact absurd (hbeyond k hk frame id hmem hid hepoch.symm) (not_lt.mpr hle)

theorem insert {A B : List Entry} (h : NoJump arrivals (A ++ B)) {y : Arrival}
    (hmarks : ∀ x ∈ arrivals, x.mark ≤ A.length)
    (hbeyond : ∀ k, engineIdOf y.frame.raw = some k → ∀ frame id,
      Entry.data y.ns frame ∈ A ++ B → engineIdOf frame.raw = some id → id.epoch = k.epoch →
      id.seq < k.seq)
    (hnew : ∀ id, engineIdOf y.frame.raw = some id → ∀ x ∈ arrivals, x.ns = y.ns →
      isDataFrame x.frame.raw = true → ∀ k, engineIdOf x.frame.raw = some k →
      k.epoch = id.epoch → x.ExcusedBy A) :
    NoJump (arrivals ++ [y]) (A ++ Entry.data y.ns y.frame :: B) := by
  have hrecord := h.record (.inr hbeyond)
  intro front ns frame back hsplit id hid x hx hns hdata k hk hepoch hle
  rcases split_insert hsplit with ⟨rest, hA⟩ | ⟨rfl, heq⟩ | ⟨mid, rfl, hB⟩
  · refine hrecord front ns frame (rest ++ B) ?_ id hid x hx hns hdata k hk hepoch hle
    rw [hA, append_assoc, cons_append]
  · -- the frame itself
    rw [Entry.data.injEq] at heq
    obtain ⟨rfl, rfl⟩ := heq
    rcases mem_append.mp hx with hold | hlast
    · exact (hnew id hid x hold hns hdata k hk hepoch).append _
    · rw [mem_singleton.mp hlast]
      exact .inr (.inl (mem_append_right _ (mem_singleton_self _)))
  · -- an entry behind it
    have hold := hrecord (A ++ mid) ns frame back (by rw [hB, append_assoc]) id hid x hx hns
      hdata k hk hepoch hle
    rw [append_assoc, cons_append]
    rw [append_assoc] at hold
    rcases mem_append.mp hx with hmem | hlast
    · exact hold.insert (hmarks x hmem) _
    · rw [mem_singleton.mp hlast]
      exact .inr (.inl (mem_append_right _ mem_cons_self))

end NoJump

namespace Session

variable {s : Session} {seed : InsertionMap String String}

/-! ## What precedes a new frame -/

private theorem arrival_kinds (x : Arrival) :
    x.consumed = true ∨ x.accepted = true ∨ x.dropped = true := by
  rw [Arrival.consumed, Arrival.accepted, Arrival.dropped]
  cases x.outcome <;> simp

variable {x : Arrival}

private theorem accepted_mem_stream (h : s.Accounted) (hx : x ∈ s.arrivals)
    (hacc : x.accepted = true) : Entry.data x.ns x.frame ∈ s.agg.stream := by
  have hout : x.source ∈ s.agg.outbox :=
    h.outbox.mem_iff.mpr (List.mem_map.mpr ⟨x, mem_filter.mpr ⟨hx, hacc⟩, rfl⟩)
  rw [← s.agg.stream_source] at hout
  obtain ⟨e, he, hsource⟩ := mem_filterMap.mp hout
  cases e with
  | control frame => simp [Entry.source] at hsource
  | data ns frame =>
    rw [Entry.source, Option.some.injEq, Arrival.source, Prod.mk.injEq] at hsource
    rw [← hsource.1, ← hsource.2]
    exact he

private theorem mem_stream_arrival (h : s.Accounted) {ns : String} {frame : Frame}
    (hmem : Entry.data ns frame ∈ s.agg.stream) :
    ∃ x ∈ s.arrivals, x.ns = ns ∧ x.frame = frame ∧ x.consumed = false := by
  have hout : (ns, frame) ∈ s.agg.outbox := by
    rw [← s.agg.stream_source]
    exact mem_filterMap.mpr ⟨_, hmem, rfl⟩
  obtain ⟨x, hx, hsource⟩ := List.mem_map.mp (h.outbox.mem_iff.mp hout)
  obtain ⟨hx, hacc⟩ := mem_filter.mp hx
  rw [Arrival.source, Prod.mk.injEq] at hsource
  refine ⟨x, hx, hsource.1, hsource.2, ?_⟩
  rw [Arrival.accepted] at hacc
  rw [Arrival.consumed]
  cases hout : x.outcome <;> simp [hout] at hacc ⊢

private theorem excused_of_announced (hmark : x.mark ≤ s.agg.sink.written.length)
    (h : s.unannounced x = false) (rest : List Entry) :
    x.ExcusedBy (s.agg.sink.written.map Chunk.entry ++ rest) := by
  rw [unannounced, not_eq_false'] at h
  refine .inr (.inr ?_)
  rw [drop_append_of_le_length (by rwa [length_map]), any_append, h, Bool.true_or]

private theorem announced_of_flowing (h : s.Sound) (hf : s.agg.flowing = true)
    (hx : x ∈ s.arrivals) (hd : x.dropped = true) : s.unannounced x = false := by
  have hcount := h.1.dropped x.ns
  rw [(h.2 hf).2.2 x.ns, eq_comm, countP_eq_zero] at hcount
  have howed := hcount x hx
  rw [Arrival.owed, hd, decide_eq_true rfl, Bool.true_and, Bool.true_and, not_eq_true,
    not_eq_false', Arrival.covered, List.any_eq_true] at howed
  obtain ⟨chunk, hchunk, hgap⟩ := howed
  rw [unannounced, not_eq_false', ← map_drop, List.any_map, List.any_eq_true]
  refine ⟨chunk, hchunk, ?_⟩
  rw [Chunk.isOverflowGapOf.eq_def] at hgap
  split at hgap
  · exact hgap
  · exact absurd hgap (by decide)

/-! ## The invariant -/

/-- The invariant: positions come from the stream, the stream skips nothing, and what arrived lies
beyond the client's own position. -/
structure Unskipped (seed : InsertionMap String String) (s : Session) : Prop where
  sound : s.Sound
  trail : s.agg.Trail seed
  seeds : ∀ x ∈ s.arrivals, x.consumed = false → ∀ k, engineIdOf x.frame.raw = some k →
    ∀ j, parseEngineId (seed.get? x.ns) = some j → j.epoch = k.epoch → j.seq < k.seq
  stream : NoJump s.arrivals s.agg.stream

theorem Unskipped.noSkip (h : Unskipped seed s) : s.NoSkip := by
  intro front chunk back hsplit ns id hpos
  rcases h.trail.wire front chunk back hsplit ns id hpos with hseed | ⟨frame, hmem, hid⟩
  · -- the client's own position: nothing of that epoch lies before it
    intro x hx hns _ k hk hepoch hle
    cases hc : x.consumed with
    | true => exact .inl hc
    | false =>
      have hlt := h.seeds x hx hc k hk id (by rw [hns]; exact hseed) hepoch.symm
      exact absurd hlt (not_lt.mpr hle)
  · obtain ⟨before, after, hbefore⟩ := List.append_of_mem hmem
    have hstream : s.agg.stream = before ++ Entry.data ns frame :: (after ++ back.map Chunk.entry
        ++ s.agg.verbatimBuffer.map (Entry.data LOCAL_NAMESPACE) ++ s.agg.pending) := by
      have hwritten : s.agg.sink.written.map Chunk.entry
          = before ++ Entry.data ns frame :: (after ++ back.map Chunk.entry) := by
        have hassoc : front ++ chunk :: back = (front ++ [chunk]) ++ back := by simp
        rw [hsplit, hassoc, map_append, hbefore, append_assoc, cons_append]
      rw [Aggregator.stream, hwritten]
      simp only [append_assoc, cons_append]
    have hreached := h.stream before ns frame _ hstream id hid
    intro x hx hns hdata k hk hepoch hle
    have hexcused := (hreached x hx hns hdata k hk hepoch hle).append after
    rw [hbefore]
    rwa [append_assoc, singleton_append] at hexcused

/-! ## One step -/

private theorem Unskipped.of_controls (h : Unskipped seed s) {b : Aggregator}
    (hsound : (⟨b, s.arrivals⟩ : Session).Sound) (htrail : b.Trail seed)
    (hstream : ∃ more, b.stream = s.agg.stream ++ more ∧ ∀ e ∈ more, e.isControl = true) :
    Unskipped seed ⟨b, s.arrivals⟩ where
  sound := hsound
  trail := htrail
  seeds := h.seeds
  stream := by
    obtain ⟨more, heq, hmore⟩ := hstream
    rw [heq]
    exact h.stream.controls hmore

private theorem seeds_record (h : Unskipped seed s) {y : Arrival}
    (hy : y.consumed = false → ∀ k, engineIdOf y.frame.raw = some k →
      ∀ j, parseEngineId (seed.get? y.ns) = some j → j.epoch = k.epoch → j.seq < k.seq) :
    ∀ x ∈ s.arrivals ++ [y], x.consumed = false → ∀ k, engineIdOf x.frame.raw = some k →
      ∀ j, parseEngineId (seed.get? x.ns) = some j → j.epoch = k.epoch → j.seq < k.seq := by
  intro x hx
  rcases mem_append.mp hx with hold | hnew
  · exact h.seeds x hold
  · rw [mem_singleton.mp hnew]
    exact hy

variable {ns raw : String}

private theorem not_ahead (hahead : s.skipsAhead ns raw = false)
    (hbuffers : s.agg.buffers ns raw = true) {id : EngineId} (hid : engineIdOf raw = some id)
    (hx : x ∈ s.arrivals) (hns : x.ns = ns) (hdata : isDataFrame x.frame.raw = true) {k : EngineId}
    (hk : engineIdOf x.frame.raw = some k) (hepoch : k.epoch = id.epoch) : s.unannounced x = false ∨
      (if s.agg.isVerbatim ns then x.dropped || (s.agg.pending.filterMap Entry.source).contains x.source
        else x.dropped && !s.agg.pending.any (Entry.isGapOf ns)) = false := by
  rw [skipsAhead, hbuffers, Bool.true_and, hid, Option.any_some, List.any_eq_false] at hahead
  have hone := hahead x hx
  rw [hk, Option.any_some, hns, hdata, beq_self_eq_true, beq_iff_eq.mpr hepoch, Bool.true_and,
    Bool.true_and, Bool.true_and, not_eq_true, and_eq_false_iff] at hone
  exact hone

/-- Behind a relay that flows, or in the pending stream, a frame comes after everything accepted. -/
private theorem excused_stream (h : s.Sound) (hx : x ∈ s.arrivals) (hdropped : x.dropped = true →
      s.unannounced x = false ∨ s.agg.pending.any (Entry.isGapOf x.ns) = true) : x.ExcusedBy s.agg.stream := by
  rcases arrival_kinds x with hconsumed | hacc | hd
  · exact .inl hconsumed
  · exact .inr (.inl (accepted_mem_stream h.1 hx hacc))
  · have hmark := h.1.marks x hx
    rcases hdropped hd with hannounced | hqueued
    · rw [Aggregator.stream, append_assoc]
      exact excused_of_announced hmark hannounced _
    · refine .inr (.inr ?_)
      have hlen : x.mark ≤ (s.agg.sink.written.map Chunk.entry
          ++ s.agg.verbatimBuffer.map (Entry.data LOCAL_NAMESPACE)).length := by
        rw [length_append, length_map]
        exact Nat.le_add_right_of_le hmark
      rw [Aggregator.stream, drop_append_of_le_length hlen, any_append, hqueued,
        Bool.or_true]

/-- The positions already in the stream lie before that of the next frame. -/
private theorem beyond_stream (h : s.Sound)
    (hincreasing : Increasing seed s (.ingest ns raw)) (hno : s.agg.consumes ns raw = false)
    (more : List Entry) (hmore : ∀ e ∈ more, e.isControl = true) :
    ∀ k, engineIdOf raw = some k → ∀ frame id, Entry.data ns frame ∈ s.agg.stream ++ more →
      engineIdOf frame.raw = some id → id.epoch = k.epoch → id.seq < k.seq := by
  intro k hk frame id hmem hid hepoch
  rcases mem_append.mp hmem with hold | hcontrol
  · obtain ⟨x, hx, hns, rfl, hconsumed⟩ := mem_stream_arrival h.1 hold
    exact (hincreasing hno k hk).1 x hx hns hconsumed id hid hepoch
  · exact absurd (hmore _ hcontrol) Bool.false_ne_true

private theorem mark_le_stream (h : s.Sound) (hx : x ∈ s.arrivals) : x.mark ≤ (s.agg.sink.written.map Chunk.entry
      ++ s.agg.verbatimBuffer.map (Entry.data LOCAL_NAMESPACE)).length := by
  rw [length_append, length_map]
  exact Nat.le_add_right_of_le (h.1.marks x hx)

/-- Fleet-of-one: the frame goes before what is pending, which holds nothing of its epoch that is
still to be announced. -/
private theorem stream_relayVerbatim (h : Unskipped seed s) {raw : String}
    (hincreasing : Increasing seed s (.ingest LOCAL_NAMESPACE raw))
    (hahead : NoSkipAhead s (.ingest LOCAL_NAMESPACE raw))
    (hv : s.agg.isVerbatim LOCAL_NAMESPACE = true) (outcome : IngestOutcome) (mark : ℕ) :
    NoJump (s.arrivals ++ [⟨LOCAL_NAMESPACE, s.nextFrame raw, outcome, mark⟩])
      ((s.agg.noted LOCAL_NAMESPACE raw).relayVerbatim (s.nextFrame raw)).1.stream := by
  have hno : s.agg.consumes LOCAL_NAMESPACE raw = false := by rw [Aggregator.consumes, hv]; rfl
  have hbeyond := beyond_stream h.sound hincreasing hno [] (by simp)
  rw [append_nil] at hbeyond
  have hstream := Aggregator.stream_relayVerbatim
    ((s.agg.steady_noted LOCAL_NAMESPACE raw).drained h.sound.2.drained) (s.nextFrame raw)
  rw [Aggregator.stream_noted] at hstream
  obtain ⟨delivered, resuming, hnoted⟩ := s.agg.noted_eq LOCAL_NAMESPACE raw
  cases hf : s.agg.flowing with
  | true =>
    rw [hstream.1 (by rw [hnoted]; exact hf)]
    refine NoJump.insert (y := ⟨LOCAL_NAMESPACE, s.nextFrame raw, outcome, mark⟩) ?_ ?_ ?_ ?_
    · rw [append_nil]
      exact h.stream
    · intro x hx
      refine (mark_le_stream h.sound hx).trans ?_
      rw [Aggregator.stream]
      exact (sublist_append_left _ _).length_le
    · rw [append_nil]
      exact hbeyond
    · intro _ _ x hx _ _ _ _ _
      exact excused_stream h.sound hx fun hd ↦ .inl (announced_of_flowing h.sound hf hx hd)
  | false =>
    have hbuffers : s.agg.buffers LOCAL_NAMESPACE raw = true := by
      rw [Aggregator.buffers, hf, hv]
      rfl
    rw [hstream.2 (by rw [hnoted]; exact hf), hnoted]
    refine NoJump.insert (y := ⟨LOCAL_NAMESPACE, s.nextFrame raw, outcome, mark⟩) h.stream
      (fun x hx ↦ mark_le_stream h.sound hx) hbeyond ?_
    intro id hid x hx hns hdata k hk hepoch
    have hone := not_ahead hahead hbuffers hid hx hns hdata hk hepoch
    rw [if_pos hv, or_eq_false_iff] at hone
    have hannounced : s.unannounced x = false → x.ExcusedBy (s.agg.sink.written.map Chunk.entry
        ++ s.agg.verbatimBuffer.map (Entry.data LOCAL_NAMESPACE)) :=
      fun hx' ↦ excused_of_announced (h.sound.1.marks x hx) hx' _
    rcases arrival_kinds x with hconsumed | hacc | hd
    · exact .inl hconsumed
    · rcases mem_append.mp (accepted_mem_stream h.sound.1 hx hacc) with hmem | hpending
      · exact .inr (.inl hmem)
      · rcases hone with hx' | ⟨-, hnot⟩
        · exact hannounced hx'
        · have hcontains : (s.agg.pending.filterMap Entry.source).contains x.source = true :=
            elem_iff.mpr (mem_filterMap.mpr ⟨_, hpending, rfl⟩)
          exact absurd (hcontains.symm.trans hnot) (by decide)
    · rcases hone with hx' | ⟨hnot, -⟩
      · exact hannounced hx'
      · exact absurd (hd.symm.trans hnot) (by decide)

section

variable (h : Unskipped seed s) (hincreasing : Increasing seed s (.ingest ns raw))

include h hincreasing

/-- In composite mode a frame accepted at the end of the stream has nothing of its epoch before it
that is still to be announced. -/
private theorem stream_append (hno : s.agg.consumes ns raw = false)
    {controls : List Entry} (hcontrols : ∀ e ∈ controls, e.isControl = true)
    (hnew : ∀ id, engineIdOf raw = some id → ∀ x ∈ s.arrivals, x.ns = ns →
      isDataFrame x.frame.raw = true → ∀ k, engineIdOf x.frame.raw = some k →
      k.epoch = id.epoch → x.ExcusedBy s.agg.stream) (outcome : IngestOutcome) (mark : ℕ) :
    NoJump (s.arrivals ++ [⟨ns, s.nextFrame raw, outcome, mark⟩])
      (s.agg.stream ++ controls ++ [Entry.data ns (s.nextFrame raw)]) := by
  have hbeyond := beyond_stream h.sound hincreasing hno _ hcontrols
  refine NoJump.insert (y := ⟨ns, s.nextFrame raw, outcome, mark⟩) ?_ ?_ ?_ ?_
  · rw [append_nil]
    exact h.stream.controls hcontrols
  · intro x hx
    refine (mark_le_stream h.sound hx).trans ?_
    rw [Aggregator.stream, append_assoc]
    exact (sublist_append_left _ _).length_le
  · rw [append_nil]
    exact hbeyond
  · intro id hid x hx hns hdata k hk hepoch
    exact (hnew id hid x hx hns hdata k hk hepoch).append controls

private theorem stream_ingest (hahead : NoSkipAhead s (.ingest ns raw)) {r : Aggregator × IngestOutcome}
    (hstep : s.agg.IngestStep ns (s.nextFrame raw) r) :
    NoJump (s.arrivals ++ [⟨ns, s.nextFrame raw, r.2, r.1.sink.written.length⟩]) r.1.stream := by
  have hdrained := h.sound.2.drained
  have hconsumes : s.agg.shakesHands ns raw = false → isReset raw = false →
      s.agg.consumes ns raw = false := by
    intro hs hr
    rw [Aggregator.consumes, hs, hr, Bool.or_false, Bool.and_false]
  cases hstep with
  | severed refused verbatim =>
    rw [Aggregator.stream_noted]
    exact h.stream.record (.inl rfl)
  | handshake id hid shakes composite =>
    rw [← Aggregator.advance, Aggregator.stream_advance, Aggregator.stream_noted]
    exact h.stream.record (.inl rfl)
  | @reset b prepared resets composite =>
    obtain ⟨controls, hb, hcontrols, -⟩ := prepared.stream hdrained
    have hbdrained := (b.steady_advance ns (frameRawId (s.nextFrame raw).raw)).drained
      (prepared.steady.drained hdrained)
    rw [Aggregator.stream_writeControl hbdrained, Aggregator.stream_advance, hb]
    exact ((h.stream.controls hcontrols).controls (by simp [Entry.isControl])).record (.inl rfl)
  | verbatim resumes verbatim =>
    obtain rfl := Aggregator.isVerbatim_imp verbatim
    exact stream_relayVerbatim h hincreasing hahead verbatim _ _
  | @delivered b prepared noHandshake noReset flowing composite =>
    obtain ⟨controls, hb, hcontrols, -⟩ := prepared.stream hdrained
    obtain ⟨hp, hv⟩ := prepared.steady.drained hdrained flowing
    have hf := (prepared.steady flowing).1
    rw [Aggregator.stream_deliver hp hv, hb]
    refine stream_append h hincreasing (hconsumes noHandshake noReset) hcontrols ?_ _ _
    intro _ _ x hx _ _ _ _ _
    exact excused_stream h.sound hx fun hd ↦ .inl (announced_of_flowing h.sound hf hx hd)
  | @enqueued b prepared noHandshake noReset stalled composite =>
    obtain ⟨controls, hb, hcontrols, hsame⟩ := prepared.stream hdrained
    have hno := hconsumes noHandshake noReset
    rcases b.stream_enqueue ns (s.nextFrame raw) with ⟨hroom, -, heq⟩ | ⟨-, heq⟩
    · rw [heq, hb]
      refine stream_append h hincreasing hno hcontrols ?_ _ _
      intro id hid x hx hns hdata k hk hepoch
      -- a frame with an id prepares without a gap, so the relay was stalled, with room, before
      have hresumes : s.agg.cannotResume ns raw = false := by
        rw [Aggregator.cannotResume]
        cases hraw : frameRawId raw with
        | some rawId => rw [Option.isNone_some, Bool.and_false]
        | none => simp [engineIdOf, hraw, parseEngineId] at hid
      obtain ⟨delivered, resuming, hnoted⟩ := s.agg.noted_eq ns raw
      have hbnoted : b = { s.agg with everDelivered := delivered, resuming := resuming } :=
        (hsame hresumes).trans hnoted
      have hbuffers : s.agg.buffers ns raw = true := by
        rw [hbnoted] at hroom stalled
        have hroom' : s.agg.depth ns < s.agg.bufferBound := hroom
        have hstalled : s.agg.flowing = false := stalled
        rw [Aggregator.buffers, hstalled, hno, decide_eq_true hroom']
        simp
      have hone := not_ahead hahead hbuffers hid hx hns hdata hk hepoch
      rw [if_neg (by simp [composite])] at hone
      refine excused_stream h.sound hx fun hd ↦ ?_
      rcases hone with hx' | hx'
      · exact .inl hx'
      · rw [hd, Bool.true_and, not_eq_false'] at hx'
        exact .inr (by rw [hns]; exact hx')
    · rw [heq, hb]
      exact (h.stream.controls hcontrols).record
        (.inr (beyond_stream h.sound hincreasing hno _ hcontrols))

private theorem unskipped_ingest
    (hahead : NoSkipAhead s (.ingest ns raw)) : Unskipped seed (s.step (.ingest ns raw)) := by
  have hstep := s.agg.ingestStep ns (s.nextFrame raw)
  refine ⟨sound_step h.sound _, h.trail.ingestStep h.sound.2 hstep, seeds_record h ?_,
    stream_ingest h hincreasing hahead hstep⟩
  intro hconsumed k hk j hj hepoch
  refine (hincreasing ?_ k hk).2 j hj hepoch
  by_contra hno
  rw [not_eq_false, Aggregator.consumes, and_eq_true, not_eq_true',
    or_eq_true] at hno
  rcases Aggregator.ingestStep_answers hstep hno.1 hno.2 with heq | heq
  · simp [Arrival.consumed, heq] at hconsumed
  · simp [Arrival.consumed, heq] at hconsumed

end

theorem unskipped_step (h : Unskipped seed s) {op : FaninOp} (hincreasing : Increasing seed s op)
    (hahead : NoSkipAhead s op) : Unskipped seed (s.step op) := by
  have hsound := sound_step h.sound op
  have hdrained := h.sound.2.drained
  cases op with
  | ingest ns raw => exact unskipped_ingest h hincreasing hahead
  | setMembership peers =>
    exact h.of_controls hsound (h.trail.setMembership peers)
      (Aggregator.stream_setMembership hdrained peers)
  | reopenArm ns =>
    exact h.of_controls hsound (h.trail.reopenArm ns) (Aggregator.stream_reopenArm hdrained ns)
  | resume =>
    exact h.of_controls hsound h.trail.resume (s.agg.stream_resume h.sound.1.queued)

/-! ## Whole runs -/

/-- **No silent skip.** In every run whose upstream ids increase and in which no frame is buffered
ahead of an announcement, no position written downstream jumps over a frame that was lost without
a gap. -/
theorem noSkip_of_noSkipAhead (opts : SseFanInOptions) (cursor : Option String)
    (ops : List FaninOp)
    (hincreasing :
      StepMachine.Guarded step (Increasing (parseCompositeCursor cursor)) (start opts cursor) ops)
    (hahead : StepMachine.Guarded step NoSkipAhead (start opts cursor) ops) :
    ((start opts cursor).run ops).NoSkip := by
  have hstart : Unskipped (parseCompositeCursor cursor) (start opts cursor) := by
    refine ⟨sound_start opts cursor, trail_run opts cursor [], ?_, ?_⟩
    · exact fun x hx ↦ absurd hx List.not_mem_nil
    · exact fun _ _ _ _ _ _ _ x hx ↦ absurd hx List.not_mem_nil
  have hstep : ∀ (s : Session) (op : FaninOp), Unskipped (parseCompositeCursor cursor) s →
      Increasing (parseCompositeCursor cursor) s op ∧ NoSkipAhead s op →
      Unskipped (parseCompositeCursor cursor) (s.step op) :=
    fun s op h hguard ↦ unskipped_step h hguard.1 hguard.2
  have hrun : Unskipped (parseCompositeCursor cursor) ((start opts cursor).run ops) :=
    StepMachine.invariant_run_of_guarded hstep hstart (hincreasing.and hahead)
  exact hrun.noSkip

/-- One peer with room for one waiting frame; the downstream refuses its first writes. -/
def narrow (refused : ℕ) : Session := start ⟨fun n ↦ refused ≤ n, 1, none⟩ none

/-- The peer's first frame stalls the relay, the second waits, and the third is dropped. -/
def droppedThird : List FaninOp :=
  [.setMembership [⟨"m1", true, some "t", none⟩], .ingest "m1" "id: e:1\ndata: a\n\n",
    .ingest "m1" "id: e:2\ndata: b\n\n", .ingest "m1" "id: e:3\ndata: c\n\n", .resume]

/-- The drain announces the drop before the fourth frame is written. -/
theorem noSkip_announced :
    ((narrow 1).run (droppedThird ++ [.ingest "m1" "id: e:4\ndata: d\n\n"])).NoSkip :=
  noSkip_of_noSkipAhead _ none _ (by decide +kernel) (by decide +kernel)

/-- A drain that stalls after the second frame lets the fourth take its place in the pending
stream: it is written, at position 4, before any gap announces the loss of the third. -/
theorem not_noSkip_partialDrain :
    ¬ ∀ (opts : SseFanInOptions) (cursor : Option String) (ops : List FaninOp),
      StepMachine.Guarded step (Increasing (parseCompositeCursor cursor)) (start opts cursor)
        ops → ((start opts cursor).run ops).NoSkip := by
  intro h
  have hlaw := h ⟨fun n ↦ 2 ≤ n, 1, none⟩ none
    (droppedThird ++ [.ingest "m1" "id: e:4\ndata: d\n\n", .resume]) (by decide +kernel)
  generalize hs : (start ⟨fun n ↦ 2 ≤ n, 1, none⟩ none).run
    (droppedThird ++ [.ingest "m1" "id: e:4\ndata: d\n\n", .resume]) = s at hlaw
  have hsplit : s.agg.sink.written = s.agg.sink.written.take 2
      ++ s.agg.sink.written.getD 2 (.control (.focus none)) :: s.agg.sink.written.drop 3 := by
    have hlength : 2 < s.agg.sink.written.length := by
      rw [← hs]
      decide +kernel
    rw [List.getD_eq_getElem?_getD, List.getElem?_eq_getElem hlength, Option.getD_some,
      ← List.drop_eq_getElem_cons hlength, List.take_append_drop]
  have hreached := hlaw _ _ _ hsplit "m1" ⟨"e", 4⟩ (by subst hs; decide +kernel)
    ⟨"m1", ⟨"id: e:3\ndata: c\n\n", 2⟩, .dropped, 1⟩ (by subst hs; decide +kernel) rfl
    (by decide +kernel) ⟨"e", 3⟩ (by decide +kernel) rfl (by decide)
  subst hs
  exact absurd hreached (by decide +kernel)

end Session

end Amicode
