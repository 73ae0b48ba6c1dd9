import Amicode.Replay.Buffer

/-!
# What a resumed subscriber gets

A subscriber that comes back with the cursor of the last frame it received should get exactly the
wanted frames published after that frame, in order and once each, or an explicit reset. The buffer
cuts at a sequence number, the law at the push order; `resume_exact_iff` says that a served resume
is exact if and only if the two cuts agree on the frames published so far, whatever is published
and evicted afterwards. They disagree when a wanted frame shares its sequence with one received
before it, which is what a sync copy does.

The proof has two halves. `Sound` says where the retained frames stand in the published ones; it
decides what the replay is. `Follows` says what a subscription has been handed since it was opened;
it is preserved by every operation, so the live half of the stream is always exact.
-/

open List

namespace Amicode.Replay

/-! ## The eviction -/

/-- What the eviction drops is a prefix, and the floor ends at or above all of it. -/
theorem evictFrom_spec (maxBytes : ℕ) (oldest : ℤ) (bytes floor : ℕ) (frames : List Frame) :
    ∃ gone, frames = gone ++ (evictFrom maxBytes oldest bytes floor frames).2.2
      ∧ floor ≤ (evictFrom maxBytes oldest bytes floor frames).2.1
      ∧ ∀ f ∈ gone, f.seq ≤ (evictFrom maxBytes oldest bytes floor frames).2.1 := by
  induction frames generalizing bytes floor with
  | nil => exact ⟨[], rfl, le_refl _, by simp⟩
  | cons frame rest ih =>
    rw [evictFrom]
    split_ifs with h
    · exact ⟨[], rfl, le_refl _, by simp⟩
    · obtain ⟨gone, hgone, hfloor, hseq⟩ := ih (bytes - frame.bytes) (max floor frame.seq)
      refine ⟨frame :: gone, by rw [cons_append, ← hgone],
        le_trans (le_max_left _ _) hfloor, ?_⟩
      rintro f (_ | ⟨_, hf⟩)
      · exact le_trans (le_max_right _ _) hfloor
      · exact hseq f hf

/-- The charged bytes stay the sum over what is retained, so the subtraction never truncates. -/
theorem evictFrom_bytes (maxBytes : ℕ) (oldest : ℤ) (floor : ℕ) (frames : List Frame) :
    (evictFrom maxBytes oldest (frames.map Frame.bytes).sum floor frames).1
      = ((evictFrom maxBytes oldest (frames.map Frame.bytes).sum floor frames).2.2.map
          Frame.bytes).sum := by
  induction frames generalizing floor with
  | nil => rfl
  | cons frame rest ih =>
    rw [evictFrom]
    split_ifs with h
    · rfl
    · rw [map_cons, sum_cons, Nat.add_sub_cancel_left]
      exact ih (max floor frame.seq)

theorem evictFrom_le (maxBytes : ℕ) (oldest : ℤ) (floor : ℕ) (frames : List Frame) :
    (evictFrom maxBytes oldest (frames.map Frame.bytes).sum floor frames).1 ≤ maxBytes := by
  induction frames generalizing floor with
  | nil => exact Nat.zero_le _
  | cons frame rest ih =>
    rw [evictFrom]
    split_ifs with h
    · exact h.1
    · rw [map_cons, sum_cons, Nat.add_sub_cancel_left]
      exact ih (max floor frame.seq)

namespace Stream

variable (config : ReplayConfig)

/-- The stream after an eviction at a clock reading. -/
def evicted (now : ℤ) (s : Stream) : Stream := { s with buffer := s.buffer.evict config now }

/-- Where the retained frames stand in the published ones. -/
structure Sound (s : Stream) : Prop where
  retained : ∃ gone, s.published = gone ++ s.buffer.frames ∧ ∀ f ∈ gone, f.seq ≤ s.buffer.floor
  ordinals : s.published.Pairwise fun f g ↦ f.ordinal < g.ordinal
  ordinal_le : ∀ f ∈ s.published, f.ordinal ≤ s.buffer.ordinal
  bytes : s.buffer.bytes = (s.buffer.frames.map Frame.bytes).sum
  ids : ∀ f ∈ s.published, f.id = formatID config.epoch f.seq

variable {config}

theorem Sound.nodup {s : Stream} (h : s.Sound config) : s.published.Nodup :=
  h.ordinals.imp fun hlt heq ↦ absurd (congrArg Frame.ordinal heq) (Nat.ne_of_lt hlt)

theorem sound_init : (init config).Sound config :=
  ⟨⟨[], rfl, by simp⟩, Pairwise.nil, by simp [init], rfl, by simp [init]⟩

theorem Sound.evicted {s : Stream} (h : s.Sound config) (now : ℤ) :
    (s.evicted config now).Sound config := by
  obtain ⟨gone, hgone, hfloor⟩ := h.retained
  obtain ⟨more, hmore, hle, hseq⟩ := evictFrom_spec config.maxBytes (now - config.maxAgeMs)
    s.buffer.bytes s.buffer.floor s.buffer.frames
  refine ⟨⟨gone ++ more, ?_, ?_⟩, h.ordinals, h.ordinal_le, ?_, h.ids⟩
  · rw [append_assoc]
    exact hgone.trans (congrArg (gone ++ ·) hmore)
  · intro f hf
    rcases mem_append.mp hf with hf | hf
    · exact le_trans (hfloor f hf) hle
    · exact hseq f hf
  · show (evictFrom _ _ s.buffer.bytes _ _).1 = _
    rw [h.bytes, evictFrom_bytes]
    show _ = ((evictFrom _ _ s.buffer.bytes _ _).2.2.map Frame.bytes).sum
    rw [h.bytes]

theorem sound_step (s : Stream) (op : ReplayOp) (h : s.Sound config) :
    (s.step config op).Sound config := by
  rcases op with ⟨time, now, seq, event, data, syncCopy⟩ | seq | ⟨cursor, sync, now⟩ | i | i
  · obtain ⟨gone, hgone, hfloor⟩ := h.retained
    set pushed := s.buffer.append config time seq event data syncCopy with hpushed
    have hsound : (⟨pushed.2, s.published ++ [pushed.1]⟩ : Stream).Sound config := by
      refine ⟨⟨gone, by simp [hpushed, ReplayBuffer.append, hgone], hfloor⟩, ?_, ?_, ?_, ?_⟩
      · refine pairwise_append.mpr ⟨h.ordinals, pairwise_singleton _ _, ?_⟩
        intro f hf g hg
        obtain rfl := mem_singleton.mp hg
        exact Nat.lt_succ_of_le (h.ordinal_le f hf)
      · intro f hf
        rcases mem_append.mp hf with hf | hf
        · exact Nat.le_succ_of_le (h.ordinal_le f hf)
        · obtain rfl := mem_singleton.mp hf
          exact le_refl _
      · simp [hpushed, ReplayBuffer.append, h.bytes]
      · intro f hf
        rcases mem_append.mp hf with hf | hf
        · exact h.ids f hf
        · obtain rfl := mem_singleton.mp hf
          rfl
    exact hsound.evicted now
  · exact ⟨h.retained, h.ordinals, h.ordinal_le, h.bytes, h.ids⟩
  · have he := h.evicted now
    exact ⟨he.retained, he.ordinals, he.ordinal_le, he.bytes, he.ids⟩
  · exact ⟨h.retained, h.ordinals, h.ordinal_le, h.bytes, h.ids⟩
  · exact ⟨h.retained, h.ordinals, h.ordinal_le, h.bytes, h.ids⟩

theorem sound_run (ops : List ReplayOp) :
    (StepMachine.run (step config) (init config) ops).Sound config :=
  StepMachine.invariant_run (fun s op ↦ sound_step s op) sound_init ops

/-- In every run, the retained frames end the published ones, those dropped are at or below the floor, and the
retained bytes are within the bound. -/
theorem retained_run (ops : List ReplayOp) :
    let s := StepMachine.run (step config) (init config) ops
    (∃ gone, s.published = gone ++ s.buffer.frames ∧ ∀ f ∈ gone, f.seq ≤ s.buffer.floor) ∧
      (s.buffer.frames.map Frame.bytes).sum ≤ config.maxBytes := by
  have hle : (StepMachine.run (step config) (init config) ops).buffer.bytes ≤ config.maxBytes := by
    refine (StepMachine.invariant_run (I := fun s ↦ s.Sound config ∧ s.buffer.bytes ≤ config.maxBytes)
      (fun s op h ↦ ⟨sound_step s op h.1, ?_⟩) ⟨sound_init, Nat.zero_le _⟩ ops).2
    rcases op with ⟨time, now, seq, event, data, syncCopy⟩ | seq | ⟨cursor, sync, now⟩ | i | i
    · have hbytes : s.buffer.bytes + data.utf8ByteSize =
          ((s.buffer.append config time seq event data syncCopy).2.frames.map Frame.bytes).sum := by
        simp [ReplayBuffer.append, h.1.bytes]
      exact (congrArg (fun n ↦ (evictFrom _ _ n _ _).1) hbytes).trans_le (evictFrom_le ..)
    · exact h.2
    · exact (congrArg (fun n ↦ (evictFrom _ _ n _ _).1) h.1.bytes).trans_le (evictFrom_le ..)
    · exact h.2
    · exact h.2
  exact ⟨(sound_run ops).retained, (sound_run ops).bytes ▸ hle⟩

end Stream

/-! ## The live half -/

/-- The subscription was opened with `opening` and, while its listener is registered, everything
it wants of `live` was handed to it or waits for its start. -/
structure Subscription.Follows (opening : Opening) (live : List Frame) (sub : Subscription) :
    Prop where
  opened : sub.toOpening = opening
  pending_nil : sub.started = true → sub.pending = []
  handed : sub.registered = true → sub.sent ++ sub.pending = live.filter (wanted opening.sync)

namespace Subscription.Follows

variable {opening : Opening} {live : List Frame} {sub : Subscription}

section

variable (h : sub.Follows opening live)

include h

theorem queued_eq (hr : sub.registered = true)
    (hlive : ∀ f ∈ live, opening.watermark < f.ordinal) : sub.queued = sub.pending := by
  obtain ⟨rfl, -, hsent⟩ := h
  apply filter_eq_self.mpr
  intro f hf
  have hmem : f ∈ live.filter (wanted sub.sync) := hsent hr ▸ mem_append_right _ hf
  exact decide_eq_true (hlive f (mem_filter.mp hmem).1)

theorem listen (frame : Frame) : (sub.listen frame).Follows opening (live ++ [frame]) := by
  obtain ⟨rfl, hpending, hsent⟩ := h
  rw [Subscription.listen]
  split_ifs with hskip hstarted
  · -- not registered, or a sync copy it did not ask for
    refine ⟨rfl, hpending, fun hr ↦ ?_⟩
    have hw : wanted sub.sync frame = false := by simpa [hr] using hskip
    simpa [hw] using hsent hr
  · -- delivered: nothing else can be waiting
    refine ⟨rfl, hpending, fun hr ↦ ?_⟩
    have hw : wanted sub.sync frame = true := (by simpa [hr] using hskip : _ ∧ _).2
    rw [filter_append, ← hsent hr, hpending hstarted]
    simp [hw]
  · refine ⟨rfl, fun hs ↦ absurd hs hstarted, fun hr ↦ ?_⟩
    have hw : wanted sub.sync frame = true := (by simpa [hr] using hskip : _ ∧ _).2
    rw [filter_append, ← hsent hr]
    simp [hw]

theorem start (hlive : ∀ f ∈ live, opening.watermark < f.ordinal) : sub.start.Follows opening live := by
  refine ⟨h.opened, fun _ ↦ rfl, fun hr ↦ ?_⟩
  rw [Subscription.start, append_nil, h.queued_eq hr hlive]
  exact h.handed hr

theorem close : sub.close.Follows opening live :=
  ⟨h.opened, fun _ ↦ rfl, fun hr ↦ absurd hr (by simp [Subscription.close])⟩

theorem received_eq (hr : sub.registered = true) (hlive : ∀ f ∈ live, opening.watermark < f.ordinal) :
    sub.received = opening.replay ++ live.filter (wanted opening.sync) := by
  rw [Subscription.received, h.queued_eq hr hlive, append_assoc, h.handed hr, ← h.opened]

end

end Subscription.Follows

namespace Stream

variable {config : ReplayConfig} {past : List Frame} {opening : Opening} {i : ℕ}

/-- Since `past` was all that had been published, the `i`-th subscription follows the stream. -/
structure Follows (past : List Frame) (opening : Opening) (i : ℕ) (live : List Frame)
    (s : Stream) : Prop where
  published : s.published = past ++ live
  later : ∀ f ∈ live, opening.watermark < f.ordinal
  watermark_le : opening.watermark ≤ s.buffer.ordinal
  subscribed : ∃ sub, s.buffer.subscriptions[i]? = some sub ∧ sub.Follows opening live

theorem follows_onSubscription {s : Stream} {live : List Frame}
    (h : s.Follows past opening i live) {act : Subscription → Subscription}
    (hact : ∀ sub, sub.Follows opening live → (act sub).Follows opening live) (j : ℕ) :
    ({ s with buffer := s.buffer.onSubscription j act } : Stream).Follows past opening i live := by
  obtain ⟨sub, hsub, hfol⟩ := h.subscribed
  refine ⟨h.published, h.later, h.watermark_le, if j = i then act sub else sub, ?_, ?_⟩
  · rw [ReplayBuffer.onSubscription, getElem?_modify, hsub]
    rfl
  · split_ifs
    · exact hact sub hfol
    · exact hfol

theorem follows_step {s : Stream} {live : List Frame} (h : s.Follows past opening i live)
    (op : ReplayOp) : ∃ live', (s.step config op).Follows past opening i live' := by
  rcases op with ⟨time, now, seq, event, data, syncCopy⟩ | seq | ⟨cursor, sync, now⟩ | j | j
  · -- the only operation that publishes
    set frame := (s.buffer.append config time seq event data syncCopy).1 with hframe
    obtain ⟨sub, hsub, hfol⟩ := h.subscribed
    refine ⟨live ++ [frame], ?_, ?_, Nat.le_succ_of_le h.watermark_le, sub.listen frame, ?_,
      hfol.listen frame⟩
    · show s.published ++ [frame] = _
      rw [h.published, append_assoc]
    · intro f hf
      rcases mem_append.mp hf with hf | hf
      · exact h.later f hf
      · obtain rfl := mem_singleton.mp hf
        exact Nat.lt_succ_of_le h.watermark_le
    · show (s.buffer.subscriptions.map (Subscription.listen frame))[i]? = _
      rw [getElem?_map, hsub, Option.map_some]
  · exact ⟨live, h.published, h.later, h.watermark_le, h.subscribed⟩
  · obtain ⟨sub, hsub, hfol⟩ := h.subscribed
    refine ⟨live, h.published, h.later, h.watermark_le, sub, ?_, hfol⟩
    obtain ⟨hi, hget⟩ := List.getElem?_eq_some_iff.mp hsub
    show (s.buffer.subscriptions ++ _)[i]? = _
    rw [getElem?_append_left hi, hsub]
  · exact ⟨live, follows_onSubscription h (fun sub hfol ↦ hfol.start h.later) j⟩
  · exact ⟨live, follows_onSubscription h (fun sub hfol ↦ hfol.close) j⟩

theorem follows_run {s : Stream} {live : List Frame} (h : s.Follows past opening i live)
    (ops : List ReplayOp) :
    ∃ live', (StepMachine.run (step config) s ops).Follows past opening i live' :=
  StepMachine.invariant_run (I := fun s : Stream ↦ ∃ live, s.Follows past opening i live)
    (fun _ op ⟨_, hfol⟩ ↦ follows_step hfol op) ⟨live, h⟩ ops

theorem follows_subscribe (config : ReplayConfig) (s : Stream) (cursor : Option String) (sync : Bool) (now : ℤ) :
    (s.step config (.subscribe cursor sync now)).Follows s.published
      ((s.evicted config now).buffer.opening config cursor sync)
      s.buffer.subscriptions.length [] := by
  refine ⟨(append_nil _).symm, by simp, le_refl _, ?_⟩
  refine ⟨{ (s.evicted config now).buffer.opening config cursor sync with }, ?_, rfl, fun _ ↦ rfl,
    fun _ ↦ rfl⟩
  show (s.buffer.subscriptions ++ [_])[s.buffer.subscriptions.length]? = _
  rw [getElem?_concat_length]
  rfl

end Stream

/-! ## The replay -/

private theorem filter_eq_filter_append_iff {α : Type*} {gone kept : List α}
    (h : (gone ++ kept).Nodup) (p q : α → Bool) :
    kept.filter p = (gone ++ kept).filter q
      ↔ ∀ x ∈ gone ++ kept, (x ∈ kept ∧ p x = true) ↔ q x = true := by
  constructor
  · intro heq x hx
    rw [← mem_filter, heq, mem_filter]
    exact and_iff_right hx
  · intro hiff
    have hgone : gone.filter q = [] := by
      refine filter_eq_nil_iff.mpr fun x hx hq ↦ ?_
      exact (nodup_append.mp h).2.2 x hx x
        ((hiff x (mem_append_left _ hx)).mpr hq).1 rfl
    rw [filter_append, hgone, nil_append]
    refine filter_congr fun x hx ↦ Bool.eq_iff_iff.mpr ?_
    rw [← hiff x (mem_append_right _ hx)]
    exact (and_iff_right hx).symm

namespace Stream

variable (config : ReplayConfig)

/-- Can the buffer serve the cursor: a position of this epoch between the floor and the current
sequence, or a payload id with a retained frame at or behind it? -/
def Servable (cursor : String) (s : Stream) : Prop :=
  match EngineId.parse cursor with
  | some parsed => parsed.epoch = config.epoch ∧ parsed.seq ≤ s.buffer.current
      ∧ s.buffer.floor ≤ parsed.seq
  | none => ∃ frame ∈ s.buffer.frames, frame.atOrBehind cursor = true

/-- Among the frames the subscriber would take, do the sequence numbers say which were published
after the `ordinal`-th? For a payload id the sequence is that of the newest retained frame at or
behind it, and nothing after the `ordinal`-th may have been evicted. -/
def Aligned (cursor : String) (takes : Frame → Bool) (ordinal : ℕ) (s : Stream) : Prop :=
  match EngineId.parse cursor with
  | some parsed => ∀ f ∈ s.published, takes f = true → (parsed.seq < f.seq ↔ ordinal < f.ordinal)
  | none => ∀ base ∈ newestAtOrBehind cursor s.buffer.frames,
      ∀ f ∈ s.published, takes f = true →
        ((f ∈ s.buffer.frames ∧ base.seq < f.seq) ↔ ordinal < f.ordinal)

variable {config}

theorem newestAtOrBehind_isSome_iff (cursor : String) (frames : List Frame) :
    (newestAtOrBehind cursor frames).isSome = true
      ↔ ∃ frame ∈ frames, frame.atOrBehind cursor = true := by
  rw [newestAtOrBehind, getLast?_isSome]
  simp [filter_eq_nil_iff]

theorem resolve_reset_iff (s : Stream) (cursor : String) :
    (s.buffer.resolve config (some cursor)).2 = none ↔ s.Servable config cursor := by
  rw [ReplayBuffer.resolve, Servable]
  rcases EngineId.parse cursor with _ | parsed
  · rw [← newestAtOrBehind_isSome_iff]
    rcases newestAtOrBehind cursor s.buffer.frames with _ | base <;> simp
  · dsimp only
    split_ifs with hepoch hahead hevicted
    · exact iff_of_false (by simp) fun h ↦ hepoch h.1
    · exact iff_of_false (by simp) fun h ↦ absurd h.2.1 (by omega)
    · exact iff_of_false (by simp) fun h ↦ absurd h.2.2 (by omega)
    · exact iff_of_true rfl ⟨not_not.mp hepoch, by omega, by omega⟩

/-- The replay from a position is exact if and only if, among the frames the subscriber takes, the
retained ones above the position are those published after the `ordinal`-th. -/
theorem replayAfter_exact_iff {s : Stream} (hs : s.Sound config) (position : ℕ) (sync : Bool)
    (keep : Frame → Bool) (ordinal : ℕ) :
    (s.buffer.replayAfter sync (position, none)).filter keep
        = s.published.filter (fun f ↦ wanted sync f && keep f && ordinal < f.ordinal)
      ↔ ∀ f ∈ s.published, (wanted sync f && keep f) = true →
          ((f ∈ s.buffer.frames ∧ position < f.seq) ↔ ordinal < f.ordinal) := by
  obtain ⟨gone, hgone, -⟩ := hs.retained
  have hnodup : (gone ++ s.buffer.frames).Nodup := hgone ▸ hs.nodup
  simp only [ReplayBuffer.replayAfter, Option.isSome_none, Bool.false_eq_true, if_false,
    List.filter_filter]
  rw [hgone, filter_eq_filter_append_iff hnodup, ← hgone]
  apply forall₂_congr
  intro f hf
  simp only [Bool.and_eq_true, decide_eq_true_eq]
  constructor
  · rintro hiff ⟨hwanted, hkeep⟩
    simpa [hwanted, hkeep] using hiff
  · intro himp
    by_cases htakes : wanted sync f = true ∧ keep f = true
    · simpa [htakes.1, htakes.2] using himp htakes
    · exact iff_of_false (fun h ↦ htakes ⟨h.2.2.2, h.2.1⟩) fun h ↦ htakes h.1

/-- A served replay is exact if and only if the cut at the sequence number is the cut at the push
order. -/
theorem replay_exact_iff {s : Stream} (hs : s.Sound config) {cursor : String}
    (hserved : s.Servable config cursor) (sync : Bool) (keep : Frame → Bool) (ordinal : ℕ) :
    (s.buffer.opening config (some cursor) sync).replay.filter keep
        = s.published.filter (fun f ↦ wanted sync f && keep f && ordinal < f.ordinal)
      ↔ s.Aligned cursor (fun f ↦ wanted sync f && keep f) ordinal := by
  show (s.buffer.replayAfter sync (s.buffer.resolve config (some cursor))).filter keep = _ ↔ _
  rw [ReplayBuffer.resolve, Aligned]
  rw [Servable] at hserved
  rcases hparse : EngineId.parse cursor with _ | parsed
  · simp only [hparse] at hserved ⊢
    obtain ⟨base, hbase⟩ := Option.isSome_iff_exists.mp
      ((newestAtOrBehind_isSome_iff cursor s.buffer.frames).mpr hserved)
    simp only [hbase, Option.mem_some_iff, forall_eq']
    exact replayAfter_exact_iff hs base.seq sync keep ordinal
  · simp only [hparse] at hserved ⊢
    obtain ⟨hepoch, hahead, hevicted⟩ := hserved
    rw [if_neg (not_not.mpr hepoch), if_neg (by omega), if_neg (by omega),
      replayAfter_exact_iff hs]
    -- everything above a position the floor has not passed is still retained
    obtain ⟨gone, hgone, hfloor⟩ := hs.retained
    have hretained : ∀ f ∈ s.published, parsed.seq < f.seq → f ∈ s.buffer.frames := by
      intro f hf hlt
      rw [hgone, mem_append] at hf
      exact hf.resolve_left fun hg ↦ absurd (hfloor f hg) (by omega)
    apply forall₂_congr
    intro f hf
    rw [and_iff_right_of_imp (hretained f hf)]

end Stream

/-! ## The whole -/

/-- What a subscriber with a filter of its own should get: the frames it takes among those
published after the `ordinal`-th. -/
def Stream.after (sync : Bool) (keep : Frame → Bool) (ordinal : ℕ) (s : Stream) : List Frame :=
  s.published.filter fun f ↦ wanted sync f && keep f && ordinal < f.ordinal

/-- Is the `i`-th subscription registered? -/
def Stream.Subscribed (i : ℕ) (s : Stream) : Prop :=
  ∃ sub ∈ s.buffer.subscriptions[i]?, sub.registered = true

/-- The resume was answered by a reset, or the subscriber gets exactly what it should. -/
def Stream.Resumed (sync : Bool) (keep : Frame → Bool) (ordinal i : ℕ) (s : Stream) : Prop :=
  ∃ sub ∈ s.buffer.subscriptions[i]?,
    (sub.reset ≠ none ∨ sub.received.filter keep = s.after sync keep ordinal)

instance (i : ℕ) (s : Stream) : Decidable (s.Subscribed i) :=
  inferInstanceAs (Decidable (∃ sub ∈ s.buffer.subscriptions[i]?, sub.registered = true))

instance (sync : Bool) (keep : Frame → Bool) (ordinal i : ℕ) (s : Stream) :
    Decidable (s.Resumed sync keep ordinal i) :=
  inferInstanceAs (Decidable (∃ sub ∈ s.buffer.subscriptions[i]?,
    (sub.reset ≠ none ∨ sub.received.filter keep = s.after sync keep ordinal)))

namespace Stream

variable {config : ReplayConfig}

theorem Follows.after_eq {s : Stream} {past live : List Frame} {opening : Opening} {i : ℕ}
    (h : s.Follows past opening i live) (sync : Bool) (keep : Frame → Bool) {ordinal : ℕ}
    (hle : ordinal ≤ opening.watermark) :
    s.after sync keep ordinal
      = past.filter (fun f ↦ wanted sync f && keep f && ordinal < f.ordinal)
        ++ (live.filter (wanted sync)).filter keep := by
  rw [after, h.published, filter_append, List.filter_filter]
  congr 1
  apply filter_congr
  intro f hf
  have hlt : ordinal < f.ordinal := lt_of_le_of_lt hle (h.later f hf)
  simp [hlt, Bool.and_comm]

theorem resumed_iff {s t : Stream} (hs : s.Sound config) {cursor : String} {sync : Bool}
    {live : List Frame} {i : ℕ}
    (hfol : t.Follows s.published (s.buffer.opening config cursor sync) i live)
    (hopen : t.Subscribed i) (keep : Frame → Bool) {ordinal : ℕ}
    (hle : ordinal ≤ s.buffer.ordinal) :
    t.Resumed sync keep ordinal i
      ↔ (s.Servable config cursor → s.Aligned cursor (fun f ↦ wanted sync f && keep f) ordinal) := by
  obtain ⟨sub, hsub, hsubfol⟩ := hfol.subscribed
  have hr : sub.registered = true := by
    obtain ⟨sub', hsub', hr'⟩ := hopen
    rw [hsub] at hsub'
    exact Option.some.inj hsub' ▸ hr'
  have hreset : sub.reset = none ↔ s.Servable config cursor := by
    rw [hsubfol.opened]
    exact resolve_reset_iff s cursor
  have hexact : sub.received.filter keep = t.after sync keep ordinal
      ↔ (s.buffer.opening config cursor sync).replay.filter keep
        = s.published.filter (fun f ↦ wanted sync f && keep f && ordinal < f.ordinal) := by
    rw [hsubfol.received_eq hr hfol.later, hfol.after_eq sync keep hle, filter_append]
    exact append_left_inj _
  constructor
  · rintro ⟨sub', hsub', hlaw⟩ hserved
    obtain rfl : sub = sub' := Option.some.inj (hsub.symm.trans hsub')
    refine (replay_exact_iff hs hserved sync keep ordinal).mp (hexact.mp ?_)
    exact hlaw.resolve_left (not_not.mpr (hreset.mpr hserved))
  · intro h
    refine ⟨sub, hsub, ?_⟩
    by_cases hserved : s.Servable config cursor
    · exact Or.inr (hexact.mpr ((replay_exact_iff hs hserved sync keep ordinal).mpr (h hserved)))
    · exact Or.inl fun hnone ↦ hserved (hreset.mp hnone)

/-- A subscriber resumes, at any moment of any run, with a cursor for the last frame it received
(its id, its payload id, or any other). Whatever happens while it is subscribed, the resume is
reset or exact if and only if, in case the buffer could serve the cursor at that moment, the
sequence numbers of the frames published so far were aligned with their push order. -/
theorem resume_exact_iff (config : ReplayConfig) (before after : List ReplayOp) (last : Frame)
    (cursor : String) (sync : Bool) (keep : Frame → Bool) (now : ℤ) :
    let s := StepMachine.run (step config) (init config) before
    let t := StepMachine.run (step config) (s.step config (.subscribe cursor sync now)) after
    last ∈ s.published → t.Subscribed s.buffer.subscriptions.length →
      (t.Resumed sync keep last.ordinal s.buffer.subscriptions.length
        ↔ ((s.evicted config now).Servable config cursor →
            (s.evicted config now).Aligned cursor (fun f ↦ wanted sync f && keep f)
              last.ordinal)) := by
  intro s t hlast hopen
  have hs : s.Sound config := sound_run before
  obtain ⟨live, hfol⟩ := follows_run (follows_subscribe config s cursor sync now) after
  exact resumed_iff (hs.evicted now) hfol hopen keep (hs.ordinal_le last hlast)

theorem aligned_id_iff {s : Stream} (hs : s.Sound config) {last : Frame}
    (hlast : last ∈ s.published) (takes : Frame → Bool) (ordinal : ℕ) :
    s.Aligned last.id takes ordinal
      ↔ ∀ f ∈ s.published, takes f = true → (last.seq < f.seq ↔ ordinal < f.ordinal) := by
  rw [Aligned, hs.ids last hlast, parse_formatID config.epoch_ok]

end Stream

/-! ## A run -/

/-- A small engine: the epoch is `e`, and nothing is ever evicted. -/
def smallConfig : ReplayConfig :=
  { epoch := "e", epoch_ok := by decide +kernel, maxBytes := 1000, maxAgeMs := 1000, start := 0 }

def eventOf (id : String) : GlobalEvent := ⟨some ⟨.text id, none, .absent⟩⟩

/-- A sync event without an id, naming its source. -/
def syncEventOf (id : String) : GlobalEvent := ⟨some ⟨.absent, some "sync", .text id⟩⟩

/-- An event and the sync copy that shares its sequence. -/
def copiedRun : List ReplayOp :=
  [.push 0 0 1 (eventOf "a") "A" false, .push 0 0 1 (syncEventOf "a") "S" true]

namespace Stream

def copiedSource : Frame := ⟨"e:1", 1, "A", eventOf "a", 1, 0, 1, false⟩

/-- A subscriber without sync copies resumes after the event, and then gets what is published. -/
theorem resume_exact_source :
    let s := StepMachine.run (step smallConfig) (init smallConfig) copiedRun
    let t := StepMachine.run (step smallConfig) (s.step smallConfig (.subscribe "e:1" false 0))
      [.push 1 1 2 (eventOf "b") "B" false, .start 0]
    t.Resumed false (fun _ ↦ true) 1 0 := by
  have hlast : copiedSource
      ∈ (StepMachine.run (step smallConfig) (init smallConfig) copiedRun).published := by
    decide +kernel
  refine (resume_exact_iff smallConfig copiedRun _ copiedSource "e:1" false (fun _ ↦ true) 0 hlast
    (by decide +kernel)).mpr fun _ ↦ ?_
  exact (aligned_id_iff ((sound_run copiedRun).evicted 0) hlast _ _).mpr (by decide +kernel)

end Stream

end Amicode.Replay
