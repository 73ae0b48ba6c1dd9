import Amicode.Foundation.StepMachine
import Amicode.Frontdoor.MemberQueue

/-!
# Coalescing and resuming

The frames that a writer takes are to stand for what has been put, block by block: a block is one frame, or delta
frames of one part whose texts the taken frame has. And when the connection ends and the client resumes from the last
id it has seen, it is to get every text exactly once over both connections.

The first holds in every run. The second fails where the last frame taken has been merged: its id is that of the first
frame of its block, so that the engine sends the others again. `invisibleLaw_iff` says that it holds exactly as long
as the writer takes no frame into which text has been merged.
-/

namespace Amicode.Coalescing

open StepMachine List Option JsObject

variable {engine : Engine} {s : State}

/-! ## The law -/

def text (key : PartKey) (frames : List Frame) : List Char :=
  frames.flatMap fun frame ↦
    if frame.data.bind partKey = some key then ((frame.data.bind delta?).getD "").toList else []

/-- What the client resumes from, if it has seen the frame last. -/
def Frame.pos? (frame : Frame) : Option EngineId := frame.ids.getLast?.bind EngineId.parse

/-- The frames that the engine sends when the client resumes. -/
def State.replay (s : State) : List Frame :=
  match s.taken.getLast?.bind Frame.pos? with
  | some cursor => s.sent.filter fun frame ↦ frame.pos?.any fun pos ↦ cursor.seq < pos.seq
  | none => s.sent

/-- A frame for a block of frames: it is the only one, or all are delta frames of one part. -/
structure Stands (block : List Frame) (frame : Frame) : Prop where
  ids : block.head?.map (·.ids) = some frame.ids
  text : ∀ key, text key [frame] = text key block
  same : block = [frame] ∨ ∃ key, ∀ other ∈ block, deltaPartKey other = some key

structure InvisibleLaw (s : State) : Prop where
  /-- What has been taken stands for a prefix of what has been put, and has its texts. -/
  taken : ∃ blocks behind, s.sent = List.flatten blocks ++ behind ∧ List.Forall₂ Stands blocks s.taken ∧
    ∀ key, text key s.taken = text key blocks.flatten
  /-- With what the engine sends when the client resumes, every text has been received once. -/
  resumed : ∀ key, text key s.taken ++ text key s.replay = text key s.sent

/-- The writer takes no frame that has more text than the frame whose id it has: what has been put behind that, and
before the next frame of the queue, is without text. -/
def Whole (s : State) : Op → Prop
  | .get => ∀ frame, s.queue.items.head? = some (some frame) → ∀ first ∈ frame.pos?,
    ∀ other ∈ s.sent, ∀ pos ∈ other.pos?, first.seq < pos.seq →
      (∀ next ∈ (s.queue.items.tail.filterMap id).head?, ∀ limit ∈ next.pos?, pos.seq < limit.seq) →
        ∀ key, text key [other] = []
  | _ => True

/-! ## Texts -/

variable (key : PartKey)

theorem text_append (a b : List Frame) : text key (a ++ b) = text key a ++ text key b :=
  flatMap_append

theorem text_cons (frame : Frame) (frames : List Frame) :
    text key (frame :: frames) = text key [frame] ++ text key frames :=
  text_append key [frame] frames

theorem text_eq_nil_iff (frames : List Frame) :
    text key frames = [] ↔ ∀ frame ∈ frames, text key [frame] = [] := by
  induction frames with
  | nil => exact ⟨fun _ frame hframe ↦ absurd hframe not_mem_nil, fun _ ↦ rfl⟩
  | cons first rest ih => rw [text_cons, append_eq_nil_iff, ih, forall_mem_cons]

theorem text_of_stands {blocks : List (List Frame)} {frames : List Frame}
    (h : List.Forall₂ Stands blocks frames) : text key frames = text key blocks.flatten := by
  induction h with
  | nil => rfl
  | cons hstands _ ih => rw [text_cons, flatten_cons, text_append, hstands.text, ih]

/-! ## Merging -/

variable {frame : Frame} {key : PartKey} {a b : List Frame} {n : ℕ} {rest : List Frame} {first : Frame}

theorem partKey_of_deltaPartKey (h : deltaPartKey frame = some key) :
    frame.data.bind partKey = some key := by
  unfold deltaPartKey at h
  split at h
  · next event hdata =>
    split at h
    · rw [hdata]
      exact h
    · cases h
  · cases h

theorem mergeEvents_eq_some {prev next merged : JsonValue} (h : mergeEvents prev next = some merged) :
    partKey merged = partKey prev ∧
      ∃ before behind, delta? prev = some before ∧ delta? next = some behind ∧
        delta? merged = some (before ++ behind) := by
  unfold mergeEvents at h
  split at h
  · next event before behind hbehind hbefore =>
    split at h
    · next properties hproperties =>
      obtain rfl := Option.some.inj h
      have hpayload : ∀ value, payload (JsObject.assign event "properties" (.obj value)) = value := fun value ↦ by
        rw [payload, own?_assign_self]
      have hpayload' : payload event = properties := by rw [payload, hproperties]
      refine ⟨?_, before, behind, hbefore, hbehind, ?_⟩
      · simp only [partKey, hpayload, hpayload']
        rw [own?_assign_of_ne (by decide), own?_assign_of_ne (by decide),
          own?_assign_of_ne (by decide)]
      · simp only [delta?, hpayload, own?_assign_self]
        rfl
    · next hproperties =>
      obtain rfl := Option.some.inj h
      have hpayload' : payload event = event := by
        rw [payload]
        split
        · next properties heq => exact absurd heq (hproperties properties)
        · rfl
      have hpayload : payload (JsObject.assign event "delta" (.str (before ++ behind)))
          = JsObject.assign event "delta" (.str (before ++ behind)) := by
        rw [payload, own?_assign_of_ne (by decide)]
        split
        · next properties heq => exact absurd heq (hproperties properties)
        · rfl
      refine ⟨?_, before, behind, hbefore, hbehind, ?_⟩
      · simp only [partKey, hpayload, hpayload']
        rw [own?_assign_of_ne (by decide), own?_assign_of_ne (by decide),
          own?_assign_of_ne (by decide)]
      · simp only [delta?, hpayload, own?_assign_self]
        rfl
  · cases h

theorem mergeDeltaFrames_eq_some {prev next merged : Frame} (h : mergeDeltaFrames prev next = some merged) :
    merged.ids = prev.ids ∧ merged.data.bind partKey = prev.data.bind partKey ∧
      ∃ before behind, prev.data.bind delta? = some before ∧ next.data.bind delta? = some behind ∧
        merged.data.bind delta? = some (before ++ behind) := by
  unfold mergeDeltaFrames at h
  split at h
  · next before behind hbefore hbehind =>
    split at h
    · next event hevent =>
      split at h
      · cases h
      · obtain rfl := Option.some.inj h
        obtain ⟨hkey, hdelta⟩ := mergeEvents_eq_some hevent
        rw [hbefore, hbehind]
        exact ⟨rfl, hkey, hdelta⟩
    · cases h
  · cases h

theorem Stands.merge {block : List Frame} {tail frame merged : Frame} (h : Stands block tail)
    (htail : tail.data.bind partKey = some key) (hblock : ∀ other ∈ block, deltaPartKey other = some key)
    (hframe : deltaPartKey frame = some key) (hmerged : mergeDeltaFrames tail frame = some merged) :
    Stands (block ++ [frame]) merged := by
  obtain ⟨hids, hkey, before, behind, hbefore, hbehind, hdelta⟩ := mergeDeltaFrames_eq_some hmerged
  refine ⟨?_, fun other ↦ ?_, .inr ⟨key, fun other hother ↦ ?_⟩⟩
  · have hhead := h.ids
    rcases block with _ | ⟨first, rest⟩
    · cases hhead
    · rw [hids]
      exact hhead
  · rw [text_append, ← h.text]
    have hframe' := partKey_of_deltaPartKey hframe
    simp only [Coalescing.text, flatMap_cons, flatMap_nil, append_nil, hkey, htail, hframe',
      hbefore, hbehind, hdelta]
    split_ifs
    · simp
    · rfl
  · rcases mem_append.mp hother with hother | hother
    · exact hblock other hother
    · rw [mem_singleton.mp hother]
      exact hframe

/-! ## Numbers -/

def Numbered (engine : Engine) (n : ℕ) (frames : List Frame) : Prop :=
  ∀ (i : ℕ) (frame : Frame), frames[i]? = some frame → frame.pos? = some ⟨engine.epoch, n + i + 1⟩

theorem Numbered.append (ha : Numbered engine n a)
    (hb : Numbered engine (n + a.length) b) : Numbered engine n (a ++ b) := by
  intro i frame h
  by_cases hi : i < a.length
  · rw [getElem?_append_left hi] at h
    exact ha i frame h
  · rw [getElem?_append_right (Nat.le_of_not_lt hi)] at h
    rw [hb (i - a.length) frame h]
    exact congrArg (fun seq ↦ some (EngineId.mk engine.epoch seq)) (by omega)

theorem Numbered.left (h : Numbered engine n (a ++ b)) : Numbered engine n a := by
  intro i frame hi
  refine h i frame ?_
  rw [getElem?_append_left (List.getElem?_eq_some_iff.mp hi).1, hi]

theorem Numbered.right (h : Numbered engine n (a ++ b)) :
    Numbered engine (n + a.length) b := by
  intro i frame hi
  rw [h (a.length + i) frame]
  · exact congrArg (fun seq ↦ some (EngineId.mk engine.epoch seq)) (by omega)
  · rw [getElem?_append_right (Nat.le_add_right _ _), Nat.add_sub_cancel_left, hi]

theorem Numbered.bounds {frames : List Frame} (h : Numbered engine n frames)
    (hmem : frame ∈ frames) : ∃ seq, frame.pos? = some ⟨engine.epoch, seq⟩ ∧ n < seq ∧ seq ≤ n + frames.length := by
  obtain ⟨i, hi⟩ := mem_iff_getElem?.mp hmem
  have hlt := (List.getElem?_eq_some_iff.mp hi).1
  exact ⟨n + i + 1, h i frame hi, by omega, by omega⟩

theorem numbered_nextFrame (s : State) (engine : Engine) (event : JsonValue) :
    Numbered engine (engine.start + s.sent.length) [s.nextFrame engine event] := by
  intro i frame h
  rcases i with _ | i
  · obtain rfl := Option.some.inj h
    change (some (formatID engine.epoch (engine.start + s.sent.length + 1))).bind EngineId.parse = _
    rw [bind_some, parse_formatID engine.epoch_ok, Nat.add_zero]
  · cases h

theorem filter_numbered {cursor : ℕ} (h : Numbered engine n (a ++ b))
    (hcursor : cursor = n + a.length) :
    ((a ++ b).filter fun frame ↦ frame.pos?.any fun pos ↦ cursor < pos.seq) = b := by
  rw [filter_append]
  have ha : (a.filter fun frame ↦ frame.pos?.any fun pos ↦ cursor < pos.seq) = [] := by
    refine filter_eq_nil_iff.mpr fun frame hframe ↦ ?_
    obtain ⟨seq, hpos, -, hle⟩ := h.left.bounds hframe
    rw [hpos, any_some, decide_eq_true_eq]
    dsimp only
    omega
  have hb : (b.filter fun frame ↦ frame.pos?.any fun pos ↦ cursor < pos.seq) = b := by
    refine filter_eq_self.mpr fun frame hframe ↦ ?_
    obtain ⟨seq, hpos, hlt, -⟩ := h.right.bounds hframe
    rw [hpos, any_some, decide_eq_true_eq]
    dsimp only
    omega
  rw [ha, hb, nil_append]

/-! ## The blocks of the queue -/

/-- What has been taken and what is queued stand for what has been put, block by block. -/
structure Blocks (engine : Engine) (s : State) (done queued : List (List Frame)) : Prop where
  sent : s.sent = done.flatten ++ queued.flatten
  numbered : Numbered engine engine.start s.sent
  taken : List.Forall₂ Stands done s.taken
  queue : List.Forall₂ Stands queued (s.queue.items.filterMap id)
  /-- The last block, if more can be merged into it. -/
  tail : ∀ key, s.queue.tailKey = some key → ∀ tail, s.queue.items.getLast? = some (some tail) →
    tail.data.bind partKey = some key ∧ ∀ block ∈ queued.getLast?, ∀ other ∈ block, deltaPartKey other = some key

variable {done queued : List (List Frame)}

theorem Stands.single (frame : Frame) : Stands [frame] frame := ⟨rfl, fun _ ↦ rfl, .inl rfl⟩

theorem Blocks.append (h : Blocks engine s done queued) (event : JsonValue) {tailKey : Option PartKey}
    (hkey : ∀ key, tailKey = some key → deltaPartKey (s.nextFrame engine event) = some key) :
    Blocks engine
      { s with
        queue := ⟨s.queue.items ++ [some (s.nextFrame engine event)], tailKey⟩
        sent := s.sent ++ [s.nextFrame engine event] }
      done (queued ++ [[s.nextFrame engine event]]) where
  sent := by
    rw [h.sent, flatten_append, append_assoc]
    rfl
  numbered := h.numbered.append (numbered_nextFrame s engine event)
  taken := h.taken
  queue := by
    rw [filterMap_append]
    exact rel_append h.queue (.cons (.single _) .nil)
  tail := fun key hsome tail htail ↦ by
    rw [getLast?_concat] at htail
    obtain rfl := Option.some.inj (Option.some.inj htail)
    refine ⟨partKey_of_deltaPartKey (hkey key hsome), fun block hblock other hother ↦ ?_⟩
    rw [getLast?_concat] at hblock
    obtain rfl := Option.some.inj hblock
    rw [mem_singleton.mp hother]
    exact hkey key hsome

theorem forall₂_concat_right {α β : Type*} {R : α → β → Prop} {l : List α} {u : List β} {b : β}
    (h : List.Forall₂ R l (u ++ [b])) : ∃ l' a, l = l' ++ [a] ∧ List.Forall₂ R l' u ∧ R a b := by
  have hdrop := forall₂_drop_append l u [b] h
  obtain ⟨a, rest, hab, hrest, heq⟩ := forall₂_cons_right_iff.mp hdrop
  rw [forall₂_nil_right_iff.mp hrest] at heq
  refine ⟨l.take u.length, a, ?_, forall₂_take_append l u [b] h, hab⟩
  rw [← heq, take_append_drop]

theorem Blocks.merge (h : Blocks engine s done queued) {event : JsonValue} {tail merged : Frame}
    (hkey : deltaPartKey (s.nextFrame engine event) = some key) (htailKey : s.queue.tailKey = some key)
    (htail : s.queue.items.getLast? = some (some tail))
    (hmerged : mergeDeltaFrames tail (s.nextFrame engine event) = some merged) :
    ∃ queued', Blocks engine
      { s with
        queue := { s.queue with items := s.queue.items.dropLast ++ [some merged] }
        sent := s.sent ++ [s.nextFrame engine event] }
      done queued' := by
  obtain ⟨items, hitems⟩ := getLast?_eq_some_iff.mp htail
  have hqueue := h.queue
  rw [hitems, filterMap_append] at hqueue
  obtain ⟨blocks, block, rfl, hblocks, hstands⟩ := forall₂_concat_right hqueue
  obtain ⟨hpart, hlast⟩ := h.tail key htailKey tail htail
  have hblock := hlast block getLast?_concat
  have hnext : ∀ other ∈ block ++ [s.nextFrame engine event], deltaPartKey other = some key := by
    intro other hother
    rcases mem_append.mp hother with hother | hother
    · exact hblock other hother
    · rw [mem_singleton.mp hother]
      exact hkey
  refine ⟨blocks ++ [block ++ [s.nextFrame engine event]], ?_, ?_, h.taken, ?_, fun key' hkey' tail' htail' ↦ ?_⟩
  · rw [h.sent]
    simp only [flatten_append, flatten_cons, flatten_nil, append_nil, append_assoc]
  · exact h.numbered.append (numbered_nextFrame s engine event)
  · rw [hitems, dropLast_concat, filterMap_append]
    exact rel_append hblocks (.cons (hstands.merge hpart hblock hkey hmerged) .nil)
  · obtain rfl : key = key' := Option.some.inj (htailKey.symm.trans hkey')
    rw [getLast?_concat] at htail'
    obtain rfl := Option.some.inj (Option.some.inj htail')
    refine ⟨(mergeDeltaFrames_eq_some hmerged).2.1.trans hpart, fun other hother ↦ ?_⟩
    rw [getLast?_concat] at hother
    exact Option.some.inj hother ▸ hnext

theorem Numbered.pos_of_stands {a b rest : List Frame} {first frame : Frame}
    (h : Numbered engine n (a ++ first :: b)) (hstands : Stands (first :: rest) frame) :
    frame.pos? = some ⟨engine.epoch, n + a.length + 1⟩ := by
  have hids : first.ids = frame.ids := Option.some.inj hstands.ids
  have hpos : first.pos? = frame.pos? := by rw [Frame.pos?, Frame.pos?, hids]
  rw [← hpos]
  refine h a.length first ?_
  rw [getElem?_append_right (Nat.le_refl _), Nat.sub_self]
  rfl

/-- What the engine sends again is what the last taken frame stands for, but for the frame whose id it has. -/
theorem Blocks.replay_eq {front : List (List Frame)}
    (h : Blocks engine s (front ++ [first :: rest]) queued) : s.replay = rest ++ queued.flatten := by
  obtain ⟨frames, last, htaken, -, hstands⟩ := forall₂_concat_right h.taken.flip
  have hsent : s.sent = (front.flatten ++ [first]) ++ (rest ++ queued.flatten) := by
    rw [h.sent]
    simp only [flatten_append, flatten_cons, flatten_nil, append_nil, append_assoc,
      cons_append, nil_append]
  have hnumbered := hsent ▸ h.numbered
  have hpos : last.pos? = some ⟨engine.epoch, engine.start + front.flatten.length + 1⟩ := by
    rw [append_assoc] at hnumbered
    exact hnumbered.pos_of_stands hstands
  rw [State.replay, htaken, getLast?_concat, bind_some, hpos, hsent]
  refine filter_numbered hnumbered ?_
  rw [length_append, length_singleton, Nat.add_assoc]

theorem Blocks.replay_nil (h : Blocks engine s [] queued) : s.replay = s.sent := by
  rw [State.replay, forall₂_nil_left_iff.mp h.taken]
  rfl

/-- The client gets every text once if and only if nothing but the frame whose id it has seen has had text. -/
theorem Blocks.resumed_iff {front : List (List Frame)}
    (h : Blocks engine s (front ++ [first :: rest]) queued) :
    (∀ key, text key s.taken ++ text key s.replay = text key s.sent) ↔ ∀ key, text key rest = [] := by
  refine forall_congr' fun key ↦ ?_
  rw [text_of_stands key h.taken, h.replay_eq, h.sent, text_append, text_append, append_cancel_left_eq]
  exact append_left_eq_self

/-! ## Steps -/

/-- The blocks, with everything received once so far. -/
def Good (engine : Engine) (s : State) : Prop :=
  (∃ done queued, Blocks engine s done queued) ∧ ∀ key, text key s.taken ++ text key s.replay = text key s.sent

theorem Good.invisibleLaw (h : Good engine s) : InvisibleLaw s := by
  obtain ⟨⟨done, queued, hblocks⟩, hresumed⟩ := h
  exact ⟨⟨done, queued.flatten, hblocks.sent, hblocks.taken, fun key ↦ text_of_stands key hblocks.taken⟩, hresumed⟩

theorem Blocks.replay_append (h : Blocks engine s done queued) {s' : State} {queued' : List (List Frame)}
    (h' : Blocks engine s' done queued') {more : List Frame} (hsent : s'.sent = s.sent ++ more) :
    s'.replay = s.replay ++ more := by
  rcases done.eq_nil_or_concat' with rfl | ⟨front, last, rfl⟩
  · rw [h.replay_nil, h'.replay_nil, hsent]
  · rcases last with _ | ⟨first, rest⟩
    · -- no frame stands for nothing
      obtain ⟨frames, frame, -, -, hstands⟩ := forall₂_concat_right h.taken.flip
      cases hstands.ids
    · rw [h.replay_eq, h'.replay_eq, append_assoc, append_cancel_left_eq]
      have heq := h'.sent.symm.trans (hsent.trans (congrArg (· ++ more) h.sent))
      rw [append_assoc, append_cancel_left_eq] at heq
      exact heq

theorem Good.append (h : Good engine s) {s' : State} (hblocks : ∀ done queued, Blocks engine s done queued →
    ∃ queued', Blocks engine s' done queued') (htaken : s'.taken = s.taken) {more : List Frame}
    (hsent : s'.sent = s.sent ++ more) : Good engine s' := by
  obtain ⟨⟨done, queued, hdone⟩, hresumed⟩ := h
  obtain ⟨queued', hdone'⟩ := hblocks done queued hdone
  refine ⟨⟨done, queued', hdone'⟩, fun key ↦ ?_⟩
  rw [htaken, hdone.replay_append hdone' hsent, hsent, text_append, text_append, ← append_assoc,
    hresumed key]

theorem good_empty (engine : Engine) : Good engine State.empty := by
  refine ⟨⟨[], [], rfl, fun i frame h ↦ ?_, .nil, .nil, fun key h ↦ ?_⟩, fun key ↦ rfl⟩
  · rw [State.empty, getElem?_nil] at h
    cases h
  · cases h

theorem Good.fan (h : Good engine s) (event : JsonValue) : Good engine (s.step engine (.fan event)) := by
  refine h.append (fun done queued hblocks ↦ ?_) rfl rfl
  rw [State.step]
  split
  · next key hkey =>
    rw [MemberQueue.putCoalescing]
    split
    · next tail htail =>
      split
      · next merged hmerged =>
        split_ifs at hmerged with htailKey
        exact hblocks.merge hkey htailKey htail hmerged
      · exact ⟨_, hblocks.append event fun key' h ↦ Option.some.inj h ▸ hkey⟩
    · exact ⟨_, hblocks.append event fun key' h ↦ Option.some.inj h ▸ hkey⟩
  · exact ⟨_, hblocks.append event fun key h ↦ by cases h⟩

theorem Good.put (h : Good engine s) (event : JsonValue) : Good engine (s.step engine (.put event)) :=
  h.append (fun _ _ hblocks ↦ ⟨_, hblocks.append event fun key h ↦ by cases h⟩) rfl rfl

theorem Good.close (h : Good engine s) : Good engine (s.step engine .close) := by
  refine h.append (fun done queued hblocks ↦ ⟨queued, hblocks.sent, hblocks.numbered, hblocks.taken, ?_, ?_⟩) rfl
    (append_nil _).symm
  · rw [State.step, MemberQueue.put, filterMap_append]
    exact (append_nil _).symm ▸ hblocks.queue
  · exact fun key hkey ↦ by cases hkey

/-- What the head of the queue stands for, behind the first frame, is numbered between that and the next one. -/
theorem Blocks.whole_iff {items : List (Option Frame)}
    (h : Blocks engine s done ((first :: rest) :: queued)) (hitems : s.queue.items = some frame :: items) :
    Whole s .get ↔ ∀ key, text key rest = [] := by
  have hqueue := h.queue
  rw [hitems] at hqueue
  obtain ⟨hstands, hqueued⟩ := forall₂_cons.mp hqueue
  have hsent : s.sent = (done.flatten ++ [first]) ++ (rest ++ queued.flatten) := by
    rw [h.sent, flatten_cons]
    simp only [append_assoc, cons_append, nil_append]
  have hnumbered := hsent ▸ h.numbered
  have hpos : frame.pos? = some ⟨engine.epoch, engine.start + done.flatten.length + 1⟩ := by
    rw [append_assoc] at hnumbered
    exact hnumbered.pos_of_stands hstands
  -- the number of the next frame, if there is one
  have hnext : ∀ next ∈ (items.filterMap id).head?,
      next.pos? = some ⟨engine.epoch, engine.start + done.flatten.length + rest.length + 2⟩ := by
    intro next hmem
    rcases hfilter : items.filterMap id with _ | ⟨head, others⟩
    · rw [hfilter] at hmem
      cases hmem
    · rw [hfilter] at hmem
      obtain rfl := Option.some.inj hmem
      rw [hfilter] at hqueued
      obtain ⟨block, blocks, hblock, -, rfl⟩ := forall₂_cons_right_iff.mp hqueued
      rcases block with _ | ⟨first', rest'⟩
      · cases hblock.ids
      · have hsplit : done.flatten ++ [first] ++ (rest ++ ((first' :: rest') :: blocks).flatten)
            = (done.flatten ++ first :: rest) ++ first' :: (rest' ++ blocks.flatten) := by
          simp only [flatten_cons, append_assoc, cons_append, nil_append]
        have hnumbered' : Numbered engine engine.start
            ((done.flatten ++ first :: rest) ++ first' :: (rest' ++ blocks.flatten)) := hsplit ▸ hnumbered
        rw [hnumbered'.pos_of_stands hblock, length_append, length_cons]
        exact congrArg (fun seq ↦ some (EngineId.mk engine.epoch seq)) (by omega)
  have hlength : (done.flatten ++ [first]).length = done.flatten.length + 1 := by
    rw [length_append, length_singleton]
  constructor
  · intro hwhole key
    refine (text_eq_nil_iff key rest).mpr fun other hother ↦ ?_
    obtain ⟨seq, hseq, hlt, hle⟩ := hnumbered.right.left.bounds hother
    refine hwhole frame (by rw [hitems]; rfl) _ hpos other ?_ _ hseq ?_ (fun next hmem limit hlimit ↦ ?_) key
    · rw [hsent]
      exact mem_append_right _ (mem_append_left _ hother)
    · dsimp only
      omega
    · rw [hitems] at hmem
      rw [hnext next hmem] at hlimit
      obtain rfl := Option.some.inj hlimit
      dsimp only
      omega
  · intro hrest frame' hhead cursor hcursor other hother pos hposOther hlt hlimit key
    rw [hitems] at hhead hlimit
    obtain rfl := Option.some.inj (Option.some.inj hhead)
    obtain rfl := Option.some.inj (hpos.symm.trans hcursor)
    rw [hsent] at hother
    rcases mem_append.mp hother with hother | hother
    · -- it has been put before
      obtain ⟨seq, hseq, -, hle⟩ := hnumbered.left.bounds hother
      obtain rfl := Option.some.inj (hseq.symm.trans hposOther)
      dsimp only at hlt
      omega
    · rcases mem_append.mp hother with hother | hother
      · exact (text_eq_nil_iff key rest).mp (hrest key) other hother
      · -- it is behind the next frame of the queue
        obtain ⟨seq, hseq, hlt', -⟩ := hnumbered.right.right.bounds hother
        obtain rfl := Option.some.inj (hseq.symm.trans hposOther)
        rcases queued with _ | ⟨block, blocks⟩
        · exact absurd hother not_mem_nil
        · obtain ⟨next, others, -, -, hfilter⟩ := forall₂_cons_left_iff.mp hqueued
          have hmem : next ∈ (items.filterMap id).head? := by
            rw [hfilter]
            rfl
          have hbehind := hlimit next hmem _ (hnext next hmem)
          dsimp only at hbehind
          omega

theorem Blocks.get {block : List Frame} {items : List (Option Frame)}
    (h : Blocks engine s done (block :: queued)) (hitems : s.queue.items = some frame :: items) :
    Blocks engine { s with queue := ⟨items, none⟩, taken := s.taken ++ [frame] } (done ++ [block]) queued where
  sent := by
    rw [h.sent]
    simp only [flatten_append, flatten_cons, flatten_nil, append_nil, append_assoc]
  numbered := h.numbered
  taken := by
    have hqueue := h.queue
    rw [hitems] at hqueue
    exact rel_append h.taken (.cons (forall₂_cons.mp hqueue).1 .nil)
  queue := by
    have hqueue := h.queue
    rw [hitems] at hqueue
    exact (forall₂_cons.mp hqueue).2
  tail := fun key hkey ↦ by cases hkey

theorem Good.get (h : Good engine s) :
    (∃ done queued, Blocks engine (s.step engine .get) done queued) ∧
      (Whole s .get ↔ ∀ key, text key (s.step engine .get).taken ++ text key (s.step engine .get).replay
        = text key (s.step engine .get).sent) := by
  obtain ⟨⟨done, queued, hblocks⟩, hresumed⟩ := h
  rw [State.step]
  rcases hitems : s.queue.items with _ | ⟨item, items⟩
  · exact ⟨⟨done, queued, hblocks⟩, fun _ ↦ hresumed, fun _ frame hhead ↦ by rw [hitems] at hhead; cases hhead⟩
  · have hqueue := hblocks.queue
    rw [hitems] at hqueue
    rcases item with _ | frame
    · -- the writer is told to end
      dsimp only [toList_none]
      rw [append_nil]
      exact ⟨⟨done, queued, hblocks.sent, hblocks.numbered, hblocks.taken, hqueue, fun key hkey ↦ by cases hkey⟩,
        fun _ ↦ hresumed, fun _ frame hhead ↦ by rw [hitems] at hhead; cases hhead⟩
    · obtain ⟨block, blocks, hstands, -, rfl⟩ := forall₂_cons_right_iff.mp hqueue
      rcases block with _ | ⟨first, rest⟩
      · cases hstands.ids
      · have hget := hblocks.get hitems
        exact ⟨⟨_, _, hget⟩, (hblocks.whole_iff hitems).trans hget.resumed_iff.symm⟩

theorem Good.step_iff (h : Good engine s) (op : Op) : Whole s op ↔ Good engine (s.step engine op) := by
  rcases op with event | event | _ | _
  · exact ⟨fun _ ↦ h.fan event, fun _ ↦ trivial⟩
  · exact ⟨fun _ ↦ h.put event, fun _ ↦ trivial⟩
  · exact ⟨fun _ ↦ h.close, fun _ ↦ trivial⟩
  · exact ⟨fun hwhole ↦ ⟨h.get.1, h.get.2.mp hwhole⟩, fun hgood ↦ h.get.2.mpr hgood.2⟩

theorem Good.whole_iff (h : Good engine s) (op : Op) : Whole s op ↔ InvisibleLaw (s.step engine op) := by
  refine ⟨fun hwhole ↦ ((h.step_iff op).mp hwhole).invisibleLaw, fun hlaw ↦ ?_⟩
  rcases op with event | event | _ | _
  · trivial
  · trivial
  · trivial
  · exact h.get.2.mpr hlaw.resumed

/-! ## The result -/

/-- Coalescing cannot be seen in a run, at whatever point the connection ends, if and only if the writer takes no
frame into which text has been merged. -/
theorem invisibleLaw_iff (engine : Engine) (ops : List Op) :
    Guarded (State.step engine) (fun s op ↦ InvisibleLaw (s.step engine op)) State.empty ops ↔
      Guarded (State.step engine) Whole State.empty ops :=
  (guarded_iff_of_invariant (fun _ op hs ↦ hs.whole_iff op) (fun _ op hs ↦ (hs.step_iff op).mp)
    (good_empty engine)).symm

/-- A delta of the text of one part. -/
def deltaEvent (delta : String) : JsonValue :=
  .obj [("type", .str "message.part.delta"),
    ("properties",
      .obj [("messageID", .str "m"), ("partID", .str "p"), ("field", .str "text"), ("delta", .str delta)])]

/-- Two deltas are merged before the writer takes them, so that the second is sent again. -/
theorem not_invisibleLaw_merged :
    ¬ Guarded (State.step ⟨"e", by decide, 0⟩) (fun s op ↦ InvisibleLaw (s.step ⟨"e", by decide, 0⟩ op)) State.empty
      [.fan (deltaEvent "Hel"), .fan (deltaEvent "lo"), .get] := by
  intro h
  have hresumed := h.2.2.1.resumed ("\"m\"".toList, "\"p\"".toList, "\"text\"".toList)
  exact absurd hresumed (by decide +kernel)

end Amicode.Coalescing
