import Amicode.Foundation.StepMachine
import Amicode.Frontdoor.Route

/-!
# Sticky sessions

All the requests of a session of a pooled directory are to go to one shard of its pool, the one that has created it,
while lookups, placements and pins interleave and the responses of the creations come in pieces; and the counts and
the persisted map are to follow the map.

That holds while no pin overwrites another (`Sure`): no pin of a session comes between the lookup and the pin of a
request for it, unless both are to one shard, and what has been read of the response to a `POST /session` names the
created session whole, and no other before it. The counts and the persisted map are right in every run.
-/

namespace Amicode.Frontdoor

open StepMachine List Option Function

variable {table : Table} {home : List Char → Option (List Char)} {s : State}

/-! ## The law -/

/-- What is to hold; `home` is the directory of a session. -/
structure StickyLaw (table : Table) (home : List Char → Option (List Char)) (s : State) : Prop where
  /-- All the requests of a session go to one shard, -/
  oneShard : ∀ a ∈ s.routed, ∀ b ∈ s.routed, ∀ sid, a.sid = some sid → b.sid = some sid →
    table.pool (home sid) ≠ [] → a.shard = b.shard
  /-- which is in its pool, -/
  inPool : ∀ a ∈ s.routed, ∀ sid, a.sid = some sid → table.pool (home sid) ≠ [] → a.shard ∈ table.pool (home sid)
  /-- and the one that has created it. -/
  creator : ∀ c ∈ s.creations, ∀ a ∈ s.routed, a.sid = some c.created.text →
    table.pool (home c.created.text) ≠ [] → a.shard = c.shard
  counts : ∀ shard, s.sessCount shard = s.sessMap.values.count shard
  /-- The persisted map is the one in memory if the last write has succeeded. -/
  persisted : s.written = true → s.file = s.sessMap

def Begins (text : List Char) : Prop := ∃ c rest, text = "ses_".toList ++ c :: rest ∧ isWord c = true

/-- The first session id of a text, if it has one, is this one, and it is whole. -/
def ReadsWhole (id : SessionId) (text : List Char) : Prop :=
  ∀ tail, tail <:+ text → Begins tail → (∀ other, other <:+ text → Begins other → other.length ≤ tail.length) →
    ∃ after, tail = id.text ++ after ∧ ∀ c ∈ after.head?, isWord c = false

/-- No pin overwrites another. -/
def Sure (table : Table) (home : List Char → Option (List Char)) (s : State) : Op → Prop
  | .request _ _ raw => ∀ sid ∈ sesSearch raw, s.sessMap.get? sid = none →
    (table.pool (directoryOf raw) ≠ [] ∨ table.pool (home sid) ≠ [] → directoryOf raw = home sid) ∧
      ∀ c ∈ s.creations, c.created.text ≠ sid
  | .place _ _ _ => True
  | .pinRequest index _ => ∀ r ∈ s.requests[index]?, ∀ shard ∈ r.placed,
    s.sessMap.get? r.sid = none ∨ s.sessMap.get? r.sid = some shard
  | .create _ raw created =>
    (table.pool (directoryOf raw) ≠ [] ∨ table.pool (home created.text) ≠ [] → directoryOf raw = home created.text) ∧
      s.sessMap.get? created.text = none ∧ (∀ r ∈ s.requests, r.sid ≠ created.text) ∧
      ∀ c ∈ s.creations, c.created.text ≠ created.text
  | .read index chunk _ => ∀ c ∈ s.creations[index]?, c.pinned = true ∨
    ReadsWhole c.created ((c.capture chunk).map fun b ↦ Char.ofNat b.toNat)

/-! ## What is found -/

theorem begins_of_idAt {text id : List Char} (h : idAt "ses_".toList text = some id) : Begins text := by
  obtain ⟨m, hrun, -⟩ := map_eq_some_iff.mp h
  rw [Pattern.run] at hrun
  split at hrun
  · cases hrun
  · next rest hstrip =>
    rw [Pattern.stripPrefix?_eq_some hstrip]
    rw [Pattern.run] at hrun
    split at hrun
    · cases hrun
    · next hword =>
      rcases rest with _ | ⟨c, rest⟩
      · exact absurd rfl hword
      · refine ⟨c, rest, rfl, Bool.not_eq_false _ |>.mp fun hc ↦ hword ?_⟩
        rw [takeWhile_cons_of_neg (by simp [hc])]
        rfl

theorem idAt_text (id : SessionId) {after : List Char} (h : ∀ c ∈ after.head?, isWord c = false) :
    idAt "ses_".toList (id.text ++ after) = some id.text := by
  have hafter : after.takeWhile isWord = [] := by
    rcases after with _ | ⟨c, after⟩
    · rfl
    · exact takeWhile_cons_of_neg (by simp [h c rfl])
  rw [idAt, SessionId.text, append_assoc, Pattern.run_lit_append,
    Pattern.run_many_append id.isWord hafter fun _ ↦ id.word_ne_nil, Pattern.run]
  simp

theorem suffix_of_search {matchAt : List Char → Option (List Char)} {text id : List Char}
    (h : search matchAt text = some id) :
    ∃ tail, tail <:+ text ∧ matchAt tail = some id ∧
      ∀ other, other <:+ text → matchAt other ≠ none → other.length ≤ tail.length := by
  induction text with
  | nil => exact ⟨[], suffix_refl _, h, fun other hother _ ↦ hother.length_le⟩
  | cons c rest ih =>
    rw [search] at h
    rcases hat : matchAt (c :: rest) with _ | found
    · rw [hat, none_or] at h
      obtain ⟨tail, htail, hfound, hlongest⟩ := ih h
      refine ⟨tail, htail.trans (suffix_cons c rest), hfound, fun other hother hne ↦ ?_⟩
      rcases suffix_cons_iff.mp hother with rfl | hother
      · exact absurd hat hne
      · exact hlongest other hother hne
    · rw [hat, some_or] at h
      exact ⟨c :: rest, suffix_refl _, hat.trans h, fun other hother _ ↦ hother.length_le⟩

theorem idAt_ne_none_of_begins {text : List Char} (h : Begins text) : idAt "ses_".toList text ≠ none := by
  obtain ⟨c, rest, rfl, hc⟩ := h
  rw [idAt, Pattern.run_lit_append, Pattern.run, Pattern.run, takeWhile_cons_of_pos hc]
  exact some_ne_none _

theorem ReadsWhole.eq_of_sesSearch {id : SessionId} {text sid : List Char} (h : ReadsWhole id text)
    (hsearch : sesSearch text = some sid) : sid = id.text := by
  obtain ⟨tail, htail, hat, hlongest⟩ := suffix_of_search hsearch
  obtain ⟨after, rfl, hafter⟩ := h tail htail (begins_of_idAt hat)
    fun other hother hbegins ↦ hlongest other hother (idAt_ne_none_of_begins hbegins)
  rw [idAt_text id hafter] at hat
  exact (Option.some.inj hat).symm

/-! ## The map, the counts and the file -/

theorem foldl_update_count (values : List ℤ) (counts : ℤ → ℕ) (shard : ℤ) :
    values.foldl (fun counts shard ↦ Function.update counts shard (counts shard + 1)) counts shard
      = counts shard + values.count shard := by
  induction values generalizing counts with
  | nil => rfl
  | cons first rest ih =>
    rw [foldl_cons, ih, count_cons]
    by_cases heq : first = shard
    · subst heq
      rw [update_self, if_pos (beq_self_eq_true first)]
      omega
    · rw [update_of_ne (Ne.symm heq), if_neg (by simpa using heq)]
      omega

theorem count_values_set (entries : List (List Char × ℤ)) (sid : List Char) (new shard : ℤ) :
    ((InsertionMap.Entries.set entries sid new).map Prod.snd).count shard
        + (if InsertionMap.Entries.get? entries sid = some shard then 1 else 0)
      = (entries.map Prod.snd).count shard + (if new = shard then 1 else 0) := by
  induction entries with
  | nil =>
    rw [InsertionMap.Entries.set, InsertionMap.Entries.get?, if_neg (some_ne_none _).symm]
    simp [count_cons, beq_iff_eq]
  | cons entry rest ih =>
    obtain ⟨key, value⟩ := entry
    rw [InsertionMap.Entries.set, InsertionMap.Entries.get?]
    by_cases hkey : key = sid
    · simp only [if_pos hkey, map_cons, count_cons, beq_iff_eq, Option.some.injEq]
      omega
    · simp only [if_neg hkey, map_cons, count_cons, beq_iff_eq]
      omega

/-- The counts and the file follow the map. -/
structure Counted (s : State) : Prop where
  counts : ∀ shard, s.sessCount shard = s.sessMap.values.count shard
  persisted : s.written = true → s.file = s.sessMap

theorem counted_load (file : InsertionMap (List Char) ℤ) : Counted (State.load file) where
  counts := fun shard ↦ (foldl_update_count file.values (fun _ ↦ 0) shard).trans (Nat.zero_add _)
  persisted := fun _ ↦ rfl

theorem Counted.pin (h : Counted s) (sid : List Char) (shard : ℤ) (writes : Bool) :
    Counted (s.pin sid shard writes) := by
  have hmoved : s.sessMap.get? sid ≠ some shard → ∀ other,
      Function.update ((s.sessMap.get? sid).elim s.sessCount fun old ↦
          Function.update s.sessCount old (s.sessCount old - 1)) shard
        ((s.sessMap.get? sid).elim s.sessCount (fun old ↦
          Function.update s.sessCount old (s.sessCount old - 1)) shard + 1) other
        = (s.sessMap.set sid shard).values.count other := by
    intro hne other
    have hcount := count_values_set s.sessMap.entries sid shard other
    have hbefore := h.counts other
    change _ + (if s.sessMap.get? sid = some other then 1 else 0) = _ at hcount
    change s.sessCount other = (s.sessMap.entries.map Prod.snd).count other at hbefore
    change _ = ((InsertionMap.Entries.set s.sessMap.entries sid shard).map Prod.snd).count other
    rcases hprev : s.sessMap.get? sid with _ | old
    · rw [hprev, if_neg (some_ne_none _).symm] at hcount
      by_cases heq : shard = other
      · subst heq
        rw [if_pos rfl] at hcount
        simp only [elim_none, update_self]
        omega
      · rw [if_neg heq] at hcount
        simp only [elim_none, update_of_ne (Ne.symm heq)]
        omega
    · rw [hprev] at hne hcount
      have hold : old ≠ shard := fun heq ↦ hne (congrArg some heq)
      by_cases heq : shard = other
      · subst heq
        rw [if_neg (fun h ↦ hold (Option.some.inj h)), if_pos rfl] at hcount
        simp only [elim_some, update_self, update_of_ne (Ne.symm hold)]
        omega
      · rw [if_neg heq] at hcount
        simp only [elim_some, update_of_ne (Ne.symm heq)]
        by_cases hother : old = other
        · subst hother
          rw [if_pos rfl] at hcount
          rw [update_self]
          omega
        · rw [if_neg (fun h ↦ hother (Option.some.inj h))] at hcount
          rw [update_of_ne (Ne.symm hother)]
          omega
  unfold State.pin
  dsimp only
  split_ifs with hsame hwrites
  · exact h
  · exact ⟨hmoved hsame, fun _ ↦ rfl⟩
  · exact ⟨hmoved hsame, fun hfalse ↦ absurd hfalse hwrites⟩

theorem Counted.of_same (h : Counted s) {s' : State} (hmap : s'.sessMap = s.sessMap)
    (hcount : s'.sessCount = s.sessCount) (hfile : s'.file = s.file) (hwritten : s'.written = s.written) :
    Counted s' where
  counts := by
    rw [hmap, hcount]
    exact h.counts
  persisted := by
    rw [hmap, hfile, hwritten]
    exact h.persisted

theorem Counted.step (h : Counted s) (op : Op) : Counted (s.step table op) := by
  rcases op with ⟨questions, loads, raw⟩ | ⟨index, loads, jev⟩ | ⟨index, writes⟩ | ⟨loads, raw, created⟩ |
    ⟨index, chunk, writes⟩
  · simp only [State.step, State.request]
    repeat' split
    all_goals exact h.of_same rfl rfl rfl rfl
  · simp only [State.step, State.place]
    repeat' split
    all_goals exact h.of_same rfl rfl rfl rfl
  · simp only [State.step, State.pinRequest]
    repeat' split
    · exact (h.pin ..).of_same rfl rfl rfl rfl
    · exact h
    · exact h
  · exact h.of_same rfl rfl rfl rfl
  · simp only [State.step, State.read]
    repeat' split
    · exact h.of_same rfl rfl rfl rfl
    · exact (h.pin ..).of_same rfl rfl rfl rfl
    · exact h

/-- Whatever races, the counts that place a session are those of the map, and so is the file after a write. -/
theorem pins_counted (table : Table) (file : InsertionMap (List Char) ℤ) (ops : List Op) :
    Counted (run (State.step table) (State.load file) ops) :=
  invariant_run (fun _ op h ↦ h.step op) (counted_load file) ops

/-! ## The sessions -/

variable (s) (sid : List Char) (shard : ℤ) (writes : Bool)

theorem get?_pin (other : List Char) :
    (s.pin sid shard writes).sessMap.get? other = if sid = other then some shard else s.sessMap.get? other := by
  unfold State.pin
  dsimp only
  split_ifs with hsame hother
  · rw [← hother, hsame]
  · rfl
  all_goals
    rw [InsertionMap.get?_set]
    simp [*]

theorem creations_pin : (s.pin sid shard writes).creations = s.creations := by
  unfold State.pin
  dsimp only
  split_ifs <;> rfl

theorem requests_pin : (s.pin sid shard writes).requests = s.requests := by
  unfold State.pin
  dsimp only
  split_ifs <;> rfl

theorem routed_pin : (s.pin sid shard writes).routed = s.routed := by
  unfold State.pin
  dsimp only
  split_ifs <;> rfl

variable {s}

/-- What the pins so far say. -/
structure Inv (table : Table) (home : List Char → Option (List Char)) (s : State) : Prop where
  counted : Counted s
  /-- A session of a pooled directory is pinned to a shard of its pool. -/
  pinned : ∀ sid shard, s.sessMap.get? sid = some shard → table.pool (home sid) ≠ [] → shard ∈ table.pool (home sid)
  routed : ∀ a ∈ s.routed, ∀ sid, a.sid = some sid → table.pool (home sid) ≠ [] →
    s.sessMap.get? sid = some a.shard
  request : ∀ r ∈ s.requests, table.pool (home r.sid) ≠ [] ∧ r.directory = home r.sid ∧
    ∀ shard ∈ r.placed, shard ∈ table.pool (home r.sid)
  creation : ∀ c ∈ s.creations, table.pool (home c.created.text) ≠ [] → c.shard ∈ table.pool (home c.created.text)
  /-- A creation has pinned its session, or no one has. -/
  created : ∀ c ∈ s.creations,
    s.sessMap.get? c.created.text = if c.pinned then some c.shard else none
  unrequested : ∀ c ∈ s.creations, ∀ r ∈ s.requests, r.sid ≠ c.created.text
  distinct : (s.creations.map (·.created.text)).Nodup

theorem Inv.stickyLaw (h : Inv table home s) : StickyLaw table home s where
  oneShard := fun a ha b hb sid hasid hbsid hpool ↦
    Option.some.inj ((h.routed a ha sid hasid hpool).symm.trans (h.routed b hb sid hbsid hpool))
  inPool := fun a ha sid hsid hpool ↦ h.pinned sid a.shard (h.routed a ha sid hsid hpool) hpool
  creator := fun c hc a ha hsid hpool ↦ by
    have hcreated := h.created c hc
    rw [h.routed a ha _ hsid hpool] at hcreated
    split_ifs at hcreated
    exact Option.some.inj hcreated
  counts := h.counted.counts
  persisted := h.counted.persisted

theorem inv_load {file : InsertionMap (List Char) ℤ}
    (hfile : ∀ sid shard, file.get? sid = some shard → table.pool (home sid) ≠ [] → shard ∈ table.pool (home sid)) :
    Inv table home (State.load file) where
  counted := counted_load file
  pinned := hfile
  routed := fun _ ha ↦ absurd ha not_mem_nil
  request := fun _ hr ↦ absurd hr not_mem_nil
  creation := fun _ hc ↦ absurd hc not_mem_nil
  created := fun _ hc ↦ absurd hc not_mem_nil
  unrequested := fun _ hc ↦ absurd hc not_mem_nil
  distinct := nodup_nil

theorem Inv.step_request (h : Inv table home s) {questions : List Char → Option ℤ} {loads : Loads} {raw : List Char}
    (hsure : Sure table home s (.request questions loads raw)) :
    Inv table home (s.request table questions loads raw) := by
  unfold State.request
  rcases hsearch : sesSearch raw with _ | sid
  · refine ⟨h.counted.of_same rfl rfl rfl rfl, h.pinned, fun a ha sid hsid ↦ ?_, h.request, h.creation, h.created,
      h.unrequested, h.distinct⟩
    rcases mem_append.mp ha with ha | ha
    · exact h.routed a ha sid hsid
    · rw [mem_singleton.mp ha] at hsid
      cases hsid
  · dsimp only
    rcases hmap : s.sessMap.get? sid with _ | shard
    · obtain ⟨hhome, hcreations⟩ := hsure sid hsearch hmap
      split_ifs with hempty
      · refine ⟨h.counted.of_same rfl rfl rfl rfl, h.pinned, fun a ha other hother hpool ↦ ?_, h.request, h.creation,
          h.created, h.unrequested, h.distinct⟩
        rcases mem_append.mp ha with ha | ha
        · exact h.routed a ha other hother hpool
        · -- a session of a pooled directory would have been placed
          rw [mem_singleton.mp ha] at hother
          obtain rfl := Option.some.inj hother
          rw [hhome (.inr hpool)] at hempty
          exact absurd (List.isEmpty_iff.mp hempty) hpool
      · rw [List.isEmpty_iff] at hempty
        have hdirectory := hhome (.inl hempty)
        refine ⟨h.counted.of_same rfl rfl rfl rfl, h.pinned, h.routed, fun r hr ↦ ?_, h.creation, h.created,
          fun c hc r hr ↦ ?_, h.distinct⟩
        · rcases mem_append.mp hr with hr | hr
          · exact h.request r hr
          · rw [mem_singleton.mp hr]
            exact ⟨hdirectory ▸ hempty, hdirectory, fun shard hshard ↦ by cases hshard⟩
        · rcases mem_append.mp hr with hr | hr
          · exact h.unrequested c hc r hr
          · rw [mem_singleton.mp hr]
            exact (hcreations c hc).symm
    · refine ⟨h.counted.of_same rfl rfl rfl rfl, h.pinned, fun a ha other hother hpool ↦ ?_, h.request, h.creation,
        h.created, h.unrequested, h.distinct⟩
      rcases mem_append.mp ha with ha | ha
      · exact h.routed a ha other hother hpool
      · rw [mem_singleton.mp ha] at hother ⊢
        obtain rfl := Option.some.inj hother
        exact hmap

theorem Inv.step_place (h : Inv table home s) (index : ℕ) (loads : Loads) (jev : Option Jev) :
    Inv table home (s.place table index loads jev) := by
  unfold State.place
  split
  · next r hr =>
    have hmem := mem_of_getElem? hr
    obtain ⟨hpool, hdirectory, -⟩ := h.request r hmem
    split_ifs
    · refine ⟨h.counted.of_same rfl rfl rfl rfl, h.pinned, h.routed, fun other hother ↦ ?_, h.creation, h.created,
        fun c hc other hother ↦ ?_, h.distinct⟩
      · rcases mem_or_eq_of_mem_set hother with hother | rfl
        · exact h.request other hother
        · refine ⟨hpool, hdirectory, fun shard hshard ↦ ?_⟩
          obtain rfl := Option.some.inj hshard
          rw [← hdirectory] at hpool ⊢
          split
          · next only heq =>
            rw [heq]
            exact mem_singleton_self only
          · exact placeSession_mem table s.sessCount loads jev hpool
      · rcases mem_or_eq_of_mem_set hother with hother | rfl
        · exact h.unrequested c hc other hother
        · exact h.unrequested c hc r hmem
    · exact h
  · exact h

variable {index : ℕ}

theorem Inv.step_pinRequest (h : Inv table home s) {writes : Bool}
    (hsure : Sure table home s (.pinRequest index writes)) : Inv table home (s.pinRequest index writes) := by
  unfold State.pinRequest
  split
  · next r hr =>
    have hmem := mem_of_getElem? hr
    obtain ⟨hpool, hdirectory, hplaced⟩ := h.request r hmem
    split
    · next shard hshard =>
      have hfree := hsure r hr shard hshard
      have hget := get?_pin s r.sid shard writes
      have hrest : ∀ other ∈ s.requests.eraseIdx index, other ∈ s.requests := fun other ↦ mem_of_mem_eraseIdx
      refine ⟨(h.counted.pin r.sid shard writes).of_same rfl rfl rfl rfl, fun sid old hold hsid ↦ ?_,
        fun a ha sid hasid hsid ↦ ?_, fun other hother ↦ h.request other (hrest other hother), ?_, fun c hc ↦ ?_,
        fun c hc other hother ↦ ?_, ?_⟩
      · rw [hget] at hold
        split_ifs at hold with heq
        · obtain rfl := Option.some.inj hold
          exact heq ▸ hplaced shard hshard
        · exact h.pinned sid old hold hsid
      · rw [hget]
        rcases mem_append.mp ha with ha | ha
        · have hold := h.routed a ha sid hasid hsid
          split_ifs with heq
          · rw [heq, hold] at hfree
            exact (hfree.resolve_left (some_ne_none _)).symm
          · exact hold
        · rw [mem_singleton.mp ha] at hasid ⊢
          exact if_pos (Option.some.inj hasid)
      · rw [creations_pin]
        exact h.creation
      · rw [creations_pin] at hc
        rw [hget, if_neg (h.unrequested c hc r hmem)]
        exact h.created c hc
      · rw [creations_pin] at hc
        exact h.unrequested c hc other (hrest other hother)
      · rw [creations_pin]
        exact h.distinct
    · exact h
  · exact h

theorem Inv.step_create (h : Inv table home s) {loads : Loads} {raw : List Char} {created : SessionId}
    (hsure : Sure table home s (.create loads raw created)) : Inv table home (s.create table loads raw created) := by
  obtain ⟨hhome, hmap, hrequests, hcreations⟩ := hsure
  refine ⟨h.counted.of_same rfl rfl rfl rfl, h.pinned, h.routed, h.request, fun c hc hpool ↦ ?_, fun c hc ↦ ?_,
    fun c hc ↦ ?_, ?_⟩
  · rcases mem_append.mp hc with hc | hc
    · exact h.creation c hc hpool
    · rw [mem_singleton.mp hc] at hpool ⊢
      have hdirectory := hhome (.inr hpool)
      change State.creating s table loads raw ∈ table.pool (home created.text)
      rw [← hdirectory] at hpool ⊢
      unfold State.creating
      split
      · next heq => exact absurd heq hpool
      · next only heq =>
        rw [heq]
        exact mem_singleton_self only
      · exact placeSession_mem table s.sessCount loads none hpool
  · rcases mem_append.mp hc with hc | hc
    · exact h.created c hc
    · rw [mem_singleton.mp hc]
      exact hmap
  · rcases mem_append.mp hc with hc | hc
    · exact h.unrequested c hc
    · rw [mem_singleton.mp hc]
      exact hrequests
  · change ((s.creations ++ [_]).map _).Nodup
    rw [map_append]
    refine nodup_append.mpr ⟨h.distinct, nodup_singleton _, fun a ha b hb ↦ ?_⟩
    obtain ⟨c, hc, rfl⟩ := List.mem_map.mp ha
    rw [mem_singleton.mp hb]
    exact hcreations c hc

theorem mem_set_creations (h : (s.creations.map (·.created.text)).Nodup) {creation next c : Creation}
    (hindex : s.creations[index]? = some creation) (hc : c ∈ s.creations.set index next) :
    c = next ∨ (c ∈ s.creations ∧ c.created.text ≠ creation.created.text) := by
  obtain ⟨j, hj⟩ := mem_iff_getElem?.mp hc
  by_cases heq : index = j
  · subst heq
    have hlt : index < s.creations.length := (List.getElem?_eq_some_iff.mp hindex).1
    rw [getElem?_set_self hlt] at hj
    exact .inl (Option.some.inj hj).symm
  · rw [getElem?_set_ne heq] at hj
    refine .inr ⟨mem_of_getElem? hj, fun htext ↦ heq ?_⟩
    have hlt : index < (s.creations.map (·.created.text)).length := by
      rw [length_map]
      exact (List.getElem?_eq_some_iff.mp hindex).1
    refine (getElem?_inj hlt h).mp ?_
    rw [getElem?_map, getElem?_map, hindex, hj]
    exact congrArg some htext.symm

theorem map_set_creations {creation next : Creation} (hindex : s.creations[index]? = some creation)
    (hnext : next.created = creation.created) :
    (s.creations.set index next).map (·.created.text) = s.creations.map (·.created.text) := by
  obtain ⟨hlt, heq⟩ := List.getElem?_eq_some_iff.mp hindex
  rw [map_set, hnext, ← heq]
  refine ext_getElem (length_set ..) fun j _ hj ↦ ?_
  rw [getElem_set]
  split_ifs with hindex
  · subst hindex
    rw [getElem_map]
  · rfl

theorem Inv.step_read (h : Inv table home s) {chunk : List UInt8} {writes : Bool}
    (hsure : Sure table home s (.read index chunk writes)) : Inv table home (s.read index chunk writes) := by
  unfold State.read
  split
  · next creation hindex =>
    have hmem := mem_of_getElem? hindex
    dsimp only
    split
    · -- nothing is pinned
      refine ⟨h.counted.of_same rfl rfl rfl rfl, h.pinned, h.routed, h.request, fun c hc ↦ ?_, fun c hc ↦ ?_,
        fun c hc ↦ ?_, ?_⟩
      · rcases mem_set_creations h.distinct hindex hc with rfl | ⟨hc, -⟩
        · exact h.creation creation hmem
        · exact h.creation c hc
      · rcases mem_set_creations h.distinct hindex hc with rfl | ⟨hc, -⟩
        · exact h.created creation hmem
        · exact h.created c hc
      · rcases mem_set_creations h.distinct hindex hc with rfl | ⟨hc, -⟩
        · exact h.unrequested creation hmem
        · exact h.unrequested c hc
      · rw [map_set_creations hindex]
        · exact h.distinct
        · rfl
    · next sid hsid =>
      rcases hpinned : creation.pinned with _ | _
      · rw [hpinned, if_neg Bool.false_ne_true] at hsid
        have hwhole := (hsure creation hindex).resolve_left (by rw [hpinned]; exact Bool.false_ne_true)
        obtain rfl := hwhole.eq_of_sesSearch hsid
        have hnone := h.created creation hmem
        rw [hpinned, if_neg Bool.false_ne_true] at hnone
        have hget := get?_pin s creation.created.text creation.shard writes
        refine ⟨(h.counted.pin _ creation.shard writes).of_same rfl rfl rfl rfl, fun sid old hold hsid' ↦ ?_,
          fun a ha sid hasid hpool ↦ ?_, ?_, fun c hc ↦ ?_, fun c hc ↦ ?_, fun c hc r hr ↦ ?_, ?_⟩
        · rw [hget] at hold
          split_ifs at hold with heq
          · obtain rfl := Option.some.inj hold
            exact heq ▸ h.creation creation hmem (heq ▸ hsid')
          · exact h.pinned sid old hold hsid'
        · rw [routed_pin] at ha
          have hold := h.routed a ha sid hasid hpool
          rw [hget, if_neg, hold]
          rintro rfl
          rw [hnone] at hold
          cases hold
        · rw [requests_pin]
          exact h.request
        · rcases mem_set_creations h.distinct hindex hc with rfl | ⟨hc, -⟩
          · exact h.creation creation hmem
          · exact h.creation c hc
        · rw [hget]
          rcases mem_set_creations h.distinct hindex hc with rfl | ⟨hc, hother⟩
          · rw [if_pos rfl, if_pos rfl]
          · rw [if_neg hother.symm]
            exact h.created c hc
        · rw [requests_pin] at hr
          rcases mem_set_creations h.distinct hindex hc with rfl | ⟨hc, -⟩
          · exact h.unrequested creation hmem r hr
          · exact h.unrequested c hc r hr
        · dsimp only
          rw [map_set_creations hindex]
          · exact h.distinct
          · rfl
      · rw [hpinned, if_pos rfl] at hsid
        cases hsid
  · exact h

theorem Inv.step (h : Inv table home s) (op : Op) (hsure : Sure table home s op) :
    Inv table home (s.step table op) := by
  rcases op with ⟨questions, loads, raw⟩ | ⟨index, loads, jev⟩ | ⟨index, writes⟩ | ⟨loads, raw, created⟩ |
    ⟨index, chunk, writes⟩
  · exact h.step_request hsure
  · exact h.step_place index loads jev
  · exact h.step_pinRequest hsure
  · exact h.step_create hsure
  · exact h.step_read hsure

/-! ## The result -/

/-- From a map whose pins are in their pools, a run in which no pin overwrites another keeps the law. -/
theorem stickyLaw_of_sure (table : Table) (home : List Char → Option (List Char)) (file : InsertionMap (List Char) ℤ)
    (hfile : ∀ sid shard, file.get? sid = some shard → table.pool (home sid) ≠ [] → shard ∈ table.pool (home sid))
    (ops : List Op) (h : Guarded (State.step table) (Sure table home) (State.load file) ops) :
    Guarded (State.step table) (fun s op ↦ StickyLaw table home (s.step table op)) (State.load file) ops :=
  Guarded.of_invariant (I := Inv table home) (fun _ op hs hop ↦ hs.step op hop)
    (fun _ op hs hop ↦ (hs.step op hop).stickyLaw) (inv_load hfile) h

/-! ## Two runs -/

/-- Two shards in the pool of one directory. -/
def pooled : Table where
  backends := [1, 2]
  defaultShard := 1
  pools := (∅ : InsertionMap (List Char) (List ℤ)).set "/p".toList [1, 2]
  sharded := by decide

def target : List Char := "/session/ses_ab/message?directory=/p".toList

theorem sesSearch_target : sesSearch target = some "ses_ab".toList := by decide +kernel

theorem directoryOf_target : directoryOf target = some "/p".toList := by decide +kernel

def quiet : Loads := ⟨fun _ ↦ 0, fun _ ↦ 0⟩

theorem step_request_target :
    (State.load ∅).step pooled (.request (fun _ ↦ none) quiet target) =
      { State.load ∅ with requests := [⟨"ses_ab".toList, some "/p".toList, none⟩] } := by
  rw [State.step, State.request, sesSearch_target, directoryOf_target]
  rfl

/-- One request after another is sure. -/
theorem stickyLaw_inTurn :
    Guarded (State.step pooled) (fun s op ↦ StickyLaw pooled (fun _ ↦ some "/p".toList) (s.step pooled op))
      (State.load ∅)
      [.request (fun _ ↦ none) quiet target, .place 0 quiet none, .pinRequest 0 true,
        .request (fun _ ↦ none) quiet target] := by
  refine stickyLaw_of_sure pooled (fun _ ↦ some "/p".toList) ∅ (fun sid shard h ↦ absurd h (by simp)) _
    ⟨fun _ _ _ ↦ ⟨fun _ ↦ directoryOf_target, fun _ hc ↦ absurd hc List.not_mem_nil⟩, trivial, ?_⟩
  rw [step_request_target]
  exact ⟨fun _ _ _ _ ↦ .inl rfl,
    fun _ _ _ ↦ ⟨fun _ ↦ directoryOf_target, fun _ hc ↦ absurd hc List.not_mem_nil⟩, trivial⟩

/-- Two requests are looked up before either has pinned their session, and then placed by different loads. -/
def racing : List Op :=
  [.request (fun _ ↦ none) quiet target, .request (fun _ ↦ none) quiet target, .place 0 quiet none,
    .place 1 ⟨fun shard ↦ if shard = 1 then 1 else 0, fun _ ↦ 0⟩ none, .pinRequest 0 true, .pinRequest 0 true]

theorem not_stickyLaw_racing :
    ¬ Guarded (State.step pooled) (fun s op ↦ StickyLaw pooled (fun _ ↦ some "/p".toList) (s.step pooled op))
      (State.load ∅) racing := by
  intro h
  have hlaw : StickyLaw pooled (fun _ ↦ some "/p".toList) (run (State.step pooled) (State.load ∅) racing) :=
    h.2.2.2.2.2.1
  have hrouted : (run (State.step pooled) (State.load ∅) racing).routed
      = [⟨some "ses_ab".toList, 1⟩, ⟨some "ses_ab".toList, 2⟩] := by decide +kernel
  have hshard := hlaw.oneShard ⟨some "ses_ab".toList, 1⟩ (by rw [hrouted]; exact List.mem_cons_self)
    ⟨some "ses_ab".toList, 2⟩ (by rw [hrouted]; exact List.mem_cons_of_mem _ List.mem_cons_self) "ses_ab".toList
    rfl rfl (by decide)
  exact absurd hshard (by decide)

end Amicode.Frontdoor
