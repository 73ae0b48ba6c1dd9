import Amicode.Foundation.StepMachine
import Amicode.Frontdoor.Route

/-!
# The snapshot

An event frame drops the snapshot body and marks its session dirty; a build pulls the pages that are dirty or
expired. A pull reads the mark before it asks the backend and discards it when it stores the page, and a body is
stored whatever has happened during its build. So an event in between is lost; `law_run` is about runs without one.
-/

namespace Amicode.Snapshot

open StepMachine List Frontdoor

/-! ## State -/

/-- A message page, and the moment when the backend was asked for it. -/
structure Page (α : Type*) where
  content : α
  readAt : ℕ
deriving DecidableEq

/-- A pull that has not found its page in the cache. -/
structure Pull (α : Type*) where
  /-- The moment when its build started. -/
  build : ℕ
  sid : List Char
  cached : Option (Page α)
  /-- What the backend has answered, if it has: a page, or nothing that can be parsed. -/
  answer : Option (Option (Page α)) := none

/-- An entry of the `messages` of a build. -/
structure Message (α : Type*) where
  build : ℕ
  sid : List Char
  page : Page α
  /-- Not the cached page in place of one that the backend failed to give. -/
  pulled : Bool
deriving DecidableEq

structure State (α : Type*) where
  /-- The number of steps taken; moments are counted in steps. -/
  clock : ℕ := 0
  /-- `_MSG_DIRTY` -/
  dirty : Finset (List Char) := ∅
  /-- `_MSG_CACHE` -/
  cache : InsertionMap (List Char) (Page α × ℤ) := ∅
  /-- The build whose body `_snap_cache` has, and its time. -/
  body : Option ℕ × ℤ := (none, 0)
  /-- The builds in progress. -/
  builds : List ℕ := []
  pulls : List (Pull α) := []
  messages : List (Message α) := []
  /-- The sessions marked so far, and when. -/
  marks : List (List Char × ℕ) := []
  /-- The last invalidation. -/
  invalidated : ℕ := 0

variable {α : Type*}

/-! ## Steps -/

def messageCacheMax : ℕ := 200

def snapTtl : ℤ := 15000

/-- Does `upstream_loop` take the frame for a change of state? -/
def changes (frame : List UInt8) : Bool :=
  let has (text : String) : Bool := (text.toList.map fun c ↦ UInt8.ofNat c.toNat) <:+: frame
  (has "\"message." || has "\"session." || has "\"server.") && !has "\"server.heartbeat"

/-- The session that `mark_session_dirty` marks for a frame of `upstream_loop`. -/
def named (frame : List UInt8) : Option (List Char) :=
  if changes frame then sesSearchBytes frame else none

/-- The cached body that `serve_snapshot` serves at a time. -/
def State.serve (s : State α) (now : ℤ) : Option ℕ :=
  s.body.1.filter fun _ ↦ now - s.body.2 < snapTtl

/-- Drop the oldest page from a full cache, if the session has none in it. -/
def evict (sid : List Char) (cache : InsertionMap (List Char) (Page α × ℤ)) :
    InsertionMap (List Char) (Page α × ℤ) :=
  if messageCacheMax ≤ cache.size && !cache.contains sid then cache.keys.head?.elim cache cache.erase else cache

/-- What the frontdoor's threads do. Times are in milliseconds. -/
inductive Op (α : Type*) where
  | invalidate (frame : List UInt8)
  | mark (frame : List UInt8)
  /-- A request starts a build, unless there is a body for it. -/
  | request (now : ℤ)
  /-- A pull looks at the cache and at the mark. -/
  | pull (build : ℕ) (sid : List Char) (now : ℤ)
  | read (i : ℕ) (answer : Option α)
  /-- A pull leaves with its answer. -/
  | store (i : ℕ) (now : ℤ)
  /-- A build ends once its pulls have, with a body or without. -/
  | finish (build : ℕ) (body : Bool) (now : ℤ)

/-- The step apart from the clock; `ttl` is `_MSG_TTL`. -/
def State.act (ttl : ℤ) (s : State α) : Op α → State α
  | .invalidate frame =>
    if changes frame then { s with body := (none, s.body.2), invalidated := s.clock } else s
  | .mark frame => match named frame with
    | some sid => { s with dirty := insert sid s.dirty, marks := s.marks ++ [(sid, s.clock)] }
    | none => s
  | .request now => if s.serve now = none then { s with builds := s.clock :: s.builds } else s
  | .pull build sid now =>
    if build ∈ s.builds then
      match (s.cache.get? sid).filter fun e ↦ sid ∉ s.dirty ∧ now - e.2 < ttl with
      | some e => { s with messages := ⟨build, sid, e.1, true⟩ :: s.messages }
      | none => { s with pulls := { build, sid, cached := (s.cache.get? sid).map Prod.fst } :: s.pulls }
    else s
  | .read i answer => match s.pulls[i]? with
    | some p => if p.answer.isNone then
        { s with pulls := s.pulls.set i { p with answer := some (answer.map (⟨·, s.clock⟩)) } } else s
    | none => s
  | .store i now => match s.pulls[i]? with
    | some ⟨build, sid, cached, some answer⟩ => match answer with
      | some page => { s with
          pulls := s.pulls.eraseIdx i
          messages := ⟨build, sid, page, true⟩ :: s.messages
          dirty := s.dirty.erase sid
          cache := (evict sid s.cache).set sid (page, now) }
      | none => { s with
          pulls := s.pulls.eraseIdx i
          messages := (cached.toList.map (⟨build, sid, ·, false⟩)) ++ s.messages }
    | _ => s
  | .finish build body now =>
    if build ∈ s.builds ∧ ∀ p ∈ s.pulls, p.build ≠ build then { s with
      builds := s.builds.erase build
      body := if body then (some build, now) else s.body } else s

def step (ttl : ℤ) (s : State α) (op : Op α) : State α := { s.act ttl op with clock := s.clock + 1 }

/-! ## The law -/

structure Law (s : State α) : Prop where
  pages : ∀ m ∈ s.messages, m.pulled = true → ∀ mark ∈ s.marks, mark.1 = m.sid → mark.2 < m.build →
    mark.2 < m.page.readAt
  body : ∀ now, ∀ build ∈ s.serve now, s.invalidated ≤ build

/-- No event comes where it is lost: no session is marked while a page of it has been read and is not stored, and
there is no invalidation during a build. -/
def quiet (s : State α) : Op α → Bool
  | .mark frame => (named frame).all fun sid ↦ s.pulls.all fun p ↦ p.sid ≠ sid || (p.answer.bind id).isNone
  | .invalidate frame => !changes frame || s.builds.isEmpty
  | _ => true

/-! ## The run -/

/-- The page has been read after every mark of the session. -/
def Fresh (marks : List (List Char × ℕ)) (sid : List Char) (page : Page α) : Prop :=
  ∀ mark ∈ marks, mark.1 = sid → mark.2 < page.readAt

structure Inv (s : State α) : Prop extends Law s where
  marks : ∀ mark ∈ s.marks, mark.2 < s.clock
  invalidated : s.invalidated ≤ s.clock
  builds : ∀ build ∈ s.builds, s.invalidated ≤ build ∧ build < s.clock
  pulls : ∀ p ∈ s.pulls, p.build < s.clock ∧ ∀ answer ∈ p.answer, ∀ page ∈ answer, Fresh s.marks p.sid page
  cache : ∀ sid e, s.cache.get? sid = some e → sid ∉ s.dirty → Fresh s.marks sid e.1
  messages : ∀ m ∈ s.messages, m.build < s.clock

theorem get?_evict {sid k : List Char} {cache : InsertionMap (List Char) (Page α × ℤ)} {e : Page α × ℤ}
    (h : (evict sid cache).get? k = some e) : cache.get? k = some e := by
  unfold evict at h
  split at h
  · cases hk : cache.keys.head? with
    | none => rwa [hk] at h
    | some oldest =>
      rw [hk, Option.elim_some, InsertionMap.get?_erase] at h
      split at h
      · cases h
      · exact h
  · exact h

theorem Fresh.concat {marks : List (List Char × ℕ)} {sid other : List Char} {page : Page α} {t : ℕ}
    (h : Fresh marks sid page) (hne : sid ≠ other) : Fresh (marks ++ [(other, t)]) sid page := by
  intro mark hmark hsid
  rcases mem_append.mp hmark with hmem | hlast
  · exact h mark hmem hsid
  · obtain rfl := mem_singleton.mp hlast
    exact absurd hsid.symm hne

variable {s : State α} {ttl : ℤ}

/-- Time alone changes nothing. -/
theorem Inv.tick (h : Inv s) : Inv { s with clock := s.clock + 1 } where
  pages := h.pages
  body := h.body
  marks := fun mark hmark ↦ Nat.lt_succ_of_lt (h.marks mark hmark)
  invalidated := Nat.le_succ_of_le h.invalidated
  builds := fun build hbuild ↦ (h.builds build hbuild).imp_right Nat.lt_succ_of_lt
  pulls := fun p hp ↦ (h.pulls p hp).imp_left Nat.lt_succ_of_lt
  cache := h.cache
  messages := fun m hm ↦ Nat.lt_succ_of_lt (h.messages m hm)

theorem Inv.step (h : Inv s) (op : Op α) (hquiet : quiet s op = true) : Inv (step ttl s op) := by
  unfold Snapshot.step
  fun_cases State.act ttl s op with
  | case1 frame hchanges =>
    have hbuilds : s.builds = [] := by simpa [quiet, hchanges] using hquiet
    refine { h.tick with invalidated := Nat.le_succ _, builds := ?_, body := fun now build hbuild ↦ nomatch hbuild }
    exact hbuilds ▸ forall_mem_nil _
  | case3 frame sid hnamed =>
    refine { h.tick with pages := ?_, marks := ?_, pulls := fun p hp ↦ ⟨(h.tick.pulls p hp).1, ?_⟩, cache := ?_ }
    · refine fun m hm hpulled ↦ forall_mem_append.mpr ⟨h.pages m hm hpulled, ?_⟩
      exact forall_mem_singleton.mpr fun _ hbefore ↦ absurd hbefore (h.messages m hm).not_gt
    · exact forall_mem_append.mpr ⟨h.tick.marks, forall_mem_singleton.mpr (Nat.lt_succ_self _)⟩
    · intro answer hanswer page hpage
      refine ((h.pulls p hp).2 answer hanswer page hpage).concat ?_
      rintro rfl
      obtain rfl : answer = some page := hpage
      rw [quiet, hnamed, Option.all_some, all_eq_true] at hquiet
      simpa [Option.mem_def.mp hanswer] using hquiet p hp
    · intro other e hget hdirty
      rw [Finset.mem_insert, not_or] at hdirty
      exact (h.cache other e hget hdirty.2).concat hdirty.1
  | case5 now hserve =>
    exact { h.tick with builds := forall_mem_cons.mpr ⟨⟨h.invalidated, Nat.lt_succ_self _⟩, h.tick.builds⟩ }
  | case7 build sid now hbuild e hget =>
    obtain ⟨hget, hcond⟩ := Option.filter_eq_some_iff.mp hget
    have hpage := h.cache sid e hget (of_decide_eq_true hcond).1
    exact { h.tick with
      pages := forall_mem_cons.mpr ⟨fun _ mark hmark hsid _ ↦ hpage mark hmark hsid, h.pages⟩
      messages := forall_mem_cons.mpr ⟨(h.tick.builds build hbuild).2, h.tick.messages⟩ }
  | case8 build sid now hbuild =>
    refine { h.tick with pulls := forall_mem_cons.mpr ⟨⟨(h.tick.builds build hbuild).2, ?_⟩, h.tick.pulls⟩ }
    exact fun answer hanswer ↦ nomatch hanswer
  | case10 i answer p hi =>
    refine { h.tick with pulls := fun q hq ↦ ?_ }
    rcases mem_or_eq_of_mem_set hq with hmem | rfl
    · exact h.tick.pulls q hmem
    · refine ⟨(h.tick.pulls p (mem_of_getElem? hi)).1, fun reply hreply page hpage mark hmark _ ↦ ?_⟩
      obtain rfl := Option.some.inj hreply
      obtain ⟨content, -, rfl⟩ := Option.map_eq_some_iff.mp hpage
      exact h.marks mark hmark
  | case13 i now build sid cached page hi =>
    obtain ⟨hbuild, hfresh⟩ := h.tick.pulls _ (mem_of_getElem? hi)
    have hpage := hfresh (some page) rfl page rfl
    refine { h.tick with
      pulls := fun q hq ↦ h.tick.pulls q (mem_of_mem_eraseIdx hq)
      pages := forall_mem_cons.mpr ⟨fun _ mark hmark hsid _ ↦ hpage mark hmark hsid, h.pages⟩
      messages := forall_mem_cons.mpr ⟨hbuild, h.tick.messages⟩
      cache := fun other e hget hdirty ↦ ?_ }
    rw [InsertionMap.get?_set] at hget
    split at hget
    · next heq =>
      obtain rfl := Option.some.inj hget
      exact heq ▸ hpage
    · next hne =>
      exact h.cache other e (get?_evict hget) fun hmem ↦ hdirty (Finset.mem_erase.mpr ⟨Ne.symm hne, hmem⟩)
  | case14 i now build sid cached hi =>
    have hbuild := (h.tick.pulls _ (mem_of_getElem? hi)).1
    exact { h.tick with
      pulls := fun q hq ↦ h.tick.pulls q (mem_of_mem_eraseIdx hq)
      pages := forall_mem_append.mpr ⟨forall_mem_map.mpr fun page _ ↦ (nomatch ·), h.pages⟩
      messages := forall_mem_append.mpr ⟨forall_mem_map.mpr fun page _ ↦ hbuild, h.tick.messages⟩ }
  | case16 build body now hcond =>
    refine { h.tick with body := fun time b hb ↦ ?_, builds := fun b hb ↦ h.tick.builds b (mem_of_mem_erase hb) }
    cases body with
    | false => exact h.body time b hb
    | true => exact Option.some.inj (Option.filter_eq_some_iff.mp hb).1 ▸ (h.builds build hcond.1).1
  | _ => exact h.tick

variable {ops : List (Op α)}

/-- In the runs that have no event where it is lost, pages and bodies are as fresh as intended. -/
theorem law_run (h : Guarded (step ttl) (quiet · · = true) {} ops) : Law (run (step ttl) ({} : State α) ops) := by
  have hinit : Inv ({} : State α) := ⟨⟨by simp, by simp⟩, by simp, le_rfl, by simp, by simp, by simp, by simp⟩
  exact (invariant_run_of_guarded (fun s op hs ↦ hs.step op) hinit h).toLaw

/-- A frame that changes the session `ses_1`. -/
def idle : List UInt8 := "\"session.idle\" ses_1".toList.map fun c ↦ UInt8.ofNat c.toNat

/-- A build pulls a page, and a second one finds it in the cache. -/
def pulls (between : List (Op Unit)) : List (Op Unit) :=
  [.mark idle, .request 0, .pull 1 "ses_1".toList 0, .read 0 (some ())] ++ between ++
    [.store 0 0, .request 0, .pull (5 + between.length) "ses_1".toList 0]

theorem law_pulls : Law (run (step 300000) ({} : State Unit) (pulls [])) :=
  law_run (by decide +kernel)

theorem not_law_pulls : ¬ Law (run (step 300000) ({} : State Unit) (pulls [.invalidate idle, .mark idle])) :=
  fun h ↦ absurd (h.pages ⟨7, "ses_1".toList, ⟨(), 3⟩, true⟩ (by decide +kernel) rfl ("ses_1".toList, 5)
    (by decide +kernel) rfl (by decide)) (by decide)

end Amicode.Snapshot
