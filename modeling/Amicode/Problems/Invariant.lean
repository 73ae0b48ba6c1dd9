import Amicode.Foundation.StepMachine
import Amicode.Problems.Store

/-!
# The invariant of the problem store

From an empty root on, whatever problems are called, every call must succeed that does not miss its problem,
each directory must be called by the slug of its record and the pointer lead to a workspace, established slugs
must stay, the events of a problem be numbered without a gap, and no call touch the files of another problem.

Three things break it. A first problem whose slug is `active` takes the place of the pointer, and a slug may be
longer than the name of a directory can be; and where a slug is asked for, any path to a directory will do, but
is compared as a text. The law holds in every run in which no call does one of these (`storeLaw_run`).
-/

namespace Amicode.Problems

open StepMachine InsertionMap JsText List Option

variable {env : Env} {s : Store}

/-! ## The law -/

structure StoreLaw (env : Env) (s : Store) : Prop where
  recorded : ∀ dir w, s.workspace? dir = some w → w.problem.slug = dir
  apart : (s.dirs.map Prod.fst).Nodup
  active : ∀ text, s.active = some text → (findProblem env s (trim text)).isSome
  numbered : ∀ dir w, s.workspace? dir = some w → w.events.map LogEvent.seq = List.range' 1 w.events.length

/-- The directory of the problem that a call is about, which is not to be made new. -/
def ProblemCall.subject (env : Env) : ProblemCall → Option Text
  | .renameProblem _ slug _ | .archiveProblem _ slug => childOf env.root slug
  | _ => none

/-- What is there after a call that is about a directory: the others as they were, and under an established slug
the same problem. -/
def After (subject : Option Text) (s s' : Store) : Prop :=
  ∀ dir w, s.workspace? dir = some w → (subject ≠ some dir → s'.workspace? dir = some w) ∧
    (UNTITLED.isPrefixOf dir = false → ∃ w', s'.workspace? dir = some w' ∧
      w'.problem.slug = w.problem.slug ∧ w.events <+: w'.events)

structure CallLaw (env : Env) (s : Store) (c : ProblemCall) : Prop where
  succeeds : ∀ failure, (call env s c).2 = .error failure → ∃ slug, failure = .noSuchProblem slug
  after : After (c.subject env) s (callStep env s c)

/-- What is owed of a run. -/
structure StoreLaws (env : Env) (calls : List ProblemCall) : Prop where
  store : ∀ n, StoreLaw env (run (callStep env) .empty (calls.take n))
  calls : Guarded (callStep env) (CallLaw env) .empty calls

/-- The slug that a name gets is not that of the pointer, and can be that of a directory. -/
def Fits (env : Env) (s : Store) (name : Text) : Prop :=
  uniqueSlug s.taken (deriveSlug env.toLowerCase name) ≠ ACTIVE_FILE ∧
    (uniqueSlug s.taken (deriveSlug env.toLowerCase name)).length ≤ env.nameMax

/-- A call gives no problem a name that does not fit, and where a text leads to the directory of a problem that
is to be opened or moved, it does so for the other readers of it, too. -/
def Placed (env : Env) (s : Store) : ProblemCall → Prop
  | .createProblem _ name => Fits env s name
  | .openProblem query =>
    (findProblem env s query).isSome → (findProblem env s (trim (query ++ ['\n']))).isSome
  | .renameProblem _ slug newName => UNTITLED.isPrefixOf slug = true → ∀ found ∈ findProblem env s slug,
    UNTITLED.isPrefixOf found.1 = true ∧ Fits env s newName ∧
      ∀ text ∈ s.active, childOf env.root (trim text) = some found.1 → trim text = slug
  | .archiveProblem _ _ => True
  | .ensureActiveProblem _ date => s.active = none → Fits env s ("Untitled ".toList ++ date)

instance decidableFits (env : Env) (s : Store) (name : Text) : Decidable (Fits env s name) :=
  inferInstanceAs (Decidable (_ ∧ _))

instance decidablePlaced (env : Env) (s : Store) : ∀ c, Decidable (Placed env s c)
  | .createProblem _ name => inferInstanceAs (Decidable (Fits env s name))
  | .openProblem query => inferInstanceAs (Decidable
    ((findProblem env s query).isSome → (findProblem env s (trim (query ++ ['\n']))).isSome))
  | .renameProblem _ slug newName => inferInstanceAs (Decidable
    (UNTITLED.isPrefixOf slug = true → ∀ found ∈ findProblem env s slug, UNTITLED.isPrefixOf found.1 = true ∧
      Fits env s newName ∧ ∀ text ∈ s.active, childOf env.root (trim text) = some found.1 → trim text = slug))
  | .archiveProblem _ _ => .isTrue trivial
  | .ensureActiveProblem _ date => inferInstanceAs (Decidable
    (s.active = none → Fits env s ("Untitled ".toList ++ date)))

/-! ## Workspaces -/

section Workspaces

variable {dir k slug : Text} {w : Workspace} {now : ℕ} {action : Action} {problem : ProblemMeta}

theorem workspace?_setWorkspace (s : Store) (dir : Text) (w : Workspace) (k : Text) :
    (s.setWorkspace dir w).workspace? k = if dir = k then some w else s.workspace? k :=
  Entries.get?_set s.dirs dir w k

theorem workspace?_appendEvent_of_ne (h : dir ≠ k) :
    (appendEvent now dir action s).workspace? k = s.workspace? k := by
  unfold appendEvent
  split
  · rfl
  · rw [workspace?_setWorkspace, if_neg h]

theorem workspace?_appendEvent (now : ℕ) (action : Action) (h : s.workspace? dir = some w) :
    (appendEvent now dir action s).workspace? dir =
      some { w with events := w.events ++ [⟨w.events.length + 1, now, action⟩] } := by
  rw [appendEvent, h, workspace?_setWorkspace, if_pos rfl]

theorem active_appendEvent : (appendEvent now dir action s).active = s.active := by
  unfold appendEvent
  split <;> rfl

theorem notMem_taken_iff : k ∉ s.taken ↔ s.workspace? k = none ∧ (s.active ≠ none → k ≠ ACTIVE_FILE) := by
  unfold Store.taken Store.workspace?
  rw [mem_append, not_or, ← Entries.get?_eq_none_iff]
  rcases s.active with _ | text <;> simp

/-- What a directory has, if the store is in order. -/
structure Kept (dir : Text) (w : Workspace) : Prop where
  plain : Plain dir
  ne_active : dir ≠ ACTIVE_FILE
  slug : w.problem.slug = dir
  numbered : w.events.map LogEvent.seq = List.range' 1 w.events.length

theorem Kept.appendEvent (h : Kept dir w) (now : ℕ) (action : Action) :
    Kept dir { w with events := w.events ++ [⟨w.events.length + 1, now, action⟩] } := by
  refine ⟨h.plain, h.ne_active, h.slug, ?_⟩
  rw [map_append, h.numbered, length_append, length_singleton, range'_1_concat,
    map_singleton, Nat.add_comm]

/-- The store is in order, but for the pointer. -/
structure Tidy (s : Store) : Prop where
  apart : (s.dirs.map Prod.fst).Nodup
  kept : ∀ dir w, s.workspace? dir = some w → Kept dir w

theorem Tidy.setWorkspace (h : Tidy s) (hw : Kept dir w) : Tidy (s.setWorkspace dir w) := by
  refine ⟨Entries.nodup_set dir w h.apart, fun k v hv ↦ ?_⟩
  rw [workspace?_setWorkspace] at hv
  split_ifs at hv with hk
  · obtain rfl := Option.some.inj hv
    exact hk ▸ hw
  · exact h.kept k v hv

theorem Tidy.appendEvent (h : Tidy s) (now : ℕ) (dir : Text) (action : Action) :
    Tidy (appendEvent now dir action s) := by
  unfold Problems.appendEvent
  split
  · exact h
  · next w hw => exact h.setWorkspace ((h.kept dir w hw).appendEvent now action)

theorem Tidy.setActive (h : Tidy s) (active : Option Text) : Tidy { s with active } := ⟨h.apart, h.kept⟩

theorem Tidy.not_obstructed (h : Tidy s) : s.obstructed = false := by
  rw [Store.obstructed, isSome_eq_false_iff, isNone_iff_eq_none, eq_none_iff_forall_ne_some]
  exact fun w hw ↦ (h.kept ACTIVE_FILE w hw).ne_active rfl

/-! ## The pointer -/

def Pointed (env : Env) (s : Store) : Prop := ∀ text, s.active = some text → (findProblem env s (trim text)).isSome

theorem findProblem_eq_some_iff {text : Text} {found : Text × Workspace} :
    findProblem env s text = some found ↔
      childOf env.root text = some found.1 ∧ s.workspace? found.1 = some found.2 := by
  obtain ⟨dir, w⟩ := found
  unfold findProblem
  rw [bind_eq_some_iff]
  constructor
  · rintro ⟨dir', hdir, h⟩
    obtain ⟨w', hw, h⟩ := map_eq_some_iff.mp h
    obtain ⟨rfl, rfl⟩ := Prod.mk.inj h
    exact ⟨hdir, hw⟩
  · rintro ⟨hdir, hw⟩
    exact ⟨dir, hdir, by rw [hw]; rfl⟩

theorem findProblem_isSome_of_imp {s' : Store} {text : Text} (h : (findProblem env s text).isSome)
    (himp : ∀ dir, childOf env.root text = some dir → (s.workspace? dir).isSome → (s'.workspace? dir).isSome) :
    (findProblem env s' text).isSome := by
  obtain ⟨⟨dir, w⟩, hfound⟩ := isSome_iff_exists.mp h
  obtain ⟨hdir, hw⟩ := findProblem_eq_some_iff.mp hfound
  obtain ⟨w', hw'⟩ := isSome_iff_exists.mp (himp dir hdir (by simp only [hw, isSome_some]))
  rw [findProblem_eq_some_iff.mpr (⟨hdir, hw'⟩ : childOf env.root text = some (dir, w').1 ∧ _)]
  rfl

theorem findProblem_slug (h : s.workspace? dir = some w) (hplain : Plain dir) :
    findProblem env s (trim (dir ++ ['\n'])) = some (dir, w) := by
  rw [trim_plain hplain]
  exact findProblem_eq_some_iff.mpr ⟨childOf_plain env.root hplain, h⟩

theorem isSome_findProblem_appendEvent (h : s.workspace? dir = some w) (hplain : Plain dir) :
    (findProblem env (appendEvent now dir action s) (trim (dir ++ ['\n']))).isSome :=
  isSome_of_eq_some (findProblem_slug (workspace?_appendEvent now action h) hplain)

end Workspaces

/-! ## Calls keep the law -/

/-- What a call is to return and to leave. -/
structure Good (env : Env) (subject : Option Text) (s : Store) (r : Result) : Prop where
  succeeds : ∀ failure, r.2 = .error failure → ∃ slug, failure = .noSuchProblem slug
  after : After subject s r.1
  tidy : Tidy r.1
  pointed : Pointed env r.1

section Calls

variable {dir slug : Text} {w : Workspace} {now : ℕ} {subject : Option Text}

theorem After.of_eq {s' : Store} (h : ∀ dir w, s.workspace? dir = some w → s'.workspace? dir = some w) :
    After subject s s' :=
  fun dir w hw ↦ ⟨fun _ ↦ h dir w hw, fun _ ↦ ⟨w, h dir w hw, rfl, prefix_refl w.events⟩⟩

theorem setActiveSlug_of_tidy (ht : Tidy s) (next : Store → Result) :
    setActiveSlug slug next s = next { s with active := some (slug ++ ['\n']) } := by
  rw [setActiveSlug, if_neg (by simp [ht.not_obstructed])]

theorem pointed_of_active {text : Text} (h : s.active = some text) (hfound : (findProblem env s (trim text)).isSome) :
    Pointed env s := by
  intro text' htext
  obtain rfl := Option.some.inj (h.symm.trans htext)
  exact hfound

theorem readActiveSlug_eq (ht : Tidy s) (hp : Pointed env s) : readActiveSlug env s = .ok (s.active.map trim) := by
  rw [readActiveSlug, if_neg (by simp [ht.not_obstructed])]
  rcases hactive : s.active with _ | text
  · rfl
  · simp [Option.filter, hp text hactive]

variable {problem : ProblemMeta}

/-- A text that leads to the same workspace as its pointer would may become the pointer. -/
theorem good_setActive (ht : Tidy s) (hfound : (findProblem env s (trim (slug ++ ['\n']))).isSome) :
    Good env subject s (setActiveSlug slug (fun s ↦ (s, .ok (some problem))) s) := by
  rw [setActiveSlug_of_tidy ht]
  exact ⟨fun _ h ↦ (nomatch h), .of_eq fun _ _ hw ↦ hw, ht.setActive _, pointed_of_active rfl hfound⟩

theorem good_createProblem (ht : Tidy s) {name : Text} (hfits : Fits env s name) :
    Good env subject s (createProblem env now name s) := by
  unfold createProblem
  obtain ⟨hactive, hlength⟩ := hfits
  have hplain := plain_uniqueSlug s.taken (plain_deriveSlug env.toLowerCase name)
  have hfree := (notMem_taken_iff.mp (uniqueSlug_notMem s.taken (deriveSlug env.toLowerCase name))).1
  set slug := uniqueSlug s.taken (deriveSlug env.toLowerCase name)
  set problem : ProblemMeta := ⟨name, slug, now, .designing, none⟩
  have hwritten : writeProblemMeta now problem s =
      s.setWorkspace slug ⟨{ problem with recorded := some now }, []⟩ := by
    rw [writeProblemMeta, show s.workspace? problem.slug = none from hfree]
    rfl
  have hkept : Kept slug ⟨{ problem with recorded := some now }, []⟩ := ⟨hplain, hactive, rfl, rfl⟩
  have hnew : Tidy (writeProblemMeta now problem s) := hwritten ▸ ht.setWorkspace hkept
  have hworkspace : (writeProblemMeta now problem s).workspace? slug =
      some ⟨{ problem with recorded := some now }, []⟩ := by
    rw [hwritten, workspace?_setWorkspace, if_pos rfl]
  have hactivated :
      ({ writeProblemMeta now problem s with active := some (slug ++ ['\n']) } : Store).workspace? slug =
        some ⟨{ problem with recorded := some now }, []⟩ := hworkspace
  simp only
  rw [if_neg (Nat.not_lt.mpr hlength), setActiveSlug_of_tidy hnew]
  refine ⟨fun _ h ↦ (nomatch h), .of_eq fun k v hv ↦ ?_, (hnew.setActive _).appendEvent now slug _, ?_⟩
  · have hk : slug ≠ k := by
      rintro rfl
      exact nomatch hfree.symm.trans hv
    rw [workspace?_appendEvent_of_ne hk]
    change (writeProblemMeta now problem s).workspace? k = some v
    rw [hwritten, workspace?_setWorkspace, if_neg hk, hv]
  · exact pointed_of_active active_appendEvent (isSome_findProblem_appendEvent hactivated hplain)

theorem mem_findByName {query : Text} (h : problem ∈ findByName env s query) :
    ∃ dir ∈ s.dirs, dir.2.problem = problem := by
  rw [findByName, mem_mergeSort, mem_filter] at h
  exact List.mem_map.mp h.1

theorem good_openProblem (ht : Tidy s) (hp : Pointed env s) {query : Text}
    (hplaced : (findProblem env s query).isSome → (findProblem env s (trim (query ++ ['\n']))).isSome) :
    Good env subject s (openProblem env query s) := by
  unfold openProblem
  rcases hfound : findProblem env s query with _ | ⟨dir, w⟩
  · rcases hmatches : findByName env s query with _ | ⟨problem, rest⟩
    · exact ⟨fun _ h ↦ (nomatch h), .of_eq fun _ _ hw ↦ hw, ht, hp⟩
    · obtain ⟨⟨dir, w⟩, hmem, rfl⟩ := mem_findByName (hmatches ▸ mem_cons_self)
      have hw := (Entries.get?_eq_some_iff ht.apart dir w).mpr hmem
      have hkept := ht.kept dir w hw
      refine good_setActive ht ?_
      rw [show w.problem.slug = dir from hkept.slug, findProblem_slug hw hkept.plain]
      rfl
  · exact good_setActive ht (hplaced (by rw [hfound]; rfl))

theorem workspace?_writeProblemMeta (now : ℕ) (hw : s.workspace? problem.slug = some w)
    (k : Text) : (writeProblemMeta now problem s).workspace? k =
      if problem.slug = k then some ⟨{ problem with recorded := some now }, w.events⟩ else s.workspace? k := by
  rw [writeProblemMeta, workspace?_setWorkspace, hw, map_some, getD_some]

/-- A call that writes another record for a problem and logs it. -/
theorem good_update (ht : Tidy s) (hp : Pointed env s) (problem : ProblemMeta) (hw : s.workspace? dir = some w)
    (hslug : problem.slug = dir) (action : Action) (returned : ProblemMeta) :
    Good env (some dir) s (appendEvent now dir action (writeProblemMeta now problem s), .ok (some returned)) := by
  have hkept := ht.kept dir w hw
  subst hslug
  have hupdated : Kept problem.slug ⟨{ problem with recorded := some now }, w.events⟩ :=
    ⟨hkept.plain, hkept.ne_active, rfl, hkept.numbered⟩
  have hwritten : Tidy (writeProblemMeta now problem s) := by
    refine ⟨Entries.nodup_set _ _ ht.apart, fun k v hv ↦ ?_⟩
    rw [workspace?_writeProblemMeta now hw] at hv
    split_ifs at hv with hk
    · obtain rfl := Option.some.inj hv
      exact hk ▸ hupdated
    · exact ht.kept k v hv
  have hself := workspace?_appendEvent now action
    ((workspace?_writeProblemMeta now hw problem.slug).trans (if_pos rfl))
  have hother : ∀ k, problem.slug ≠ k →
      (appendEvent now problem.slug action (writeProblemMeta now problem s)).workspace? k = s.workspace? k := by
    intro k hk
    rw [workspace?_appendEvent_of_ne hk, workspace?_writeProblemMeta now hw, if_neg hk]
  refine ⟨fun _ h ↦ (nomatch h), fun k v hv ↦ ⟨fun hk ↦ ?_, fun _ ↦ ?_⟩, hwritten.appendEvent _ _ _,
    fun text htext ↦ ?_⟩
  · rw [hother k fun h ↦ hk (congrArg some h), hv]
  · by_cases hk : problem.slug = k
    · subst hk
      obtain rfl := Option.some.inj (hw.symm.trans hv)
      exact ⟨_, hself, hkept.slug.symm, prefix_append _ _⟩
    · exact ⟨v, (hother k hk).trans hv, rfl, prefix_refl _⟩
  · rw [active_appendEvent] at htext
    refine findProblem_isSome_of_imp (hp text htext) fun k _ hk ↦ ?_
    by_cases hsame : problem.slug = k
    · subst hsame
      rw [hself]
      rfl
    · rw [hother k hsame]
      exact hk

def moved (now : ℕ) (dir : Text) (w : Workspace) (updated : ProblemMeta) (s : Store) : Store :=
  writeProblemMeta now updated ({ s with dirs := Entries.erase s.dirs dir }.setWorkspace updated.slug w)

theorem workspace?_moved (updated : ProblemMeta) (k : Text) :
    (moved now dir w updated s).workspace? k =
      if updated.slug = k then some ⟨{ updated with recorded := some now }, w.events⟩
      else if dir = k then none else s.workspace? k := by
  have hset : ({ s with dirs := Entries.erase s.dirs dir }.setWorkspace updated.slug w).workspace? updated.slug =
      some w := by
    rw [workspace?_setWorkspace, if_pos rfl]
  rw [moved, workspace?_writeProblemMeta now hset, workspace?_setWorkspace]
  split_ifs
  · rfl
  · exact (Entries.get?_erase s.dirs dir k).trans (if_pos ‹_›)
  · exact (Entries.get?_erase s.dirs dir k).trans (if_neg ‹_›)

theorem Tidy.moved (ht : Tidy s) (hw : s.workspace? dir = some w) {updated : ProblemMeta}
    (hplain : Plain updated.slug) (hne : updated.slug ≠ ACTIVE_FILE) : Tidy (moved now dir w updated s) := by
  have hnodup : ((Entries.erase s.dirs dir).map Prod.fst).Nodup :=
    ht.apart.sublist (filter_sublist.map Prod.fst)
  refine ⟨Entries.nodup_set _ _ (Entries.nodup_set _ _ hnodup), fun k v hv ↦ ?_⟩
  rw [workspace?_moved] at hv
  split_ifs at hv with hk
  · obtain rfl := Option.some.inj hv
    exact hk ▸ ⟨hplain, hne, rfl, (ht.kept dir w hw).numbered⟩
  · exact ht.kept k v hv

section

variable (ht : Tidy s) (hp : Pointed env s)

include ht hp

theorem good_moveProblem (hw : s.workspace? dir = some w) {newName : Text}
    {wasActive : Bool} (huntitled : UNTITLED.isPrefixOf dir = true) (hfits : Fits env s newName)
    (hactive : ∀ text ∈ s.active, childOf env.root (trim text) = some dir → wasActive = true) :
    Good env (some dir) s (moveProblem env now dir w newName slug wasActive s) := by
  unfold moveProblem
  obtain ⟨hne, hlength⟩ := hfits
  have hplain := plain_uniqueSlug s.taken (plain_deriveSlug env.toLowerCase newName)
  have hfree := (notMem_taken_iff.mp (uniqueSlug_notMem s.taken (deriveSlug env.toLowerCase newName))).1
  set newSlug := uniqueSlug s.taken (deriveSlug env.toLowerCase newName)
  set updated : ProblemMeta := { w.problem with name := newName, slug := newSlug }
  have htidy : Tidy (moved now dir w updated s) := ht.moved hw hplain hne
  have hself : (moved now dir w updated s).workspace? newSlug =
      some ⟨{ updated with recorded := some now }, w.events⟩ := by
    rw [workspace?_moved, if_pos rfl]
  have hother : ∀ k v, dir ≠ k → s.workspace? k = some v →
      (moved now dir w updated s).workspace? k = some v ∧ newSlug ≠ k := by
    intro k v hdir hv
    have hk : newSlug ≠ k := by
      rintro rfl
      exact nomatch hfree.symm.trans hv
    exact ⟨by rw [workspace?_moved, if_neg hk, if_neg hdir, hv], hk⟩
  -- what follows is the same for both values of the flag, but for the pointer
  have hafter : ∀ active action, After (some dir) s
      (appendEvent now newSlug action { moved now dir w updated s with active }) := by
    intro active action k v hv
    refine ⟨fun hsubject ↦ ?_, fun hestablished ↦ ?_⟩
    · obtain ⟨hk, hne⟩ := hother k v (fun h ↦ hsubject (congrArg some h)) hv
      exact (workspace?_appendEvent_of_ne hne).trans hk
    · have hdir : dir ≠ k := by
        rintro rfl
        simp [huntitled] at hestablished
      obtain ⟨hk, hne⟩ := hother k v hdir hv
      exact ⟨v, (workspace?_appendEvent_of_ne hne).trans hk, rfl, prefix_refl _⟩
  simp only
  rw [if_neg (Nat.not_lt.mpr hlength)]
  by_cases hwas : wasActive = true
  · rw [if_pos hwas]
    change Good env _ s (setActiveSlug newSlug _ (moved now dir w updated s))
    rw [setActiveSlug_of_tidy htidy]
    refine ⟨fun _ h ↦ (nomatch h), hafter _ _, (htidy.setActive _).appendEvent _ _ _, ?_⟩
    exact pointed_of_active active_appendEvent (isSome_findProblem_appendEvent hself hplain)
  · rw [if_neg hwas]
    refine ⟨fun _ h ↦ (nomatch h), hafter _ _, htidy.appendEvent _ _ _, fun text htext ↦ ?_⟩
    rw [active_appendEvent] at htext
    refine findProblem_isSome_of_imp (hp text htext) fun k hchild hk ↦ ?_
    obtain ⟨v, hv⟩ := isSome_iff_exists.mp hk
    have hdir : dir ≠ k := by
      rintro rfl
      exact hwas (hactive text htext hchild)
    obtain ⟨hmoved, hne⟩ := hother k v hdir hv
    exact isSome_of_eq_some ((workspace?_appendEvent_of_ne hne).trans hmoved)

theorem good_renameProblem {newName : Text} (hplaced : Placed env s (.renameProblem now slug newName)) :
    Good env (childOf env.root slug) s (renameProblem env now slug newName s) := by
  unfold renameProblem
  rcases hfound : findProblem env s slug with _ | ⟨dir, w⟩
  · refine ⟨fun failure h ↦ ⟨slug, (Except.error.inj h).symm⟩, .of_eq fun _ _ hw ↦ hw, ht, hp⟩
  · obtain ⟨hdir, hw⟩ := findProblem_eq_some_iff.mp hfound
    rw [hdir]
    simp only
    split_ifs with huntitled
    · rw [readActiveSlug_eq ht hp]
      obtain ⟨hdiruntitled, hfits, hactive⟩ := hplaced huntitled (dir, w) hfound
      refine good_moveProblem ht hp hw hdiruntitled hfits fun text htext hchild ↦ ?_
      rw [show s.active = some text from htext, map_some, hactive text htext hchild]
      simp
    · exact good_update ht hp { w.problem with name := newName } hw (ht.kept dir w hw).slug _ _

theorem good_archiveProblem : Good env (childOf env.root slug) s (archiveProblem env now slug s) := by
  unfold archiveProblem
  rcases hfound : findProblem env s slug with _ | ⟨dir, w⟩
  · exact ⟨fun failure h ↦ ⟨slug, (Except.error.inj h).symm⟩, .of_eq fun _ _ hw ↦ hw, ht, hp⟩
  · obtain ⟨hdir, hw⟩ := findProblem_eq_some_iff.mp hfound
    rw [hdir]
    exact good_update ht hp { w.problem with status := .archived } hw (ht.kept dir w hw).slug _ _

theorem good_ensureActiveProblem {date : Text}
    (hplaced : s.active = none → Fits env s ("Untitled ".toList ++ date)) :
    Good env subject s (ensureActiveProblem env now date s) := by
  unfold ensureActiveProblem
  rw [readActiveSlug_eq ht hp]
  rcases hactive : s.active with _ | text
  · exact good_createProblem ht (hplaced hactive)
  · obtain ⟨found, hfound⟩ := isSome_iff_exists.mp (hp text hactive)
    simp only [map_some, bind_some, hfound]
    exact ⟨fun _ h ↦ (nomatch h), .of_eq fun _ _ hw ↦ hw, ht, hp⟩

theorem good_call (c : ProblemCall) (hc : Placed env s c) : Good env (c.subject env) s (call env s c) := by
  rcases c with ⟨now, name⟩ | query | ⟨now, slug, newName⟩ | ⟨now, slug⟩ | ⟨now, date⟩
  · exact good_createProblem ht hc
  · exact good_openProblem ht hp hc
  · exact good_renameProblem ht hp hc
  · exact good_archiveProblem ht hp
  · exact good_ensureActiveProblem ht hp hc

end

end Calls

/-! ## Runs -/

/-- In a run whose calls are placed, the store keeps its invariant, and each call succeeds and keeps to its
problem. -/
theorem storeLaw_run (env : Env) (calls : List ProblemCall)
    (h : Guarded (callStep env) (Placed env) .empty calls) : StoreLaws env calls := by
  have hstep : ∀ s c, Tidy s ∧ Pointed env s → Placed env s c →
      Tidy (callStep env s c) ∧ Pointed env (callStep env s c) :=
    fun s c hs hc ↦ ⟨(good_call hs.1 hs.2 c hc).tidy, (good_call hs.1 hs.2 c hc).pointed⟩
  have hstart : Tidy .empty ∧ Pointed env .empty :=
    ⟨⟨List.nodup_nil, fun _ _ hw ↦ nomatch hw⟩, fun _ htext ↦ nomatch htext⟩
  refine ⟨fun n ↦ ?_, h.of_invariant hstep (fun s c hs hc ↦ ?_) hstart⟩
  · rw [← List.take_append_drop n calls, guarded_append] at h
    obtain ⟨ht, hp⟩ := invariant_run_of_guarded hstep hstart h.1
    exact ⟨fun dir w hw ↦ (ht.kept dir w hw).slug, ht.apart, hp, fun dir w hw ↦ (ht.kept dir w hw).numbered⟩
  · have hgood := good_call hs.1 hs.2 c hc
    exact ⟨hgood.succeeds, hgood.after⟩

/-- A root with the usual limit, and lower case for ASCII. -/
def asciiEnv : Env := ⟨["problems".toList], fun text ↦ text.map Char.toLower, 255⟩

theorem storeLaw_renamed :
    StoreLaws asciiEnv [.createProblem 1 "Untitled".toList, .renameProblem 2 "untitled".toList "Cat".toList,
      .archiveProblem 3 "cat".toList] :=
  storeLaw_run asciiEnv _ (by decide)

/-- The first problem is called like the pointer. -/
theorem not_storeLaws_active : ¬ StoreLaws asciiEnv [.createProblem 1 "Active".toList] := by
  intro hlaw
  obtain ⟨slug, hslug⟩ := hlaw.calls.1.succeeds .EISDIR (by decide)
  exact nomatch hslug

end Amicode.Problems
