import Amicode.Foundation.DepthFirst
import Amicode.Plan.Resumable

/-!
# What an accepted plan table promises

`parsePlanTable` refuses a table that `fileSlices` could not file, so that no row is refused when issues have been
written. Both read an `after` entry, and not in the same way: that the row is there is checked of the number the
entry reads as, and cycles and the edges to be filed are looked up by its text, which is that of a row if it is
printed as the row is.
-/

open List

namespace Amicode.Plan

variable {steps : List SliceStep} {s t : SliceStep}

/-! ## The entries of a table -/

/-- The rows of the table of a note. -/
def tableLines (markdown : List Char) : List (List Char) :=
  match planSection? (JsText.splitLines markdown) with
  | none => []
  | some (_, lines) => ((lines.dropWhile (!startsWithPipe ·)).drop 2).takeWhile startsWithPipe

/-- The rows that an `after` cell names. -/
def cellEntries (cell : List Char) : List (List Char) :=
  if cellText cell ∈ NONE then [] else (JsText.splitOn [','] cell).map JsText.trim

def rowEntries : List (List Char) → List (List Char)
  | [_, _, _, _, _, afterRaw] => cellEntries afterRaw
  | _ => []

def afterEntries (markdown : List Char) : List (List Char) :=
  (tableLines markdown).flatMap fun line ↦ rowEntries (cells line)

/-- The entry is `String(Number(entry))`. -/
def SpelledAsRow (entry : List Char) : Prop := entry = JsNumber.numberText (JsNumber.number entry)

instance (entry : List Char) : Decidable (SpelledAsRow entry) := inferInstanceAs (Decidable (_ = _))

theorem readAfter_entries {place : String} {afterRaw : List Char} {needs : Option (List String)}
    (h : readAfter place afterRaw = .ok needs) : needs.getD [] = (cellEntries afterRaw).map cellText := by
  unfold readAfter at h
  dsimp only at h
  split_ifs at h with hnone hdigits
  · cases h
    rw [cellEntries, if_pos hnone]
    rfl
  · cases h
    rw [cellEntries, if_neg hnone]
    rfl

theorem readRow_entries {place : String} {seen : List (Option ℕ)} {row : List (List Char)}
    (h : readRow place seen row = .ok s) : s.needs.getD [] = (rowEntries row).map cellText := by
  unfold readRow at h
  split at h
  · dsimp only at h
    split_ifs at h
    split at h
    · cases h
    · next needs hneeds =>
      cases h
      exact readAfter_entries hneeds
  · cases h

theorem readRows_entries {line : ℕ} {seen : List (Option ℕ)} {lines : List (List Char)}
    (h : readRows line seen lines = .ok steps) : steps.flatMap (fun s ↦ s.needs.getD []) =
      ((lines.takeWhile startsWithPipe).flatMap fun l ↦ rowEntries (cells l)).map cellText := by
  induction lines generalizing line seen steps with
  | nil =>
    cases h
    rfl
  | cons l rest ih =>
    rw [readRows] at h
    split_ifs at h with hpipe
    · split at h
      · cases h
      · next step hstep =>
        split at h
        · cases h
        · next tail htail =>
          cases h
          rw [takeWhile_cons_of_pos hpipe, flatMap_cons, flatMap_cons, map_append, ih htail,
            readRow_entries hstep]
    · cases h
      rw [takeWhile_cons_of_neg hpipe]
      rfl

/-- What the parser went through, of a table that it accepts. -/
theorem stages_of_parsePlanTable {markdown : List Char} (h : parsePlanTable markdown = .ok steps) :
    (∃ line lines, readRows line [] lines = .ok steps ∧ tableLines markdown = lines.takeWhile startsWithPipe)
      ∧ findCycle steps = none := by
  unfold parsePlanTable at h
  split at h
  · cases h
  next start lines hsection =>
  split at h
  · cases h
  next head rest htable =>
  dsimp only at h
  split_ifs at h
  split at h
  · cases h
  next sep rows =>
  split_ifs at h
  split at h
  · cases h
  next steps' hrows =>
  split_ifs at h
  split at h
  · cases h
  split at h
  · cases h
  next hcycle =>
  cases h
  refine ⟨⟨_, rows, hrows, ?_⟩, hcycle⟩
  rw [tableLines, hsection]
  dsimp only
  rw [htable]
  rfl

theorem PlanTable.entries (table : PlanTable) :
    table.steps.flatMap (fun s ↦ s.needs.getD []) = (afterEntries table.markdown).map cellText := by
  obtain ⟨⟨line, lines, hrows, hlines⟩, -⟩ := stages_of_parsePlanTable table.parsed
  rw [afterEntries, hlines, readRows_entries hrows]

/-! ## The promise -/

/-- Row `s` is after row `t`. -/
def IsBefore (steps : List SliceStep) (t s : SliceStep) : Prop :=
  t ∈ steps ∧ s ∈ steps ∧ ∃ n ∈ s.needs.getD [], JsNumber.number n.toList = t.row

/-- What ends a run because an edge has no row, or a row no issue. -/
def Stop.IsUnresolved : Stop → Prop
  | .planTable _ => True
  | .notFound _ => False
  | .noIssue _ => True

structure Fileable (steps : List SliceStep) : Prop where
  rows : (steps.map (·.row)).Nodup
  ids : (steps.map (·.id)).Nodup
  resolved : ∀ s ∈ steps, ∀ n ∈ s.needs.getD [], JsNumber.number n.toList ∈ steps.map (·.row)
  acyclic : ∀ s, ¬ Relation.TransGen (IsBefore steps) s s
  /-- An entry and a row are the same to the parser if and only if they are to `fileSlices`. -/
  identified : ∀ s ∈ steps, ∀ n ∈ s.needs.getD [], ∀ t ∈ steps, JsNumber.number n.toList = t.row ↔ n = t.id
  filed : ∀ (gh : GitHub) (o : FileSlicesOptions) (tracker : Tracker) (stop : Stop),
    (fileSlices gh o steps tracker).2 = some stop → ¬ stop.IsUnresolved

/-! ## Edges that are spelled as their rows -/

/-- Every `after` entry of the table. -/
def Spelled (steps : List SliceStep) : Prop :=
  ∀ s ∈ steps, ∀ n ∈ s.needs.getD [], n = rowText (JsNumber.number n.toList)

theorem spelled_iff (table : PlanTable) :
    Spelled table.steps ↔ ∀ entry ∈ afterEntries table.markdown, SpelledAsRow entry := by
  have hcell : ∀ entry, cellText entry = rowText (JsNumber.number (cellText entry).toList) ↔ SpelledAsRow entry := by
    intro entry
    rw [cellText, rowText, String.toList_ofList, String.ofList_inj]
    rfl
  constructor
  · intro h entry hentry
    have hmem := List.mem_map_of_mem (f := cellText) hentry
    rw [← table.entries] at hmem
    obtain ⟨s, hs, hn⟩ := mem_flatMap.mp hmem
    exact (hcell entry).mp (h s hs _ hn)
  · intro h s hs n hn
    have hmem : n ∈ table.steps.flatMap fun s ↦ s.needs.getD [] := mem_flatMap.mpr ⟨s, hs, hn⟩
    rw [table.entries] at hmem
    obtain ⟨entry, hentry, rfl⟩ := List.mem_map.mp hmem
    exact (hcell entry).mpr (h entry hentry)

theorem rowText_inj {m n : Option ℕ} (hm : ∀ x, m = some x → JsNumber.toDouble x = x)
    (hn : ∀ y, n = some y → JsNumber.toDouble y = y) (h : rowText m = rowText n) : m = n :=
  JsNumber.numberText_inj hm hn (String.ofList_inj.mp h)

section
variable (haccepted : Accepted steps)
include haccepted

theorem Accepted.row_double (hs : s ∈ steps) : ∀ x, s.row = some x → JsNumber.toDouble x = x :=
  (haccepted.checked s hs).number

theorem Accepted.need_double (hs : s ∈ steps) {n : String} (hn : n ∈ s.needs.getD []) :
    ∀ x, JsNumber.number n.toList = some x → JsNumber.toDouble x = x := by
  have hdigits := isDigits_iff.mp ((haccepted.checked s hs).needs n hn)
  exact fun x hx ↦ JsNumber.toDouble_number hdigits.1 hdigits.2 hx

theorem Accepted.nodup_ids : (steps.map (·.id)).Nodup := by
  have hids : steps.map (·.id) = (steps.map (·.row)).map rowText := by
    rw [List.map_map]
    exact map_congr_left fun s hs ↦ (haccepted.checked s hs).id
  rw [hids]
  refine haccepted.rows.map_on fun m hm n hn h ↦ ?_
  obtain ⟨s, hs, rfl⟩ := List.mem_map.mp hm
  obtain ⟨t, ht, rfl⟩ := List.mem_map.mp hn
  exact rowText_inj (haccepted.row_double hs) (haccepted.row_double ht) h

theorem Accepted.named (hs : s ∈ steps) {n : String} (hn : n ∈ s.needs.getD []) :
    ∃ t ∈ steps, JsNumber.number n.toList = t.row := by
  obtain ⟨t, ht, hrow⟩ := List.mem_map.mp (haccepted.needs s hs n hn)
  exact ⟨t, ht, hrow.symm⟩

theorem Spelled.identified (h : Spelled steps) (hs : s ∈ steps) {n : String} (hn : n ∈ s.needs.getD [])
    (ht : t ∈ steps) : JsNumber.number n.toList = t.row ↔ n = t.id := by
  rw [(haccepted.checked t ht).id]
  constructor
  · intro hrow
    rw [← hrow]
    exact h s hs n hn
  · intro hid
    rw [h s hs n hn] at hid
    exact rowText_inj (haccepted.need_double hs hn) (haccepted.row_double ht) hid

theorem Spelled.mem_ids (h : Spelled steps) (hs : s ∈ steps) {n : String} (hn : n ∈ s.needs.getD []) :
    n ∈ steps.map (·.id) := by
  obtain ⟨t, ht, hrow⟩ := haccepted.named hs hn
  exact List.mem_map.mpr ⟨t, ht, ((h.identified haccepted hs hn ht).mp hrow).symm⟩

theorem spelled_of_fileable (h : Fileable steps) : Spelled steps := by
  intro s hs n hn
  obtain ⟨t, ht, hrow⟩ := haccepted.named hs hn
  rw [hrow, ← (haccepted.checked t ht).id]
  exact (h.identified s hs n hn t ht).mp hrow

end

theorem spelledAsRow_of_fileable {markdown : List Char} (hparsed : parsePlanTable markdown = .ok steps)
    (h : Fileable steps) : ∀ entry ∈ afterEntries markdown, SpelledAsRow entry :=
  (spelled_iff ⟨markdown, steps, hparsed⟩).mp (spelled_of_fileable (accepted_of_parsePlanTable hparsed) h)

/-! ## The search for a cycle -/

theorem needsOf_of_mem (hids : (steps.map (·.id)).Nodup) (hs : s ∈ steps) :
    needsOf steps s.id = s.needs.getD [] := by
  rcases hfind : steps.reverse.find? (·.id = s.id) with _ | t
  · exact absurd (find?_eq_none.mp hfind s (mem_reverse.mpr hs)) (by simp)
  · have ht : t ∈ steps := mem_reverse.mp (mem_of_find?_eq_some hfind)
    have hid : t.id = s.id := by simpa using find?_some hfind
    obtain rfl : t = s := inj_on_of_nodup_map hids ht hs hid
    rw [needsOf, hfind]
    rfl

/-- The search is done with these ids as well, and below the same ones. -/
structure Searched (steps : List SliceStep) (search : CycleSearch) (ids : List String) (search' : CycleSearch) :
    Prop where
  stack : search'.stack = search.stack
  kept : search.done ⊆ search'.done
  ids : ids ⊆ search'.done
  ordered : DepthFirst.Ordered (needsOf steps) search'.done

/-- What holds of a search that has that deep to go. -/
structure Searching (steps : List SliceStep) (depth : ℕ) (search : CycleSearch) : Prop where
  nodup : search.stack.Nodup
  stack : search.stack ⊆ steps.map (·.id)
  ordered : DepthFirst.Ordered (needsOf steps) search.done
  depth : steps.length < depth + search.stack.length

theorem Searching.of_searched {depth : ℕ} {search search' : CycleSearch} {ids : List String}
    (h : Searching steps depth search) (h' : Searched steps search ids search') : Searching steps depth search' := by
  refine ⟨?_, ?_, h'.ordered, ?_⟩ <;> rw [h'.stack]
  exacts [h.nodup, h.stack, h.depth]

theorem Searching.depth_pos {depth : ℕ} {search : CycleSearch} (h : Searching steps depth search) : 0 < depth := by
  have hlength := (h.nodup.subperm h.stack).length_le
  rw [length_map] at hlength
  have hdepth := h.depth
  omega

theorem searched_of_foldlM {depth : ℕ}
    (hvisit : ∀ id ∈ steps.map (·.id), ∀ search search', Searching steps depth search →
      visit steps depth search id = .ok search' → Searched steps search [id] search')
    {ids : List String} (hids : ids ⊆ steps.map (·.id)) {search search' : CycleSearch}
    (hsearch : Searching steps depth search) (h : ids.foldlM (visit steps depth) search = .ok search') :
    Searched steps search ids search' := by
  induction ids generalizing search with
  | nil =>
    cases h
    exact ⟨rfl, fun _ h ↦ h, nil_subset _, hsearch.ordered⟩
  | cons id rest ih =>
    rw [foldlM_cons] at h
    rcases hfirst : visit steps depth search id with cycle | search₁ <;> rw [hfirst] at h
    · cases h
    · have hone := hvisit id (hids mem_cons_self) search search₁ hsearch hfirst
      have hrest := ih (fun _ hmem ↦ hids (mem_cons_of_mem id hmem)) (hsearch.of_searched hone) h
      refine ⟨hrest.stack.trans hone.stack, fun _ hmem ↦ hrest.kept (hone.kept hmem), ?_, hrest.ordered⟩
      exact cons_subset.mpr ⟨hrest.kept (hone.ids mem_cons_self), hrest.ids⟩

section
variable (hclosed : ∀ id, needsOf steps id ⊆ steps.map (·.id))
include hclosed

theorem searched_of_visit {depth : ℕ} {search search' : CycleSearch} {id : String} (hid : id ∈ steps.map (·.id))
    (hsearch : Searching steps depth search) (h : visit steps depth search id = .ok search') :
    Searched steps search [id] search' := by
  induction depth generalizing search search' id with
  | zero => exact absurd hsearch.depth_pos (lt_irrefl 0)
  | succ depth ih =>
    rw [visit] at h
    split_ifs at h with hdone hstack
    · cases h
      exact ⟨rfl, fun _ h ↦ h, by simpa using hdone, hsearch.ordered⟩
    split at h
    · cases h
    next below hbelow =>
    cases h
    have hnext : Searching steps depth { search with stack := search.stack ++ [id] } := by
      refine ⟨?_, ?_, hsearch.ordered, ?_⟩
      · rw [nodup_append_comm]
        exact nodup_cons.mpr ⟨hstack, hsearch.nodup⟩
      · exact append_subset.mpr ⟨hsearch.stack, by simpa using hid⟩
      · have hdepth := hsearch.depth
        simp only [length_append, length_singleton]
        omega
    have hneeds := searched_of_foldlM (fun id hid search search' ↦ ih hid) (hclosed id) hnext hbelow
    refine ⟨rfl, fun _ hmem ↦ mem_cons_of_mem id (hneeds.kept hmem), ?_, hneeds.ids, hneeds.ordered⟩
    exact cons_subset.mpr ⟨mem_cons_self, nil_subset _⟩

theorem exists_ordered_of_findCycle (h : findCycle steps = none) :
    ∃ done, steps.map (·.id) ⊆ done ∧ DepthFirst.Ordered (needsOf steps) done := by
  unfold findCycle at h
  split at h
  · cases h
  next search' hsearch =>
  have hstart : Searching steps (steps.length + 2) { done := [], stack := [] } :=
    ⟨nodup_nil, nil_subset _, trivial, by simp only [length_nil]; omega⟩
  have hall := searched_of_foldlM (fun _ hid _ _ ↦ searched_of_visit hclosed hid) (fun _ hid ↦ hid) hstart hsearch
  exact ⟨search'.done, hall.ids, hall.ordered⟩

end

theorem not_transGen_isBefore (haccepted : Accepted steps) (h : Spelled steps) (hcycle : findCycle steps = none)
    (s : SliceStep) : ¬ Relation.TransGen (IsBefore steps) s s := by
  have hneeds : ∀ s ∈ steps, needsOf steps s.id = s.needs.getD [] :=
    fun s hs ↦ needsOf_of_mem haccepted.nodup_ids hs
  have hclosed : ∀ id, needsOf steps id ⊆ steps.map (·.id) := by
    intro id n hn
    rw [needsOf] at hn
    rcases hfind : steps.reverse.find? (·.id = id) with _ | t <;> rw [hfind] at hn
    · cases hn
    · exact h.mem_ids haccepted (mem_reverse.mp (mem_of_find?_eq_some hfind)) hn
  obtain ⟨done, hall, hordered⟩ := exists_ordered_of_findCycle hclosed hcycle
  have hedge : ∀ t s, IsBefore steps t s → t.id ∈ needsOf steps s.id := by
    rintro t s ⟨ht, hs, n, hn, hrow⟩
    rwa [hneeds s hs, ← (h.identified haccepted hs hn ht).mp hrow]
  intro hself
  have hs : s ∈ steps := by
    obtain ⟨_, -, hlast⟩ := Relation.TransGen.tail'_iff.mp hself
    exact hlast.2.1
  exact hordered.not_transGen (hall (List.mem_map_of_mem hs)) (Relation.TransGen.lift (·.id) hedge s s hself)

/-! ## What may end a run -/

variable {f : Filing}

def HaveIssues (rows : List SliceStep) (f : Filing) : Prop := ∀ s ∈ rows, ∃ issue, f.byRow.get? s.row = some issue

theorem HaveIssues.congr {rows : List SliceStep} {f' : Filing} (h : HaveIssues rows f) (heq : f'.byRow = f.byRow) :
    HaveIssues rows f' := by
  intro s hs
  rw [heq]
  exact h s hs

theorem HaveIssues.of_set {rows : List SliceStep} {f' : Filing} {issue : Issue} (h : HaveIssues rows f)
    (hset : f'.byRow = f.byRow.set s.row issue) : HaveIssues (rows ++ [s]) f' := by
  intro t ht
  rw [hset, InsertionMap.get?_set]
  split_ifs with heq
  · exact ⟨issue, rfl⟩
  · obtain ht | ht := mem_append.mp ht
    · exact h t ht
    · rw [mem_singleton.mp ht] at heq
      exact absurd rfl heq

theorem ends_fileRow (gh : GitHub) (o : FileSlicesOptions) (existing : List Issue) (s : SliceStep) (f : Filing) :
    Loop.Ends (fun f' ↦ ∃ issue, f'.byRow = f.byRow.set s.row issue) (fun stop ↦ ¬ stop.IsUnresolved)
      (fileRow gh o existing s f) := by
  unfold fileRow
  split
  · next addr hadopts =>
    unfold adoptRow
    split
    · exact .of_stopped id
    · next issue hissue =>
      refine .of_completed ⟨issue, ?_⟩
      dsimp only [Filing.reportRow]
      split_ifs <;> rfl
  · unfold ownRow
    split
    · next issue hprior => exact .of_completed ⟨issue, rfl⟩
    · exact .of_completed ⟨_, rfl⟩

theorem ends_linkRow (prd : IssueAddr) {issue : Issue} (h : f.byRow.get? s.row = some issue) :
    Loop.Ends (fun f' ↦ f'.byRow = f.byRow) (fun stop : Stop ↦ ¬ stop.IsUnresolved) (linkRow prd s f) := by
  unfold linkRow
  rw [h]
  dsimp only
  split_ifs
  · exact .of_completed rfl
  · exact .of_completed rfl

theorem ends_edgeTo {issue blocker : Issue} {n : String}
    (h : f.byRow.get? (JsNumber.number n.toList) = some blocker) :
    Loop.Ends (fun f' ↦ f'.byRow = f.byRow) (fun stop : Stop ↦ ¬ stop.IsUnresolved) (edgeTo s issue n f) := by
  unfold edgeTo
  dsimp only
  rw [h]
  dsimp only
  split_ifs
  · exact .of_completed rfl
  · exact .of_completed rfl

theorem ends_edgeRow (gh : GitHub) (haccepted : Accepted steps) (hs : s ∈ steps) (h : HaveIssues steps f) :
    Loop.Ends (fun f' ↦ f'.byRow = f.byRow) (fun stop : Stop ↦ ¬ stop.IsUnresolved) (edgeRow gh s f) := by
  obtain ⟨issue, hissue⟩ := h s hs
  unfold edgeRow
  split
  · exact .of_completed rfl
  rw [hissue]
  refine Loop.Ends.forEach (P := fun _ (f' : Filing) ↦ f'.byRow = f.byRow) (fun front n rest hsplit f' hf' ↦ ?_) rfl
  have hn : n ∈ s.needs.getD [] := by
    rw [hsplit]
    exact mem_append_right front mem_cons_self
  obtain ⟨t, ht, hrow⟩ := haccepted.named hs hn
  obtain ⟨blocker, hblocker⟩ := h t ht
  rw [← hrow, ← hf'] at hblocker
  rw [← hf']
  exact ends_edgeTo hblocker

/-- A run of a table whose entries are spelled as its rows does not end for an edge. -/
theorem not_isUnresolved_of_spelled (haccepted : Accepted steps) (h : Spelled steps) (gh : GitHub)
    (o : FileSlicesOptions) (tracker : Tracker) (stop : Stop)
    (hstop : (fileSlices gh o steps tracker).2 = some stop) : ¬ stop.IsUnresolved := by
  have hdangling := danglingAfter?_eq_none fun s hs n hn ↦ h.mem_ids haccepted hs hn
  rw [fileSlices, hdangling] at hstop
  refine (Loop.Ends.andThen (P := HaveIssues steps) (Q := HaveIssues steps) (R := fun stop : Stop ↦ ¬ stop.IsUnresolved)
    ?_ fun f hf ↦ Loop.Ends.andThen (P := HaveIssues steps) ?_ fun f hf ↦ ?_).stopped stop hstop
  · refine Loop.Ends.forEach (fun front s rest _ f hf ↦ ?_) fun s hs ↦ absurd hs not_mem_nil
    have hfile := ends_fileRow gh o (considered gh o steps tracker) s f
    refine ⟨fun hnone ↦ ?_, hfile.stopped⟩
    obtain ⟨issue, hset⟩ := hfile.completed hnone
    exact hf.of_set hset
  · unfold linkRows
    split
    · exact .of_completed hf
    next prd hprd =>
    refine Loop.Ends.forEach (P := fun _ f' ↦ HaveIssues steps f') (fun front s rest hsplit f hf ↦ ?_) hf
    obtain ⟨issue, hissue⟩ := hf s (hsplit ▸ mem_append_right front mem_cons_self)
    have hlink := ends_linkRow prd.addr hissue
    exact ⟨fun hnone ↦ hf.congr (hlink.completed hnone), hlink.stopped⟩
  · refine Loop.Ends.forEach (P := fun _ f' ↦ HaveIssues steps f') (fun front s rest hsplit f hf ↦ ?_) hf
    have hedge := ends_edgeRow gh haccepted (hsplit ▸ mem_append_right front mem_cons_self) hf
    exact ⟨fun hnone ↦ hf.congr (hedge.completed hnone), hedge.stopped⟩

/-- A table is fileable if and only if each `after` entry is spelled as the row it names. -/
theorem fileable_iff (table : PlanTable) :
    Fileable table.steps ↔ ∀ entry ∈ afterEntries table.markdown, SpelledAsRow entry := by
  have haccepted := table.accepted
  refine ⟨spelledAsRow_of_fileable table.parsed, fun h ↦ ?_⟩
  have h := (spelled_iff table).mpr h
  exact {
    rows := haccepted.rows
    ids := haccepted.nodup_ids
    resolved := haccepted.needs
    acyclic := not_transGen_isBefore haccepted h (stages_of_parsePlanTable table.parsed).2
    identified := fun s hs n hn t ht ↦ h.identified haccepted hs hn ht
    filed := not_isUnresolved_of_spelled haccepted h }

/-- Two rows, each after the other, one of which is named `02`. -/
def leadingZeroPlan : List Char :=
  ("## Plan\n\n| # | tier | step | repo | task_type | after |\n|---|---|---|---|---|---|\n"
    ++ "| 1 | 1 | write it down | amicode | plan | 02 |\n| 2 | 1 | build it | amicode | plan | 1 |\n").toList

theorem leadingZeroPlan_isSome : (parsePlanTable leadingZeroPlan).toOption.isSome = true := by decide +kernel

theorem not_fileable_leadingZero : ¬ ∀ table : PlanTable, Fileable table.steps := by
  intro h
  obtain ⟨steps, hsteps⟩ := Option.isSome_iff_exists.mp leadingZeroPlan_isSome
  have hparsed : parsePlanTable leadingZeroPlan = .ok steps := by
    rcases hparse : parsePlanTable leadingZeroPlan with e | steps' <;> rw [hparse] at hsteps
    · cases hsteps
    · rw [Option.some.inj hsteps]
  have hzero : ¬ ∀ entry ∈ afterEntries leadingZeroPlan, SpelledAsRow entry := by decide +kernel
  exact hzero (spelledAsRow_of_fileable hparsed (h ⟨leadingZeroPlan, steps, hparsed⟩))

end Amicode.Plan
