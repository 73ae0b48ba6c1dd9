import Amicode.Foundation.InsertionMap
import Amicode.Foundation.JsText
import Mathlib.Data.List.Sort

/-!
# Patterns proposed to the hopper

A tag that enough live claims carry is a pattern. The job that looks for patterns takes the first five of them in
the order of their tags, and proposes those of the five that have no note in the hopper
(`curation.ts`, `curation_verb.ts`).

Lower case and the file system are parameters. A note is known by its name: its text is left out, as are the job's
report and receipt.
-/

namespace Amicode.Curation

open JsText List

abbrev Text := List Char

/-- `String.prototype.toLowerCase`: there is nothing to change in a text that it has changed. -/
structure Casing where
  toLowerCase : Text → Text
  idem : ∀ raw, toLowerCase (trim (toLowerCase (trim raw))) = toLowerCase (trim raw)

/-- How a directory takes a write to a path in it: whether that works, and which entries it has then. -/
structure Volume where
  takes : Text → Bool
  entries : Text → List Text
  plain : ∀ path, ∀ name ∈ entries path, '/' ∉ name
  own : ∀ path, '/' ∉ path → entries path = [path]

structure RegistryClaim where
  file : Text
  status : String
  type : Text
  tags : List Text

inductive Confidence
  | high
  | medium

structure ClaimPattern where
  tag : Text
  files : List Text
  types : List Text
  points : ℕ
  confidence : Confidence
  cross_cutting : Bool

structure PatternPlan where
  patterns : List ClaimPattern
  overflow : List Text

def SYNTHESIZE_MIN_POINTS : ℕ := 3

def SYNTHESIZE_CAP : ℕ := 5

def HOT_STATUSES : List String := ["unverified", "corroborated"]

variable (casing : Casing) (volume : Volume)

/-- The claims of each tag, by file and type. -/
abbrev Clusters := InsertionMap Text (List (Text × Text))

def countTag (clusters : Clusters) (entry : RegistryClaim × Text) : Clusters :=
  let tag := casing.toLowerCase (trim entry.2)
  if tag = [] then clusters
  else
    let cluster := (clusters.get? tag).getD []
    if cluster.any (·.1 = entry.1.file) then clusters
    else clusters.set tag (cluster ++ [(entry.1.file, entry.1.type)])

def clustersOf (claims : List RegistryClaim) : Clusters :=
  ((claims.filter fun c ↦ c.status ∈ HOT_STATUSES).flatMap fun c ↦ c.tags.map fun raw ↦ (c, raw)).foldl
    (countTag casing) ∅

def patternOf (cluster : Text × List (Text × Text)) : ClaimPattern :=
  let types := (cluster.2.map Prod.snd).dedup.insertionSort (le · ·)
  { tag := cluster.1
    files := (cluster.2.map Prod.fst).insertionSort (le · ·)
    types
    points := cluster.2.length
    confidence := if 5 ≤ cluster.2.length then .high else .medium
    cross_cutting := 2 ≤ types.length }

/-- The patterns that meet the threshold, in the order of their tags. -/
def supported (claims : List RegistryClaim) (minPoints : ℕ := SYNTHESIZE_MIN_POINTS) : List ClaimPattern :=
  (((clustersOf casing claims).entries.insertionSort (le ·.1 ·.1)).filter (minPoints ≤ ·.2.length)).map patternOf

def detectPatterns (claims : List RegistryClaim) (minPoints : ℕ := SYNTHESIZE_MIN_POINTS) : PatternPlan where
  patterns := (supported casing claims minPoints).take SYNTHESIZE_CAP
  overflow := ((supported casing claims minPoints).drop SYNTHESIZE_CAP).map ClaimPattern.tag

def hopperSlug (tag : Text) : Text := "synthesize-".toList ++ casing.toLowerCase (trim tag) ++ ".md".toList

structure Hopper where
  entries : List Text
  plain : ∀ name ∈ entries, '/' ∉ name

/-- The hopper, and the tags whose notes were written, in their order. -/
abbrev JobRun := Hopper × List Text

def writeNote (r : JobRun) (tag : Text) : JobRun where
  fst.entries := r.1.entries ++ volume.entries (hopperSlug casing tag)
  fst.plain := fun name hname ↦ (List.mem_append.mp hname).elim (r.1.plain name) (volume.plain _ name)
  snd := r.2 ++ [tag]

/-- Write the notes of tags; the first write that fails ends the run. -/
def writeNotes : List Text → JobRun → JobRun
  | [], r => r
  | tag :: rest, r =>
    if volume.takes (hopperSlug casing tag) then writeNotes rest (writeNote casing volume r tag) else r

def planned (claims : List RegistryClaim) : List Text := (detectPatterns casing claims).patterns.map ClaimPattern.tag

/-- The tags of the plan that have no note yet. -/
def fresh (claims : List RegistryClaim) (h : Hopper) : List Text :=
  (planned casing claims).filter fun tag ↦ hopperSlug casing tag ∉ h.entries

def synthesizeSub (claims : List RegistryClaim) (r : JobRun) : JobRun :=
  writeNotes casing volume (fresh casing claims r.1) r

/-! ## The law -/

/-- The law of a registry and a hopper: the job, run again and again, proposes every pattern that has no note once,
and no two patterns share a note. -/
structure CarriedLaw (claims : List RegistryClaim) (h : Hopper) : Prop where
  proposed : ∀ p ∈ supported casing claims, ∃ n, ∀ m, n ≤ m →
    ((synthesizeSub casing volume claims)^[m] (h, [])).2.count p.tag =
      if hopperSlug casing p.tag ∈ h.entries then 0 else 1
  apart : ∀ p ∈ supported casing claims, ∀ q ∈ supported casing claims, p.tag ≠ q.tag →
    ∀ name ∈ volume.entries (hopperSlug casing p.tag), name ∉ volume.entries (hopperSlug casing q.tag)

/-- Every pattern has its note already, or is one of the first five and has a tag that makes a file name. -/
def WithinReach (claims : List RegistryClaim) (h : Hopper) : Prop :=
  ∀ p ∈ supported casing claims, hopperSlug casing p.tag ∈ h.entries ∨
    p ∈ (supported casing claims).take SYNTHESIZE_CAP ∧ '/' ∉ p.tag ∧ volume.takes (hopperSlug casing p.tag) = true

section Proof

variable {casing volume} {claims : List RegistryClaim} {h : Hopper} {tag : Text} {p q : ClaimPattern}

/-! ### Tags -/

theorem nodup_tags : ((supported casing claims).map ClaimPattern.tag).Nodup := by
  have hkeys := (clustersOf casing claims).nodup
  have hperm := (perm_insertionSort (fun a b ↦ le a.1 b.1 = true)
    (clustersOf casing claims).entries).map Prod.fst
  rw [supported, List.map_map]
  exact (hperm.nodup_iff.mpr hkeys).sublist (filter_sublist.map Prod.fst)

theorem lower_key {key : Text} (hkey : key ∈ (clustersOf casing claims).keys) :
    casing.toLowerCase (trim key) = key := by
  unfold clustersOf at hkey
  generalize (claims.filter fun c ↦ c.status ∈ HOT_STATUSES).flatMap (fun c ↦ c.tags.map fun raw ↦ (c, raw)) = l
    at hkey
  induction l using List.reverseRecOn with
  | nil => cases hkey
  | append_singleton l entry ih =>
    rw [foldl_append, foldl_cons, foldl_nil, countTag] at hkey
    dsimp only at hkey
    split_ifs at hkey
    · exact ih hkey
    · exact ih hkey
    · rcases (InsertionMap.mem_keys_set _ _ _ _).mp hkey with rfl | hkey
      · exact casing.idem _
      · exact ih hkey

section

variable (hp : p ∈ supported casing claims)

include hp

theorem hopperSlug_tag : hopperSlug casing p.tag = "synthesize-".toList ++ p.tag ++ ".md".toList := by
  rw [supported, List.mem_map] at hp
  obtain ⟨e, he, rfl⟩ := hp
  have hmem : e ∈ (clustersOf casing claims).entries := (mem_insertionSort _).mp (mem_filter.mp he).1
  have hkey : casing.toLowerCase (trim e.1) = e.1 := lower_key (List.mem_map_of_mem hmem)
  change "synthesize-".toList ++ casing.toLowerCase (trim e.1) ++ ".md".toList = _
  rw [hkey]
  rfl

theorem slash_mem_hopperSlug_iff : '/' ∈ hopperSlug casing p.tag ↔ '/' ∈ p.tag := by
  simp [hopperSlug_tag hp]

theorem eq_of_hopperSlug_eq (hq : q ∈ supported casing claims)
    (hslug : hopperSlug casing p.tag = hopperSlug casing q.tag) : p.tag = q.tag := by
  simpa [hopperSlug_tag hp, hopperSlug_tag hq] using hslug

theorem mem_planned_iff : p.tag ∈ planned casing claims ↔ p ∈ (supported casing claims).take SYNTHESIZE_CAP := by
  refine ⟨fun hmem ↦ ?_, List.mem_map_of_mem⟩
  obtain ⟨q, hq, htag⟩ := List.mem_map.mp hmem
  exact inj_on_of_nodup_map nodup_tags (mem_of_mem_take hq) hp htag ▸ hq

end

theorem exists_of_mem_planned (htag : tag ∈ planned casing claims) :
    ∃ p ∈ (supported casing claims).take SYNTHESIZE_CAP, p.tag = tag := List.mem_map.mp htag

theorem nodup_planned : (planned casing claims).Nodup :=
  nodup_tags.sublist ((take_sublist _ _).map ClaimPattern.tag)

/-! ### Runs -/

theorem writeNotes_spec (casing : Casing) (volume : Volume) (l : List Text) (r : JobRun) :
    ∃ done, done <+: l ∧ (∀ tag ∈ done, volume.takes (hopperSlug casing tag) = true) ∧
      ((∀ tag ∈ l, volume.takes (hopperSlug casing tag) = true) → done = l) ∧
      (writeNotes casing volume l r).2 = r.2 ++ done ∧
      (writeNotes casing volume l r).1.entries =
        r.1.entries ++ done.flatMap fun tag ↦ volume.entries (hopperSlug casing tag) := by
  induction l generalizing r with
  | nil => exact ⟨[], prefix_rfl, by simp, fun _ ↦ rfl, by simp [writeNotes], by simp [writeNotes]⟩
  | cons tag l ih =>
    rw [writeNotes]
    split_ifs with htakes
    · obtain ⟨done, hprefix, hdone, hall, hlog, hentries⟩ := ih (writeNote casing volume r tag)
      refine ⟨tag :: done, (prefix_cons_inj tag).mpr hprefix, by simpa [htakes] using hdone, fun h ↦ ?_, ?_, ?_⟩
      · rw [hall fun tag' htag' ↦ h tag' (mem_cons_of_mem _ htag')]
      · rw [hlog, writeNote, append_assoc, singleton_append]
      · rw [hentries, flatMap_cons, ← append_assoc]
        rfl
    · exact ⟨[], nil_prefix, by simp, fun h ↦ absurd (h tag mem_cons_self) htakes, by simp, by simp⟩

/-- After any number of runs the hopper has what it had, and what was proposed is of the plan, had no note and was
written. -/
theorem runs_spec (casing : Casing) (volume : Volume) (claims : List RegistryClaim) (h : Hopper) (n : ℕ) :
    h.entries ⊆ ((synthesizeSub casing volume claims)^[n] (h, [])).1.entries ∧
      ∀ tag ∈ ((synthesizeSub casing volume claims)^[n] (h, [])).2, tag ∈ planned casing claims ∧
        hopperSlug casing tag ∉ h.entries ∧ volume.takes (hopperSlug casing tag) = true := by
  induction n with
  | zero => exact ⟨Subset.refl _, nofun⟩
  | succ n ih =>
    rw [Function.iterate_succ_apply']
    obtain ⟨done, hprefix, hdone, -, hlog, hentries⟩ := writeNotes_spec casing volume
      (fresh casing claims ((synthesizeSub casing volume claims)^[n] (h, [])).1) _
    rw [synthesizeSub, hlog, hentries]
    refine ⟨subset_append_of_subset_left _ ih.1, fun tag htag ↦ ?_⟩
    rcases mem_append.mp htag with htag | htag
    · exact ih.2 tag htag
    · obtain ⟨hplanned, hnew⟩ := mem_filter.mp (IsPrefix.subset hprefix htag)
      exact ⟨hplanned, fun hmem ↦ of_decide_eq_true hnew (ih.1 hmem), hdone tag htag⟩

/-- **The patterns are all proposed, each once, exactly if those without a note are among the first five and have
tags that make file names.** -/
theorem carriedLaw_iff (casing : Casing) (volume : Volume) (claims : List RegistryClaim) (h : Hopper) :
    CarriedLaw casing volume claims h ↔ WithinReach casing volume claims h := by
  constructor
  · intro hlaw p hp
    by_cases hnote : hopperSlug casing p.tag ∈ h.entries
    · exact .inl hnote
    -- a pattern that is counted was written in a run
    have hwritten {q : ClaimPattern} (hq : q ∈ supported casing claims) (hnew : hopperSlug casing q.tag ∉ h.entries) :
        q.tag ∈ planned casing claims ∧ volume.takes (hopperSlug casing q.tag) = true := by
      obtain ⟨n, hn⟩ := hlaw.proposed q hq
      have hcount := hn n le_rfl
      rw [if_neg hnew] at hcount
      obtain ⟨hplanned, -, htakes⟩ := (runs_spec casing volume claims h n).2 q.tag
        (List.count_pos_iff.mp (hcount ▸ Nat.one_pos))
      exact ⟨hplanned, htakes⟩
    obtain ⟨hplanned, htakes⟩ := hwritten hp hnote
    refine .inr ⟨(mem_planned_iff hp).mp hplanned, fun hslash ↦ ?_, htakes⟩
    -- a name with a slash is in no directory, so that its pattern is written again
    obtain ⟨n, hn⟩ := hlaw.proposed p hp
    have hcount := hn n le_rfl
    have hcount' := hn (n + 1) (Nat.le_succ n)
    rw [Function.iterate_succ_apply'] at hcount'
    set r := (synthesizeSub casing volume claims)^[n] (h, []) with hr
    obtain ⟨done, -, -, hall, hlog, -⟩ := writeNotes_spec casing volume (fresh casing claims r.1) r
    have hdone : done = fresh casing claims r.1 := by
      refine hall fun tag htag ↦ ?_
      obtain ⟨hmem, hnew⟩ := List.mem_filter.mp htag
      obtain ⟨q, hq, rfl⟩ := exists_of_mem_planned hmem
      refine (hwritten (List.mem_of_mem_take hq) fun hmem ↦ of_decide_eq_true hnew ?_).2
      exact (runs_spec casing volume claims h n).1 hmem
    have hfresh : p.tag ∈ fresh casing claims r.1 := by
      refine List.mem_filter.mpr ⟨hplanned, decide_eq_true fun hmem ↦ ?_⟩
      exact r.1.plain _ hmem ((slash_mem_hopperSlug_iff hp).mpr hslash)
    rw [synthesizeSub, hlog, hdone, List.count_append, hcount] at hcount'
    have hpos := List.count_pos_iff.mpr hfresh
    omega
  · intro hreach
    have hnew {tag : Text} (htag : tag ∈ fresh casing claims h) : '/' ∉ hopperSlug casing tag ∧
        volume.takes (hopperSlug casing tag) = true := by
      obtain ⟨hmem, hnew⟩ := List.mem_filter.mp htag
      obtain ⟨p, hp, rfl⟩ := exists_of_mem_planned hmem
      obtain ⟨-, hslash, htakes⟩ := (hreach p (List.mem_of_mem_take hp)).resolve_left (of_decide_eq_true hnew)
      exact ⟨mt (slash_mem_hopperSlug_iff (List.mem_of_mem_take hp)).mp hslash, htakes⟩
    obtain ⟨done, -, -, hall, hlog, hentries⟩ := writeNotes_spec casing volume (fresh casing claims h) (h, [])
    obtain rfl := hall fun tag htag ↦ (hnew htag).2
    -- the first run writes every note that is missing, and the second finds them all
    set r := synthesizeSub casing volume claims (h, []) with hr
    have hfixed : synthesizeSub casing volume claims r = r := by
      have hnone : fresh casing claims r.1 = [] := by
        refine List.filter_eq_nil_iff.mpr fun tag htag ↦ ?_
        rw [decide_eq_true_eq, not_not, hr, synthesizeSub, hentries, List.mem_append, List.mem_flatMap]
        by_cases hnote : hopperSlug casing tag ∈ h.entries
        · exact .inl hnote
        · have hfresh : tag ∈ fresh casing claims h := List.mem_filter.mpr ⟨htag, decide_eq_true hnote⟩
          exact .inr ⟨tag, hfresh, by rw [volume.own _ (hnew hfresh).1]; exact List.mem_singleton_self _⟩
      rw [synthesizeSub, hnone, writeNotes]
    refine ⟨fun p hp ↦ ⟨1, fun m hm ↦ ?_⟩, fun p hp q hq hne name hname hname' ↦ ?_⟩
    · obtain ⟨k, rfl⟩ := Nat.exists_eq_add_of_le' hm
      rw [Function.iterate_succ_apply, ← hr, Function.iterate_fixed hfixed, hr, synthesizeSub, hlog, List.nil_append]
      split_ifs with hnote
      · exact List.count_eq_zero.mpr fun hmem ↦ of_decide_eq_true (List.mem_filter.mp hmem).2 hnote
      · have hplanned := (mem_planned_iff hp).mpr ((hreach p hp).resolve_left hnote).1
        exact List.count_eq_one_of_mem (nodup_planned.filter _) (List.mem_filter.mpr ⟨hplanned, decide_eq_true hnote⟩)
    · have hown {p : ClaimPattern} (hp : p ∈ supported casing claims) :
          volume.entries (hopperSlug casing p.tag) = [hopperSlug casing p.tag] := by
        refine volume.own _ ?_
        rcases hreach p hp with hnote | ⟨-, hslash, -⟩
        · exact h.plain _ hnote
        · exact mt (slash_mem_hopperSlug_iff hp).mp hslash
      rw [hown hp, List.mem_singleton] at hname
      rw [hown hq, List.mem_singleton] at hname'
      exact hne (eq_of_hopperSlug_eq hp hq (hname.symm.trans hname'))

end Proof

/-! ## Six tags -/

/-- Lower case, of texts in lower case. -/
def lowerCasing : Casing := ⟨id, trim_trim⟩

/-- A directory that takes every name without a slash. -/
def flatVolume : Volume where
  takes path := '/' ∉ path
  entries path := if '/' ∈ path then [] else [path]
  plain path name h := by
    split_ifs at h with hslash
    · cases h
    · rwa [List.mem_singleton.mp h]
  own path h := if_neg h

def sixTags : List RegistryClaim :=
  ["a.md", "b.md", "c.md"].map fun file ↦
    ⟨file.toList, "unverified", "fact".toList, ["t1", "t2", "t3", "t4", "t5", "t6"].map String.toList⟩

/-- The sixth pattern is never proposed. -/
theorem not_carriedLaw_sixTags : ¬ ∀ (casing : Casing) (volume : Volume) (claims : List RegistryClaim) (h : Hopper),
    CarriedLaw casing volume claims h := by
  intro h
  have hlaw := h lowerCasing flatVolume sixTags ⟨[], nofun⟩
  obtain ⟨p, hp, hnot⟩ : ∃ p ∈ supported lowerCasing sixTags, p.tag ∉ planned lowerCasing sixTags := by decide +kernel
  obtain ⟨n, hn⟩ := hlaw.proposed p hp
  have hcount := hn n le_rfl
  rw [if_neg List.not_mem_nil] at hcount
  exact hnot ((runs_spec _ _ _ _ n).2 p.tag (List.count_pos_iff.mp (hcount ▸ Nat.one_pos))).1

end Amicode.Curation
