import Mathlib.Data.List.Sort
import Amicode.Claims.Adoption
import Amicode.Foundation.StepMachine

/-!
# Adoptions over runs of the registry

Events come in, memory cards are projected into claims, claims are rewritten, the lifecycle pass merges them, and
sweeps stamp them, in any order. The log has every stamp that a sweep wrote.

An adoption is counted by looking into the trail of the claim, so the trail has to tell the truth. It does in a run
in which

* two accepted events never share a citation for a claim, as those of a problem do that have no number;
* a file whose claim was stamped is not projected again: the projection writes a new claim with an empty trail, over
  the old one or after the old one was merged away, and the next sweep stamps it for the same events;
* a claim takes in no citation of an event that names it too and was not stamped on it yet.

Then the log has each adoption once (`countedOnce_run`).
-/

open List

namespace Amicode.Claims

/-! ## Projections and rewrites -/

structure MemoryCard where
  cardRel : String
  cardType : String
  claimType : ClaimType
  description : String
  tags : List String

def memoryCardPointer (cardRel : String) : String := "memory-card/" ++ cardRel

def projectMemoryCard (card : MemoryCard) (projectedAt : String) : Claim where
  type := card.claimType
  statement := String.ofList (JsText.trim card.description.toList)
  status := .unverified
  confidence := .medium
  evidence := [memoryCardPointer card.cardRel]
  applied := 0
  last_applied := none
  history := [⟨projectedAt, .projected,
    s!"projected from memory card {card.cardRel} (card type: {card.cardType}) by amico claims project — the #1681 mechanical migration of the memory namespace into claims"⟩]
  scope := .personal
  tags := card.tags

/-- The note of a card: its name, with one extension. -/
def claimFileBasename (cardRel : String) : String :=
  if ".md".toList.isSuffixOf cardRel.toList then cardRel else cardRel ++ ".md"

/-- A new text of a claim. The counter stays, and the trail is only added to. -/
structure Revision where
  type : ClaimType
  statement : String
  status : ClaimStatus
  confidence : ClaimConfidence
  evidence : List String
  scope : ClaimScope
  tags : List String
  entries : List HistoryEntry
  not_applied : ∀ h ∈ entries, h.event ≠ .applied

def Revision.rewrite (revision : Revision) (claim : Claim) : Claim where
  type := revision.type
  statement := revision.statement
  status := revision.status
  confidence := revision.confidence
  evidence := revision.evidence
  applied := claim.applied
  last_applied := claim.last_applied
  history := claim.history ++ revision.entries
  scope := revision.scope
  tags := revision.tags

/-- Notes are listed by their names. -/
def fileLe (a b : RegistryClaim) : Prop := JsText.le a.file.toList b.file.toList = true

instance : DecidableRel fileLe := fun a b ↦ inferInstanceAs (Decidable (JsText.le a.file.toList b.file.toList = true))

/-- A claim is written to its file, over the one that may be there. -/
def Registry.write (r : Registry) (file : String) (claim : Claim) : Registry :=
  if h : file ∈ r.claims.map (·.file) then r.update file fun _ ↦ claim
  else
    { claims := r.claims.orderedInsert fileLe ⟨file, claim⟩
      nodup_files := by
        have hperm := (List.perm_orderedInsert fileLe ⟨file, claim⟩ r.claims).map (·.file)
        exact hperm.nodup_iff.2 (List.nodup_cons.2 ⟨h, r.nodup_files⟩) }

def Registry.lifecycle (r : Registry) (o : LifecycleOpts) (signals : List ContradictionSignal) : Registry :=
  ⟨(runLifecyclePass o r.claims signals).claims, nodup_runLifecyclePass o r signals⟩

def slugLe (a b : Problem) : Prop := JsText.le a.slug.text.toList b.slug.text.toList = true

instance : DecidableRel slugLe := fun a b ↦
  inferInstanceAs (Decidable (JsText.le a.slug.text.toList b.slug.text.toList = true))

/-- An event is appended to the stream of its problem, which may be a new one. -/
def recordEvent (problems : List Problem) (slug : Slug) (event : StreamEvent) : List Problem :=
  if slug ∈ problems.map (·.slug) then
    problems.map fun p ↦ if p.slug = slug then { p with events := p.events ++ [event] } else p
  else problems.orderedInsert slugLe ⟨slug, [event]⟩

/-! ## Runs -/

structure RunState where
  registry : Registry
  problems : List Problem
  /-- The file and the citation of every stamp that a sweep wrote. -/
  log : List (String × String)

def RunState.init : RunState := ⟨⟨[], List.nodup_nil⟩, [], []⟩

inductive Op
  | record (slug : Slug) (event : StreamEvent)
  | project (card : MemoryCard) (projectedAt : String)
  | rewrite (file : String) (revision : Revision)
  | lifecycle (o : LifecycleOpts) (signals : List ContradictionSignal)
  | sweep (stampedAt : String)

def step (s : RunState) : Op → RunState
  | .record slug event => { s with problems := recordEvent s.problems slug event }
  | .project card projectedAt =>
    { s with registry := s.registry.write (claimFileBasename card.cardRel) (projectMemoryCard card projectedAt) }
  | .rewrite file revision => { s with registry := s.registry.update file revision.rewrite }
  | .lifecycle o signals => { s with registry := s.registry.lifecycle o signals }
  | .sweep stampedAt =>
    { s with
      registry := (sweep stampedAt s.problems (s.registry, s.log)).1
      log := (sweep stampedAt s.problems (s.registry, s.log)).2 }

abbrev marked (c : RegistryClaim) (ref : String) : Bool := isStamped c.claim ⟨.recommendOutcome, ref, none⟩

/-- The operation leaves the trails telling which adoptions were counted. -/
def Careful (s : RunState) : Op → Prop
  | .record slug event =>
    ((adoptions (recordEvent s.problems slug event)).map pairKey).Nodup ∧
      ∀ pair ∈ adoptions (recordEvent s.problems slug event), pair ∉ adoptions s.problems →
        ∀ c ∈ s.registry.claims, c.file = pair.1 → marked c pair.2 = false
  | .project card _ => ∀ pair ∈ s.log, pair.1 ≠ claimFileBasename card.cardRel
  | .lifecycle o _ =>
    ∀ pair ∈ adoptions s.problems, ∀ c ∈ s.registry.claims, c.file = pair.1 → ∀ e ∈ s.registry.claims,
      carrier (dedupe o s.registry.claims.length s.registry.claims).2 e.file = c.file →
        marked e pair.2 = true → marked c pair.2 = true
  | .rewrite .. | .sweep .. => True

instance (s : RunState) : (op : Op) → Decidable (Careful s op)
  | .record .. => inferInstanceAs (Decidable (_ ∧ ∀ _ ∈ _, _ → ∀ _ ∈ _, _ → _))
  | .project .. => inferInstanceAs (Decidable (∀ _ ∈ _, _))
  | .lifecycle .. => inferInstanceAs (Decidable (∀ _ ∈ _, ∀ _ ∈ _, _ → ∀ _ ∈ _, _ → _ → _))
  | .rewrite .. => .isTrue trivial
  | .sweep .. => .isTrue trivial

/-- The counter of a claim counts the applied entries of its trail. -/
def Counted (c : RegistryClaim) : Prop :=
  c.claim.applied = c.claim.history.countP fun h ↦ h.event = .applied

/-- No adoption is counted twice, and the counters are the trails'. -/
structure CountedOnce (s : RunState) : Prop where
  once : ∀ pair, s.log.count pair ≤ (adoptions s.problems).count pair
  counter : ∀ c ∈ s.registry.claims, Counted c

/-- The adoptions of every claim are counted, and there is nothing to sweep. -/
structure Settled (s : RunState) : Prop where
  all : ∀ pair ∈ adoptions s.problems, (∃ c ∈ s.registry.claims, c.file = pair.1) →
    s.log.count pair = (adoptions s.problems).count pair
  replan : (planAdoptionSweep s.problems s.registry.claims).stamps = []

/-! ## What holds along careful runs -/

structure Sound (s : RunState) : Prop where
  keys : ((adoptions s.problems).map pairKey).Nodup
  log_nodup : s.log.Nodup
  log_sub : ∀ pair ∈ s.log, pair ∈ adoptions s.problems
  /-- What was stamped on a claim is in its trail. -/
  carried : ∀ pair ∈ s.log, ∀ c ∈ s.registry.claims, c.file = pair.1 → marked c pair.2 = true
  /-- What is in the trail of a claim that its event names was stamped on it. -/
  logged : ∀ pair ∈ adoptions s.problems, ∀ c ∈ s.registry.claims, c.file = pair.1 → marked c pair.2 = true →
    pair ∈ s.log
  counted : ∀ c ∈ s.registry.claims, Counted c

theorem Sound.init : Sound .init where
  keys := nodup_nil
  log_nodup := nodup_nil
  log_sub := fun _ h ↦ h
  carried := fun _ h ↦ absurd h not_mem_nil
  logged := fun _ h ↦ absurd h not_mem_nil
  counted := fun _ h ↦ absurd h not_mem_nil

variable {s : RunState}

theorem Sound.countedOnce (h : Sound s) : CountedOnce s := by
  refine ⟨fun pair ↦ ?_, h.counted⟩
  by_cases hp : pair ∈ s.log
  · rw [count_eq_one_of_mem h.log_nodup hp]
    exact count_pos_iff.2 (h.log_sub pair hp)
  · rw [count_eq_zero_of_not_mem hp]
    exact Nat.zero_le _

/-! ## Trails that are added to -/

theorem isStamped_mono {before after : Claim} {citation : AdoptionCitation}
    (hsub : before.history.Sublist after.history) (h : isStamped before citation = true) :
    isStamped after citation = true := by
  obtain ⟨entry, hmem, hentry⟩ := List.any_eq_true.1 h
  exact List.any_eq_true.2 ⟨entry, hsub.subset hmem, hentry⟩

/-- Entries that are not applied ones neither mark a claim nor count. -/
theorem isStamped_append {before after : Claim} {citation : AdoptionCitation} {extra : List HistoryEntry}
    (hhist : after.history = before.history ++ extra) (hextra : ∀ h ∈ extra, h.event ≠ .applied) :
    isStamped after citation = isStamped before citation := by
  have hnone : extra.any (fun h ↦ h.event = .applied &&
      (h.note = citation.base || (citation.base ++ " — ").toList.isPrefixOf h.note.toList)) = false := by
    refine List.any_eq_false.2 fun h hh ↦ ?_
    simp [hextra h hh]
  rw [isStamped, hhist, any_append, hnone, Bool.or_false, isStamped]

theorem countP_append {before extra : List HistoryEntry} (hextra : ∀ h ∈ extra, h.event ≠ .applied) :
    (before ++ extra).countP (fun h ↦ h.event = .applied) = before.countP fun h ↦ h.event = .applied := by
  have hnone : extra.countP (fun h ↦ h.event = .applied) = 0 := by
    refine countP_eq_zero.2 fun h hh ↦ ?_
    simpa using hextra h hh
  rw [List.countP_append, hnone, Nat.add_zero]

/-! ## Recording -/

theorem acceptedPairs_append (slug : Slug) (proposed : Proposed) (events later : List StreamEvent) :
    ∃ more, acceptedPairs slug proposed (events ++ later) = acceptedPairs slug proposed events ++ more := by
  induction events generalizing proposed with
  | nil => exact ⟨_, rfl⟩
  | cons event rest ih =>
    rw [cons_append, acceptedPairs, acceptedPairs]
    split
    · exact ih _
    · split
      · obtain ⟨more, hmore⟩ := ih (propose proposed event)
        exact ⟨more, by rw [hmore, append_assoc]⟩
      · exact ih _

variable {pair : String × String}

theorem adoptions_recordEvent {problems : List Problem} (slug : Slug) (event : StreamEvent)
    (h : pair ∈ adoptions problems) : pair ∈ adoptions (recordEvent problems slug event) := by
  obtain ⟨problem, hproblem, hpair⟩ := mem_flatMap.1 h
  rw [recordEvent]
  split
  · by_cases hslug : problem.slug = slug
    · obtain ⟨more, hmore⟩ := acceptedPairs_append problem.slug InsertionMap.empty problem.events [event]
      refine mem_flatMap.2 ⟨_, List.mem_map.2 ⟨problem, hproblem, if_pos hslug⟩, ?_⟩
      rw [hmore]
      exact mem_append_left _ hpair
    · exact mem_flatMap.2 ⟨problem, List.mem_map.2 ⟨problem, hproblem, if_neg hslug⟩, hpair⟩
  · exact mem_flatMap.2 ⟨problem, (mem_orderedInsert _).2 (.inr hproblem), hpair⟩

theorem Sound.record {slug : Slug} {event : StreamEvent} (h : Sound s)
    (hcare : Careful s (.record slug event)) : Sound (step s (.record slug event)) where
  keys := hcare.1
  log_nodup := h.log_nodup
  log_sub := fun pair hp ↦ adoptions_recordEvent slug event (h.log_sub pair hp)
  carried := h.carried
  logged := fun pair hp c hc hfile hmarked ↦ by
    by_cases hold : pair ∈ adoptions s.problems
    · exact h.logged pair hold c hc hfile hmarked
    · have hfresh := hcare.2 pair hp hold c hc hfile
      rw [hfresh] at hmarked
      cases hmarked
  counted := h.counted

/-! ## Projecting and rewriting -/

theorem mem_write {r : Registry} {file : String} {claim : Claim} {x : RegistryClaim}
    (h : x ∈ (r.write file claim).claims) : x = ⟨file, claim⟩ ∨ x ∈ r.claims ∧ x.file ≠ file := by
  rw [Registry.write] at h
  split at h
  · obtain ⟨c, hc, rfl⟩ := List.mem_map.1 h
    split
    · next hfile => exact .inl (hfile ▸ rfl)
    · next hfile => exact .inr ⟨hc, hfile⟩
  · next hnew =>
    obtain rfl | hx := (mem_orderedInsert _).1 h
    · exact .inl rfl
    · exact .inr ⟨hx, fun hf ↦ hnew (List.mem_map.2 ⟨x, hx, hf⟩)⟩

theorem Sound.project {card : MemoryCard} {projectedAt : String} (h : Sound s)
    (hcare : Careful s (.project card projectedAt)) : Sound (step s (.project card projectedAt)) where
  keys := h.keys
  log_nodup := h.log_nodup
  log_sub := h.log_sub
  carried := fun pair hp c hc hfile ↦ by
    obtain rfl | ⟨hc, -⟩ := mem_write hc
    · exact absurd hfile.symm (hcare pair hp)
    · exact h.carried pair hp c hc hfile
  logged := fun pair hp c hc hfile hmarked ↦ by
    obtain rfl | ⟨hc, -⟩ := mem_write hc
    · cases hmarked
    · exact h.logged pair hp c hc hfile hmarked
  counted := fun c hc ↦ by
    obtain rfl | ⟨hc, -⟩ := mem_write hc
    · rfl
    · exact h.counted c hc

theorem mem_rewrite {r : Registry} {file : String} {revision : Revision} {x : RegistryClaim}
    (h : x ∈ (r.update file revision.rewrite).claims) :
    ∃ c ∈ r.claims, c.file = x.file ∧ (∀ ref, marked x ref = marked c ref) ∧ (Counted c → Counted x) := by
  obtain ⟨c, hc, rfl⟩ := List.mem_map.1 h
  refine ⟨c, hc, ?_⟩
  split
  · refine ⟨rfl, fun ref ↦ isStamped_append rfl revision.not_applied, fun hcount ↦ ?_⟩
    exact hcount.trans (countP_append revision.not_applied).symm
  · exact ⟨rfl, fun _ ↦ rfl, id⟩

theorem Sound.rewrite (file : String) (revision : Revision) (h : Sound s) :
    Sound (step s (.rewrite file revision)) where
  keys := h.keys
  log_nodup := h.log_nodup
  log_sub := h.log_sub
  carried := fun pair hp x hx hfile ↦ by
    obtain ⟨c, hc, hcx, hmark, -⟩ := mem_rewrite hx
    rw [hmark]
    exact h.carried pair hp c hc (hcx.trans hfile)
  logged := fun pair hp x hx hfile hmarked ↦ by
    obtain ⟨c, hc, hcx, hmark, -⟩ := mem_rewrite hx
    rw [hmark] at hmarked
    exact h.logged pair hp c hc (hcx.trans hfile) hmarked
  counted := fun x hx ↦ by
    obtain ⟨c, hc, -, -, hcount⟩ := mem_rewrite hx
    exact hcount (h.counted c hc)

/-! ## Merging -/

section Lifecycle

variable {o : LifecycleOpts} {claims : List RegistryClaim} {c d : RegistryClaim}

theorem dedupe_own (rounds : ℕ) (hn : (claims.map (·.file)).Nodup) :
    ∀ d ∈ (dedupe o rounds claims).1, ∃ c ∈ claims, c.file = d.file ∧
      c.claim.history.Sublist d.claim.history := by
  refine dedupe_file (R := fun c d ↦ c.history.Sublist d.history) ?_ ?_ rounds hn
  · exact fun c ↦ Sublist.refl _
  · exact fun survivor duplicate d h ↦
      (sublist_append_left _ _).trans ((sublist_append_left _ _).trans h)

theorem counted_mergeInto {survivor duplicate : RegistryClaim} (hs : Counted survivor) (hd : Counted duplicate) :
    Counted (mergeInto o survivor duplicate) := by
  rw [Counted] at hs hd ⊢
  simp only [mergeInto, List.countP_append, hs, hd]
  rfl

theorem dedupe_counted (rounds : ℕ) (hn : (claims.map (·.file)).Nodup) (h : ∀ c ∈ claims, Counted c) :
    ∀ d ∈ (dedupe o rounds claims).1, Counted d := by
  refine dedupe_rec (motive := fun claims rest _ ↦ (∀ c ∈ claims, Counted c) → ∀ d ∈ rest, Counted d)
    (fun _ h ↦ h) ?_ rounds claims hn h
  intro claims survivor duplicate m rest merges hn hs hd hne _ _ ih h
  refine ih fun c hc ↦ ?_
  obtain rfl | ⟨hc, -⟩ := (mem_mergePair hs hne).1 hc
  · exact counted_mergeInto (h survivor hs) (h duplicate hd)
  · exact h c hc

theorem Followed.extra (h : Followed c d) : d.claim.applied = c.claim.applied ∧
    ∃ extra, d.claim.history = c.claim.history ++ extra ∧ ∀ h ∈ extra, h.event ≠ .applied := by
  refine ⟨congrArg (·.claim.applied) h.bare_eq, ?_⟩
  obtain rfl | ⟨-, extra, hextra, hall, -⟩ := h
  · exact ⟨[], (append_nil _).symm, fun _ h ↦ absurd h not_mem_nil⟩
  · refine ⟨extra, hextra, fun entry hentry happlied ↦ ?_⟩
    have hbears := hall entry hentry
    rw [happlied] at hbears
    cases hbears

theorem Followed.marked (h : Followed c d) (ref : String) : Claims.marked d ref = Claims.marked c ref := by
  obtain ⟨-, extra, hextra, hall⟩ := h.extra
  exact isStamped_append hextra hall

theorem Followed.counted (h : Followed c d) (hc : Counted c) : Counted d := by
  obtain ⟨happlied, extra, hextra, hall⟩ := h.extra
  rw [Counted, happlied, hextra, countP_append hall]
  exact hc

variable {r : Registry} {signals : List ContradictionSignal}

theorem marked_lifecycle (hd : d ∈ (r.lifecycle o signals).claims) :
    ∃ c ∈ r.claims, c.file = d.file ∧ ∀ ref, marked c ref = true → marked d ref = true := by
  obtain ⟨c', hc', hfollow⟩ := (exists_followed_pass o r.claims signals).2 d hd
  obtain ⟨c, hc, hfile, hsub⟩ := dedupe_own _ r.nodup_files c' hc'
  refine ⟨c, hc, hfile.trans (congrArg RegistryClaim.file hfollow.bare_eq).symm, fun ref hmark ↦ ?_⟩
  rw [hfollow.marked]
  exact isStamped_mono hsub hmark

theorem exists_marked_of_lifecycle (hd : d ∈ (r.lifecycle o signals).claims) {ref : String}
    (hmark : marked d ref = true) :
    ∃ e ∈ r.claims, carrier (dedupe o r.claims.length r.claims).2 e.file = d.file ∧ marked e ref = true := by
  obtain ⟨c', hc', hfollow⟩ := (exists_followed_pass o r.claims signals).2 d hd
  rw [hfollow.marked] at hmark
  obtain ⟨entry, hentry, hnote⟩ := List.any_eq_true.1 hmark
  have hevent : entry.event ≠ .merged := fun h ↦ by simp [h] at hnote
  obtain ⟨e, he, hcar, hmem⟩ := dedupe_history _ r.nodup_files c' hc' entry hentry hevent
  exact ⟨e, he, hcar.trans (congrArg RegistryClaim.file hfollow.bare_eq).symm,
    List.any_eq_true.2 ⟨entry, hmem, hnote⟩⟩

theorem Sound.lifecycle {s : RunState} (h : Sound s) (hcare : Careful s (.lifecycle o signals)) :
    Sound (step s (.lifecycle o signals)) where
  keys := h.keys
  log_nodup := h.log_nodup
  log_sub := h.log_sub
  carried := fun pair hp d hd hfile ↦ by
    obtain ⟨c, hc, hcd, hmark⟩ := marked_lifecycle hd
    exact hmark _ (h.carried pair hp c hc (hcd.trans hfile))
  logged := fun pair hp d hd hfile hmarked ↦ by
    obtain ⟨c, hc, hcd, -⟩ := marked_lifecycle hd
    obtain ⟨e, he, hcar, hmark⟩ := exists_marked_of_lifecycle hd hmarked
    have hfile' := hcd.trans hfile
    exact h.logged pair hp c hc hfile' (hcare pair hp c hc hfile' e he (hcar.trans hcd.symm) hmark)
  counted := fun d hd ↦ by
    obtain ⟨c', hc', hfollow⟩ := (exists_followed_pass o s.registry.claims signals).2 d hd
    exact hfollow.counted (dedupe_counted _ s.registry.nodup_files h.counted c' hc')

end Lifecycle

/-! ## Sweeping -/

def stampClaim (stampedAt : String) (pair : String × String) (c : RegistryClaim) : RegistryClaim :=
  if c.file = pair.1 then
    { c with claim := (stampAdoption c.claim (stampOf pair).citation stampedAt).claim }
  else c

section Sweep

variable {stampedAt : String} {pair : String × String} {c : RegistryClaim}

@[simp] theorem stampClaim_file : (stampClaim stampedAt pair c).file = c.file := by
  rw [stampClaim]
  split <;> rfl

theorem marked_stampClaim (hpair : IsCitation pair.2) {ref : String} (href : IsCitation ref) :
    marked (stampClaim stampedAt pair c) ref = true ↔ marked c ref = true ∨ (c.file, ref) = pair := by
  rw [stampClaim]
  split
  · next hfile =>
    have hiff : (c.file, ref) = pair ↔ pair.2 = ref := by
      rw [hfile, Prod.ext_iff]
      exact ⟨fun h ↦ h.2.symm, fun h ↦ ⟨rfl, h.symm⟩⟩
    rw [hiff, marked, stampAdoption]
    split
    · next hstamped =>
      refine (or_iff_left_of_imp ?_).symm
      rintro rfl
      exact hstamped
    · exact isStamped_concat href hpair rfl _ _
  · next hfile =>
    refine (or_iff_left_of_imp ?_).symm
    rintro rfl
    exact absurd rfl hfile

theorem counted_stampClaim (h : Counted c) : Counted (stampClaim stampedAt pair c) := by
  rw [stampClaim]
  split
  · rw [stampAdoption]
    split
    · exact h
    · rw [Counted] at h ⊢
      simp only [List.countP_append, h]
      rfl
  · exact h

theorem due_iff {claims : List RegistryClaim} :
    due claims pair = true ↔
      ∃ c, claims.find? (·.file = pair.1) = some c ∧ marked c pair.2 = false := by
  rw [due]
  split
  · next hnone => simp [hnone]
  · next c hc => simp [hc]

variable (stampedAt)

theorem applyStamp_of_due {s : Registry × List (String × String)} (h : due s.1.claims pair = true) :
    (applyStamp stampedAt s (stampOf pair)).1.claims = s.1.claims.map (stampClaim stampedAt pair) ∧
      (applyStamp stampedAt s (stampOf pair)).2 = s.2 ++ [pair] := by
  obtain ⟨c, hc, hmark⟩ := due_iff.1 h
  have hstamped : (stampAdoption c.claim (stampOf pair).citation stampedAt).stamped = true := by
    rw [stampAdoption, if_neg]
    exact Bool.eq_false_iff.1 hmark
  have hfind : s.1.claims.find? (·.file = (stampOf pair).file) = some c := hc
  rw [applyStamp]
  simp only [hfind, if_pos hstamped]
  exact ⟨rfl, rfl⟩

theorem foldl_applyStamp (pairs : List (String × String)) (s : Registry × List (String × String))
    (hn : pairs.Nodup) (hcit : ∀ pair ∈ pairs, IsCitation pair.2)
    (hdue : ∀ pair ∈ pairs, due s.1.claims pair = true) :
    ((pairs.map stampOf).foldl (applyStamp stampedAt) s).2 = s.2 ++ pairs ∧ ∃ g : RegistryClaim → RegistryClaim,
        ((pairs.map stampOf).foldl (applyStamp stampedAt) s).1.claims = s.1.claims.map g ∧
          ∀ c, (g c).file = c.file ∧ (Counted c → Counted (g c)) ∧ ∀ ref, IsCitation ref →
            (marked (g c) ref = true ↔ marked c ref = true ∨ (c.file, ref) ∈ pairs) := by
  induction pairs generalizing s with
  | nil => exact ⟨(append_nil _).symm, id, (List.map_id _).symm, fun c ↦ ⟨rfl, id, by simp⟩⟩
  | cons pair rest ih =>
    obtain ⟨hpair, hrest⟩ := nodup_cons.1 hn
    have hcit₀ := hcit pair mem_cons_self
    obtain ⟨hclaims, hlog⟩ := applyStamp_of_due stampedAt (hdue pair mem_cons_self)
    -- the stamp of one pair leaves the others due
    have hdue' : ∀ q ∈ rest, due (applyStamp stampedAt s (stampOf pair)).1.claims q = true := by
      intro q hq
      obtain ⟨c, hc, hmark⟩ := due_iff.1 (hdue q (mem_cons_of_mem _ hq))
      refine due_iff.2 ⟨stampClaim stampedAt pair c, ?_, ?_⟩
      · rw [hclaims, find?_map]
        have hcomp : (fun c : RegistryClaim ↦ decide (c.file = q.1)) ∘ stampClaim stampedAt pair =
            fun c ↦ decide (c.file = q.1) := by
          funext c
          simp
        rw [hcomp, hc, Option.map_some]
      · refine Bool.eq_false_iff.2 fun h ↦ ?_
        obtain h | h := (marked_stampClaim hcit₀ (hcit q (mem_cons_of_mem _ hq))).1 h
        · rw [hmark] at h
          cases h
        · exact hpair (h ▸ find_file_eq hc ▸ hq)
    obtain ⟨hlog', g, hg, hspec⟩ := ih (applyStamp stampedAt s (stampOf pair)) hrest
      (fun q hq ↦ hcit q (mem_cons_of_mem _ hq)) hdue'
    rw [map_cons, foldl_cons]
    refine ⟨?_, fun c ↦ g (stampClaim stampedAt pair c), ?_, fun c ↦ ?_⟩
    · rw [hlog', hlog, append_assoc]
      rfl
    · rw [hg, hclaims, List.map_map]
      rfl
    · obtain ⟨hfile, hcount, hmark⟩ := hspec (stampClaim stampedAt pair c)
      refine ⟨hfile.trans stampClaim_file, fun h ↦ hcount (counted_stampClaim h), fun ref href ↦ ?_⟩
      rw [hmark ref href, marked_stampClaim hcit₀ href, stampClaim_file, mem_cons, or_assoc]

end Sweep

variable {s : RunState}

theorem nodup_adoptions (h : Sound s) : (adoptions s.problems).Nodup := h.keys.of_map _

theorem Sound.sweep_eq (h : Sound s) (stampedAt : String) :
    (step s (.sweep stampedAt)).log =
        s.log ++ (adoptions s.problems).filter (due s.registry.claims) ∧
      ∃ g : RegistryClaim → RegistryClaim,
        (step s (.sweep stampedAt)).registry.claims = s.registry.claims.map g ∧
          ∀ c, (g c).file = c.file ∧ (Counted c → Counted (g c)) ∧ ∀ ref, IsCitation ref →
            (marked (g c) ref = true ↔
              marked c ref = true ∨ (c.file, ref) ∈ (adoptions s.problems).filter (due s.registry.claims)) := by
  have hfold := foldl_applyStamp stampedAt ((adoptions s.problems).filter (due s.registry.claims))
    (s.registry, s.log) ((nodup_adoptions h).filter _)
    (fun pair hp ↦ isCitation_of_mem_adoptions (mem_filter.1 hp).1) fun pair hp ↦ (mem_filter.1 hp).2
  rw [← plan_stamps s.problems h.keys] at hfold
  exact hfold

theorem Sound.due_or_mem_log (h : Sound s)
    (hpair : pair ∈ adoptions s.problems) {c : RegistryClaim} (hc : c ∈ s.registry.claims)
    (hfile : c.file = pair.1) : due s.registry.claims pair = true ∨ pair ∈ s.log := by
  by_cases hmark : marked c pair.2 = true
  · exact .inr (h.logged pair hpair c hc hfile hmark)
  · refine .inl (due_iff.2 ⟨c, ?_, eq_false_of_ne_true hmark⟩)
    have hsome : (s.registry.claims.find? (·.file = pair.1)).isSome :=
      find?_isSome.2 ⟨c, hc, by simpa using hfile⟩
    obtain ⟨c', hc'⟩ := Option.isSome_iff_exists.1 hsome
    have hsame := eq_of_file_eq s.registry.nodup_files (mem_of_find?_eq_some hc') hc
      ((find_file_eq hc').trans hfile.symm)
    rw [hc', hsame]

theorem Sound.not_due (h : Sound s) (hlog : pair ∈ s.log) : due s.registry.claims pair = false := by
  refine Bool.eq_false_iff.2 fun hdue ↦ ?_
  obtain ⟨c, hc, hmark⟩ := due_iff.1 hdue
  have hcarried := h.carried pair hlog c (mem_of_find?_eq_some hc) (find_file_eq hc)
  rw [hmark] at hcarried
  cases hcarried

theorem Sound.sweep (h : Sound s) (stampedAt : String) : Sound (step s (.sweep stampedAt)) := by
  obtain ⟨hlog, g, hg, hspec⟩ := h.sweep_eq stampedAt
  have hmem : ∀ x ∈ (step s (.sweep stampedAt)).registry.claims, ∃ c ∈ s.registry.claims, g c = x := fun x hx ↦
    List.mem_map.1 (hg ▸ hx)
  refine ⟨h.keys, ?_, fun pair hp ↦ ?_, fun pair hp x hx hfile ↦ ?_, fun pair hp x hx hfile hmarked ↦ ?_, ?_⟩
  · rw [hlog]
    refine h.log_nodup.append ((nodup_adoptions h).filter _) fun pair hold hnew ↦ ?_
    have hdue := (mem_filter.1 hnew).2
    rw [h.not_due hold] at hdue
    cases hdue
  · obtain hold | hnew := mem_append.1 (hlog ▸ hp)
    · exact h.log_sub pair hold
    · exact (mem_filter.1 hnew).1
  · obtain ⟨c, hc, rfl⟩ := hmem x hx
    obtain ⟨hcf, -, hmark⟩ := hspec c
    obtain hold | hnew := mem_append.1 (hlog ▸ hp)
    · have hcit := isCitation_of_mem_adoptions (h.log_sub pair hold)
      exact (hmark _ hcit).2 (.inl (h.carried pair hold c hc (hcf ▸ hfile)))
    · have hcit := isCitation_of_mem_adoptions (mem_filter.1 hnew).1
      have hpair : (c.file, pair.2) = pair := Prod.ext (hcf ▸ hfile) rfl
      exact (hmark _ hcit).2 (.inr (hpair ▸ hnew))
  · obtain ⟨c, hc, rfl⟩ := hmem x hx
    obtain ⟨hcf, -, hmark⟩ := hspec c
    have hpair : (c.file, pair.2) = pair := Prod.ext (hcf ▸ hfile) rfl
    refine hlog ▸ mem_append.2 ?_
    obtain hold | hnew := (hmark _ (isCitation_of_mem_adoptions hp)).1 hmarked
    · exact .inl (h.logged pair hp c hc (hcf ▸ hfile) hold)
    · exact .inr (hpair ▸ hnew)
  · intro x hx
    obtain ⟨c, hc, rfl⟩ := hmem x hx
    exact (hspec c).2.1 (h.counted c hc)

/-! ## Runs -/

theorem Sound.step (op : Op) (h : Sound s) (hcare : Careful s op) : Sound (Claims.step s op) :=
  match op with
  | .record .. => h.record hcare
  | .project .. => h.project hcare
  | .rewrite file revision => h.rewrite file revision
  | .lifecycle .. => h.lifecycle hcare
  | .sweep stampedAt => h.sweep stampedAt

theorem Sound.settled (h : Sound s) (stampedAt : String) :
    Settled (Claims.step s (.sweep stampedAt)) := by
  have h' := h.sweep stampedAt
  obtain ⟨hlog, g, hg, hspec⟩ := h.sweep_eq stampedAt
  have hstamped : ∀ pair ∈ adoptions s.problems,
      (∃ x ∈ (Claims.step s (.sweep stampedAt)).registry.claims, x.file = pair.1) →
        pair ∈ (Claims.step s (.sweep stampedAt)).log := by
    rintro pair hp ⟨x, hx, hfile⟩
    obtain ⟨c, hc, rfl⟩ := List.mem_map.1 (hg ▸ hx)
    rw [hlog]
    obtain hdue | hold := h.due_or_mem_log hp hc ((hspec c).1 ▸ hfile)
    · exact mem_append_right _ (mem_filter.2 ⟨hp, hdue⟩)
    · exact mem_append_left _ hold
  refine ⟨fun pair hp hclaim ↦ ?_, ?_⟩
  · rw [count_eq_one_of_mem h'.log_nodup (hstamped pair hp hclaim)]
    exact (count_eq_one_of_mem (nodup_adoptions h') hp).symm
  · have hnone : (adoptions s.problems).filter
        (due (Claims.step s (.sweep stampedAt)).registry.claims) = [] := by
      refine filter_eq_nil_iff.2 fun pair hp hdue ↦ ?_
      obtain ⟨x, hx, -⟩ := due_iff.1 hdue
      have hmem := hstamped pair hp ⟨x, mem_of_find?_eq_some hx, find_file_eq hx⟩
      rw [h'.not_due hmem] at hdue
      cases hdue
    exact (plan_stamps s.problems h.keys).trans (congrArg (List.map stampOf) hnone)

/-- Along a careful run no adoption is counted twice, and after a sweep every adoption is counted once and there is
nothing to sweep. -/
theorem countedOnce_run (ops : List Op) (h : StepMachine.Guarded step Careful .init ops) :
    CountedOnce (StepMachine.run step .init ops) ∧
      ∀ stampedAt, Settled (step (StepMachine.run step .init ops) (.sweep stampedAt)) := by
  have hsound := StepMachine.invariant_run_of_guarded (I := Sound) (fun _ op hs hc ↦ hs.step op hc) .init h
  exact ⟨hsound.countedOnce, hsound.settled⟩

/-! ## An adoption that is counted again -/

def warmCard (cardRel : String) : MemoryCard where
  cardRel := cardRel
  cardType := "insight"
  claimType := .insight
  description := "warm starts win"
  tags := []

def problemP : Slug := ⟨"p", by decide⟩

/-- A proposal that refers to the card of July, and its acceptance. -/
def proposeJuly : StreamEvent := ⟨some ⟨"1", by decide⟩, some "recommendation", some "proposed", some "model/N",
  [some "memory-card/july.md"], none⟩

def acceptJuly : StreamEvent := ⟨some ⟨"2", by decide⟩, some "recommendation", some "outcome", some "model/N", [],
  some "accepted"⟩

/-- Two cards of one statement are projected, the younger one is adopted, and a sweep stamps it. -/
def adoptJuly : List Op :=
  [.project (warmCard "june.md") "2026-06-01T00:00:00.000Z", .project (warmCard "july.md") "2026-07-01T00:00:00.000Z",
   .record problemP proposeJuly, .record problemP acceptJuly, .sweep "2026-10-02T12:00:00.000Z"]

theorem countedOnce_run_adoptJuly :
    CountedOnce (StepMachine.run step .init adoptJuly) ∧
      ∀ stampedAt, Settled (step (StepMachine.run step .init adoptJuly) (.sweep stampedAt)) :=
  countedOnce_run adoptJuly (by decide +kernel)

/-- The claim of July is merged into that of June, its card is projected again, and the next sweep stamps the new
claim for the event that June was stamped for with the old one. -/
theorem not_countedOnce_projectedAgain :
    ¬ ∀ ops, CountedOnce (StepMachine.run step .init ops) ∧
      ∀ stampedAt, Settled (step (StepMachine.run step .init ops) (.sweep stampedAt)) := by
  intro h
  have hlog := (h (adoptJuly ++ [.lifecycle october [], .project (warmCard "july.md") "2026-07-01T00:00:00.000Z",
    .sweep "2026-10-03T12:00:00.000Z"])).1.once ("july.md", "p/2")
  revert hlog
  decide +kernel

end Amicode.Claims
