import Amicode.Claims.Conservation
import Amicode.Foundation.InsertionMap

/-!
# The adoption sweep

A problem has a stream of events. An accepted recommendation adopts the claims that its proposal refers to, and a
sweep (`planAdoptionSweep` and the loop of `sweepSub`) stamps each of them: its counter goes up by one, and an
`applied` entry with the event's citation joins its trail. Whether an event was counted for a claim is read back
from the trail: a citation that some applied note starts with is not stamped again.

A citation is the problem's slug and the event's number with a slash between them, so it is a slash-free word, a
slash, and a word without blanks. Of two such words neither begins with the other and a dash, which is what keeps
the notes apart (`citationRef_not_prefix`).

The note of a claim is taken for the claim that was written to it.
-/

open List

namespace Amicode.Claims

/-! ## Stamping -/

inductive StampSourceKind
  | recommendOutcome
  | solveRun
deriving DecidableEq

def StampSourceKind.text : StampSourceKind → String
  | .recommendOutcome => "recommend-outcome"
  | .solveRun => "solve-run"

structure AdoptionCitation where
  kind : StampSourceKind
  ref : String
  detail : Option String
deriving DecidableEq

def AdoptionCitation.base (citation : AdoptionCitation) : String :=
  "applied via " ++ citation.kind.text ++ " " ++ citation.ref

def appliedNote (citation : AdoptionCitation) : String :=
  match citation.detail with
  | none => citation.base
  | some detail => citation.base ++ " — " ++ detail

def isStamped (claim : Claim) (citation : AdoptionCitation) : Bool :=
  claim.history.any fun h ↦
    h.event = .applied &&
      (h.note = citation.base || (citation.base ++ " — ").toList.isPrefixOf h.note.toList)

structure StampResult where
  stamped : Bool
  claim : Claim

def stampAdoption (claim : Claim) (citation : AdoptionCitation) (stampedAt : String) : StampResult :=
  if isStamped claim citation then ⟨false, claim⟩
  else
    { stamped := true
      claim :=
        { claim with
          applied := claim.applied + 1
          last_applied := some stampedAt
          history := claim.history ++ [⟨stampedAt, .applied, appliedNote citation⟩] } }

/-! ## Events -/

/-- The name of a problem's directory. -/
structure Slug where
  text : String
  no_slash : '/' ∉ text.toList
deriving DecidableEq

/-- A JSON number, as it is printed. -/
structure Numeral where
  text : String
  no_blank : ' ' ∉ text.toList
deriving DecidableEq

/-- An event of a stream, as far as the sweep reads it; a field of another type than it expects is none. -/
structure StreamEvent where
  seq : Option Numeral
  entity : Option String
  action : Option String
  key : Option String
  /-- The `ref` of each item of the provenance. -/
  provenance : List (Option String)
  outcome : Option String
deriving DecidableEq

structure Problem where
  slug : Slug
  events : List StreamEvent
deriving DecidableEq

def provenanceRefs (event : StreamEvent) : List String :=
  event.provenance.filterMap fun ref ↦ ref.filter fun r ↦ JsText.trim r.toList ≠ []

/-- The file of the claim that a reference names: its last segment, with the extension of a note. -/
def refFile (ref : String) : String :=
  let segment := ((ref.toList.splitOnP (· = '/')).getLast?).getD ref.toList
  String.ofList (if ".md".toList.isSuffixOf segment then segment else segment ++ ".md".toList)

def resolveClaimRef (ref : String) (claims : List RegistryClaim) : Option RegistryClaim :=
  claims.find? (·.file = refFile ref)

def citationRef (slug : Slug) (event : StreamEvent) : String :=
  slug.text ++ "/" ++ (event.seq.elim "-1" Numeral.text)

/-! ## The plan -/

structure SweepStamp where
  file : String
  citation : AdoptionCitation
deriving DecidableEq

structure AdoptionSweepPlan where
  stamps : List SweepStamp
  already : ℕ
  skippedRefs : List String
  overridden : List String
  scanned : ℕ
deriving DecidableEq

/-- The plan so far, and the keys of its stamps. -/
structure SweepState where
  plan : AdoptionSweepPlan
  seen : List String

def seenKey (file ref : String) : String := file ++ "|" ++ ref

/-- The latest proposal of each recommendation key, with its references. -/
abbrev Proposed := InsertionMap String (List String)

/-- One reference of an accepted event; the files that the event has been counted for go along. -/
def planRef (claims : List RegistryClaim) (cited : String) (s : SweepState × List String) (ref : String) :
    SweepState × List String :=
  match resolveClaimRef ref claims with
  | none =>
    let skipped := s!"{cited}: provenance ref \"{ref}\" matches no registry claim"
    ({ s.1 with plan := { s.1.plan with skippedRefs := s.1.plan.skippedRefs ++ [skipped] } }, s.2)
  | some c =>
    if s.2.contains c.file then s
    else if isStamped c.claim ⟨.recommendOutcome, cited, none⟩ || s.1.seen.contains (seenKey c.file cited) then
      ({ s.1 with plan := { s.1.plan with already := s.1.plan.already + 1 } }, s.2 ++ [c.file])
    else
      ({ plan := { s.1.plan with stamps := s.1.plan.stamps ++ [⟨c.file, ⟨.recommendOutcome, cited, none⟩⟩] }
         seen := s.1.seen ++ [seenKey c.file cited] },
        s.2 ++ [c.file])

def isPropose (event : StreamEvent) : Bool := event.action = some "proposed"

def propose (proposed : Proposed) (event : StreamEvent) : Proposed :=
  if isPropose event then proposed.set (event.key.getD "?") (provenanceRefs event) else proposed

/-- What an accepted event refers to: an auto-accept carries its references itself, a plain outcome has those of
the latest proposal of its key. -/
def pairRefs (proposed : Proposed) (event : StreamEvent) : List String :=
  if isPropose event then provenanceRefs event else (proposed.get? (event.key.getD "?")).getD []

def planEvent (claims : List RegistryClaim) (slug : Slug) (s : SweepState × Proposed) (event : StreamEvent) :
    SweepState × Proposed :=
  if event.entity ≠ some "recommendation" then s
  else
    let scanned := { s.1 with plan := { s.1.plan with scanned := s.1.plan.scanned + 1 } }
    let proposed := propose s.2 event
    let cited := citationRef slug event
    if event.outcome = some "overridden" then
      ({ scanned with plan := { scanned.plan with overridden := scanned.plan.overridden ++ [cited] } }, proposed)
    else if event.outcome ≠ some "accepted" then (scanned, proposed)
    else (((pairRefs proposed event).foldl (planRef claims cited) (scanned, [])).1, proposed)

def planProblem (claims : List RegistryClaim) (s : SweepState) (problem : Problem) : SweepState :=
  (problem.events.foldl (planEvent claims problem.slug) (s, InsertionMap.empty)).1

def planAdoptionSweep (problems : List Problem) (claims : List RegistryClaim) : AdoptionSweepPlan :=
  (problems.foldl (planProblem claims) ⟨⟨[], 0, [], [], 0⟩, []⟩).plan

/-! ## The sweep -/

theorem update_files (file : String) (f : Claim → Claim) (claims : List RegistryClaim) :
    (claims.map fun c ↦ if c.file = file then { c with claim := f c.claim } else c).map (·.file) =
      claims.map (·.file) := by
  rw [List.map_map]
  refine map_congr_left fun c _ ↦ ?_
  simp only [Function.comp_apply]
  split <;> rfl

def Registry.update (r : Registry) (file : String) (f : Claim → Claim) : Registry where
  claims := r.claims.map fun c ↦ if c.file = file then { c with claim := f c.claim } else c
  nodup_files := by
    rw [update_files]
    exact r.nodup_files

/-- A stamp of the plan is written to its note; the log has the file and the citation of each that was. -/
def applyStamp (stampedAt : String) (s : Registry × List (String × String)) (stamp : SweepStamp) :
    Registry × List (String × String) :=
  match s.1.claims.find? (·.file = stamp.file) with
  | none => s
  | some c =>
    if (stampAdoption c.claim stamp.citation stampedAt).stamped then
      (s.1.update stamp.file fun claim ↦ (stampAdoption claim stamp.citation stampedAt).claim,
        s.2 ++ [(stamp.file, stamp.citation.ref)])
    else s

def sweep (stampedAt : String) (problems : List Problem) (s : Registry × List (String × String)) :
    Registry × List (String × String) :=
  (planAdoptionSweep problems s.1.claims).stamps.foldl (applyStamp stampedAt) s

/-! ## What a plan stamps -/

/-- The files that references name, each once. -/
def namedFiles : List String → List String → List String
  | _, [] => []
  | done, ref :: rest =>
    if refFile ref ∈ done then namedFiles done rest else refFile ref :: namedFiles (refFile ref :: done) rest

/-- The accepted events of a stream, each as the files it names with its citation. -/
def acceptedPairs (slug : Slug) : Proposed → List StreamEvent → List (String × String)
  | _, [] => []
  | proposed, event :: rest =>
    if event.entity ≠ some "recommendation" then acceptedPairs slug proposed rest
    else if event.outcome = some "accepted" then
      (namedFiles [] (pairRefs (propose proposed event) event)).map (·, citationRef slug event) ++
        acceptedPairs slug (propose proposed event) rest
    else acceptedPairs slug (propose proposed event) rest

/-- The adoptions that the streams record: a file and the citation of an accepted event that names it. -/
def adoptions (problems : List Problem) : List (String × String) :=
  problems.flatMap fun problem ↦ acceptedPairs problem.slug InsertionMap.empty problem.events

def pairKey (pair : String × String) : String := seenKey pair.1 pair.2

/-- The file has a claim whose trail does not carry the citation. -/
def due (claims : List RegistryClaim) (pair : String × String) : Bool :=
  match claims.find? (·.file = pair.1) with
  | none => false
  | some c => !isStamped c.claim ⟨.recommendOutcome, pair.2, none⟩

def stampOf (pair : String × String) : SweepStamp := ⟨pair.1, ⟨.recommendOutcome, pair.2, none⟩⟩

/-- What a reference adds to the stamps and their keys. -/
def take (claims : List RegistryClaim) (s : List SweepStamp × List String) (pair : String × String) :
    List SweepStamp × List String :=
  if due claims pair && !s.2.contains (pairKey pair) then (s.1 ++ [stampOf pair], s.2 ++ [pairKey pair]) else s

def SweepState.core (s : SweepState) : List SweepStamp × List String := (s.plan.stamps, s.seen)

variable {claims : List RegistryClaim}

theorem find_file_eq {f : String} {c : RegistryClaim} (h : claims.find? (·.file = f) = some c) : c.file = f := by
  simpa using find?_some h

theorem take_of_find {f cited : String} {c : RegistryClaim} (s : List SweepStamp × List String)
    (hc : claims.find? (·.file = f) = some c) :
    take claims s (f, cited) =
      if isStamped c.claim ⟨.recommendOutcome, cited, none⟩ || s.2.contains (seenKey f cited) then s
      else (s.1 ++ [stampOf (f, cited)], s.2 ++ [seenKey f cited]) := by
  rw [take, due]
  simp only [hc, pairKey]
  cases isStamped c.claim ⟨.recommendOutcome, cited, none⟩ <;> cases s.2.contains (seenKey f cited) <;> rfl

theorem core_planRefs (cited : String) (refs : List String) (s : SweepState × List String) (done : List String)
    (hdone : ∀ f, f ∈ s.2 ↔ f ∈ done ∧ (claims.find? (·.file = f)).isSome) :
    (refs.foldl (planRef claims cited) s).1.core =
      ((namedFiles done refs).map (·, cited)).foldl (take claims) s.1.core := by
  induction refs generalizing s done with
  | nil => rfl
  | cons ref rest ih =>
    rw [foldl_cons, namedFiles]
    obtain ⟨st, stamped⟩ := s
    rw [planRef, resolveClaimRef]
    obtain hnone | ⟨c, hc⟩ := Option.eq_none_or_eq_some (claims.find? (·.file = refFile ref))
    · -- the reference names no claim: it is skipped here, and nothing is due there
      simp only [hnone]
      split
      · exact ih _ done hdone
      · rw [map_cons, foldl_cons, ih _ (refFile ref :: done)]
        · simp [take, due, hnone, SweepState.core]
        · intro f
          rw [hdone f, mem_cons]
          refine and_congr_left fun hf ↦ (or_iff_right ?_).symm
          rintro rfl
          rw [hnone] at hf
          cases hf
    · have hfile := find_file_eq hc
      have hdone' : ∀ f, f ∈ stamped ++ [c.file] ↔
          f ∈ refFile ref :: done ∧ (claims.find? (·.file = f)).isSome := by
        intro f
        rw [mem_append, hdone f, mem_singleton, mem_cons, hfile, or_comm, or_and_right]
        refine or_congr_left ⟨?_, And.left⟩
        rintro rfl
        exact ⟨rfl, by rw [hc]; rfl⟩
      have hseen : st.core.2 = st.seen := rfl
      simp only [hc, hfile] at hdone' ⊢
      by_cases hin : refFile ref ∈ done
      · have hstamped : stamped.contains (refFile ref) = true :=
          contains_iff_mem.2 ((hdone _).2 ⟨hin, by rw [hc]; rfl⟩)
        rw [if_pos hin, if_pos hstamped]
        exact ih _ done hdone
      · have hstamped : ¬stamped.contains (refFile ref) = true := fun h ↦
          hin ((hdone _).1 (contains_iff_mem.1 h)).1
        rw [if_neg hin, if_neg hstamped, map_cons, foldl_cons, take_of_find _ hc, hseen]
        split
        · exact ih _ _ hdone'
        · exact ih _ _ hdone'

theorem core_planEvents (slug : Slug) (events : List StreamEvent) (s : SweepState) (proposed : Proposed) :
    (events.foldl (planEvent claims slug) (s, proposed)).1.core =
      (acceptedPairs slug proposed events).foldl (take claims) s.core := by
  induction events generalizing s proposed with
  | nil => rfl
  | cons event rest ih =>
    rw [foldl_cons, planEvent, acceptedPairs]
    by_cases hentity : event.entity ≠ some "recommendation"
    · rw [if_pos hentity, if_pos hentity]
      exact ih _ _
    · rw [if_neg hentity, if_neg hentity]
      by_cases haccepted : event.outcome = some "accepted"
      · have hover : ¬event.outcome = some "overridden" := by simp [haccepted]
        simp only [if_pos haccepted, if_neg hover, if_neg (not_not_intro haccepted)]
        rw [ih, foldl_append, core_planRefs _ _ _ [] (by simp)]
        rfl
      · simp only [if_neg haccepted, if_pos haccepted]
        split
        · exact ih _ _
        · exact ih _ _

theorem core_planProblems (problems : List Problem) (s : SweepState) :
    (problems.foldl (planProblem claims) s).core = (adoptions problems).foldl (take claims) s.core := by
  induction problems generalizing s with
  | nil => rfl
  | cons problem rest ih =>
    have hcons : adoptions (problem :: rest) =
        acceptedPairs problem.slug InsertionMap.empty problem.events ++ adoptions rest := flatMap_cons
    rw [foldl_cons, ih, planProblem, core_planEvents, hcons, foldl_append]

theorem foldl_take (pairs : List (String × String)) (s : List SweepStamp × List String)
    (hn : (pairs.map pairKey).Nodup) (hseen : ∀ pair ∈ pairs, pairKey pair ∉ s.2) :
    (pairs.foldl (take claims) s).1 = s.1 ++ (pairs.filter (due claims)).map stampOf := by
  induction pairs generalizing s with
  | nil => exact (append_nil _).symm
  | cons pair rest ih =>
    obtain ⟨hpair, hrest⟩ := nodup_cons.1 hn
    have hfree : s.2.contains (pairKey pair) = false := by
      simpa using hseen pair mem_cons_self
    have hlater : ∀ p ∈ rest, pairKey p ∉ s.2 := fun p hp ↦ hseen p (mem_cons_of_mem _ hp)
    rw [foldl_cons, take, hfree, Bool.not_false, Bool.and_true, filter_cons]
    split
    · rw [ih _ hrest, map_cons, append_assoc]
      · rfl
      · intro p hp hmem
        obtain hmem | heq := mem_append.1 hmem
        · exact hlater p hp hmem
        · exact hpair (List.mem_map.2 ⟨p, hp, mem_singleton.1 heq⟩)
    · exact ih _ hrest hlater

theorem plan_stamps (problems : List Problem) (hn : ((adoptions problems).map pairKey).Nodup) :
    (planAdoptionSweep problems claims).stamps = ((adoptions problems).filter (due claims)).map stampOf := by
  have hcore : (planAdoptionSweep problems claims).stamps = ((adoptions problems).foldl (take claims) ([], [])).1 :=
    congrArg Prod.fst (core_planProblems problems ⟨⟨[], 0, [], [], 0⟩, []⟩)
  rw [hcore, foldl_take _ _ hn (by simp), nil_append]

/-! ## Citations -/

def IsCitation (ref : String) : Prop := ∃ slug event, ref = citationRef slug event

theorem isCitation_of_mem_acceptedPairs {slug : Slug} {events : List StreamEvent} {proposed : Proposed}
    {pair : String × String} (h : pair ∈ acceptedPairs slug proposed events) : IsCitation pair.2 := by
  induction events generalizing proposed with
  | nil => cases h
  | cons event rest ih =>
    rw [acceptedPairs] at h
    split at h
    · exact ih h
    · split at h
      · obtain h | h := mem_append.1 h
        · obtain ⟨f, -, rfl⟩ := List.mem_map.1 h
          exact ⟨slug, event, rfl⟩
        · exact ih h
      · exact ih h

theorem isCitation_of_mem_adoptions {problems : List Problem} {pair : String × String}
    (h : pair ∈ adoptions problems) : IsCitation pair.2 := by
  obtain ⟨problem, -, h⟩ := mem_flatMap.1 h
  exact isCitation_of_mem_acceptedPairs h

theorem append_slash_inj {x y u v : List Char} (hx : '/' ∉ x) (hy : '/' ∉ y)
    (h : x ++ '/' :: u = y ++ '/' :: v) : u = v := by
  induction x generalizing y with
  | nil =>
    cases y with
    | nil => exact (List.cons.inj h).2
    | cons b y => exact absurd (List.cons.inj h).1 fun hb ↦ hy (hb ▸ mem_cons_self)
  | cons a x ih =>
    cases y with
    | nil => exact absurd (List.cons.inj h).1 fun ha ↦ hx (ha ▸ mem_cons_self)
    | cons b y =>
      exact ih (fun hm ↦ hx (mem_cons_of_mem _ hm)) (fun hm ↦ hy (mem_cons_of_mem _ hm))
        (List.cons.inj h).2

theorem citationRef_not_prefix {ref ref' : String} (h : IsCitation ref) (h' : IsCitation ref') :
    ¬(ref ++ " — ").toList <+: ref'.toList := by
  obtain ⟨slug, event, rfl⟩ := h
  obtain ⟨slug', event', rfl⟩ := h'
  have hblank : ∀ e : StreamEvent, ' ' ∉ (e.seq.elim "-1" Numeral.text).toList := by
    intro e
    cases e.seq with
    | none => decide
    | some n => exact n.no_blank
  rintro ⟨rest, hrest⟩
  have hsplit : slug.text.toList ++ '/' :: ((event.seq.elim "-1" Numeral.text).toList ++ (" — ".toList ++ rest)) =
      slug'.text.toList ++ '/' :: (event'.seq.elim "-1" Numeral.text).toList := by
    simpa [citationRef] using hrest
  have htail := append_slash_inj slug.no_slash slug'.no_slash hsplit
  exact hblank event' (htail ▸ by simp)

theorem base_toList (ref : String) :
    (⟨.recommendOutcome, ref, none⟩ : AdoptionCitation).base.toList =
      "applied via recommend-outcome ".toList ++ ref.toList := by
  rw [AdoptionCitation.base, String.toList_append]
  rfl

theorem isStamped_concat {claim : Claim} {history : List HistoryEntry} {ref ref' stampedAt : String}
    (h : IsCitation ref) (h' : IsCitation ref')
    (hhist : history = claim.history ++ [⟨stampedAt, .applied, appliedNote ⟨.recommendOutcome, ref', none⟩⟩])
    (applied : ℕ) (lastApplied : Option String) :
    isStamped { claim with applied, last_applied := lastApplied, history } ⟨.recommendOutcome, ref, none⟩ = true ↔
      isStamped claim ⟨.recommendOutcome, ref, none⟩ = true ∨ ref' = ref := by
  have hbase : (⟨.recommendOutcome, ref', none⟩ : AdoptionCitation).base =
      (⟨.recommendOutcome, ref, none⟩ : AdoptionCitation).base ↔ ref' = ref := by
    rw [← String.toList_inj, base_toList, base_toList, append_cancel_left_eq, String.toList_inj]
  have hprefix : ¬((⟨.recommendOutcome, ref, none⟩ : AdoptionCitation).base ++ " — ").toList <+:
      (⟨.recommendOutcome, ref', none⟩ : AdoptionCitation).base.toList := by
    rw [String.toList_append, base_toList, base_toList, append_assoc, prefix_append_right_inj,
      ← String.toList_append]
    exact citationRef_not_prefix h h'
  rw [isStamped, isStamped, hhist, any_append, Bool.or_eq_true]
  refine or_congr_right ?_
  rw [← hbase]
  simp only [any_cons, any_nil, Bool.or_false, appliedNote, decide_true, Bool.true_and, Bool.or_eq_true,
    decide_eq_true_eq, isPrefixOf_iff_prefix, hprefix, or_false]

end Amicode.Claims
