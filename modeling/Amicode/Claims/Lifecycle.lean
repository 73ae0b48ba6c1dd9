import Amicode.Foundation.JsText
import Mathlib.Algebra.BigOperators.Group.List.Basic
import Mathlib.Data.List.Dedup

/-!
# The lifecycle pass over the claims registry

The registry has one claim for each file. Once a night the pass (`lifecycle.ts`) takes its claims and a list of
contradiction signals, and

1. merges duplicates, the younger of a pair into the older, until no two claims are the same any more;
2. refutes the claims that the signals name;
3. corroborates the unverified claims that have enough evidence;
4. lists the claims that have not been applied for a while.

Two claims are the same if they agree in type and scope and their statements and tags are similar. The similarity
is a weighted mean of two Jaccard indices, compared with a threshold; it is counted here up to the indices, and
whether a pair of them clears the threshold is the parameter `clears`, as case folding and reading a date are
parameters too. A claim is a valid one (`loadRegistryClaims` skips the others). Of a finding it is kept what was
found, and of a queue entry everything but its sentence.
-/

open List

namespace Amicode.Claims

/-! ## Claims -/

inductive ClaimType
  | insight
  | hypothesis
  | bestPractice
  | hazard
  | method
deriving DecidableEq

inductive ClaimStatus
  | unverified
  | corroborated
  | superseded
  | refuted
deriving DecidableEq

inductive ClaimConfidence
  | high
  | medium
  | low
deriving DecidableEq

inductive ClaimScope
  | personal
  | team
  | pub
deriving DecidableEq

inductive ClaimHistoryEvent
  | created
  | projected
  | merged
  | evidenceAdded
  | applied
  | corroborated
  | superseded
  | refuted
deriving DecidableEq

structure HistoryEntry where
  date : String
  event : ClaimHistoryEvent
  note : String
deriving DecidableEq

structure Claim where
  type : ClaimType
  statement : String
  status : ClaimStatus
  confidence : ClaimConfidence
  evidence : List String
  applied : ℕ
  last_applied : Option String
  history : List HistoryEntry
  scope : ClaimScope
  tags : List String
deriving DecidableEq

structure RegistryClaim where
  file : String
  claim : Claim
deriving DecidableEq

/-- The claims of a directory, one for each file. -/
structure Registry where
  claims : List RegistryClaim
  nodup_files : (claims.map (·.file)).Nodup

/-! ## The same claim -/

/-- How the pass reads text and dates, and when it runs. -/
structure LifecycleOpts where
  now : ℤ
  nowIso : String
  /-- `Date.parse`. -/
  parse : String → Option ℤ
  toLowerCase : String → String
  /-- A pair of Jaccard indices reaches the merge threshold. -/
  clears : ℕ × ℕ → ℕ × ℕ → Bool
  corroborateThreshold : ℕ
  decayWindowDays : ℤ

variable (o : LifecycleOpts)

/-- The comparison tokens of a statement: runs of lower-case letters, digits and dashes, each once. -/
def statementTokens (statement : String) : List (List Char) :=
  let folded := (o.toLowerCase statement).toList.map fun ch ↦
    if ('a' ≤ ch && ch ≤ 'z') || JsText.isDigit ch || ch = '-' || JsText.isSpace ch then ch else ' '
  ((folded.splitOnP JsText.isSpace).filter (· ≠ [])).dedup

/-- The Jaccard index of two sets, as a fraction. -/
def jaccard {α : Type} [DecidableEq α] (a b : List α) : ℕ × ℕ :=
  if a.isEmpty && b.isEmpty then (1, 1)
  else if a.isEmpty || b.isEmpty then (0, 1)
  else
    let inter := (a.filter (· ∈ b)).length
    (inter, a.length + b.length - inter)

/-- The indices of the statements and of the tags. -/
def claimSimilarity (a b : Claim) : (ℕ × ℕ) × (ℕ × ℕ) :=
  (jaccard (statementTokens o a.statement) (statementTokens o b.statement),
    jaccard (a.tags.map o.toLowerCase).dedup (b.tags.map o.toLowerCase).dedup)

def mergeCandidates (a b : Claim) : Bool := a.type = b.type && a.scope = b.scope

/-- A pair that the pass would merge. -/
def sameClaim (a b : RegistryClaim) : Bool :=
  mergeCandidates a.claim b.claim
    && o.clears (claimSimilarity o a.claim b.claim).1 (claimSimilarity o a.claim b.claim).2

/-- The earliest date of the history; a claim without one is the youngest. -/
def birthInstant (c : RegistryClaim) : Option ℤ := (c.claim.history.filterMap fun h ↦ o.parse h.date).min?

/-- Whether the first of two claims survives a merge. -/
def survives (a b : RegistryClaim) : Bool :=
  match birthInstant o a, birthInstant o b with
  | some ba, some bb => if ba ≠ bb then ba < bb else !JsText.le b.file.toList a.file.toList
  | some _, none => true
  | none, some _ => false
  | none, none => !JsText.le b.file.toList a.file.toList

/-! ## Merging -/

def union (mine theirs : List String) : List String :=
  theirs.foldl (fun out v ↦ if out.contains v then out else out ++ [v]) mine

def addedEvidence (survivor duplicate : Claim) : List String :=
  duplicate.evidence.filter fun pointer ↦ !survivor.evidence.contains pointer

/-- The later of the two dates of adoption, the survivor's if neither is later. -/
def laterApplied (s d : Option String) : Option String :=
  match d.bind o.parse, s.bind o.parse with
  | none, _ => s
  | some _, none => d
  | some dApplied, some sApplied => if sApplied < dApplied then d else s

def mergedNote (duplicate : RegistryClaim) : String :=
  s!"merged duplicate claim {duplicate.file} (\"{duplicate.claim.statement}\") — its evidence pointers and history trail are preserved here (dedupe-merge, amicode #1684)"

/-- The survivor gains what the duplicate has. Its statement, status, confidence and scope are its identity. -/
def mergeInto (survivor duplicate : RegistryClaim) : RegistryClaim :=
  let s := survivor.claim
  let d := duplicate.claim
  { survivor with
    claim :=
      { s with
        evidence := s.evidence ++ addedEvidence s d
        tags := union s.tags d.tags
        applied := s.applied + d.applied
        last_applied := laterApplied o s.last_applied d.last_applied
        history := s.history ++ d.history ++ [⟨o.nowIso, .merged, mergedNote duplicate⟩] } }

structure MergeAction where
  survivor : String
  duplicate : String
  similarity : (ℕ × ℕ) × (ℕ × ℕ)
  added_evidence : List String
deriving DecidableEq

/-- The first pair of the scan that is the same claim. -/
def firstPair : List RegistryClaim → Option (RegistryClaim × RegistryClaim)
  | [] => none
  | a :: rest =>
    match rest.find? (sameClaim o a) with
    | some b => some (a, b)
    | none => firstPair rest

/-- The survivor and the duplicate of a pair. -/
def roles (pair : RegistryClaim × RegistryClaim) : RegistryClaim × RegistryClaim :=
  if survives o pair.1 pair.2 then pair else pair.swap

/-- The survivor takes the duplicate in, in its own place. -/
def mergePair (claims : List RegistryClaim) (survivor duplicate : RegistryClaim) : List RegistryClaim :=
  (claims.filter (·.file ≠ duplicate.file)).map fun c ↦
    if c.file = survivor.file then mergeInto o survivor duplicate else c

def mergeAction (survivor duplicate : RegistryClaim) (pair : RegistryClaim × RegistryClaim) : MergeAction where
  survivor := survivor.file
  duplicate := duplicate.file
  similarity := claimSimilarity o pair.1.claim pair.2.claim
  added_evidence := addedEvidence survivor.claim duplicate.claim

/-- The merge loop, with a bound on its rounds. -/
def dedupe : ℕ → List RegistryClaim → List RegistryClaim × List MergeAction
  | 0, claims => (claims, [])
  | rounds + 1, claims =>
    match firstPair o claims with
    | none => (claims, [])
    | some pair =>
      let (survivor, duplicate) := roles o pair
      let (rest, merges) := dedupe rounds (mergePair o claims survivor duplicate)
      (rest, mergeAction o survivor duplicate pair :: merges)

/-! ## Refuting and corroborating -/

structure ContradictionSignal where
  claim : String
  run : String
  note : Option String
deriving DecidableEq

inductive TransitionKind
  | corroborate
  | refute
deriving DecidableEq

structure Transition where
  kind : TransitionKind
  file : String
  source : ClaimStatus
  target : ClaimStatus
  note : String
deriving DecidableEq

inductive Finding
  | noSuchClaim (claim : String)
  | alreadyTerminal (file : String) (status : ClaimStatus)
  | zeroEvidence (file : String)
  | noTimestamp (file : String)
deriving DecidableEq

def isTerminal (status : ClaimStatus) : Bool := status = .refuted || status = .superseded

/-- What the transitions of the pass work on. -/
structure PassState where
  claims : List RegistryClaim
  transitions : List Transition
  findings : List Finding
deriving DecidableEq

/-- The claim moves to a status, and its history says so. -/
def RegistryClaim.stamp (c : RegistryClaim) (status : ClaimStatus) (entry : HistoryEntry) : RegistryClaim :=
  { c with claim := { c.claim with status, history := c.claim.history ++ [entry] } }

def refutedNote (signal : ContradictionSignal) : String :=
  let reason := match signal.note with
    | none => ""
    | some note => if note = "" then "" else s!" — {note}"
  s!"contradicted by run {signal.run}{reason} (stamped by amico claims lifecycle, amicode #1684)"

def applySignal (p : PassState) (signal : ContradictionSignal) : PassState :=
  match p.claims.find? (·.file = signal.claim) with
  | none => { p with findings := p.findings ++ [.noSuchClaim signal.claim] }
  | some target =>
    if isTerminal target.claim.status then
      { p with findings := p.findings ++ [.alreadyTerminal target.file target.claim.status] }
    else if target.claim.evidence.isEmpty then { p with findings := p.findings ++ [.zeroEvidence target.file] }
    else
      { p with
        claims := p.claims.map fun c ↦
          if c.file = signal.claim then c.stamp .refuted ⟨o.nowIso, .refuted, refutedNote signal⟩ else c
        transitions := p.transitions ++
          [⟨.refute, target.file, target.claim.status, .refuted, refutedNote signal⟩] }

/-- The claim is unverified and has enough evidence pointers. -/
def crossesThreshold (c : RegistryClaim) : Bool :=
  c.claim.status = .unverified && decide (o.corroborateThreshold ≤ c.claim.evidence.dedup.length)

def corroboratedNote (c : RegistryClaim) : String :=
  let distinct := c.claim.evidence.dedup.length
  let threshold := o.corroborateThreshold
  s!"evidence crossed the corroboration threshold ({distinct} distinct evidence pointers ≥ {threshold}) (stamped by amico claims lifecycle, amicode #1684)"

def corroborate (p : PassState) : PassState :=
  { p with
    claims := p.claims.map fun c ↦
      if crossesThreshold o c then c.stamp .corroborated ⟨o.nowIso, .corroborated, corroboratedNote o c⟩ else c
    transitions := p.transitions ++ (p.claims.filter (crossesThreshold o)).map fun c ↦
      ⟨.corroborate, c.file, .unverified, .corroborated, corroboratedNote o c⟩ }

/-! ## The review queue -/

structure QueueEntry where
  file : String
  statement : String
  type : ClaimType
  status : ClaimStatus
  confidence : ClaimConfidence
  applied : ℕ
  last_applied : Option String
  age_days : ℤ
deriving DecidableEq

/-- The time from which a claim ages: its last adoption, or else its newest history entry. -/
def agesFrom (c : RegistryClaim) : Option ℤ :=
  match c.claim.last_applied.bind o.parse with
  | some lastApplied => some lastApplied
  | none => (c.claim.history.filterMap fun h ↦ o.parse h.date).max?

def reviewEntry (c : RegistryClaim) : Option QueueEntry :=
  if isTerminal c.claim.status then none
  else
    match agesFrom o c with
    | none => none
    | some reference =>
      let ageDays := (o.now - reference) / 86400000
      if ageDays ≤ o.decayWindowDays then none
      else
        some
          { file := c.file
            statement := c.claim.statement
            type := c.claim.type
            status := c.claim.status
            confidence := c.claim.confidence
            applied := c.claim.applied
            last_applied := c.claim.last_applied
            age_days := ageDays }

def ageFindings (claims : List RegistryClaim) : List Finding :=
  (claims.filter fun c ↦ !isTerminal c.claim.status && (agesFrom o c).isNone).map fun c ↦ .noTimestamp c.file

/-! ## The pass -/

structure LifecycleResult where
  claims : List RegistryClaim
  merges : List MergeAction
  transitions : List Transition
  queue : List QueueEntry
  findings : List Finding
deriving DecidableEq

/-- The transitions of a pass, from the claims that are left after merging. -/
def transition (claims : List RegistryClaim) (signals : List ContradictionSignal) : PassState :=
  corroborate o (signals.foldl (applySignal o) ⟨claims, [], []⟩)

def runLifecyclePass (input : List RegistryClaim) (signals : List ContradictionSignal) : LifecycleResult :=
  let (claims, merges) := dedupe o input.length input
  let p := transition o claims signals
  { claims := p.claims
    merges
    transitions := p.transitions
    queue := p.claims.filterMap (reviewEntry o)
    findings := p.findings ++ ageFindings o p.claims }

end Amicode.Claims

/-!
# The merge loop

A round of the loop takes the first pair of claims that are the same and puts the younger one into the older. The
registry loses a claim in every round, so the loop ends, and it ends where no two claims are the same.

What a whole run of the loop preserves is proved along `dedupe_rec`: a property that holds of the loop which has
nothing to merge, and which a merge passes back from the claims after it to the claims before it. A claim that is
merged away lives on in its *carrier*, the claim that took it in or the carrier of that one.
-/

namespace Amicode.Claims

variable {o : LifecycleOpts} {claims : List RegistryClaim} {a b survivor duplicate : RegistryClaim}

/-! ## One claim for each file -/

theorem eq_of_file_eq (hn : (claims.map (·.file)).Nodup) (ha : a ∈ claims) (hb : b ∈ claims)
    (hf : a.file = b.file) : a = b :=
  inj_on_of_nodup_map hn ha hb hf

/-- The claim of a file comes first, up to the order of the others. -/
theorem perm_cons_filter (hn : (claims.map (·.file)).Nodup) (ha : a ∈ claims) :
    claims.Perm (a :: claims.filter (·.file ≠ a.file)) := by
  induction claims with
  | nil => cases ha
  | cons x rest ih =>
    obtain ⟨hx, hrest⟩ := nodup_cons.1 hn
    obtain rfl | ha := mem_cons.1 ha
    · have hkept : rest.filter (·.file ≠ a.file) = rest := by
        refine filter_eq_self.2 fun y hy ↦ ?_
        have hne : y.file ≠ a.file := fun he ↦ hx (List.mem_map.2 ⟨y, hy, he⟩)
        simpa using hne
      rw [filter_cons_of_neg (by simp), hkept]
    · have hne : x.file ≠ a.file := fun he ↦ hx (List.mem_map.2 ⟨a, ha, he.symm⟩)
      rw [filter_cons_of_pos (by simpa using hne)]
      exact ((ih hrest ha).cons x).trans (Perm.swap a x _)

/-! ## The pair of a round -/

theorem firstPair_sublist {pair : RegistryClaim × RegistryClaim} (h : firstPair o claims = some pair) :
    [pair.1, pair.2].Sublist claims := by
  induction claims with
  | nil => cases h
  | cons x rest ih =>
    rw [firstPair] at h
    split at h
    · next y hy =>
      cases h
      exact (singleton_sublist.2 (mem_of_find?_eq_some hy)).cons_cons x
    · exact (ih h).cons x

theorem firstPair_eq_none : firstPair o claims = none ↔ claims.Pairwise fun a b ↦ sameClaim o a b = false := by
  induction claims with
  | nil => simp [firstPair]
  | cons x rest ih =>
    rw [firstPair, pairwise_cons, ← ih]
    split
    · next y hy =>
      have hmem := mem_of_find?_eq_some hy
      have hsame := find?_some hy
      refine iff_of_false (by simp) fun h ↦ ?_
      rw [h.1 y hmem] at hsame
      cases hsame
    · next hnone =>
      have hall : ∀ y ∈ rest, sameClaim o x y = false := by simpa using hnone
      exact ⟨fun h ↦ ⟨hall, h⟩, fun h ↦ h.2⟩

theorem roles_mem {pair : RegistryClaim × RegistryClaim} (hn : (claims.map (·.file)).Nodup)
    (h : firstPair o claims = some pair) :
    (roles o pair).1 ∈ claims ∧ (roles o pair).2 ∈ claims ∧ (roles o pair).1.file ≠ (roles o pair).2.file := by
  have hsub := firstPair_sublist h
  have h₁ : pair.1 ∈ claims := hsub.subset (by simp)
  have h₂ : pair.2 ∈ claims := hsub.subset (by simp)
  have hne : pair.1.file ≠ pair.2.file := by
    have hpair := (hsub.map (·.file)).nodup hn
    simpa using hpair
  rw [roles]
  split
  · exact ⟨h₁, h₂, hne⟩
  · exact ⟨h₂, h₁, hne.symm⟩

/-! ## A merge -/

@[simp] theorem mergeInto_file : (mergeInto o survivor duplicate).file = survivor.file := rfl

theorem mem_mergePair (hs : survivor ∈ claims) (hne : survivor.file ≠ duplicate.file) {x : RegistryClaim} :
    x ∈ mergePair o claims survivor duplicate ↔
      x = mergeInto o survivor duplicate ∨ x ∈ claims ∧ x.file ≠ survivor.file ∧ x.file ≠ duplicate.file := by
  simp only [mergePair, List.mem_map, mem_filter, decide_eq_true_eq]
  constructor
  · rintro ⟨y, ⟨hy, hyd⟩, rfl⟩
    split
    · exact .inl rfl
    · next hys => exact .inr ⟨hy, hys, hyd⟩
  · rintro (rfl | ⟨hx, hxs, hxd⟩)
    · exact ⟨survivor, ⟨hs, hne⟩, if_pos rfl⟩
    · exact ⟨x, ⟨hx, hxd⟩, if_neg hxs⟩

theorem mergePair_files :
    (mergePair o claims survivor duplicate).map (·.file) = (claims.map (·.file)).filter (· ≠ duplicate.file) := by
  rw [mergePair, List.map_map, List.filter_map]
  refine map_congr_left fun x _ ↦ ?_
  by_cases hx : x.file = survivor.file
  · simp [hx]
  · simp [hx]

theorem nodup_mergePair (hn : (claims.map (·.file)).Nodup) :
    ((mergePair o claims survivor duplicate).map (·.file)).Nodup := by
  rw [mergePair_files]
  exact hn.filter _

theorem length_mergePair_lt (hd : duplicate ∈ claims) :
    (mergePair o claims survivor duplicate).length < claims.length := by
  rw [mergePair, length_map]
  exact length_filter_lt_length_iff_exists.2 ⟨duplicate, hd, by simp⟩

theorem mergePair_perm (hn : (claims.map (·.file)).Nodup) (hs : survivor ∈ claims) (hd : duplicate ∈ claims)
    (hne : survivor.file ≠ duplicate.file) :
    ∃ others : List RegistryClaim,
      claims.Perm (duplicate :: survivor :: others) ∧
      (mergePair o claims survivor duplicate).Perm (mergeInto o survivor duplicate :: others) := by
  have hn' : ((claims.filter (·.file ≠ duplicate.file)).map (·.file)).Nodup :=
    (filter_sublist.map _).nodup hn
  have hs' : survivor ∈ claims.filter (·.file ≠ duplicate.file) :=
    mem_filter.2 ⟨hs, by simpa using hne⟩
  have hrest := perm_cons_filter hn' hs'
  refine ⟨_, (perm_cons_filter hn hd).trans (hrest.cons _), (hrest.map _).trans (Perm.of_eq ?_)⟩
  rw [map_cons, if_pos rfl]
  congr 1
  refine (map_congr_left (g := id) fun x hx ↦ ?_).trans (List.map_id _)
  have hxs : x.file ≠ survivor.file := by simpa using (mem_filter.1 hx).2
  exact if_neg hxs

/-! ## The loop -/

/-- What holds of a loop with nothing to merge, and is passed back by every merge, holds of every run. -/
theorem dedupe_rec {motive : List RegistryClaim → List RegistryClaim → List MergeAction → Prop}
    (done : ∀ claims, motive claims claims [])
    (merge : ∀ claims survivor duplicate m rest merges, (claims.map (·.file)).Nodup → survivor ∈ claims →
      duplicate ∈ claims → survivor.file ≠ duplicate.file → m.survivor = survivor.file →
      m.duplicate = duplicate.file → motive (mergePair o claims survivor duplicate) rest merges →
      motive claims rest (m :: merges))
    (rounds : ℕ) (claims : List RegistryClaim) (hn : (claims.map (·.file)).Nodup) :
    motive claims (dedupe o rounds claims).1 (dedupe o rounds claims).2 := by
  induction rounds generalizing claims with
  | zero => exact done claims
  | succ rounds ih =>
    rw [dedupe]
    split
    · exact done claims
    · next pair hpair =>
      obtain ⟨hs, hd, hne⟩ := roles_mem hn hpair
      exact merge claims _ _ _ _ _ hn hs hd hne rfl rfl (ih _ (nodup_mergePair hn))

theorem nodup_dedupe (rounds : ℕ) (hn : (claims.map (·.file)).Nodup) :
    ((dedupe o rounds claims).1.map (·.file)).Nodup := by
  refine dedupe_rec (motive := fun claims rest _ ↦ (claims.map (·.file)).Nodup → (rest.map (·.file)).Nodup)
    (fun _ h ↦ h) ?_ rounds claims hn hn
  intro claims survivor duplicate m rest merges _ _ _ _ _ _ ih hn
  exact ih (nodup_mergePair hn)

/-- The loop ends because nothing is left to merge, not because its rounds ran out. -/
theorem firstPair_dedupe {rounds : ℕ} (hn : (claims.map (·.file)).Nodup) (hlen : claims.length ≤ rounds) :
    firstPair o (dedupe o rounds claims).1 = none := by
  induction rounds generalizing claims with
  | zero =>
    rw [length_eq_zero_iff.1 (Nat.le_zero.1 hlen)]
    rfl
  | succ rounds ih =>
    rw [dedupe]
    split
    · assumption
    · next pair hpair =>
      obtain ⟨-, hd, -⟩ := roles_mem hn hpair
      have hlt : (mergePair o claims (roles o pair).1 (roles o pair).2).length < claims.length :=
        length_mergePair_lt hd
      exact ih (nodup_mergePair hn) (by omega)

theorem dedupe_of_none (rounds : ℕ) (h : firstPair o claims = none) : dedupe o rounds claims = (claims, []) := by
  cases rounds with
  | zero => rfl
  | succ rounds => rw [dedupe, h]

end Amicode.Claims
