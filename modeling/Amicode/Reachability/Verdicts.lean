import Amicode.Foundation.StepMachine
import Amicode.Reachability.Document

/-!
# Verdicts of the reachability cache

A row must be served as ok only on the word of a probe under the credential that the provider has now, a
demotion must stay in force until a probe that was started after it has been merged, and the time at which a
model was first ok must stay while the credential does.

Probes are started and merged in separate steps, so that they overlap with each other and with demotions; the
updates of the document are atomic here. A merge does not look at when its probe was started. One that was
started before a demotion replaces it, and one that was started before another replaces its word, so the first
two parts of the law hold in every run where no merge does so (`verdictLaw_run`). The third holds in all runs.
-/

namespace Amicode.Reachability

open StepMachine JsObject List Option

/-- What is done with an answer. -/
inductive Outcome
  /-- It is not merged: that of a subset probe, under another credential. -/
  | refused
  | kept
  /-- Merged, with a change of the provider's credential. -/
  | renewed
deriving DecidableEq

/-- What becomes of an answer, by the entry it meets. -/
def CachedProvider.outcome (isPartial : Bool) (rows : List ProbeResult) (p : CachedProvider) : Outcome :=
  if answerFp p rows = p.credential_fp then .kept
  else if isPartial && p.last_probe_at.isSome then .refused
  else .renewed

inductive Event
  /-- A probe has answered, which had been started when the log had this length. -/
  | answered (provider : String) (rows : List ProbeResult) (startedAt : ℕ) (outcome : Outcome)
  | demoted (provider model : String) (status : ProbeStatus)
deriving DecidableEq

structure Probe where
  provider : String
  isPartial : Bool
  startedAt : ℕ

structure VerdictState where
  doc : CacheDoc
  probes : ℕ → Option Probe
  /-- The number of the next probe. -/
  next : ℕ
  log : List Event

def VerdictState.start : VerdictState := ⟨emptyDoc, fun _ ↦ none, 0, []⟩

inductive VerdictOp
  | startProbe (provider : String) (isPartial : Bool)
  | finishProbe (id : ℕ) (batches : List (Option (List ProbeResult))) (now : ℤ)
  | demote (provider model : String) (status : ProbeStatus) (reason : Option String) (now : ℤ)

/-- The entry of a provider, or an empty one. -/
def CacheDoc.provider (doc : CacheDoc) (provider : String) : CachedProvider :=
  (own? doc.providers provider).getD emptyProvider

def ID_MAX : ℕ := 256

/-- Whether an identifier of a demotion, which has been trimmed, is taken. -/
def isIdentifier (text : String) : Bool := text ≠ "" && JsText.utf16Length text.toList ≤ ID_MAX

/-- A demotion names a failure. -/
def demotable (provider model : String) (status : ProbeStatus) : Bool :=
  isIdentifier provider && isIdentifier model && status ≠ .ok

def answer (s : VerdictState) (probe : Probe) (rows : List ProbeResult) (now : ℤ) : VerdictState :=
  { s with
    doc := s.doc.rewrite probe.provider (CachedProvider.merge probe.isPartial now rows)
    log := s.log ++ [.answered probe.provider rows probe.startedAt
      ((s.doc.provider probe.provider).outcome probe.isPartial rows)] }

def finishProbe (s : VerdictState) (probe : Probe) (batches : List (Option (List ProbeResult))) (now : ℤ) :
    VerdictState :=
  match collect batches with
  | none => { s with doc := s.doc.rewrite probe.provider CachedProvider.fail }
  | some rows => answer s probe rows now

def verdictStep (s : VerdictState) : VerdictOp → VerdictState
  | .startProbe provider isPartial =>
    { s with
      probes := fun id ↦ if id = s.next then some ⟨provider, isPartial, s.log.length⟩ else s.probes id
      next := s.next + 1 }
  | .finishProbe id batches now =>
    match s.probes id with
    | none => s
    | some probe =>
      finishProbe { s with probes := fun k ↦ if k = id then none else s.probes k } probe batches now
  | .demote provider model status reason now =>
    if demotable provider model status then
      { s with
        doc := s.doc.rewrite provider (CachedProvider.demote model status reason now)
        log := s.log ++ [.demoted provider model status] }
    else s

/-! ## The law -/

def lastRow (rows : List ProbeResult) (model : String) : Option ProbeResult :=
  (rows.filter fun r ↦ r.model = model).getLast?

/-- An answer says of a model, under a fingerprint, that it is not ok. -/
def AnswersOtherwise (rows : List ProbeResult) (model : String) (fp : Option String) : Prop :=
  ∃ r ∈ rows, r.model = model ∧ r.credential_fp = fp ∧ r.status ≠ .ok

/-- Since the provider has the fingerprint, a probe has answered ok for the model under it, and none that was
started later or has answered later said otherwise. -/
def OkJustified (log : List Event) (provider model : String) (fp : Option String) : Prop :=
  ∃ before rows startedAt outcome after, log = before ++ .answered provider rows startedAt outcome :: after ∧
    (∃ r ∈ lastRow rows model, r.credential_fp = fp ∧ r.status = .ok) ∧
    (∀ rows' startedAt', .answered provider rows' startedAt' .renewed ∉ after) ∧
    (∀ rows' startedAt' outcome', .answered provider rows' startedAt' outcome' ∈ after →
      ¬ AnswersOtherwise rows' model fp) ∧
    ∀ rows' startedAt' outcome', .answered provider rows' startedAt' outcome' ∈ before → startedAt < startedAt' →
      ¬ AnswersOtherwise rows' model fp

/-- The event ends a demotion that was made when the log had this length: another demotion of the model, or the
merge of a probe that was started after it and says something of the model or renews the credential. -/
def Ends (madeAt : ℕ) (provider model : String) : Event → Prop
  | .demoted provider' model' _ => provider' = provider ∧ model' = model
  | .answered provider' rows startedAt outcome =>
    provider' = provider ∧ madeAt < startedAt ∧
      (outcome = .renewed ∨ outcome = .kept ∧ ∃ r ∈ rows, r.model = model)

def InForce (log : List Event) (madeAt : ℕ) (provider model : String) (status : ProbeStatus) : Prop :=
  ∃ before after, log = before ++ .demoted provider model status :: after ∧ before.length = madeAt ∧
    ∀ event ∈ after, ¬ Ends madeAt provider model event

structure VerdictLaw (s : VerdictState) : Prop where
  ok : ∀ provider model, (rowOf s.doc provider model).status = some .ok →
    OkJustified s.log provider model (s.doc.provider provider).credential_fp
  demotion : ∀ madeAt provider model status, InForce s.log madeAt provider model status →
    (rowOf s.doc provider model).status = some status ∧ (rowOf s.doc provider model).source = some .demoted

def CacheDoc.firstOkAt (doc : CacheDoc) (provider model : String) : Option ℤ :=
  (own? (doc.provider provider).models model).bind CachedModel.first_ok_at

/-- The time does not change as long as the credential does not. -/
def FirstOkKept (ops : List VerdictOp) : Prop :=
  ∀ provider model t n k, n ≤ k →
    (∀ j, n ≤ j → j ≤ k →
      ((run verdictStep .start (ops.take j)).doc.provider provider).credential_fp =
        ((run verdictStep .start (ops.take n)).doc.provider provider).credential_fp) →
    (run verdictStep .start (ops.take n)).doc.firstOkAt provider model = some t →
      (run verdictStep .start (ops.take k)).doc.firstOkAt provider model = some t

/-! ## The condition -/

/-- What a merge must not do. -/
structure OrderlyAnswer (s : VerdictState) (probe : Probe) (rows : List ProbeResult) : Prop where
  /-- It does not say ok where a probe that was started later has said otherwise, -/
  latest : ∀ model, (∃ r ∈ lastRow rows model,
      r.credential_fp = answerFp (s.doc.provider probe.provider) rows ∧ r.status = .ok) →
    ∀ rows' startedAt' outcome', .answered probe.provider rows' startedAt' outcome' ∈ s.log →
      probe.startedAt < startedAt' →
        ¬ AnswersOtherwise rows' model (answerFp (s.doc.provider probe.provider) rows)
  /-- nor is it refused while it says otherwise under the provider's fingerprint of a model that is ok, -/
  refused : (s.doc.provider probe.provider).outcome probe.isPartial rows = .refused → ∀ model,
    (rowOf s.doc probe.provider model).status = some .ok →
      ¬ AnswersOtherwise rows model (s.doc.provider probe.provider).credential_fp
  /-- nor does it replace a demotion that was made after its probe was started. -/
  demotions : (s.doc.provider probe.provider).outcome probe.isPartial rows ≠ .refused →
    ∀ madeAt model status, InForce s.log madeAt probe.provider model status → probe.startedAt ≤ madeAt →
      (s.doc.provider probe.provider).outcome probe.isPartial rows = .kept ∧ ∀ r ∈ rows, r.model ≠ model

def Orderly (s : VerdictState) : VerdictOp → Prop
  | .finishProbe id batches _ => ∀ probe ∈ s.probes id, ∀ rows ∈ collect batches, OrderlyAnswer s probe rows
  | .demote provider model _ _ _ => provider ∉ inheritedNames ∧ model ≠ "__proto__"
  | .startProbe _ _ => True

/-! ## Entries and rows -/

section Entries

variable {doc : CacheDoc} {provider k model : String} {f : CachedProvider → Option CachedProvider}
  {p p' : CachedProvider} {rows : List ProbeResult} {models : List (String × CachedModel)} {isPartial : Bool}
  {now : ℤ}

theorem cached?_eq (doc : CacheDoc) (provider model : String) :
    doc.cached? provider model = (own? (doc.provider provider).models model).filter fun m ↦
      m.credential_fp = (doc.provider provider).credential_fp := by
  unfold CacheDoc.cached? CacheDoc.provider
  rcases own? doc.providers provider with _ | p <;> rfl

theorem rowOf_congr {doc doc' : CacheDoc} (h : doc'.cached? provider model = doc.cached? provider model) :
    rowOf doc' provider model = rowOf doc provider model := by
  rw [rowOf, rowOf, h]

theorem rowOf_of_provider {doc doc' : CacheDoc} (h : doc'.provider provider = doc.provider provider)
    (model : String) :
    rowOf doc' provider model = rowOf doc provider model :=
  rowOf_congr (by rw [cached?_eq, cached?_eq, h])

theorem status_rowOf (doc : CacheDoc) (provider model : String) :
    (rowOf doc provider model).status = (doc.cached? provider model).map CachedModel.status := by
  unfold rowOf
  rcases doc.cached? provider model with _ | m <;> rfl

theorem source_rowOf (doc : CacheDoc) (provider model : String) :
    (rowOf doc provider model).source = (doc.cached? provider model).map CachedModel.source := by
  unfold rowOf
  rcases doc.cached? provider model with _ | m <;> rfl

theorem lookup?_eq (h : doc.lookup? provider = some p) : doc.provider provider = p := by
  unfold CacheDoc.lookup? at h
  unfold CacheDoc.provider
  rcases hown : own? doc.providers provider with _ | p₀
  · rw [hown] at h
    simp only at h
    split_ifs at h
    exact Option.some.inj h
  · rw [hown] at h
    exact Option.some.inj h

theorem provider_rewrite_of_ne (h : provider ≠ k) : (doc.rewrite provider f).provider k = doc.provider k := by
  rw [CacheDoc.provider, own?_rewrite_of_ne h, CacheDoc.provider]

theorem provider_rewrite_self (h : provider ∉ inheritedNames) :
    (doc.rewrite provider f).provider provider = (f (doc.provider provider)).getD (doc.provider provider) := by
  rw [CacheDoc.provider, own?_rewrite_self h, ← CacheDoc.provider]
  rcases f (doc.provider provider) with _ | p <;> rfl

/-- Any entry stays, or becomes what the rewriting makes of it. -/
theorem provider_rewrite (doc : CacheDoc) (provider k : String) (f : CachedProvider → Option CachedProvider) :
    (doc.rewrite provider f).provider k = doc.provider k ∨
      ∃ p' ∈ f (doc.provider k), (doc.rewrite provider f).provider k = p' := by
  by_cases hk : provider = k
  · subst hk
    unfold CacheDoc.rewrite
    rcases hfound : (doc.lookup? provider).bind f with _ | p'
    · exact .inl rfl
    · obtain ⟨p, hp, hp'⟩ := bind_eq_some_iff.mp hfound
      rw [← lookup?_eq hp] at hp'
      by_cases hproto : provider = "__proto__"
      · exact .inl (by simp only [put, if_pos hproto])
      · refine .inr ⟨p', hp', ?_⟩
        simp only [CacheDoc.provider, own?_put_self hproto, getD_some]
  · exact .inl (provider_rewrite_of_ne hk)

variable {r : ProbeResult} {baseline : Bool}

theorem own?_mergeRow_of_ne (h : r.model ≠ model) :
    own? (mergeRow baseline models r) model = own? models model := own?_put_of_ne h

theorem own?_foldl_mergeRow_of_ne (baseline : Bool) (h : ∀ r ∈ rows, r.model ≠ model)
    (models : List (String × CachedModel)) :
    own? (rows.foldl (mergeRow baseline) models) model = own? models model := by
  induction rows generalizing models with
  | nil => rfl
  | cons r rows ih =>
    rw [forall_mem_cons] at h
    rw [foldl_cons, ih h.2, own?_mergeRow_of_ne h.1]

theorem lastRow_concat (rows : List ProbeResult) (r : ProbeResult) (model : String) :
    lastRow (rows ++ [r]) model = if r.model = model then some r else lastRow rows model := by
  unfold lastRow
  rw [filter_append]
  by_cases h : r.model = model <;> simp [h]

theorem lastRow_eq_none_iff : lastRow rows model = none ↔ ∀ r ∈ rows, r.model ≠ model := by
  simp [lastRow]

theorem own?_foldl_mergeRow (baseline : Bool) (hmodel : model ≠ "__proto__")
    (h : r ∈ lastRow rows model) (models : List (String × CachedModel)) :
    ∃ m, own? (rows.foldl (mergeRow baseline) models) model = some m ∧ m.status = r.status ∧
      m.credential_fp = r.credential_fp := by
  induction rows using List.reverseRecOn with
  | nil => simp [lastRow] at h
  | append_singleton rows r' ih =>
    rw [lastRow_concat] at h
    rw [foldl_concat]
    by_cases hr : r'.model = model
    · rw [if_pos hr] at h
      obtain rfl := Option.some.inj h
      subst hr
      exact ⟨_, own?_put_self hmodel, rfl, rfl⟩
    · rw [if_neg hr] at h
      rw [own?_mergeRow_of_ne hr]
      exact ih h

theorem own?_mergeRow_proto (h : own? models "__proto__" = none) :
    own? (mergeRow baseline models r) "__proto__" = none := by
  rw [mergeRow, own?_put_proto, h]

theorem own?_foldl_mergeRow_proto (baseline : Bool) (h : own? models "__proto__" = none) :
    own? (rows.foldl (mergeRow baseline) models) "__proto__" = none := by
  induction rows generalizing models with
  | nil => exact h
  | cons r rows ih => exact ih (own?_mergeRow_proto h)

theorem first_ok_at_mergeRow {t : ℤ}
    (h : (own? models model).bind CachedModel.first_ok_at = some t) :
    (own? (mergeRow baseline models r) model).bind CachedModel.first_ok_at = some t := by
  by_cases hr : r.model = model
  · subst hr
    by_cases hproto : r.model = "__proto__"
    · rw [mergeRow, put, if_pos hproto, h]
    · rw [mergeRow, own?_put_self hproto, bind_some, h, some_or]
  · rw [own?_mergeRow_of_ne hr, h]

theorem first_ok_at_foldl_mergeRow (baseline : Bool) {t : ℤ}
    (h : (own? models model).bind CachedModel.first_ok_at = some t) :
    (own? (rows.foldl (mergeRow baseline) models) model).bind CachedModel.first_ok_at = some t := by
  induction rows generalizing models with
  | nil => exact h
  | cons r rows ih => exact ih (first_ok_at_mergeRow h)

/-! ## Merges, by what becomes of the answer -/

theorem merge_of_refused (h : p.outcome isPartial rows = .refused) : p.merge isPartial now rows = none := by
  unfold CachedProvider.outcome at h
  split_ifs at h with hfp hrefused
  simp only [Bool.and_eq_true] at hrefused
  simp [CachedProvider.merge, hrefused, hfp]

theorem merge_of_kept (now : ℤ) (h : p.outcome isPartial rows = .kept) :
    ∃ p' baseline, p.merge isPartial now rows = some p' ∧ p'.credential_fp = p.credential_fp ∧
      answerFp p rows = p.credential_fp ∧ p'.models = rows.foldl (mergeRow baseline) p.models := by
  unfold CachedProvider.outcome at h
  split_ifs at h with hfp
  simp only [CachedProvider.merge, hfp, ne_eq, not_true_eq_false, decide_false, Bool.and_false, Bool.false_eq_true,
    if_false, Option.some.injEq]
  exact ⟨_, _, rfl, rfl, trivial, rfl⟩

theorem merge_of_renewed (now : ℤ) (h : p.outcome isPartial rows = .renewed) :
    ∃ p' baseline, p.merge isPartial now rows = some p' ∧ p'.credential_fp = answerFp p rows ∧
      answerFp p rows ≠ p.credential_fp ∧ p'.models = rows.foldl (mergeRow baseline) [] := by
  unfold CachedProvider.outcome at h
  split_ifs at h with hfp hrefused
  simp only [CachedProvider.merge, hfp, hrefused, Bool.false_eq_true, ne_eq, not_false_eq_true, if_true,
    Bool.false_and, if_false, decide_true, Bool.or_true, Option.some.injEq]
  exact ⟨_, _, rfl, rfl, trivial, rfl⟩

end Entries

/-! ## The log grows -/

section Log

variable {log : List Event} {event : Event} {provider model : String} {fp : Option String} {status : ProbeStatus}
  {madeAt : ℕ}

theorem OkJustified.concat (h : OkJustified log provider model fp)
    (hrenewed : ∀ rows startedAt, event ≠ .answered provider rows startedAt .renewed)
    (hother : ∀ rows startedAt outcome, event = .answered provider rows startedAt outcome →
      ¬ AnswersOtherwise rows model fp) :
    OkJustified (log ++ [event]) provider model fp := by
  obtain ⟨before, rows, startedAt, outcome, after, rfl, hok, hkept, hafter, hbefore⟩ := h
  refine ⟨before, rows, startedAt, outcome, after ++ [event], by simp, hok, fun rows' startedAt' hmem ↦ ?_,
    fun rows' startedAt' outcome' hmem ↦ ?_, hbefore⟩
  · rcases mem_append.mp hmem with hmem | hmem
    · exact hkept rows' startedAt' hmem
    · exact hrenewed rows' startedAt' (mem_singleton.mp hmem).symm
  · rcases mem_append.mp hmem with hmem | hmem
    · exact hafter rows' startedAt' outcome' hmem
    · exact hother rows' startedAt' outcome' (mem_singleton.mp hmem).symm

theorem inForce_concat (h : InForce (log ++ [event]) madeAt provider model status) :
    (event = .demoted provider model status ∧ madeAt = log.length) ∨
      (InForce log madeAt provider model status ∧ ¬ Ends madeAt provider model event) := by
  obtain ⟨before, after, hlog, hlength, hafter⟩ := h
  rcases eq_nil_or_concat after with rfl | ⟨after, last, rfl⟩
  · obtain ⟨rfl, hevent⟩ := append_inj' hlog rfl
    exact .inl ⟨(List.cons.inj hevent).1, hlength.symm⟩
  · rw [concat_eq_append, ← cons_append, ← append_assoc] at hlog
    obtain ⟨rfl, hevent⟩ := append_inj' hlog rfl
    obtain rfl := (List.cons.inj hevent).1
    exact .inr ⟨⟨before, after, rfl, hlength, fun e he ↦ hafter e (by simp [he])⟩, hafter event (by simp)⟩

theorem InForce.mem (h : InForce log madeAt provider model status) : .demoted provider model status ∈ log := by
  obtain ⟨before, after, rfl, -⟩ := h
  simp

end Log

/-! ## Steps keep the law -/

structure Upheld (s : VerdictState) : Prop where
  /-- The file has nothing under a name that every object inherits, -/
  plain : ∀ provider ∈ inheritedNames, own? s.doc.providers provider = none
  proto : ∀ provider, own? (s.doc.provider provider).models "__proto__" = none
  /-- and no demotion was of such a name. -/
  named : ∀ provider model status, .demoted provider model status ∈ s.log →
    provider ∉ inheritedNames ∧ model ≠ "__proto__"
  law : VerdictLaw s

theorem upheld_start : Upheld .start where
  plain _ _ := rfl
  proto _ := rfl
  named _ _ _ h := absurd h not_mem_nil
  law := ⟨fun _ _ h ↦ (nomatch h), fun _ _ _ _ h ↦ absurd h.mem not_mem_nil⟩

section Steps

variable {s : VerdictState} {provider : String} {f : CachedProvider → Option CachedProvider}

theorem Upheld.plain_rewrite (h : Upheld s) (provider : String) (f : CachedProvider → Option CachedProvider) :
    ∀ k ∈ inheritedNames, own? (s.doc.rewrite provider f).providers k = none := by
  intro k hk
  by_cases hprovider : provider = k
  · subst hprovider
    have hnone : s.doc.lookup? provider = none := by
      rw [CacheDoc.lookup?, h.plain provider hk]
      exact if_pos (by simpa using hk)
    rw [CacheDoc.rewrite, hnone]
    exact h.plain provider hk
  · rw [own?_rewrite_of_ne hprovider]
    exact h.plain k hk

theorem Upheld.proto_rewrite (h : Upheld s) (provider : String)
    (hf : ∀ p, own? p.models "__proto__" = none → ∀ p' ∈ f p, own? p'.models "__proto__" = none) :
    ∀ k, own? ((s.doc.rewrite provider f).provider k).models "__proto__" = none := by
  intro k
  rcases provider_rewrite s.doc provider k f with hk | ⟨p', hp', hk⟩
  · rw [hk, h.proto]
  · rw [hk]
    exact hf _ (h.proto k) p' hp'

/-- An entry that keeps its rows and its credential is served as before. -/
theorem cached?_rewrite_of_kept (hf : ∀ p, ∀ p' ∈ f p, p'.credential_fp = p.credential_fp ∧ p'.models = p.models)
    (k model : String) : (s.doc.rewrite provider f).cached? k model = s.doc.cached? k model := by
  rw [cached?_eq, cached?_eq]
  rcases provider_rewrite s.doc provider k f with hk | ⟨p', hp', hk⟩
  · rw [hk]
  · rw [hk, (hf _ p' hp').1, (hf _ p' hp').2]

theorem credential_fp_rewrite (hf : ∀ p, ∀ p' ∈ f p, p'.credential_fp = p.credential_fp) (k : String) :
    ((s.doc.rewrite provider f).provider k).credential_fp = (s.doc.provider k).credential_fp := by
  rcases provider_rewrite s.doc provider k f with hk | ⟨p', hp', hk⟩
  · rw [hk]
  · rw [hk, hf _ p' hp']

theorem Upheld.fail (h : Upheld s) (provider : String) :
    Upheld { s with doc := s.doc.rewrite provider CachedProvider.fail } := by
  have hf : ∀ p, ∀ p' ∈ CachedProvider.fail p, p'.credential_fp = p.credential_fp ∧ p'.models = p.models :=
    fun p p' hp' ↦ by
      obtain rfl := Option.some.inj hp'
      exact ⟨rfl, rfl⟩
  have hrow : ∀ k model, rowOf (s.doc.rewrite provider CachedProvider.fail) k model = rowOf s.doc k model :=
    fun k model ↦ rowOf_congr (cached?_rewrite_of_kept hf k model)
  refine ⟨h.plain_rewrite _ _, h.proto_rewrite _ fun p hp p' hp' ↦ (hf p p' hp').2 ▸ hp, h.named, ?_, ?_⟩
  · intro k model hok
    rw [hrow] at hok
    rw [credential_fp_rewrite fun p p' hp' ↦ (hf p p' hp').1]
    exact h.law.ok k model hok
  · intro madeAt k model status hforce
    rw [hrow]
    exact h.law.demotion madeAt k model status hforce

variable {status : ProbeStatus} {model : String}

theorem credential_fp_demote {p p' : CachedProvider} {reason : Option String}
    {now : ℤ} (hp' : p' ∈ p.demote model status reason now) : p'.credential_fp = p.credential_fp := by
  obtain rfl := Option.some.inj hp'
  rfl

theorem cached?_demote_of_ne {provider model k m : String} (hne : ¬ (k = provider ∧ m = model)) (status : ProbeStatus)
    (reason : Option String) (now : ℤ) :
    (s.doc.rewrite provider (CachedProvider.demote model status reason now)).cached? k m = s.doc.cached? k m := by
  rw [cached?_eq, cached?_eq, credential_fp_rewrite fun _ _ hp' ↦ credential_fp_demote hp']
  by_cases hk : provider = k
  · subst hk
    have hm : model ≠ m := fun hm ↦ hne ⟨rfl, hm.symm⟩
    rcases provider_rewrite s.doc provider provider (CachedProvider.demote model status reason now) with
      hkept | ⟨p', hp', hnew⟩
    · rw [hkept]
    · rw [hnew]
      obtain rfl := Option.some.inj hp'
      rw [own?_put_of_ne hm]
  · rw [provider_rewrite_of_ne hk]

theorem cached?_demote_self (hprovider : provider ∉ inheritedNames) (hmodel : model ≠ "__proto__")
    (status : ProbeStatus) (reason : Option String) (now : ℤ) :
    ∃ m, (s.doc.rewrite provider (CachedProvider.demote model status reason now)).cached? provider model = some m ∧
      m.status = status ∧ m.source = .demoted := by
  rw [cached?_eq, provider_rewrite_self hprovider]
  simp only [CachedProvider.demote, getD_some, own?_put_self hmodel]
  exact ⟨_, filter_some_pos (decide_eq_true rfl), rfl, rfl⟩

theorem Upheld.demote (h : Upheld s) (reason : Option String) (now : ℤ)
    (hdemotable : demotable provider model status = true) (hprovider : provider ∉ inheritedNames)
    (hmodel : model ≠ "__proto__") : Upheld { s with
        doc := s.doc.rewrite provider (CachedProvider.demote model status reason now)
        log := s.log ++ [.demoted provider model status] } := by
  obtain ⟨m, hcached, hstatus, hsource⟩ := cached?_demote_self (s := s) hprovider hmodel status reason now
  have hfailure : status ≠ .ok := by
    simp only [demotable, Bool.and_eq_true, decide_eq_true_eq] at hdemotable
    exact hdemotable.2
  refine ⟨h.plain_rewrite _ _, h.proto_rewrite _ fun p hp p' hp' ↦ ?_, fun k m status' hmem ↦ ?_, fun k m' hok ↦ ?_,
    fun madeAt k m' status' hforce ↦ ?_⟩
  · obtain rfl := Option.some.inj hp'
    rw [own?_put_proto, hp]
  · rcases mem_append.mp hmem with hmem | hmem
    · exact h.named k m status' hmem
    · obtain ⟨rfl, rfl, -⟩ := Event.demoted.inj (mem_singleton.mp hmem)
      exact ⟨hprovider, hmodel⟩
  · by_cases hself : k = provider ∧ m' = model
    · obtain ⟨rfl, rfl⟩ := hself
      rw [status_rowOf, hcached, map_some, hstatus] at hok
      exact absurd (Option.some.inj hok) hfailure
    · rw [rowOf_congr (cached?_demote_of_ne hself status reason now)] at hok
      rw [credential_fp_rewrite fun _ _ hp' ↦ credential_fp_demote hp']
      exact (h.law.ok k m' hok).concat (fun _ _ ↦ by simp) fun _ _ _ hevent ↦ by simp at hevent
  · rcases inForce_concat hforce with ⟨hevent, -⟩ | ⟨hforce, hends⟩
    · obtain ⟨rfl, rfl, rfl⟩ := Event.demoted.inj hevent
      rw [status_rowOf, source_rowOf, hcached, map_some, map_some, hstatus, hsource]
      exact ⟨rfl, rfl⟩
    · rw [rowOf_congr (cached?_demote_of_ne (fun hself ↦ hends ⟨hself.1.symm, hself.2.symm⟩) status reason now)]
      exact h.law.demotion madeAt k m' status' hforce

theorem merge_proto {p p' : CachedProvider} {isPartial : Bool} {now : ℤ} {rows : List ProbeResult}
    (hp : own? p.models "__proto__" = none) (hp' : p' ∈ p.merge isPartial now rows) :
    own? p'.models "__proto__" = none := by
  rcases houtcome : p.outcome isPartial rows
  · rw [merge_of_refused houtcome] at hp'
    simp at hp'
  · obtain ⟨p'', baseline, hmerge, -, -, hmodels⟩ := merge_of_kept now houtcome
    obtain rfl := Option.some.inj (hmerge.symm.trans hp')
    rw [hmodels]
    exact own?_foldl_mergeRow_proto baseline hp
  · obtain ⟨p'', baseline, hmerge, -, -, hmodels⟩ := merge_of_renewed now houtcome
    obtain rfl := Option.some.inj (hmerge.symm.trans hp')
    rw [hmodels]
    exact own?_foldl_mergeRow_proto baseline rfl

variable {probe : Probe} {rows : List ProbeResult} {now : ℤ} {model : String}

theorem cached?_answer_of_ne (now : ℤ) (hprovider : probe.provider ∉ inheritedNames)
    (houtcome : (s.doc.provider probe.provider).outcome probe.isPartial rows = .kept)
    (hmodel : ∀ r ∈ rows, r.model ≠ model) :
    (answer s probe rows now).doc.cached? probe.provider model = s.doc.cached? probe.provider model ∧
      ((answer s probe rows now).doc.provider probe.provider).credential_fp =
        (s.doc.provider probe.provider).credential_fp := by
  obtain ⟨p', baseline, hmerge, hfp, -, hmodels⟩ := merge_of_kept now houtcome
  have hp' : (answer s probe rows now).doc.provider probe.provider = p' := by
    rw [answer, provider_rewrite_self hprovider, hmerge, getD_some]
  rw [cached?_eq, cached?_eq, hp', hfp, hmodels, own?_foldl_mergeRow_of_ne baseline hmodel]
  exact ⟨rfl, rfl⟩

theorem answer_of_refused (now : ℤ) (hprovider : probe.provider ∉ inheritedNames)
    (houtcome : (s.doc.provider probe.provider).outcome probe.isPartial rows = .refused) :
    (answer s probe rows now).doc.provider probe.provider = s.doc.provider probe.provider := by
  rw [answer, provider_rewrite_self hprovider, merge_of_refused houtcome]
  rfl

theorem lastRow_of_ok {p' : CachedProvider} {baseline : Bool} {r : ProbeResult} {start : List (String × CachedModel)}
    (hproto : own? p'.models "__proto__" = none) (hmodels : p'.models = rows.foldl (mergeRow baseline) start)
    (hr : r ∈ lastRow rows model)
    (hok : ((own? p'.models model).filter fun m ↦ m.credential_fp = p'.credential_fp).map CachedModel.status =
      some .ok) : r.credential_fp = p'.credential_fp ∧ r.status = .ok := by
  have hmodel : model ≠ "__proto__" := by
    rintro rfl
    rw [hproto] at hok
    simp at hok
  obtain ⟨m, hm, hstatus, hfp⟩ := own?_foldl_mergeRow baseline hmodel hr start
  rw [hmodels, hm] at hok
  obtain ⟨m', hm', hok⟩ := map_eq_some_iff.mp hok
  obtain ⟨hsome, hcurrent⟩ := filter_eq_some_iff.mp hm'
  obtain rfl := Option.some.inj hsome
  exact ⟨hfp.symm.trans (of_decide_eq_true hcurrent), hstatus.symm.trans hok⟩

theorem okJustified_answer (hanswer : OrderlyAnswer s probe rows) {r : ProbeResult} (hr : r ∈ lastRow rows model)
    (hfp : r.credential_fp = answerFp (s.doc.provider probe.provider) rows) (hok : r.status = .ok) :
    OkJustified (answer s probe rows now).log probe.provider model
      (answerFp (s.doc.provider probe.provider) rows) := by
  refine ⟨s.log, rows, probe.startedAt, _, [], rfl, ⟨r, hr, hfp, hok⟩, ?_, ?_,
    hanswer.latest model ⟨r, hr, hfp, hok⟩⟩
  · exact fun _ _ hmem ↦ absurd hmem not_mem_nil
  · exact fun _ _ _ hmem ↦ absurd hmem not_mem_nil

theorem Upheld.ok_answer (h : Upheld s) (hanswer : OrderlyAnswer s probe rows)
    (hprovider : probe.provider ∉ inheritedNames)
    (hok : (rowOf (answer s probe rows now).doc probe.provider model).status = some .ok) :
    OkJustified (answer s probe rows now).log probe.provider model
      ((answer s probe rows now).doc.provider probe.provider).credential_fp := by
  have hproto := h.proto probe.provider
  rcases houtcome : (s.doc.provider probe.provider).outcome probe.isPartial rows
  · have hsame := answer_of_refused now hprovider houtcome
    rw [rowOf_of_provider hsame] at hok
    rw [hsame]
    refine (h.law.ok _ _ hok).concat (fun rows' startedAt' hevent ↦ ?_) fun rows' startedAt' outcome' hevent ↦ ?_
    · simp [houtcome] at hevent
    · obtain ⟨-, rfl, -⟩ := Event.answered.inj hevent
      exact hanswer.refused houtcome model hok
  · rcases hlast : lastRow rows model with _ | r
    · have hnone := lastRow_eq_none_iff.mp hlast
      obtain ⟨hcached, hfp⟩ := cached?_answer_of_ne now hprovider houtcome hnone
      rw [rowOf_congr hcached] at hok
      rw [hfp]
      refine (h.law.ok _ _ hok).concat (fun rows' startedAt' hevent ↦ ?_) fun rows' startedAt' outcome' hevent ↦ ?_
      · simp [houtcome] at hevent
      · obtain ⟨-, rfl, -⟩ := Event.answered.inj hevent
        exact fun ⟨r, hr, hmodel, _⟩ ↦ hnone r hr hmodel
    · obtain ⟨p', baseline, hmerge, hfp, hfp', hmodels⟩ := merge_of_kept now houtcome
      have hp' : (answer s probe rows now).doc.provider probe.provider = p' := by
        rw [answer, provider_rewrite_self hprovider, hmerge, getD_some]
      rw [status_rowOf, cached?_eq, hp'] at hok
      obtain ⟨hr, hstatus⟩ := lastRow_of_ok (merge_proto hproto hmerge) hmodels hlast hok
      rw [hp', hfp, ← hfp']
      exact okJustified_answer hanswer hlast (hr.trans (hfp.trans hfp'.symm)) hstatus
  · obtain ⟨p', baseline, hmerge, hfp, -, hmodels⟩ := merge_of_renewed now houtcome
    have hp' : (answer s probe rows now).doc.provider probe.provider = p' := by
      rw [answer, provider_rewrite_self hprovider, hmerge, getD_some]
    rw [status_rowOf, cached?_eq, hp'] at hok
    rw [hp', hfp]
    rcases hlast : lastRow rows model with _ | r
    · rw [hmodels, own?_foldl_mergeRow_of_ne baseline (lastRow_eq_none_iff.mp hlast)] at hok
      exact nomatch hok
    · obtain ⟨hr, hstatus⟩ := lastRow_of_ok (merge_proto hproto hmerge) hmodels hlast hok
      exact okJustified_answer hanswer hlast (hr.trans hfp) hstatus

theorem rowOf_answer_of_inForce (hanswer : OrderlyAnswer s probe rows)
    (hprovider : probe.provider ∉ inheritedNames) {madeAt : ℕ}
    (hforce : InForce s.log madeAt probe.provider model status)
    (hends : ¬ Ends madeAt probe.provider model (.answered probe.provider rows probe.startedAt
      ((s.doc.provider probe.provider).outcome probe.isPartial rows))) :
    rowOf (answer s probe rows now).doc probe.provider model = rowOf s.doc probe.provider model := by
  by_cases hrefused : (s.doc.provider probe.provider).outcome probe.isPartial rows = .refused
  · exact rowOf_of_provider (answer_of_refused now hprovider hrefused) model
  · have hkept : (s.doc.provider probe.provider).outcome probe.isPartial rows = .kept ∧
        ∀ r ∈ rows, r.model ≠ model := by
      rcases Nat.lt_or_ge madeAt probe.startedAt with hlater | hearlier
      · have hnot := fun hout ↦ hends ⟨rfl, hlater, hout⟩
        rcases houtcome : (s.doc.provider probe.provider).outcome probe.isPartial rows
        · exact absurd houtcome hrefused
        · exact ⟨rfl, fun r hr hmodel ↦ hnot (.inr ⟨houtcome, r, hr, hmodel⟩)⟩
        · exact absurd (.inl houtcome) hnot
      · exact hanswer.demotions hrefused madeAt model status hforce hearlier
    exact rowOf_congr (cached?_answer_of_ne now hprovider hkept.1 hkept.2).1

theorem Upheld.answer (h : Upheld s) (now : ℤ) (hanswer : OrderlyAnswer s probe rows) :
    Upheld (answer s probe rows now) := by
  have hother : ∀ k m, k ≠ probe.provider →
      rowOf (Reachability.answer s probe rows now).doc k m = rowOf s.doc k m ∧
        (Reachability.answer s probe rows now).doc.provider k = s.doc.provider k := by
    intro k m hk
    have hsame : (Reachability.answer s probe rows now).doc.provider k = s.doc.provider k :=
      provider_rewrite_of_ne (Ne.symm hk)
    exact ⟨rowOf_of_provider hsame m, hsame⟩
  have hplain : ∀ k ∈ inheritedNames, own? (Reachability.answer s probe rows now).doc.providers k = none :=
    h.plain_rewrite probe.provider (CachedProvider.merge probe.isPartial now rows)
  refine ⟨hplain, h.proto_rewrite _ fun p hp p' hp' ↦ merge_proto hp hp', fun k m status hmem ↦ ?_,
    fun k m hok ↦ ?_, fun madeAt k m status hforce ↦ ?_⟩
  · rcases mem_append.mp hmem with hmem | hmem
    · exact h.named k m status hmem
    · simp at hmem
  · by_cases hk : k = probe.provider
    · subst hk
      refine h.ok_answer hanswer (fun hinherited ↦ ?_) hok
      rw [status_rowOf, CacheDoc.cached?, hplain _ hinherited] at hok
      exact nomatch hok
    · rw [(hother k m hk).1] at hok
      rw [(hother k m hk).2]
      refine (h.law.ok k m hok).concat (fun _ _ hevent ↦ ?_) fun _ _ _ hevent ↦ ?_
      · exact hk (Event.answered.inj hevent).1.symm
      · exact absurd (Event.answered.inj hevent).1.symm hk
  · rcases inForce_concat hforce with ⟨hevent, -⟩ | ⟨hforce, hends⟩
    · exact nomatch hevent
    · rw [show rowOf (Reachability.answer s probe rows now).doc k m = rowOf s.doc k m from ?_]
      · exact h.law.demotion madeAt k m status hforce
      · by_cases hk : k = probe.provider
        · subst hk
          exact rowOf_answer_of_inForce hanswer (h.named _ _ _ hforce.mem).1 hforce hends
        · exact (hother k m hk).1

theorem Upheld.step (h : Upheld s) (op : VerdictOp) (hop : Orderly s op) : Upheld (verdictStep s op) := by
  rcases op with ⟨provider, isPartial⟩ | ⟨id, batches, now⟩ | ⟨provider, model, status, reason, now⟩
  · exact ⟨h.plain, h.proto, h.named, ⟨h.law.ok, h.law.demotion⟩⟩
  · rcases hprobe : s.probes id with _ | probe
    · simp only [verdictStep, hprobe]
      exact h
    · have hdone : Upheld { s with probes := fun k ↦ if k = id then none else s.probes k } :=
        ⟨h.plain, h.proto, h.named, ⟨h.law.ok, h.law.demotion⟩⟩
      simp only [verdictStep, hprobe, finishProbe]
      rcases hrows : collect batches with _ | rows
      · exact hdone.fail probe.provider
      · have hanswer := hop probe hprobe rows hrows
        exact hdone.answer now ⟨hanswer.latest, hanswer.refused, hanswer.demotions⟩
  · simp only [verdictStep]
    split_ifs with hdemotable
    · exact h.demote reason now hdemotable hop.1 hop.2
    · exact h

end Steps

/-! ## When a model was first ok -/

variable {t : ℤ}

theorem firstOkAt_rewrite {doc : CacheDoc} {provider : String} {f : CachedProvider → Option CachedProvider}
    (hf : ∀ p, ∀ p' ∈ f p, p'.credential_fp = p.credential_fp → ∀ model t,
      (own? p.models model).bind CachedModel.first_ok_at = some t →
        (own? p'.models model).bind CachedModel.first_ok_at = some t) {k model : String}
    (hfp : ((doc.rewrite provider f).provider k).credential_fp = (doc.provider k).credential_fp)
    (ht : doc.firstOkAt k model = some t) : (doc.rewrite provider f).firstOkAt k model = some t := by
  unfold CacheDoc.firstOkAt at ht ⊢
  rcases provider_rewrite doc provider k f with hk | ⟨p', hp', hk⟩
  · rw [hk, ht]
  · rw [hk] at hfp ⊢
    exact hf _ p' hp' hfp model t ht

theorem first_ok_at_merge {p p' : CachedProvider} {isPartial : Bool} {now : ℤ} {rows : List ProbeResult}
    (hp' : p' ∈ p.merge isPartial now rows) (hfp : p'.credential_fp = p.credential_fp) {model : String}
    (ht : (own? p.models model).bind CachedModel.first_ok_at = some t) :
    (own? p'.models model).bind CachedModel.first_ok_at = some t := by
  rcases houtcome : p.outcome isPartial rows
  · rw [merge_of_refused houtcome] at hp'
    simp at hp'
  · obtain ⟨p'', baseline, hmerge, -, -, hmodels⟩ := merge_of_kept now houtcome
    obtain rfl := Option.some.inj (hmerge.symm.trans hp')
    rw [hmodels]
    exact first_ok_at_foldl_mergeRow baseline ht
  · obtain ⟨p'', baseline, hmerge, hnew, hne, -⟩ := merge_of_renewed now houtcome
    obtain rfl := Option.some.inj (hmerge.symm.trans hp')
    exact absurd (hnew.symm.trans hfp) hne

theorem first_ok_at_demote {p p' : CachedProvider} {demoted : String} {status : ProbeStatus} {reason : Option String}
    {now : ℤ} (hp' : p' ∈ p.demote demoted status reason now) {model : String}
    (ht : (own? p.models model).bind CachedModel.first_ok_at = some t) :
    (own? p'.models model).bind CachedModel.first_ok_at = some t := by
  obtain rfl := Option.some.inj hp'
  by_cases hmodel : demoted = model
  · subst hmodel
    by_cases hproto : demoted = "__proto__"
    · simp only [put, if_pos hproto, ht]
    · simp only [own?_put_self hproto, bind_some, ht]
  · rw [own?_put_of_ne hmodel, ht]

/-- No step changes the time, unless it changes the credential. -/
theorem firstOkAt_step {s : VerdictState} (op : VerdictOp) {provider model : String}
    (hfp : ((verdictStep s op).doc.provider provider).credential_fp = (s.doc.provider provider).credential_fp)
    (ht : s.doc.firstOkAt provider model = some t) : (verdictStep s op).doc.firstOkAt provider model = some t := by
  rcases op with ⟨k, isPartial⟩ | ⟨id, batches, now⟩ | ⟨k, demoted, status, reason, now⟩
  · exact ht
  · simp only [verdictStep] at hfp ⊢
    rcases hprobe : s.probes id with _ | probe
    · exact ht
    · simp only [hprobe, finishProbe] at hfp ⊢
      rcases hrows : collect batches with _ | rows
      · simp only [hrows] at hfp
        refine firstOkAt_rewrite (fun p p' hp' _ model t ht ↦ ?_) hfp ht
        obtain rfl := Option.some.inj hp'
        exact ht
      · simp only [hrows] at hfp
        exact firstOkAt_rewrite (fun p p' hp' hfp model t ht ↦ first_ok_at_merge hp' hfp ht) hfp ht
  · simp only [verdictStep] at hfp ⊢
    by_cases hdemotable : demotable k demoted status = true
    · rw [if_pos hdemotable] at hfp ⊢
      exact firstOkAt_rewrite (fun p p' hp' _ model t ht ↦ first_ok_at_demote hp' ht) hfp ht
    · rw [if_neg hdemotable]
      exact ht

theorem firstOkKept (ops : List VerdictOp) : FirstOkKept ops := by
  intro provider model t n k hk hfp ht
  induction k, hk using Nat.le_induction with
  | base => exact ht
  | succ k hk ih =>
    have ih := ih fun j hn hj ↦ hfp j hn (Nat.le_succ_of_le hj)
    have hsame := (hfp (k + 1) (Nat.le_succ_of_le hk) le_rfl).trans (hfp k hk (Nat.le_succ k)).symm
    rcases hop : ops[k]? with _ | op
    · rw [take_add_one, hop, toList_none, append_nil]
      exact ih
    · rw [take_add_one, hop, toList_some, run_concat] at hsame ⊢
      exact firstOkAt_step op hsame ih

/-- What is owed of a run. -/
structure VerdictLaws (ops : List VerdictOp) : Prop where
  served : ∀ n, VerdictLaw (run verdictStep .start (ops.take n))
  firstOk : FirstOkKept ops

/-- In a run whose answers are orderly, what is served as ok is ok by the latest evidence, and demotions stay in
force. -/
theorem verdictLaw_run (ops : List VerdictOp) (h : Guarded verdictStep Orderly .start ops) : VerdictLaws ops := by
  refine ⟨fun n ↦ ?_, firstOkKept ops⟩
  rw [← List.take_append_drop n ops, guarded_append] at h
  exact (invariant_run_of_guarded (fun s op hs hop ↦ hs.step op hop) upheld_start h.1).law

def soleRow (status : ProbeStatus) : ProbeResult := ⟨"gpt", status, 1, none, some "fp", 1⟩

theorem verdictLaw_demoted :
    VerdictLaws [.startProbe "openai" false, .finishProbe 0 [some [soleRow .ok]] 1,
      .demote "openai" "gpt" .denied none 2] := by
  refine verdictLaw_run _ ⟨trivial, fun probe hprobe rows hrows ↦ ?_, ⟨by decide, by decide⟩, trivial⟩
  obtain rfl := Option.some.inj hprobe
  obtain rfl := Option.some.inj hrows
  exact ⟨fun _ _ _ _ _ hmem ↦ absurd hmem List.not_mem_nil, fun hrefused ↦ absurd hrefused (by decide),
    fun _ _ _ _ hforce ↦ absurd hforce.mem List.not_mem_nil⟩

/-- A probe that was started before a demotion answers after it. -/
def lateAnswer : List VerdictOp :=
  [.startProbe "openai" false, .finishProbe 0 [some [soleRow .ok]] 1, .startProbe "openai" false,
    .demote "openai" "gpt" .denied none 2, .finishProbe 1 [some [soleRow .ok]] 3]

theorem not_verdictLaws_lateAnswer : ¬ VerdictLaws lateAnswer := by
  intro hlaw
  have hforce : InForce (run verdictStep .start (lateAnswer.take 5)).log 1 "openai" "gpt" .denied := by
    refine ⟨[.answered "openai" [soleRow .ok] 0 .renewed], [.answered "openai" [soleRow .ok] 1 .kept], by decide, rfl,
      fun event hevent ↦ ?_⟩
    obtain rfl := List.mem_singleton.mp hevent
    exact fun hends ↦ absurd hends.2.1 (by decide)
  exact absurd ((hlaw.served 5).demotion 1 "openai" "gpt" .denied hforce).1 (by decide)

end Amicode.Reachability
