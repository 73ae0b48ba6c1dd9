import Amicode.Foundation.Exclusion
import Amicode.Foundation.StepMachine
import Amicode.Reachability.Document

/-!
# One writer of the reachability cache

Two writers must never be in the critical section together, every update that has been written must be in the
document that a later one reads, and two probe attempts of one provider must be the floor apart.

A party that has judged the lock moves aside whatever is at its path by then. Two that judged one abandoned
lock do so one after the other, and the second takes away the lock that the first has created since; and a
party that is slow beyond the long window loses its lock while it is at work. The law holds in every run in
which a lock that is moved aside is not that of a party inside (`cacheLaw_run`); then a party that removes the
lock removes its own. Two smaller windows are closed by the same condition: a document that cannot be read
counts as an empty one, and a provider whose name every object inherits leaves no attempt in the file.
-/

namespace Amicode.Reachability

open StepMachine JsObject Exclusion List Option

variable {W : Type*}

/-! ## The law -/

/-- The document that a series of updates makes. -/
def replay (cfg : CacheConfig) (doc : CacheDoc) (updates : List Update) : CacheDoc :=
  updates.foldl (fun doc u ↦ u.apply cfg.floorMs doc) doc

def Apart (floorMs : ℤ) (attempts : List Attempt) : Prop :=
  attempts.Pairwise fun a b ↦ a.provider = b.provider → floorMs ≤ b.at_ms - a.at_ms

structure CacheLaw (cfg : CacheConfig) (start s : CacheState W) : Prop where
  /-- Two writers are never in the critical section together. -/
  exclusive : ∀ w w', (s.phases w).isInside = true → (s.phases w').isInside = true → w = w'
  /-- Whoever has read a document has read all updates. -/
  reflected : ∀ w u doc, s.phases w = .writing u doc → doc = replay cfg (start.document cfg) s.completed
  apart : Apart cfg.floorMs s.attempts

/-- What a step takes aside is not the lock of a party inside, and what it cannot read is empty. -/
def HarmlessAt (cfg : CacheConfig) (s : CacheState W) (fails : Bool) : Phase → Prop
  | .reclaiming _ _ => fails = false → ∀ v ∈ s.lock.bind LockDir.holder, (s.phases v).isInside = false
  | .reading _ => fails = true → s.document cfg = emptyDoc
  | _ => True

def Harmless (cfg : CacheConfig) (s : CacheState W) : CacheOp W → Prop
  | .start _ request => ∀ provider ∈ request.providers, provider ∉ inheritedNames
  | .step w fails => HarmlessAt cfg s fails (s.phases w)
  | _ => True

instance decidableHarmlessAt (cfg : CacheConfig) (s : CacheState W) (fails : Bool) :
    ∀ phase, Decidable (HarmlessAt cfg s fails phase)
  | .reclaiming _ _ => inferInstanceAs
    (Decidable (fails = false → ∀ v ∈ s.lock.bind LockDir.holder, (s.phases v).isInside = false))
  | .reading _ => inferInstanceAs (Decidable (fails = true → s.document cfg = emptyDoc))
  | .idle | .locking _ _ | .owning _ | .contended _ _ | .stating _ _ | .writing _ _ | .removing | .dead =>
    .isTrue trivial

instance decidableHarmless (cfg : CacheConfig) (s : CacheState W) : ∀ op, Decidable (Harmless cfg s op)
  | .start _ request => inferInstanceAs (Decidable (∀ provider ∈ request.providers, provider ∉ inheritedNames))
  | .step w fails => inferInstanceAs (Decidable (HarmlessAt cfg s fails (s.phases w)))
  | .tick _ | .exit _ | .spawn _ => .isTrue trivial

/-! ## Attempts -/

section Attempts

variable {floorMs now : ℤ} {dailyMs : Option ℤ} {doc : CacheDoc} {provider : String} {attempts : List Attempt}

def CacheDoc.lastAttempt (doc : CacheDoc) (provider : String) : Option ℤ :=
  (own? doc.providers provider).bind CachedProvider.last_attempt_at

/-- The document knows of every attempt, or of a later one. -/
def Recorded (doc : CacheDoc) (attempts : List Attempt) : Prop :=
  ∀ a ∈ attempts, ∃ last ∈ doc.lastAttempt a.provider, a.at_ms ≤ last

theorem lastAttempt_put_self {p : CachedProvider} (h : provider ∉ inheritedNames) :
    CacheDoc.lastAttempt ⟨put doc.providers provider p⟩ provider = p.last_attempt_at := by
  rw [CacheDoc.lastAttempt, own?_put_self (ne_proto_of_not_inherited h), bind_some]

theorem lastAttempt_put_of_ne {p : CachedProvider} {k : String} (h : provider ≠ k) :
    CacheDoc.lastAttempt ⟨put doc.providers provider p⟩ k = doc.lastAttempt k := by
  rw [CacheDoc.lastAttempt, own?_put_of_ne h, CacheDoc.lastAttempt]

theorem lastAttempt_rewrite {f : CachedProvider → Option CachedProvider}
    (hf : ∀ p, ∀ p' ∈ f p, p'.last_attempt_at = p.last_attempt_at) (provider k : String) :
    (doc.rewrite provider f).lastAttempt k = doc.lastAttempt k := by
  unfold CacheDoc.rewrite
  split
  · rfl
  · next p' hp' =>
    obtain ⟨p, hp, hp'⟩ := bind_eq_some_iff.mp hp'
    have hkept := hf p p' hp'
    unfold CacheDoc.lastAttempt
    by_cases hk : provider = k
    · subst hk
      unfold put
      split_ifs
      · rfl
      · rw [own?_assign_self, bind_some, hkept]
        unfold CacheDoc.lookup? at hp
        split at hp
        · next p₀ hown =>
          obtain rfl := Option.some.inj hp
          rw [hown, bind_some]
        · next hown =>
          rw [hown]
          split_ifs at hp
          obtain rfl := Option.some.inj hp
          rfl
    · rw [own?_put_of_ne hk]

theorem merge_last_attempt_at {isPartial : Bool} {rows : List ProbeResult} {p p' : CachedProvider}
    (h : p' ∈ p.merge isPartial now rows) : p'.last_attempt_at = p.last_attempt_at := by
  simp only [CachedProvider.merge, mem_def] at h
  split at h
  · simp at h
  · obtain rfl := Option.some.inj h
    rfl

/-- The attempts before a claim and those claimed so far are apart and recorded. -/
def Claiming (floorMs now : ℤ) (attempts : List Attempt) (acc : CacheDoc × ClaimResult) : Prop :=
  Recorded acc.1 (attempts ++ acc.2.claimed.map (⟨·, now⟩)) ∧
    Apart floorMs (attempts ++ acc.2.claimed.map (⟨·, now⟩))

theorem Claiming.claimProvider {acc : CacheDoc × ClaimResult} (h : Claiming floorMs now attempts acc)
    (hfloor : 0 ≤ floorMs) (hprovider : provider ∉ inheritedNames) :
    Claiming floorMs now attempts (claimProvider floorMs dailyMs now acc provider) := by
  obtain ⟨hrecorded, hapart⟩ := h
  unfold Reachability.claimProvider
  rw [lookup?_of_not_inherited hprovider]
  simp only
  split_ifs
  · split
    · exact ⟨hrecorded, hapart⟩
    · next hfree =>
      have hlast : ∀ last ∈ acc.1.lastAttempt provider, floorMs ≤ now - last := by
        intro last hlast
        obtain ⟨p, hp, hlast⟩ := bind_eq_some_iff.mp hlast
        rw [hp, getD_some, hlast] at hfree
        simpa [Option.filter] using hfree
      constructor
      · intro a ha
        rw [map_append, ← append_assoc, mem_append] at ha
        by_cases hk : provider = a.provider
        · refine ⟨now, hk ▸ lastAttempt_put_self hprovider, ?_⟩
          rcases ha with ha | ha
          · obtain ⟨last, hmem, hle⟩ := hrecorded a ha
            have := hlast last (hk ▸ hmem)
            omega
          · obtain rfl : a = ⟨provider, now⟩ := by simpa using ha
            exact Int.le_refl now
        · rcases ha with ha | ha
          · obtain ⟨last, hmem, hle⟩ := hrecorded a ha
            exact ⟨last, (lastAttempt_put_of_ne hk).symm ▸ hmem, hle⟩
          · obtain rfl : a = ⟨provider, now⟩ := by simpa using ha
            exact absurd rfl hk
      · rw [map_append, ← append_assoc]
        refine pairwise_append.mpr ⟨hapart, pairwise_singleton _ _, fun a ha b hb hab ↦ ?_⟩
        obtain rfl : b = ⟨provider, now⟩ := by simpa using hb
        obtain ⟨last, hmem, hle⟩ := hrecorded a ha
        have hab : a.provider = provider := hab
        have := hlast last (hab ▸ hmem)
        simp only
        omega
  · exact ⟨hrecorded, hapart⟩

theorem claiming_claim {providers : List String} (hproviders : ∀ provider ∈ providers, provider ∉ inheritedNames)
    (hfloor : 0 ≤ floorMs) (hrecorded : Recorded doc attempts) (hapart : Apart floorMs attempts) :
    Claiming floorMs now attempts (claim floorMs dailyMs now providers doc) := by
  have hstart : Claiming floorMs now attempts (doc, ⟨[], []⟩) := by
    unfold Claiming
    rw [map_nil, append_nil]
    exact ⟨hrecorded, hapart⟩
  unfold claim
  generalize ((doc, ⟨[], []⟩) : CacheDoc × ClaimResult) = acc at hstart
  induction providers generalizing acc with
  | nil => exact hstart
  | cons provider providers ih =>
    rw [forall_mem_cons] at hproviders
    exact ih hproviders.2 _ (hstart.claimProvider hfloor hproviders.1)

theorem Update.claiming (u : Update) (hu : ∀ provider ∈ u.request.providers, provider ∉ inheritedNames)
    (hfloor : 0 ≤ floorMs) (hrecorded : Recorded doc attempts) (hapart : Apart floorMs attempts) :
    Recorded (u.apply floorMs doc) (attempts ++ (u.claimed floorMs doc).map (⟨·, u.now⟩)) ∧
      Apart floorMs (attempts ++ (u.claimed floorMs doc).map (⟨·, u.now⟩)) := by
  have hkept : ∀ {provider f}, (∀ p, ∀ p' ∈ f p, CachedProvider.last_attempt_at p' = p.last_attempt_at) →
      Recorded (doc.rewrite provider f) attempts :=
    fun hf a ha ↦ (lastAttempt_rewrite hf _ a.provider).symm ▸ hrecorded a ha
  obtain ⟨request, now⟩ := u
  rcases request with ⟨providers, dailyMs⟩ | provider | ⟨provider, rows, isPartial⟩ |
    ⟨provider, model, status, reason⟩
  · exact claiming_claim hu hfloor hrecorded hapart
  · simp only [Update.apply, Update.claimed, map_nil, append_nil]
    exact ⟨hkept fun p p' hp' ↦ Option.some.inj hp' ▸ rfl, hapart⟩
  · simp only [Update.apply, Update.claimed, map_nil, append_nil]
    exact ⟨hkept fun p p' hp' ↦ merge_last_attempt_at hp', hapart⟩
  · simp only [Update.apply, Update.claimed, map_nil, append_nil]
    exact ⟨hkept fun p p' hp' ↦ Option.some.inj hp' ▸ rfl, hapart⟩

end Attempts

/-! ## The invariant -/

def Phase.update? : Phase → Option Update
  | .locking u _ | .owning u | .contended u _ | .stating u _ | .reclaiming u _ | .reading u | .writing u _ => some u
  | .idle | .removing | .dead => none

structure Sound (cfg : CacheConfig) (start s : CacheState W) : Prop where
  held : Held (s.lock.bind LockDir.holder) fun w ↦ (s.phases w).isInside = true
  current : s.document cfg = replay cfg (start.document cfg) s.completed
  read : ∀ w u doc, s.phases w = .writing u doc → doc = s.document cfg
  named : ∀ w, ∀ u ∈ (s.phases w).update?, ∀ provider ∈ u.request.providers, provider ∉ inheritedNames
  recorded : Recorded (s.document cfg) s.attempts
  apart : Apart cfg.floorMs s.attempts

theorem Sound.law {cfg : CacheConfig} {start s : CacheState W} (h : Sound cfg start s) : CacheLaw cfg start s :=
  ⟨fun _ _ hw hw' ↦ h.held.unique hw hw', fun w u doc hw ↦ (h.read w u doc hw).trans h.current, h.apart⟩

theorem sound_start (cfg : CacheConfig) (file : Option CacheDoc) (left : Option (LockDir W)) (clock : ℕ)
    (running : ℕ → Bool) :
    Sound cfg (.start W file left clock running) (.start W file left clock running) where
  held _ hw := nomatch hw
  current := rfl
  read _ _ _ hw := nomatch hw
  named _ _ hu := by simp [CacheState.start, Phase.update?] at hu
  recorded _ ha := absurd ha not_mem_nil
  apart := Pairwise.nil

section Steps

variable {cfg : CacheConfig} {start s : CacheState W} {w : W} {u : Update} {phase : Phase}

/-- The lock may change as long as whoever is inside has its mark in it. -/
theorem Sound.setLock (h : Sound cfg start s) (lock : Option (LockDir W))
    (hheld : Held (lock.bind LockDir.holder) fun v ↦ (s.phases v).isInside = true) :
    Sound cfg start { s with lock } :=
  ⟨hheld, h.current, h.read, h.named, h.recorded, h.apart⟩

theorem isInside_judge {deadline : ℕ} {ts pid : Option ℕ} : (judge cfg s u deadline ts pid).isInside = false := by
  unfold judge
  split_ifs <;> rfl

theorem update?_judge {deadline : ℕ} {ts pid : Option ℕ} {u' : Update}
    (hu' : u' ∈ (judge cfg s u deadline ts pid).update?) : u' = u := by
  unfold judge at hu'
  split_ifs at hu'
  · exact (Option.some.inj hu').symm
  · simp [Phase.update?] at hu'
  · exact (Option.some.inj hu').symm

variable [DecidableEq W]

theorem phases_setPhase (v : W) : (s.setPhase w phase).phases v = if v = w then phase else s.phases v := by
  simp only [CacheState.setPhase, Function.update_apply]

/-- A phase that is new to a party, and what the others have. -/
theorem isInside_setPhase {v : W} (h : ((s.setPhase w phase).phases v).isInside = true) :
    v = w ∧ phase.isInside = true ∨ v ≠ w ∧ (s.phases v).isInside = true := by
  rw [phases_setPhase] at h
  split_ifs at h with hv
  · exact .inl ⟨hv, h⟩
  · exact .inr ⟨hv, h⟩

/-- A party goes on to a phase that it may have, while whoever is inside has its mark in the slot. -/
theorem Sound.setPhase (h : Sound cfg start s)
    (hheld : Held (s.lock.bind LockDir.holder) fun v ↦ ((s.setPhase w phase).phases v).isInside = true)
    (hread : ∀ u doc, phase = .writing u doc → doc = s.document cfg)
    (hnamed : ∀ u ∈ phase.update?, ∀ provider ∈ u.request.providers, provider ∉ inheritedNames) :
    Sound cfg start (s.setPhase w phase) where
  held := hheld
  current := h.current
  read v u doc hv := by
    rw [phases_setPhase] at hv
    split_ifs at hv
    · exact hread u doc hv
    · exact h.read v u doc hv
  named v u hu := by
    rw [phases_setPhase] at hu
    split_ifs at hu with hvw
    · exact hnamed u hu
    · exact h.named v u hu
  recorded := h.recorded
  apart := h.apart

/-- A party outside stays outside, or a party inside goes on. -/
theorem Sound.held_setPhase (h : Sound cfg start s) (hinside : phase.isInside = true → (s.phases w).isInside = true) :
    Held (s.lock.bind LockDir.holder) fun v ↦ ((s.setPhase w phase).phases v).isInside = true := by
  refine h.held.mono fun v hv ↦ ?_
  rcases isInside_setPhase hv with ⟨rfl, hphase⟩ | ⟨-, hv⟩
  · exact hinside hphase
  · exact hv

theorem Sound.write (h : Sound cfg start s) {doc : CacheDoc} (hw : s.phases w = .writing u doc) :
    Sound cfg start ((s.write cfg u doc).setPhase w .removing) := by
  have hdoc := h.read w u doc hw
  have hinside : (s.phases w).isInside = true := by rw [hw]; rfl
  have hattempts := u.claiming (h.named w u (by rw [hw]; rfl)) (Int.natCast_nonneg cfg.floorMs) h.recorded h.apart
  subst hdoc
  refine ⟨h.held_setPhase (fun _ ↦ hinside), ?_, fun v u' doc' hv ↦ ?_, fun v u' hu' ↦ ?_, hattempts.1, hattempts.2⟩
  · change u.apply cfg.floorMs (s.document cfg) = replay cfg _ (s.completed ++ [u])
    rw [replay, foldl_concat, h.current]
    rfl
  · -- whoever else is about to write would be inside with this party
    by_cases hvw : v = w
    · subst hvw
      rw [phases_setPhase, if_pos rfl] at hv
      exact nomatch hv
    · rw [phases_setPhase, if_neg hvw] at hv
      exact absurd (h.held.unique (by rw [show s.phases v = _ from hv]; rfl) hinside) hvw
  · rw [phases_setPhase] at hu'
    split_ifs at hu'
    · simp [Phase.update?] at hu'
    · exact h.named v u' hu'

theorem Sound.setPhase_outside (h : Sound cfg start s) (hphase : phase.isInside = false)
    (hnamed : ∀ u ∈ phase.update?, ∀ provider ∈ u.request.providers, provider ∉ inheritedNames) :
    Sound cfg start (s.setPhase w phase) := by
  refine h.setPhase (h.held_setPhase fun hinside ↦ ?_) (fun u doc hu ↦ ?_) hnamed
  · rw [hphase] at hinside
    simp at hinside
  · rw [hu] at hphase
    simp [Phase.isInside] at hphase

variable (pid : W → ℕ)

theorem Sound.advance (h : Sound cfg start s) (w : W) (fails : Bool)
    (hharmless : HarmlessAt cfg s fails (s.phases w)) : Sound cfg start (advance cfg pid s w fails) := by
  unfold Reachability.advance
  rcases hw : s.phases w with _ | ⟨u, deadline⟩ | u | ⟨u, deadline⟩ | ⟨u, deadline⟩ | ⟨u, deadline⟩ | u |
    ⟨u, doc⟩ | _ | _
  · exact h
  · -- locking: whoever creates the directory finds none, so that nobody is inside
    rcases hlock : s.lock with _ | lock
    · simp only
      split_ifs
      · exact h.setPhase_outside rfl (by simp [Phase.update?])
      · have hfree : Held none fun v ↦ (s.phases v).isInside = true := by
          have := h.held
          rwa [hlock] at this
        refine (h.setLock (some ⟨some w, none, s.clock⟩) ?_).setPhase ?_ (fun _ _ hu ↦ nomatch hu) ?_
        · exact fun v hv ↦ absurd hv (hfree.not_inside v)
        · refine hfree.enter fun v hv ↦ ?_
          rcases isInside_setPhase hv with ⟨rfl, -⟩ | ⟨-, hv⟩
          · exact .inl rfl
          · exact .inr hv
        · exact fun u' hu' ↦ h.named w u' (hw ▸ hu')
    · exact h.setPhase_outside rfl fun u' hu' ↦ h.named w u' (hw ▸ hu')
  · -- owning
    have hinside : (s.phases w).isInside = true := by rw [hw]; rfl
    simp only
    split_ifs
    · exact h.setPhase (h.held_setPhase fun _ ↦ hinside) (fun _ _ hu ↦ nomatch hu)
        fun u' hu' ↦ h.named w u' (hw ▸ hu')
    · have howner : (s.setOwner ⟨pid w, s.clock⟩).lock.bind LockDir.holder = s.lock.bind LockDir.holder := by
        unfold CacheState.setOwner
        rcases s.lock with _ | lock <;> rfl
      have hset : Sound cfg start (s.setOwner ⟨pid w, s.clock⟩) := h.setLock _ (howner ▸ h.held)
      exact hset.setPhase (hset.held_setPhase fun _ ↦ hinside) (fun _ _ hu ↦ nomatch hu)
        fun u' hu' ↦ h.named w u' (hw ▸ hu')
  · -- contended
    simp only
    split
    · refine h.setPhase_outside isInside_judge fun u' hu' ↦ ?_
      exact h.named w u' (by rw [update?_judge hu', hw]; rfl)
    · exact h.setPhase_outside rfl fun u' hu' ↦ h.named w u' (hw ▸ hu')
  · -- stating
    refine h.setPhase_outside isInside_judge fun u' hu' ↦ ?_
    exact h.named w u' (by rw [update?_judge hu', hw]; rfl)
  · -- reclaiming
    simp only
    split_ifs with hfails
    · exact h.setPhase_outside rfl fun u' hu' ↦ h.named w u' (hw ▸ hu')
    · rw [hw] at hharmless
      have hother := hharmless (Bool.eq_false_iff.mpr hfails)
      have hfree : Held none fun v ↦ (s.phases v).isInside = true :=
        h.held.clear (fun v hv ↦ by rw [hother v hv]; simp) fun _ ↦ id
      exact (h.setLock none hfree).setPhase_outside rfl fun u' hu' ↦ h.named w u' (hw ▸ hu')
  · -- reading
    have hinside : (s.phases w).isInside = true := by rw [hw]; rfl
    rw [hw] at hharmless
    refine h.setPhase (h.held_setPhase fun _ ↦ hinside) (fun u' doc hu ↦ ?_) fun u' hu' ↦ h.named w u' (hw ▸ hu')
    obtain ⟨-, rfl⟩ := Phase.writing.inj hu
    split_ifs with hfails
    · exact (hharmless hfails).symm
    · rfl
  · -- writing
    simp only
    split_ifs
    · have hinside : (s.phases w).isInside = true := by rw [hw]; rfl
      exact h.setPhase (h.held_setPhase fun _ ↦ hinside) (fun _ _ hu ↦ nomatch hu) (by simp [Phase.update?])
    · exact h.write hw
  · -- removing: the lock is its own, and nobody else is inside
    have hinside : (s.phases w).isInside = true := by rw [hw]; rfl
    simp only
    split_ifs
    · exact h.setPhase_outside rfl (by simp [Phase.update?])
    · have hleft : Sound cfg start (s.setPhase w .idle) := h.setPhase_outside rfl (by simp [Phase.update?])
      refine hleft.setLock none (h.held.leave hinside fun v hv ↦ ?_)
      rcases isInside_setPhase hv with ⟨rfl, hidle⟩ | ⟨hvw, hv⟩
      · simp [Phase.isInside] at hidle
      · exact ⟨hv, hvw⟩
  · exact h

theorem Sound.exit (h : Sound cfg start s) (p : ℕ) : Sound cfg start (cacheStep cfg pid s (.exit p)) where
  held := h.held.mono fun v hv ↦ by
    simp only [cacheStep] at hv
    split_ifs at hv
    · simp [Phase.isInside] at hv
    · exact hv
  current := h.current
  read v u doc hv := by
    simp only [cacheStep] at hv
    split_ifs at hv
    exact h.read v u doc hv
  named v u hu := by
    simp only [cacheStep] at hu
    split_ifs at hu
    · simp [Phase.update?] at hu
    · exact h.named v u hu
  recorded := h.recorded
  apart := h.apart

theorem Sound.step (h : Sound cfg start s) (op : CacheOp W) (hop : Harmless cfg s op) :
    Sound cfg start (cacheStep cfg pid s op) := by
  rcases op with ms | ⟨w, request⟩ | ⟨w, fails⟩ | p | p
  · exact ⟨h.held, h.current, h.read, h.named, h.recorded, h.apart⟩
  · rcases hw : s.phases w with _ | _ | _ | _ | _ | _ | _ | _ | _ | _ <;> simp only [cacheStep, hw]
    case idle =>
      exact h.setPhase_outside rfl fun u hu ↦ by
        obtain rfl := Option.some.inj hu
        exact hop
    all_goals exact h
  · exact h.advance pid w fails hop
  · exact h.exit pid p
  · exact ⟨h.held, h.current, h.read, h.named, h.recorded, h.apart⟩

end Steps

/-- In a run that takes aside no lock of a party inside, that cannot read only what is empty and that names no
provider by what every object inherits, there is one writer at a time, no update is lost, and attempts are the
floor apart. -/
theorem cacheLaw_run [DecidableEq W] (cfg : CacheConfig) (pid : W → ℕ) (file : Option CacheDoc)
    (left : Option (LockDir W)) (clock : ℕ) (running : ℕ → Bool) (ops : List (CacheOp W))
    (h : Guarded (cacheStep cfg pid) (Harmless cfg) (.start W file left clock running) ops) (n : ℕ) :
    CacheLaw cfg (.start W file left clock running)
      (run (cacheStep cfg pid) (.start W file left clock running) (ops.take n)) := by
  have hprefix : Guarded (cacheStep cfg pid) (Harmless cfg) (.start W file left clock running) (ops.take n) := by
    rw [← List.take_append_drop n ops, guarded_append] at h
    exact h.1
  exact (invariant_run_of_guarded (fun s op hs hop ↦ hs.step pid op hop)
    (sound_start cfg file left clock running) hprefix).law

/-- Two parties that have judged an abandoned lock, one after the other: the second takes the first one's. -/
def twoReclaimers : List (CacheOp Bool) :=
  [.start false (.fail "openai"), .start true (.fail "openai"),
    .step false false, .step true false, .step false false, .step true false,
    .step false false, .step false false, .step true false, .step true false]

theorem not_cacheLaw_twoReclaimers :
    ¬ CacheLaw ⟨300000, 10000, 10000, none⟩
      (.start Bool none (some ⟨none, some ⟨99, 0⟩, 0⟩) 20000 fun pid ↦ pid != 99)
      (run (cacheStep ⟨300000, 10000, 10000, none⟩ fun w ↦ if w then 2 else 1)
        (.start Bool none (some ⟨none, some ⟨99, 0⟩, 0⟩) 20000 fun pid ↦ pid != 99) (twoReclaimers.take 10)) := by
  intro hlaw
  exact absurd (hlaw.exclusive false true (by decide) (by decide)) (by decide)

/-- A shard dies inside, and another moves its lock aside past the stale window. -/
def oneReclaimer : List (CacheOp Bool) :=
  [.start false (.claim ["openai"] none), .step false false, .step false false, .step false false,
    .step false false, .exit 1, .tick 10001, .start true (.claim ["openai"] none), .step true false,
    .step true false, .step true false, .step true false, .step true false, .step true false]

theorem cacheLaw_oneReclaimer :
    CacheLaw ⟨300000, 10000, 10000, none⟩ (.start Bool none none 20000 fun _ ↦ true)
      (run (cacheStep ⟨300000, 10000, 10000, none⟩ fun w ↦ if w then 2 else 1)
        (.start Bool none none 20000 fun _ ↦ true) (oneReclaimer.take 14)) :=
  cacheLaw_run ⟨300000, 10000, 10000, none⟩ (fun w ↦ if w then 2 else 1) none none 20000 (fun _ ↦ true) oneReclaimer
    (by decide) 14

end Amicode.Reachability
