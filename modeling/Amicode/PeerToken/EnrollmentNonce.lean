import Amicode.Foundation.JsNumber
import Amicode.Foundation.StepMachine
import Amicode.PeerToken.KeyedStore

/-!
# Enrollment nonces

A joining machine redeems a nonce for its first peer token (`fleet_enrollment_nonce.ts`). A nonce is issued with an
expiry and redeemed once; a bound nonce is redeemed only for the target and the identity it was issued for. The two
kinds are two collections of one file.

A clock reading is a whole number of milliseconds, the expiry is the double nearest to the sum of the reading and
the lifetime. The nonce that an issue draws is part of the operation.

What can be redeemed is a grant (`grant?`). An issue sets the grant of its nonce, a redemption is for the grant that
is there and takes it away, and a refusal leaves the file as it is (`perform_spec`). So what the log of a run has on
a nonce (`outstanding`) is what the file grants.
-/

namespace Amicode.EnrollmentNonce

open JsObject PeerToken StepMachine List

def ENROLLMENT_NONCE_STORE_VERSION : ℕ := 1

def ENROLLMENT_NONCE_DEFAULT_TTL_MS : ℤ := 5 * 60 * 1000

def NONCES : String := "nonces"

def BOUND_NONCES : String := "bound_nonces"

/-! ## Records -/

/-- A finite number of a JSON file: its text and the value it is read as. -/
structure FileNumber where
  text : String
  value : ℚ
  value_eq : JsNumber.ofText? text.toList = some value

def finiteNumber? : Option JsonValue → Option FileNumber
  | some (.num text) =>
    match h : JsNumber.ofText? text.toList with
    | some value => some ⟨text, value, h⟩
    | none => none
  | _ => none

/-- A whole number as it is written. From `10 ^ 21` on the same number is written with an exponent; an infinite one
is written as `null`. -/
def wholeNumber (n : ℤ) : JsonValue :=
  if |(n : ℚ)| < 2 ^ 1024 then .num (String.ofList (JsNumber.signedDecimal n)) else .null

/-- `now + ttl`. -/
def expiry (now ttl : ℤ) : ℤ := (JsNumber.toDouble (now + ttl : ℤ)).num

def textMember (members : KeyedDoc) (key : String) : String :=
  match own? members key with
  | some (.str s) => s
  | _ => ""

structure NonceRecord where
  expires_at : FileNumber
  used : Bool

def readNonce (file : StoreFile) (nonce : String) : Option NonceRecord :=
  match own? (readKeyedCollection file NONCES) nonce with
  | some (.obj e) =>
    let used := match own? e "used" with
      | some (.bool true) => true
      | _ => false
    (finiteNumber? (own? e "expires_at")).map fun expires_at ↦ ⟨expires_at, used⟩
  | _ => none

/-- What a bound nonce is issued for, and redeemed for. -/
structure NonceBinding where
  target : String
  identityKey : String
deriving DecidableEq

structure BoundNonceRecord where
  expires_at : FileNumber
  used : Bool
  target : String
  identity_key : String

def readBoundNonce (file : StoreFile) (nonce : String) : Option BoundNonceRecord :=
  match own? (readKeyedCollection file BOUND_NONCES) nonce with
  | some (.obj e) =>
    let target := textMember e "target"
    let identity_key := textMember e "identity_key"
    let used := match own? e "used" with
      | some (.bool true) => true
      | _ => false
    if target = "" ∨ identity_key = "" then none
    else (finiteNumber? (own? e "expires_at")).map fun expires_at ↦ ⟨expires_at, used, target, identity_key⟩
  | _ => none

/-! ## Issuing and redeeming -/

def mintEnrollmentNonce (file : StoreFile) (nonce : String) (now ttl : ℤ) : StoreFile :=
  upsertKeyedEntry file NONCES nonce
    (.obj [("expires_at", wholeNumber (expiry now ttl)), ("used", .bool false)]) ENROLLMENT_NONCE_STORE_VERSION

def validateEnrollmentNonce (file : StoreFile) (nonce : String) (now : ℤ) : Bool :=
  match readNonce file nonce with
  | none => false
  | some rec => if rec.used then false else decide ((now : ℚ) ≤ rec.expires_at.value)

/-- The redemption, and whether it succeeded. -/
def consumeEnrollmentNonce (file : StoreFile) (nonce : String) (now : ℤ) : StoreFile × Bool :=
  if !validateEnrollmentNonce file nonce now then (file, false)
  else
    match readNonce file nonce with
    | none => (file, false)
    | some rec =>
      (upsertKeyedEntry file NONCES nonce (.obj [("expires_at", .num rec.expires_at.text), ("used", .bool true)])
        ENROLLMENT_NONCE_STORE_VERSION, true)

def mintBoundEnrollmentNonce (file : StoreFile) (nonce : String) (binding : NonceBinding) (now ttl : ℤ) :
    StoreFile :=
  upsertKeyedEntry file BOUND_NONCES nonce
    (.obj [("expires_at", wholeNumber (expiry now ttl)), ("used", .bool false), ("target", .str binding.target),
      ("identity_key", .str binding.identityKey)]) ENROLLMENT_NONCE_STORE_VERSION

def validateBoundEnrollmentNonce (file : StoreFile) (nonce : String) (binding : NonceBinding) (now : ℤ) : Bool :=
  match readBoundNonce file nonce with
  | none => false
  | some rec =>
    if rec.used then false
    else if rec.target ≠ binding.target ∨ rec.identity_key ≠ binding.identityKey then false
    else decide ((now : ℚ) ≤ rec.expires_at.value)

def consumeBoundEnrollmentNonce (file : StoreFile) (nonce : String) (binding : NonceBinding) (now : ℤ) :
    StoreFile × Bool :=
  match readBoundNonce file nonce with
  | none => (file, false)
  | some rec =>
    if rec.used then (file, false)
    else if rec.target ≠ binding.target ∨ rec.identity_key ≠ binding.identityKey then (file, false)
    else if rec.expires_at.value < now then (file, false)
    else
      (upsertKeyedEntry file BOUND_NONCES nonce
        (.obj [("expires_at", .num rec.expires_at.text), ("used", .bool true), ("target", .str rec.target),
          ("identity_key", .str rec.identity_key)]) ENROLLMENT_NONCE_STORE_VERSION, true)

/-! ## Grants -/

/-- What a nonce can be redeemed for: the binding, if it is a bound one, and the expiry. -/
structure NonceGrant where
  binding : Option NonceBinding
  expires : ℚ
deriving DecidableEq

def collectionFor : Option NonceBinding → String
  | none => NONCES
  | some _ => BOUND_NONCES

/-- What a nonce of the collection for this kind of binding can be redeemed for. -/
def grant? (file : StoreFile) (kind : Option NonceBinding) (nonce : String) : Option NonceGrant :=
  match kind with
  | none => (readNonce file nonce).bind fun rec ↦ if rec.used then none else some ⟨none, rec.expires_at.value⟩
  | some _ => (readBoundNonce file nonce).bind fun rec ↦
    if rec.used then none else some ⟨some ⟨rec.target, rec.identity_key⟩, rec.expires_at.value⟩

/-- The grant of a nonce that is issued: there is none for a binding with an empty part, nor without an expiry. -/
def issuedGrant (binding : Option NonceBinding) (expires : ℤ) : Option NonceGrant :=
  if (∃ b ∈ binding, b.target = "" ∨ b.identityKey = "") ∨ ¬ |(expires : ℚ)| < 2 ^ 1024 then none
  else some ⟨binding, expires⟩

/-- A redemption that has a grant for its binding and is in time. -/
def Redeems (grant : Option NonceGrant) (binding : Option NonceBinding) (now : ℤ) : Prop :=
  ∃ g ∈ grant, g.binding = binding ∧ (now : ℚ) ≤ g.expires

/-! ## Runs -/

inductive NonceOp where
  | issue (nonce : String) (binding : Option NonceBinding) (now ttl : ℤ)
  | consume (nonce : String) (binding : Option NonceBinding) (now : ℤ)
deriving DecidableEq

def NonceOp.nonce : NonceOp → String
  | issue nonce _ _ _ => nonce
  | consume nonce _ _ => nonce

def NonceOp.binding : NonceOp → Option NonceBinding
  | issue _ binding _ _ => binding
  | consume _ binding _ => binding

inductive NonceEvent where
  | issued (nonce : String) (binding : Option NonceBinding) (expires : ℤ)
  | accepted (nonce : String) (binding : Option NonceBinding) (now : ℤ)
  | refused (nonce : String) (binding : Option NonceBinding) (now : ℤ)
deriving DecidableEq

def perform (file : StoreFile) : NonceOp → StoreFile × List NonceEvent
  | .issue nonce binding now ttl =>
    (match binding with
      | none => mintEnrollmentNonce file nonce now ttl
      | some b => mintBoundEnrollmentNonce file nonce b now ttl,
      [.issued nonce binding (expiry now ttl)])
  | .consume nonce binding now =>
    let result := match binding with
      | none => consumeEnrollmentNonce file nonce now
      | some b => consumeBoundEnrollmentNonce file nonce b now
    (result.1, if result.2 then [.accepted nonce binding now] else [.refused nonce binding now])

/-- The file and the log of what happened. -/
abbrev NonceRun := StoreFile × List NonceEvent

def nonceStep (r : NonceRun) (op : NonceOp) : NonceRun :=
  logged (fun file op ↦ (perform file op).1) (fun file op ↦ (perform file op).2) r op

def nonceLog (start : StoreFile) (ops : List NonceOp) : List NonceEvent := (run nonceStep (start, []) ops).2

def NonceEvent.grantAfter (kind : Option NonceBinding) (nonce : String) (grant : Option NonceGrant) :
    NonceEvent → Option NonceGrant
  | .issued n binding expires =>
    if binding.isSome = kind.isSome ∧ n = nonce then issuedGrant binding expires else grant
  | .accepted n binding _ => if binding.isSome = kind.isSome ∧ n = nonce then none else grant
  | .refused _ _ _ => grant

/-- The grant of a nonce after a log, from what the file had at the start. -/
def outstanding (start : StoreFile) (log : List NonceEvent) (kind : Option NonceBinding) (nonce : String) :
    Option NonceGrant :=
  log.foldl (NonceEvent.grantAfter kind nonce) (grant? start kind nonce)

structure NonceLaw (start : StoreFile) (r : NonceRun) (op : NonceOp) : Prop where
  /-- A redemption is accepted if the nonce is outstanding, for the same binding, and in time. -/
  accepted_iff : ∀ nonce binding now, op = .consume nonce binding now →
    (.accepted nonce binding now ∈ (perform r.1 op).2 ↔ Redeems (outstanding start r.2 binding nonce) binding now)
  /-- One that is not leaves the file as it is. -/
  refused : ∀ nonce binding now, op = .consume nonce binding now →
    .accepted nonce binding now ∉ (perform r.1 op).2 → (perform r.1 op).1 = r.1
  /-- Every other entry stays, in this collection and the others. -/
  kept : ∀ collection id, collection ≠ "store_version" →
    ¬ (collection = collectionFor op.binding ∧ id = op.nonce) →
      own? (readKeyedCollection (perform r.1 op).1 collection) id = own? (readKeyedCollection r.1 collection) id
  /-- What the store does not know of the file stays. -/
  unknown : ∀ key, key ≠ "store_version" → key ≠ NONCES → key ≠ BOUND_NONCES →
    own? (readDoc (perform r.1 op).1) key = own? (readDoc r.1) key

structure NonceRunLaw (start : StoreFile) (ops : List NonceOp) : Prop where
  steps : Guarded nonceStep (NonceLaw start) (start, []) ops
  /-- A nonce that is accepted twice has been issued anew in between. -/
  once : ∀ before between after nonce binding (now : ℤ) binding' (now' : ℤ),
    nonceLog start ops = before ++ .accepted nonce binding now :: (between ++ .accepted nonce binding' now' :: after) →
      binding.isSome = binding'.isSome → ∃ b expires, .issued nonce b expires ∈ between
  /-- A nonce that is accepted was issued, or in the file at the start, for this binding, and has not expired. -/
  issuedFor : ∀ before after nonce binding (now : ℤ),
    nonceLog start ops = before ++ .accepted nonce binding now :: after →
      ∃ expires : ℚ, (now : ℚ) ≤ expires ∧ ((∃ e : ℤ, (e : ℚ) = expires ∧ .issued nonce binding e ∈ before) ∨
        grant? start binding nonce = some ⟨binding, expires⟩)

/-! ## What an operation does -/

section Steps

variable {file : StoreFile} {nonce id : String} {binding kind : Option NonceBinding} {entry : JsonValue}

theorem collectionFor_ne_version (kind : Option NonceBinding) : collectionFor kind ≠ "store_version" := by
  rcases kind with _ | b
  · exact show NONCES ≠ "store_version" by decide
  · exact show BOUND_NONCES ≠ "store_version" by decide

theorem grant?_congr {file file' : StoreFile}
    (h : own? (readKeyedCollection file' (collectionFor kind)) nonce
      = own? (readKeyedCollection file (collectionFor kind)) nonce) :
    grant? file' kind nonce = grant? file kind nonce := by
  rcases kind with _ | b
  · rw [grant?, grant?, readNonce, readNonce, show own? (readKeyedCollection file' NONCES) nonce = _ from h]
    rfl
  · rw [grant?, grant?, readBoundNonce, readBoundNonce,
      show own? (readKeyedCollection file' BOUND_NONCES) nonce = _ from h]
    rfl

theorem grant?_of_used {e : KeyedDoc}
    (hentry : own? (readKeyedCollection file (collectionFor kind)) nonce = some (.obj e))
    (hused : own? e "used" = some (.bool true)) : grant? file kind nonce = none := by
  rcases kind with _ | b
  · rw [grant?, readNonce, show own? (readKeyedCollection file NONCES) nonce = _ from hentry]
    dsimp only
    rw [hused]
    rcases finiteNumber? (own? e "expires_at") with _ | n <;> rfl
  · rw [grant?, readBoundNonce, show own? (readKeyedCollection file BOUND_NONCES) nonce = _ from hentry]
    dsimp only
    rw [hused]
    split_ifs
    · rfl
    · rcases finiteNumber? (own? e "expires_at") with _ | n <;> rfl

theorem toDouble_expiry (now ttl : ℤ) : JsNumber.toDouble (expiry now ttl) = expiry now ttl := by
  obtain ⟨k, hk⟩ := JsNumber.exists_toDouble_intCast (now + ttl)
  have hexpiry : expiry now ttl = k := by rw [expiry, hk, Rat.num_intCast]
  rw [hexpiry, ← hk, JsNumber.toDouble_toDouble]

theorem finiteNumber?_wholeNumber {n : ℤ} (hdouble : JsNumber.toDouble n = n) :
    (finiteNumber? (some (wholeNumber n))).map FileNumber.value
      = if |(n : ℚ)| < 2 ^ 1024 then some (n : ℚ) else none := by
  rw [wholeNumber]
  split_ifs with hfinite
  · have hread : JsNumber.ofText? (String.ofList (JsNumber.signedDecimal n)).toList = some (n : ℚ) := by
      rw [String.toList_ofList, JsNumber.ofText?_signedDecimal hdouble, Option.filter_some,
        if_pos (decide_eq_true hfinite)]
    unfold finiteNumber?
    dsimp only
    split
    · next value h => exact h.symm.trans hread
    · next h => exact absurd (h.symm.trans hread) (by simp)
  · rfl

theorem grant?_issue (file : StoreFile) (nonce : String) (binding : Option NonceBinding) (now ttl : ℤ) :
    grant? (perform file (.issue nonce binding now ttl)).1 binding nonce = issuedGrant binding (expiry now ttl) := by
  have hread := finiteNumber?_wholeNumber (toDouble_expiry now ttl)
  have hgrant : ∀ number : Option FileNumber, ∀ b : Option NonceBinding,
      (number.bind fun n ↦ some (NonceGrant.mk b n.value)) = (number.map FileNumber.value).map (NonceGrant.mk b) := by
    rintro (_ | n) b <;> rfl
  rw [issuedGrant]
  rcases binding with _ | b
  · have hfile : grant? (perform file (.issue nonce none now ttl)).1 none nonce
        = (finiteNumber? (some (wholeNumber (expiry now ttl)))).bind fun n ↦ some ⟨none, n.value⟩ := by
      rw [perform]
      rw [mintEnrollmentNonce, grant?, readNonce, readKeyedCollection_upsertKeyedEntry, own?_assign_self]
      show ((finiteNumber? (some (wholeNumber (expiry now ttl)))).map fun n ↦ NonceRecord.mk n false).bind _ = _
      rcases finiteNumber? (some (wholeNumber (expiry now ttl))) with _ | n <;> rfl
    rw [hfile, hgrant, hread]
    split_ifs with hfinite hnone hnone
    · exact absurd hnone (by simp [hfinite])
    · rfl
    · rfl
    · exact absurd (Or.inr hfinite) hnone
  · have hrecord : grant? (perform file (.issue nonce (some b) now ttl)).1 (some b) nonce
        = (if b.target = "" ∨ b.identityKey = "" then none
          else (finiteNumber? (some (wholeNumber (expiry now ttl)))).map fun n ↦
            BoundNonceRecord.mk n false b.target b.identityKey).bind fun rec ↦
              if rec.used then none else some ⟨some ⟨rec.target, rec.identity_key⟩, rec.expires_at.value⟩ := by
      rw [perform]
      rw [mintBoundEnrollmentNonce, grant?, readBoundNonce, readKeyedCollection_upsertKeyedEntry, own?_assign_self]
      rfl
    by_cases hempty : b.target = "" ∨ b.identityKey = ""
    · rw [if_pos (.inl ⟨b, rfl, hempty⟩), hrecord, if_pos hempty]
      rfl
    · have hfile : grant? (perform file (.issue nonce (some b) now ttl)).1 (some b) nonce
          = (finiteNumber? (some (wholeNumber (expiry now ttl)))).bind fun n ↦ some ⟨some b, n.value⟩ := by
        rw [hrecord, if_neg hempty]
        rcases finiteNumber? (some (wholeNumber (expiry now ttl))) with _ | n <;> rfl
      rw [hfile, hgrant, hread]
      split_ifs with hfinite hnone hnone
      · rcases hnone with ⟨b', hb', hempty'⟩ | hinfinite
        · obtain rfl := Option.some.inj hb'
          exact absurd hempty' hempty
        · exact absurd hfinite hinfinite
      · rfl
      · rfl
      · exact absurd (Or.inr hfinite) hnone

/-- A redemption is accepted for the grant that is there, whose entry is then used; or it is refused, and nothing
changes. -/
theorem perform_consume_cases (file : StoreFile) (nonce : String) (binding : Option NonceBinding) (now : ℤ) :
    (Redeems (grant? file binding nonce) binding now ∧ ∃ e, own? e "used" = some (.bool true) ∧
      perform file (.consume nonce binding now) = (upsertKeyedEntry file (collectionFor binding) nonce (.obj e)
        ENROLLMENT_NONCE_STORE_VERSION, [.accepted nonce binding now])) ∨
    (¬ Redeems (grant? file binding nonce) binding now ∧
      perform file (.consume nonce binding now) = (file, [.refused nonce binding now])) := by
  rcases binding with _ | b
  · rcases hread : readNonce file nonce with _ | rec
    · refine .inr ⟨?_, by simp [perform, consumeEnrollmentNonce, validateEnrollmentNonce, hread]⟩
      simp [Redeems, grant?, hread]
    · by_cases hlive : rec.used = false ∧ (now : ℚ) ≤ rec.expires_at.value
      · refine .inl ⟨⟨⟨none, rec.expires_at.value⟩, ?_, rfl, hlive.2⟩, [("expires_at", .num rec.expires_at.text),
          ("used", .bool true)], rfl, ?_⟩
        · simp [grant?, hread, hlive.1]
        · simp [perform, consumeEnrollmentNonce, validateEnrollmentNonce, hread, hlive, collectionFor]
      · refine .inr ⟨?_, ?_⟩
        · rintro ⟨g, hg, -, hexpires⟩
          rcases hused : rec.used
          · obtain rfl : NonceGrant.mk none rec.expires_at.value = g := by simpa [grant?, hread, hused] using hg
            exact hlive ⟨hused, hexpires⟩
          · simp [grant?, hread, hused] at hg
        · have hinvalid : validateEnrollmentNonce file nonce now = false := by
            rw [validateEnrollmentNonce, hread]
            rcases hused : rec.used
            · simpa [hused] using hlive
            · simp [hused]
          simp [perform, consumeEnrollmentNonce, hinvalid]
  · rcases hread : readBoundNonce file nonce with _ | rec
    · refine .inr ⟨?_, by simp [perform, consumeBoundEnrollmentNonce, hread]⟩
      simp [Redeems, grant?, hread]
    · by_cases hlive : rec.used = false ∧ (rec.target = b.target ∧ rec.identity_key = b.identityKey) ∧
        (now : ℚ) ≤ rec.expires_at.value
      · obtain ⟨hused, ⟨htarget, hidentity⟩, hexpires⟩ := hlive
        refine .inl ⟨⟨⟨some b, rec.expires_at.value⟩, ?_, rfl, hexpires⟩, [("expires_at", .num rec.expires_at.text),
          ("used", .bool true), ("target", .str rec.target), ("identity_key", .str rec.identity_key)], rfl, ?_⟩
        · simp [grant?, hread, hused, htarget, hidentity]
        · simp [perform, consumeBoundEnrollmentNonce, hread, hused, htarget, hidentity, not_lt.mpr hexpires,
            collectionFor]
      · refine .inr ⟨?_, ?_⟩
        · rintro ⟨g, hg, hbinding, hexpires⟩
          rcases hused : rec.used
          · obtain rfl : NonceGrant.mk (some ⟨rec.target, rec.identity_key⟩) rec.expires_at.value = g := by
              simpa [grant?, hread, hused] using hg
            have hsame : rec.target = b.target ∧ rec.identity_key = b.identityKey := by
              obtain rfl := Option.some.inj hbinding
              exact ⟨rfl, rfl⟩
            exact hlive ⟨hused, hsame, hexpires⟩
          · simp [grant?, hread, hused] at hg
        · have hrefused : consumeBoundEnrollmentNonce file nonce b now = (file, false) := by
            rw [consumeBoundEnrollmentNonce, hread]
            dsimp only
            split_ifs with hused hother hlate
            · rfl
            · rfl
            · rfl
            · rw [not_or, not_ne_iff, not_ne_iff] at hother
              exact absurd ⟨by simpa using hused, hother, not_lt.mp hlate⟩ hlive
          simp [perform, hrefused]

theorem own?_upsert {collection collection' : String} {version : ℕ} (hversion : collection' ≠ "store_version")
    (hother : ¬ (collection' = collection ∧ id = nonce)) (value : JsonValue) :
    own? (readKeyedCollection (upsertKeyedEntry file collection nonce value version) collection') id
      = own? (readKeyedCollection file collection') id := by
  by_cases hcollection : collection' = collection
  · subst hcollection
    rw [readKeyedCollection_upsertKeyedEntry, own?_assign_of_ne fun hid ↦ hother ⟨rfl, hid.symm⟩]
  · rw [readKeyedCollection_upsertKeyedEntry_of_ne hversion hcollection]

variable (file)

/-- An operation writes the entry of its nonce, or nothing. -/
theorem perform_file (op : NonceOp) : (perform file op).1 = file ∨ ∃ entry, (perform file op).1
      = upsertKeyedEntry file (collectionFor op.binding) op.nonce entry ENROLLMENT_NONCE_STORE_VERSION := by
  rcases op with ⟨nonce, binding, now, ttl⟩ | ⟨nonce, binding, now⟩
  · rcases binding with _ | b
    · exact .inr ⟨_, rfl⟩
    · exact .inr ⟨_, rfl⟩
  · rcases perform_consume_cases file nonce binding now with ⟨-, e, -, hperform⟩ | ⟨-, hperform⟩
    · exact .inr ⟨_, by rw [hperform]; rfl⟩
    · exact .inl (by rw [hperform])

theorem own?_perform {op : NonceOp} {collection : String} (hversion : collection ≠ "store_version")
    (hother : ¬ (collection = collectionFor op.binding ∧ id = op.nonce)) :
    own? (readKeyedCollection (perform file op).1 collection) id = own? (readKeyedCollection file collection) id := by
  rcases perform_file file op with h | ⟨entry, h⟩
  · rw [h]
  · rw [h]
    exact own?_upsert hversion hother entry

theorem collectionFor_injective (h : collectionFor kind = collectionFor binding) : binding.isSome = kind.isSome := by
  rcases kind with _ | b <;> rcases binding with _ | b'
  · rfl
  · exact absurd (show NONCES = BOUND_NONCES from h) (by decide)
  · exact absurd (show BOUND_NONCES = NONCES from h) (by decide)
  · rfl

theorem grant?_kind (nonce : String) (h : binding.isSome = kind.isSome) :
    grant? file kind nonce = grant? file binding nonce := by
  rcases kind with _ | b <;> rcases binding with _ | b'
  · rfl
  · exact Bool.noConfusion h
  · exact Bool.noConfusion h
  · rfl

theorem grant?_perform (op : NonceOp) (kind : Option NonceBinding) (nonce : String) :
    grant? (perform file op).1 kind nonce
      = (perform file op).2.foldl (NonceEvent.grantAfter kind nonce) (grant? file kind nonce) := by
  by_cases hsame : op.binding.isSome = kind.isSome ∧ op.nonce = nonce
  · obtain ⟨hkind, rfl⟩ := hsame
    rw [grant?_kind _ _ hkind]
    rcases op with ⟨nonce, binding, now, ttl⟩ | ⟨nonce, binding, now⟩
    · rw [NonceOp.nonce, NonceOp.binding, grant?_issue]
      exact (if_pos ⟨hkind, rfl⟩).symm
    · rcases perform_consume_cases file nonce binding now with ⟨-, e, hused, hperform⟩ | ⟨-, hperform⟩
      · have hgone : grant? (perform file (.consume nonce binding now)).1 binding nonce = none := by
          rw [hperform]
          refine grant?_of_used (e := e) ?_ hused
          rw [readKeyedCollection_upsertKeyedEntry, own?_assign_self]
        rw [NonceOp.nonce, NonceOp.binding, hgone, hperform]
        exact (if_pos ⟨hkind, rfl⟩).symm
      · rw [hperform, grant?_kind file _ hkind]
        rfl
  · have hentry : grant? (perform file op).1 kind nonce = grant? file kind nonce := by
      refine grant?_congr (own?_perform file (collectionFor_ne_version kind) fun ⟨hcollection, hnonce⟩ ↦ hsame ?_)
      exact ⟨collectionFor_injective hcollection, hnonce.symm⟩
    rw [hentry]
    rcases op with ⟨n, binding, now, ttl⟩ | ⟨n, binding, now⟩
    · exact (if_neg hsame).symm
    · rcases perform_consume_cases file n binding now with ⟨-, e, -, hperform⟩ | ⟨-, hperform⟩
      · rw [hperform]
        exact (if_neg hsame).symm
      · rw [hperform]
        rfl

end Steps

/-! ## The law -/

/-- The log accounts for the file, and for every redemption in it. -/
structure NonceRun.Sound (start : StoreFile) (r : NonceRun) : Prop where
  grants : ∀ kind nonce, grant? r.1 kind nonce = outstanding start r.2 kind nonce
  redeemed : ∀ before after nonce binding now, r.2 = before ++ .accepted nonce binding now :: after →
    Redeems (outstanding start before binding nonce) binding now

theorem outstanding_append (start : StoreFile) (log later : List NonceEvent) (kind : Option NonceBinding)
    (nonce : String) :
    outstanding start (log ++ later) kind nonce
      = later.foldl (NonceEvent.grantAfter kind nonce) (outstanding start log kind nonce) :=
  foldl_append

variable {start : StoreFile}

theorem NonceRun.Sound.step {r : NonceRun} (h : r.Sound start) (op : NonceOp) :
    (nonceStep r op).Sound start := by
  refine ⟨fun kind nonce ↦ ?_, fun before after nonce binding now hlog ↦ ?_⟩
  · show grant? (perform r.1 op).1 kind nonce = outstanding start (r.2 ++ (perform r.1 op).2) kind nonce
    rw [outstanding_append, grant?_perform, h.grants]
  · have hlog' : r.2 ++ (perform r.1 op).2 = before ++ .accepted nonce binding now :: after := hlog
    obtain ⟨event, hevent⟩ : ∃ event, (perform r.1 op).2 = [event] := by
      rcases op with ⟨n, b, t, ttl⟩ | ⟨n, b, t⟩
      · exact ⟨_, rfl⟩
      · rcases perform_consume_cases r.1 n b t with ⟨-, e, -, hperform⟩ | ⟨-, hperform⟩
        · exact ⟨_, by rw [hperform]⟩
        · exact ⟨_, by rw [hperform]⟩
    rcases eq_nil_or_concat after with rfl | ⟨after', last, rfl⟩
    · -- the redemption is that of the step
      rw [hevent] at hlog'
      obtain ⟨rfl, hlast⟩ := append_inj' hlog' rfl
      obtain ⟨rfl, -⟩ := List.cons.inj hlast
      rcases op with ⟨n, b, t, ttl⟩ | ⟨n, b, t⟩
      · exact NonceEvent.noConfusion (List.cons.inj hevent).1
      · rcases perform_consume_cases r.1 n b t with ⟨hredeems, e, -, hperform⟩ | ⟨-, hperform⟩
        · rw [hperform] at hevent
          obtain ⟨rfl, rfl, rfl⟩ := NonceEvent.accepted.inj (List.cons.inj hevent).1
          rwa [← h.grants]
        · rw [hperform] at hevent
          exact NonceEvent.noConfusion (List.cons.inj hevent).1
    · rw [hevent, concat_eq_append, ← cons_append, ← append_assoc] at hlog'
      exact h.redeemed before after' nonce binding now (append_inj' hlog' rfl).1

theorem sound_start (start : StoreFile) : NonceRun.Sound start (start, []) :=
  ⟨fun _ _ ↦ rfl, fun before _ _ _ _ h ↦ absurd h.symm (by simp)⟩

theorem sound_run (start : StoreFile) (ops : List NonceOp) : NonceRun.Sound start (run nonceStep (start, []) ops) :=
  invariant_run (I := fun r ↦ NonceRun.Sound start r) (fun _ op h ↦ NonceRun.Sound.step h op) (sound_start start) ops

theorem NonceRun.Sound.law {r : NonceRun} (h : r.Sound start) (op : NonceOp) :
    NonceLaw start r op where
  accepted_iff := by
    rintro nonce binding now rfl
    rw [← h.grants]
    rcases perform_consume_cases r.1 nonce binding now with ⟨hredeems, e, -, hperform⟩ | ⟨hredeems, hperform⟩
    · rw [hperform]
      exact ⟨fun _ ↦ hredeems, fun _ ↦ mem_singleton_self _⟩
    · rw [hperform]
      exact ⟨fun hmem ↦ NonceEvent.noConfusion (mem_singleton.mp hmem), fun hred ↦ absurd hred hredeems⟩
  refused := by
    rintro nonce binding now rfl hnot
    rcases perform_consume_cases r.1 nonce binding now with ⟨-, e, -, hperform⟩ | ⟨-, hperform⟩
    · rw [hperform] at hnot
      exact absurd (mem_singleton_self _) hnot
    · rw [hperform]
  kept _ _ hversion hother := own?_perform r.1 hversion hother
  unknown key hversion hnonces hbound := by
    rcases perform_file r.1 op with hfile | ⟨entry, hfile⟩
    · rw [hfile]
    · rw [hfile]
      refine own?_upsertKeyedEntry hversion fun hkey ↦ ?_
      rcases hkind : op.binding with _ | b
      · rw [hkind] at hkey
        exact hnonces hkey
      · rw [hkind] at hkey
        exact hbound hkey

theorem NonceRun.Sound.guarded {r : NonceRun} (h : r.Sound start) (ops : List NonceOp) :
    Guarded nonceStep (NonceLaw start) r ops := by
  induction ops generalizing r with
  | nil => trivial
  | cons op ops ih => exact ⟨h.law op, ih (h.step op)⟩

theorem mem_of_outstanding {log : List NonceEvent} {kind : Option NonceBinding} {nonce : String}
    {g : NonceGrant} (h : outstanding start log kind nonce = some g) :
    (∃ e : ℤ, (e : ℚ) = g.expires ∧ .issued nonce g.binding e ∈ log) ∨ grant? start kind nonce = some g := by
  induction log using List.reverseRecOn with
  | nil => exact .inr h
  | append_singleton log event ih =>
    rw [outstanding_append, foldl_cons, foldl_nil] at h
    have hkept : outstanding start log kind nonce = some g →
        (∃ e : ℤ, (e : ℚ) = g.expires ∧ .issued nonce g.binding e ∈ log ++ [event]) ∨
          grant? start kind nonce = some g := fun hlog ↦
      (ih hlog).imp_left fun ⟨e, he, hmem⟩ ↦ ⟨e, he, mem_append_left _ hmem⟩
    rcases event with ⟨n, b, expires⟩ | ⟨n, b, t⟩ | ⟨n, b, t⟩
    · rw [NonceEvent.grantAfter] at h
      split_ifs at h with hsame
      · rw [issuedGrant] at h
        split_ifs at h
        obtain rfl := Option.some.inj h
        exact .inl ⟨expires, rfl, by rw [hsame.2]; simp⟩
      · exact hkept h
    · rw [NonceEvent.grantAfter] at h
      split_ifs at h
      exact hkept h
    · exact hkept h

theorem mem_of_outstanding_accepted {before between : List NonceEvent}
    {kind binding : Option NonceBinding} {nonce : String} {now : ℤ} {g : NonceGrant}
    (hkind : binding.isSome = kind.isSome)
    (h : outstanding start (before ++ .accepted nonce binding now :: between) kind nonce = some g) :
    ∃ b expires, .issued nonce b expires ∈ between := by
  induction between using List.reverseRecOn with
  | nil =>
    rw [outstanding_append, foldl_cons, foldl_nil, NonceEvent.grantAfter, if_pos ⟨hkind, rfl⟩] at h
    exact absurd h (by simp)
  | append_singleton between event ih =>
    rw [← cons_append, ← append_assoc, outstanding_append, foldl_cons, foldl_nil] at h
    have hkept : outstanding start (before ++ .accepted nonce binding now :: between) kind nonce = some g →
        ∃ b expires, .issued nonce b expires ∈ between ++ [event] := fun hlog ↦ by
      obtain ⟨b, expires, hmem⟩ := ih hlog
      exact ⟨b, expires, mem_append_left _ hmem⟩
    rcases event with ⟨n, b, expires⟩ | ⟨n, b, t⟩ | ⟨n, b, t⟩
    · rw [NonceEvent.grantAfter] at h
      split_ifs at h with hsame
      · exact ⟨b, expires, by rw [hsame.2]; simp⟩
      · exact hkept h
    · rw [NonceEvent.grantAfter] at h
      split_ifs at h
      exact hkept h
    · exact hkept h

/-- **Enrollment nonces.** In every run on every file, whatever the clock reads: a nonce is accepted for the binding
it was issued for and not after its expiry, once for each time it is issued; a redemption that fails changes
nothing, and none changes another entry. -/
theorem nonceRunLaw (start : StoreFile) (ops : List NonceOp) : NonceRunLaw start ops where
  steps := (sound_start start).guarded ops
  once before between after nonce binding now binding' now' hlog hkind := by
    have hlog' : nonceLog start ops
        = (before ++ .accepted nonce binding now :: between) ++ .accepted nonce binding' now' :: after := by
      rw [hlog, List.append_assoc, List.cons_append]
    obtain ⟨g, hg, -, -⟩ := (sound_run start ops).redeemed _ after nonce binding' now' hlog'
    exact mem_of_outstanding_accepted hkind hg
  issuedFor before after nonce binding now hlog := by
    obtain ⟨g, hg, hbinding, hexpires⟩ := (sound_run start ops).redeemed before after nonce binding now hlog
    refine ⟨g.expires, hexpires, ?_⟩
    rcases mem_of_outstanding hg with ⟨e, he, hmem⟩ | hstart
    · exact .inl ⟨e, he, hbinding ▸ hmem⟩
    · refine .inr (hstart.trans ?_)
      rw [← hbinding]

/-- The expiry itself is in time: the nonce that was issued at 1000 for a minute is accepted at 61000. -/
theorem accepted_at_expiry : nonceLog .absent [.issue "N1" (some ⟨"studio", "key"⟩) 1000 60000,
      .consume "N1" (some ⟨"studio", "key"⟩) 61000]
    = [.issued "N1" (some ⟨"studio", "key"⟩) 61000, .accepted "N1" (some ⟨"studio", "key"⟩) 61000] := by
  decide +kernel

end Amicode.EnrollmentNonce
