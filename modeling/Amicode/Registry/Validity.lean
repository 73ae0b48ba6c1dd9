import Amicode.Registry.Record

/-!
# What validation accepts

A record is valid if `validateRecord` accepts it and returns it. What that comes to is said field by field (`Valid`):
whatever is accepted becomes such a record, and such a record is accepted as it is.
-/

namespace Amicode.Registry

open JsonTree JsData
open Amicode.Fleet (FleetState FleetEvent isTerminal)

variable {ν : Type} {N : RecordNumbers ν} {rec : FleetRecord ν} {value : JsData ν}

def IsCount (N : RecordNumbers ν) (x : ν) : Prop := N.isFinite x = true ∧ N.isNegative x = false

theorem isCount_zero : IsCount N N.zero := ⟨N.isFinite_zero, N.isNegative_zero⟩

def IsSessionId (id : Text) : Prop := isValidSessionId (JsData.str (ν := Empty) id) = true

theorem isValidSessionId_str {id : Text} : isValidSessionId (JsData.str (ν := ν) id) = true ↔ IsSessionId id := Iff.rfl

structure Valid (N : RecordNumbers ν) (rec : FleetRecord ν) : Prop where
  schema : rec.schema = N.one
  session : IsSessionId rec.session_id
  tokens : IsCount N rec.tokens
  runtime : IsCount N rec.runtime
  pid : IsCount N rec.pid
  stamped : rec.respooled_to ≠ [] →
    rec.state = .killed ∧ IsSessionId rec.respooled_to ∧ rec.respooled_to ≠ rec.session_id

/-! ## The states and their names -/

theorem stateOf?_stateName (state : FleetState) : stateOf? (JsData.str (ν := ν) (stateName state)) = some state := by
  cases state <;> rfl

theorem stateName_of_stateOf? {state : FleetState} (h : stateOf? value = some state) :
    str? value = some (stateName state) := by
  unfold stateOf? at h
  split at h
  · have hname := List.find?_some h
    rw [str?, ← of_decide_eq_true hname]
  · cases h

theorem stateName_inj {s t : FleetState} (h : stateName s = stateName t) : s = t := by
  have hs := stateOf?_stateName (ν := Empty) s
  rw [h, stateOf?_stateName] at hs
  exact (Option.some.inj hs).symm

/-! ## What is read of the table of a record -/

section

variable (rec)

theorem get_state : rec.toData.get "state" = .str (stateName rec.state) := rfl

theorem get_profile : rec.toData.get "profile" = rec.profile.toData := rfl

end

theorem mapM_map_of_read {α β : Type} (write : α → β) (read : β → Option α) (h : ∀ a, read (write a) = some a)
    (l : List α) : (l.map write).mapM read = some l := by
  induction l with
  | nil => rfl
  | cons a l ih =>
    rw [List.map_cons, List.mapM_cons, h, ih]
    rfl

theorem strList?_toData (texts : List Text) : strList? (JsData.arr (ν := ν) (texts.map .str)) = some texts :=
  mapM_map_of_read JsData.str str? (fun _ ↦ rfl) texts

theorem strMembers?_toData (entries : List (Text × Text)) :
    strMembers? (JsData.obj (ν := ν) (entries.map fun e ↦ (e.1, .str e.2))) = some entries :=
  mapM_map_of_read (fun e : Text × Text ↦ (e.1, JsData.str (ν := ν) e.2))
    (fun e ↦ (str? e.2).map fun s ↦ (e.1, s)) (fun _ ↦ rfl) entries

theorem normalizeRecord_toData : normalizeRecord N (partialOf rec.toData rec.session_id rec.state) = rec := by
  have hskills : strList? ((rec.toData.get "profile").get "skills") = some rec.profile.skills := strList?_toData _
  have hgates : strList? ((rec.toData.get "profile").get "gates") = some rec.profile.gates := strList?_toData _
  have hpermissions : strMembers? ((rec.toData.get "profile").get "permissions") = some rec.profile.permissions.entries :=
    strMembers?_toData _
  rw [normalizeRecord, partialOf]
  rw [hskills, hgates, hpermissions, Option.getD_some, Option.getD_some, Option.getD_some, InsertionMap.setAll_empty_entries]
  rfl

/-! ## A valid record is accepted -/

theorem nullMembers_str (path : Text) (entries : List (Text × Text)) :
    nullMembers path (entries.map fun e ↦ (e.1, JsData.str (ν := ν) e.2)) = [] := by
  induction entries with
  | nil => rfl
  | cons e entries ih => rw [List.map_cons, nullMembers, ih]; rfl

theorem nullItems_str (path : Text) (i : ℕ) (texts : List Text) :
    nullItems path i (texts.map (JsData.str (ν := ν))) = [] := by
  induction texts generalizing i with
  | nil => rfl
  | cons s texts ih => rw [List.map_cons, nullItems, ih]; rfl

theorem nullPaths_profile (path : Text) (p : FleetProfile) : nullPaths path (p.toData : JsData ν) = [] := by
  simp only [FleetProfile.toData, nullPaths, nullMembers, nullItems_str, nullMembers_str, List.append_nil]

theorem nullPaths_toData (rec : FleetRecord ν) : nullPaths [] rec.toData = [] := by
  simp only [FleetRecord.toData, nullPaths, nullMembers, nullPaths_profile, List.append_nil]

/-! ## What makes an error -/

/-- A member that is absent or can be read. -/
def Reads {α : Type} (read : JsData ν → Option α) (v : JsData ν) : Prop :=
  isUndefined v = true ∨ (read v).isSome = true

variable {o : JsData ν}

theorem memberErrors_eq_nil_iff {α : Type} {read : JsData ν → Option α} {key path must : String} :
    memberErrors read o key path must = [] ↔ Reads read (o.get key) := by
  rw [memberErrors, Reads]
  rcases isUndefined (o.get key) <;> rcases read (o.get key) <;> simp

theorem numberErrors_eq_nil_iff {key : String} :
    numberErrors N o key = [] ↔ isUndefined (o.get key) = true ∨ ∃ x, o.get key = .number x ∧ IsCount N x := by
  unfold numberErrors
  split
  · next hget => simp [hget, isUndefined]
  · next x hget =>
    rw [hget]
    rcases hfinite : N.isFinite x <;> rcases hnegative : N.isNegative x <;>
      simp [IsCount, isUndefined, hfinite, hnegative]
  · next hundefined hnumber =>
    rcases hget : o.get key with _ | _ | _ | x | _ | _ | _
    case undefined => exact absurd hget hundefined
    case number => exact absurd hget (hnumber x)
    all_goals simp [isUndefined]

theorem stampErrors_eq_nil_iff {respooled : Text} :
    stampErrors N o respooled = some [] ↔ (respooled ≠ [] → str? (o.get "state") = some (stateName .killed)) := by
  rw [stampErrors]
  split_ifs with h
  · simp [h.1, h.2]
  · rw [not_and_not_right] at h
    simpa using h

theorem successorErrors_eq_nil_iff {respooled : Text} : successorErrors o respooled = [] ↔
    (respooled ≠ [] → IsSessionId respooled ∧ str? (o.get "session_id") ≠ some respooled) := by
  rw [successorErrors, List.append_eq_nil_iff]
  rcases eq_or_ne respooled [] with hnil | hne
  · simp [hnil]
  · rcases hvalid : isValidSessionId (JsData.str (ν := ν) respooled)
    · simp [hne, ← isValidSessionId_str (ν := ν), hvalid]
    · simp [hne, ← isValidSessionId_str (ν := ν), hvalid]

theorem isCount_getD {v : JsData ν} (h : isUndefined v = true ∨ ∃ x, v = .number x ∧ IsCount N x) :
    IsCount N ((number? v).getD N.zero) := by
  obtain h | ⟨x, rfl, hx⟩ := h
  · cases v with
    | undefined => exact isCount_zero
    | _ => cases h
  · exact hx

theorem isSessionId_of_str? {v : JsData ν} {id : Text} (hv : isValidSessionId v = true) (hid : str? v = some id) :
    IsSessionId id := by
  cases v with
  | str s =>
    cases hid
    exact hv
  | _ => cases hid

theorem profileErrors_toData (rec : FleetRecord ν) : profileErrors rec.toData = some [] := by
  rw [profileErrors, get_profile]
  refine congrArg some ?_
  simp only [List.append_eq_nil_iff, List.flatMap_eq_nil_iff, memberErrors_eq_nil_iff]
  refine ⟨⟨fun k hk ↦ ?_, fun k hk ↦ ?_⟩, ?_⟩
  · simp only [List.mem_cons, List.not_mem_nil, or_false] at hk
    obtain rfl | rfl | rfl | rfl | rfl := hk <;> exact .inr rfl
  · simp only [List.mem_cons, List.not_mem_nil, or_false] at hk
    obtain rfl | rfl := hk
    · exact .inr (Option.isSome_iff_exists.mpr ⟨_, strList?_toData rec.profile.skills⟩)
    · exact .inr (Option.isSome_iff_exists.mpr ⟨_, strList?_toData rec.profile.gates⟩)
  · change (rec.profile.permissions.entries.map fun e ↦ (e.1, JsData.str e.2)).flatMap _ = []
    rw [List.flatMap_eq_nil_iff]
    intro e he
    obtain ⟨e, -, rfl⟩ := List.mem_map.mp he
    rfl

/-- The members that are checked before the profile. -/
structure FieldsChecked (N : RecordNumbers ν) [DecidableEq ν] (o : JsData ν) : Prop where
  nulls : nullPaths [] o = []
  schema : isSchema N (o.get "schema") = true
  session : isValidSessionId (o.get "session_id") = true
  state : (stateOf? (o.get "state")).isSome = true
  texts : ∀ k ∈ ["current_step", "respooled_to", "host", "started"], Reads str? (o.get k)
  counts : ∀ k ∈ ["tokens", "runtime", "pid"],
    isUndefined (o.get k) = true ∨ ∃ x, o.get k = .number x ∧ IsCount N x

section

variable [DecidableEq ν]

theorem fieldErrors_eq_nil_iff {o : JsData ν} : fieldErrors N o = [] ↔ FieldsChecked N o := by
  have hnulls : nullErrors o = [] ↔ nullPaths [] o = [] := List.map_eq_nil_iff
  have hschema : schemaErrors N o = [] ↔ isSchema N (o.get "schema") = true := by
    rw [schemaErrors]
    split_ifs with h <;> simp [h]
  have hsession : sessionErrors N o = [] ↔ isValidSessionId (o.get "session_id") = true := by
    rw [sessionErrors]
    split_ifs with h <;> simp [h]
  have hstate : stateErrors N o = [] ↔ (stateOf? (o.get "state")).isSome = true := by
    rw [stateErrors]
    split_ifs with h <;> simp [h]
  simp only [fieldErrors, List.append_eq_nil_iff, List.flatMap_eq_nil_iff, hnulls, hschema, hsession, hstate,
    memberErrors_eq_nil_iff, numberErrors_eq_nil_iff]
  constructor
  · rintro ⟨⟨⟨⟨⟨⟨h₁, h₂⟩, h₃⟩, h₄⟩, h₅⟩, h₆⟩, h₇⟩
    refine ⟨h₁, h₂, h₃, h₄, fun k hk ↦ ?_, h₇⟩
    obtain hk | rfl : k ∈ ["current_step", "respooled_to", "host"] ∨ k = "started" := by
      simpa [or_assoc] using hk
    · exact h₅ k hk
    · exact h₆
  · rintro ⟨h₁, h₂, h₃, h₄, h₅, h₇⟩
    refine ⟨⟨⟨⟨⟨⟨h₁, h₂⟩, h₃⟩, h₄⟩, fun k hk ↦ h₅ k ?_⟩, h₅ _ (by simp)⟩, h₇⟩
    exact List.mem_append_left ["started"] hk

/-- A table that nothing is wrong with. -/
structure Clean (N : RecordNumbers ν) (o : JsData ν) : Prop where
  table : ∃ members, o = .obj members
  fields : FieldsChecked N o
  profile : profileErrors o = some []
  stamp : stampErrors N o ((str? (o.get "respooled_to")).getD []) = some []
  successor : successorErrors o ((str? (o.get "respooled_to")).getD []) = []

theorem validateRecord_ok_iff {o : JsData ν} {warnings : List Text} :
    validateRecord N o = some (.ok rec warnings) ↔ Clean N o ∧ ∃ id state,
      str? (o.get "session_id") = some id ∧ stateOf? (o.get "state") = some state
        ∧ rec = normalizeRecord N (partialOf o id state) ∧ warnings = profileWarnings o := by
  constructor
  · intro h
    unfold validateRecord at h
    split at h
    · next members =>
      rcases hprofile : profileErrors (JsData.obj members) with _ | profile
      · simp [hprofile] at h
      rcases hstamp : stampErrors N (JsData.obj members)
          ((str? ((JsData.obj members).get "respooled_to")).getD []) with _ | stamp
      · simp [hprofile, hstamp] at h
      simp only [hprofile, hstamp, Option.bind_eq_bind, Option.bind_some, Option.pure_def] at h
      split at h
      · next id state herrors hid hstate =>
        simp only [List.append_eq_nil_iff] at herrors
        obtain ⟨⟨⟨hfields, rfl⟩, rfl⟩, hsuccessor⟩ := herrors
        simp only [Option.some.injEq, Validated.ok.injEq] at h
        exact ⟨⟨⟨members, rfl⟩, fieldErrors_eq_nil_iff.mp hfields, hprofile, hstamp, hsuccessor⟩,
          id, state, hid, hstate, h.1.symm, h.2.symm⟩
      · simp at h
    · simp at h
  · rintro ⟨⟨⟨members, rfl⟩, hfields, hprofile, hstamp, hsuccessor⟩, id, state, hid, hstate, rfl, rfl⟩
    unfold validateRecord
    simp only [hprofile, hstamp, fieldErrors_eq_nil_iff.mpr hfields, hsuccessor, hid, hstate, Option.bind_eq_bind,
      Option.bind_some, Option.pure_def, List.append_nil]

/-! ## What is accepted is valid -/

theorem schema_getD {v : JsData ν} (h : isSchema N v = true) : (number? v).getD N.one = N.one := by
  cases v with
  | undefined => rfl
  | number x => exact of_decide_eq_true h
  | _ => cases h

theorem valid_of_ok {warnings : List Text} (h : validateRecord N value = some (.ok rec warnings)) : Valid N rec := by
  obtain ⟨⟨-, hfields, -, hstamp, hsuccessor⟩, id, state, hid, hstate, rfl, -⟩ := validateRecord_ok_iff.mp h
  refine ⟨schema_getD hfields.schema, isSessionId_of_str? hfields.session hid,
    isCount_getD (hfields.counts "tokens" (by simp)), isCount_getD (hfields.counts "runtime" (by simp)),
    isCount_getD (hfields.counts "pid" (by simp)), fun hne ↦ ?_⟩
  have hkilled := stampErrors_eq_nil_iff.mp hstamp hne
  rw [stateName_of_stateOf? hstate] at hkilled
  obtain ⟨hsession, hother⟩ := successorErrors_eq_nil_iff.mp hsuccessor hne
  refine ⟨stateName_inj (Option.some.inj hkilled), hsession, fun hsame ↦ hother ?_⟩
  exact hid.trans (congrArg some hsame.symm)

/-! ## What is valid is accepted -/

theorem clean_toData (h : Valid N rec) : Clean N rec.toData := by
  refine ⟨⟨_, rfl⟩, ⟨nullPaths_toData rec, decide_eq_true h.schema, h.session, ?_, fun k hk ↦ ?_, fun k hk ↦ ?_⟩,
    profileErrors_toData rec, ?_, ?_⟩
  · rw [get_state, stateOf?_stateName]
    rfl
  · simp only [List.mem_cons, List.not_mem_nil, or_false] at hk
    obtain rfl | rfl | rfl | rfl := hk <;> exact .inr rfl
  · simp only [List.mem_cons, List.not_mem_nil, or_false] at hk
    obtain rfl | rfl | rfl := hk
    · exact .inr ⟨rec.tokens, rfl, h.tokens⟩
    · exact .inr ⟨rec.runtime, rfl, h.runtime⟩
    · exact .inr ⟨rec.pid, rfl, h.pid⟩
  · refine stampErrors_eq_nil_iff.mpr fun hne ↦ ?_
    rw [get_state, (h.stamped hne).1]
    rfl
  · refine successorErrors_eq_nil_iff.mpr fun hne ↦ ⟨(h.stamped hne).2.1, fun hsame ↦ ?_⟩
    exact (h.stamped hne).2.2 (Option.some.inj hsame).symm

theorem validateRecord_toData (h : Valid N rec) :
    validateRecord N rec.toData = some (.ok rec (profileWarnings rec.toData)) := by
  refine validateRecord_ok_iff.mpr ⟨clean_toData h, rec.session_id, rec.state, rfl, stateOf?_stateName _, ?_, rfl⟩
  exact normalizeRecord_toData.symm

end

end Amicode.Registry
