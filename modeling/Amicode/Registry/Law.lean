import Amicode.Hashing.Completeness
import Amicode.Registry.Validity

/-!
# The law of the registry's records

Whatever is read, `validateRecord` says what it is, and what it accepts it accepts again; events keep records valid;
and what is written is read back. The law holds of a value unless the function throws while it looks for what is wrong:
at a profile that is null, and at a successor's id on a record whose state has no text.
-/

namespace Amicode.Registry

open JsonTree JsData List Option
open Amicode.Fleet (FleetState FleetEvent isTerminal)

variable {ν : Type} {N : RecordNumbers ν} {rec rec' : FleetRecord ν} {value : JsData ν} {event : FleetEvent}
  {opts : ApplyOptions ν}

/-- Neither a member of null is read nor a state printed that has no text. -/
structure Readable (N : RecordNumbers ν) (value : JsData ν) : Prop where
  profile : value.get "profile" ≠ .null
  state : (str? (value.get "respooled_to")).getD [] ≠ [] → str? (value.get "state") ≠ some (stateName .killed) →
    (toText? N.toNumbers (value.get "state")).isSome = true

structure ApplyOptions.Checked (N : RecordNumbers ν) (opts : ApplyOptions ν) : Prop where
  pid : ∀ x, opts.pid = some x → IsCount N x
  tokens : ∀ x, opts.tokens = some x → IsCount N x
  runtime : ∀ x, opts.runtime = some x → IsCount N x

variable [DecidableEq ν]

/-- Validation accepts the record, and returns it. -/
def IsValid (N : RecordNumbers ν) (rec : FleetRecord ν) : Prop :=
  ∃ warnings, validateRecord N rec.toData = some (.ok rec warnings)

structure Applied (N : RecordNumbers ν) (rec : FleetRecord ν) (event : FleetEvent) (rec' : FleetRecord ν) : Prop where
  valid : IsValid N rec'
  stamped : rec'.respooled_to ≠ rec.respooled_to → event = .respool
  killed : rec'.respooled_to ≠ [] → rec'.state = .killed
  /-- No event applies to a record that is terminal, a respool no more than another. -/
  live : isTerminal rec.state = false

structure RecordLaw (N : RecordNumbers ν) (toml : Toml ν) (value : JsData ν) : Prop where
  returns : validateRecord N value ≠ none
  again : ∀ rec warnings, validateRecord N value = some (.ok rec warnings) →
    validateRecord N rec.toData = some (.ok rec (profileWarnings rec.toData))
  applied : ∀ rec event opts rec', IsValid N rec → opts.Checked N → applyEvent N rec event opts = .ok rec' →
    Applied N rec event rec'
  reread : ∀ rec, IsValid N rec → ∃ warnings, fromToml N toml (toToml toml rec) = some (.ok rec warnings)

theorem isValid_iff : IsValid N rec ↔ Valid N rec :=
  ⟨fun h ↦ valid_of_ok h.choose_spec, fun h ↦ ⟨_, validateRecord_toData h⟩⟩

/-! ## When it returns -/

omit [DecidableEq ν] in
theorem profileErrors_eq_none_iff {o : JsData ν} : profileErrors o = none ↔ o.get "profile" = .null := by
  unfold profileErrors
  split
  · next h => simp [h]
  · next h => simp [h]
  · next h _ => simpa using h

omit [DecidableEq ν] in
theorem stampErrors_eq_none_iff {o : JsData ν} {respooled : Text} : stampErrors N o respooled = none ↔
    respooled ≠ [] ∧ str? (o.get "state") ≠ some (stateName .killed) ∧ toText? N.toNumbers (o.get "state") = none := by
  rw [stampErrors]
  split_ifs with h
  · simp [h.1, h.2]
  · simp only [false_iff]
    exact fun hall ↦ h ⟨hall.1, hall.2.1⟩

theorem validateRecord_ne_none_iff : validateRecord N value ≠ none ↔ Readable N value := by
  unfold validateRecord
  split
  · next members =>
    rcases hprofile : profileErrors (JsData.obj members) with _ | profile
    · have hnull := profileErrors_eq_none_iff.mp hprofile
      simp only [hprofile, bind_eq_bind, bind_none, ne_eq, not_true_eq_false, false_iff]
      exact fun h ↦ h.profile hnull
    have hprofile' : (JsData.obj members).get "profile" ≠ .null := by
      rw [ne_eq, ← profileErrors_eq_none_iff, hprofile]
      exact some_ne_none profile
    rcases hstamp : stampErrors N (JsData.obj members)
        ((str? ((JsData.obj members).get "respooled_to")).getD []) with _ | stamp
    · obtain ⟨hne, hkilled, htext⟩ := stampErrors_eq_none_iff.mp hstamp
      simp only [hprofile, hstamp, bind_eq_bind, bind_some, bind_none, ne_eq, not_true_eq_false,
        false_iff]
      intro h
      have hsome := h.state hne hkilled
      rw [htext] at hsome
      cases hsome
    · have hreadable : Readable N (JsData.obj members) := by
        refine ⟨hprofile', fun hne hkilled ↦ ?_⟩
        by_contra hnone
        rw [not_isSome_iff_eq_none] at hnone
        rw [stampErrors_eq_none_iff.mpr ⟨hne, hkilled, hnone⟩] at hstamp
        cases hstamp
      simp only [hprofile, hstamp, bind_eq_bind, bind_some, Option.pure_def, hreadable, iff_true]
      split <;> exact some_ne_none _
  · next hobj =>
    have hget : ∀ key, value.get key = .undefined := by
      intro key
      rcases value with _ | _ | _ | _ | _ | _ | members <;> first | rfl | exact absurd rfl (hobj members)
    simp only [ne_eq, reduceCtorEq, not_false_eq_true, true_iff]
    refine ⟨?_, fun hne ↦ ?_⟩
    · rw [hget]
      simp
    · rw [hget] at hne
      exact absurd rfl hne

/-! ## Events -/

omit [DecidableEq ν] in
theorem applyEvent_ok (h : applyEvent N rec event opts = .ok rec') : ∃ edge, Fleet.step rec.state event = some edge
    ∧ respoolErrors rec event edge.stampsRespooledTo (opts.respooled_to.getD []) = []
    ∧ rec' = { rec with
        state := edge.target
        pid := if isTerminal edge.target || edge.target = .crashed then N.zero else opts.pid.getD rec.pid
        host := opts.host.getD rec.host
        current_step := opts.current_step.getD rec.current_step
        tokens := opts.tokens.getD rec.tokens
        runtime := opts.runtime.getD rec.runtime
        respooled_to := if edge.stampsRespooledTo then opts.respooled_to.getD [] else rec.respooled_to } := by
  unfold applyEvent at h
  split at h
  · cases h
  next edge hedge =>
  dsimp only at h
  split at h
  · next herrors =>
    cases h
    exact ⟨edge, hedge, herrors, rfl⟩
  · cases h

theorem of_stamps {state : FleetState} {edge : Fleet.Edge} (h : Fleet.step state event = some edge)
    (hstamps : edge.stampsRespooledTo = true) : edge.target = .killed ∧ event = .respool := by
  cases state <;> cases event <;> cases h <;> first | exact ⟨rfl, rfl⟩ | cases hstamps

theorem isTerminal_of_step {state : FleetState} {edge : Fleet.Edge} (h : Fleet.step state event = some edge) :
    isTerminal state = false := by
  cases state with
  | killed => cases event <;> cases h
  | _ => rfl

omit [DecidableEq ν] in
theorem successor_of_respoolErrors {respooled : Text} (h : respoolErrors rec event true respooled = []) :
    IsSessionId respooled ∧ respooled ≠ rec.session_id := by
  rw [respoolErrors, if_pos rfl] at h
  split_ifs at h with hnil hvalid hsame
  exact ⟨isValidSessionId_str.mp (by simpa using hvalid), hsame⟩

omit [DecidableEq ν] in
theorem isCount_option {opt : Option ν} {x : ν} (hopt : ∀ y, opt = some y → IsCount N y) (hx : IsCount N x) :
    IsCount N (opt.getD x) := by
  rcases opt with _ | y
  · exact hx
  · exact hopt y rfl

omit [DecidableEq ν] in
theorem Valid.applyEvent (hrec : Valid N rec) (hopts : opts.Checked N)
    (h : applyEvent N rec event opts = .ok rec') : Valid N rec' := by
  obtain ⟨edge, hedge, herrors, rfl⟩ := applyEvent_ok h
  have hlive := isTerminal_of_step hedge
  refine ⟨hrec.schema, hrec.session, isCount_option hopts.tokens hrec.tokens, isCount_option hopts.runtime hrec.runtime,
    ?_, fun hne ↦ ?_⟩
  · dsimp only
    split_ifs
    · exact isCount_zero
    · exact isCount_option hopts.pid hrec.pid
  · dsimp only at hne ⊢
    rcases hstamps : edge.stampsRespooledTo
    · rw [hstamps, if_neg Bool.false_ne_true] at hne
      -- a record that names a successor is killed, and no event applies
      rw [(hrec.stamped hne).1] at hlive
      cases hlive
    · rw [hstamps] at herrors
      rw [if_pos rfl]
      exact ⟨(of_stamps hedge hstamps).1, successor_of_respoolErrors herrors⟩

theorem applied_of_applyEvent (hrec : Valid N rec) (hopts : opts.Checked N)
    (h : applyEvent N rec event opts = .ok rec') : Applied N rec event rec' := by
  have hvalid := hrec.applyEvent hopts h
  obtain ⟨edge, hedge, -, rfl⟩ := applyEvent_ok h
  refine ⟨isValid_iff.mpr hvalid, fun hchanged ↦ ?_, fun hne ↦ (hvalid.stamped hne).1, isTerminal_of_step hedge⟩
  rcases hstamps : edge.stampsRespooledTo
  · rw [hstamps] at hchanged
    exact absurd rfl hchanged
  · exact (of_stamps hedge hstamps).2

/-! ## TOML -/

omit [DecidableEq ν] in
theorem isJson_texts (texts : List Text) : (JsData.arr (texts.map .str)).IsJson N.toNumbers := by
  refine .arr fun v hv ↦ ?_
  obtain ⟨s, -, rfl⟩ := List.mem_map.mp hv
  exact .str

omit [DecidableEq ν] in
theorem isJson_profile (p : FleetProfile) : (p.toData : JsData ν).IsJson N.toNumbers := by
  have hkeys : [ascii "name", ascii "base", ascii "model", ascii "variant", ascii "task_type", ascii "skills",
    ascii "gates", ascii "permissions"].Nodup := by decide
  have hpermissions : (JsData.obj (p.permissions.entries.map fun e ↦ (e.1, .str e.2))).IsJson N.toNumbers := by
    refine .obj ?_ fun e he ↦ ?_
    · rw [List.map_map]
      exact p.permissions.nodup
    · obtain ⟨e, -, rfl⟩ := List.mem_map.mp he
      exact .str
  refine .obj hkeys ?_
  simp only [forall_mem_cons, not_mem_nil, false_implies, implies_true, and_true]
  exact ⟨.str, .str, .str, .str, .str, isJson_texts _, isJson_texts _, hpermissions⟩

omit [DecidableEq ν] in
theorem tomlTable_toData (h : Valid N rec) : TomlTable N.toNumbers rec.toData := by
  have hkeys : [ascii "schema", ascii "session_id", ascii "state", ascii "current_step", ascii "started",
    ascii "tokens", ascii "runtime", ascii "respooled_to", ascii "pid", ascii "host", ascii "profile"].Nodup := by
    decide
  refine ⟨.obj hkeys ?_, nullPaths_toData rec⟩
  simp only [forall_mem_cons, not_mem_nil, false_implies, implies_true, and_true]
  exact ⟨.number (h.schema ▸ N.isFinite_one), .str, .str, .str, .str, .number h.tokens.1, .number h.runtime.1, .str,
    .number h.pid.1, .str, isJson_profile _⟩

theorem fromToml_toToml {toml : Toml ν} (htoml : toml.Correct N.toNumbers) (h : Valid N rec) :
    fromToml N toml (toToml toml rec) = some (.ok rec (profileWarnings rec.toData)) := by
  rw [fromToml, toToml, htoml _ (tomlTable_toData h)]
  exact validateRecord_toData h

/-- The law holds of a value if and only if it can be read. -/
theorem recordLaw_iff {toml : Toml ν} (htoml : toml.Correct N.toNumbers) (value : JsData ν) :
    RecordLaw N toml value ↔ Readable N value := by
  refine ⟨fun h ↦ validateRecord_ne_none_iff.mp h.returns, fun h ↦ ?_⟩
  exact {
    returns := validateRecord_ne_none_iff.mpr h
    again := fun rec warnings hok ↦ validateRecord_toData (valid_of_ok hok)
    applied := fun rec event opts rec' hrec hopts hok ↦ applied_of_applyEvent (isValid_iff.mp hrec) hopts hok
    reread := fun rec hrec ↦ ⟨_, fromToml_toToml htoml (isValid_iff.mp hrec)⟩ }

/-! ## A library that reads what it writes -/

def natRecords : RecordNumbers ℕ where
  toNumbers := Hashing.natNumbers
  zero := 0
  one := 1
  isNegative _ := false
  isFinite_zero := rfl
  isFinite_one := rfl
  isNegative_zero := rfl

mutual

/-- A value as a tree that says all of it. -/
def dataTree : JsData ℕ → Tree
  | .undefined => .word (ascii "undefined")
  | .null => .word (ascii "null")
  | .bool b => .word (ascii (if b then "true" else "false"))
  | .number x => .word (unit '+' :: (JsText.decimal x).map unit)
  | .str s => .str s
  | .arr items => .arr (itemTrees items)
  | .obj members => .obj (memberTrees members)
termination_by structural value => value

def itemTrees : List (JsData ℕ) → List Tree
  | [] => []
  | item :: items => dataTree item :: itemTrees items
termination_by structural items => items

def memberTrees : List (Text × JsData ℕ) → List (Text × Tree)
  | [] => []
  | (key, value) :: members => (key, dataTree value) :: memberTrees members
termination_by structural members => members

end

theorem itemTrees_eq (items : List (JsData ℕ)) : itemTrees items = items.map dataTree := by
  induction items with
  | nil => rfl
  | cons item items ih => rw [itemTrees, ih, map_cons]

theorem memberTrees_eq (members : List (Text × JsData ℕ)) :
    memberTrees members = members.map fun e ↦ (e.1, dataTree e.2) := by
  induction members with
  | nil => rfl
  | cons e members ih => rw [memberTrees, ih, map_cons]

theorem valid_dataTree (v : JsData ℕ) : (dataTree v).Valid := by
  induction v with
  | undefined => exact .word (by decide)
  | null => exact .word (by decide)
  | bool b => cases b <;> exact .word (by decide)
  | number x =>
    refine .word ⟨cons_ne_nil _ _, fun u hu ↦ ?_⟩
    obtain rfl | hu := mem_cons.mp hu
    · decide
    · obtain ⟨c, hc, rfl⟩ := List.mem_map.mp hu
      exact Hashing.numeral_not_mark _ (Hashing.unit_mem_numeral (JsText.isDigit_of_mem_decimal hc))
  | str s => exact .str
  | arr items ih =>
    rw [dataTree, itemTrees_eq]
    exact .arr (List.forall_mem_map.mpr ih)
  | obj members ih =>
    rw [dataTree, memberTrees_eq]
    exact .obj (List.forall_mem_map.mpr ih)

theorem map_inj_of_mem {α β : Type} {f : α → β} {l l' : List α} (hinj : ∀ a ∈ l, ∀ b, f a = f b → a = b)
    (h : l.map f = l'.map f) : l = l' := by
  induction l generalizing l' with
  | nil => exact (map_eq_nil_iff.mp h.symm).symm
  | cons a l ih =>
    rcases l' with _ | ⟨b, l'⟩
    · cases h
    · obtain ⟨hab, hrest⟩ := List.cons.inj h
      rw [hinj a mem_cons_self b hab, ih (fun a ha ↦ hinj a (mem_cons_of_mem _ ha)) hrest]

theorem dataTree_number_ne {x : ℕ} {text : Text} (h : text.head? ≠ some (unit '+')) :
    dataTree (.number x) ≠ .word text := by
  intro heq
  rw [← Tree.word.inj heq] at h
  exact h rfl

theorem dataTree_inj {v w : JsData ℕ} (h : dataTree v = dataTree w) : v = w := by
  induction v generalizing w with
  | undefined =>
    cases w with
    | undefined => rfl
    | null => exact absurd (Tree.word.inj h) (by decide)
    | bool b => cases b <;> exact absurd (Tree.word.inj h) (by decide)
    | number y => exact absurd h.symm (dataTree_number_ne (by decide))
    | _ => cases h
  | null =>
    cases w with
    | undefined => exact absurd (Tree.word.inj h) (by decide)
    | null => rfl
    | bool b => cases b <;> exact absurd (Tree.word.inj h) (by decide)
    | number y => exact absurd h.symm (dataTree_number_ne (by decide))
    | _ => cases h
  | bool b =>
    cases w with
    | undefined => cases b <;> exact absurd (Tree.word.inj h) (by decide)
    | null => cases b <;> exact absurd (Tree.word.inj h) (by decide)
    | bool c => cases b <;> cases c <;> first | rfl | exact absurd (Tree.word.inj h) (by decide)
    | number y => cases b <;> exact absurd h.symm (dataTree_number_ne (by decide))
    | _ => cases h
  | number x =>
    cases w with
    | undefined => exact absurd h (dataTree_number_ne (by decide))
    | null => exact absurd h (dataTree_number_ne (by decide))
    | bool b => cases b <;> exact absurd h (dataTree_number_ne (by decide))
    | number y => rw [Hashing.injective_natNumbers x y rfl rfl (List.cons.inj (Tree.word.inj h)).2]
    | _ => cases h
  | str s =>
    cases w with
    | str t => rw [Tree.str.inj h]
    | _ => cases h
  | arr items ih =>
    cases w with
    | arr items' =>
      rw [dataTree, dataTree, itemTrees_eq, itemTrees_eq] at h
      rw [map_inj_of_mem (fun v hv w hvw ↦ ih v hv hvw) (Tree.arr.inj h)]
    | _ => cases h
  | obj members ih =>
    cases w with
    | obj members' =>
      rw [dataTree, dataTree, memberTrees_eq, memberTrees_eq] at h
      refine congrArg _ (map_inj_of_mem (fun e he e' hee ↦ ?_) (Tree.obj.inj h))
      obtain ⟨hkey, hvalue⟩ := Prod.mk.inj hee
      exact Prod.ext hkey (ih e he hvalue)
    | _ => cases h

/-- A record of a session that has just been launched. -/
def launchedRecord : FleetRecord ℕ where
  schema := 1
  session_id := ascii "s1"
  state := .running
  current_step := []
  started := []
  tokens := 0
  runtime := 0
  respooled_to := []
  pid := 7
  host := ascii "lab"
  profile := {
    name := []
    base := []
    model := ascii "m"
    variant := ascii "v"
    task_type := []
    skills := []
    gates := [ascii "g"]
    permissions := ∅ }

def launchedText : Text := ascii "schema = 1\n" ++ ascii ("session_id = \"s1\"\nstate = \"running\"\ncurrent_step = \"\"\n"
  ++ "started = \"\"\ntokens = 0\nruntime = 0\nrespooled_to = \"\"\npid = 7\nhost = \"lab\"\n\n"
  ++ "[profile]\nname = \"\"\nbase = \"\"\nmodel = \"m\"\nvariant = \"v\"\ntask_type = \"\"\nskills = []\n"
  ++ "gates = [ \"g\" ]\n\n[profile.permissions]")

open Classical in
/-- The table of `launchedRecord` as TOML has it, and any other as a tree. -/
noncomputable def writeTable (table : JsData ℕ) : Text :=
  if table = launchedRecord.toData then launchedText else render Hashing.canonString (dataTree table)

theorem head_render_dataTree (v : JsData ℕ) :
    (render Hashing.canonString (dataTree v)).head? ≠ some (unit 's') := by
  cases v with
  | undefined => decide
  | null => decide
  | bool b => cases b <;> decide
  | number x => exact fun h ↦ absurd (Option.some.inj h) (by decide)
  | str s => exact fun h ↦ absurd (Option.some.inj h) (by decide)
  | arr items => exact fun h ↦ absurd (Option.some.inj h) (by decide)
  | obj members => exact fun h ↦ absurd (Option.some.inj h) (by decide)

theorem writeTable_inj {v w : JsData ℕ} (h : writeTable v = writeTable w) : v = w := by
  have hlaunched : launchedText.head? = some (unit 's') := rfl
  rw [writeTable, writeTable] at h
  split_ifs at h with hv hw hw
  · rw [hv, hw]
  · exact absurd (h ▸ hlaunched) (head_render_dataTree w)
  · exact absurd (h ▸ hlaunched) (head_render_dataTree v)
  · exact dataTree_inj (render_inj Hashing.quoting_canonString (valid_dataTree v) (valid_dataTree w) h)

open Classical in
/-- A library that reads what it writes. -/
noncomputable def sampleToml : Toml ℕ where
  stringify := writeTable
  parse text := if h : ∃ table, writeTable table ++ [unit '\n'] = text then .ok h.choose else .error []

theorem correct_sampleToml : sampleToml.Correct natRecords.toNumbers := by
  intro table _
  have h : ∃ v, writeTable v ++ [unit '\n'] = writeTable table ++ [unit '\n'] := ⟨table, rfl⟩
  exact (dif_pos h).trans (congrArg Except.ok (writeTable_inj (append_cancel_right h.choose_spec)))

theorem recordLaw_launched : RecordLaw natRecords sampleToml launchedRecord.toData :=
  (recordLaw_iff correct_sampleToml launchedRecord.toData).mpr ⟨nofun, fun h ↦ absurd rfl h⟩

/-- A record without a profile, said to be null. -/
def nullProfile : JsData ℕ :=
  .obj [(ascii "session_id", .str (ascii "s1")), (ascii "state", .str (ascii "running")), (ascii "profile", .null)]

theorem not_recordLaw_nullProfile : ¬ ∀ toml : Toml ℕ, toml.Correct natRecords.toNumbers →
    ∀ value, RecordLaw natRecords toml value := by
  intro h
  have hreadable := validateRecord_ne_none_iff.mp (h sampleToml correct_sampleToml nullProfile).returns
  exact hreadable.profile rfl

end Amicode.Registry
