import Amicode.Foundation.JsObject

/-!
# Model routing

Which model a subagent role is dispatched with (`model_routing.ts`). `buildChain` lists the candidates,
`resolveRoleRoute` walks down the chain to the first whose provider is live. The header of the file says that the
`model:` of a role card outranks the entire chain, but the row of the settings is put in front of it; and a role with
the name of a property that every object inherits finds that property in the tables, which is no model.
`routingLaw_iff` says when neither matters.
-/

open List Option

namespace Amicode.Routing

inductive RoutingProvenance where
  | userSet
  | fleetLocked
  | tuned
  | suggested
  | default
deriving DecidableEq

def RoutingProvenance.name : RoutingProvenance → String
  | .userSet => "user-set"
  | .fleetLocked => "fleet-locked"
  | .tuned => "tuned"
  | .suggested => "suggested"
  | .default => "default"

inductive ModelClass where
  | workhorse
  | strongestReasoner
  | fastCheap
deriving DecidableEq

def ModelClass.name : ModelClass → String
  | .workhorse => "workhorse"
  | .strongestReasoner => "strongest-reasoner"
  | .fastCheap => "fast-cheap"

def catalog : ModelClass → List String
  | .workhorse => ["anthropic/claude-sonnet-4-5", "openai/gpt-5", "zai/glm-5.3-flash"]
  | .strongestReasoner => ["anthropic/claude-opus-4-1", "openai/gpt-5", "zai/glm-5.3"]
  | .fastCheap => ["anthropic/claude-haiku-4-5", "openai/gpt-5-mini", "zai/glm-5.3-flash"]

abbrev Table := List (String × String)

structure RoutingPrefs where
  suggested_opt_in : Bool
  roles : Table

structure ResolveRouteInputs where
  role : String
  prefs : Option RoutingPrefs
  handSetModel : Option String
  classes : List ModelClass
  tuned : Option Table
  fleetLocked : Option Table
  fleetSession : Bool
  /-- None when the snapshot is unavailable. -/
  liveProviders : Option (List String)

/-- What stands in the place of a model. -/
inductive RowModel where
  | named (model : String)
  /-- A property of `Object.prototype`. -/
  | inherited (name : String)
deriving DecidableEq

/-- As text: all these properties are functions but `__proto__`. -/
def RowModel.text : RowModel → String
  | .named model => model
  | .inherited name =>
    if name = "__proto__" then "[object Object]"
    else "function " ++ (if name = "constructor" then "Object" else name) ++ "() \x7b [native code] \x7d"

structure ChainRow where
  tier : RoutingProvenance
  model : RowModel
  accepted : Bool
  reason : String

/-- `model.split("/")[0]`. -/
def providerOf (model : String) : String := String.ofList (model.toList.takeWhile (· ≠ '/'))

/-- `model.split("/").slice(1).join("/") || null`. -/
def modelIdOf (model : String) : Option String :=
  some (String.ofList (model.toList.dropWhile (· ≠ '/')).tail) |>.filter (· ≠ "")

/-- `table?.[role]`, if it counts as true. -/
def lookup (table : Option Table) (role : String) : Option RowModel :=
  table.bind fun members ↦ match JsObject.own? members role with
    | some model => if model = "" then none else some (.named model)
    | none => if JsObject.inheritedNames.contains role then some (.inherited role) else none

def row (tier : RoutingProvenance) (source : String) (model : RowModel) : ChainRow := ⟨tier, model, false, source⟩

def userRow (i : ResolveRouteInputs) : List ChainRow :=
  ((lookup (i.prefs.map RoutingPrefs.roles) i.role).map
    (row .userSet "user-set for this role (settings)")).toList

def cardRow (i : ResolveRouteInputs) : List ChainRow :=
  ((i.handSetModel.filter (· ≠ "")).map fun model ↦
    row .userSet "hand-set model on the role card" (.named model)).toList

/-- The rows below what the user has set. -/
def lowerRows (i : ResolveRouteInputs) : List ChainRow :=
  ((if i.fleetSession then lookup i.fleetLocked i.role else none).map
      (row .fleetLocked "fleet-locked policy (fleet-spawned dispatch)")).toList ++
    ((lookup i.tuned i.role).map (row .tuned "tuned policy snapshot")).toList ++
    if i.prefs.any RoutingPrefs.suggested_opt_in then
      i.classes.flatMap fun cls ↦ (catalog cls).map fun candidate ↦
        row .suggested ("suggested: " ++ cls.name ++ " class (the role card's prefer-list)") (.named candidate)
    else []

def buildChain (i : ResolveRouteInputs) : List ChainRow := userRow i ++ cardRow i ++ lowerRows i

/-- The walk down the chain: the rows as it leaves them, and the place of the one it accepts. None if it throws, which
it does at what is no text. -/
def walk (live : List String) : List ChainRow → Option (List ChainRow × Option ℕ)
  | [] => some ([], none)
  | r :: rest =>
    match r.model with
    | .inherited _ => none
    | .named model =>
      let provider := providerOf model
      if provider ∈ live then
        some (⟨r.tier, r.model, true, r.reason ++ "; provider \"" ++ provider ++ "\" is live"⟩ :: rest, some 0)
      else
        let reason := r.reason ++ " — no live credential for provider \"" ++ provider ++ "\""
        (walk live rest).map fun w ↦ (⟨r.tier, r.model, false, reason⟩ :: w.1, w.2.map (· + 1))

structure RoutingResolution where
  role : String
  /-- The model that is dispatched, with its tier; none to inherit the model of the session. -/
  picked : Option (RoutingProvenance × RowModel)
  providerID : Option String
  modelID : Option String
  reason : String
  chain : List ChainRow
  announcement : Option String

def accept (role : String) (chain : List ChainRow) (top accepted : ChainRow) (first : Bool) : RoutingResolution where
  role
  picked := some (accepted.tier, accepted.model)
  providerID := some (providerOf accepted.model.text)
  modelID := modelIdOf accepted.model.text
  reason := accepted.reason
  chain
  announcement := if first then none else
    some ("Model routing: " ++ role ++ " wanted " ++ top.model.text ++ " (" ++ top.tier.name ++ ") but " ++ top.reason
      ++ " — dispatching " ++ accepted.model.text ++ " (" ++ accepted.tier.name ++ ").")

def inherit (role : String) (chain : List ChainRow) : RoutingResolution :=
  if chain = [] then ⟨role, none, none, none, "no routing configured — this session's model", [], none⟩
  else
    let reasons := "; ".intercalate (chain.map fun r ↦ r.model.text ++ " (" ++ r.tier.name ++ "): " ++ r.reason)
    ⟨role, none, none, none, "no routing candidate is dispatchable — " ++ reasons ++ "; using this session's model", chain,
      some ("Model routing: " ++ role ++ " — no candidate is dispatchable (" ++ reasons ++
        ") — using this session's model.")⟩

/-- None if it throws. -/
def resolveRoleRoute (i : ResolveRouteInputs) : Option RoutingResolution :=
  match i.liveProviders with
  | none => some (inherit i.role ((buildChain i).map fun r ↦
      ⟨r.tier, r.model, false, r.reason ++ " — live provider snapshot unavailable"⟩))
  | some live =>
    (walk live (buildChain i)).map fun w ↦
      match w.2.bind fun n ↦ w.1[n]? with
      | some accepted => accept i.role w.1 (w.1.headD accepted) accepted (w.2 = some 0)
      | none => inherit i.role w.1

/-- The model a spawn carries, with what was resolved; the inputs are read for the role. -/
def routeSpawnModel (agent : Option String) (hasExplicit : Bool) (read : String → ResolveRouteInputs) :
    Option (String × String) × Option RoutingResolution :=
  let role := String.ofList (JsText.trim (agent.getD "").toList)
  if role = "" ∨ hasExplicit then (none, none)
  else match resolveRoleRoute (read role) with
    | none => (none, none)
    | some r =>
      if r.chain = [] then (none, none)
      else (r.picked.bind fun _ ↦ (r.providerID.filter (· ≠ "")).bind fun p ↦ r.modelID.map fun m ↦ (p, m), some r)

/-! ## The law -/

def modelsOf (rows : List ChainRow) : List (RoutingProvenance × RowModel) :=
  (rows.map fun r ↦ (r.tier, r.model)).filter fun c ↦ c.2 matches .named _

/-- The candidates in the order of the header: what stands on the card first. -/
def candidates (i : ResolveRouteInputs) : List (RoutingProvenance × RowModel) :=
  modelsOf (cardRow i ++ userRow i ++ lowerRows i)

def RowModel.isLive (live : List String) : RowModel → Bool
  | .named model => providerOf model ∈ live
  | .inherited _ => false

def firstLive (i : ResolveRouteInputs) : Option (RoutingProvenance × RowModel) :=
  i.liveProviders.bind fun live ↦ (candidates i).find? fun c ↦ c.2.isLive live

structure RoutingLaw (i : ResolveRouteInputs) : Prop where
  /-- The first live candidate is picked, and it is announced if it is not the first of all. -/
  picks : ∃ r, resolveRoleRoute i = some r ∧ r.picked = firstLive i ∧
    (r.announcement.isSome ↔ firstLive i ≠ (candidates i).head?)
  fleet : ∀ lock, i.fleetSession = false → resolveRoleRoute { i with fleetLocked := lock } = resolveRoleRoute i
  suggestions : ∀ classes, i.prefs.any RoutingPrefs.suggested_opt_in = false →
    resolveRoleRoute { i with classes } = resolveRoleRoute i

/-- A table has for the role what every object inherits. -/
def Stray (table : Option Table) (role : String) : Prop := ∃ name, lookup table role = some (.inherited name)

/-- The walk meets no stray row before a live one. -/
def StraysUnmet (i : ResolveRouteInputs) (live : List String) : Prop :=
  ¬ Stray (i.prefs.map RoutingPrefs.roles) i.role ∧
    ((∃ r ∈ userRow i ++ cardRow i, r.model.isLive live = true) ∨
      (i.fleetSession = true → ¬ Stray i.fleetLocked i.role) ∧
        ((i.fleetSession = true ∧ ∃ m, lookup i.fleetLocked i.role = some m ∧ m.isLive live = true) ∨
          ¬ Stray i.tuned i.role))

/-- The row of the settings does not matter beside the model on the card, and no stray row is met. -/
def Routable (i : ResolveRouteInputs) : Prop :=
  match i.liveProviders with
  | none => candidates i ≠ [] ∨ buildChain i = []
  | some live =>
    (∀ u ∈ userRow i, ∀ h ∈ cardRow i,
      u.model = h.model ∨ u.model.isLive live = false ∧ h.model.isLive live = false) ∧ StraysUnmet i live

variable {i : ResolveRouteInputs} {live : List String} {rows a b : List ChainRow} {r : ChainRow}

/-! ## The walk -/

/-- Where a walk ends: at a live row, or at one that is no text. -/
def stops (live : List String) (r : ChainRow) : Bool := r.model.isLive live || r.model matches .inherited _

/-- The walk does not end at a row that is no text. -/
def Clear (live : List String) (rows : List ChainRow) : Prop :=
  ∀ r, rows.find? (stops live) = some r → r.model.isLive live = true

theorem walk_spec (live : List String) (rows : List ChainRow) :
    (Clear live rows → ∃ rows' n, walk live rows = some (rows', n) ∧ (rows' = [] ↔ rows = []) ∧
      ((n.bind fun n ↦ rows'[n]?).map fun r ↦ (r.tier, r.model)) = (modelsOf rows).find? (fun c ↦ c.2.isLive live) ∧
      (n = some 0 ↔ ∃ r ∈ rows.head?, r.model.isLive live = true)) ∧
    (¬ Clear live rows → walk live rows = none) := by
  induction rows with
  | nil => exact ⟨fun _ ↦ ⟨[], none, rfl, Iff.rfl, rfl, by simp⟩, fun h ↦ absurd (fun r hr ↦ by cases hr) h⟩
  | cons r rest ih =>
    rcases hmodel : r.model with model | name
    · have hshow : modelsOf (r :: rest) = (r.tier, .named model) :: modelsOf rest := by
        rw [modelsOf, map_cons, hmodel]
        rfl
      by_cases hlive : providerOf model ∈ live
      · have his : r.model.isLive live = true := by rw [hmodel]; exact decide_eq_true hlive
        refine ⟨fun _ ↦ ⟨_, some 0, by rw [walk, hmodel]; exact if_pos hlive, by simp, ?_, by simp [his]⟩, fun h ↦ ?_⟩
        · rw [hshow, find?_cons_of_pos (by exact decide_eq_true hlive)]
          rfl
        · refine absurd (fun x hx ↦ ?_) h
          rw [find?_cons_of_pos (by rw [stops, his]; rfl)] at hx
          rw [← Option.some.inj hx, his]
      · have his : r.model.isLive live = false := by rw [hmodel]; exact decide_eq_false hlive
        have hstops : ¬ stops live r = true := by rw [stops, his, hmodel]; exact Bool.false_ne_true
        have hclear : Clear live (r :: rest) ↔ Clear live rest := by
          rw [Clear, find?_cons_of_neg hstops]
          rfl
        have hwalk : walk live (r :: rest) = (walk live rest).map fun w ↦
            (⟨r.tier, r.model, false, r.reason ++ " — no live credential for provider \"" ++ providerOf model ++ "\""⟩ :: w.1,
              w.2.map (· + 1)) := by
          rw [walk, hmodel]
          exact if_neg hlive
        rw [hclear, hwalk]
        refine ⟨fun h ↦ ?_, fun h ↦ by rw [ih.2 h]; rfl⟩
        obtain ⟨rows', n, hrest, -, hpicked, -⟩ := ih.1 h
        refine ⟨_, _, by rw [hrest]; rfl, by simp, ?_, by cases n <;> simp [his]⟩
        rw [hshow, find?_cons_of_neg (by exact fun hx ↦ hlive (of_decide_eq_true hx)), ← hpicked]
        cases n <;> rfl
    · have hfind : (r :: rest).find? (stops live) = some r :=
        find?_cons_of_pos (by rw [stops, hmodel]; rfl)
      refine ⟨fun h ↦ ?_, fun _ ↦ by rw [walk, hmodel]⟩
      have := h r hfind
      rw [hmodel] at this
      cases this

theorem head?_modelsOf (h : Clear live (r :: rows)) : (modelsOf (r :: rows)).head? = some (r.tier, r.model) := by
  rcases hmodel : r.model with model | name
  · rw [modelsOf, map_cons, hmodel]
    rfl
  · have := h r (find?_cons_of_pos (by rw [stops, hmodel]; rfl))
    rw [hmodel] at this
    cases this

theorem picked_resolve (hlive : i.liveProviders = some live) (h : Clear live (buildChain i)) :
    ∃ r, resolveRoleRoute i = some r ∧ r.picked = (modelsOf (buildChain i)).find? (fun c ↦ c.2.isLive live) ∧
      (r.announcement.isSome ↔
        (modelsOf (buildChain i)).find? (fun c ↦ c.2.isLive live) ≠ (modelsOf (buildChain i)).head?) := by
  obtain ⟨rows', n, hwalk, hnil, hpicked, hfirst⟩ := (walk_spec live (buildChain i)).1 h
  rw [resolveRoleRoute, hlive]
  dsimp only
  rw [hwalk, map_some]
  rcases hn : n.bind fun n ↦ rows'[n]? with _ | accepted
  · rw [hn] at hpicked
    refine ⟨_, rfl, ?_, ?_⟩
    · dsimp only
      rw [← hpicked, inherit]
      split_ifs <;> rfl
    · dsimp only
      rw [← hpicked, inherit]
      rcases hchain : buildChain i with _ | ⟨r, rest⟩
      · rw [if_pos (hnil.mpr hchain)]
        exact iff_of_false Bool.false_ne_true fun hne ↦ hne rfl
      · rw [if_neg fun hempty ↦ by rw [hnil.mp hempty] at hchain; cases hchain]
        rw [hchain] at h
        exact iff_of_true rfl (by rw [head?_modelsOf h]; exact nofun)
  · rw [hn, map_some] at hpicked
    refine ⟨_, rfl, by dsimp only; rw [← hpicked]; rfl, ?_⟩
    dsimp only
    rw [← hpicked, accept]
    rcases hchain : buildChain i with _ | ⟨r, rest⟩
    · rw [hchain] at hpicked
      cases hpicked
    · rw [hchain] at h hpicked hfirst
      rw [head?_modelsOf h]
      have hlive : accepted.model.isLive live = true :=
        find?_some (p := fun c : RoutingProvenance × RowModel ↦ c.2.isLive live) hpicked.symm
      by_cases hr : r.model.isLive live = true
      · have hzero : n = some 0 := hfirst.mpr ⟨r, rfl, hr⟩
        have hmodels : (r.tier, r.model) = (accepted.tier, accepted.model) := by
          rcases hmodels : modelsOf (r :: rest) with _ | ⟨c, cs⟩
          · have := head?_modelsOf h
            rw [hmodels] at this
            cases this
          · have hhead := head?_modelsOf h
            rw [hmodels, head?_cons, some_inj] at hhead
            rw [hmodels, find?_cons_of_pos (by rw [hhead]; exact hr), some_inj, hhead] at hpicked
            exact hpicked.symm
        rw [if_pos (decide_eq_true hzero)]
        exact iff_of_false Bool.false_ne_true fun hne ↦ hne (by rw [hmodels])
      · have hzero : n ≠ some 0 := fun hzero ↦ by
          obtain ⟨x, hx, hlive⟩ := hfirst.mp hzero
          cases hx
          exact hr hlive
        rw [if_neg (by simpa using hzero)]
        refine iff_of_true rfl fun heq ↦ hr ?_
        rw [← (Prod.mk.inj (Option.some.inj heq)).2, hlive]

/-! ## When the law holds -/

theorem clear_append : Clear live (a ++ b) ↔ Clear live a ∧ ((∃ r ∈ a, r.model.isLive live = true) ∨ Clear live b) := by
  unfold Clear
  rw [find?_append]
  rcases hfind : a.find? (stops live) with _ | r
  · have hdead (r : ChainRow) (hr : r ∈ a) : r.model.isLive live ≠ true := fun hlive ↦
      find?_eq_none.mp hfind r hr (by rw [stops, hlive]; rfl)
    rw [none_or, and_iff_right nofun, or_iff_right (by rintro ⟨r, hr, hlive⟩; exact hdead r hr hlive)]
  · rw [some_or]
    exact ⟨fun h ↦ ⟨h, .inl ⟨r, mem_of_find?_eq_some hfind, h r rfl⟩⟩, fun h ↦ h.1⟩

theorem clear_of_named (h : ∀ r ∈ a, ∃ model, r.model = .named model) : Clear live a := by
  intro r hr
  obtain ⟨model, hmodel⟩ := h r (mem_of_find?_eq_some hr)
  have hstops := find?_some hr
  rwa [stops, hmodel, Bool.or_false, ← hmodel] at hstops

theorem clear_lookup {tier : RoutingProvenance} {source role : String} {table : Option Table} :
    Clear live ((lookup table role).map (row tier source)).toList ↔ ¬ Stray table role := by
  rw [Stray]
  rcases hlookup : lookup table role with _ | model | name
  · exact iff_of_true nofun (by rintro ⟨name, ⟨⟩⟩)
  · exact iff_of_true (clear_of_named (by rintro r hr; rw [mem_singleton.mp hr]; exact ⟨model, rfl⟩))
      (by rintro ⟨name, ⟨⟩⟩)
  · refine iff_of_false (fun h ↦ ?_) fun h ↦ h ⟨name, rfl⟩
    cases h _ (find?_cons_of_pos rfl)

theorem clear_cardRow : Clear live (cardRow i) := by
  refine clear_of_named fun r hr ↦ ?_
  obtain ⟨model, -, rfl⟩ := map_eq_some_iff.mp (mem_toList.mp hr)
  exact ⟨model, rfl⟩

theorem clear_buildChain_iff : Clear live (buildChain i) ↔ StraysUnmet i live := by
  have hsuggested : Clear live (if i.prefs.any RoutingPrefs.suggested_opt_in then
      i.classes.flatMap fun cls ↦ (catalog cls).map fun candidate ↦
        row .suggested ("suggested: " ++ cls.name ++ " class (the role card's prefer-list)") (.named candidate)
      else []) := by
    refine clear_of_named fun r hr ↦ ?_
    split_ifs at hr
    · obtain ⟨cls, -, hr⟩ := mem_flatMap.mp hr
      obtain ⟨candidate, -, rfl⟩ := List.mem_map.mp hr
      exact ⟨candidate, rfl⟩
    · cases hr
  rw [buildChain, clear_append, clear_append, userRow, clear_lookup, ← userRow, StraysUnmet, lowerRows, clear_append,
    clear_append, clear_lookup, and_iff_left (Or.inr clear_cardRow), and_iff_left (Or.inr hsuggested)]
  rcases hfleet : i.fleetSession
  · simp [Clear]
  · rw [if_pos rfl, clear_lookup]
    simp [row]

theorem userRow_cases (hlook : ¬ Stray (i.prefs.map RoutingPrefs.roles) i.role) :
    userRow i = [] ∨ ∃ source u, userRow i = [row .userSet source (.named u)] := by
  unfold userRow
  rcases hlookup : lookup (i.prefs.map RoutingPrefs.roles) i.role with _ | u | name
  · exact .inl rfl
  · exact .inr ⟨_, u, rfl⟩
  · exact absurd ⟨name, hlookup⟩ hlook

theorem cardRow_cases : cardRow i = [] ∨ ∃ source h, cardRow i = [row .userSet source (.named h)] := by
  unfold cardRow
  rcases i.handSetModel.filter (· ≠ "") with _ | h
  · exact .inl rfl
  · exact .inr ⟨_, h, rfl⟩

theorem order_iff (hclear : Clear live (buildChain i)) :
    ((modelsOf (buildChain i)).find? (fun c ↦ c.2.isLive live) = (candidates i).find? (fun c ↦ c.2.isLive live) ∧
      ((modelsOf (buildChain i)).find? (fun c ↦ c.2.isLive live) ≠ (modelsOf (buildChain i)).head? ↔
        (candidates i).find? (fun c ↦ c.2.isLive live) ≠ (candidates i).head?)) ↔
    ∀ u ∈ userRow i, ∀ h ∈ cardRow i,
      u.model = h.model ∨ u.model.isLive live = false ∧ h.model.isLive live = false := by
  have huser := userRow_cases (clear_buildChain_iff.mp hclear).1
  unfold candidates
  rw [buildChain]
  rcases huser with huser | ⟨su, u, huser⟩
  · rw [huser, append_nil, nil_append]
    exact iff_of_true ⟨rfl, Iff.rfl⟩ nofun
  · rcases cardRow_cases (i := i) with hcard | ⟨sh, h, hcard⟩
    · rw [huser, hcard, append_nil, nil_append]
      exact iff_of_true ⟨rfl, Iff.rfl⟩ nofun
    · have hshow (m : String) (s : String) (l : List ChainRow) :
          modelsOf (row .userSet s (.named m) :: l) = (.userSet, .named m) :: modelsOf l := rfl
      rw [huser, hcard, singleton_append, cons_append, cons_append, nil_append, hshow, hshow,
        singleton_append, cons_append, cons_append, nil_append, hshow, hshow]
      by_cases hu : (RowModel.named u).isLive live = true
      · by_cases hh : (RowModel.named h).isLive live = true
        · simp [hu, hh, row]
        · simp [hu, hh, row]
      · by_cases hh : (RowModel.named h).isLive live = true
        · simp [hu, hh, row]
          exact eq_comm
        · -- neither is live, and what is found below is
          have hdead (m : String) (hm : ¬ (RowModel.named m).isLive live = true) :
              (modelsOf (lowerRows i)).find? (fun c ↦ c.2.isLive live) ≠ some (.userSet, .named m) :=
            fun hfind ↦ hm (find?_some (p := fun c : RoutingProvenance × RowModel ↦ c.2.isLive live) hfind)
          simp [hu, hh, row, hdead u hu, hdead h hh]

theorem noninterference (i : ResolveRouteInputs) :
    (∀ lock, i.fleetSession = false → resolveRoleRoute { i with fleetLocked := lock } = resolveRoleRoute i) ∧
      ∀ classes, i.prefs.any RoutingPrefs.suggested_opt_in = false →
        resolveRoleRoute { i with classes } = resolveRoleRoute i := by
  constructor
  · intro lock h
    have hchain : buildChain { i with fleetLocked := lock } = buildChain i := by
      simp only [buildChain, lowerRows, userRow, cardRow, h, Bool.false_eq_true, if_false]
    rw [resolveRoleRoute, hchain]
    rfl
  · intro classes h
    have hchain : buildChain { i with classes } = buildChain i := by
      simp only [buildChain, lowerRows, userRow, cardRow, h, Bool.false_eq_true, if_false]
    rw [resolveRoleRoute, hchain]
    rfl

theorem routingLaw_unknown (hlive : i.liveProviders = none) : RoutingLaw i ↔ candidates i ≠ [] ∨ buildChain i = [] := by
  have hpicks : RoutingLaw i ↔ ∃ r, resolveRoleRoute i = some r ∧ r.picked = firstLive i ∧
      (r.announcement.isSome ↔ firstLive i ≠ (candidates i).head?) :=
    ⟨fun h ↦ h.picks, fun h ↦ ⟨h, (noninterference i).1, (noninterference i).2⟩⟩
  rw [hpicks, resolveRoleRoute, firstLive, hlive]
  have hsub : buildChain i = [] → candidates i = [] := by
    intro hchain
    obtain ⟨huser, hlower⟩ := append_eq_nil_iff.mp hchain
    obtain ⟨huser, hcard⟩ := append_eq_nil_iff.mp huser
    rw [candidates, huser, hcard, hlower]
    rfl
  have hhead : none ≠ (candidates i).head? ↔ candidates i ≠ [] := by
    rw [ne_comm, ne_eq, head?_eq_none_iff]
  simp only [Option.some.injEq, exists_eq_left', bind_none, hhead, inherit, map_eq_nil_iff]
  split_ifs with hchain
  · simp [hchain, hsub hchain]
  · simp [hchain]

theorem routingLaw_known (hlive : i.liveProviders = some live) : RoutingLaw i ↔
    (∀ u ∈ userRow i, ∀ h ∈ cardRow i,
      u.model = h.model ∨ u.model.isLive live = false ∧ h.model.isLive live = false) ∧ StraysUnmet i live := by
  have hfirst : firstLive i = (candidates i).find? fun c ↦ c.2.isLive live := by rw [firstLive, hlive]; rfl
  rw [← clear_buildChain_iff]
  by_cases hclear : Clear live (buildChain i)
  · rw [and_iff_left hclear, ← order_iff hclear]
    obtain ⟨r, hr, hpicked, hannounced⟩ := picked_resolve hlive hclear
    rw [← hpicked] at hannounced ⊢
    constructor
    · rintro ⟨⟨r', hr', hpicked', hannounced'⟩, -, -⟩
      obtain rfl := Option.some.inj (hr.symm.trans hr')
      rw [← hfirst]
      exact ⟨hpicked', hannounced.symm.trans hannounced'⟩
    · rintro ⟨heq, hiff⟩
      rw [← hfirst] at heq hiff
      exact ⟨⟨r, hr, heq, hannounced.trans hiff⟩, (noninterference i).1, (noninterference i).2⟩
  · refine iff_of_false (fun h ↦ ?_) fun h ↦ hclear h.2
    obtain ⟨r, hr, -⟩ := h.picks
    rw [resolveRoleRoute, hlive] at hr
    dsimp only at hr
    rw [(walk_spec live (buildChain i)).2 hclear] at hr
    cases hr

/-- A role whose card has a model and for which the settings have another, both live. -/
def twiceSet : ResolveRouteInputs where
  role := "critic"
  prefs := some ⟨false, [("critic", "openai/gpt-5")]⟩
  handSetModel := some "anthropic/claude-opus-4-1"
  classes := []
  tuned := none
  fleetLocked := none
  fleetSession := false
  liveProviders := some ["openai", "anthropic"]

end Amicode.Routing
