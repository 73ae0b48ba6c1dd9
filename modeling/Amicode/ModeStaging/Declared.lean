import Amicode.Foundation.Lines
import Amicode.ModeStaging.Stage
import Mathlib.Data.List.Nodup

/-!
# The staged set and the declared set

The stager and the doctor are meant to walk one set of files (`mode_registry.ts`, `mode_staging.ts`).
The stager resolves a declared path against the directory of its bundle; `declaredComponents` names
the source relative to the extension by dropping two leading `../` from the text of the path.

The two agree exactly for a path that begins with `../../`, or that climbs to the root of the file
system on its way (`upward_iff`). A path inside the bundle does neither. Nor does the schema keep two
roles from having one name, or two seeds one file name.
-/

open List

namespace Amicode.ModeStaging

open JsText

/-! ## Declared components -/

def isLower (c : Char) : Bool := 'a' ≤ c && c ≤ 'z'

/-- `^[a-z][a-z0-9-]*$`. -/
def isSlug : List Char → Bool
  | [] => false
  | c :: rest => isLower c && rest.all fun d ↦ isLower d || isDigit d || d == '-'

/-- A manifest that the schema admits, and its bundle's paths lead nowhere outside the extension. -/
structure ValidManifest (plan : Plan) (dir : List Char) extends ModeManifest where
  mode : List Char
  card_eq : card = "card.md".toList
  pack_eq : pack = "pack.toml".toList
  mode_slug : isSlug mode
  named : baseOf dir = mode
  roles_ne : roles ≠ []
  seeds_ne : handoff_seeds ≠ []
  roles_slug : ∀ role ∈ roles, isSlug role.name
  resolves : ∀ path ∈ roles.map ModeRole.path ++ handoff_seeds, (plan.resolveUnder dir path).isSome

structure DeclaredComponent where
  inBundle : List Char
  sourceRel : List Char

/-- `replace(/^\.\.\//, "")`. -/
def dropUp : List Char → List Char
  | '.' :: '.' :: '/' :: rest => rest
  | path => path

/-- The source of a file that has the same name in its bundle. -/
def ofMode (mode name : List Char) : DeclaredComponent :=
  ⟨name, "modes/".toList ++ mode ++ '/' :: name⟩

variable {plan : Plan} {dir : List Char}

def declaredComponents (m : ValidManifest plan dir) : List DeclaredComponent :=
  [ofMode m.mode m.card, ofMode m.mode m.pack, ofMode m.mode "mode.toml".toList] ++
    m.roles.map (fun role ↦ ⟨"roles/".toList ++ role.name ++ ".md".toList, dropUp (dropUp role.path)⟩) ++
    m.handoff_seeds.map fun schema ↦ ⟨"handoff-seeds/".toList ++ baseOf schema, dropUp (dropUp schema)⟩

/-! ## The law -/

/-- What the stager writes and from where is what is declared, and no two files have one place. -/
structure StagedAsDeclared (root : Path) (m : ValidManifest plan dir) : Prop where
  staged : ((plan.bundle dir m.toModeManifest).map fun c ↦ (c.inBundle, c.source)).Perm
    ((declaredComponents m).map fun c ↦ (c.inBundle, some (joinPath plan.extensionRoot c.sourceRel)))
  apart : ((declaredComponents m).map fun c ↦ joinPath root c.inBundle).Nodup

/-- One name on the way of a path: how far it has led above its start, and the names from there. -/
def descend (way : ℕ × Path) (segment : List Char) : ℕ × Path :=
  if segment = [] ∨ segment = ['.'] then way
  else if segment = ['.', '.'] then (if way.2 = [] then way.1 + 1 else way.1, way.2.dropLast)
  else (way.1, way.2 ++ [segment])

/-- How far above its start a path leads. -/
def climb (path : List Char) : ℕ := ((splitOn ['/'] path).foldl descend (0, [])).1

/-- The path begins with `../../`, or climbs to the root of the file system. -/
def Upward (plan : Plan) (path : List Char) : Prop :=
  "../../".toList <+: path ∨
    (if path.head? = some '/' then plan.extensionRoot.length else plan.extensionRoot.length + 2) ≤ climb path

def seedPlace (root : Path) (schema : List Char) : Path := joinPath (root ++ ["handoff-seeds".toList]) (baseOf schema)

def places (root : Path) (roles : List ModeRole) : List Path :=
  [root ++ ["card.md".toList], root ++ ["pack.toml".toList], root ++ ["mode.toml".toList]] ++
    roles.map fun role ↦ root ++ ["roles".toList, role.name ++ ".md".toList]

/-- The directory is named after the mode, the roles have different names, the seeds have places of
their own, and every declared path leads upward. -/
structure Declarable (root : Path) (m : ValidManifest plan dir) : Prop where
  mode : dir = m.mode
  roles : (m.roles.map ModeRole.name).Nodup
  seeds : (m.handoff_seeds.map (seedPlace root)).Nodup
  others : ∀ schema ∈ m.handoff_seeds, seedPlace root schema ∉ places root m.roles
  upward : ∀ path ∈ m.roles.map ModeRole.path ++ m.handoff_seeds, Upward plan path

/-! ## Paths -/

/-- It leads down by itself. -/
abbrev IsName (segment : List Char) : Prop :=
  '/' ∉ segment ∧ segment ≠ [] ∧ segment ≠ ['.'] ∧ segment ≠ ['.', '.']

section Paths

variable {segment : List Char} (base : Path)

theorem joinPath_cons (h : '/' ∉ segment) (rest : List Char) :
    joinPath base (segment ++ '/' :: rest) = joinPath (joinPath base segment) rest := by
  have hsplit : (segment ++ '/' :: rest).splitOn '/' = segment :: rest.splitOn '/' :=
    splitOnP_append_cons_of_forall_mem (by grind) '/' (by simp) rest
  rw [joinPath, joinPath, joinPath, splitOn_of_notMem h, splitOn_singleton, splitOn_singleton, hsplit]
  rfl

theorem joinPath_name (h : IsName segment) : joinPath base segment = base ++ [segment] := by
  rw [joinPath, splitOn_of_notMem h.1]
  simp [h.2]

theorem joinPath_folder (name : List Char) {folder : List Char} (h : folder = name ++ ['/'] ∧ IsName name)
    (rest : List Char) : joinPath base (folder ++ rest) = joinPath (base ++ [name]) rest := by
  rw [h.1, append_assoc, singleton_append, joinPath_cons base h.2.1, joinPath_name base h.2]

/-- A path leads up from its base, and down from there by names of its own. -/
theorem joinPath_eq_take (path : List Char) : joinPath base path =
    base.take (base.length - climb path) ++ ((splitOn ['/'] path).foldl descend (0, [])).2 := by
  suffices h : ∀ (segments : List (List Char)) (n : ℕ) (names : Path),
      segments.foldl (fun acc segment ↦
        if segment = [] ∨ segment = ['.'] then acc
        else if segment = ['.', '.'] then acc.dropLast
        else acc ++ [segment]) (base.take (base.length - n) ++ names) =
      base.take (base.length - (segments.foldl descend (n, names)).1) ++ (segments.foldl descend (n, names)).2 by
    have := h (splitOn ['/'] path) 0 []
    rwa [Nat.sub_zero, take_length, append_nil] at this
  intro segments
  induction segments with
  | nil => exact fun _ _ ↦ rfl
  | cons segment segments ih =>
    intro n names
    rw [foldl_cons, foldl_cons, ← ih]
    congr 1
    rw [descend]
    split_ifs with hstay hup hnil
    · rfl
    · subst hnil
      rw [append_nil, dropLast_eq_take, length_take, take_take, dropLast_nil, append_nil]
      congr 1
      omega
    · exact dropLast_append_of_ne_nil hnil
    · exact append_assoc ..

/-- A path that leads to one place from two directories, one above the other, leads above them. -/
theorem joinPath_append_iff {below : Path} (hne : below ≠ []) (path : List Char) :
    joinPath (base ++ below) path = joinPath base path ↔ base.length + below.length ≤ climb path := by
  have hpos := length_pos_of_ne_nil hne
  rw [joinPath_eq_take, joinPath_eq_take base, append_cancel_right_eq, length_append]
  constructor
  · intro heq
    have := congrArg List.length heq
    rw [length_take, length_take, length_append] at this
    omega
  · intro hle
    rw [Nat.sub_eq_zero_of_le hle, Nat.sub_eq_zero_of_le (by omega)]
    rfl

theorem joinPath_up (rest : List Char) : joinPath base ('.' :: '.' :: '/' :: rest) = joinPath base.dropLast rest :=
  joinPath_cons base (by decide : '/' ∉ ['.', '.']) rest

end Paths

/-- The two ways to read a declared path agree on the paths that lead upward, and on no others. -/
theorem upward_iff (plan : Plan) (dir path : List Char) : resolvePath (plan.bundleSrc dir) path =
    joinPath plan.extensionRoot (dropUp (dropUp path)) ↔ Upward plan path := by
  have hbelow (rest : List Char) : joinPath plan.extensionRoot rest =
      joinPath (plan.extensionRoot ++ ["modes".toList]) ('.' :: '.' :: '/' :: rest) := by
    rw [joinPath_up, dropLast_concat]
  rw [Upward, resolvePath]
  fun_cases dropUp path with
  | case1 rest =>
    rw [if_neg (by simp), if_neg (by simp)]
    fun_cases dropUp rest with
    | case1 rest =>
      refine iff_of_true ?_ (.inl ⟨rest, rfl⟩)
      rw [joinPath_up, joinPath_up]
      simp [Plan.bundleSrc]
    | case2 _ hrest =>
      have hno : ¬"../../".toList <+: '.' :: '.' :: '/' :: rest := fun ⟨tail, htail⟩ ↦
        hrest tail (by simpa using htail.symm)
      rw [or_iff_right hno, hbelow]
      have happend := joinPath_append_iff (plan.extensionRoot ++ ["modes".toList]) (cons_ne_nil dir [])
        ('.' :: '.' :: '/' :: rest)
      rw [append_assoc, length_append] at happend
      exact happend
  | case2 _ hpath =>
    have hno : ¬"../../".toList <+: path := fun ⟨tail, htail⟩ ↦
      hpath ('.' :: '.' :: '/' :: tail) (by simpa using htail.symm)
    have hsame : dropUp path = path := by rw [dropUp]; exact hpath
    rw [or_iff_right hno, hsame]
    split_ifs with habs
    · by_cases hroot : plan.extensionRoot = []
      · simp [hroot]
      · simpa [eq_comm] using joinPath_append_iff [] hroot path
    · simpa [Plan.bundleSrc] using joinPath_append_iff plan.extensionRoot (cons_ne_nil "modes".toList [dir]) path

/-! ## The condition -/

section Slugs

variable {slug : List Char} (h : isSlug slug)

include h

theorem notMem_of_isSlug {c : Char} (hc : ¬isLower c ∧ ¬isDigit c ∧ c ≠ '-') : c ∉ slug := by
  cases slug with
  | nil => exact not_mem_nil
  | cons d rest =>
    rw [isSlug, Bool.and_eq_true, all_eq_true] at h
    rintro (_ | ⟨_, hmem⟩)
    · exact hc.1 h.1
    · simpa [hc] using h.2 c hmem

theorem isName_slug : IsName slug := by
  refine ⟨notMem_of_isSlug h (by decide), ?_, ?_, ?_⟩ <;> rintro rfl <;> exact absurd h (by decide)

theorem joinPath_roles (root : Path) : joinPath root ("roles/".toList ++ slug ++ ".md".toList) =
    root ++ ["roles".toList, slug ++ ".md".toList] := by
  have hlong : 2 < (slug ++ ".md".toList).length := by simp
  have hname : IsName (slug ++ ".md".toList) := by
    refine ⟨?_, ?_, ?_, ?_⟩
    · rw [mem_append, not_or]
      exact ⟨(isName_slug h).1, by decide⟩
    all_goals exact fun heq ↦ absurd (heq ▸ hlong) (by decide)
  rw [append_assoc, joinPath_folder root "roles".toList (by decide), joinPath_name _ hname]
  exact append_assoc ..

end Slugs

variable (root : Path) (m : ValidManifest plan dir)

theorem joinPath_ofMode (name : List Char) : joinPath plan.extensionRoot (ofMode m.mode name).sourceRel =
    joinPath (plan.bundleSrc m.mode) name := by
  rw [ofMode, append_assoc, joinPath_folder _ "modes".toList (by decide),
    joinPath_cons _ (isName_slug m.mode_slug).1, joinPath_name _ (isName_slug m.mode_slug), append_assoc]
  rfl

theorem destinations_eq : ((declaredComponents m).map fun c ↦ joinPath root c.inBundle) =
    places root m.roles ++ m.handoff_seeds.map (seedPlace root) := by
  have hroles := map_congr_left fun role hmem ↦ joinPath_roles (m.roles_slug role hmem) root
  have hseed (schema : List Char) :
      joinPath root ("handoff-seeds/".toList ++ baseOf schema) = seedPlace root schema :=
    joinPath_folder root "handoff-seeds".toList (by decide) _
  simp only [declaredComponents, map_append, map_map, map_cons, map_nil, ofMode, Function.comp_def, hroles, hseed,
    m.card_eq, m.pack_eq, places]
  rw [joinPath_name root (by decide), joinPath_name root (by decide), joinPath_name root (by decide)]

theorem apart_iff : ((declaredComponents m).map fun c ↦ joinPath root c.inBundle).Nodup ↔
    (m.roles.map ModeRole.name).Nodup ∧ (m.handoff_seeds.map (seedPlace root)).Nodup ∧
      ∀ schema ∈ m.handoff_seeds, seedPlace root schema ∉ places root m.roles := by
  have hplaces : (places root m.roles).Nodup ↔ (m.roles.map ModeRole.name).Nodup := by
    have hinj : Function.Injective fun name : List Char ↦ root ++ ["roles".toList, name ++ ".md".toList] :=
      fun a b hab ↦ by simpa using hab
    have hroles : (m.roles.map fun role ↦ root ++ ["roles".toList, role.name ++ ".md".toList]) =
        (m.roles.map ModeRole.name).map fun name ↦ root ++ ["roles".toList, name ++ ".md".toList] := by
      rw [map_map]
      rfl
    rw [places, hroles, ← nodup_map_iff hinj]
    simp
  rw [destinations_eq, nodup_append', hplaces, disjoint_comm]
  simp [List.Disjoint]

variable {root m}

theorem StagedAsDeclared.source_eq (h : StagedAsDeclared root m) {c : Component}
    (hc : c ∈ plan.bundle dir m.toModeManifest) {d : DeclaredComponent} (hd : d ∈ declaredComponents m)
    (hplace : c.inBundle = d.inBundle) : c.source = some (joinPath plan.extensionRoot d.sourceRel) := by
  obtain ⟨d', hd', heq⟩ := mem_map.mp (h.staged.mem_iff.mp (mem_map_of_mem hc))
  obtain ⟨hin, hsource⟩ := Prod.mk.inj heq
  rw [← hsource, inj_on_of_nodup_map h.apart hd' hd (congrArg (joinPath root) (hin.trans hplace))]

theorem source_iff {path : List Char} (hpath : path ∈ m.roles.map ModeRole.path ++ m.handoff_seeds) :
    plan.resolveUnder dir path = some (joinPath plan.extensionRoot (dropUp (dropUp path))) ↔ Upward plan path := by
  have hresolve := m.resolves path hpath
  rw [← upward_iff plan dir, Plan.resolveUnder]
  rw [Plan.resolveUnder] at hresolve
  split_ifs at hresolve ⊢ with hunder
  · exact Option.some_inj
  · cases hresolve

theorem Declarable.staged_perm (h : Declarable root m) :
    ((plan.bundle dir m.toModeManifest).map fun c ↦ (c.inBundle, c.source)).Perm
      ((declaredComponents m).map fun c ↦ (c.inBundle, some (joinPath plan.extensionRoot c.sourceRel))) := by
  have hsame (name : List Char) : (plan.sameName dir name).source =
      some (joinPath plan.extensionRoot (ofMode m.mode name).sourceRel) := by
    rw [joinPath_ofMode, ← h.mode]
    rfl
  have hsource {path : List Char} (hpath : path ∈ m.roles.map ModeRole.path ++ m.handoff_seeds) :=
    (source_iff hpath).mpr (h.upward path hpath)
  have hroles := map_congr_left fun role hmem ↦ congrArg (Prod.mk ("roles/".toList ++ role.name ++ ".md".toList))
    (hsource (mem_append_left _ (mem_map_of_mem hmem)))
  have hseeds := map_congr_left fun schema hmem ↦ congrArg (Prod.mk ("handoff-seeds/".toList ++ baseOf schema))
    (hsource (mem_append_right _ hmem))
  simp only [Plan.bundle, declaredComponents, map_append, map_map, map_cons, map_nil, hsame, Function.comp_def]
    at hroles hseeds ⊢
  rw [hroles, hseeds]
  simp only [append_assoc, cons_append, nil_append]
  refine .cons _ (.cons _ ?_)
  rw [← append_assoc]
  exact perm_append_singleton _ _

/-- What the stager does is what is declared exactly if the manifest is declarable. -/
theorem stagedAsDeclared_iff : StagedAsDeclared root m ↔ Declarable root m := by
  constructor
  · intro h
    obtain ⟨roles, seeds, others⟩ := (apart_iff root m).mp h.apart
    refine ⟨?_, roles, seeds, others, fun path hpath ↦ (source_iff hpath).mp ?_⟩
    · have hcard : some (joinPath (plan.bundleSrc dir) m.card) = _ :=
        h.source_eq (c := plan.sameName dir m.card) (by simp [Plan.bundle]) (d := ofMode m.mode m.card)
          (by simp [declaredComponents]) rfl
      have hname (dir : List Char) : joinPath (plan.bundleSrc dir) m.card = plan.bundleSrc dir ++ [m.card] := by
        rw [m.card_eq]
        exact joinPath_name _ (by decide)
      rw [joinPath_ofMode, hname, hname] at hcard
      simpa [Plan.bundleSrc] using hcard
    · rcases mem_append.mp hpath with hrole | hschema
      · obtain ⟨role, hmem, rfl⟩ := mem_map.mp hrole
        refine h.source_eq (c := ⟨dir, "roles/".toList ++ role.name ++ ".md".toList, plan.resolveUnder dir role.path⟩)
          (d := ⟨_, dropUp (dropUp role.path)⟩) ?_ ?_ rfl
        · exact mem_append_left _ (mem_append_left _ (mem_append_right _ (mem_map.mpr ⟨role, hmem, rfl⟩)))
        · exact mem_append_left _ (mem_append_right _ (mem_map.mpr ⟨role, hmem, rfl⟩))
      · refine h.source_eq (c := ⟨dir, "handoff-seeds/".toList ++ baseOf path, plan.resolveUnder dir path⟩)
          (d := ⟨_, dropUp (dropUp path)⟩) ?_ ?_ rfl
        · exact mem_append_left _ (mem_append_right _ (mem_map.mpr ⟨path, hschema, rfl⟩))
        · exact mem_append_right _ (mem_map.mpr ⟨path, hschema, rfl⟩)
  · exact fun h ↦ ⟨h.staged_perm, (apart_iff root m).mpr ⟨h.roles, h.seeds, h.others⟩⟩

/-- A role whose file is in the bundle itself is staged from there, and declared to be elsewhere. -/
theorem not_stagedAsDeclared_of_within : ∃ m : ValidManifest ⟨["ext".toList], [], 0⟩ "develop".toList,
    ¬StagedAsDeclared ["modes".toList, "develop".toList] m :=
  ⟨{ card := "card.md".toList
     pack := "pack.toml".toList
     roles := [⟨"lead".toList, "roles/lead.md".toList⟩]
     handoff_seeds := ["../../handoff-seeds/issue-seed.schema.json".toList]
     mode := "develop".toList
     card_eq := rfl
     pack_eq := rfl
     mode_slug := by decide
     named := by decide
     roles_ne := by decide
     seeds_ne := by decide
     roles_slug := by decide
     resolves := by decide }, fun h ↦ absurd h.staged (by decide)⟩

end Amicode.ModeStaging
