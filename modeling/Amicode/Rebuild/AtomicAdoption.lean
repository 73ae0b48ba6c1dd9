import Amicode.Foundation.JsObject
import Amicode.Foundation.Loop

/-!
# Adoption of an extension build

An extension is updated by staging a build beside it, renaming its `dist` out of the way and the staged one
into place, and then the binary of its platform (`rebuild/atomic_adoption.ts`). Every operation of the file
system may fail; there are four handlers, of which one restores the old `dist` from its side copy, two from
a backup of the whole extension, and one ignores the failure.

A tree of files is a list of paths with contents; the same paths are in the backup and in the staged build.
A call runs with at most one operation that fails, which leaves at its target whatever it leaves.
-/

namespace Amicode.Rebuild

open JsObject Loop

variable {F : Type*}

/-! ## The trees -/

/-- The files of a directory, by their path in it. -/
abbrev Tree (F : Type*) := List (String × F)

/-- `vendor/opencode/<platformKey>`. -/
structure PlatformDir (F : Type*) where
  /-- `opencode`. -/
  binary : Option F
  /-- `.opencode.new`. -/
  new : Option F
  sidecars : Tree F

def PlatformDir.empty : PlatformDir F := ⟨none, none, []⟩

/-- `vendor`, by platform key. -/
abbrev Vendor (F : Type*) := List (String × PlatformDir F)

structure ExtensionTree (F : Type*) where
  dist : Option (Tree F)
  /-- `dist.pre-swap`. -/
  distPreSwap : Option (Tree F)
  vendor : Option (Vendor F)
  /-- The other entries; a file is a tree with one path. -/
  content : List (String × Tree F)

structure StagedBinary (F : Type*) where
  binary : F
  sidecars : Tree F

structure StagingTree (F : Type*) where
  dist : Option (Tree F)
  vendor : List (String × StagedBinary F)
  content : List (String × Tree F)

def StagingTree.empty : StagingTree F := ⟨none, [], []⟩

structure Disk (F : Type*) where
  extension : ExtensionTree F
  staging : StagingTree F
  /-- What stands at `backupDir`. -/
  backup : Option (ExtensionTree F)

/-- The installed binary of a platform. -/
def ExtensionTree.binary? (e : ExtensionTree F) (key : String) : Option F :=
  (own? (e.vendor.getD []) key).bind PlatformDir.binary

def StagingTree.staged? (s : StagingTree F) (platformKey : Option String) : Option (String × StagedBinary F) :=
  platformKey.bind fun key ↦ (own? s.vendor key).map fun staged ↦ (key, staged)

def createBackup (d : Disk F) : Disk F := { d with backup := some d.extension }

structure BuildTree (F : Type*) where
  dist : Option (Tree F)
  content : List (String × Tree F)

def contentDirs : List String :=
  ["skills", "scores", "templates", "exemplars", "opencode-plugin", "julia", "tools", "bin", "packs"]

def topLevelFiles : List String := ["package.json", "AGENTS.md", "DISTILLER.md", "CONTRACT.md"]

def stageExtensionBuild (build : BuildTree F) (binarySource : Option (StagedBinary F)) (platformKey : Option String) :
    StagingTree F where
  dist := build.dist
  vendor := match binarySource, platformKey with
    | some staged, some key => [(key, staged)]
    | _, _ => []
  content := (contentDirs ++ topLevelFiles).filterMap fun name ↦ (own? build.content name).map fun tree ↦ (name, tree)

/-! ## Operations that may fail -/

inductive FileOp
  | moveDistAside
  | moveStagedDist
  | restoreDist
  | makeDestDir
  | copyBinary
  | chmodBinary
  | moveBinary
  | copySidecar (name : String)
  | removeNew
  | removeDist
  | removePreSwap
  | readStaging
  | copyEntry (name : String)
  | removeStaging
  | removeTargetDist
  | copyBackupDist
  | removeTargetVendor
  | copyBackupVendor
deriving DecidableEq

/-- The operation that fails, its error, and what it leaves where it was at work. -/
structure Fault (F : Type*) where
  op : FileOp
  message : String
  dist : Option (Tree F)
  new : Option F
  vendor : Option (Vendor F)

/-- An operation: its effect, or what it leaves and its error. -/
def act (fault : Option (Fault F)) (op : FileOp) (effect : Disk F → Disk F) (left : Fault F → Disk F → Disk F)
    (d : Disk F) : Disk F × Option String :=
  match fault with
  | none => (effect d, none)
  | some f => if f.op = op then (left f d, some f.message) else (effect d, none)

def Disk.setDist (d : Disk F) (dist : Option (Tree F)) : Disk F :=
  { d with extension := { d.extension with dist := dist } }

def Disk.setPreSwap (d : Disk F) (dist : Option (Tree F)) : Disk F :=
  { d with extension := { d.extension with distPreSwap := dist } }

def Disk.setVendor (d : Disk F) (vendor : Option (Vendor F)) : Disk F :=
  { d with extension := { d.extension with vendor := vendor } }

/-- Change the directory of a platform, which is there. -/
def Disk.onPlatform (d : Disk F) (key : String) (f : PlatformDir F → PlatformDir F) : Disk F :=
  d.setVendor (some (assign (d.extension.vendor.getD []) key
    (f ((own? (d.extension.vendor.getD []) key).getD .empty))))

inductive SwapError
  | swap (reason : String)
  /-- The rollback itself failed. -/
  | rollback (reason rollbackReason : String)
deriving DecidableEq

def SwapError.text (backupDir extensionDir : String) : SwapError → String
  | swap reason => reason
  | rollback reason rollbackReason => "Swap failed (" ++ reason ++ ") and rollback also failed: " ++ rollbackReason
      ++ ". Manual recovery: copy " ++ backupDir ++ " back to " ++ extensionDir

structure SwapResult where
  ok : Bool
  error : Option SwapError
  rolledBack : Option Bool
deriving DecidableEq

/-- The result says that the rollback itself failed. -/
def SwapResult.rollbackFailed (r : SwapResult) : Bool :=
  match r.error with
  | some (.rollback _ _) => true
  | _ => false

/-! ## Rollback -/

/-- Remove a tree of the extension and copy it from the backup, if the backup has it. -/
def restoreTree {α : Type*} (fault : Option (Fault F)) (remove copy : FileOp) (set : Disk F → Option α → Disk F)
    (left : Fault F → Option α) : Option α → Disk F → Disk F × Option String
  | none, d => (d, none)
  | some tree, d =>
    Loop.andThen (act fault remove (fun d ↦ set d none) fun f d ↦ set d (left f))
      (act fault copy (fun d ↦ set d (some tree)) fun f d ↦ set d (left f)) d

def restore (fault : Option (Fault F)) (d : Disk F) : Disk F × Option String :=
  match d.backup with
  | none => (d, none)
  | some backup =>
    Loop.andThen
      (restoreTree fault .removeTargetDist .copyBackupDist Disk.setDist Fault.dist backup.dist)
      (restoreTree fault .removeTargetVendor .copyBackupVendor Disk.setVendor Fault.vendor backup.vendor) d

def rollback (fault : Option (Fault F)) (reason : String) (d : Disk F) : Disk F × SwapResult :=
  match restore fault d with
  | (d, none) => (d, ⟨false, some (.swap reason), some true⟩)
  | (d, some rollbackReason) => (d, ⟨false, some (.rollback reason rollbackReason), none⟩)

/-! ## The swap -/

/-- Why the swap ends early: it has returned, or an error is on its way to the outermost handler. -/
inductive Stop
  | returned (result : SwapResult)
  | thrown (message : String)

/-- A rename of a directory onto one that has files fails. -/
def ENOTEMPTY : String := "ENOTEMPTY: directory not empty"

def moveDistAside (fault : Option (Fault F)) (d : Disk F) : Disk F × Option String :=
  match d.extension.dist with
  | none => (d, none)
  | some dist =>
    match d.extension.distPreSwap with
    | some (_ :: _) => (d, some ENOTEMPTY)
    | _ => act fault .moveDistAside (fun d ↦ (d.setPreSwap (some dist)).setDist none) (fun _ d ↦ d) d

def moveStagedDist (fault : Option (Fault F)) (d : Disk F) : Disk F × Option String :=
  act fault .moveStagedDist (fun d ↦ { d.setDist d.staging.dist with staging := { d.staging with dist := none } })
    (fun _ d ↦ d) d

/-- Restore from the old `dist`, after the staged one could not be moved. -/
def restoreOld (fault : Option (Fault F)) (d : Disk F) : Disk F × Option String :=
  match d.extension.distPreSwap with
  | none => (d, none)
  | some old => act fault .restoreDist (fun d ↦ (d.setDist (some old)).setPreSwap none) (fun _ d ↦ d) d

def swapDist (fault : Option (Fault F)) (d : Disk F) : Disk F × Option Stop :=
  match moveDistAside fault d with
  | (d, some message) => (d, some (.thrown message))
  | (d, none) =>
    match moveStagedDist fault d with
    | (d, none) => (d, none)
    | (d, some message) =>
      match restoreOld fault d with
      | (d, some message) => (d, some (.thrown message))
      | (d, none) => (d, some (.returned ⟨false, some (.swap ("Atomic swap failed: " ++ message)), none⟩))

/-- The sidecars are best effort: a copy that fails is ignored. -/
def copySidecars (fault : Option (Fault F)) (key : String) (staged : StagedBinary F) (d : Disk F) : Disk F :=
  [".source", ".sha256"].foldl (fun d name ↦ match own? staged.sidecars name with
    | none => d
    | some file => (act fault (.copySidecar name)
        (fun d ↦ d.onPlatform key fun dir ↦ { dir with sidecars := assign dir.sidecars name file })
        (fun _ d ↦ d) d).1) d

def copyBinary (fault : Option (Fault F)) (key : String) (staged : StagedBinary F) :
    Disk F → Disk F × Option String :=
  Loop.andThen (act fault .makeDestDir (fun d ↦ d.onPlatform key id) fun _ d ↦ d)
    (Loop.andThen (act fault .copyBinary (fun d ↦ d.onPlatform key fun dir ↦ { dir with new := some staged.binary })
        fun f d ↦ d.onPlatform key fun dir ↦ { dir with new := f.new })
      (Loop.andThen (act fault .chmodBinary id fun _ d ↦ d)
        (act fault .moveBinary (fun d ↦ d.onPlatform key fun dir ↦ { dir with binary := dir.new, new := none })
          fun _ d ↦ d)))

/-- Remove the new binary if it is there; a failure is ignored. -/
def removeNew (fault : Option (Fault F)) (key : String) (d : Disk F) : Disk F :=
  match own? (d.extension.vendor.getD []) key with
  | none => d
  | some dir =>
    if dir.new.isSome then
      (act fault .removeNew (fun d ↦ d.onPlatform key fun dir ↦ { dir with new := none }) (fun _ d ↦ d) d).1
    else d

/-- Remove `dist` if it is there, after the binary could not be adopted. -/
def removeDist (fault : Option (Fault F)) (d : Disk F) : Disk F × Option String :=
  match d.extension.dist with
  | none => (d, none)
  | some _ => act fault .removeDist (fun d ↦ d.setDist none) (fun f d ↦ d.setDist f.dist) d

def swapBinary (fault : Option (Fault F)) (platformKey : Option String) (d : Disk F) : Disk F × Option Stop :=
  match d.staging.staged? platformKey with
  | none => (d, none)
  | some (key, staged) =>
    match copyBinary fault key staged d with
    | (d, none) => (copySidecars fault key staged d, none)
    | (d, some message) =>
      match removeDist fault (removeNew fault key d) with
      | (d, some message) => (d, some (.thrown message))
      | (d, none) =>
        let (d, result) := rollback fault ("Binary adoption failed: " ++ message) d
        (d, some (.returned result))

/-- Copy the other entries; a failure is ignored. -/
def copyEntries (fault : Option (Fault F)) (d : Disk F) : Disk F :=
  d.staging.content.foldl (fun d entry ↦ (act fault (.copyEntry entry.1)
    (fun d ↦ { d with extension := { d.extension with
      content := assign d.extension.content entry.1
        (entry.2.foldl (fun tree file ↦ assign tree file.1 file.2) ((own? d.extension.content entry.1).getD [])) } })
    (fun _ d ↦ d) d).1) d

def cleanUp (fault : Option (Fault F)) (d : Disk F) : Disk F × Option String :=
  Loop.andThen
    (fun d ↦ match d.extension.distPreSwap with
      | none => (d, none)
      | some _ => act fault .removePreSwap (fun d ↦ d.setPreSwap none) (fun f d ↦ d.setPreSwap f.dist) d)
    (Loop.andThen (act fault .readStaging id fun _ d ↦ d)
      (fun d ↦ act fault .removeStaging (fun d ↦ { d with staging := .empty }) (fun _ d ↦ d) (copyEntries fault d))) d

def atomicSwap (fault : Option (Fault F)) (platformKey : Option String) (d : Disk F) : Disk F × SwapResult :=
  match d.staging.dist with
  | none => rollback fault "Staging directory has no dist/" d
  | some _ =>
    match swapDist fault d with
    | (d, some (.returned result)) => (d, result)
    | (d, some (.thrown message)) => rollback fault message d
    | (d, none) =>
      match swapBinary fault platformKey d with
      | (d, some (.returned result)) => (d, result)
      | (d, some (.thrown message)) => rollback fault message d
      | (d, none) =>
        match cleanUp fault d with
        | (d, some message) => rollback fault message d
        | (d, none) => (d, ⟨true, none, none⟩)

/-! ## The law -/

/-- A `dist` beside a side copy that has files: the first rename of a swap fails. -/
def Blocked (e : ExtensionTree F) : Prop :=
  e.dist ≠ none ∧ ∃ file rest, e.distPreSwap = some (file :: rest)

/-- The disk of a call: a staged tree beside an installed one, of which there is a backup. -/
def prepared (e : ExtensionTree F) (s : StagingTree F) (backup : Option (ExtensionTree F)) : Disk F :=
  createBackup ⟨e, s, backup⟩

/-- The law of one call with at most one failing operation. -/
structure AllOrNothing (fault : Option (Fault F)) (platformKey : Option String) (e : ExtensionTree F)
    (s : StagingTree F) : Prop where
  /-- What is adopted is what was staged. -/
  adopted : (atomicSwap fault platformKey (prepared e s none)).2.ok = true →
    s.dist ≠ none ∧ (atomicSwap fault platformKey (prepared e s none)).1.extension.dist = s.dist ∧
      ∀ key staged, s.staged? platformKey = some (key, staged) →
        (atomicSwap fault platformKey (prepared e s none)).1.extension.binary? key = some staged.binary
  /-- Otherwise `dist` and the binaries are what they were, -/
  kept : (atomicSwap fault platformKey (prepared e s none)).2.ok = false →
    (atomicSwap fault platformKey (prepared e s none)).2.rollbackFailed = false →
      (atomicSwap fault platformKey (prepared e s none)).1.extension.dist = e.dist ∧
        ∀ key, (atomicSwap fault platformKey (prepared e s none)).1.extension.binary? key = e.binary? key
  /-- and any valid staging is adopted later, if nothing fails. -/
  repeatable : (atomicSwap fault platformKey (prepared e s none)).2.ok = false →
    (atomicSwap fault platformKey (prepared e s none)).2.rollbackFailed = false →
      ∀ (s' : StagingTree F) (platformKey' : Option String), s'.dist ≠ none →
        (atomicSwap none platformKey' (prepared (atomicSwap fault platformKey (prepared e s none)).1.extension s'
          (atomicSwap fault platformKey (prepared e s none)).1.backup)).2.ok = true

/-- The failing operation is one of the rollback of a backup. -/
def RollbackFails (fault : Option (Fault F)) (e : ExtensionTree F) : Prop :=
  ∃ f, fault = some f ∧
    ((e.dist ≠ none ∧ (f.op = .removeTargetDist ∨ f.op = .copyBackupDist)) ∨
      (e.vendor ≠ none ∧ (f.op = .removeTargetVendor ∨ f.op = .copyBackupVendor)))

/-- The failing operation can be recovered from. -/
def Recoverable (f : Fault F) (platformKey : Option String) (e : ExtensionTree F) (s : StagingTree F) : Prop :=
  match f.op with
  | .moveStagedDist => e.dist ≠ none ∨ e.distPreSwap = none
  | .makeDestDir | .copyBinary | .chmodBinary | .moveBinary =>
    s.staged? platformKey ≠ none → e.dist = none ∨ e.dist = some []
  | .removePreSwap => e.dist.or e.distPreSwap ≠ none →
    e.dist ≠ none ∧ (s.staged? platformKey = none ∨ e.vendor ≠ none) ∧ (f.dist = none ∨ f.dist = some [])
  | .readStaging | .removeStaging => e.dist ≠ none ∧ (s.staged? platformKey = none ∨ e.vendor ≠ none)
  | _ => True

/-- No side copy stands in the way, and the failing operation can be recovered from. -/
def Recovers (fault : Option (Fault F)) (platformKey : Option String) (e : ExtensionTree F) (s : StagingTree F) :
    Prop :=
  (Blocked e → RollbackFails fault e) ∧
    (¬ Blocked e → s.dist ≠ none → ∀ f, fault = some f → Recoverable f platformKey e s)

/-! ## What the operations do -/

section Operations

variable {fault : Option (Fault F)} {f : Fault F} {op : FileOp} {effect : Disk F → Disk F}
  {left : Fault F → Disk F → Disk F} {d : Disk F} {key : String}

theorem act_of_ne (h : ∀ f, fault = some f → f.op ≠ op) : act fault op effect left d = (effect d, none) := by
  rcases fault with _ | f
  · rfl
  · exact if_neg (h f rfl)

theorem act_of_eq (h : f.op = op) : act (some f) op effect left d = (left f d, some f.message) := if_pos h

/-- Whether it fails or not, an operation has one of its two outcomes. -/
theorem act_cases (fault : Option (Fault F)) (op : FileOp) (effect : Disk F → Disk F)
    (left : Fault F → Disk F → Disk F) (d : Disk F) :
    act fault op effect left d = (effect d, none) ∨
      ∃ f, fault = some f ∧ f.op = op ∧ act fault op effect left d = (left f d, some f.message) := by
  rcases fault with _ | f
  · exact .inl rfl
  · by_cases hop : f.op = op
    · exact .inr ⟨f, rfl, hop, act_of_eq hop⟩
    · exact .inl (if_neg hop)

theorem binary?_onPlatform (g : PlatformDir F → PlatformDir F) (k : String) :
    (d.onPlatform key g).extension.binary? k =
      if key = k then (g ((own? (d.extension.vendor.getD []) key).getD .empty)).binary
      else d.extension.binary? k := by
  unfold Disk.onPlatform Disk.setVendor ExtensionTree.binary?
  rw [Option.getD_some, own?_assign]
  by_cases hk : key = k
  · rw [if_pos hk, if_pos hk, Option.bind_some]
  · rw [if_neg hk, if_neg hk]

theorem binary?_eq (key : String) :
    d.extension.binary? key = ((own? (d.extension.vendor.getD []) key).getD .empty).binary := by
  unfold ExtensionTree.binary?
  rcases own? (d.extension.vendor.getD []) key with _ | dir <;> rfl

theorem binary?_onPlatform_of_same {g : PlatformDir F → PlatformDir F}
    (hg : ∀ dir, (g dir).binary = dir.binary) (k : String) :
    (d.onPlatform key g).extension.binary? k = d.extension.binary? k := by
  rw [binary?_onPlatform]
  split_ifs with hk
  · rw [hg, ← binary?_eq, hk]
  · rfl

/-- What else a change of a platform's directory leaves. -/
structure SameApart (d d' : Disk F) : Prop where
  dist : d'.extension.dist = d.extension.dist
  distPreSwap : d'.extension.distPreSwap = d.extension.distPreSwap
  binary? : ∀ key, d'.extension.binary? key = d.extension.binary? key
  vendor : d.extension.vendor ≠ none → d'.extension.vendor ≠ none
  backup : d'.backup = d.backup

theorem SameApart.refl (d : Disk F) : SameApart d d := ⟨rfl, rfl, fun _ ↦ rfl, id, rfl⟩

theorem SameApart.trans {d d' d'' : Disk F} (h : SameApart d d') (h' : SameApart d' d'') : SameApart d d'' :=
  ⟨h'.dist.trans h.dist, h'.distPreSwap.trans h.distPreSwap, fun key ↦ (h'.binary? key).trans (h.binary? key),
    h'.vendor ∘ h.vendor, h'.backup.trans h.backup⟩

theorem sameApart_onPlatform {g : PlatformDir F → PlatformDir F} (hg : ∀ dir, (g dir).binary = dir.binary) :
    SameApart d (d.onPlatform key g) :=
  ⟨rfl, rfl, binary?_onPlatform_of_same hg, fun _ ↦ Option.some_ne_none _, rfl⟩

/-- An operation whose two outcomes leave something the same leaves it the same. -/
theorem sameApart_act (heffect : SameApart d (effect d)) (hleft : ∀ f, SameApart d (left f d)) :
    SameApart d (act fault op effect left d).1 := by
  rcases act_cases fault op effect left d with h | ⟨f, -, -, h⟩
  · rw [h]
    exact heffect
  · rw [h]
    exact hleft f

theorem sameApart_foldl {α : Type*} {g : Disk F → α → Disk F} (h : ∀ d a, SameApart d (g d a)) (l : List α)
    (d : Disk F) : SameApart d (l.foldl g d) := by
  induction l generalizing d with
  | nil => exact .refl d
  | cons a l ih => exact (h d a).trans (ih (g d a))

variable (fault)

theorem sameApart_copySidecars (key : String) (staged : StagedBinary F) (d : Disk F) :
    SameApart d (copySidecars fault key staged d) := by
  refine sameApart_foldl (fun d name ↦ ?_) _ d
  rcases own? staged.sidecars name with _ | file
  · exact .refl d
  · exact sameApart_act (sameApart_onPlatform fun _ ↦ rfl) fun _ ↦ .refl d

theorem sameApart_copyEntries (d : Disk F) : SameApart d (copyEntries fault d) :=
  sameApart_foldl (fun d _ ↦ sameApart_act ⟨rfl, rfl, fun _ ↦ rfl, id, rfl⟩ fun _ ↦ .refl d) _ d

theorem sameApart_removeNew (key : String) (d : Disk F) : SameApart d (removeNew fault key d) := by
  unfold removeNew
  split
  · exact .refl d
  · split_ifs
    · exact sameApart_act (sameApart_onPlatform fun _ ↦ rfl) fun _ ↦ .refl d
    · exact .refl d

end Operations

/-! ## Rolling back -/

section Rollback

variable {fault : Option (Fault F)} {d : Disk F} {b : ExtensionTree F}

theorem restoreTree_of_ne {α : Type*} {remove copy : FileOp} (set : Disk F → Option α → Disk F)
    (get : Disk F → Option α) {left : Fault F → Option α} {tree : Option α}
    (hset : ∀ d a a', set (set d a) a' = set d a') (hget : ∀ d, set d (get d) = d)
    (hne : tree ≠ none → ∀ f, fault = some f → ¬ (f.op = remove ∨ f.op = copy)) :
    restoreTree fault remove copy set left tree d = (set d (tree.or (get d)), none) := by
  rcases tree with _ | tree
  · rw [Option.none_or, hget]
    rfl
  · have hne := hne (Option.some_ne_none _)
    have hgone : act fault remove (fun d ↦ set d none) (fun f d ↦ set d (left f)) d = (set d none, none) :=
      act_of_ne fun f hf hop ↦ hne f hf (.inl hop)
    rw [restoreTree, andThen_of_none hgone, act_of_ne fun f hf hop ↦ hne f hf (.inr hop), hset, Option.some_or]

theorem restoreTree_of_eq {α : Type*} {remove copy : FileOp} (set : Disk F → Option α → Disk F)
    (left : Fault F → Option α) (d : Disk F) {tree : Option α} {f : Fault F} (htree : tree ≠ none)
    (hop : f.op = remove ∨ f.op = copy) :
    ∃ d', restoreTree (some f) remove copy set left tree d = (d', some f.message) := by
  rcases tree with _ | tree
  · exact absurd rfl htree
  · rcases act_cases (some f) remove (fun d ↦ set d none) (fun f d ↦ set d (left f)) d with h | ⟨f', hf, -, h⟩
    · rw [restoreTree, andThen_of_none h]
      rcases act_cases (some f) copy (fun d ↦ set d (some tree)) (fun f d ↦ set d (left f)) (set d none)
        with hc | ⟨f', hf, -, hc⟩
      · rcases hop with hop | hop
        · rw [act_of_eq hop] at h
          simp at h
        · rw [act_of_eq hop] at hc
          simp at hc
      · obtain rfl : f = f' := Option.some.inj hf
        exact ⟨_, hc⟩
    · obtain rfl : f = f' := Option.some.inj hf
      exact ⟨_, by rw [restoreTree, Loop.andThen, h]⟩

/-- What a rollback that completes leaves: what the backup has, beside what it lacks. -/
def rolledBack (b : ExtensionTree F) (d : Disk F) : Disk F :=
  (d.setDist (b.dist.or d.extension.dist)).setVendor (b.vendor.or d.extension.vendor)

theorem restore_of_not (hb : d.backup = some b) (h : ¬ RollbackFails fault b) :
    restore fault d = (rolledBack b d, none) := by
  have hdist : restoreTree fault .removeTargetDist .copyBackupDist Disk.setDist Fault.dist b.dist d =
      (d.setDist (b.dist.or d.extension.dist), none) :=
    restoreTree_of_ne Disk.setDist (fun d ↦ d.extension.dist) (fun _ _ _ ↦ rfl) (fun _ ↦ rfl)
      fun hne f hf hop ↦ h ⟨f, hf, .inl ⟨hne, hop⟩⟩
  unfold restore
  rw [hb]
  refine (andThen_of_none hdist).trans ?_
  exact restoreTree_of_ne Disk.setVendor (fun d ↦ d.extension.vendor) (fun _ _ _ ↦ rfl)
    (fun _ ↦ rfl) fun hne f hf hop ↦ h ⟨f, hf, .inr ⟨hne, hop⟩⟩

theorem restore_of_fails (hb : d.backup = some b) (h : RollbackFails fault b) :
    ∃ d' message, restore fault d = (d', some message) := by
  obtain ⟨f, rfl, ⟨hne, hop⟩ | ⟨hne, hop⟩⟩ := h
  · obtain ⟨d', hd'⟩ := restoreTree_of_eq Disk.setDist Fault.dist d hne hop
    refine ⟨d', f.message, ?_⟩
    unfold restore
    rw [hb]
    exact andThen_of_some hd'
  · have hother : ¬ (f.op = .removeTargetDist ∨ f.op = .copyBackupDist) := by
      rcases hop with hop | hop <;> simp [hop]
    have hdist : restoreTree (some f) .removeTargetDist .copyBackupDist Disk.setDist Fault.dist b.dist d =
        (d.setDist (b.dist.or d.extension.dist), none) :=
      restoreTree_of_ne Disk.setDist (fun d ↦ d.extension.dist) (fun _ _ _ ↦ rfl) (fun _ ↦ rfl)
        fun _ f' hf ↦ Option.some.inj hf ▸ hother
    obtain ⟨d', hd'⟩ := restoreTree_of_eq Disk.setVendor Fault.vendor
      (d.setDist (b.dist.or d.extension.dist)) hne hop
    refine ⟨d', f.message, ?_⟩
    unfold restore
    rw [hb]
    exact (andThen_of_none hdist).trans hd'

theorem rollback_of_not (reason : String) (hb : d.backup = some b) (h : ¬ RollbackFails fault b) :
    rollback fault reason d = (rolledBack b d, ⟨false, some (.swap reason), some true⟩) := by
  rw [rollback, restore_of_not hb h]

theorem rollback_of_fails (reason : String) (hb : d.backup = some b) (h : RollbackFails fault b) :
    (rollback fault reason d).2.ok = false ∧ (rollback fault reason d).2.rollbackFailed = true := by
  obtain ⟨d', message, hrestore⟩ := restore_of_fails hb h
  rw [rollback, hrestore]
  exact ⟨rfl, rfl⟩

end Rollback

/-! ## The steps of a swap -/

section Steps

variable {fault : Option (Fault F)} {f : Fault F} {d : Disk F} {e : ExtensionTree F} {s : StagingTree F}
  {key : String} {staged : StagedBinary F}

/-- With `dist` out of the way. -/
def movedAside (e : ExtensionTree F) (s : StagingTree F) : Disk F :=
  ⟨{ e with dist := none, distPreSwap := e.dist.or e.distPreSwap }, s, some e⟩

/-- With the staged `dist` in place. -/
def swapped (e : ExtensionTree F) (s : StagingTree F) : Disk F :=
  ⟨{ e with dist := s.dist, distPreSwap := e.dist.or e.distPreSwap }, { s with dist := none }, some e⟩

theorem moveDistAside_of_blocked (h : Blocked e) :
    moveDistAside fault (prepared e s none) = (prepared e s none, some ENOTEMPTY) := by
  obtain ⟨hdist, file, rest, hpre⟩ := h
  obtain ⟨dist, hdist⟩ := Option.ne_none_iff_exists'.mp hdist
  unfold moveDistAside
  rw [show (prepared e s none).extension.dist = some dist from hdist]
  simp only [show (prepared e s none).extension.distPreSwap = some (file :: rest) from hpre]

/-- Unless it is blocked, the first rename is one operation, if there is a `dist` to rename. -/
theorem moveDistAside_eq_act {dist : Tree F} (h : ¬ Blocked e) (hdist : e.dist = some dist) :
    moveDistAside fault (prepared e s none) =
      act fault .moveDistAside (fun d ↦ (d.setPreSwap (some dist)).setDist none) (fun _ d ↦ d)
        (prepared e s none) := by
  unfold moveDistAside
  rw [show (prepared e s none).extension.dist = some dist from hdist]
  rcases hpre : e.distPreSwap with _ | _ | ⟨file, rest⟩
  · simp only [show (prepared e s none).extension.distPreSwap = none from hpre]
  · simp only [show (prepared e s none).extension.distPreSwap = some [] from hpre]
  · exact absurd ⟨hdist ▸ Option.some_ne_none dist, file, rest, hpre⟩ h

theorem moveDistAside_of_ne (h : ¬ Blocked e)
    (hf : e.dist ≠ none → ∀ f, fault = some f → f.op ≠ .moveDistAside) :
    moveDistAside fault (prepared e s none) = (movedAside e s, none) := by
  rcases hdist : e.dist with _ | dist
  · unfold moveDistAside movedAside prepared createBackup
    simp only [hdist, Option.none_or]
    rw [← hdist]
  · rw [moveDistAside_eq_act h hdist, act_of_ne (hf (hdist ▸ Option.some_ne_none dist))]
    unfold movedAside
    rw [hdist]
    rfl

theorem swapDist_of_blocked (h : Blocked e) :
    swapDist fault (prepared e s none) = (prepared e s none, some (.thrown ENOTEMPTY)) := by
  rw [swapDist, moveDistAside_of_blocked h]

theorem swapDist_of_moveDistAside (h : ¬ Blocked e) (hdist : e.dist ≠ none) (hop : f.op = .moveDistAside) :
    swapDist (some f) (prepared e s none) = (prepared e s none, some (.thrown f.message)) := by
  obtain ⟨dist, hdist⟩ := Option.ne_none_iff_exists'.mp hdist
  rw [swapDist, moveDistAside_eq_act h hdist, act_of_eq hop]

theorem restoreOld_of_ne (hf : ∀ f, fault = some f → f.op ≠ .restoreDist) :
    restoreOld fault (movedAside e s) =
      (⟨{ e with dist := e.dist.or e.distPreSwap, distPreSwap := none }, s, some e⟩, none) := by
  unfold restoreOld
  rcases hpre : e.dist.or e.distPreSwap with _ | old
  · simp only [show (movedAside e s).extension.distPreSwap = none from hpre]
    rw [movedAside, hpre]
  · simp only [show (movedAside e s).extension.distPreSwap = some old from hpre]
    rw [act_of_ne hf]
    rfl

/-- When the staged `dist` cannot be moved, what was moved aside comes back, or what had been left there. -/
theorem swapDist_of_moveStagedDist (h : ¬ Blocked e) (hop : f.op = .moveStagedDist) :
    ∃ r : SwapResult, r.ok = false ∧ r.rollbackFailed = false ∧
      swapDist (some f) (prepared e s none) =
        (⟨{ e with dist := e.dist.or e.distPreSwap, distPreSwap := none }, s, some e⟩, some (.returned r)) := by
  refine ⟨⟨false, some (.swap ("Atomic swap failed: " ++ f.message)), none⟩, rfl, rfl, ?_⟩
  rw [swapDist, moveDistAside_of_ne h fun _ f' hf ↦ Option.some.inj hf ▸ by simp [hop]]
  simp only [moveStagedDist, act_of_eq hop]
  rw [restoreOld_of_ne fun f' hf ↦ Option.some.inj hf ▸ by simp [hop]]

theorem swapDist_of_ne (h : ¬ Blocked e) (haside : e.dist ≠ none → ∀ f, fault = some f → f.op ≠ .moveDistAside)
    (hstaged : ∀ f, fault = some f → f.op ≠ .moveStagedDist) :
    swapDist fault (prepared e s none) = (swapped e s, none) := by
  rw [swapDist, moveDistAside_of_ne h haside]
  simp only [moveStagedDist, act_of_ne hstaged]
  rfl

/-- The operations whose failure sends the binary's handler to work. -/
def FileOp.copiesBinary (op : FileOp) : Prop :=
  op = .makeDestDir ∨ op = .copyBinary ∨ op = .chmodBinary ∨ op = .moveBinary

/-- An operation that fails itself, or lets a later one fail, and leaves the binaries either way. -/
theorem fails_andThen {op : FileOp} {effect : Disk F → Disk F} {left : Fault F → Disk F → Disk F}
    {rest : Disk F → Disk F × Option String} (heffect : SameApart d (effect d)) (hleft : SameApart d (left f d))
    (hrest : f.op ≠ op → ∃ d', rest (effect d) = (d', some f.message) ∧ SameApart (effect d) d') :
    ∃ d', Loop.andThen (act (some f) op effect left) rest d = (d', some f.message) ∧ SameApart d d' := by
  by_cases hop : f.op = op
  · exact ⟨_, andThen_of_some (act_of_eq hop), hleft⟩
  · obtain ⟨d', hd', hsame⟩ := hrest hop
    have hact : act (some f) op effect left d = (effect d, none) :=
      act_of_ne fun f' hf ↦ Option.some.inj hf ▸ hop
    exact ⟨d', (andThen_of_none hact).trans hd', heffect.trans hsame⟩

theorem copyBinary_of_eq (key : String) (staged : StagedBinary F) (d : Disk F) (hop : f.op.copiesBinary) :
    ∃ d', copyBinary (some f) key staged d = (d', some f.message) ∧ SameApart d d' := by
  refine fails_andThen (sameApart_onPlatform fun _ ↦ rfl) (.refl d) fun hmake ↦ ?_
  refine fails_andThen (sameApart_onPlatform fun _ ↦ rfl) (sameApart_onPlatform fun _ ↦ rfl) fun hcopy ↦ ?_
  refine fails_andThen (.refl _) (.refl _) fun hchmod ↦ ?_
  have hmove : f.op = .moveBinary := by
    rcases hop with hop | hop | hop | hop
    · exact absurd hop hmake
    · exact absurd hop hcopy
    · exact absurd hop hchmod
    · exact hop
  exact ⟨_, act_of_eq hmove, .refl _⟩

def withBinary (key : String) (staged : StagedBinary F) (d : Disk F) : Disk F :=
  ((d.onPlatform key id).onPlatform key fun dir ↦ { dir with new := some staged.binary }).onPlatform key
    fun dir ↦ { dir with binary := dir.new, new := none }

theorem copyBinary_of_ne (hf : ∀ f, fault = some f → ¬ f.op.copiesBinary) :
    copyBinary fault key staged d = (withBinary key staged d, none) := by
  have hact : ∀ (op : FileOp) (effect : Disk F → Disk F) (left : Fault F → Disk F → Disk F) (d : Disk F),
      op.copiesBinary → act fault op effect left d = (effect d, none) :=
    fun op _ _ _ hop ↦ act_of_ne fun f hf' hfop ↦ hf f hf' (hfop ▸ hop)
  unfold copyBinary
  rw [andThen_of_none (hact .makeDestDir _ _ _ (.inl rfl)),
    andThen_of_none (hact .copyBinary _ _ _ (.inr (.inl rfl))),
    andThen_of_none (hact .chmodBinary _ _ _ (.inr (.inr (.inl rfl)))),
    hact .moveBinary _ _ _ (.inr (.inr (.inr rfl)))]
  rfl

theorem binary?_withBinary : (withBinary key staged d).extension.binary? key = some staged.binary := by
  rw [withBinary, binary?_onPlatform, if_pos rfl]
  simp [Disk.onPlatform, Disk.setVendor]

variable {platformKey : Option String}

theorem swapBinary_of_none (hs : d.staging.staged? platformKey = none) :
    swapBinary fault platformKey d = (d, none) := by
  rw [swapBinary, hs]

theorem swapBinary_of_ne (hs : d.staging.staged? platformKey = some (key, staged))
    (hf : ∀ f, fault = some f → ¬ f.op.copiesBinary) :
    swapBinary fault platformKey d = (copySidecars fault key staged (withBinary key staged d), none) := by
  rw [swapBinary, hs]
  simp only [copyBinary_of_ne hf]

theorem swapBinary_of_eq (hs : d.staging.staged? platformKey = some (key, staged))
    (hb : d.backup = some e) (hop : f.op.copiesBinary) :
    ∃ d' : Disk F, d'.extension.dist = none ∧ d'.extension.distPreSwap = d.extension.distPreSwap ∧
      (∀ k, d'.extension.binary? k = d.extension.binary? k) ∧
      ∃ r : SwapResult, r.ok = false ∧ r.rollbackFailed = false ∧
        swapBinary (some f) platformKey d = (rolledBack e d', some (.returned r)) := by
  obtain ⟨d₁, hcopy, hsame⟩ := copyBinary_of_eq key staged d hop
  have hsame := hsame.trans (sameApart_removeNew (some f) key d₁)
  set d₂ := removeNew (some f) key d₁
  have hremove : removeDist (some f) d₂ = (d₂.setDist none, none) := by
    unfold removeDist
    rcases hdist : d₂.extension.dist with _ | dist
    · rw [show d₂ = d₂.setDist none by rw [← hdist]; rfl]
      rfl
    · exact act_of_ne fun f' hf ↦ Option.some.inj hf ▸ fun hop' ↦ by simp [FileOp.copiesBinary, hop'] at hop
  have hnot : ¬ RollbackFails (some f) e := by
    rintro ⟨f', hf, ⟨-, h⟩ | ⟨-, h⟩⟩ <;> obtain rfl := Option.some.inj hf <;> rcases h with h | h <;>
      simp [FileOp.copiesBinary, h] at hop
  refine ⟨d₂.setDist none, rfl, hsame.distPreSwap, hsame.binary?, ?_⟩
  refine ⟨⟨false, some (.swap ("Binary adoption failed: " ++ f.message)), some true⟩, rfl, rfl, ?_⟩
  rw [swapBinary, hs]
  simp only [hcopy]
  rw [show removeNew (some f) key d₁ = d₂ from rfl, hremove]
  simp only
  rw [rollback_of_not (d := d₂.setDist none) _ (hsame.backup.trans hb) hnot]

theorem removePreSwap_of_ne (d : Disk F)
    (hf : d.extension.distPreSwap ≠ none → ∀ f, fault = some f → f.op ≠ .removePreSwap) :
    (match d.extension.distPreSwap with
      | none => (d, none)
      | some _ => act fault .removePreSwap (fun d ↦ d.setPreSwap none) (fun f d ↦ d.setPreSwap f.dist) d) =
      (d.setPreSwap none, (none : Option String)) := by
  rcases hpre : d.extension.distPreSwap with _ | old
  · rw [show d = d.setPreSwap none by rw [← hpre]; rfl]
    rfl
  · exact act_of_ne (hf (hpre ▸ Option.some_ne_none old))

theorem cleanUp_of_removePreSwap (hpre : d.extension.distPreSwap ≠ none) (hop : f.op = .removePreSwap) :
    cleanUp (some f) d = (d.setPreSwap f.dist, some f.message) := by
  obtain ⟨old, hpre⟩ := Option.ne_none_iff_exists'.mp hpre
  refine andThen_of_some ?_
  rw [hpre]
  exact act_of_eq hop

theorem cleanUp_of_staging (hop : f.op = .readStaging ∨ f.op = .removeStaging) :
    ∃ d', cleanUp (some f) d = (d', some f.message) ∧ SameApart (d.setPreSwap none) d' := by
  have hnot : f.op ≠ .removePreSwap := by rcases hop with hop | hop <;> simp [hop]
  have hfirst := removePreSwap_of_ne d fun _ f' hf ↦ (Option.some.inj hf ▸ hnot : f'.op ≠ .removePreSwap)
  have hrest : ∃ d', Loop.andThen (act (some f) .readStaging id fun _ d ↦ d)
      (fun d ↦ act (some f) .removeStaging (fun d ↦ { d with staging := .empty }) (fun _ d ↦ d)
        (copyEntries (some f) d)) (d.setPreSwap none) = (d', some f.message) ∧ SameApart (d.setPreSwap none) d' :=
    fails_andThen (.refl _) (.refl _)
      fun hread ↦ ⟨_, act_of_eq (hop.resolve_left hread), sameApart_copyEntries _ _⟩
  obtain ⟨d', hd', hsame⟩ := hrest
  exact ⟨d', (andThen_of_none hfirst).trans hd', hsame⟩

theorem cleanUp_of_ne (hpre : d.extension.distPreSwap ≠ none → ∀ f, fault = some f → f.op ≠ .removePreSwap)
    (hf : ∀ f, fault = some f → ¬ (f.op = .readStaging ∨ f.op = .removeStaging)) :
    ∃ d', cleanUp fault d = (d', none) ∧ SameApart (d.setPreSwap none) d' := by
  have hread : act fault .readStaging id (fun _ d ↦ d) (d.setPreSwap none) = (d.setPreSwap none, none) :=
    act_of_ne fun f hf' hop ↦ hf f hf' (.inl hop)
  refine ⟨{ copyEntries fault (d.setPreSwap none) with staging := .empty }, ?_, ?_⟩
  · refine (andThen_of_none (removePreSwap_of_ne d hpre)).trans ((andThen_of_none hread).trans ?_)
    exact act_of_ne fun f hf' hop ↦ hf f hf' (.inr hop)
  · exact (sameApart_copyEntries fault (d.setPreSwap none)).trans ⟨rfl, rfl, fun _ ↦ rfl, id, rfl⟩

end Steps

/-! ## The outcomes of a swap -/

section Outcomes

variable {fault : Option (Fault F)} {f : Fault F} {platformKey : Option String} {d : Disk F} {e : ExtensionTree F}
  {s : StagingTree F} {r : SwapResult}

/-- What a call that has failed should leave. -/
structure Unharmed (e e' : ExtensionTree F) : Prop where
  dist : e'.dist = e.dist
  binary? : ∀ key, e'.binary? key = e.binary? key
  usable : ¬ Blocked e'

/-- The staged `dist` is in place, and the staged binary if there is one. -/
structure Adopted (platformKey : Option String) (e : ExtensionTree F) (s : StagingTree F) (d : Disk F) : Prop where
  dist : d.extension.dist = s.dist
  binary? : ∀ key staged, s.staged? platformKey = some (key, staged) →
    d.extension.binary? key = some staged.binary
  others : s.staged? platformKey = none → ∀ key, d.extension.binary? key = e.binary? key
  backup : d.backup = some e

theorem Adopted.sameApart {d' : Disk F} {pre : Option (Tree F)} (h : Adopted platformKey e s d)
    (hsame : SameApart (d.setPreSwap pre) d') : Adopted platformKey e s d' :=
  ⟨hsame.dist.trans h.dist, fun key staged hs ↦ (hsame.binary? key).trans (h.binary? key staged hs),
    fun hs key ↦ (hsame.binary? key).trans (h.others hs key), hsame.backup.trans h.backup⟩

theorem swapBinary_adopts (fault : Option (Fault F)) (platformKey : Option String) (e : ExtensionTree F)
    (s : StagingTree F) (hf : s.staged? platformKey ≠ none → ∀ f, fault = some f → ¬ f.op.copiesBinary) :
    ∃ d, swapBinary fault platformKey (swapped e s) = (d, none) ∧ Adopted platformKey e s d ∧
      d.extension.distPreSwap = e.dist.or e.distPreSwap := by
  rcases hs : s.staged? platformKey with _ | ⟨key, staged⟩
  · exact ⟨swapped e s, swapBinary_of_none hs, ⟨rfl, fun _ _ h ↦ (nomatch hs.symm.trans h), fun _ _ ↦ rfl, rfl⟩, rfl⟩
  · have hsame := sameApart_copySidecars fault key staged (withBinary key staged (swapped e s))
    refine ⟨_, swapBinary_of_ne hs (hf (hs ▸ Option.some_ne_none _)), ⟨hsame.dist, ?_, ?_, hsame.backup⟩,
      hsame.distPreSwap⟩
    · intro key' staged' hs'
      obtain ⟨rfl, rfl⟩ := Prod.mk.inj (Option.some.inj (hs.symm.trans hs'))
      exact (hsame.binary? key).trans binary?_withBinary
    · exact fun h ↦ nomatch hs.symm.trans h

theorem atomicSwap_of_staged (hs : s.dist ≠ none) : atomicSwap fault platformKey (prepared e s none) =
    match swapDist fault (prepared e s none) with
    | (d, some (.returned result)) => (d, result)
    | (d, some (.thrown message)) => rollback fault message d
    | (d, none) =>
      match swapBinary fault platformKey d with
      | (d, some (.returned result)) => (d, result)
      | (d, some (.thrown message)) => rollback fault message d
      | (d, none) =>
        match cleanUp fault d with
        | (d, some message) => rollback fault message d
        | (d, none) => (d, ⟨true, none, none⟩) := by
  obtain ⟨dist, hs⟩ := Option.ne_none_iff_exists'.mp hs
  rw [atomicSwap]
  simp only [show (prepared e s none).staging.dist = some dist from hs]

theorem atomicSwap_completes (fault : Option (Fault F)) (platformKey : Option String) (hs : s.dist ≠ none)
    (hblocked : ¬ Blocked e) (haside : e.dist ≠ none → ∀ f, fault = some f → f.op ≠ .moveDistAside)
    (hmove : ∀ f, fault = some f → f.op ≠ .moveStagedDist)
    (hbinary : s.staged? platformKey ≠ none → ∀ f, fault = some f → ¬ f.op.copiesBinary)
    (hpre : e.dist.or e.distPreSwap ≠ none → ∀ f, fault = some f → f.op ≠ .removePreSwap)
    (hstaging : ∀ f, fault = some f → ¬ (f.op = .readStaging ∨ f.op = .removeStaging)) :
    ∃ d, atomicSwap fault platformKey (prepared e s none) = (d, ⟨true, none, none⟩) ∧
      Adopted platformKey e s d := by
  obtain ⟨d, hd, hadopted, hd_pre⟩ := swapBinary_adopts fault platformKey e s hbinary
  obtain ⟨d', hd', hsame⟩ := cleanUp_of_ne (d := d) (hd_pre ▸ hpre) hstaging
  refine ⟨d', ?_, hadopted.sameApart hsame⟩
  simp only [atomicSwap_of_staged hs, swapDist_of_ne hblocked haside hmove, hd, hd']

/-- Where no operation fails, what is staged is adopted unless a side copy stands in the way. -/
theorem atomicSwap_none_ok_iff {backup : Option (ExtensionTree F)} (hs : s.dist ≠ none) :
    (atomicSwap none platformKey (prepared e s backup)).2.ok = true ↔ ¬ Blocked e := by
  change (atomicSwap none platformKey (prepared e s none)).2.ok = true ↔ _
  by_cases h : Blocked e
  · rw [atomicSwap_of_staged hs, swapDist_of_blocked h]
    dsimp only
    rw [rollback_of_not ENOTEMPTY (b := e) rfl fun ⟨f, hf, _⟩ ↦ nomatch hf]
    simp [h]
  · obtain ⟨d, hd, -⟩ := atomicSwap_completes none platformKey hs h
      (fun _ _ hf ↦ nomatch hf) (fun _ hf ↦ nomatch hf) (fun _ _ hf ↦ nomatch hf) (fun _ _ hf ↦ nomatch hf)
      fun _ hf ↦ nomatch hf
    rw [hd]
    simp [h]

theorem allOrNothing_of_ok (h : atomicSwap fault platformKey (prepared e s none) = (d, r)) (hr : r.ok = true)
    (hs : s.dist ≠ none) (hdist : d.extension.dist = s.dist)
    (hbinary : ∀ key staged, s.staged? platformKey = some (key, staged) →
      d.extension.binary? key = some staged.binary) : AllOrNothing fault platformKey e s := by
  refine ⟨fun _ ↦ ?_, fun hok ↦ ?_, fun hok ↦ ?_⟩
  · rw [h]
    exact ⟨hs, hdist, hbinary⟩
  · rw [h, hr] at hok
    simp at hok
  · rw [h, hr] at hok
    simp at hok

theorem allOrNothing_of_rollbackFailed
    (h : (atomicSwap fault platformKey (prepared e s none)).2.ok = false ∧
      (atomicSwap fault platformKey (prepared e s none)).2.rollbackFailed = true) :
    AllOrNothing fault platformKey e s := by
  refine ⟨fun hok ↦ ?_, fun _ hr ↦ ?_, fun _ hr ↦ ?_⟩
  · rw [h.1] at hok
    simp at hok
  · rw [h.2] at hr
    simp at hr
  · rw [h.2] at hr
    simp at hr

theorem allOrNothing_iff_unharmed (h : atomicSwap fault platformKey (prepared e s none) = (d, r))
    (hr : r.ok = false) (hrollback : r.rollbackFailed = false) :
    AllOrNothing fault platformKey e s ↔ Unharmed e d.extension := by
  constructor
  · intro hlaw
    have hkept := hlaw.kept (by rw [h, hr]) (by rw [h, hrollback])
    have hlater := hlaw.repeatable (by rw [h, hr]) (by rw [h, hrollback]) ⟨some [], [], []⟩ none
      (Option.some_ne_none _)
    rw [h] at hkept hlater
    exact ⟨hkept.1, hkept.2, (atomicSwap_none_ok_iff (Option.some_ne_none _)).mp hlater⟩
  · intro hd
    refine ⟨fun hok ↦ ?_, fun _ _ ↦ ?_, fun _ _ s' platformKey' hs' ↦ ?_⟩
    · rw [h, hr] at hok
      simp at hok
    · rw [h]
      exact ⟨hd.dist, hd.binary?⟩
    · rw [h]
      exact (atomicSwap_none_ok_iff hs').mpr hd.usable

/-- A rollback of a tree that has files left beside `dist`. -/
theorem blocked_iff_files (hdist : e.dist ≠ none) :
    Blocked e ↔ ¬ (e.distPreSwap = none ∨ e.distPreSwap = some []) := by
  unfold Blocked
  rcases e.distPreSwap with _ | _ | ⟨file, rest⟩ <;> simp [hdist]

/-- The old `dist` or a left one takes the place of the one moved aside. -/
theorem unharmed_restored_iff :
    Unharmed e { e with dist := e.dist.or e.distPreSwap, distPreSwap := none } ↔
      e.dist ≠ none ∨ e.distPreSwap = none := by
  constructor
  · intro h
    by_cases hdist : e.dist = none
    · have := h.dist
      rw [hdist, Option.none_or] at this
      exact .inr this
    · exact .inl hdist
  · intro h
    refine ⟨?_, fun _ ↦ rfl, fun ⟨_, _, _, hpre⟩ ↦ nomatch hpre⟩
    rcases hdist : e.dist with _ | dist
    · exact h.resolve_left (· hdist)
    · rfl

/-- After a failure of the binary, the side copy of the old `dist` stays. -/
theorem unharmed_of_binary_iff (hdist : d.extension.dist = none)
    (hpre : d.extension.distPreSwap = e.dist.or e.distPreSwap)
    (hbinary : ∀ key, d.extension.binary? key = e.binary? key) :
    Unharmed e (rolledBack e d).extension ↔ e.dist = none ∨ e.dist = some [] := by
  have hback : (rolledBack e d).extension.dist = e.dist := by
    change e.dist.or d.extension.dist = e.dist
    rw [hdist, Option.or_none]
  have hkeys : ∀ key, (rolledBack e d).extension.binary? key = e.binary? key := by
    intro key
    rcases hvendor : e.vendor with _ | vendor
    · rw [← hbinary key]
      simp only [ExtensionTree.binary?, rolledBack, Disk.setVendor, hvendor, Option.none_or]
    · simp only [ExtensionTree.binary?, rolledBack, Disk.setVendor, hvendor, Option.some_or]
  have hblocked : Blocked (rolledBack e d).extension ↔ ¬ (e.dist = none ∨ e.dist = some []) := by
    rcases hold : e.dist with _ | old
    · exact iff_of_false (fun h ↦ h.1 (hback.trans hold)) (by simp)
    · rw [blocked_iff_files (hback ▸ hold ▸ Option.some_ne_none old)]
      change ¬ (d.extension.distPreSwap = none ∨ d.extension.distPreSwap = some []) ↔ _
      rw [hpre, hold, Option.some_or]
  exact ⟨fun h ↦ not_not.mp fun hnot ↦ h.usable (hblocked.mpr hnot),
    fun h ↦ ⟨hback, hkeys, fun hb ↦ hblocked.mp hb h⟩⟩

theorem unharmed_of_adopted_iff (hd : Adopted platformKey e s d) (hs : s.dist ≠ none) :
    Unharmed e (rolledBack e d).extension ↔ e.dist ≠ none ∧ (s.staged? platformKey = none ∨ e.vendor ≠ none) ∧
      (d.extension.distPreSwap = none ∨ d.extension.distPreSwap = some []) := by
  have hback : (rolledBack e d).extension.dist = e.dist ↔ e.dist ≠ none := by
    change e.dist.or d.extension.dist = e.dist ↔ _
    rcases e.dist with _ | dist
    · simpa [hd.dist] using hs
    · simp
  have hkeys : (∀ key, (rolledBack e d).extension.binary? key = e.binary? key) ↔
      s.staged? platformKey = none ∨ e.vendor ≠ none := by
    rcases hvendor : e.vendor with _ | vendor
    · have hsame : ∀ key, (rolledBack e d).extension.binary? key = d.extension.binary? key := by
        intro key
        simp only [ExtensionTree.binary?, rolledBack, Disk.setVendor, hvendor, Option.none_or]
      rcases hstaged : s.staged? platformKey with _ | ⟨key, staged⟩
      · exact iff_of_true (fun key ↦ (hsame key).trans (hd.others hstaged key)) (.inl rfl)
      · refine iff_of_false (fun h ↦ ?_) (by simp)
        have hkey := (hsame key).symm.trans (h key)
        rw [hd.binary? key staged hstaged] at hkey
        simp [ExtensionTree.binary?, hvendor, own?, InsertionMap.Entries.get?] at hkey
    · exact iff_of_true (fun key ↦ by
        simp only [ExtensionTree.binary?, rolledBack, Disk.setVendor, hvendor, Option.some_or]) (by simp)
  constructor
  · intro h
    have hdist := hback.mp h.dist
    refine ⟨hdist, hkeys.mp h.binary?, not_not.mp fun hnot ↦ h.usable ?_⟩
    exact (blocked_iff_files (h.dist ▸ hdist)).mpr hnot
  · rintro ⟨hdist, hbinary, hpre⟩
    have hback := hback.mpr hdist
    exact ⟨hback, hkeys.mpr hbinary, fun hb ↦ (blocked_iff_files (hback ▸ hdist)).mp hb hpre⟩

/-- A call that ends in a rollback of what it found leaves what it found. -/
theorem allOrNothing_iff_of_unchanged {reason : String}
    (h : atomicSwap fault platformKey (prepared e s none) = rollback fault reason (prepared e s none)) :
    AllOrNothing fault platformKey e s ↔ (Blocked e → RollbackFails fault e) := by
  by_cases hfails : RollbackFails fault e
  · exact iff_of_true (allOrNothing_of_rollbackFailed (h ▸ rollback_of_fails reason rfl hfails)) fun _ ↦ hfails
  · rw [allOrNothing_iff_unharmed (h.trans (rollback_of_not reason rfl hfails)) rfl rfl]
    have hsame : (rolledBack e (prepared e s none)).extension = e := by
      change { e with dist := e.dist.or e.dist, vendor := e.vendor.or e.vendor } = e
      rw [Option.or_self, Option.or_self]
    rw [hsame]
    exact ⟨fun hd hb ↦ absurd hb hd.usable, fun hb ↦ ⟨rfl, fun _ ↦ rfl, fun hblocked ↦ hfails (hb hblocked)⟩⟩

theorem allOrNothing_iff_of_cleanUp {d' : Disk F} (hs : s.dist ≠ none)
    (hswap : swapDist (some f) (prepared e s none) = (swapped e s, none))
    (hbinary : swapBinary (some f) platformKey (swapped e s) = (d, none))
    (hclean : cleanUp (some f) d = (d', some f.message)) (hd' : Adopted platformKey e s d')
    (hnot : ¬ RollbackFails (some f) e) :
    AllOrNothing (some f) platformKey e s ↔ e.dist ≠ none ∧ (s.staged? platformKey = none ∨ e.vendor ≠ none) ∧
      (d'.extension.distPreSwap = none ∨ d'.extension.distPreSwap = some []) := by
  have h : atomicSwap (some f) platformKey (prepared e s none) = _ := atomicSwap_of_staged hs
  simp only [hswap, hbinary, hclean] at h
  rw [allOrNothing_iff_unharmed (h.trans (rollback_of_not f.message hd'.backup hnot)) rfl rfl,
    unharmed_of_adopted_iff hd' hs]

theorem not_rollbackFails_of_op (hop : ¬ (f.op = .removeTargetDist ∨ f.op = .copyBackupDist ∨
    f.op = .removeTargetVendor ∨ f.op = .copyBackupVendor)) : ¬ RollbackFails (some f) e := by
  rintro ⟨f', hf, ⟨-, h⟩ | ⟨-, h⟩⟩ <;> obtain rfl := Option.some.inj hf
  · exact hop (h.imp_right .inl)
  · exact hop (.inr (.inr h))

theorem allOrNothing_iff_recoverable (hs : s.dist ≠ none) (hblocked : ¬ Blocked e) :
    AllOrNothing (some f) platformKey e s ↔ Recoverable f platformKey e s := by
  have hother : ∀ {op : FileOp}, f.op ≠ op → ∀ f', some f = some f' → f'.op ≠ op :=
    fun hne f' hf ↦ Option.some.inj hf ▸ hne
  by_cases hmove : f.op = .moveStagedDist
  · obtain ⟨r, hr, hrollback, hswap⟩ := swapDist_of_moveStagedDist (s := s) hblocked hmove
    rw [allOrNothing_iff_unharmed ((atomicSwap_of_staged hs).trans (by rw [hswap])) hr hrollback, unharmed_restored_iff]
    simp only [Recoverable, hmove]
  by_cases haside : e.dist ≠ none ∧ f.op = .moveDistAside
  · have hswap := swapDist_of_moveDistAside (s := s) hblocked haside.1 haside.2
    rw [allOrNothing_iff_of_unchanged ((atomicSwap_of_staged hs).trans (by rw [hswap]))]
    simp only [Recoverable, haside.2, hblocked, false_implies]
  have hswap : swapDist (some f) (prepared e s none) = (swapped e s, none) :=
    swapDist_of_ne hblocked (fun hdist ↦ hother fun hop ↦ haside ⟨hdist, hop⟩) (hother hmove)
  by_cases hbinary : s.staged? platformKey ≠ none ∧ f.op.copiesBinary
  · obtain ⟨⟨key, staged⟩, hstaged⟩ := Option.ne_none_iff_exists'.mp hbinary.1
    obtain ⟨d, hdist, hpre, hkeys, r, hr, hrollback, hd⟩ :=
      swapBinary_of_eq (d := swapped e s) (e := e) hstaged rfl hbinary.2
    rw [allOrNothing_iff_unharmed ((atomicSwap_of_staged hs).trans (by rw [hswap]; dsimp only; rw [hd])) hr hrollback,
      unharmed_of_binary_iff hdist hpre hkeys]
    rcases hbinary.2 with hop | hop | hop | hop <;>
      simp only [Recoverable, hop, ne_eq, hbinary.1, not_false_eq_true, true_implies]
  obtain ⟨d, hd, hadopted, hpre⟩ := swapBinary_adopts (some f) platformKey e s
    fun hstaged f' hf hop ↦ hbinary ⟨hstaged, Option.some.inj hf ▸ hop⟩
  by_cases hremove : e.dist.or e.distPreSwap ≠ none ∧ f.op = .removePreSwap
  · have hclean := cleanUp_of_removePreSwap (d := d) (hpre ▸ hremove.1) hremove.2
    rw [allOrNothing_iff_of_cleanUp hs hswap hd hclean (hadopted.sameApart (.refl _))
      (not_rollbackFails_of_op (by simp [hremove.2]))]
    simp only [Recoverable, hremove.2, ne_eq, hremove.1, not_false_eq_true, true_implies]
    rfl
  by_cases hstaging : f.op = .readStaging ∨ f.op = .removeStaging
  · obtain ⟨d', hclean, hsame⟩ := cleanUp_of_staging (d := d) hstaging
    rw [allOrNothing_iff_of_cleanUp hs hswap hd hclean (hadopted.sameApart hsame)
      (not_rollbackFails_of_op (by rcases hstaging with hop | hop <;> simp [hop])), hsame.distPreSwap]
    rcases hstaging with hop | hop <;> simp [Recoverable, hop, Disk.setPreSwap]
  -- no other operation ends a call
  obtain ⟨d, hd, hadopted⟩ := atomicSwap_completes (some f) platformKey hs hblocked
    (fun hdist ↦ hother fun hop ↦ haside ⟨hdist, hop⟩) (hother hmove)
    (fun hstaged f' hf hop ↦ hbinary ⟨hstaged, Option.some.inj hf ▸ hop⟩)
    (fun hpre ↦ hother fun hop ↦ hremove ⟨hpre, hop⟩) fun f' hf hop ↦ hstaging (Option.some.inj hf ▸ hop)
  refine iff_of_true (allOrNothing_of_ok hd rfl hs hadopted.dist hadopted.binary?) ?_
  unfold Recoverable
  split
  · next hop => exact absurd hop hmove
  · next hop => exact fun h ↦ absurd ⟨h, .inl hop⟩ hbinary
  · next hop => exact fun h ↦ absurd ⟨h, .inr (.inl hop)⟩ hbinary
  · next hop => exact fun h ↦ absurd ⟨h, .inr (.inr (.inl hop))⟩ hbinary
  · next hop => exact fun h ↦ absurd ⟨h, .inr (.inr (.inr hop))⟩ hbinary
  · next hop => exact fun h ↦ absurd ⟨h, hop⟩ hremove
  · next hop => exact absurd (.inl hop) hstaging
  · next hop => exact absurd (.inr hop) hstaging
  · trivial

/-- A call that has failed leaves everything as it was, and a later one adopts, if and only if no side copy
with files stands beside `dist` and the operation that failed is one it recovers from; where the rollback
fails too, the call says so. -/
theorem allOrNothing_iff (fault : Option (Fault F)) (platformKey : Option String) (e : ExtensionTree F)
    (s : StagingTree F) : AllOrNothing fault platformKey e s ↔ Recovers fault platformKey e s := by
  by_cases hs : s.dist = none
  · have hstart : atomicSwap fault platformKey (prepared e s none) =
        rollback fault "Staging directory has no dist/" (prepared e s none) := by
      rw [atomicSwap, show (prepared e s none).staging.dist = none from hs]
    rw [allOrNothing_iff_of_unchanged hstart]
    exact ⟨fun h ↦ ⟨h, fun _ hne ↦ absurd hs hne⟩, fun h ↦ h.1⟩
  by_cases hblocked : Blocked e
  · rw [allOrNothing_iff_of_unchanged ((atomicSwap_of_staged hs).trans (by rw [swapDist_of_blocked hblocked]))]
    exact ⟨fun h ↦ ⟨h, fun hnot ↦ absurd hblocked hnot⟩, fun h ↦ h.1⟩
  rcases fault with _ | f
  · obtain ⟨d, hd, hadopted⟩ := atomicSwap_completes none platformKey hs hblocked
      (fun _ _ hf ↦ nomatch hf) (fun _ hf ↦ nomatch hf) (fun _ _ hf ↦ nomatch hf) (fun _ _ hf ↦ nomatch hf)
      fun _ hf ↦ nomatch hf
    exact iff_of_true (allOrNothing_of_ok hd rfl hs hadopted.dist hadopted.binary?)
      ⟨fun h ↦ absurd h hblocked, fun _ _ _ hf ↦ nomatch hf⟩
  · rw [allOrNothing_iff_recoverable hs hblocked]
    exact ⟨fun h ↦ ⟨fun hb ↦ absurd hb hblocked, fun _ _ _ hf ↦ Option.some.inj hf ▸ h⟩,
      fun h ↦ h.2 hblocked hs f rfl⟩

/-- A platform directory that cannot be made leaves a side copy beside a `dist` that has files. -/
theorem not_allOrNothing_binary : ∃ (fault : Option (Fault String)) (platformKey : Option String)
    (e : ExtensionTree String) (s : StagingTree String), ¬ AllOrNothing fault platformKey e s := by
  let build : BuildTree String := ⟨some [("extension.js", "new")], []⟩
  refine ⟨some ⟨.makeDestDir, "EACCES", none, none, none⟩, some "linux-x64",
    ⟨some [("extension.js", "old")], none, none, []⟩,
    stageExtensionBuild build (some ⟨"binary", []⟩) (some "linux-x64"), fun hlaw ↦ ?_⟩
  have hlater := hlaw.repeatable (by decide) (by decide) ⟨some [], [], []⟩ none (Option.some_ne_none _)
  exact absurd hlater (by decide)

end Outcomes

end Amicode.Rebuild
