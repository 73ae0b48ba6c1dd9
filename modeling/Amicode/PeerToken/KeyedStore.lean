import Amicode.Foundation.JsObject
import Amicode.Foundation.StepMachine

/-!
# Keyed stores

A credential store is a JSON file with maps in it, one entry a machine, under the name of a collection
(`keyed_store.ts`). Whatever stands in the file, it is read without an error: what is not an object has no
collections, and what is not an object has no entries. A write replaces one entry of one collection, stamps
the version, and keeps everything else of the document.

Each operation reads the whole file and writes it at once. What is written is read back as it was: a number
of the file is a finite one, under the text that `JSON.stringify` has for it.
-/

namespace Amicode.PeerToken

open JsObject

/-- The members of a document, or of a collection. -/
abbrev KeyedDoc := List (String × JsonValue)

def objectMembers : Option JsonValue → KeyedDoc
  | some (.obj members) => members
  | _ => []

def readDoc : StoreFile → KeyedDoc
  | .json value => objectMembers (some value)
  | _ => []

def collectionOf (doc : KeyedDoc) (collectionKey : String) : KeyedDoc := objectMembers (own? doc collectionKey)

def readKeyedCollection (file : StoreFile) (collectionKey : String) : KeyedDoc :=
  collectionOf (readDoc file) collectionKey

/-- The document with another collection, as both writers write it. -/
def withCollection (doc : KeyedDoc) (collectionKey : String) (collection : KeyedDoc) (storeVersion : ℕ) :
    StoreFile :=
  .json (.obj (assign (assign doc "store_version" (.num (toString storeVersion))) collectionKey (.obj collection)))

def upsertKeyedEntry (file : StoreFile) (collectionKey id : String) (value : JsonValue) (storeVersion : ℕ) :
    StoreFile :=
  let doc := readDoc file
  withCollection doc collectionKey (assign (collectionOf doc collectionKey) id value) storeVersion

def deleteKeyedEntry (file : StoreFile) (collectionKey id : String) (storeVersion : ℕ) : StoreFile :=
  let doc := readDoc file
  let collection := collectionOf doc collectionKey
  if !hasProperty collection id then file
  else withCollection doc collectionKey (remove collection id) storeVersion

section

variable {file : StoreFile} {doc collection : KeyedDoc} {collectionKey key id : String} {value : JsonValue}
  {storeVersion : ℕ}

theorem own?_withCollection (hversion : key ≠ "store_version") (hkey : key ≠ collectionKey) :
    own? (readDoc (withCollection doc collectionKey collection storeVersion)) key = own? doc key := by
  rw [withCollection, readDoc, objectMembers, own?_assign_of_ne hkey.symm, own?_assign_of_ne hversion.symm]

theorem readKeyedCollection_withCollection :
    readKeyedCollection (withCollection doc collectionKey collection storeVersion) collectionKey = collection := by
  rw [readKeyedCollection, collectionOf, withCollection, readDoc, objectMembers, own?_assign_self, objectMembers]

theorem readKeyedCollection_withCollection_of_ne (hversion : key ≠ "store_version") (hkey : key ≠ collectionKey) :
    readKeyedCollection (withCollection doc collectionKey collection storeVersion) key = collectionOf doc key := by
  rw [readKeyedCollection, collectionOf, own?_withCollection hversion hkey, collectionOf]

@[simp] theorem readKeyedCollection_upsertKeyedEntry :
    readKeyedCollection (upsertKeyedEntry file collectionKey id value storeVersion) collectionKey =
      assign (readKeyedCollection file collectionKey) id value :=
  readKeyedCollection_withCollection

theorem readKeyedCollection_upsertKeyedEntry_of_ne (hversion : key ≠ "store_version") (hkey : key ≠ collectionKey) :
    readKeyedCollection (upsertKeyedEntry file collectionKey id value storeVersion) key =
      readKeyedCollection file key :=
  readKeyedCollection_withCollection_of_ne hversion hkey

theorem own?_upsertKeyedEntry (hversion : key ≠ "store_version") (hkey : key ≠ collectionKey) :
    own? (readDoc (upsertKeyedEntry file collectionKey id value storeVersion)) key = own? (readDoc file) key :=
  own?_withCollection hversion hkey

theorem deleteKeyedEntry_eq_self (h : hasProperty (readKeyedCollection file collectionKey) id = false) :
    deleteKeyedEntry file collectionKey id storeVersion = file := by
  rw [readKeyedCollection] at h
  simp [deleteKeyedEntry, h]

theorem deleteKeyedEntry_of_hasProperty (h : hasProperty (readKeyedCollection file collectionKey) id = true) :
    deleteKeyedEntry file collectionKey id storeVersion = withCollection (readDoc file) collectionKey
      (remove (readKeyedCollection file collectionKey) id) storeVersion := by
  rw [readKeyedCollection] at h ⊢
  simp [deleteKeyedEntry, h]

theorem readKeyedCollection_deleteKeyedEntry :
    readKeyedCollection (deleteKeyedEntry file collectionKey id storeVersion) collectionKey =
      remove (readKeyedCollection file collectionKey) id := by
  rcases h : hasProperty (readKeyedCollection file collectionKey) id with _ | _
  · have hnone := own?_eq_none_iff.mp (own?_eq_none_of_not_hasProperty h)
    rw [deleteKeyedEntry_eq_self h, remove, InsertionMap.Entries.erase, List.filter_eq_self.mpr]
    rintro ⟨k, v⟩ hmem
    exact decide_eq_true fun (hk : k = id) ↦ hnone v (hk ▸ hmem)
  · rw [deleteKeyedEntry_of_hasProperty h, readKeyedCollection_withCollection]

theorem readKeyedCollection_deleteKeyedEntry_of_ne (hversion : key ≠ "store_version") (hkey : key ≠ collectionKey) :
    readKeyedCollection (deleteKeyedEntry file collectionKey id storeVersion) key =
      readKeyedCollection file key := by
  rcases h : hasProperty (readKeyedCollection file collectionKey) id with _ | _
  · rw [deleteKeyedEntry_eq_self h]
  · rw [deleteKeyedEntry_of_hasProperty h, readKeyedCollection_withCollection_of_ne hversion hkey,
      readKeyedCollection]

theorem own?_deleteKeyedEntry (hversion : key ≠ "store_version") (hkey : key ≠ collectionKey) :
    own? (readDoc (deleteKeyedEntry file collectionKey id storeVersion)) key = own? (readDoc file) key := by
  rcases h : hasProperty (readKeyedCollection file collectionKey) id with _ | _
  · rw [deleteKeyedEntry_eq_self h]
  · rw [deleteKeyedEntry_of_hasProperty h, own?_withCollection hversion hkey]

/-! ## Runs -/

inductive KeyedWrite where
  | upsert (collectionKey id : String) (value : JsonValue)
  | delete (collectionKey id : String)

def writeFile (storeVersion : ℕ) (file : StoreFile) : KeyedWrite → StoreFile
  | .upsert collectionKey id value => upsertKeyedEntry file collectionKey id value storeVersion
  | .delete collectionKey id => deleteKeyedEntry file collectionKey id storeVersion

/-- A write to a map: nothing, if it is to another one. -/
def writeMap (key : String) (map : KeyedDoc) : KeyedWrite → KeyedDoc
  | .upsert collectionKey id value => if key = collectionKey then assign map id value else map
  | .delete collectionKey id => if key = collectionKey then remove map id else map

/-- Over every run of writes, and whatever is in the file, it is a map for each collection. -/
theorem readKeyedCollection_run (hversion : key ≠ "store_version") (file : StoreFile) (writes : List KeyedWrite) :
    readKeyedCollection (StepMachine.run (writeFile storeVersion) file writes) key =
      StepMachine.run (writeMap key) (readKeyedCollection file key) writes := by
  induction writes generalizing file with
  | nil => rfl
  | cons write writes ih =>
    rw [StepMachine.run_cons, StepMachine.run_cons, ih]
    congr 1
    cases write with
    | upsert collectionKey id value =>
      rw [writeFile, writeMap]
      split_ifs with hkey
      · rw [hkey, readKeyedCollection_upsertKeyedEntry]
      · exact readKeyedCollection_upsertKeyedEntry_of_ne hversion hkey
    | delete collectionKey id =>
      rw [writeFile, writeMap]
      split_ifs with hkey
      · rw [hkey, readKeyedCollection_deleteKeyedEntry]
      · exact readKeyedCollection_deleteKeyedEntry_of_ne hversion hkey

theorem readKeyedCollection_run_issued :
    readKeyedCollection (StepMachine.run (writeFile 1) .malformed [.upsert "issued" "a" .null]) "issued" =
      [("a", .null)] :=
  readKeyedCollection_run (by decide) _ _

end

end Amicode.PeerToken
