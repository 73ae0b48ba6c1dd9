import Amicode.Foundation.InsertionMap
import Amicode.Foundation.JsonValue

/-!
# Plain objects as maps

An ECMAScript program that keeps a map in a plain object, or takes one from `JSON.parse`, has the members
of the object, and beside them every name that `Object.prototype` gives to all objects. Writing a member
with a computed key (`{ ...object, [key]: value }`), deleting one and listing the values are about the
object's own members, whatever the key; `key in object` is about both.

The members are a list of pairs. The place of a member is not modelled: nothing here reads it.
-/

/-- What the path of a JSON file has. -/
inductive StoreFile
  | absent
  /-- No JSON text, or a file that cannot be read. -/
  | malformed
  | json (value : JsonValue)

open List

namespace JsObject

open InsertionMap

variable {ν : Type*}

/-- The names of the properties of `Object.prototype`. -/
def inheritedNames : List String :=
  ["__defineGetter__", "__defineSetter__", "__lookupGetter__", "__lookupSetter__", "__proto__", "constructor",
    "hasOwnProperty", "isPrototypeOf", "propertyIsEnumerable", "toLocaleString", "toString", "valueOf"]

def own? (members : List (String × ν)) (key : String) : Option ν := Entries.get? members key

/-- `key in object`. -/
def hasProperty (members : List (String × ν)) (key : String) : Bool :=
  (own? members key).isSome || inheritedNames.contains key

/-- `{ ...object, [key]: value }`. -/
def assign (members : List (String × ν)) (key : String) (value : ν) : List (String × ν) :=
  Entries.set members key value

/-- `delete object[key]`. -/
def remove (members : List (String × ν)) (key : String) : List (String × ν) := Entries.erase members key

/-- `Object.values`. -/
def values (members : List (String × ν)) : List ν := members.map Prod.snd

section

variable {members : List (String × ν)} {key k : String} {value v : ν}

theorem own?_assign (members : List (String × ν)) (key : String) (value : ν) (k : String) :
    own? (assign members key value) k = if key = k then some value else own? members k :=
  Entries.get?_set members key value k

@[simp] theorem own?_assign_self : own? (assign members key value) key = some value := by
  rw [own?_assign, if_pos rfl]

theorem own?_assign_of_ne (h : key ≠ k) : own? (assign members key value) k = own? members k := by
  rw [own?_assign, if_neg h]

theorem own?_remove_of_ne (h : key ≠ k) : own? (remove members key) k = own? members k := by
  rw [own?, remove, Entries.get?_erase, if_neg h]
  rfl

theorem own?_eq_none_of_not_hasProperty (h : hasProperty members key = false) : own? members key = none := by
  simp only [hasProperty, Bool.or_eq_false_iff, Option.isSome_eq_false_iff, Option.isNone_iff_eq_none] at h
  exact h.1

theorem own?_append (members rest : List (String × ν)) (key : String) :
    own? (members ++ rest) key = (own? members key).or (own? rest key) := by
  induction members with
  | nil => rfl
  | cons e members ih =>
    obtain ⟨k, v⟩ := e
    by_cases hk : k = key
    · simp [own?, Entries.get?, hk]
    · simpa [own?, Entries.get?, hk] using ih

/-- A member that is left out where there is no value. -/
def optional (key : String) (value : Option ν) : List (String × ν) := (value.map fun v ↦ (key, v)).toList

theorem own?_optional (key : String) (value : Option ν) (k : String) :
    own? (optional key value) k = if key = k then value else none := by
  rcases value with _ | v
  · simp [optional, own?, Entries.get?]
  · rfl

theorem mem_of_own? (h : own? members key = some value) : (key, value) ∈ members := by
  induction members with
  | nil => cases h
  | cons e rest ih =>
    obtain ⟨k, v⟩ := e
    rw [own?, Entries.get?] at h
    split at h
    · obtain rfl := Option.some.inj h
      subst k
      exact mem_cons_self
    · exact mem_cons_of_mem _ (ih h)

theorem own?_eq_none_iff : own? members key = none ↔ ∀ v, (key, v) ∉ members := by
  rw [own?, Entries.get?_eq_none_iff]
  simp

theorem mem_assign (h : (k, v) ∈ assign members key value) : (k = key ∧ v = value) ∨ (k, v) ∈ members := by
  induction members with
  | nil => exact .inl (by simpa [assign, Entries.set] using h)
  | cons e rest ih =>
    obtain ⟨k', v'⟩ := e
    rw [assign, Entries.set] at h
    split at h
    · rcases mem_cons.mp h with heq | hmem
      · subst k'
        exact .inl (by simpa using heq)
      · exact .inr (mem_cons_of_mem _ hmem)
    · rcases mem_cons.mp h with heq | hmem
      · exact .inr (heq ▸ mem_cons_self)
      · exact (ih hmem).imp id (mem_cons_of_mem _)

theorem mem_assign_of_ne (h : k ≠ key) : (k, v) ∈ assign members key value ↔ (k, v) ∈ members := by
  induction members with
  | nil => simp [assign, Entries.set, h]
  | cons e rest ih =>
    obtain ⟨k', v'⟩ := e
    rw [assign] at ih
    rw [assign, Entries.set]
    split
    · subst k'
      simp [h]
    · rw [mem_cons, ih, mem_cons]

theorem mem_remove : (k, v) ∈ remove members key ↔ (k, v) ∈ members ∧ k ≠ key := by
  simp [remove, Entries.erase]

end

end JsObject
