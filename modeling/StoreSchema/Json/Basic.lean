/-
**JSON values with ordered members.**

A JSON value in the sense of the data format, with two refinements that its readers and printers
rely on: the members of an object keep the order in which their names first appeared, and a number
remembers whether it is an integer or a binary floating-point number.

Main definitions:

* `Number`, `Json` — numbers and values;
* `Members` — the members of an object;
* `Json.Kind`, `Json.kind` — the six kinds of value and their names;
* `Json.members`, `Json.asString?`, `Json.isObject` — what is found inside a value;
* `Json.weight` — the number of values and members a value consists of, which bounds every walk.

Main results:

* `Json.weight_of_get?` — a member weighs less than its object;
* `Json.weightMembers_erase`, `Json.weightMembers_insertAll` — what removing and writing members
  does to the weight.
-/

import StoreSchema.Entries
import StoreSchema.Binary64.Basic

set_option relaxedAutoImplicit false
set_option autoImplicit false

namespace StoreSchema

/-- A number: an integer, or a binary floating-point number. -/
inductive Number where
  | integer (value : Int)
  | real (value : Binary64)
deriving DecidableEq

/-- The magnitude of a number that is not negative, cut to an integer; zero for a negative one. -/
def Number.wholePart : Number → Nat
  | .integer value => value.toNat
  | .real value => value.wholePart

/-- A JSON value. -/
inductive Json where
  | null
  | bool (value : Bool)
  | num (value : Number)
  | str (text : String)
  | arr (items : List Json)
  | obj (members : List (String × Json))

/-- The members of an object, in order. -/
abbrev Members := Entries Json

namespace Json

/-! ### Kinds -/

/-- The six kinds of value. -/
inductive Kind where
  | null
  | boolean
  | number
  | string
  | array
  | object
deriving DecidableEq, Repr

/-- The name of a kind. -/
def Kind.name : Kind → String
  | .null => "null"
  | .boolean => "boolean"
  | .number => "number"
  | .string => "string"
  | .array => "array"
  | .object => "object"

/-- The kind of a value. -/
def kind : Json → Kind
  | .null => .null
  | .bool _ => .boolean
  | .num _ => .number
  | .str _ => .string
  | .arr _ => .array
  | .obj _ => .object

/-! ### Looking inside -/

/-- The members of an object; a value that is no object has none. -/
def members : Json → Members
  | .obj members => members
  | _ => []

/-- The text of a string. -/
def asString? : Json → Option String
  | .str text => some text
  | _ => none

/-- Whether the value is an object. -/
def isObject : Json → Bool
  | .obj _ => true
  | _ => false

@[simp] theorem members_obj (entries : Members) : (Json.obj entries).members = entries := rfl

theorem isObject_iff {value : Json} : value.isObject = true ↔ value = .obj value.members := by
  cases value <;> simp [isObject, members]

/-! ### Weight -/

mutual

/-- The number of values and members that a value consists of. -/
def weight : Json → Nat
  | .null => 1
  | .bool _ => 1
  | .num _ => 1
  | .str _ => 1
  | .arr items => 1 + weightItems items
  | .obj members => 1 + weightMembers members

/-- The weight of the items of an array. -/
def weightItems : List Json → Nat
  | [] => 0
  | item :: rest => weight item + weightItems rest

/-- The weight of the members of an object, each counting one besides its value. -/
def weightMembers : List (String × Json) → Nat
  | [] => 0
  | (_, value) :: rest => 1 + weight value + weightMembers rest

end

/-- A member weighs less than the members it is one of. -/
theorem weight_of_get? {members : Members} {key : String} {value : Json}
    (h : Entries.get? members key = some value) : weight value < weightMembers members := by
  induction members with
  | nil => simp at h
  | cons entry rest ih =>
      obtain ⟨name, first⟩ := entry
      rw [Entries.get?_cons] at h
      simp only [weightMembers]
      split at h
      · simp only [Option.some.injEq] at h
        subst h
        omega
      · have := ih h
        omega

/-- Removing members never adds weight. -/
theorem weightMembers_filter_le (keep : String × Json → Bool) (members : Members) :
    weightMembers (members.filter keep) ≤ weightMembers members := by
  induction members with
  | nil => simp
  | cons entry rest ih =>
      obtain ⟨name, value⟩ := entry
      rw [List.filter_cons]
      split <;> simp only [weightMembers] <;> omega

/-- Removing a member takes away the weight of its value, and the member itself. -/
theorem weightMembers_erase {members : Members} {key : String} {value : Json}
    (h : Entries.get? members key = some value) :
    weightMembers (Entries.erase members key) + 1 + weight value ≤ weightMembers members := by
  induction members with
  | nil => simp at h
  | cons entry rest ih =>
      obtain ⟨name, first⟩ := entry
      rw [Entries.get?_cons] at h
      rw [Entries.erase, List.filter_cons]
      split at h
      · next hname =>
          simp only [Option.some.injEq] at h
          subst h hname
          have hle := weightMembers_filter_le (fun entry => entry.1 != name) rest
          simp only [bne_self_eq_false, Bool.false_eq_true, if_false, weightMembers]
          omega
      · next hname =>
          have hrest := ih h
          rw [Entries.erase] at hrest
          simp only [bne_iff_ne, ne_eq, hname, not_false_eq_true, if_true, weightMembers]
          omega

/-- Writing a member adds at most its weight. -/
theorem weightMembers_insert_le (members : Members) (key : String) (value : Json) :
    weightMembers (Entries.insert members key value) ≤
      weightMembers members + 1 + weight value := by
  induction members with
  | nil => simp [Entries.insert, weightMembers]
  | cons entry rest ih =>
      obtain ⟨name, old⟩ := entry
      rw [Entries.insert_cons]
      split <;> simp only [weightMembers] <;> omega

/-- Writing members adds at most their weight. -/
theorem weightMembers_insertAll_le (members source : Members) :
    weightMembers (Entries.insertAll members source) ≤
      weightMembers members + weightMembers source := by
  induction source generalizing members with
  | nil => simp
  | cons entry rest ih =>
      obtain ⟨key, value⟩ := entry
      have hinsert := weightMembers_insert_le members key value
      have hrest := ih (Entries.insert members key value)
      rw [Entries.insertAll_cons]
      simp only [weightMembers]
      omega

/-! ### Equality -/

mutual

/-- Equality of values is decidable. -/
def decEq : (a b : Json) → Decidable (a = b)
  | .null, .null => isTrue rfl
  | .bool x, .bool y =>
      if h : x = y then isTrue (by rw [h]) else isFalse (by simpa using h)
  | .num x, .num y =>
      if h : x = y then isTrue (by rw [h]) else isFalse (by simpa using h)
  | .str x, .str y =>
      if h : x = y then isTrue (by rw [h]) else isFalse (by simpa using h)
  | .arr xs, .arr ys =>
      match decEqItems xs ys with
      | isTrue h => isTrue (by rw [h])
      | isFalse h => isFalse (by simpa using h)
  | .obj xs, .obj ys =>
      match decEqMembers xs ys with
      | isTrue h => isTrue (by rw [h])
      | isFalse h => isFalse (by simpa using h)
  | .null, .bool _ | .null, .num _ | .null, .str _ | .null, .arr _ | .null, .obj _ => isFalse nofun
  | .bool _, .null | .bool _, .num _ | .bool _, .str _ | .bool _, .arr _ | .bool _, .obj _ =>
      isFalse nofun
  | .num _, .null | .num _, .bool _ | .num _, .str _ | .num _, .arr _ | .num _, .obj _ =>
      isFalse nofun
  | .str _, .null | .str _, .bool _ | .str _, .num _ | .str _, .arr _ | .str _, .obj _ =>
      isFalse nofun
  | .arr _, .null | .arr _, .bool _ | .arr _, .num _ | .arr _, .str _ | .arr _, .obj _ =>
      isFalse nofun
  | .obj _, .null | .obj _, .bool _ | .obj _, .num _ | .obj _, .str _ | .obj _, .arr _ =>
      isFalse nofun

/-- Equality of items is decidable. -/
def decEqItems : (xs ys : List Json) → Decidable (xs = ys)
  | [], [] => isTrue rfl
  | x :: xs, y :: ys =>
      match decEq x y, decEqItems xs ys with
      | isTrue h, isTrue hs => isTrue (by rw [h, hs])
      | isFalse h, _ => isFalse (by simp [h])
      | _, isFalse hs => isFalse (by simp [hs])
  | [], _ :: _ | _ :: _, [] => isFalse nofun

/-- Equality of members is decidable. -/
def decEqMembers : (xs ys : List (String × Json)) → Decidable (xs = ys)
  | [], [] => isTrue rfl
  | (k, x) :: xs, (l, y) :: ys =>
      if hk : k = l then
        match decEq x y, decEqMembers xs ys with
        | isTrue h, isTrue hs => isTrue (by rw [hk, h, hs])
        | isFalse h, _ => isFalse (by simp [h])
        | _, isFalse hs => isFalse (by simp [hs])
      else isFalse (by simp [hk])
  | [], _ :: _ | _ :: _, [] => isFalse nofun

end

instance : DecidableEq Json := decEq

end Json

end StoreSchema
