/-
**Objects: required fields and properties.**

An object schema says which of its fields are required, by a list of names or for all at once, and
lists its properties in order.

Main definitions:

* `Required`, `Required.appliesTo` — which fields are required;
* `ObjectBody`, `ObjectBody.read` — an object, and **the object at a place**.

Main results:

* `ObjectBody.properties_of_read` — the properties of an object are those that it lists;
* `ObjectBody.weight_of_read` — the properties of an object weigh less than the object.
-/

import StoreSchema.Error

set_option relaxedAutoImplicit false
set_option autoImplicit false

namespace StoreSchema

/-! ### Required fields -/

/-- Which fields of an object are required. -/
inductive Required where
  /-- The fields that are listed by name. -/
  | names (listed : List Json)
  /-- All fields, or none. -/
  | all (required : Bool)

namespace Required

/-- What the object at `place` says about its required fields. -/
def read (members : Members) (place : Pointer) : Outcome Required :=
  match Entries.get? members "required" with
  | none => .ok (.all false)
  | some .null => .ok (.all false)
  | some (.bool required) => .ok (.all required)
  | some (.arr listed) => .ok (.names listed)
  | some other => .error (.wrongKind (place.child "required") [.array, .boolean] other)

/-- Whether the field called `name` is required. -/
def appliesTo (name : String) : Required → Bool
  | .names listed => listed.any fun item => item.asString? == some name
  | .all required => required

end Required

/-! ### Objects -/

/-- An object: its required fields and its properties. -/
structure ObjectBody where
  /-- Which fields are required. -/
  required : Required
  /-- The properties, in order. -/
  properties : Members

namespace ObjectBody

/-- The properties of the object at `place`. -/
def readProperties (members : Members) (place : Pointer) : Outcome Members :=
  match Entries.get? members "properties" with
  | none => .ok []
  | some .null => .ok []
  | some (.obj properties) => .ok properties
  | some other => .error (.wrongKind (place.child "properties") [.object] other)

/-- The object at `place`. -/
def read (members : Members) (place : Pointer) : Outcome ObjectBody := do
  let required ← Required.read members place
  let properties ← readProperties members place
  return { required, properties }

/-- The properties of an object are those that it lists; it may list none. -/
theorem properties_of_read {members : Members} {place : Pointer} {body : ObjectBody}
    (h : read members place = .ok body) :
    body.properties = ((Entries.get? members "properties").map Json.members).getD [] := by
  obtain ⟨required, _, h⟩ := Outcome.bind_eq_ok_iff.1 h
  obtain ⟨properties, hproperties, h⟩ := Outcome.bind_eq_ok_iff.1 h
  cases h
  rw [readProperties] at hproperties
  split at hproperties
  · next hget =>
      cases hproperties
      simp [hget]
  · next hget =>
      cases hproperties
      simp [hget, Json.members]
  · next hget =>
      cases hproperties
      simp [hget]
  · cases hproperties

/-- The properties of an object weigh less than the object. -/
theorem weight_of_read {members : Members} {place : Pointer} {body : ObjectBody}
    (h : read members place = .ok body) :
    Json.weightMembers body.properties < (Json.obj members).weight := by
  rw [properties_of_read h]
  cases hget : Entries.get? members "properties" with
  | none =>
      simp only [Option.map_none, Option.getD_none, Json.weightMembers, Json.weight]
      omega
  | some listed =>
      have hlt := Json.weight_of_get? hget
      simp only [Option.map_some, Option.getD_some, Json.weight]
      cases listed with
      | obj properties =>
          simp only [Json.weight] at hlt
          simp only [Json.members_obj]
          omega
      | _ =>
          simp only [Json.members, Json.weightMembers]
          omega

end ObjectBody

end StoreSchema
