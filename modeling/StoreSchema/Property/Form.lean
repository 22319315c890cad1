/-
**The form of a property: what has to be done to resolve it.**

A property is an object whose members decide, in a fixed order of precedence, how its field is
found: by a block of directives of its own, by such a block on its items, by a reference, or by its
declared type.  This module makes that decision and finds every fault that the property shows by
itself; nothing here looks into another property or follows a reference.

Main definitions:

* `reference?` — the reference of a property;
* `Form`, `Form.read` — **the form of a property**.

Main results:

* `Form.within_of_read` — the parts of a form stand in the property.
-/

import StoreSchema.Property.Object
import StoreSchema.Property.Override

set_option relaxedAutoImplicit false
set_option autoImplicit false

namespace StoreSchema

/-! ### References -/

/-- The reference that an object carries itself: under `$ref`, or in its block. -/
def ownReference? (dialect : Dialect) (members : Members) (place : Pointer) :
    Outcome (Option String) :=
  match Entries.get? members "$ref" with
  | some (.str reference) => .ok (some reference)
  | some other => .error (.wrongKind (place.child "$ref") [.string] other)
  | none =>
      (dialect.directive? members place).map fun block => block.bind dialect.explicitReference?

/-- The reference of a property: its own, or that of its items. -/
def reference? (dialect : Dialect) (members : Members) (place : Pointer) :
    Outcome (Option String) := do
  match ← ownReference? dialect members place with
  | some reference => return some reference
  | none =>
      match Entries.get? members "items" with
      | some (.obj items) => ownReference? dialect items (place.child "items")
      | _ => return none

/-- Whether a property stands for an array: it declares one, or describes items. -/
def isArrayProperty (members : Members) : Bool :=
  (Entries.get? members "type").bind Json.asString? == some "array" ||
    ((Entries.get? members "items").map Json.isObject).getD false

/-! ### Declared types -/

/-- How a property is resolved. -/
inductive Form where
  /-- By its own block. -/
  | overridden (block : Members)
  /-- As an array, its items by their own block. -/
  | overriddenItems (items : Members)
  /-- By what a reference leads to. -/
  | referring (reference : String)
  /-- As a scalar. -/
  | scalar (type : Primitive) (values : Option (List Json))
  /-- As an array of its items. -/
  | array (items : Json)
  /-- As an embedded document. -/
  | object (body : ObjectBody)

/-- The type that the property at `place` declares. -/
def declaredType (members : Members) (place : Pointer) : Outcome DeclaredType :=
  match Entries.get? members "type" with
  | none => .error (.invalidSchema place .untyped)
  | some .null => .error (.invalidSchema place .untyped)
  | some declared =>
      match declared.asString?.bind DeclaredType.parse? with
      | some type => .ok type
      | none => .error (.unrecognizedType place declared)

/-- Refuses a format that numbers do not have. -/
def checkNumberFormat (members : Members) (place : Pointer) : Outcome Unit :=
  match Entries.get? members "format" with
  | none => .ok ()
  | some .null => .ok ()
  | some format =>
      if (format.asString?.map numberFormats.contains).getD false then .ok ()
      else .error (.unrecognizedFormat place format)

/-- The values that the scalar at `place` is restricted to. -/
def readValues (members : Members) (place : Pointer) : Outcome (Option (List Json)) :=
  match Entries.get? members "enum" with
  | none => .ok none
  | some .null => .ok none
  | some (.arr values) => .ok (some values)
  | some other => .error (.wrongKind (place.child "enum") [.array] other)

/-- The items that the array at `place` describes. -/
def readItems (members : Members) (place : Pointer) : Outcome Json :=
  match Entries.get? members "items" with
  | none => .error (.invalidSchema place .noItems)
  | some .null => .error (.invalidSchema place .noItems)
  | some items => .ok items

theorem get?_of_readItems {members : Members} {place : Pointer} {items : Json}
    (h : readItems members place = .ok items) : Entries.get? members "items" = some items := by
  rw [readItems] at h
  split at h <;> cases h
  assumption

namespace Form

/-- The form of a scalar. -/
def readScalar (members : Members) (place : Pointer) (type : Primitive) : Outcome Form :=
  (readValues members place).map (Form.scalar type)

/-- The form of a property by its declared type. -/
def readTyped (members : Members) (place : Pointer) : Outcome Form := do
  match ← declaredType members place with
  | .integer => readScalar members place .number
  | .long => readScalar members place .number
  | .float => readScalar members place .number
  | .double => readScalar members place .number
  | .number => do
      checkNumberFormat members place
      readScalar members place .number
  | .string => readScalar members place .string
  | .password => readScalar members place .string
  | .boolean => readScalar members place .boolean
  | .date => readScalar members place .date
  | .dateTime => readScalar members place .date
  | .array => (readItems members place).map Form.array
  | .object => (ObjectBody.read members place).map Form.object

/-- The form of a property without a block that takes precedence. -/
def readDeclared (dialect : Dialect) (members : Members) (place : Pointer) : Outcome Form := do
  match ← reference? dialect members place with
  | some reference => return .referring reference
  | none => readTyped members place

/-- **The form of the property at `place`.** -/
def read (dialect : Dialect) (members : Members) (place : Pointer) : Outcome Form := do
  match ← override? dialect members place with
  | some (.own block) => return .overridden block
  | some (.ofItems items _) => return .overriddenItems items
  | none => readDeclared dialect members place

/-! ### The parts of a form -/

/-- That the parts of a form stand in the members of its property. -/
def Within (dialect : Dialect) (members : Members) : Form → Prop
  | .overridden block => Entries.get? members dialect.directiveKey = some (.obj block)
  | .overriddenItems items => Entries.get? members "items" = some (.obj items)
  | .array items => Entries.get? members "items" = some items
  | .object body => Json.weightMembers body.properties < (Json.obj members).weight
  | .referring _ => True
  | .scalar _ _ => True

theorem within_of_readScalar {dialect : Dialect} {members : Members} {place : Pointer}
    {type : Primitive} {form : Form} (h : readScalar members place type = .ok form) :
    form.Within dialect members := by
  obtain ⟨values, _, h⟩ := Outcome.map_eq_ok_iff.1 h
  cases h
  trivial

theorem within_of_readTyped {dialect : Dialect} {members : Members} {place : Pointer}
    {form : Form} (h : readTyped members place = .ok form) : form.Within dialect members := by
  obtain ⟨type, _, h⟩ := Outcome.bind_eq_ok_iff.1 h
  cases type with
  | number =>
      obtain ⟨_, _, h⟩ := Outcome.bind_eq_ok_iff.1 h
      exact within_of_readScalar h
  | array =>
      obtain ⟨items, hitems, h⟩ := Outcome.map_eq_ok_iff.1 h
      cases h
      exact get?_of_readItems hitems
  | object =>
      obtain ⟨body, hbody, h⟩ := Outcome.map_eq_ok_iff.1 h
      cases h
      exact ObjectBody.weight_of_read hbody
  | _ => exact within_of_readScalar h

/-- **The parts of a form stand in the property.** -/
theorem within_of_read {dialect : Dialect} {members : Members} {place : Pointer} {form : Form}
    (h : read dialect members place = .ok form) : form.Within dialect members := by
  obtain ⟨found, hfound, h⟩ := Outcome.bind_eq_ok_iff.1 h
  rcases found with _ | block | ⟨items, block⟩
  · obtain ⟨reference, _, h⟩ := Outcome.bind_eq_ok_iff.1 h
    cases reference with
    | some reference =>
        cases h
        trivial
    | none => exact within_of_readTyped h
  · cases h
    exact override?_own hfound
  · cases h
    exact override?_ofItems hfound

end Form

end StoreSchema
