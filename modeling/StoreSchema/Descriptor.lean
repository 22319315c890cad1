/-
**Field descriptors: what a schema says about its fields.**

A descriptor says how a field is stored: as a scalar, as the identifier of another document, as an
embedded document with fields of its own, or as an array of such things.  Whatever its shape it also
says whether the field is required, which validator guards it, and which further attributes the
store is given.  A schema is either a list of named fields or, for a definition that is no object,
one descriptor.

Main definitions:

* `Modifiers`, `Descriptor` — what all descriptors say, and descriptors by shape;
* `FieldMap`, `SchemaTree` — named fields, and the body of a schema;
* `Descriptor.toJson`, `SchemaTree.toJson` — **descriptors in print**;
* `SchemaTree.fieldAt?` — the field a dotted path leads to.
-/

import StoreSchema.Json.Basic
import StoreSchema.Text.Segments
import StoreSchema.Vocabulary

set_option relaxedAutoImplicit false
set_option autoImplicit false

namespace StoreSchema

/-- What every descriptor says, whatever its shape. -/
structure Modifiers where
  /-- Whether the field must be present. -/
  required : Bool := false
  /-- The name of the validator that guards the field. -/
  validator : Option String := none
  /-- Further attributes of the field. -/
  attributes : Members := []
deriving DecidableEq

/-- How a field is stored. -/
inductive Descriptor where
  /-- A primitive, possibly one of the listed values only. -/
  | scalar (modifiers : Modifiers) (type : Primitive) (values : Option (List Json))
  /-- The identifier of another document, of the named type when there is one. -/
  | reference (modifiers : Modifiers) (target : Option String)
  /-- A document inside the document. -/
  | embedded (modifiers : Modifiers) (fields : List (String × Descriptor))
  /-- An array whose elements follow `item`. -/
  | array (modifiers : Modifiers) (item : Descriptor)

instance : Inhabited Descriptor := ⟨.reference {} none⟩

/-- Fields under their names, in order of first appearance. -/
abbrev FieldMap := Entries Descriptor

namespace Descriptor

/-! ### Modifiers -/

/-- What the descriptor says besides its shape. -/
def modifiers : Descriptor → Modifiers
  | .scalar modifiers _ _ => modifiers
  | .reference modifiers _ => modifiers
  | .embedded modifiers _ => modifiers
  | .array modifiers _ => modifiers

/-- The same shape with other modifiers. -/
def withModifiers (modifiers : Modifiers) : Descriptor → Descriptor
  | .scalar _ type values => .scalar modifiers type values
  | .reference _ target => .reference modifiers target
  | .embedded _ fields => .embedded modifiers fields
  | .array _ item => .array modifiers item

/-- The descriptor with the given answer to whether the field is required. -/
def setRequired (descriptor : Descriptor) (required : Bool) : Descriptor :=
  descriptor.withModifiers { descriptor.modifiers with required }

@[simp] theorem modifiers_withModifiers (descriptor : Descriptor) (modifiers : Modifiers) :
    (descriptor.withModifiers modifiers).modifiers = modifiers := by cases descriptor <;> rfl

@[simp] theorem withModifiers_modifiers (descriptor : Descriptor) :
    descriptor.withModifiers descriptor.modifiers = descriptor := by cases descriptor <;> rfl

@[simp] theorem withModifiers_withModifiers (descriptor : Descriptor) (first second : Modifiers) :
    (descriptor.withModifiers first).withModifiers second = descriptor.withModifiers second := by
  cases descriptor <;> rfl

@[simp] theorem modifiers_setRequired (descriptor : Descriptor) (required : Bool) :
    (descriptor.setRequired required).modifiers =
      { descriptor.modifiers with required } := by rw [setRequired, modifiers_withModifiers]

/-- A descriptor that is not required is the same after saying so again. -/
theorem setRequired_setRequired (descriptor : Descriptor) (first second : Bool) :
    (descriptor.setRequired first).setRequired second = descriptor.setRequired second := by
  rw [setRequired, modifiers_setRequired, setRequired, withModifiers_withModifiers, setRequired]

theorem setRequired_eq_self {descriptor : Descriptor} {required : Bool}
    (h : descriptor.modifiers.required = required) :
    descriptor.setRequired required = descriptor := by
  subst h
  exact withModifiers_modifiers descriptor

/-! ### Shapes -/

/-- Whether the field is stored as an identifier. -/
def isReference : Descriptor → Bool
  | .reference _ _ => true
  | _ => false

/-- The type of the document that an identifier belongs to. -/
def target? : Descriptor → Option String
  | .reference _ target => target
  | _ => none

/-- The descriptor of the elements of an array. -/
def item? : Descriptor → Option Descriptor
  | .array _ item => some item
  | _ => none

/-- The fields of an embedded document. -/
def fields? : Descriptor → Option FieldMap
  | .embedded _ fields => some fields
  | _ => none

/-- How a scalar is stored. -/
def primitive? : Descriptor → Option Primitive
  | .scalar _ type _ => some type
  | _ => none

/-- The values that a scalar is restricted to. -/
def values? : Descriptor → Option (List Json)
  | .scalar _ _ values => values
  | _ => none

/-- The array of elements like this descriptor, when `wrap` asks for it. -/
def wrapped (descriptor : Descriptor) (wrap : Bool) : Descriptor :=
  if wrap then .array {} descriptor else descriptor

/-! ### Print -/

/-- The members that the modifiers of a descriptor print. -/
def modifierMembers (modifiers : Modifiers) : Members :=
  (if modifiers.required then [("required", .bool true)] else []) ++
    (match modifiers.validator with
      | some name => [("validate", .str name)]
      | none => []) ++
    modifiers.attributes

mutual

/-- **A descriptor in print**: its shape, then its modifiers.  Attributes follow as they are, also
under a key that is already there. -/
def toJson : Descriptor → Json
  | .scalar modifiers type none => .obj (("type", .str type.name) :: modifierMembers modifiers)
  | .scalar modifiers type (some values) =>
      .obj (("type", .str type.name) :: ("enum", .arr values) :: modifierMembers modifiers)
  | .reference modifiers none =>
      .obj (("type", .str "ObjectId") :: ("identifierRef", .bool true) :: modifierMembers modifiers)
  | .reference modifiers (some target) =>
      .obj (("type", .str "ObjectId") :: ("identifierRef", .bool true) ::
        ("targetType", .str target) :: modifierMembers modifiers)
  | .embedded modifiers fields =>
      .obj (("type", .obj (fieldsToJson fields)) :: modifierMembers modifiers)
  | .array modifiers item => .obj (("type", .arr [toJson item]) :: modifierMembers modifiers)

/-- Named descriptors in print. -/
def fieldsToJson : List (String × Descriptor) → List (String × Json)
  | [] => []
  | (name, field) :: rest => (name, toJson field) :: fieldsToJson rest

end

/-- Named descriptors are printed one by one. -/
theorem fieldsToJson_eq_map (fields : List (String × Descriptor)) :
    fieldsToJson fields = fields.map fun entry => (entry.1, entry.2.toJson) := by
  induction fields with
  | nil => rfl
  | cons first rest ih => rw [fieldsToJson, ih, List.map_cons]

/-- The fields of the embedded document below any number of arrays. -/
def innerFields? : Descriptor → Option FieldMap
  | .array _ item => innerFields? item
  | .embedded _ fields => some fields
  | _ => none

/-- The field that further segments of a dotted path lead to. -/
def descend? : Descriptor → List String → Option Descriptor
  | descriptor, [] => some descriptor
  | descriptor, segment :: rest =>
      (descriptor.innerFields?.bind fun fields => Entries.get? fields segment).bind
        fun next => descend? next rest

end Descriptor

/-! ### Bodies of schemas -/

/-- The body of a schema. -/
inductive SchemaTree where
  /-- An object: one descriptor for each field. -/
  | fields (named : FieldMap)
  /-- A definition that is no object: one descriptor for the whole. -/
  | simple (descriptor : Descriptor)

namespace SchemaTree

/-- Whether the body is a single descriptor. -/
def isSimple : SchemaTree → Bool
  | .simple _ => true
  | .fields _ => false

/-- The field called `name`. -/
def field? : SchemaTree → String → Option Descriptor
  | .fields named, name => Entries.get? named name
  | .simple _, _ => none

/-- The body in print. -/
def toJson : SchemaTree → Json
  | .fields named => .obj (Descriptor.fieldsToJson named)
  | .simple descriptor => descriptor.toJson

/-- The field that a dotted path leads to, through embedded documents and arrays of them. -/
def fieldAt? (tree : SchemaTree) (path : String) : Option Descriptor :=
  match Text.dotted path with
  | [] => none
  | first :: rest => (tree.field? first).bind fun descriptor => descriptor.descend? rest

end SchemaTree

end StoreSchema
