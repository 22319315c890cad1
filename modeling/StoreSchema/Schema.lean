/-
**Compiled schemas: bodies with their indexes and validators.**

A compiled schema is the body of a type with its options, its indexes and the module of validators
that the document names.  Binding validators only looks at the body: every validator that a
descriptor names has to be registered, and the first that is not, in the order in which descriptors
are met from the root down, ends compilation.  Binding an index always succeeds; a field that the
body does not have is worth a warning.

Main definitions:

* `CompiledSchema`, `CompiledSchema.toJson` — a schema, and its print;
* `Descriptor.bindings`, `SchemaTree.bindings` — the validators that a body names, and where;
* `bindValidators` — **that all of them are registered**;
* `CompiledSchema.bindIndexes` — the schema with further indexes, and the warnings.
-/

import StoreSchema.Descriptor
import StoreSchema.Index
import StoreSchema.Validator

set_option relaxedAutoImplicit false
set_option autoImplicit false

namespace StoreSchema

/-! ### Validators -/

/-- A validator that a descriptor names, and the place of the descriptor. -/
structure Binding where
  /-- The place of the descriptor. -/
  place : Pointer
  /-- The name of the validator. -/
  validator : String
deriving DecidableEq, Repr

namespace Descriptor

/-- The binding of the descriptor itself. -/
def ownBinding (place : Pointer) (descriptor : Descriptor) : List Binding :=
  descriptor.modifiers.validator.toList.map fun name => ⟨place, name⟩

mutual

/-- The bindings of the descriptor at `place` and of all descriptors in it, each before those in
it. -/
def bindings (place : Pointer) : Descriptor → List Binding
  | .scalar modifiers type values => ownBinding place (.scalar modifiers type values)
  | .reference modifiers target => ownBinding place (.reference modifiers target)
  | .embedded modifiers fields =>
      ownBinding place (.embedded modifiers fields) ++
        fieldBindings (place.child "properties") fields
  | .array modifiers item =>
      ownBinding place (.array modifiers item) ++ bindings (place.child "items") item

/-- The bindings of the fields below `place`, in order. -/
def fieldBindings (place : Pointer) : List (String × Descriptor) → List Binding
  | [] => []
  | (name, field) :: rest => bindings (place.child name) field ++ fieldBindings place rest

end

end Descriptor

/-- The bindings of a body at `place`, in order. -/
def SchemaTree.bindings (place : Pointer) : SchemaTree → List Binding
  | .fields named => Descriptor.fieldBindings (place.child "properties") named
  | .simple descriptor => descriptor.bindings place

/-- **Refuses a body that names a validator which is not registered.** -/
def bindValidators (tree : SchemaTree) (validators : Validators) (place : Pointer) :
    Outcome Unit :=
  match (tree.bindings place).find? fun binding =>
      !Entries.contains validators binding.validator with
  | none => .ok ()
  | some missing => .error (.validatorNotFound missing.place missing.validator)

/-! ### Schemas -/

/-- The compiled schema of one type. -/
structure CompiledSchema where
  /-- The name of the type. -/
  name : String
  /-- The body. -/
  tree : SchemaTree
  /-- The options of the schema. -/
  options : Members
  /-- The indexes of the schema. -/
  indexes : List IndexSpec
  /-- The module of validators that the document names. -/
  validatorModule : Option String

/-- A field of an index that the body does not have. -/
structure IndexWarning where
  /-- The name of the schema. -/
  schema : String
  /-- The dotted path of the field. -/
  field : String
deriving DecidableEq, Repr

namespace CompiledSchema

/-- A compiled schema in print. -/
def toJson (schema : CompiledSchema) : Json :=
  .obj ([("fields", schema.tree.toJson), ("options", .obj schema.options)] ++
    (if schema.indexes.isEmpty then []
      else [("indexes", .arr (schema.indexes.map IndexSpec.toJson))]) ++
    (match schema.validatorModule with
      | some name => [("validatorModule", .str name)]
      | none => []))

/-- The warnings that indexes give rise to, in order. -/
def indexWarnings (schema : CompiledSchema) (indexes : List IndexSpec) : List IndexWarning :=
  (indexes.flatMap IndexSpec.fieldNames).filterMap fun field =>
    if (schema.tree.fieldAt? field).isSome then none else some ⟨schema.name, field⟩

/-- The schema with further indexes, and the warnings that they give rise to. -/
def bindIndexes (schema : CompiledSchema) (indexes : List IndexSpec) :
    CompiledSchema × List IndexWarning :=
  ({ schema with indexes := schema.indexes ++ indexes }, schema.indexWarnings indexes)

end CompiledSchema

/-- Compiled schemas, in the order of their definitions. -/
abbrev Schemas := List CompiledSchema

namespace Schemas

/-- The names of the schemas. -/
def names (schemas : Schemas) : List String := schemas.map CompiledSchema.name

/-- The schema called `name`. -/
def get? (schemas : Schemas) (name : String) : Option CompiledSchema :=
  schemas.find? fun schema => schema.name == name

/-- Schemas in print, under their names. -/
def toJson (schemas : Schemas) : Json :=
  .obj (schemas.map fun schema => (schema.name, schema.toJson))

end Schemas

end StoreSchema
