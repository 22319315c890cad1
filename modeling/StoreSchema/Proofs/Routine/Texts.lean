/-
**The routines of compilation.**

This module writes compilation down as routines over one shared stack.  A definition is put on the
stack while its body is compiled, and so is a scalar under another name while it is resolved for a
reference; a reference looks at the stack to tell whether its definition is being compiled already.
Beside the text of every call stands what the functions of compilation make of it.

Main definitions:

* `Catalog.routine` — **the text of every call**;
* `Catalog.typesText` — the text of compiling all types;
* `Catalog.answer` — what the functions of compilation yield for a call, with the stack as the
  definitions being compiled.
-/

import StoreSchema.Proofs.Property.Parts
import StoreSchema.Proofs.Routine.Script

set_option relaxedAutoImplicit false
set_option autoImplicit false

namespace StoreSchema

namespace Script

/-- The fields of listed properties, one call for each. -/
def fields (rule : Required) (place : Pointer) : Members → Script (List (String × Descriptor))
  | [] => return []
  | (name, property) :: rest => do
      let first ← perform (.property rule name property (place.child name))
      let others ← fields rule place rest
      return first.elim others fun field => (name, field) :: others

end Script

namespace Catalog

open Script

variable (catalog : Catalog)

/-- Compiles the body of a definition. -/
def treeText (name : String) (type : TypeDefinition) : Script SchemaTree :=
  let place := Pointer.definition name
  if Scope.describesObject type.body then do
    let fields ← perform (.object type.body type.directives.additional place)
    return .fields fields
  else do
    let bare := Entries.erase type.body catalog.dialect.directiveKey
    let field ← perform (.field (.obj bare) place)
    let rule ← lift (Required.read type.body place)
    return .simple (field.setRequired (rule.appliesTo name))

/-- Compiles the fields of an object. -/
def objectText (members additional : Members) (place : Pointer) : Script FieldMap := do
  let body ← lift (ObjectBody.read members place)
  let declared ← fields body.required (place.child "properties") body.properties
  let added ← fields body.required (place.child "additional-properties") additional
  return Entries.ofList (declared ++ added)

/-- Resolves a listed property, unless the store keeps its name. -/
def propertyText (rule : Required) (name : String) (property : Json) (place : Pointer) :
    Script (Option Descriptor) :=
  if isReserved name then return none
  else do
    let field ← perform (.field property place)
    let required ← lift (fieldRequired catalog.dialect rule name property place)
    return some (field.setRequired required)

/-- Resolves a property by its block, that of its items, its reference or its declared type. -/
def fieldText (property : Json) (place : Pointer) : Script Descriptor :=
  match property with
  | .obj members => do
      match ← lift (override? catalog.dialect members place) with
      | some (.own block) => perform (.override block members place)
      | some (.ofItems items block) =>
          let item ← perform (.override block items (place.child "items"))
          return .array {} item
      | none =>
          match ← lift (reference? catalog.dialect members place) with
          | some reference => perform (.reference members reference place)
          | none => perform (.typed members place)
  | other => lift (.error (.wrongKind place [.object] other))

/-- Follows a reference, unless its definition is being compiled. -/
def referenceText (members : Members) (reference : String) (place : Pointer) :
    Script Descriptor :=
  match catalog.find? reference with
  | none => lift (.error (.unresolvedReference place reference))
  | some (name, type) => .inspect fun stack =>
      if name ∈ stack then
        return (Descriptor.reference {} (some name)).wrapped (isArrayProperty members)
      else if isAlias type.body then do
        let bare := Entries.erase type.body catalog.dialect.directiveKey
        let field ← under name (.field (.obj bare) (Pointer.definition name))
        return field.wrapped (isArrayProperty members)
      else do
        let tree ← perform (.definition name type)
        return tree.linked.descriptor (isArrayProperty members)

/-- The scalar of a type. -/
def scalarText (members : Members) (place : Pointer) (type : Primitive) : Script Descriptor := do
  let values ← lift (readValues members place)
  return .scalar {} type values

/-- Resolves a property by its declared type. -/
def typedText (members : Members) (place : Pointer) : Script Descriptor := do
  match ← lift (declaredType members place) with
  | .integer => scalarText members place .number
  | .long => scalarText members place .number
  | .float => scalarText members place .number
  | .double => scalarText members place .number
  | .number => do
      lift (checkNumberFormat members place)
      scalarText members place .number
  | .string => scalarText members place .string
  | .password => scalarText members place .string
  | .boolean => scalarText members place .boolean
  | .date => scalarText members place .date
  | .dateTime => scalarText members place .date
  | .array => do
      let items ← lift (readItems members place)
      let item ← perform (.field items (place.child "items"))
      return .array {} item
  | .object => do
      let fields ← perform (.object members [] place)
      return .embedded {} fields

/-- Stores a property as an identifier, or resolves it with its block worked in. -/
def baseText (block members : Members) (place : Pointer) (validator : Option String) :
    Script Descriptor :=
  if storesIdentifier block then lift ((catalog.scope []).identifierField block members place)
  else perform (.field (.obj (retyped catalog.dialect.directiveKey validator block members)) place)

/-- Resolves a property by its block, and decorates the field. -/
def overrideText (block members : Members) (place : Pointer) : Script Descriptor := do
  let validator ← lift (validatorName? catalog.dialect block place)
  let field ← catalog.baseText block members place validator
  return decorate validator block field

/-- **The text of every call.** -/
def routine : (c : Call) → Script c.Result
  | .definition name type => under name (.tree name type)
  | .tree name type => catalog.treeText name type
  | .object members additional place => objectText members additional place
  | .property rule name property place => catalog.propertyText rule name property place
  | .field property place => catalog.fieldText property place
  | .reference members reference place => catalog.referenceText members reference place
  | .typed members place => typedText members place
  | .override block members place => catalog.overrideText block members place

/-- Compiles the given types, excluded ones left out, and binds them. -/
def typesText (validators : Validators) : Entries TypeDefinition → Script Compilation
  | [] => return ⟨[], []⟩
  | (name, type) :: rest =>
      if type.directives.exclude then typesText validators rest
      else do
        let tree ← perform (.definition name type)
        let (schema, warnings) ← lift (bindType name tree type.directives validators)
        let others ← typesText validators rest
        return ⟨schema :: others.schemas, warnings ++ others.warnings⟩

/-- What the functions of compilation yield for a call. -/
def answer : (c : Call) → List String → Outcome c.Result
  | .definition name type, stack => catalog.compileDefinition stack name type
  | .tree name type, stack => (catalog.scope stack).tree name type
  | .object members additional place, stack =>
      (catalog.scope stack).objectFields members additional place
  | .property rule name property place, stack =>
      (catalog.scope stack).entry rule name property place
  | .field property place, stack => resolveField (catalog.scope stack) property place
  | .reference members reference place, stack =>
      (catalog.follow stack reference place).map (Linked.descriptor (isArrayProperty members))
  | .typed members place, stack =>
      Form.readTyped members place >>= (catalog.scope stack).perform members place
  | .override block members place, stack =>
      (catalog.scope stack).overrideField block members place

end Catalog

end StoreSchema
