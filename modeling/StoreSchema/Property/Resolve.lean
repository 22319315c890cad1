/-
**Resolving properties into descriptors.**

A property is resolved by its form: a block is worked into the property it stands on, items and
properties are resolved in turn, and a reference is left to the scope, which knows the definitions.
So the recursion of this module goes down the property alone, whatever the references in it lead
to; each step makes the property lighter.

Main definitions:

* `Linked` — what a reference yields for the field that refers;
* `Scope` — the dialect, the names a reference may lead to, and the way references are followed;
* `Scope.identifierTarget` — the type that an identifier belongs to;
* `resolveField`, `resolveProperties` — **the descriptor of a property, and of all properties**;
* `Scope.objectFields`, `Scope.tree` — the fields of an object, and the body of a definition.
-/

import StoreSchema.Catalog
import StoreSchema.Property.Form

set_option relaxedAutoImplicit false
set_option autoImplicit false

namespace StoreSchema

/-- What a reference yields for the field that refers. -/
inductive Linked where
  /-- A descriptor that an array field takes for its elements. -/
  | element (descriptor : Descriptor)
  /-- A descriptor that describes the field as it is. -/
  | whole (descriptor : Descriptor)

/-- The descriptor of the referring field, `wrap` telling whether it is an array. -/
def Linked.descriptor (wrap : Bool) : Linked → Descriptor
  | .element descriptor => descriptor.wrapped wrap
  | .whole descriptor => descriptor

/-- What resolving a property takes from its surroundings. -/
structure Scope where
  /-- The dialect of the document. -/
  dialect : Dialect
  /-- The name of the definition that a reference leads to. -/
  target? : String → Option String
  /-- What the reference at a place yields. -/
  follow : String → Pointer → Outcome Linked

namespace Scope

/-- The type that an identifier belongs to, for a property at `place` with the block `block`. -/
def identifierTarget (scope : Scope) (block members : Members) (place : Pointer) :
    Outcome (Option String) :=
  match identifierReference? scope.dialect block members with
  | none => .ok none
  | some reference =>
      match scope.target? reference with
      | some name => .ok (some name)
      | none => .error (.unresolvedReference place reference)

/-- The descriptor of a property that its block stores as an identifier. -/
def identifierField (scope : Scope) (block members : Members) (place : Pointer) :
    Outcome Descriptor :=
  (scope.identifierTarget block members place).map fun target =>
    (Descriptor.reference {} target).wrapped (isArrayProperty members)

end Scope

/-- Whether the field of the property at `place` is required: its block decides, and else the rule
of the object that lists it. -/
def fieldRequired (dialect : Dialect) (rule : Required) (name : String) (property : Json)
    (place : Pointer) : Outcome Bool := do
  match ← override? dialect property.members place with
  | none => return rule.appliesTo name
  | some found =>
      match Entries.get? found.block "required" with
      | none => return rule.appliesTo name
      | some .null => return rule.appliesTo name
      | some (.bool required) => return required
      | some other => throw (.wrongDirective (place.child "required") [.boolean] other)

/-! ### Properties -/

mutual

/-- **The descriptor of the property at `place`**, leaving open whether it is required. -/
def resolveField (scope : Scope) (property : Json) (place : Pointer) : Outcome Descriptor :=
  match property with
  | .obj members =>
      match _h : Form.read scope.dialect members place with
      | .error cause => .error cause
      | .ok (.overridden block) => do
          let validator ← validatorName? scope.dialect block place
          let field ←
            if storesIdentifier block then scope.identifierField block members place
            else
              resolveField scope
                (.obj (retyped scope.dialect.directiveKey validator block members)) place
          return decorate validator block field
      | .ok (.overriddenItems items) =>
          (resolveField scope (.obj items) (place.child "items")).map (Descriptor.array {})
      | .ok (.referring reference) =>
          (scope.follow reference place).map (Linked.descriptor (isArrayProperty members))
      | .ok (.scalar type values) => .ok (.scalar {} type values)
      | .ok (.array items) =>
          (resolveField scope items (place.child "items")).map (Descriptor.array {})
      | .ok (.object body) =>
          (resolveProperties scope body.required (place.child "properties") body.properties).map
            fun fields => .embedded {} (Entries.ofList fields)
  | other => .error (.wrongKind place [.object] other)
termination_by property.weight
decreasing_by
  · have hblock : Entries.get? members scope.dialect.directiveKey = some (.obj block) :=
      Form.within_of_read _h
    have := weightMembers_retyped hblock validator
    simp only [Json.weight]
    omega
  · have hitems : Entries.get? members "items" = some (.obj items) := Form.within_of_read _h
    have := Json.weight_of_get? hitems
    simp only [Json.weight] at this ⊢
    omega
  · have hitems : Entries.get? members "items" = some items := Form.within_of_read _h
    have := Json.weight_of_get? hitems
    simp only [Json.weight] at this ⊢
    omega
  · exact Form.within_of_read _h

/-- The descriptors of the properties below `place`, in order, without those whose names the store
keeps for itself. -/
def resolveProperties (scope : Scope) (rule : Required) (place : Pointer) (properties : Members) :
    Outcome (List (String × Descriptor)) :=
  match properties with
  | [] => .ok []
  | (name, property) :: rest =>
      if isReserved name then resolveProperties scope rule place rest
      else do
        let field ← resolveField scope property (place.child name)
        let required ← fieldRequired scope.dialect rule name property (place.child name)
        let others ← resolveProperties scope rule place rest
        return (name, field.setRequired required) :: others
termination_by Json.weightMembers properties
decreasing_by
  all_goals
    simp only [Json.weightMembers]
    omega

end

/-! ### Definitions -/

namespace Scope

/-- The fields of the object at `place`: those of its properties, then those of the additional
ones. -/
def objectFields (scope : Scope) (members additional : Members) (place : Pointer) :
    Outcome FieldMap := do
  let body ← ObjectBody.read members place
  let declared ← resolveProperties scope body.required (place.child "properties") body.properties
  let added ← resolveProperties scope body.required (place.child "additional-properties") additional
  return Entries.ofList (declared ++ added)

/-- Whether a definition describes an object: it has properties, or declares no other type. -/
def describesObject (members : Members) : Bool :=
  Entries.contains members "properties" ||
    match Entries.get? members "type" with
    | none => true
    | some .null => true
    | some type => type.asString? == some "object"

/-- The descriptor of a definition that is no object. -/
def wholeField (scope : Scope) (name : String) (members : Members) (place : Pointer) :
    Outcome Descriptor := do
  let bare := Entries.erase members scope.dialect.directiveKey
  let field ← resolveField scope (.obj bare) place
  let rule ← Required.read members place
  return field.setRequired (rule.appliesTo name)

/-- The body of the definition called `name`. -/
def tree (scope : Scope) (name : String) (type : TypeDefinition) : Outcome SchemaTree :=
  let place := Pointer.definition name
  if describesObject type.body then
    (scope.objectFields type.body type.directives.additional place).map SchemaTree.fields
  else (scope.wholeField name type.body place).map SchemaTree.simple

end Scope

end StoreSchema
