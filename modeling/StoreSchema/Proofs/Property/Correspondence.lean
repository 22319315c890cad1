/-
**Properties that correspond are resolved alike.**

What is read from a property on the spot are a few keywords and its block.  The rest is resolved in
turn: the items, the listed properties, and the property with its block worked in.  A relation
between objects that fixes what is read on the spot, and passes on to what is resolved in turn, is a
correspondence.  Whatever the relation is, properties that correspond have the same form with parts
that correspond, so the same descriptor comes out, or the same cause.

Main definitions:

* `Json.ObjectRel` — that two values are related objects, or one and the same other value;
* `ReadAlike` — that the same is read from two blocks;
* `Correspondence` — **that a relation fixes what is read and passes on to the parts**;
* `Override.Corresponds`, `Form.Corresponds` — that blocks in precedence, and forms, have parts that
  correspond.

Main results:

* `Correspondence.matched_form` — properties that correspond have forms that correspond;
* `Correspondence.resolveField_eq` — **properties that correspond are resolved alike**;
* `Correspondence.interchangeable` — definitions that correspond stand for one another;
* `Overlay.respects_of_properties` — when overlays respect a relation.
-/

import StoreSchema.Proofs.Interchange
import StoreSchema.Proofs.Property.Parts

set_option relaxedAutoImplicit false
set_option autoImplicit false

namespace StoreSchema

/-! ### Values side by side -/

/-- That two values are objects that are related, or one and the same value that is no object. -/
inductive Json.ObjectRel (related : Members → Members → Prop) : Json → Json → Prop where
  | object {members members' : Members} (h : related members members') :
      ObjectRel related (.obj members) (.obj members')
  | other (value : Json) (h : value.isObject = false) : ObjectRel related value value

namespace Json.ObjectRel

variable {related : Members → Members → Prop} {value value' : Json}

theorem of_eq (h : value = value') (hother : value.isObject = false) :
    ObjectRel related value value' := by
  subst h
  exact .other value hother

theorem mono {related' : Members → Members → Prop} (h : ObjectRel related value value')
    (hmore : ∀ members members', related members members' → related' members members') :
    ObjectRel related' value value' := by
  cases h with
  | object h => exact .object (hmore _ _ h)
  | other value h => exact .other value h

theorem isObject_eq (h : ObjectRel related value value') : value.isObject = value'.isObject := by
  cases h <;> rfl

/-- Related objects under the same key say the same where related members do. -/
theorem get?_members_eq (h : ObjectRel related value value') {key : String}
    (hkey : ∀ members members', related members members' →
      Entries.get? members key = Entries.get? members' key) :
    Entries.get? value.members key = Entries.get? value'.members key := by
  cases h with
  | object h => exact hkey _ _ h
  | other value h => rfl

end Json.ObjectRel

/-! ### Blocks side by side -/

/-- **That the same is read from two blocks** of a dialect. -/
structure ReadAlike (dialect : Dialect) (block block' : Members) : Prop where
  /-- Both take precedence, or neither. -/
  overrides : overrides block = overrides block'
  /-- They have the same type, and the same controls. -/
  word : ∀ key ∈ "type" :: controlKeys, Entries.get? block key = Entries.get? block' key
  /-- They carry the same reference, as far as the dialect knows any. -/
  reference : dialect.explicitReference? block = dialect.explicitReference? block'
  /-- They give the same attributes. -/
  attributes : attributes block = attributes block'

namespace ReadAlike

variable {dialect : Dialect} {block block' : Members} (h : ReadAlike dialect block block')
include h

theorem storesIdentifier_eq : storesIdentifier block = storesIdentifier block' := by
  rw [storesIdentifier, storesIdentifier, h.word "type" (by decide)]

theorem validatorName?_eq (place : Pointer) :
    validatorName? dialect block place = validatorName? dialect block' place := by
  rw [validatorName?, validatorName?, h.word "validator" (by decide)]

theorem decorate_eq (validator : Option String) (field : Descriptor) :
    decorate validator block field = decorate validator block' field := by
  rw [decorate, decorate, h.attributes]

end ReadAlike

/-! ### Correspondences -/

/-- The keywords whose values are read as they are. -/
def plainKeywords : List String := ["type", "format", "$ref", "enum", "required"]

/-- **That a relation between objects fixes what is read from a property, and passes on to what is
resolved in turn.** -/
structure Correspondence (dialect : Dialect) (related : Members → Members → Prop) : Prop where
  /-- Plain keywords have the same values. -/
  keyword : ∀ {left right : Members}, related left right → ∀ key ∈ plainKeywords,
    Entries.get? left key = Entries.get? right key
  /-- The items are related. -/
  items : ∀ {left right : Members}, related left right →
    Option.Rel (Json.ObjectRel related) (Entries.get? left "items") (Entries.get? right "items")
  /-- The listed properties are related one by one. -/
  properties : ∀ {left right : Members}, related left right →
    Option.Rel (Json.ObjectRel (Entries.Paired fun _ => Json.ObjectRel related))
      (Entries.get? left "properties") (Entries.get? right "properties")
  /-- The same is read from the blocks. -/
  block : ∀ {left right : Members}, related left right →
    Option.Rel (Json.ObjectRel (ReadAlike dialect)) (Entries.get? left dialect.directiveKey)
      (Entries.get? right dialect.directiveKey)
  /-- The objects are related without their blocks, -/
  bare : ∀ {left right : Members}, related left right →
    related (Entries.erase left dialect.directiveKey) (Entries.erase right dialect.directiveKey)
  /-- and with blocks in precedence worked in. -/
  workedIn : ∀ {left right block block' : Members} {place : Pointer} {validator : Option String},
    related left right → Entries.get? left dialect.directiveKey = some (.obj block) →
    Entries.get? right dialect.directiveKey = some (.obj block') → overrides block = true →
    storesIdentifier block = false → validatorName? dialect block place = .ok validator →
    related (retyped dialect.directiveKey validator block left)
      (retyped dialect.directiveKey validator block' right)

/-- That two blocks take precedence from which the same is read, be it on items that are related. -/
inductive Override.Corresponds (dialect : Dialect) (related : Members → Members → Prop) :
    Override → Override → Prop where
  | own {block block' : Members} (hblock : ReadAlike dialect block block')
      (hoverrides : overrides block = true) :
      Corresponds dialect related (.own block) (.own block')
  | ofItems {items items' block block' : Members} (hitems : related items items')
      (hblock : ReadAlike dialect block block') :
      Corresponds dialect related (.ofItems items block) (.ofItems items' block')

theorem Override.Corresponds.block_alike {dialect : Dialect} {related : Members → Members → Prop}
    {found found' : Override} (h : found.Corresponds dialect related found') :
    ReadAlike dialect found.block found'.block := by
  cases h with
  | own hblock hoverrides => exact hblock
  | ofItems hitems hblock => exact hblock

/-- That two objects require the same fields and list related properties. -/
structure ObjectBody.Corresponds (related : Members → Members → Prop)
    (body body' : ObjectBody) : Prop where
  /-- The required fields are the same. -/
  required : body.required = body'.required
  /-- The listed properties are related. -/
  properties : Entries.Paired (fun _ => Json.ObjectRel related) body.properties body'.properties

/-- **That two forms are the same with parts that are related.** -/
inductive Form.Corresponds (dialect : Dialect) (related : Members → Members → Prop) :
    Form → Form → Prop where
  | overridden {block block' : Members} (hblock : ReadAlike dialect block block')
      (hoverrides : overrides block = true) :
      Corresponds dialect related (.overridden block) (.overridden block')
  | overriddenItems {items items' : Members} (hitems : related items items') :
      Corresponds dialect related (.overriddenItems items) (.overriddenItems items')
  | referring (reference : String) :
      Corresponds dialect related (.referring reference) (.referring reference)
  | scalar (type : Primitive) (values : Option (List Json)) :
      Corresponds dialect related (.scalar type values) (.scalar type values)
  | array {items items' : Json} (hitems : Json.ObjectRel related items items') :
      Corresponds dialect related (.array items) (.array items')
  | object {body body' : ObjectBody} (hbody : body.Corresponds related body') :
      Corresponds dialect related (.object body) (.object body')

namespace Correspondence

variable {dialect : Dialect} {related : Members → Members → Prop} {left right : Members}
  (hcorresponds : Correspondence dialect related) (h : related left right)
include hcorresponds h

/-! ### What is read on the spot -/

theorem contains_properties_eq :
    Entries.contains left "properties" = Entries.contains right "properties" := by
  have hproperties := hcorresponds.properties h
  rw [Entries.contains, Entries.contains]
  generalize Entries.get? left "properties" = listed, Entries.get? right "properties" = listed'
    at hproperties ⊢
  cases hproperties <;> rfl

theorem isAlias_eq : isAlias left = isAlias right := by
  rw [isAlias, isAlias, hcorresponds.contains_properties_eq h,
    hcorresponds.keyword h "type" (by decide)]

theorem describesObject_eq : Scope.describesObject left = Scope.describesObject right := by
  rw [Scope.describesObject, Scope.describesObject, hcorresponds.contains_properties_eq h,
    hcorresponds.keyword h "type" (by decide)]

theorem isArrayProperty_eq : isArrayProperty left = isArrayProperty right := by
  rw [isArrayProperty, isArrayProperty, hcorresponds.keyword h "type" (by decide)]
  have hitems := hcorresponds.items h
  generalize Entries.get? left "items" = items, Entries.get? right "items" = items' at hitems ⊢
  cases hitems with
  | none => rfl
  | some hitems => rw [Option.map_some, Option.map_some, hitems.isObject_eq]

theorem required_read_eq (place : Pointer) :
    Required.read left place = Required.read right place := by
  rw [Required.read, Required.read, hcorresponds.keyword h "required" (by decide)]

theorem readScalar_eq (place : Pointer) (type : Primitive) :
    Form.readScalar left place type = Form.readScalar right place type := by
  rw [Form.readScalar, Form.readScalar, readValues, readValues,
    hcorresponds.keyword h "enum" (by decide)]

/-- Blocks are found alike, and the same is read from them. -/
theorem matched_directive? (place : Pointer) :
    Outcome.Matched (Option.Rel (ReadAlike dialect)) (dialect.directive? left place)
      (dialect.directive? right place) := by
  rw [Dialect.directive?, Dialect.directive?]
  have hblock := hcorresponds.block h
  generalize Entries.get? left dialect.directiveKey = block,
    Entries.get? right dialect.directiveKey = block' at hblock ⊢
  cases hblock with
  | none => exact .ok .none
  | @some value value' hblock =>
      cases hblock with
      | object hblock => exact .ok (.some hblock)
      | other _ hother =>
          cases value with
          | obj members => cases hother
          | _ => exact .error _

theorem matched_overridingBlock? (place : Pointer) :
    Outcome.Matched
      (Option.Rel fun block block' => ReadAlike dialect block block' ∧ overrides block = true)
      (overridingBlock? dialect left place) (overridingBlock? dialect right place) := by
  refine (hcorresponds.matched_directive? h place).map fun found found' hfound => ?_
  cases hfound with
  | none => exact .none
  | @some block block' hblock =>
      rw [Option.filter_some, Option.filter_some, ← hblock.overrides]
      split
      · next hoverrides => exact .some ⟨hblock, hoverrides⟩
      · exact .none

theorem ownReference?_eq (place : Pointer) :
    ownReference? dialect left place = ownReference? dialect right place := by
  have hdirective : (dialect.directive? left place).map
      (fun block => block.bind dialect.explicitReference?) =
        (dialect.directive? right place).map fun block =>
          block.bind dialect.explicitReference? := by
    refine (hcorresponds.matched_directive? h place).bind_eq fun found found' hfound => ?_
    cases hfound with
    | none => rfl
    | some hblock => exact congrArg Except.ok hblock.reference
  rw [ownReference?, ownReference?, hcorresponds.keyword h "$ref" (by decide), hdirective]

theorem reference?_eq (place : Pointer) :
    reference? dialect left place = reference? dialect right place := by
  rw [reference?, reference?, hcorresponds.ownReference?_eq h]
  congr 1
  funext own
  cases own with
  | some reference => rfl
  | none =>
      dsimp only
      have hitems := hcorresponds.items h
      generalize Entries.get? left "items" = items, Entries.get? right "items" = items'
        at hitems ⊢
      cases hitems with
      | none => rfl
      | some hitems =>
          cases hitems with
          | object hitems => exact hcorresponds.ownReference?_eq hitems _
          | other _ hother => rfl

theorem identifierReference?_eq {block block' : Members} (hblock : ReadAlike dialect block block') :
    identifierReference? dialect block left = identifierReference? dialect block' right := by
  have hitems : ((Entries.get? left "items").bind fun items =>
      (Entries.get? items.members "$ref").bind Json.asString?) =
        (Entries.get? right "items").bind fun items =>
          (Entries.get? items.members "$ref").bind Json.asString? := by
    have hitems := hcorresponds.items h
    generalize Entries.get? left "items" = items, Entries.get? right "items" = items'
      at hitems ⊢
    cases hitems with
    | none => rfl
    | some hitems =>
        have hreference := hitems.get?_members_eq fun _ _ hrelated =>
          hcorresponds.keyword hrelated "$ref" (by decide)
        rw [Option.bind_some, Option.bind_some, hreference]
  rw [identifierReference?, identifierReference?, hblock.word "include-ref" (by decide),
    hblock.reference, hcorresponds.keyword h "$ref" (by decide), hitems]

/-! ### Forms -/

theorem matched_itemsOverride? (place : Pointer) :
    Outcome.Matched (Option.Rel (Override.Corresponds dialect related))
      (itemsOverride? dialect left place) (itemsOverride? dialect right place) := by
  rw [itemsOverride?, itemsOverride?]
  have hitems := hcorresponds.items h
  generalize Entries.get? left "items" = items, Entries.get? right "items" = items' at hitems ⊢
  cases hitems with
  | none => exact .ok .none
  | @some value value' hitems =>
      cases hitems with
      | object hitems =>
          refine (hcorresponds.matched_overridingBlock? hitems _).map fun found found' hfound => ?_
          cases hfound with
          | none => exact .none
          | some hblock => exact .some (.ofItems hitems hblock.1)
      | other _ hother =>
          cases value with
          | obj members => cases hother
          | _ => exact .ok .none

/-- Blocks take precedence alike. -/
theorem matched_override? (place : Pointer) :
    Outcome.Matched (Option.Rel (Override.Corresponds dialect related))
      (override? dialect left place) (override? dialect right place) := by
  rw [override?, override?]
  refine (hcorresponds.matched_overridingBlock? h place).bind fun found found' hfound => ?_
  cases hfound with
  | none => exact hcorresponds.matched_itemsOverride? h place
  | some hblock => exact .ok (.some (.own hblock.1 hblock.2))

theorem matched_objectBody (place : Pointer) :
    Outcome.Matched (ObjectBody.Corresponds related) (ObjectBody.read left place)
      (ObjectBody.read right place) := by
  rw [ObjectBody.read, ObjectBody.read, hcorresponds.required_read_eq h]
  cases Required.read right place with
  | error cause => exact .error cause
  | ok required =>
      have hproperties : Outcome.Matched (Entries.Paired fun _ => Json.ObjectRel related)
          (ObjectBody.readProperties left place) (ObjectBody.readProperties right place) := by
        rw [ObjectBody.readProperties, ObjectBody.readProperties]
        have hlisted := hcorresponds.properties h
        generalize Entries.get? left "properties" = listed,
          Entries.get? right "properties" = listed' at hlisted ⊢
        cases hlisted with
        | none => exact .ok .nil
        | @some value value' hlisted =>
            cases hlisted with
            | object hlisted => exact .ok hlisted
            | other _ hother =>
                cases value with
                | obj members => cases hother
                | null => exact .ok .nil
                | _ => exact .error _
      exact hproperties.bind fun _ _ hlisted => .ok ⟨rfl, hlisted⟩

theorem matched_readItems (place : Pointer) :
    Outcome.Matched (Json.ObjectRel related) (readItems left place) (readItems right place) := by
  rw [readItems, readItems]
  have hitems := hcorresponds.items h
  generalize Entries.get? left "items" = items, Entries.get? right "items" = items' at hitems ⊢
  cases hitems with
  | none => exact .error _
  | @some value value' hitems =>
      cases hitems with
      | object hitems => exact .ok (.object hitems)
      | other _ hother =>
          cases value with
          | null => exact .error _
          | _ => exact .ok (.other _ hother)

theorem matched_readTyped (place : Pointer) :
    Outcome.Matched (Form.Corresponds dialect related) (Form.readTyped left place)
      (Form.readTyped right place) := by
  have hscalar (type : Primitive) : Outcome.Matched (Form.Corresponds dialect related)
      (Form.readScalar left place type) (Form.readScalar right place type) := by
    rw [hcorresponds.readScalar_eq h, Form.readScalar]
    cases readValues right place with
    | error cause => exact .error cause
    | ok values => exact .ok (.scalar type values)
  have hformat : checkNumberFormat left place = checkNumberFormat right place := by
    rw [checkNumberFormat, checkNumberFormat, hcorresponds.keyword h "format" (by decide)]
  have htype : declaredType left place = declaredType right place := by
    rw [declaredType, declaredType, hcorresponds.keyword h "type" (by decide)]
  rw [Form.readTyped, Form.readTyped, htype, hformat]
  cases declaredType right place with
  | error cause => exact .error cause
  | ok type =>
      cases type with
      | number =>
          change Outcome.Matched _ (checkNumberFormat right place >>= _)
            (checkNumberFormat right place >>= _)
          cases checkNumberFormat right place with
          | error cause => exact .error cause
          | ok _ => exact hscalar .number
      | array => exact (hcorresponds.matched_readItems h place).map fun _ _ hitems => .array hitems
      | object => exact (hcorresponds.matched_objectBody h place).map fun _ _ hbody => .object hbody
      | _ => exact hscalar _

/-- **Properties that correspond have forms that correspond.** -/
theorem matched_form (place : Pointer) :
    Outcome.Matched (Form.Corresponds dialect related) (Form.read dialect left place)
      (Form.read dialect right place) := by
  rw [Form.read, Form.read]
  refine (hcorresponds.matched_override? h place).bind fun found found' hfound => ?_
  cases hfound with
  | some hfound =>
      cases hfound with
      | own hblock hoverrides => exact .ok (.overridden hblock hoverrides)
      | ofItems hitems hblock => exact .ok (.overriddenItems hitems)
  | none =>
      change Outcome.Matched _ (Form.readDeclared dialect left place)
        (Form.readDeclared dialect right place)
      rw [Form.readDeclared, Form.readDeclared, hcorresponds.reference?_eq h]
      cases reference? dialect right place with
      | error cause => exact .error cause
      | ok reference =>
          cases reference with
          | some reference => exact .ok (.referring reference)
          | none => exact hcorresponds.matched_readTyped h place

end Correspondence

/-! ### Resolving -/

namespace Correspondence

variable {scope : Scope} {related : Members → Members → Prop}
  (hcorresponds : Correspondence scope.dialect related)
include hcorresponds

/-- Whether a field is required is read alike. -/
theorem fieldRequired_eq {property property' : Json} (h : Json.ObjectRel related property property')
    (rule : Required) (name : String) (place : Pointer) :
    fieldRequired scope.dialect rule name property place =
      fieldRequired scope.dialect rule name property' place := by
  cases h with
  | other value h => rfl
  | object h =>
      rw [fieldRequired, fieldRequired, Json.members_obj, Json.members_obj]
      refine (hcorresponds.matched_override? h place).bind_eq fun found found' hfound => ?_
      cases hfound with
      | none => rfl
      | some hfound =>
          dsimp only
          rw [hfound.block_alike.word "required" (by decide)]

/-- Listed properties are resolved alike when each of them is. -/
theorem resolveProperties_eq {properties properties' : Members}
    (h : Entries.Paired (fun _ => Json.ObjectRel related) properties properties')
    (hresolve : ∀ entry ∈ properties, ∀ property', Json.ObjectRel related entry.2 property' →
      ∀ place, resolveField scope entry.2 place = resolveField scope property' place)
    (rule : Required) (place : Pointer) :
    resolveProperties scope rule place properties =
      resolveProperties scope rule place properties' := by
  induction h with
  | nil => rfl
  | @cons name property property' rest rest' hproperty hrest ih =>
      rw [List.forall_mem_cons] at hresolve
      rw [resolveProperties_cons, resolveProperties_cons, ih hresolve.2, Scope.entry, Scope.entry,
        hresolve.1 property' hproperty, hcorresponds.fieldRequired_eq hproperty]

section Perform

variable {left right : Members} (h : related left right) {place : Pointer}
include h

/-- What a block builds on is the same when the properties with the blocks worked in are resolved
alike. -/
theorem overrideField_eq {block block' : Members}
    (hleft : Entries.get? left scope.dialect.directiveKey = some (.obj block))
    (hright : Entries.get? right scope.dialect.directiveKey = some (.obj block'))
    (hblock : ReadAlike scope.dialect block block') (hoverrides : overrides block = true)
    (hparts : ∀ validator,
      related (retyped scope.dialect.directiveKey validator block left)
        (retyped scope.dialect.directiveKey validator block' right) →
      resolveField scope (.obj (retyped scope.dialect.directiveKey validator block left)) place =
        resolveField scope (.obj (retyped scope.dialect.directiveKey validator block' right))
          place) :
    scope.overrideField block left place = scope.overrideField block' right place := by
  rw [Scope.overrideField, Scope.overrideField, ← hblock.validatorName?_eq]
  cases hvalidator : validatorName? scope.dialect block place with
  | error cause => rfl
  | ok validator =>
      have hbase : scope.baseField block left place validator =
          scope.baseField block' right place validator := by
        rw [Scope.baseField, Scope.baseField, ← hblock.storesIdentifier_eq]
        split
        · rw [Scope.identifierField, Scope.identifierField, Scope.identifierTarget,
            Scope.identifierTarget, hcorresponds.identifierReference?_eq h hblock,
            hcorresponds.isArrayProperty_eq h]
        · next hstores =>
            exact hparts validator (hcorresponds.workedIn h hleft hright hoverrides
              (eq_false_of_ne_true hstores) hvalidator)
      change scope.baseField block left place validator >>= _ =
        scope.baseField block' right place validator >>= _
      rw [hbase]
      congr 1
      funext field
      rw [hblock.decorate_eq]

/-- Forms that correspond yield the same when their parts do. -/
theorem perform_eq {form form' : Form} (hleft : Form.read scope.dialect left place = .ok form)
    (hright : Form.read scope.dialect right place = .ok form')
    (hform : form.Corresponds scope.dialect related form')
    (hparts : ∀ part, Form.Part scope.dialect left form part →
      ∀ part', Json.ObjectRel related part part' →
      ∀ inner, resolveField scope part inner = resolveField scope part' inner) :
    scope.perform left place form = scope.perform right place form' := by
  cases hform with
  | @overridden block block' hblock hoverrides =>
      have hwithin := Form.within_of_read hleft
      have hwithin' := Form.within_of_read hright
      exact hcorresponds.overrideField_eq h hwithin hwithin' hblock hoverrides
        fun validator hpart => hparts _ (.retyped block validator) _ (.object hpart) place
  | @overriddenItems items items' hitems =>
      rw [Scope.perform, Scope.perform, hparts _ (.overriddenItems items) _ (.object hitems)]
  | referring reference =>
      rw [Scope.perform, Scope.perform, hcorresponds.isArrayProperty_eq h]
  | scalar type values => rfl
  | @array items items' hitems =>
      rw [Scope.perform, Scope.perform, hparts _ (.items items) _ hitems]
  | @object body body' hbody =>
      have hproperties := hcorresponds.resolveProperties_eq hbody.properties
        fun entry hentry => hparts _ (.property body entry hentry)
      rw [Scope.perform, Scope.perform, ← hbody.required, hproperties]

end Perform

/-- **Properties that correspond are resolved alike**: into the same descriptor, or with the same
cause. -/
theorem resolveField_eq {property property' : Json} (h : Json.ObjectRel related property property')
    (place : Pointer) : resolveField scope property place = resolveField scope property' place := by
  -- the parts of both properties correspond in turn, also where a block is worked in
  induction property using Form.part_induction scope.dialect generalizing property' place with
  | other property hproperty =>
      cases h with
      | object h => cases hproperty
      | other value h => rfl
  | object members ih =>
      cases h with
      | other value h => rfl
      | @object _ members' h =>
          have hform := hcorresponds.matched_form h place
          rw [resolveField_obj, resolveField_obj]
          generalize hleft : Form.read scope.dialect members place = read,
            hright : Form.read scope.dialect members' place = read' at hform ⊢
          cases hform with
          | error cause => rfl
          | ok hform =>
              exact hcorresponds.perform_eq h hleft hright hform
                (fun part hpart part' hsame inner => ih place _ part hleft hpart hsame inner)

end Correspondence

/-! ### Definitions -/

/-- **Definitions that correspond stand for one another.** -/
theorem Correspondence.interchangeable {dialect : Dialect} {related : Members → Members → Prop}
    (hcorresponds : Correspondence dialect related) {left right : Members}
    (h : related left right) : Interchangeable dialect left right where
  isAlias := hcorresponds.isAlias_eq h
  whole := by
    rintro scope rfl place
    exact hcorresponds.resolveField_eq (.object (hcorresponds.bare h)) place
  tree := by
    rintro scope rfl name directives
    have hobject (additional : Members) (place : Pointer) :
        scope.objectFields left additional place = scope.objectFields right additional place := by
      refine (hcorresponds.matched_objectBody h place).bind_eq fun body body' hbody => ?_
      have hproperties := hcorresponds.resolveProperties_eq hbody.properties
        fun _ _ _ hproperty inner => hcorresponds.resolveField_eq hproperty inner
      rw [← hbody.required, hproperties]
    have hwhole (place : Pointer) :
        scope.wholeField name left place = scope.wholeField name right place := by
      rw [Scope.wholeField, Scope.wholeField, hcorresponds.required_read_eq h,
        hcorresponds.resolveField_eq (.object (hcorresponds.bare h))]
    rw [Scope.tree, Scope.tree, hcorresponds.describesObject_eq h, hobject, hwhole]

/-! ### Overlays -/

/-- **When overlays respect a relation**: it holds again after a merge into both blocks, it passes on
to the listed properties, and it holds again when related properties are listed instead. -/
theorem Overlay.respects_of_properties {key : String} {related : Members → Members → Prop}
    (hblock : ∀ directive left right, related left right →
      related (mergeBlock key directive left) (mergeBlock key directive right))
    (hproperties : ∀ left right, related left right →
      Option.Rel (Json.ObjectRel (Entries.Paired fun _ => Json.ObjectRel related))
        (Entries.get? left "properties") (Entries.get? right "properties"))
    (hinsert : ∀ left right listed listed', related left right →
      Entries.Paired (fun _ => Json.ObjectRel related) listed listed' →
      related (Entries.insert left "properties" (.obj listed))
        (Entries.insert right "properties" (.obj listed'))) : Respects key related := by
  intro directive fields left right h
  induction fields generalizing left right with
  | nil => exact .some (hblock directive left right h)
  | cons field rest ih =>
      rw [updateProperty, updateProperty]
      have hlisted := hproperties left right h
      generalize Entries.get? left "properties" = value, Entries.get? right "properties" = value'
        at hlisted ⊢
      cases hlisted with
      | none => exact .none
      | @some value value' hlisted =>
          cases hlisted with
          | other _ hother =>
              cases value with
              | obj members => cases hother
              | _ => exact .none
          | @object listed listed' hlisted =>
              dsimp only
              rcases hlisted.get? field with
                ⟨hleft, hright⟩ | ⟨property, property', hleft, hright, hproperty⟩
              · rw [hleft, hright]
                exact .none
              · rw [hleft, hright]
                cases hproperty with
                | other _ hother =>
                    cases property with
                    | obj members => cases hother
                    | _ => exact .none
                | object hfield =>
                    exact rel_map (ih _ _ hfield) fun changed changed' hchanged =>
                      hinsert _ _ _ _ h (hlisted.insert_of_related (.object hchanged))

end StoreSchema
