/-
**Properties whose own block does not take precedence.**

Such a property is described by the block of its items, by its reference, or by the type that it
declares.  What describes it then is read from a few keywords, and comes without modifiers: these
are given by blocks in precedence only, and a definition that a reference leads to is resolved
without its block.

Main definitions:

* `SameDeclaration` — that two objects agree on all keywords of schemas but references.

Main results:

* `override?_eq_itemsOverride?`, `override?_eq_own` — which block takes precedence;
* `modifiers_of_resolveField`, `Catalog.modifiers_of_follow` — **without a block in precedence a
  descriptor has no modifiers**;
* `SameDeclaration.resolveField_eq` — **properties that declare the same are resolved alike**
  without a block of their own.
-/

import StoreSchema.Proofs.Annotations.SameSchema
import StoreSchema.Proofs.Property.Parts

set_option relaxedAutoImplicit false
set_option autoImplicit false

namespace StoreSchema

/-! ### Blocks in precedence -/

section Unblocked

variable {dialect : Dialect} {members left right : Members} {place : Pointer}

/-- A property whose own block does not take precedence leaves it to the block of its items. -/
theorem override?_eq_itemsOverride? (h : overridingBlock? dialect members place = .ok none) :
    override? dialect members place = itemsOverride? dialect members place := by
  rw [override?, h]
  rfl

theorem override?_eq_own {block : Members}
    (h : overridingBlock? dialect members place = .ok (some block)) :
    override? dialect members place = .ok (some (.own block)) := by
  rw [override?, h]
  rfl

/-- No property is resolved by a block of its own that does not take precedence. -/
theorem Form.ne_overridden_of_read {form : Form}
    (hread : Form.read dialect members place = .ok form)
    (h : overridingBlock? dialect members place = .ok none) (block : Members) :
    form ≠ .overridden block := by
  rintro rfl
  rcases Form.read_cases hread with ⟨own, hown, _⟩ | ⟨_, _, _, h⟩ | ⟨_, _, h⟩ | htyped
  · rw [override?_eq_itemsOverride? h] at hown
    obtain ⟨_, _, heq, _⟩ := itemsOverride?_eq_some hown
    cases heq
  · cases h
  · cases h
  · rcases Form.readTyped_cases htyped with ⟨_, _, _, h⟩ | ⟨_, _, h⟩ | ⟨_, _, h⟩ <;> cases h

/-- **Without a block in precedence a descriptor has no modifiers**, when what references yield has
none. -/
theorem modifiers_of_resolveField {scope : Scope}
    (hfollow : ∀ reference place linked, scope.follow reference place = .ok linked →
      ∀ wrap, (linked.descriptor wrap).modifiers = {})
    (h : overridingBlock? scope.dialect members place = .ok none) {field : Descriptor}
    (hfield : resolveField scope (.obj members) place = .ok field) : field.modifiers = {} := by
  rw [resolveField_obj] at hfield
  obtain ⟨form, hread, hfield⟩ := Outcome.bind_eq_ok_iff.1 hfield
  cases form with
  | overridden block => exact absurd rfl (Form.ne_overridden_of_read hread h block)
  | overriddenItems items =>
      obtain ⟨item, _, rfl⟩ := Outcome.map_eq_ok_iff.1 hfield
      rfl
  | referring reference =>
      obtain ⟨linked, hlinked, rfl⟩ := Outcome.map_eq_ok_iff.1 hfield
      exact hfollow reference place linked hlinked _
  | scalar type values =>
      cases hfield
      rfl
  | array items =>
      obtain ⟨item, _, rfl⟩ := Outcome.map_eq_ok_iff.1 hfield
      rfl
  | object body =>
      obtain ⟨fields, _, rfl⟩ := Outcome.map_eq_ok_iff.1 hfield
      rfl

theorem overridingBlock?_erase (dialect : Dialect) (members : Members) (place : Pointer) :
    overridingBlock? dialect (Entries.erase members dialect.directiveKey) place = .ok none := by
  rw [overridingBlock?, Dialect.directive?, Entries.get?_erase_self]
  rfl

/-- A descriptor without modifiers has none as the element of an array, or by itself. -/
theorem Descriptor.modifiers_wrapped {descriptor : Descriptor} (h : descriptor.modifiers = {})
    (wrap : Bool) : (descriptor.wrapped wrap).modifiers = {} := by
  rw [wrapped]
  split
  · rfl
  · exact h

/-- What a reference yields has no modifiers: definitions are resolved without their blocks. -/
theorem Catalog.modifiers_of_follow (catalog : Catalog) (stack : List String) (reference : String)
    (place : Pointer) : ∀ linked, catalog.follow stack reference place = .ok linked →
      ∀ wrap, (linked.descriptor wrap).modifiers = {} := by
  induction stack, reference, place using follow_induction catalog with
  | unresolved stack reference place hfind =>
      intro linked h
      cases h
  | cyclic stack reference place name type hfind hmem =>
      intro linked h
      cases h
      exact Descriptor.modifiers_wrapped rfl
  | entered stack reference place name type hfind hmem ih =>
      have hbare {place : Pointer} {field : Descriptor}
          (h : resolveField (catalog.scope (name :: stack))
            (.obj (Entries.erase type.body catalog.dialect.directiveKey)) place = .ok field) :
          field.modifiers = {} :=
        modifiers_of_resolveField ih (overridingBlock?_erase catalog.dialect type.body place) h
      intro linked h
      rw [enter] at h
      split at h
      · obtain ⟨field, hfield, rfl⟩ := Outcome.map_eq_ok_iff.1 h
        exact Descriptor.modifiers_wrapped (hbare hfield)
      · obtain ⟨tree, htree, rfl⟩ := Outcome.map_eq_ok_iff.1 h
        cases tree with
        | fields named => exact Descriptor.modifiers_wrapped rfl
        | simple descriptor =>
            intro wrap
            rw [Scope.tree] at htree
            split at htree
            · obtain ⟨_, _, heq⟩ := Outcome.map_eq_ok_iff.1 htree
              cases heq
            · obtain ⟨found, hfound, heq⟩ := Outcome.map_eq_ok_iff.1 htree
              cases heq
              obtain ⟨field, hfield, hfound⟩ := Outcome.bind_eq_ok_iff.1 hfound
              obtain ⟨rule, _, hfound⟩ := Outcome.bind_eq_ok_iff.1 hfound
              cases hfound
              rw [SchemaTree.linked, Linked.descriptor, Descriptor.setRequired_setRequired,
                Descriptor.modifiers_setRequired, hbare hfield]

/-- That two objects declare the same: they agree on all keywords of schemas but references. -/
def SameDeclaration (left right : Members) : Prop :=
  ∀ key ∈ schemaKeywords, key ≠ "$ref" → Entries.get? left key = Entries.get? right key

namespace SameDeclaration

variable (h : SameDeclaration left right)
include h

theorem isArrayProperty_eq : isArrayProperty left = isArrayProperty right := by
  rw [isArrayProperty, isArrayProperty, h "type" (by decide) (by decide),
    h "items" (by decide) (by decide)]

theorem itemsOverride?_eq (dialect : Dialect) (place : Pointer) :
    itemsOverride? dialect left place = itemsOverride? dialect right place := by
  rw [itemsOverride?, itemsOverride?, h "items" (by decide) (by decide)]

theorem readTyped_eq (place : Pointer) :
    Form.readTyped left place = Form.readTyped right place := by
  have hscalar : Form.readScalar left place = Form.readScalar right place := by
    funext type
    rw [Form.readScalar, Form.readScalar, readValues, readValues,
      h "enum" (by decide) (by decide)]
  have hobject : ObjectBody.read left place = ObjectBody.read right place := by
    rw [ObjectBody.read, ObjectBody.read, Required.read, Required.read,
      ObjectBody.readProperties, ObjectBody.readProperties, h "required" (by decide) (by decide),
      h "properties" (by decide) (by decide)]
  have hitems : readItems left place = readItems right place := by
    rw [readItems, readItems, h "items" (by decide) (by decide)]
  have hformat : checkNumberFormat left place = checkNumberFormat right place := by
    rw [checkNumberFormat, checkNumberFormat, h "format" (by decide) (by decide)]
  have htype : declaredType left place = declaredType right place := by
    rw [declaredType, declaredType, h "type" (by decide) (by decide)]
  rw [Form.readTyped, Form.readTyped, htype, hscalar, hobject, hitems, hformat]

/-- **Properties that declare the same are resolved alike** without a block of their own, as long as
they have the same reference where it counts. -/
theorem resolveField_eq {scope : Scope}
    (hleft : overridingBlock? scope.dialect left place = .ok none)
    (hright : overridingBlock? scope.dialect right place = .ok none)
    (hreference : itemsOverride? scope.dialect right place = .ok none →
      reference? scope.dialect left place = reference? scope.dialect right place) :
    resolveField scope (.obj left) place = resolveField scope (.obj right) place := by
  have hread : Form.read scope.dialect left place = Form.read scope.dialect right place := by
    rw [Form.read, Form.read, override?_eq_itemsOverride? hleft,
      override?_eq_itemsOverride? hright, h.itemsOverride?_eq]
    cases hitems : itemsOverride? scope.dialect right place with
    | error cause => rfl
    | ok found =>
        cases found with
        | some found => cases found <;> rfl
        | none =>
            change Form.readDeclared _ _ _ = Form.readDeclared _ _ _
            rw [Form.readDeclared, Form.readDeclared, hreference hitems, h.readTyped_eq]
  rw [resolveField_obj, resolveField_obj, hread]
  cases hform : Form.read scope.dialect right place with
  | error cause => rfl
  | ok form =>
      cases form with
      | overridden block => exact absurd rfl (Form.ne_overridden_of_read hform hright block)
      | referring reference =>
          change (scope.follow reference place).map _ = (scope.follow reference place).map _
          rw [h.isArrayProperty_eq]
      | _ => rfl

end SameDeclaration

end Unblocked

end StoreSchema
