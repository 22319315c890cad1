/-
**Attributes that make a block take precedence.**

A block that is absent, or carries a reference and nothing else, does not take precedence.  Merging
attributes into it changes that.  From then on the block of the items no longer decides whether the
field is required, and the reference in the block is worked into the property, where it replaces the
reference that stands there.  So attributes alone can change what a field is.  They do not when the
property is settled: when it has the same answers with its block in precedence or without.

Main definitions:

* `BlockProper`, `Settled` — that a property has a proper block, and that it is settled;
* `Scope.OnlyAdds` — that a directive does nothing but give its attributes to a field.

Main results:

* `marker_cases` — a block that does not take precedence is empty, or carries a reference alone;
* `Scope.overrideField_of_marker` — such a block, taken as if it did, is worked into the property;
* `BlockProper.resolveField_retyped` — **that changes nothing when the reference counts anyway**;
* `Catalog.entry_mergeBlock` — **what attributes do to a field** that is settled, and to one that is
  not.
-/

import StoreSchema.Proofs.Attributes.Merging
import StoreSchema.Proofs.Property.Plain
import StoreSchema.Proofs.Property.Unblocked

set_option relaxedAutoImplicit false
set_option autoImplicit false

namespace StoreSchema

/-! ### Blocks before and after the merge -/

/-- A property whose own block is absent or an object that repeats no name. -/
structure BlockProper (dialect : Dialect) (members : Members) : Prop where
  /-- What stands under the key of blocks is an object. -/
  isObject : ∀ value, Entries.get? members dialect.directiveKey = some value →
    value.isObject = true
  /-- No name is repeated in it. -/
  distinct : (Entries.keys (ownBlock dialect.directiveKey members)).Nodup

section Merged

variable {dialect : Dialect} {directive members : Members} {place : Pointer}

/-- A block that is absent or an object takes precedence when it does more than carry a
reference. -/
theorem overridingBlock?_eq
    (hblock : ∀ value, Entries.get? members dialect.directiveKey = some value →
      value.isObject = true) :
    overridingBlock? dialect members place =
      .ok ((some (ownBlock dialect.directiveKey members)).filter overrides) := by
  rw [overridingBlock?, Dialect.directive?, ownBlock]
  cases hget : Entries.get? members dialect.directiveKey with
  | none => rfl
  | some value =>
      rw [Json.isObject_iff.1 (hblock value hget)]
      rfl

theorem Dialect.explicitReference?_eq_none {block : Members}
    (h : Entries.get? block "$ref" = none) : dialect.explicitReference? block = none := by
  cases dialect with
  | legacy => rfl
  | extended =>
      rw [explicitReference?, h]
      rfl

theorem Dialect.explicitReference?_of_extended {block : Members} {reference : String}
    (hdialect : dialect = .extended) (h : Entries.get? block "$ref" = some (.str reference)) :
    dialect.explicitReference? block = some reference := by
  rw [hdialect, explicitReference?, h]
  rfl

/-- Where a property carries no reference itself, that of its block counts. -/
theorem ownReference?_eq_explicit
    (hblock : ∀ value, Entries.get? members dialect.directiveKey = some value →
      value.isObject = true) (hreference : Entries.get? members "$ref" = none) :
    ownReference? dialect members place =
      .ok (dialect.explicitReference? (ownBlock dialect.directiveKey members)) := by
  rw [ownReference?, hreference]
  dsimp only
  rw [Dialect.directive?, ownBlock]
  cases hget : Entries.get? members dialect.directiveKey with
  | none => cases dialect <;> rfl
  | some value =>
      rw [Json.isObject_iff.1 (hblock value hget)]
      rfl

theorem ownBlock_mergeBlock (key : String) (directive members : Members) :
    ownBlock key (Overlay.mergeBlock key directive members) =
      Json.merge (ownBlock key members) directive := by
  rw [ownBlock, get?_mergeBlock_self]
  rfl

theorem overridingBlock?_mergeBlock (directive members : Members) :
    overridingBlock? dialect (Overlay.mergeBlock dialect.directiveKey directive members) place =
      .ok ((some (Json.merge (ownBlock dialect.directiveKey members) directive)).filter
        overrides) := by
  rw [overridingBlock?_eq, ownBlock_mergeBlock]
  intro value hvalue
  rw [get?_mergeBlock_self] at hvalue
  cases hvalue
  rfl

/-- A block that gives attributes takes precedence. -/
theorem AttributeOnly.overrides_merge (h : AttributeOnly dialect directive) (hne : directive ≠ [])
    (block : Members) : overrides (Json.merge block directive) = true := by
  cases directive with
  | nil => exact absurd rfl hne
  | cons first rest =>
      obtain ⟨name, value⟩ := first
      have hlisted : name ∈ Entries.keys ((name, value) :: rest) := List.mem_cons_self ..
      have hget := Json.get?_merge h.distinct block name
      rw [Entries.get?_cons, if_pos rfl, Option.map_some, Option.some_or] at hget
      have hname : name ≠ "$ref" := by
        rintro rfl
        exact h.word _ hlisted (by decide)
      exact List.any_eq_true.2 ⟨_, Entries.mem_of_get? hget, bne_iff_ne.2 hname⟩

theorem AttributeOnly.overridingBlock?_mergeBlock (h : AttributeOnly dialect directive)
    (hne : directive ≠ []) (members : Members) (place : Pointer) :
    overridingBlock? dialect (Overlay.mergeBlock dialect.directiveKey directive members) place =
      .ok (some (Json.merge (ownBlock dialect.directiveKey members) directive)) := by
  rw [StoreSchema.overridingBlock?_mergeBlock, Option.filter_some, if_pos (h.overrides_merge hne _)]

/-- A block that does not take precedence is empty, or carries a reference and nothing else. -/
theorem marker_cases {block : Members} (h : overrides block = false)
    (hdistinct : (Entries.keys block).Nodup) : block = [] ∨ ∃ value, block = [("$ref", value)] := by
  rw [overrides, List.any_eq_false] at h
  match block with
  | [] => exact .inl rfl
  | [(name, value)] =>
      have hname : name = "$ref" := by simpa using h (name, value) (by simp)
      exact .inr ⟨value, by rw [hname]⟩
  | (name, value) :: (other, value') :: rest =>
      have hname : name = "$ref" := by simpa using h (name, value) (by simp)
      have hother : other = "$ref" := by simpa using h (other, value') (by simp)
      simp [Entries.keys, hname, hother] at hdistinct

section Marker

variable {block : Members} (hmarker : overrides block = false)
  (hdistinct : (Entries.keys block).Nodup)
include hmarker hdistinct

/-- What stands in a property after a block that does not take precedence is worked in. -/
theorem get?_retyped_of_marker (members : Members) (key : String) :
    Entries.get? (retyped dialect.directiveKey none block members) key =
      (Entries.get? block key).or
        (Entries.get? (Entries.erase members dialect.directiveKey) key) := by
  have hfilter : (block.filter fun member => !controlKeys.contains member.1) = block := by
    rcases marker_cases hmarker hdistinct with rfl | ⟨value, rfl⟩ <;> rfl
  rw [retyped, Option.isSome_none, if_neg (by decide), hfilter, Entries.get?_insertAll hdistinct]

theorem get?_marker_eq_none {key : String} (hkey : key ≠ "$ref") :
    Entries.get? block key = none := by
  rcases marker_cases hmarker hdistinct with rfl | ⟨value, rfl⟩
  · rfl
  · exact if_neg hkey.symm

theorem get?_directiveKey_retyped_of_marker (dialect : Dialect) (members : Members) :
    Entries.get? (retyped dialect.directiveKey none block members) dialect.directiveKey = none := by
  have hkey : dialect.directiveKey ≠ "$ref" :=
    (dialect.ne_directiveKey (by decide) (by decide)).symm
  rw [get?_retyped_of_marker hmarker hdistinct, get?_marker_eq_none hmarker hdistinct hkey,
    Entries.get?_erase_self]
  rfl

theorem overridingBlock?_retyped_of_marker (dialect : Dialect) (members : Members)
    (place : Pointer) :
    overridingBlock? dialect (retyped dialect.directiveKey none block members) place =
      .ok none := by
  rw [overridingBlock?, directive?_of_get?_eq_none
    (get?_directiveKey_retyped_of_marker hmarker hdistinct dialect members)]
  rfl

/-- Nothing but its reference is worked into a property from such a block. -/
theorem sameDeclaration_retyped (dialect : Dialect) (members : Members) :
    SameDeclaration (retyped dialect.directiveKey none block members) members := by
  intro key hkey hreference
  have hne : key ≠ dialect.directiveKey := by
    rintro rfl
    cases dialect <;> revert hkey <;> decide
  rw [get?_retyped_of_marker hmarker hdistinct, get?_marker_eq_none hmarker hdistinct hreference,
    Option.none_or, Entries.get?_erase_of_ne hne]

/-- **A block that does not take precedence, taken as if it did**, is worked into the property and
adds nothing more. -/
theorem Scope.overrideField_of_marker {scope : Scope}
    (hfollow : ∀ reference place linked, scope.follow reference place = .ok linked →
      ∀ wrap, (linked.descriptor wrap).modifiers = {})
    (members : Members) (place : Pointer) :
    scope.overrideField block members place =
      resolveField scope (.obj (retyped scope.dialect.directiveKey none block members)) place := by
  have hstores : storesIdentifier block = false := by
    rw [storesIdentifier, get?_marker_eq_none hmarker hdistinct (by decide)]
    rfl
  have hattributes : attributes block = [] := by
    rcases marker_cases hmarker hdistinct with rfl | ⟨value, rfl⟩ <;> rfl
  rw [overrideField, validatorName?, get?_marker_eq_none hmarker hdistinct (by decide)]
  change scope.baseField block members place none >>= _ = _
  rw [baseField, hstores, if_neg (by decide)]
  cases hfield : resolveField scope
      (.obj (retyped scope.dialect.directiveKey none block members)) place with
  | error cause => rfl
  | ok field =>
      have hmodifiers := modifiers_of_resolveField hfollow
        (overridingBlock?_retyped_of_marker hmarker hdistinct scope.dialect members place) hfield
      have hself := field.withModifiers_modifiers
      rw [hmodifiers] at hself
      have hsame : decorate none block field = field := by
        rw [decorate, hattributes, Entries.insertAll_nil, hmodifiers]
        exact hself
      exact congrArg Except.ok hsame

end Marker

end Merged

/-! ### Fields before and after the merge -/

/-- **That a property has the same answers with its block in precedence or without**: the block of
the items does not say whether the field is required, and unless that block takes precedence the
property has the reference of its own block anyway. -/
structure Settled (dialect : Dialect) (members : Members) (place : Pointer) : Prop where
  /-- The block of the items leaves open whether the field is required. -/
  required : ∀ found, itemsOverride? dialect members place = .ok (some found) →
    Entries.get? found.block "required" = none ∨
      Entries.get? found.block "required" = some .null
  /-- The reference of the block is that of the property, or counts as such. -/
  reference : itemsOverride? dialect members place = .ok none → ∀ value,
    Entries.get? (ownBlock dialect.directiveKey members) "$ref" = some value →
      ∃ reference, value = .str reference ∧
        (Entries.get? members "$ref" = some value ∨
          dialect = .extended ∧ Entries.get? members "$ref" = none)

namespace Scope

variable {scope : Scope} {directive members : Members} {place : Pointer}
  (hfollow : ∀ reference place linked, scope.follow reference place = .ok linked →
    ∀ wrap, (linked.descriptor wrap).modifiers = {})
  (h : AttributeOnly scope.dialect directive) (hmembers : BlockProper scope.dialect members)

/-- A property is resolved by its block when that takes precedence. -/
theorem resolveField_of_overridingBlock? {block : Members}
    (hblock : overridingBlock? scope.dialect members place = .ok (some block)) :
    resolveField scope (.obj members) place = scope.overrideField block members place := by
  have hread : Form.read scope.dialect members place = .ok (.overridden block) := by
    rw [Form.read, override?_eq_own hblock]
    rfl
  exact resolveField_of_read hread

/-- A block in precedence that leaves open whether its field is required leaves it to the rule. -/
theorem fieldRequired_of_override? {dialect : Dialect} {found : Override}
    (hoverride : override? dialect members place = .ok (some found))
    (hrequired : Entries.get? found.block "required" = none ∨
      Entries.get? found.block "required" = some .null) (rule : Required) (name : String) :
    fieldRequired dialect rule name (.obj members) place = .ok (rule.appliesTo name) := by
  rw [fieldRequired, Json.members_obj, hoverride]
  dsimp only [bind, Except.bind]
  rcases hrequired with hget | hget <;> rw [hget] <;> rfl

theorem fieldRequired_of_override?_eq_none {dialect : Dialect}
    (hoverride : override? dialect members place = .ok none) (rule : Required) (name : String) :
    fieldRequired dialect rule name (.obj members) place = .ok (rule.appliesTo name) := by
  rw [fieldRequired, Json.members_obj, hoverride]
  rfl

/-- Two properties whose blocks say the same about it are required alike. -/
theorem fieldRequired_eq {dialect : Dialect} {left right block block' : Members}
    (hleft : override? dialect left place = .ok (some (.own block)))
    (hright : override? dialect right place = .ok (some (.own block')))
    (hrequired : Entries.get? block "required" = Entries.get? block' "required")
    (rule : Required) (name : String) :
    fieldRequired dialect rule name (.obj left) place =
      fieldRequired dialect rule name (.obj right) place := by
  rw [fieldRequired, fieldRequired, Json.members_obj, Json.members_obj, hleft, hright]
  dsimp only [bind, Except.bind, Override.block]
  rw [hrequired]

/-- The field of a property that is required alike is the field with further attributes when the
descriptor is. -/
theorem entry_eq_map {rule : Required} {name : String} {property property' : Json}
    {added : Members}
    (hfield : resolveField scope property' place =
      (resolveField scope property place).map (Descriptor.addAttributes added))
    (hrequired : ∀ field, resolveField scope property place = .ok field →
      fieldRequired scope.dialect rule name property' place =
        fieldRequired scope.dialect rule name property place) :
    scope.entry rule name property' place =
      (scope.entry rule name property place).map (Option.map (Descriptor.addAttributes added)) := by
  rw [entry, entry, hfield]
  split
  · rfl
  · cases hresolve : resolveField scope property place with
    | error cause => rfl
    | ok field =>
        change fieldRequired scope.dialect rule name property' place >>= _ =
          (fieldRequired scope.dialect rule name property place >>= _).map _
        rw [hrequired field hresolve]
        cases fieldRequired scope.dialect rule name property place with
        | error cause => rfl
        | ok required =>
            exact congrArg (fun field => Except.ok (some field))
              (field.setRequired_addAttributes added required)

include h hmembers

/-- **A block that takes precedence keeps it**, and the field is the same but for the attributes. -/
theorem entry_mergeBlock_of_overrides
    (hoverrides : overrides (ownBlock scope.dialect.directiveKey members) = true)
    (rule : Required) (name : String) :
    scope.entry rule name
        (.obj (Overlay.mergeBlock scope.dialect.directiveKey directive members)) place =
      (scope.entry rule name (.obj members) place).map (Option.map (Descriptor.addAttributes
        (laidOver (ownBlock scope.dialect.directiveKey members) directive))) := by
  have hmerged : overrides
      (Json.merge (ownBlock scope.dialect.directiveKey members) directive) = true := by
    by_cases hne : directive = []
    · rw [hne, Json.merge]
      exact hoverrides
    · exact h.overrides_merge hne _
  have hbefore : overridingBlock? scope.dialect members place =
      .ok (some (ownBlock scope.dialect.directiveKey members)) := by
    rw [overridingBlock?_eq hmembers.isObject, Option.filter_some, if_pos hoverrides]
  have hafter : overridingBlock? scope.dialect
      (Overlay.mergeBlock scope.dialect.directiveKey directive members) place =
        .ok (some (Json.merge (ownBlock scope.dialect.directiveKey members) directive)) := by
    rw [overridingBlock?_mergeBlock, Option.filter_some, if_pos hmerged]
  refine entry_eq_map ?_ fun _ _ => ?_
  · rw [resolveField_of_overridingBlock? hbefore, resolveField_of_overridingBlock? hafter]
    exact overrideField_mergeBlock h hmembers.distinct rfl place
  · exact fieldRequired_eq (override?_eq_own hafter) (override?_eq_own hbefore)
      (h.get?_merge_eq (.inr (by decide)) _) rule name

section Marker

variable (hmarker : overrides (ownBlock scope.dialect.directiveKey members) = false)
include hmarker

/-- Where attributes make a block take precedence the rule alone says whether the field is
required, -/
theorem fieldRequired_mergeBlock_of_marker (hne : directive ≠ []) (rule : Required)
    (name : String) :
    fieldRequired scope.dialect rule name
        (.obj (Overlay.mergeBlock scope.dialect.directiveKey directive members)) place =
      .ok (rule.appliesTo name) := by
  refine fieldRequired_of_override?
    (override?_eq_own (h.overridingBlock?_mergeBlock hne members place)) (.inl ?_) rule name
  exact (h.get?_merge_eq (.inr (by decide)) _).trans
    (get?_marker_eq_none hmarker hmembers.distinct (by decide))

include hfollow

/-- and what the block carried is worked into the property. -/
theorem resolveField_mergeBlock_of_marker (hne : directive ≠ []) :
    resolveField scope
        (.obj (Overlay.mergeBlock scope.dialect.directiveKey directive members)) place =
      (resolveField scope (.obj (retyped scope.dialect.directiveKey none
        (ownBlock scope.dialect.directiveKey members) members)) place).map
          (Descriptor.addAttributes
            (laidOver (ownBlock scope.dialect.directiveKey members) directive)) := by
  rw [resolveField_of_overridingBlock? (h.overridingBlock?_mergeBlock hne members place),
    overrideField_mergeBlock h hmembers.distinct rfl,
    overrideField_of_marker hmarker hmembers.distinct hfollow]

end Marker

end Scope

section Settled

variable {scope : Scope} {directive members : Members} {place : Pointer}
  (hmembers : BlockProper scope.dialect members)
  (hmarker : overrides (ownBlock scope.dialect.directiveKey members) = false)
include hmembers hmarker

theorem BlockProper.overridingBlock?_eq_none :
    overridingBlock? scope.dialect members place = .ok none := by
  rw [overridingBlock?_eq hmembers.isObject, Option.filter_some, hmarker, if_neg (by decide)]

/-- The reference that a property carries is the same when its block is worked in, if that agrees or
counts anyway. -/
theorem BlockProper.ownReference?_retyped (place : Pointer)
    (hreference : ∀ value,
      Entries.get? (ownBlock scope.dialect.directiveKey members) "$ref" = some value →
        ∃ reference, value = .str reference ∧
          (Entries.get? members "$ref" = some value ∨
            scope.dialect = .extended ∧ Entries.get? members "$ref" = none)) :
    ownReference? scope.dialect (retyped scope.dialect.directiveKey none
        (ownBlock scope.dialect.directiveKey members) members) place =
      ownReference? scope.dialect members place := by
  have hget : Entries.get? (retyped scope.dialect.directiveKey none
      (ownBlock scope.dialect.directiveKey members) members) "$ref" =
        (Entries.get? (ownBlock scope.dialect.directiveKey members) "$ref").or
          (Entries.get? members "$ref") := by
    have hkey : "$ref" ≠ scope.dialect.directiveKey :=
      scope.dialect.ne_directiveKey (by decide) (by decide)
    rw [get?_retyped_of_marker hmarker hmembers.distinct, Entries.get?_erase_of_ne hkey]
  cases hblock : Entries.get? (ownBlock scope.dialect.directiveKey members) "$ref" with
  | none =>
      rw [hblock, Option.none_or] at hget
      cases hown : Entries.get? members "$ref" with
      | some value => rw [ownReference?_of_get? (hget.trans hown), ownReference?_of_get? hown]
      | none =>
          have hfree := get?_directiveKey_retyped_of_marker hmarker hmembers.distinct
            scope.dialect members
          rw [ownReference?_of_get?_eq_none hfree (hget.trans hown),
            ownReference?_eq_explicit hmembers.isObject hown,
            Dialect.explicitReference?_eq_none hblock]
  | some value =>
      obtain ⟨reference, rfl, hcounts⟩ := hreference value hblock
      rw [hblock, Option.some_or] at hget
      rw [ownReference?_of_get? hget]
      rcases hcounts with hown | ⟨hextended, hown⟩
      · rw [ownReference?_of_get? hown]
      · rw [ownReference?_eq_explicit hmembers.isObject hown,
          Dialect.explicitReference?_of_extended hextended hblock]
        rfl

/-- **Working in a block that does not take precedence changes nothing** when the reference that it
carries counts anyway, or does not count at all. -/
theorem BlockProper.resolveField_retyped (place : Pointer)
    (hreference : itemsOverride? scope.dialect members place = .ok none → ∀ value,
      Entries.get? (ownBlock scope.dialect.directiveKey members) "$ref" = some value →
        ∃ reference, value = .str reference ∧
          (Entries.get? members "$ref" = some value ∨
            scope.dialect = .extended ∧ Entries.get? members "$ref" = none)) :
    resolveField scope (.obj (retyped scope.dialect.directiveKey none
        (ownBlock scope.dialect.directiveKey members) members)) place =
      resolveField scope (.obj members) place := by
  have hdeclaration := sameDeclaration_retyped hmarker hmembers.distinct scope.dialect members
  refine hdeclaration.resolveField_eq
    (overridingBlock?_retyped_of_marker hmarker hmembers.distinct scope.dialect members place)
    (hmembers.overridingBlock?_eq_none hmarker) fun hitems => ?_
  have hown := hmembers.ownReference?_retyped hmarker place (hreference hitems)
  rw [reference?, reference?, hown, hdeclaration "items" (by decide) (by decide)]

end Settled

namespace Scope

section Main

variable {scope : Scope} {directive members : Members} {place : Pointer}
  (hfollow : ∀ reference place linked, scope.follow reference place = .ok linked →
    ∀ wrap, (linked.descriptor wrap).modifiers = {})
  (h : AttributeOnly scope.dialect directive) (hmembers : BlockProper scope.dialect members)
include hfollow h hmembers

/-- **Where a property is settled**, attributes that make its block take precedence change nothing
but the attributes. -/
theorem entry_mergeBlock_of_settled
    (hmarker : overrides (ownBlock scope.dialect.directiveKey members) = false)
    (hne : directive ≠ []) (hsettled : Settled scope.dialect members place) (rule : Required)
    (name : String) :
    scope.entry rule name
        (.obj (Overlay.mergeBlock scope.dialect.directiveKey directive members)) place =
      (scope.entry rule name (.obj members) place).map (Option.map (Descriptor.addAttributes
        (laidOver (ownBlock scope.dialect.directiveKey members) directive))) := by
  refine entry_eq_map ?_ fun field hfield => ?_
  · rw [resolveField_mergeBlock_of_marker hfollow h hmembers hmarker hne,
      hmembers.resolveField_retyped hmarker place hsettled.reference]
  · rw [fieldRequired_mergeBlock_of_marker h hmembers hmarker hne]
    have hoverride : override? scope.dialect members place =
        itemsOverride? scope.dialect members place :=
      override?_eq_itemsOverride? (hmembers.overridingBlock?_eq_none hmarker)
    cases hitems : itemsOverride? scope.dialect members place with
    | error cause =>
        -- a property with such items has no descriptor
        rw [resolveField_obj, Form.read, hoverride, hitems] at hfield
        cases hfield
    | ok found =>
        rw [hitems] at hoverride
        cases found with
        | none => rw [fieldRequired_of_override?_eq_none hoverride]
        | some found =>
            rw [fieldRequired_of_override? hoverride (hsettled.required found hitems)]

omit hfollow h in
/-- An empty block is as good as none. -/
theorem entry_of_ownBlock_eq_nil (hempty : ownBlock scope.dialect.directiveKey members = [])
    (rule : Required) (name : String) :
    scope.entry rule name (.obj members) place =
      scope.entry rule name (.obj (Entries.erase members scope.dialect.directiveKey)) place := by
  have hmarker : overrides (ownBlock scope.dialect.directiveKey members) = false := by
    rw [hempty]
    rfl
  have hfield := hmembers.resolveField_retyped hmarker place (by simp [hempty])
  have hrequired : override? scope.dialect members place =
      override? scope.dialect (Entries.erase members scope.dialect.directiveKey) place := by
    rw [override?_eq_itemsOverride? (hmembers.overridingBlock?_eq_none hmarker),
      override?_eq_itemsOverride? (overridingBlock?_erase scope.dialect members place),
      itemsOverride?, itemsOverride?,
      Entries.get?_erase_of_ne (scope.dialect.ne_directiveKey (by decide) (by decide))]
  rw [hempty, retyped] at hfield
  rw [entry, entry, ← hfield, fieldRequired, fieldRequired, Json.members_obj, Json.members_obj,
    hrequired]
  rfl

omit hfollow h in
/-- Merging nothing into a block leaves the field as it is. -/
theorem entry_mergeBlock_nil (rule : Required) (name : String) :
    scope.entry rule name
        (.obj (Overlay.mergeBlock scope.dialect.directiveKey [] members)) place =
      scope.entry rule name (.obj members) place := by
  cases hget : Entries.get? members scope.dialect.directiveKey with
  | some value =>
      have hsame : Overlay.mergeBlock scope.dialect.directiveKey [] members = members := by
        refine Entries.insert_eq_self ?_
        rw [hget, Json.merge, Option.map_some, Option.getD_some,
          ← Json.isObject_iff.1 (hmembers.isObject value hget)]
      rw [hsame]
  | none =>
      have hempty : ownBlock scope.dialect.directiveKey members = [] := by
        rw [ownBlock, hget]
        rfl
      have hempty' : ownBlock scope.dialect.directiveKey
          (Overlay.mergeBlock scope.dialect.directiveKey [] members) = [] := by
        rw [ownBlock_mergeBlock, hempty, Json.merge]
      have hmembers' : BlockProper scope.dialect
          (Overlay.mergeBlock scope.dialect.directiveKey [] members) := by
        refine ⟨fun value hvalue => ?_, by rw [hempty']; exact List.nodup_nil⟩
        rw [get?_mergeBlock_self] at hvalue
        cases hvalue
        rfl
      rw [entry_of_ownBlock_eq_nil hmembers hempty, entry_of_ownBlock_eq_nil hmembers' hempty',
        erase_mergeBlock]

/-- Where the block of the items took precedence it still describes the field, but the rule says
whether that is required. -/
theorem entry_mergeBlock_of_items
    (hmarker : overrides (ownBlock scope.dialect.directiveKey members) = false)
    (hne : directive ≠ []) {found : Override}
    (hitems : itemsOverride? scope.dialect members place = .ok (some found)) (rule : Required)
    (name : String) :
    scope.entry rule name
        (.obj (Overlay.mergeBlock scope.dialect.directiveKey directive members)) place =
      if isReserved name then .ok none
      else (resolveField scope (.obj members) place).map fun field =>
        some ((field.setRequired (rule.appliesTo name)).addAttributes
          (laidOver (ownBlock scope.dialect.directiveKey members) directive)) := by
  have hreference : resolveField scope (.obj (retyped scope.dialect.directiveKey none
      (ownBlock scope.dialect.directiveKey members) members)) place =
        resolveField scope (.obj members) place := by
    refine hmembers.resolveField_retyped hmarker place fun hnone => ?_
    rw [hitems] at hnone
    cases hnone
  rw [entry, fieldRequired_mergeBlock_of_marker h hmembers hmarker hne,
    resolveField_mergeBlock_of_marker hfollow h hmembers hmarker hne, hreference]
  split
  · rfl
  · cases resolveField scope (.obj members) place with
    | error cause => rfl
    | ok field =>
        exact congrArg (fun field => Except.ok (some field))
          (field.setRequired_addAttributes _ (rule.appliesTo name))

/-- Where it did not, the field is that of the property with the reference of its block worked
in. -/
theorem entry_mergeBlock_of_marker
    (hmarker : overrides (ownBlock scope.dialect.directiveKey members) = false)
    (hne : directive ≠ [])
    (hitems : itemsOverride? scope.dialect members place = .ok none) (rule : Required)
    (name : String) :
    scope.entry rule name
        (.obj (Overlay.mergeBlock scope.dialect.directiveKey directive members)) place =
      (scope.entry rule name (.obj (retyped scope.dialect.directiveKey none
          (ownBlock scope.dialect.directiveKey members) members)) place).map
        (Option.map (Descriptor.addAttributes
          (laidOver (ownBlock scope.dialect.directiveKey members) directive))) := by
  refine entry_eq_map (resolveField_mergeBlock_of_marker hfollow h hmembers hmarker hne)
    fun _ _ => ?_
  have hdeclaration := sameDeclaration_retyped hmarker hmembers.distinct scope.dialect members
  have hoverride := override?_eq_itemsOverride?
    (overridingBlock?_retyped_of_marker hmarker hmembers.distinct scope.dialect members place)
  rw [hdeclaration.itemsOverride?_eq, hitems] at hoverride
  rw [fieldRequired_mergeBlock_of_marker h hmembers hmarker hne,
    fieldRequired_of_override?_eq_none hoverride]

end Main

/-- That a field comes out the same with a directive merged into the block of its property, but for
the attributes that the directive gives. -/
def OnlyAdds (scope : Scope) (rule : Required) (name : String) (directive members : Members)
    (place : Pointer) : Prop :=
  scope.entry rule name
      (.obj (Overlay.mergeBlock scope.dialect.directiveKey directive members)) place =
    (scope.entry rule name (.obj members) place).map (Option.map (Descriptor.addAttributes
      (laidOver (ownBlock scope.dialect.directiveKey members) directive)))

end Scope

/-- **What attributes do to a field.**  A directive that gives attributes only is merged into the
block of a property.  Unless that makes the block take precedence the field is the same but for the
attributes, and so it is where the property is settled.  Otherwise, when the block of the items took
precedence, the rule now says whether the field is required; and in an extended document the
reference of the block counts as if it stood in the property. -/
theorem Catalog.entry_mergeBlock (catalog : Catalog) (stack : List String)
    {directive members : Members} (h : AttributeOnly catalog.dialect directive)
    (hmembers : BlockProper catalog.dialect members) (rule : Required) (name : String)
    (place : Pointer) :
    (directive = [] ∨ overrides (ownBlock catalog.dialect.directiveKey members) = true ∨
        Settled catalog.dialect members place →
      (catalog.scope stack).OnlyAdds rule name directive members place) ∧
    (directive ≠ [] → overrides (ownBlock catalog.dialect.directiveKey members) = false →
      (∀ found, itemsOverride? catalog.dialect members place = .ok (some found) →
        (catalog.scope stack).entry rule name
            (.obj (Overlay.mergeBlock catalog.dialect.directiveKey directive members)) place =
          if isReserved name then .ok none
          else (resolveField (catalog.scope stack) (.obj members) place).map fun field =>
            some ((field.setRequired (rule.appliesTo name)).addAttributes
              (laidOver (ownBlock catalog.dialect.directiveKey members) directive))) ∧
      (catalog.dialect = .extended →
        itemsOverride? catalog.dialect members place = .ok none →
          (catalog.scope stack).entry rule name
              (.obj (Overlay.mergeBlock catalog.dialect.directiveKey directive members)) place =
            ((catalog.scope stack).entry rule name (.obj (retyped catalog.dialect.directiveKey none
                (ownBlock catalog.dialect.directiveKey members) members)) place).map
              (Option.map (Descriptor.addAttributes
                (laidOver (ownBlock catalog.dialect.directiveKey members) directive))))) := by
  have hfollow := catalog.modifiers_of_follow stack
  refine ⟨fun hkept => ?_, fun hne hmarker => ⟨fun found hitems => ?_, fun _ hitems => ?_⟩⟩
  · rw [Scope.OnlyAdds]
    by_cases hne : directive = []
    · subst hne
      have hid : Descriptor.addAttributes [] = id := funext Descriptor.addAttributes_nil
      rw [Scope.entry_mergeBlock_nil hmembers, laidOver, List.map_nil, hid, Option.map_id]
      cases (catalog.scope stack).entry rule name (.obj members) place <;> rfl
    · by_cases hoverrides : overrides (ownBlock catalog.dialect.directiveKey members) = true
      · exact Scope.entry_mergeBlock_of_overrides h hmembers hoverrides rule name
      · have hsettled : Settled catalog.dialect members place :=
          (hkept.resolve_left hne).resolve_left hoverrides
        exact Scope.entry_mergeBlock_of_settled hfollow h hmembers
          (eq_false_of_ne_true hoverrides) hne hsettled rule name
  · exact Scope.entry_mergeBlock_of_items hfollow h hmembers hmarker hne hitems rule name
  · exact Scope.entry_mergeBlock_of_marker hfollow h hmembers hmarker hne hitems rule name

/-- Two definitions that are scalars under other names. -/
def labelCatalog : Catalog where
  dialect := .extended
  types :=
    [("Tag", ⟨[("type", .str "string")], {}⟩), ("Weight", ⟨[("type", .str "number")], {}⟩)]

/-- The field that a property makes, among such definitions. -/
def labelField? (members : Members) : Option Descriptor :=
  ((labelCatalog.scope []).entry (.all false) "label" (.obj members) "").toOption.join

theorem labelField?_of_entry {members : Members} {outcome : Outcome (Option Descriptor)}
    (h : (labelCatalog.scope []).entry (.all false) "label" (.obj members) "" = outcome) :
    labelField? members = outcome.toOption.join := by rw [labelField?, h]

/-- A directive that gives one attribute, -/
def sparseDirective : Members := [("sparse", .bool true)]

/-- and a property with that directive merged into its block. -/
def sparse (members : Members) : Members :=
  Overlay.mergeBlock "x-swagger-mongoose" sparseDirective members

theorem attributeOnly_sparseDirective : AttributeOnly labelCatalog.dialect sparseDirective := by
  constructor <;>
    simp [sparseDirective, propertyKeywords, controlKeys, Dialect.directiveKey, labelCatalog]

/-- Tags, each of which is required by the block of the items. -/
def requiredTags : Members :=
  [("type", .str "array"),
    ("items", .obj
      [("type", .str "string"), ("x-swagger-mongoose", .obj [("required", .bool true)])])]

/-- A tag whose block has another reference than the property. -/
def relabelledTag : Members :=
  [("$ref", .str "#/definitions/Tag"),
    ("x-swagger-mongoose", .obj [("$ref", .str "#/definitions/Weight")])]

/-- With an attribute more, tags are no longer required, and a tag becomes a weight. -/
theorem sparse_changes_fields :
    AttributeOnly labelCatalog.dialect sparseDirective ∧
      ((labelField? requiredTags).map fun field => field.modifiers.required) = some true ∧
      ((labelField? (sparse requiredTags)).map fun field => field.modifiers.required) =
        some false ∧
      ((labelField? relabelledTag).bind Descriptor.primitive?) = some .string ∧
      ((labelField? (sparse relabelledTag)).bind Descriptor.primitive?) = some .number := by
  refine ⟨attributeOnly_sparseDirective, ?_, ?_, ?_, ?_⟩ <;> decide +kernel

/-- A tag that is unique by its block. -/
def uniqueTag : Members :=
  [("$ref", .str "#/definitions/Tag"), ("x-swagger-mongoose", .obj [("unique", .bool true)])]

/-- A tag by the reference of its block alone. -/
def markedTag : Members :=
  [("x-swagger-mongoose", .obj [("$ref", .str "#/definitions/Tag")])]

theorem blockProper_labels : BlockProper labelCatalog.dialect uniqueTag ∧
    BlockProper labelCatalog.dialect markedTag ∧ BlockProper labelCatalog.dialect requiredTags ∧
    BlockProper labelCatalog.dialect relabelledTag := by
  refine ⟨⟨?_, by decide⟩, ⟨?_, by decide⟩, ⟨?_, by decide⟩, ⟨?_, by decide⟩⟩ <;>
    rintro value ⟨⟩ <;> rfl

theorem settled_markedTag : Settled labelCatalog.dialect markedTag "" where
  required := nofun
  reference := by
    rintro _ value ⟨⟩
    exact ⟨"#/definitions/Tag", rfl, .inr ⟨rfl, rfl⟩⟩

/-- A unique tag only becomes sparse in addition, and so does one that is settled; tags that their
items require become sparse and are left to the rule; and the weight that the block of a tag refers
to becomes sparse. -/
theorem sparse_labels :
    (labelField? (sparse uniqueTag)).map Descriptor.toJson =
        some (.obj [("type", .str "String"), ("unique", .bool true), ("sparse", .bool true)]) ∧
      (labelField? (sparse markedTag)).map Descriptor.toJson =
        some (.obj [("type", .str "String"), ("sparse", .bool true)]) ∧
      (labelField? (sparse requiredTags)).map Descriptor.toJson =
        some (.obj [("type", .arr [.obj [("type", .str "String")]]), ("sparse", .bool true)]) ∧
      (labelField? (sparse relabelledTag)).map Descriptor.toJson =
        some (.obj [("type", .str "Number"), ("sparse", .bool true)]) := by
  obtain ⟨hunique, hmarked, hrequired, hrelabelled⟩ := blockProper_labels
  have hsparse := attributeOnly_sparseDirective
  refine ⟨?_, ?_, ?_, ?_⟩
  · have hadds := (labelCatalog.entry_mergeBlock [] hsparse hunique (.all false) "label" "").1
      (.inr (.inl (by decide)))
    have hfield : labelField? (sparse uniqueTag) = _ := labelField?_of_entry hadds
    rw [hfield]
    decide +kernel
  · have hadds := (labelCatalog.entry_mergeBlock [] hsparse hmarked (.all false) "label" "").1
      (.inr (.inr settled_markedTag))
    have hfield : labelField? (sparse markedTag) = _ := labelField?_of_entry hadds
    rw [hfield]
    decide +kernel
  · have hitems := ((labelCatalog.entry_mergeBlock [] hsparse hrequired (.all false) "label" "").2
      (by decide) (by decide)).1 _ rfl
    have hfield : labelField? (sparse requiredTags) = _ := labelField?_of_entry hitems
    rw [hfield]
    decide +kernel
  · have hreference := ((labelCatalog.entry_mergeBlock [] hsparse hrelabelled (.all false) "label"
      "").2 (by decide) (by decide)).2 rfl rfl
    have hfield : labelField? (sparse relabelledTag) = _ := labelField?_of_entry hreference
    rw [hfield]
    decide +kernel

end StoreSchema
