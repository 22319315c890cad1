/-
**Attributes that are merged into a block in precedence.**

The entry of an overlay for a field is merged into the block of its property.  Where that block
takes precedence already, and all that the entry says are attributes, the field comes out as before
but for these attributes: they are copied to the field, and nothing else looks at them.

Main definitions:

* `AttributeOnly` — that a directive gives attributes and says nothing else;
* `laidOver`, `Descriptor.addAttributes` — the attributes that a directive gives, laid over those of
  a block, and a descriptor with further attributes;
* `ownBlock` — the block of an object.

Main results:

* `insertAll_filter_merge` — what is copied from merged members;
* `AttributeOnly.decorate_merge` — a block with attributes merged in decorates with them as well;
* `sameSchema_retyped` — worked into a property they are annotations;
* `Scope.overrideField_mergeBlock` — **a block in precedence only gives further attributes**.
-/

import StoreSchema.Proofs.Annotations.Inert
import StoreSchema.Proofs.Overlay.Effect

set_option relaxedAutoImplicit false
set_option autoImplicit false

namespace StoreSchema

/-! ### Directives of attributes only -/

/-- That a directive gives attributes and says nothing else: no name in it is a word of properties,
steers compilation, or is the key of blocks. -/
structure AttributeOnly (dialect : Dialect) (directive : Members) : Prop where
  /-- No name is repeated. -/
  distinct : (Entries.keys directive).Nodup
  /-- No name is a word of properties. -/
  word : ∀ key ∈ Entries.keys directive, key ∉ propertyKeywords
  /-- No name steers compilation. -/
  control : ∀ key ∈ Entries.keys directive, key ∉ controlKeys
  /-- No name is the key of blocks. -/
  block : ∀ key ∈ Entries.keys directive, key ≠ dialect.directiveKey

/-- The attributes that a directive gives, laid over what a block says under their names. -/
def laidOver (block directive : Members) : Members :=
  directive.map fun entry => (entry.1, Json.mergeValue (Entries.get? block entry.1) entry.2)

theorem keys_laidOver (block directive : Members) :
    Entries.keys (laidOver block directive) = Entries.keys directive := by
  rw [Entries.keys, laidOver, List.map_map]
  rfl

/-- What is laid over a block does not depend on what the block says under other names. -/
theorem laidOver_insert_of_not_mem {name : String} {directive : Members}
    (h : name ∉ Entries.keys directive) (block : Members) (value : Json) :
    laidOver (Entries.insert block name value) directive = laidOver block directive := by
  refine List.map_congr_left fun entry hentry => ?_
  have hne : name ≠ entry.1 := fun heq => h (heq ▸ List.mem_map_of_mem hentry)
  rw [Entries.get?_insert, if_neg hne]

/-- **What is copied from merged members** is what is copied from the first, and then what was
merged in. -/
theorem insertAll_filter_merge {keep : String → Bool} {block directive : Members}
    (hblock : (Entries.keys block).Nodup) (hdirective : (Entries.keys directive).Nodup)
    (hkeep : ∀ key ∈ Entries.keys directive, keep key = true) (entries : Members) :
    Entries.insertAll entries ((Json.merge block directive).filter fun entry => keep entry.1) =
      Entries.insertAll (Entries.insertAll entries (block.filter fun entry => keep entry.1))
        (laidOver block directive) := by
  induction directive generalizing block with
  | nil => rw [Json.merge]; rfl
  | cons first rest ih =>
      obtain ⟨name, value⟩ := first
      rw [Entries.keys_cons, List.nodup_cons] at hdirective
      rw [Entries.keys_cons, List.forall_mem_cons] at hkeep
      have hfilter : (Entries.keys (block.filter fun entry => keep entry.1)).Nodup :=
        (List.filter_sublist.map Prod.fst).nodup hblock
      -- the names that follow are others, so that the write changes nothing for them
      rw [Json.merge, ih (Entries.nodup_keys_insert hblock _ _) hdirective.2 hkeep.2,
        Entries.filter_insert, if_pos hkeep.1, Entries.insertAll_insert hfilter,
        laidOver_insert_of_not_mem hdirective.1]
      rfl

namespace Descriptor

/-- A descriptor with further attributes. -/
def addAttributes (added : Members) (descriptor : Descriptor) : Descriptor :=
  descriptor.withModifiers { descriptor.modifiers with
    attributes := Entries.insertAll descriptor.modifiers.attributes added }

@[simp] theorem addAttributes_nil (descriptor : Descriptor) :
    descriptor.addAttributes [] = descriptor := withModifiers_modifiers descriptor

theorem setRequired_addAttributes (descriptor : Descriptor) (added : Members) (required : Bool) :
    (descriptor.addAttributes added).setRequired required =
      (descriptor.setRequired required).addAttributes added := by
  simp [setRequired, addAttributes]

end Descriptor

namespace AttributeOnly

variable {dialect : Dialect} {block directive : Members} (h : AttributeOnly dialect directive)
include h

/-- What a block says under words and controls is the same after the merge. -/
theorem get?_merge_eq {key : String} (hkey : key ∈ propertyKeywords ∨ key ∈ controlKeys)
    (block : Members) : Entries.get? (Json.merge block directive) key = Entries.get? block key := by
  have hmem : key ∉ Entries.keys directive := by
    intro hmem
    exact hkey.elim (h.word key hmem) (h.control key hmem)
  rw [Json.get?_merge h.distinct, Entries.get?_eq_none_iff.2 hmem]
  rfl

/-- No name of an attribute is a keyword of schemas. -/
theorem isKeyword_eq_false {key : String} (hkey : key ∈ Entries.keys directive) :
    dialect.isKeyword key = false := by
  have hsub : schemaKeywords ⊆ propertyKeywords := by decide
  have hword : key ∉ schemaKeywords := fun hword => h.word key hkey (hsub hword)
  simp [Dialect.isKeyword, h.block key hkey, hword]

/-- **A block with the directive merged in decorates with further attributes.** -/
theorem decorate_merge (hblock : (Entries.keys block).Nodup) (validator : Option String)
    (field : Descriptor) :
    decorate validator (Json.merge block directive) field =
      (decorate validator block field).addAttributes (laidOver block directive) := by
  have hkeep : ∀ key ∈ Entries.keys directive,
      (!propertyKeywords.contains key && !controlKeys.contains key) = true := by
    intro key hkey
    simp [h.word key hkey, h.control key hkey]
  have hattributes := insertAll_filter_merge hblock h.distinct hkeep field.modifiers.attributes
  rw [decorate, attributes, hattributes]
  simp [decorate, attributes, Descriptor.addAttributes]

end AttributeOnly

/-- Writing annotations into a schema leaves it the same schema. -/
theorem sameSchema_insertAll {dialect : Dialect} {source : Members}
    (hsource : ∀ key ∈ Entries.keys source, dialect.isKeyword key = false) (members : Members) :
    SameSchema dialect (Entries.insertAll members source) members := by
  induction source generalizing members with
  | nil => rfl
  | cons first rest ih =>
      obtain ⟨name, value⟩ := first
      rw [Entries.keys_cons, List.forall_mem_cons] at hsource
      have hwrite : SameSchema dialect (Entries.insert members name value) members := by
        rw [SameSchema, unannotatedMembers_insert, hsource.1]
        rfl
      rw [Entries.insertAll_cons]
      exact (ih hsource.2 _).trans hwrite

/-! ### Blocks that take precedence -/

/-- The block of an object; an absent one is empty. -/
def ownBlock (key : String) (members : Members) : Members :=
  ((Entries.get? members key).map Json.members).getD []

section MergeBlock

variable {dialect : Dialect} {directive members : Members}

theorem get?_mergeBlock_self (key : String) (directive members : Members) :
    Entries.get? (Overlay.mergeBlock key directive members) key =
      some (.obj (Json.merge (ownBlock key members) directive)) :=
  Entries.get?_insert_self _ _ _

theorem get?_mergeBlock_of_ne {key other : String} (h : other ≠ key)
    (directive members : Members) :
    Entries.get? (Overlay.mergeBlock key directive members) other = Entries.get? members other := by
  rw [Overlay.mergeBlock, Entries.get?_insert, if_neg (Ne.symm h)]

theorem erase_mergeBlock (key : String) (directive members : Members) :
    Entries.erase (Overlay.mergeBlock key directive members) key = Entries.erase members key :=
  Entries.erase_insert_self _ _ _

theorem isArrayProperty_mergeBlock (directive members : Members) :
    isArrayProperty (Overlay.mergeBlock dialect.directiveKey directive members) =
      isArrayProperty members := by
  rw [isArrayProperty, isArrayProperty,
    get?_mergeBlock_of_ne (dialect.ne_directiveKey (by decide) (by decide)),
    get?_mergeBlock_of_ne (dialect.ne_directiveKey (by decide) (by decide))]

variable (h : AttributeOnly dialect directive)
  (hdistinct : (Entries.keys (ownBlock dialect.directiveKey members)).Nodup)
include h

/-- The type that an identifier belongs to does not depend on attributes. -/
theorem identifierReference?_mergeBlock :
    identifierReference? dialect (Json.merge (ownBlock dialect.directiveKey members) directive)
        (Overlay.mergeBlock dialect.directiveKey directive members) =
      identifierReference? dialect (ownBlock dialect.directiveKey members) members := by
  have hexplicit : dialect.explicitReference?
      (Json.merge (ownBlock dialect.directiveKey members) directive) =
        dialect.explicitReference? (ownBlock dialect.directiveKey members) := by
    cases dialect with
    | legacy => rfl
    | extended =>
        rw [Dialect.explicitReference?, Dialect.explicitReference?,
          h.get?_merge_eq (.inl (by decide))]
  rw [identifierReference?, identifierReference?, h.get?_merge_eq (.inr (by decide)), hexplicit,
    get?_mergeBlock_of_ne (dialect.ne_directiveKey (by decide) (by decide)),
    get?_mergeBlock_of_ne (dialect.ne_directiveKey (by decide) (by decide))]

include hdistinct

/-- A property with attributes worked in is the same schema as without. -/
theorem sameSchema_retyped (validator : Option String) :
    SameSchema dialect
      (retyped dialect.directiveKey validator
        (Json.merge (ownBlock dialect.directiveKey members) directive)
        (Overlay.mergeBlock dialect.directiveKey directive members))
      (retyped dialect.directiveKey validator (ownBlock dialect.directiveKey members) members) := by
  have hkeep : ∀ key ∈ Entries.keys directive, (!controlKeys.contains key) = true := by
    intro key hkey
    simp [h.control key hkey]
  rw [retyped, retyped, erase_mergeBlock]
  split
  · rfl
  · rw [insertAll_filter_merge hdistinct h.distinct hkeep]
    refine sameSchema_insertAll (fun key hkey => ?_) _
    rw [keys_laidOver] at hkey
    exact h.isKeyword_eq_false hkey

/-- **A block in precedence only gives further attributes** with the directive merged in. -/
theorem Scope.overrideField_mergeBlock {scope : Scope} (hscope : scope.dialect = dialect)
    (place : Pointer) :
    scope.overrideField (Json.merge (ownBlock dialect.directiveKey members) directive)
        (Overlay.mergeBlock dialect.directiveKey directive members) place =
      (scope.overrideField (ownBlock dialect.directiveKey members) members place).map
        (Descriptor.addAttributes
          (laidOver (ownBlock dialect.directiveKey members) directive)) := by
  subst hscope
  have hvalidator : validatorName? scope.dialect
      (Json.merge (ownBlock scope.dialect.directiveKey members) directive) place =
        validatorName? scope.dialect (ownBlock scope.dialect.directiveKey members) place := by
    rw [validatorName?, validatorName?, h.get?_merge_eq (.inr (by decide))]
  have hbase (validator : Option String) :
      scope.baseField (Json.merge (ownBlock scope.dialect.directiveKey members) directive)
          (Overlay.mergeBlock scope.dialect.directiveKey directive members) place validator =
        scope.baseField (ownBlock scope.dialect.directiveKey members) members place validator := by
    have hretyped := sameSchema_retyped h hdistinct validator
    rw [baseField, baseField, storesIdentifier, storesIdentifier,
      h.get?_merge_eq (.inl (by decide)), identifierField, identifierField, identifierTarget,
      identifierTarget, identifierReference?_mergeBlock h, isArrayProperty_mergeBlock,
      resolveField_eq_of_unannotated scope hretyped.unannotated_eq]
  rw [overrideField, overrideField, hvalidator]
  cases validatorName? scope.dialect (ownBlock scope.dialect.directiveKey members) place with
  | error cause => rfl
  | ok validator =>
      change scope.baseField _ _ _ _ >>= _ = (scope.baseField _ _ _ _ >>= _).map _
      rw [hbase]
      cases scope.baseField (ownBlock scope.dialect.directiveKey members) members place
          validator with
      | error cause => rfl
      | ok field => exact congrArg Except.ok (h.decorate_merge hdistinct validator field)

end MergeBlock

end StoreSchema
