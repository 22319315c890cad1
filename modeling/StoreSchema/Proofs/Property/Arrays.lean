/-
**What becomes of arrays.**

A property that declares an array is resolved into an array, whatever its elements are: they may be
described in place, by a block, or by a reference, and a reference that closes a cycle is one to
identifiers.  This fails in a single way.  A reference takes for an array what is neither a scalar
under another name nor an object, and leaves it as it is; but a definition whose type is not written
as a word is neither of them, and need not be an array.  It can only be resolved when it refers to
something else, and then the field becomes what that yields.

References lose an array along a chain of such definitions.  Each of them may stand for an array
itself and still lose it, as what it refers to is left as it is once more.

Main definitions:

* `Descriptor.isArray` — whether a field is stored as an array;
* `Catalog.Relays` — that a reference leads to a definition that only refers on;
* `Catalog.LosesArray` — **that an array of what a reference leads to is none**;
* `LeavesType`, `ComesToRefer` — a block that does not change an array into something else, and that
  a property is resolved by a reference in the end.

Main results:

* `Scope.referring_or_isArray` — what does not refer, and can be nothing else, is an array;
* `Catalog.isArray_of_follow_iff` — **what a reference yields for an array**, along the chain;
* `Catalog.LosesArray.exists_not_declaresInWords` — no array is lost where types are written in
  words;
* `array_kept_iff` — **which arrays are kept**, in properties and in definitions;
* `emailCatalog_loses_arrays` — an array of references that becomes a text.
-/

import StoreSchema.Proofs.Embedding
import StoreSchema.Proofs.Overlay.Distinct

set_option relaxedAutoImplicit false
set_option autoImplicit false

namespace StoreSchema

namespace Descriptor

/-- Whether the field is stored as an array. -/
def isArray (descriptor : Descriptor) : Bool := descriptor.item?.isSome

@[simp] theorem isArray_withModifiers (descriptor : Descriptor) (modifiers : Modifiers) :
    (descriptor.withModifiers modifiers).isArray = descriptor.isArray := by
  cases descriptor <;> rfl

@[simp] theorem isArray_setRequired (descriptor : Descriptor) (required : Bool) :
    (descriptor.setRequired required).isArray = descriptor.isArray :=
  isArray_withModifiers descriptor _

@[simp] theorem isArray_decorate (validator : Option String) (block : Members)
    (field : Descriptor) : (decorate validator block field).isArray = field.isArray :=
  isArray_withModifiers field _

end Descriptor

/-! ### Forms that can only be arrays -/

/-- What declares an array is one, if nothing but its type counts. -/
theorem Form.exists_items_of_readTyped {members : Members} {place : Pointer} {form : Form}
    (htype : Entries.get? members "type" = some (.str "array"))
    (h : readTyped members place = .ok form) : ∃ items, form = .array items := by
  have hdeclared : declaredType members place = .ok .array := by
    rw [declaredType, htype]
    rfl
  rw [readTyped, hdeclared] at h
  obtain ⟨items, _, rfl⟩ := Outcome.map_eq_ok_iff.1 h
  exact ⟨items, rfl⟩

/-- **What does not refer, and can be nothing else, is an array.** -/
theorem Scope.referring_or_isArray (scope : Scope) {members : Members} {place : Pointer}
    {form : Form} {field : Descriptor} (hread : Form.read scope.dialect members place = .ok form)
    (hblock : ∀ block, form ≠ .overridden block)
    (htyped : Form.readTyped members place = .ok form → ∃ items, form = .array items)
    (h : scope.perform members place form = .ok field) :
    (∃ reference linked, form = .referring reference ∧
        scope.follow reference place = .ok linked ∧
        field = linked.descriptor (isArrayProperty members)) ∨
      (∀ reference, form ≠ .referring reference) ∧ field.isArray = true := by
  rcases Form.read_cases hread with ⟨block, _, rfl⟩ | ⟨items, _, _, rfl⟩ | ⟨reference, _, rfl⟩ |
    hdeclared
  · exact absurd rfl (hblock block)
  · obtain ⟨item, _, rfl⟩ := Outcome.map_eq_ok_iff.1 h
    exact .inr ⟨nofun, rfl⟩
  · obtain ⟨linked, hlinked, rfl⟩ := Outcome.map_eq_ok_iff.1 h
    exact .inl ⟨reference, linked, rfl, hlinked, rfl⟩
  · obtain ⟨items, rfl⟩ := htyped hdeclared
    obtain ⟨item, _, rfl⟩ := Outcome.map_eq_ok_iff.1 h
    exact .inr ⟨nofun, rfl⟩

/-- A definition that is no object is resolved by the form of its body without the block. -/
theorem Scope.exists_of_wholeField {scope : Scope} {name : String} {members : Members}
    {place : Pointer} {whole : Descriptor} (h : scope.wholeField name members place = .ok whole) :
    ∃ form field required,
      Form.read scope.dialect (Entries.erase members scope.dialect.directiveKey) place = .ok form ∧
      scope.perform (Entries.erase members scope.dialect.directiveKey) place form = .ok field ∧
      whole = field.setRequired required := by
  obtain ⟨field, hfield, h⟩ := Outcome.bind_eq_ok_iff.1 h
  obtain ⟨rule, _, h⟩ := Outcome.bind_eq_ok_iff.1 h
  cases h
  rw [resolveField_obj] at hfield
  obtain ⟨form, hread, hperform⟩ := Outcome.bind_eq_ok_iff.1 hfield
  exact ⟨form, field, _, hread, hperform, rfl⟩

/-! ### Along references -/

namespace Catalog

/-- The body of a definition without its block. -/
def bareBody (catalog : Catalog) (type : TypeDefinition) : Members :=
  Entries.erase type.body catalog.dialect.directiveKey

/-- **That a reference leads to a definition that only refers on**: it is neither a scalar under
another name nor an object, and is resolved by its reference `next`. -/
structure Relays (catalog : Catalog) (stack : List String) (reference name : String)
    (type : TypeDefinition) (next : String) : Prop where
  /-- The reference leads to the definition. -/
  leads : catalog.find? reference = some (name, type)
  /-- The definition is not being compiled. -/
  entered : name ∉ stack
  /-- It is no scalar under another name. -/
  composite : isAlias type.body = false
  /-- It is no object. -/
  whole : Scope.describesObject type.body = false
  /-- It refers on. -/
  refers : Form.read catalog.dialect (catalog.bareBody type) (Pointer.definition name) =
    .ok (.referring next)

/-- **That an array of what a reference leads to is none.**  The reference leads to a definition
that only refers on.  Either this stands for no array, and what it refers to is none; or it does
stand for an array, and loses it in turn. -/
inductive LosesArray (catalog : Catalog) : List String → String → Prop where
  | here {stack : List String} {reference name next : String} {type : TypeDefinition}
      {linked : Linked} (hrelays : catalog.Relays stack reference name type next)
      (hsingle : isArrayProperty (catalog.bareBody type) = false)
      (hlinked : catalog.follow (name :: stack) next (Pointer.definition name) = .ok linked)
      (hother : (linked.descriptor false).isArray = false) : LosesArray catalog stack reference
  | later {stack : List String} {reference name next : String} {type : TypeDefinition}
      (hrelays : catalog.Relays stack reference name type next)
      (harray : isArrayProperty (catalog.bareBody type) = true)
      (hrest : LosesArray catalog (name :: stack) next) : LosesArray catalog stack reference

variable {catalog : Catalog} {stack : List String} {reference name next : String}
  {type : TypeDefinition} {place : Pointer}

/-- A reference leads to one definition. -/
theorem Relays.of_find {name' : String} {type' : TypeDefinition}
    (h : catalog.Relays stack reference name' type' next)
    (hfind : catalog.find? reference = some (name, type)) :
    catalog.Relays stack reference name type next := by
  have hleads := hfind.symm.trans h.leads
  cases hleads
  exact h

/-- An array is lost behind a reference when the definition that it leads to only refers on. -/
theorem LosesArray.relays (h : catalog.LosesArray stack reference)
    (hfind : catalog.find? reference = some (name, type)) :
    ∃ next, catalog.Relays stack reference name type next := by
  cases h with
  | here hrelays => exact ⟨_, hrelays.of_find hfind⟩
  | later hrelays => exact ⟨_, hrelays.of_find hfind⟩

/-- A reference leads to one definition, which refers on to one. -/
theorem Relays.unique {name' next' : String} {type' : TypeDefinition}
    (h : catalog.Relays stack reference name type next)
    (h' : catalog.Relays stack reference name' type' next') :
    name' = name ∧ type' = type ∧ next' = next := by
  have hleads := h.leads.symm.trans h'.leads
  cases hleads
  have hrefers := h.refers.symm.trans h'.refers
  cases hrefers
  exact ⟨rfl, rfl, rfl⟩

/-- Where a definition that only refers on stands for no array, the array is lost when what it
refers to is none. -/
theorem Relays.losesArray_iff_of_single {linked : Linked}
    (h : catalog.Relays stack reference name type next)
    (hsingle : isArrayProperty (catalog.bareBody type) = false)
    (hlinked : catalog.follow (name :: stack) next (Pointer.definition name) = .ok linked) :
    catalog.LosesArray stack reference ↔ (linked.descriptor false).isArray = false := by
  constructor
  · rintro (⟨hrelays, _, hfound, hother⟩ | ⟨hrelays, harray, _⟩)
    · obtain ⟨rfl, rfl, rfl⟩ := h.unique hrelays
      rw [hlinked] at hfound
      cases hfound
      exact hother
    · obtain ⟨rfl, rfl, rfl⟩ := h.unique hrelays
      rw [hsingle] at harray
      cases harray
  · exact .here h hsingle hlinked

/-- Where it does stand for an array, the array is lost when it is lost further on. -/
theorem Relays.losesArray_iff_of_array (h : catalog.Relays stack reference name type next)
    (harray : isArrayProperty (catalog.bareBody type) = true) :
    catalog.LosesArray stack reference ↔ catalog.LosesArray (name :: stack) next := by
  constructor
  · rintro (⟨hrelays, hsingle, _, _⟩ | ⟨hrelays, _, hrest⟩)
    · obtain ⟨rfl, rfl, rfl⟩ := h.unique hrelays
      rw [harray] at hsingle
      cases hsingle
    · obtain ⟨rfl, rfl, rfl⟩ := h.unique hrelays
      exact hrest
  · exact .later h harray

/-- The type of a definition stands in its body without the block. -/
theorem get?_type_bareBody (catalog : Catalog) (type : TypeDefinition) :
    Entries.get? (catalog.bareBody type) "type" = Entries.get? type.body "type" :=
  Entries.get?_erase_of_ne (Dialect.ne_directiveKey (by decide) (by decide) _) _

/-- A type that can be resolved is written as a word. -/
theorem declaresInWords_of_readTyped {form : Form}
    (h : Form.readTyped (catalog.bareBody type) place = .ok form) : declaresInWords type.body := by
  obtain ⟨declared, hdeclared, _⟩ := Outcome.bind_eq_ok_iff.1 h
  intro value hvalue
  rw [declaredType, get?_type_bareBody, hvalue] at hdeclared
  cases value with
  | null => exact .inl rfl
  | str word => exact .inr ⟨word, rfl⟩
  | _ => cases hdeclared

theorem type_of_isArrayDefinition {body : Members} (h : isArrayDefinition body = true) :
    Entries.get? body "type" = some (.str "array") := by
  rw [isArrayDefinition, Bool.and_eq_true, beq_iff_eq] at h
  exact h.2

/-- A definition that is neither a scalar under another name nor an object is an array, or refers
on. -/
theorem referring_or_isArray {form : Form} {field : Descriptor}
    (halias : isAlias type.body = false) (hobject : Scope.describesObject type.body = false)
    (hread : Form.read catalog.dialect (catalog.bareBody type) place = .ok form)
    (h : (catalog.scope stack).perform (catalog.bareBody type) place form = .ok field) :
    (∃ next linked, form = .referring next ∧ catalog.follow stack next place = .ok linked ∧
        field = linked.descriptor (isArrayProperty (catalog.bareBody type))) ∨
      (∀ next, form ≠ .referring next) ∧ field.isArray = true := by
  have hfree := Form.ne_overridden_of_read hread
    (overridingBlock?_erase catalog.dialect type.body place)
  refine (catalog.scope stack).referring_or_isArray hread hfree ?_ h
  intro htyped
  have harray := isArrayDefinition_of_declaresInWords (declaresInWords_of_readTyped htyped) hobject
    halias
  refine Form.exists_items_of_readTyped ?_ htyped
  rw [get?_type_bareBody, type_of_isArrayDefinition harray]

/-- A definition that is neither a scalar under another name nor an object is an array unless it
refers on, and loses it there. -/
theorem isArray_of_wholeField_iff {whole : Descriptor}
    (hfind : catalog.find? reference = some (name, type)) (hmem : name ∉ stack)
    (halias : isAlias type.body = false) (hobject : Scope.describesObject type.body = false)
    (hnext : ∀ next place linked, catalog.follow (name :: stack) next place = .ok linked →
      ((linked.descriptor true).isArray = false ↔ catalog.LosesArray (name :: stack) next))
    (h : (catalog.scope (name :: stack)).wholeField name type.body (Pointer.definition name) =
      .ok whole) : whole.isArray = false ↔ catalog.LosesArray stack reference := by
  obtain ⟨form, field, required, hread, hperform, rfl⟩ := Scope.exists_of_wholeField h
  rw [Descriptor.isArray_setRequired]
  rcases referring_or_isArray halias hobject hread hperform with
    ⟨next, linked, rfl, hlinked, rfl⟩ | ⟨hother, harray⟩
  · have hrelays : catalog.Relays stack reference name type next :=
      ⟨hfind, hmem, halias, hobject, hread⟩
    cases hproperty : isArrayProperty (catalog.bareBody type) with
    | true =>
        rw [hrelays.losesArray_iff_of_array hproperty]
        exact hnext next _ linked hlinked
    | false => exact (hrelays.losesArray_iff_of_single hproperty hlinked).symm
  · refine iff_of_false (by simp [harray]) fun hloses => ?_
    obtain ⟨next, hrelays⟩ := hloses.relays hfind
    have hrefers := hread.symm.trans hrelays.refers
    cases hrefers
    exact hother next rfl

/-- **What a reference yields for an array** is an array, unless it loses it. -/
theorem isArray_of_follow_iff (catalog : Catalog) (stack : List String) (reference : String)
    (place : Pointer) : ∀ linked, catalog.follow stack reference place = .ok linked →
      ((linked.descriptor true).isArray = false ↔ catalog.LosesArray stack reference) := by
  induction stack, reference, place using follow_induction catalog with
  | unresolved stack reference place hfind =>
      intro linked h
      cases h
  | cyclic stack reference place name type hfind hmem =>
      intro linked h
      cases h
      refine iff_of_false (Ne.symm Bool.false_ne_true) fun hloses => ?_
      obtain ⟨next, hrelays⟩ := hloses.relays hfind
      exact hrelays.entered hmem
  | entered stack reference place name type hfind hmem ih =>
      intro linked h
      rw [enter] at h
      cases halias : isAlias type.body with
      | true =>
          rw [halias, if_pos rfl] at h
          obtain ⟨field, _, rfl⟩ := Outcome.map_eq_ok_iff.1 h
          refine iff_of_false (Ne.symm Bool.false_ne_true) fun hloses => ?_
          obtain ⟨next, hrelays⟩ := hloses.relays hfind
          simp [hrelays.composite] at halias
      | false =>
          rw [halias, if_neg Bool.false_ne_true] at h
          obtain ⟨tree, htree, rfl⟩ := Outcome.map_eq_ok_iff.1 h
          rw [Scope.tree] at htree
          cases hobject : Scope.describesObject type.body with
          | true =>
              rw [hobject, if_pos rfl] at htree
              obtain ⟨fields, _, rfl⟩ := Outcome.map_eq_ok_iff.1 htree
              refine iff_of_false (Ne.symm Bool.false_ne_true) fun hloses => ?_
              obtain ⟨next, hrelays⟩ := hloses.relays hfind
              simp [hrelays.whole] at hobject
          | false =>
              rw [hobject, if_neg Bool.false_ne_true] at htree
              obtain ⟨whole, hwhole, rfl⟩ := Outcome.map_eq_ok_iff.1 htree
              -- such a descriptor is taken as it is, also for an array
              rw [SchemaTree.linked, Linked.descriptor, Descriptor.isArray_setRequired]
              exact isArray_of_wholeField_iff hfind hmem halias hobject ih hwhole

/-- **No array is lost where types are written in words**: behind every array that is lost there is
a definition whose type is not. -/
theorem LosesArray.exists_not_declaresInWords (h : catalog.LosesArray stack reference) :
    ∃ name type, Entries.get? catalog.types name = some type ∧ ¬declaresInWords type.body := by
  induction h with
  | @here stack reference name next type linked hrelays hsingle _ _ =>
      refine ⟨name, type, (find?_eq_some_iff.1 hrelays.leads).2, fun hwords => ?_⟩
      have harray := isArrayDefinition_of_declaresInWords hwords hrelays.whole hrelays.composite
      have htype := type_of_isArrayDefinition harray
      rw [← get?_type_bareBody catalog] at htype
      simp [isArrayProperty, htype, Json.asString?] at hsingle
  | later _ _ _ ih => exact ih

end Catalog

/-! ### Blocks that are worked in -/

/-- That a block does not change an array into something else: it carries no block, and the type
that it declares, if any, is that of identifiers or again an array. -/
structure LeavesType (dialect : Dialect) (block : Members) : Prop where
  /-- It carries no block. -/
  nested : Entries.get? block dialect.directiveKey = none
  /-- Its type, if any, is that of identifiers or an array. -/
  type : ∀ declared, Entries.get? block "type" = some declared →
    declared = .str identifierType ∨ declared = .str "array"

/-- **That a property is resolved by a reference in the end**: as it stands, or with its block
worked in. -/
inductive ComesToRefer (dialect : Dialect) (place : Pointer) (reference : String) :
    Members → Prop where
  | plain {members : Members}
      (hread : Form.read dialect members place = .ok (.referring reference)) :
      ComesToRefer dialect place reference members
  | worked {members block : Members} {validator : Option String}
      (hread : Form.read dialect members place = .ok (.overridden block))
      (hstored : storesIdentifier block = false)
      (hvalidator : validatorName? dialect block place = .ok validator)
      (hrest : ComesToRefer dialect place reference
        (retyped dialect.directiveKey validator block members)) :
      ComesToRefer dialect place reference members

section Blocks

variable {dialect : Dialect} {members block : Members} {place : Pointer} {reference : String}
  {validator : Option String}

/-- Without a block in precedence a property refers if its form is a reference. -/
theorem comesToRefer_iff_of_read {form : Form}
    (hread : Form.read dialect members place = .ok form)
    (hfree : ∀ block, form ≠ .overridden block) :
    ComesToRefer dialect place reference members ↔ form = .referring reference := by
  constructor
  · rintro (hfound | ⟨hfound, _, _, _⟩)
    · exact Except.ok.inj (hread.symm.trans hfound)
    · exact absurd (Except.ok.inj (hread.symm.trans hfound)) (hfree _)
  · rintro rfl
    exact .plain hread

/-- With one it refers if it does so with the block worked in. -/
theorem comesToRefer_iff_of_overridden
    (hread : Form.read dialect members place = .ok (.overridden block))
    (hvalidator : validatorName? dialect block place = .ok validator) :
    ComesToRefer dialect place reference members ↔ storesIdentifier block = false ∧
      ComesToRefer dialect place reference
        (retyped dialect.directiveKey validator block members) := by
  constructor
  · rintro (hfound | ⟨hfound, hstored, hname, hrest⟩)
    · cases hread.symm.trans hfound
    · cases hread.symm.trans hfound
      cases hvalidator.symm.trans hname
      exact ⟨hstored, hrest⟩
  · rintro ⟨hstored, hrest⟩
    exact .worked hread hstored hvalidator hrest

/-- What is read in a property with a block worked in, under a name that describes something. -/
theorem get?_retyped {name : String} (hname : name ∉ controlKeys)
    (hblock : (Entries.keys block).Nodup) (key : String) (members : Members) :
    Entries.get? (retyped key validator block members) name =
      if validator.isSome then Entries.get? (Entries.erase members key) name
      else (Entries.get? block name).or (Entries.get? (Entries.erase members key) name) := by
  have hwritten :
      (Entries.keys (block.filter fun member => !controlKeys.contains member.1)).Nodup :=
    (List.filter_sublist.map Prod.fst).nodup hblock
  rw [retyped]
  split
  · rfl
  · rw [Entries.get?_insertAll hwritten,
      Entries.get?_filter (fun name => !controlKeys.contains name) (by simp [hname])]

namespace LeavesType

variable (h : LeavesType dialect block) (hblock : (Entries.keys block).Nodup)
include h hblock

/-- A property that declares an array still does with the block worked in. -/
theorem get?_type (hstored : storesIdentifier block = false)
    (htype : Entries.get? members "type" = some (.str "array")) :
    Entries.get? (retyped dialect.directiveKey validator block members) "type" =
      some (.str "array") := by
  rw [get?_retyped (by decide) hblock,
    Entries.get?_erase_of_ne (dialect.ne_directiveKey (by decide) (by decide)), htype]
  cases hget : Entries.get? block "type" with
  | none => simp
  | some declared =>
      rcases h.type declared hget with rfl | rfl
      · simp [storesIdentifier, hget, Json.asString?] at hstored
      · simp

/-- No block is left behind. -/
theorem overridingBlock?_retyped (members : Members) (place : Pointer) :
    overridingBlock? dialect (retyped dialect.directiveKey validator block members) place =
      .ok none := by
  have hcontrol : dialect.directiveKey ∉ controlKeys := by cases dialect <;> decide
  have hnone : Entries.get? (retyped dialect.directiveKey validator block members)
      dialect.directiveKey = none := by
    rw [get?_retyped hcontrol hblock, h.nested, Entries.get?_erase_self]
    simp
  rw [overridingBlock?, directive?_of_get?_eq_none hnone]
  rfl

end LeavesType

end Blocks

/-! ### Which arrays are kept -/

namespace Catalog

variable {catalog : Catalog} {stack : List String} {members : Members} {place : Pointer}
  {field : Descriptor}

/-- **Without a block in precedence an array is kept** unless it refers, and loses it there. -/
theorem isArray_of_perform_iff {form : Form}
    (htype : Entries.get? members "type" = some (.str "array"))
    (hread : Form.read catalog.dialect members place = .ok form)
    (hfree : ∀ block, form ≠ .overridden block)
    (h : (catalog.scope stack).perform members place form = .ok field) :
    field.isArray = true ↔ ∀ reference, ComesToRefer catalog.dialect place reference members →
      ¬catalog.LosesArray stack reference := by
  simp only [comesToRefer_iff_of_read hread hfree]
  rcases (catalog.scope stack).referring_or_isArray hread hfree
      (Form.exists_items_of_readTyped htype) h with
    ⟨reference, linked, rfl, hlinked, rfl⟩ | ⟨hother, harray⟩
  · have hproperty : isArrayProperty members = true := by
      simp [isArrayProperty, htype, Json.asString?]
    have hloses := isArray_of_follow_iff catalog stack reference place linked hlinked
    rw [hproperty, ← Bool.not_eq_false, hloses]
    constructor
    · intro hkept next hnext
      cases hnext
      exact hkept
    · intro hkept
      exact hkept reference rfl
  · exact iff_of_true harray fun reference hreference => absurd hreference (hother reference)

/-- **An array is kept by a property** that declares it and has no block that says otherwise, unless
it comes to refer, and loses it there. -/
theorem isArray_of_resolveField_iff (hdistinct : (Json.obj members).Distinct)
    (htype : Entries.get? members "type" = some (.str "array"))
    (hblock : ∀ block, Entries.get? members catalog.dialect.directiveKey = some (.obj block) →
      LeavesType catalog.dialect block)
    (h : resolveField (catalog.scope stack) (.obj members) place = .ok field) :
    field.isArray = true ↔ ∀ reference, ComesToRefer catalog.dialect place reference members →
      ¬catalog.LosesArray stack reference := by
  rw [resolveField_obj] at h
  obtain ⟨form, hread, hperform⟩ := Outcome.bind_eq_ok_iff.1 h
  change Form.read catalog.dialect members place = .ok form at hread
  cases form with
  | overridden block =>
      have hown : Entries.get? members catalog.dialect.directiveKey = some (.obj block) :=
        Form.within_of_read hread
      have hleaves := hblock block hown
      have hnames := (Json.distinct_obj_iff.1 (hdistinct.of_get? hown)).1
      obtain ⟨validator, hvalidator, hrest⟩ := Outcome.bind_eq_ok_iff.1 hperform
      obtain ⟨inner, hinner, heq⟩ := Outcome.bind_eq_ok_iff.1 hrest
      change validatorName? catalog.dialect block place = .ok validator at hvalidator
      cases heq
      simp only [Descriptor.isArray_decorate, comesToRefer_iff_of_overridden hread hvalidator]
      rw [Scope.baseField] at hinner
      cases hstored : storesIdentifier block with
      | true =>
          rw [hstored, if_pos rfl] at hinner
          obtain ⟨target, _, rfl⟩ := Outcome.map_eq_ok_iff.1 hinner
          have hproperty : isArrayProperty members = true := by
            simp [isArrayProperty, htype, Json.asString?]
          rw [hproperty]
          exact iff_of_true rfl (by simp)
      | false =>
          rw [hstored, if_neg Bool.false_ne_true, resolveField_obj] at hinner
          obtain ⟨form, hworked, hinner⟩ := Outcome.bind_eq_ok_iff.1 hinner
          have hfree := Form.ne_overridden_of_read hworked
            (hleaves.overridingBlock?_retyped hnames members place)
          rw [isArray_of_perform_iff (hleaves.get?_type hnames hstored htype) hworked hfree hinner]
          simp
  | _ =>
      refine isArray_of_perform_iff htype hread (fun block heq => ?_) hperform
      cases heq

/-- **An array is kept by a definition** that declares it and has no properties, unless it refers,
and loses it there. -/
theorem isArray_of_compileDefinition_iff {name : String} {type : TypeDefinition}
    {tree : SchemaTree} (harray : isArrayDefinition type.body = true)
    (h : catalog.compileDefinition stack name type = .ok tree) :
    ∃ descriptor, tree = .simple descriptor ∧
      (descriptor.isArray = true ↔ ∀ reference,
        ComesToRefer catalog.dialect (Pointer.definition name) reference
          (catalog.bareBody type) → ¬catalog.LosesArray (name :: stack) reference) := by
  have hobject : Scope.describesObject type.body = false := by
    rw [← Bool.not_eq_true]
    intro hobject
    simp [isArrayDefinition_of_describesObject hobject] at harray
  have htype : Entries.get? (catalog.bareBody type) "type" = some (.str "array") := by
    rw [get?_type_bareBody, type_of_isArrayDefinition harray]
  rw [compileDefinition, Scope.tree, hobject, if_neg Bool.false_ne_true] at h
  obtain ⟨whole, hwhole, rfl⟩ := Outcome.map_eq_ok_iff.1 h
  obtain ⟨form, field, required, hread, hperform, rfl⟩ := Scope.exists_of_wholeField hwhole
  have hfree := Form.ne_overridden_of_read hread
    (overridingBlock?_erase catalog.dialect type.body _)
  refine ⟨_, rfl, ?_⟩
  rw [Descriptor.isArray_setRequired]
  exact isArray_of_perform_iff htype hread hfree hperform

end Catalog

/-- **Which arrays are kept.**  A property that declares an array, and has no block that says
otherwise, is resolved into an array unless it comes to refer to something that loses it; and so is
a definition that declares an array and has no properties.  What loses an array is a definition
whose type is not written as a word. -/
theorem array_kept_iff (catalog : Catalog) (stack : List String) :
    (∀ members place field, (Json.obj members).Distinct →
      Entries.get? members "type" = some (.str "array") →
      (∀ block, Entries.get? members catalog.dialect.directiveKey = some (.obj block) →
        LeavesType catalog.dialect block) →
      resolveField (catalog.scope stack) (.obj members) place = .ok field →
        (field.isArray = true ↔ ∀ reference,
          ComesToRefer catalog.dialect place reference members →
            ¬catalog.LosesArray stack reference)) ∧
    (∀ name type tree, isArrayDefinition type.body = true →
      catalog.compileDefinition stack name type = .ok tree →
        ∃ descriptor, tree = .simple descriptor ∧
          (descriptor.isArray = true ↔ ∀ reference,
            ComesToRefer catalog.dialect (Pointer.definition name) reference
              (catalog.bareBody type) → ¬catalog.LosesArray (name :: stack) reference)) ∧
    ∀ reference, catalog.LosesArray stack reference →
      ∃ name type, Entries.get? catalog.types name = some type ∧ ¬declaresInWords type.body := by
  refine ⟨?_, ?_, ?_⟩
  · intro members place field hdistinct htype hblock h
    exact Catalog.isArray_of_resolveField_iff hdistinct htype hblock h
  · intro name type tree harray h
    exact Catalog.isArray_of_compileDefinition_iff harray h
  · intro reference h
    exact h.exists_not_declaresInWords

/-! ### An array that is lost -/

/-- An address, which is a text or nothing, and refers to the texts. -/
def email : Members :=
  [("type", .arr [.str "string", .str "null"]), ("$ref", .str "#/definitions/Text")]

/-- An array of what a reference leads to. -/
def arrayOf (reference : String) : Members :=
  [("type", .str "array"), ("items", .obj [("$ref", .str reference)])]

/-- Texts, addresses, and an array of addresses. -/
def emailDocument : Members :=
  [("swagger", .str "2.0"),
    ("definitions", .obj
      [("Text", .obj [("type", .str "string")]),
        ("Email", .obj email),
        ("Emails", .obj (arrayOf "#/definitions/Email"))])]

/-- The definitions of that document. -/
def emailCatalog : Catalog where
  dialect := .extended
  types :=
    [("Text", ⟨[("type", .str "string")], {}⟩), ("Email", ⟨email, {}⟩),
      ("Emails", ⟨arrayOf "#/definitions/Email", {}⟩)]

theorem distinct_arrayOf (reference : String) : (Json.obj (arrayOf reference)).Distinct := by
  simp [arrayOf, Json.Distinct, Json.DistinctMembers]

/-- An array of references has no block, and refers. -/
theorem comesToRefer_arrayOf_iff {place : Pointer} {reference target : String} :
    ComesToRefer emailCatalog.dialect place reference (arrayOf target) ↔ reference = target := by
  have hread : Form.read emailCatalog.dialect (arrayOf target) place = .ok (.referring target) :=
    rfl
  rw [comesToRefer_iff_of_read hread nofun]
  constructor
  · rintro ⟨⟩
    rfl
  · rintro rfl
    rfl

/-- An address that is taken for an array is a text. -/
theorem emailCatalog_losesArray {stack : List String} (hemail : "Email" ∉ stack)
    (htext : "Text" ∉ stack) : emailCatalog.LosesArray stack "#/definitions/Email" := by
  have hrelays : emailCatalog.Relays stack "#/definitions/Email" "Email" ⟨email, {}⟩
      "#/definitions/Text" := ⟨rfl, hemail, rfl, rfl, rfl⟩
  have hfind : emailCatalog.find? "#/definitions/Text" =
      some ("Text", ⟨[("type", .str "string")], {}⟩) := rfl
  have hfollow : emailCatalog.follow ("Email" :: stack) "#/definitions/Text"
      (Pointer.definition "Email") = .ok (.element (.scalar {} .string none)) := by
    rw [Catalog.follow_of_not_mem hfind (by simp [htext]), Catalog.enter]
    change (resolveField _ (.obj [("type", .str "string")]) _).map _ = _
    rw [@resolveField_of_read _ _ _ (.scalar .string none) rfl]
    rfl
  exact .here hrelays rfl hfollow rfl

/-- An array of texts is kept; an array of addresses is lost, in a property and as a definition. -/
theorem emailCatalog_keeps_texts :
    ((Json.obj (arrayOf "#/definitions/Text")).Distinct ∧
        (Json.obj (arrayOf "#/definitions/Email")).Distinct) ∧
      (∃ field, resolveField (emailCatalog.scope []) (.obj (arrayOf "#/definitions/Text"))
        "/texts" = .ok field ∧ field.isArray = true) ∧
      (∃ field, resolveField (emailCatalog.scope []) (.obj (arrayOf "#/definitions/Email"))
        "/emails" = .ok field ∧ field.isArray = false) ∧
      (∃ descriptor, emailCatalog.compileDefinition [] "Emails"
          ⟨arrayOf "#/definitions/Email", {}⟩ = .ok (.simple descriptor) ∧
        descriptor.isArray = false) ∧
      ∃ name type, Entries.get? emailCatalog.types name = some type ∧
        ¬declaresInWords type.body := by
  obtain ⟨hproperty, hdefinition, hwords⟩ := array_kept_iff emailCatalog []
  have htexts : (resolveField (emailCatalog.scope []) (.obj (arrayOf "#/definitions/Text"))
      "/texts").Succeeds := by decide +kernel
  have hemails : (resolveField (emailCatalog.scope []) (.obj (arrayOf "#/definitions/Email"))
      "/emails").Succeeds := by decide +kernel
  have hlisted : (emailCatalog.compileDefinition [] "Emails"
      ⟨arrayOf "#/definitions/Email", {}⟩).Succeeds := by decide +kernel
  obtain ⟨texts, htexts⟩ := htexts
  obtain ⟨emails, hemails⟩ := hemails
  obtain ⟨tree, hlisted⟩ := hlisted
  obtain ⟨descriptor, rfl, hdescriptor⟩ := hdefinition _ _ _ rfl hlisted
  refine ⟨⟨distinct_arrayOf _, distinct_arrayOf _⟩, ⟨texts, htexts, ?_⟩, ⟨emails, hemails, ?_⟩,
    ⟨descriptor, hlisted, ?_⟩, hwords _ (emailCatalog_losesArray (by decide) (by decide))⟩
  · rw [hproperty _ _ _ (distinct_arrayOf _) rfl nofun htexts]
    rintro reference hrefers hloses
    obtain rfl := comesToRefer_arrayOf_iff.1 hrefers
    -- a text is a scalar under another name, which no array is lost behind
    obtain ⟨next, hrelays⟩ := hloses.relays rfl
    cases hrelays.composite
  · rw [← Bool.not_eq_true, hproperty _ _ _ (distinct_arrayOf _) rfl nofun hemails]
    intro hnone
    exact hnone _ (comesToRefer_arrayOf_iff.2 rfl)
      (emailCatalog_losesArray (by decide) (by decide))
  · rw [← Bool.not_eq_true, hdescriptor]
    intro hnone
    exact hnone _ (comesToRefer_arrayOf_iff.2 rfl)
      (emailCatalog_losesArray (by decide) (by decide))

/-- **An array of references that becomes a text.**  The property declares an array and has no
block, and the definition declares one and has no properties; but an address is left as it is, for
an array that it is not. -/
theorem emailCatalog_loses_arrays :
    catalogOf emailDocument none = .ok emailCatalog ∧
      (Json.obj (arrayOf "#/definitions/Email")).Distinct ∧
      Entries.get? (arrayOf "#/definitions/Email") "type" = some (.str "array") ∧
      Entries.get? (arrayOf "#/definitions/Email") emailCatalog.dialect.directiveKey = none ∧
      (resolveField (emailCatalog.scope []) (.obj (arrayOf "#/definitions/Email"))
        "/emails").toOption.map (fun field => (field.isArray, field.toJson)) =
          some (false, .obj [("type", .str "String")]) ∧
      isArrayDefinition (arrayOf "#/definitions/Email") = true ∧
      (emailCatalog.compileDefinition [] "Emails"
        ⟨arrayOf "#/definitions/Email", {}⟩).toOption.map (fun tree =>
          (tree.isSimple, tree.toJson)) = some (true, .obj [("type", .str "String")]) := by
  refine ⟨rfl, distinct_arrayOf _, rfl, rfl, ?_, rfl, ?_⟩
  · decide +kernel
  · decide +kernel

end StoreSchema
