/-
**A definition that is embedded is the definition that stands alone.**

A reference compiles the definition it leads to in place, while other definitions are being
compiled.  Those matter only through cycles: when none of them can be reached from the definition,
compiling it in place gives what compiling it alone gives, be it a body or a cause.  A property that
refers to it then takes that body, as an embedded document or as the one descriptor that the
definition stands for.

Main definitions:

* `Catalog.Refers`, `Catalog.Reaches` — that a definition refers to another, or leads to it along
  references;
* `SchemaTree.asField` — the field that a body makes;
* `RefersDirectly`, `RefersByItems` — properties that are nothing but a reference.

Main results:

* `required_of_resolveField` — a descriptor is not required before an object says so;
* `Catalog.compileDefinition_of_not_reaches` — the part of the stack that cannot be reached does
  not matter;
* `Catalog.embedding_agrees` — **what a definition yields in place is what it yields alone**.
-/

import Mathlib.Logic.Relation
import StoreSchema.Proofs.Locality
import StoreSchema.Proofs.Property.Plain
import StoreSchema.Proofs.Property.Unblocked

set_option relaxedAutoImplicit false
set_option autoImplicit false

namespace StoreSchema

/-! ### The reachable part of the stack -/

namespace Catalog

/-- That a reference in the definition called `name`, or in what is added to it, leads to the
definition called `target`. -/
def Refers (catalog : Catalog) (name target : String) : Prop :=
  ∃ type reference, Entries.get? catalog.types name = some type ∧ type.Mentions reference ∧
    catalog.target? reference = some target

/-- That one definition leads to another along one or more references. -/
def Reaches (catalog : Catalog) : String → String → Prop := Relation.TransGen catalog.Refers

/-- The name that a reference leads to is the name in the reference. -/
theorem target?_eq_some_iff {catalog : Catalog} {reference name : String} :
    catalog.target? reference = some name ↔
      Pointer.target? reference = some name ∧ (Entries.get? catalog.types name).isSome := by
  rw [target?, Option.map_eq_some_iff]
  constructor
  · rintro ⟨⟨found, type⟩, hfind, rfl⟩
    obtain ⟨htarget, htype⟩ := find?_eq_some_iff.1 hfind
    exact ⟨htarget, by simp [htype]⟩
  · rintro ⟨htarget, hsome⟩
    obtain ⟨type, htype⟩ := Option.isSome_iff_exists.1 hsome
    exact ⟨(name, type), find?_eq_some_iff.2 ⟨htarget, htype⟩, rfl⟩

/-- A catalog agrees with itself on what can be reached from a definition. -/
theorem agreeOn_reaches (catalog : Catalog) (name : String) :
    catalog.AgreeOn catalog fun other => other = name ∨ catalog.Reaches name other where
  dialect := rfl
  content _ _ := rfl
  closed := by
    intro source type reference hsource htype hmentions target htarget
    cases hget : Entries.get? catalog.types target with
    | none => exact .inr ⟨rfl, rfl⟩
    | some found =>
        have hstep : catalog.Refers source target :=
          ⟨type, reference, htype, hmentions, target?_eq_some_iff.2 ⟨htarget, by simp [hget]⟩⟩
        rcases hsource with rfl | hsource
        · exact .inl (.inr (.single hstep))
        · exact .inl (.inr (hsource.tail hstep))

/-- **The part of the stack that cannot be reached from a definition does not matter.** -/
theorem compileDefinition_of_not_reaches {catalog : Catalog} {stack : List String} {name : String}
    {type : TypeDefinition} (htype : Entries.get? catalog.types name = some type)
    (hstack : ∀ other ∈ stack, ¬catalog.Reaches name other) :
    catalog.compileDefinition stack name type = catalog.compileDefinition [] name type := by
  refine compileDefinition_congr (agreeOn_reaches catalog name) (.inl rfl) htype rfl ?_
  intro other hother
  rw [List.mem_cons, List.mem_cons]
  rcases hother with rfl | hother
  · simp
  · have hmem : other ∉ stack := fun hmem => hstack other hmem hother
    simp [hmem]

end Catalog

/-! ### Descriptors are not required by themselves -/

/-- **A descriptor is not required before an object says so**, when what references yield is
not. -/
theorem required_of_resolveField {scope : Scope}
    (hfollow : ∀ reference place linked, scope.follow reference place = .ok linked →
      ∀ wrap, (linked.descriptor wrap).modifiers.required = false)
    {property : Json} {place : Pointer} {field : Descriptor}
    (h : resolveField scope property place = .ok field) : field.modifiers.required = false := by
  induction property using Form.part_induction scope.dialect generalizing place field with
  | other property hother =>
      rw [resolveField_of_not_isObject hother] at h
      cases h
  | object members ih =>
      rw [resolveField_obj] at h
      obtain ⟨form, hread, h⟩ := Outcome.bind_eq_ok_iff.1 h
      cases form with
      | overridden block =>
          obtain ⟨validator, _, h⟩ := Outcome.bind_eq_ok_iff.1 h
          obtain ⟨inner, hinner, h⟩ := Outcome.bind_eq_ok_iff.1 h
          cases h
          have hrequired : inner.modifiers.required = false := by
            rw [Scope.baseField] at hinner
            split at hinner
            · obtain ⟨target, _, rfl⟩ := Outcome.map_eq_ok_iff.1 hinner
              rw [Descriptor.wrapped]
              split <;> rfl
            · exact ih place _ _ hread (.retyped block validator) hinner
          simpa [decorate] using hrequired
      | overriddenItems items =>
          obtain ⟨item, _, rfl⟩ := Outcome.map_eq_ok_iff.1 h
          rfl
      | referring reference =>
          obtain ⟨linked, hlinked, rfl⟩ := Outcome.map_eq_ok_iff.1 h
          exact hfollow reference place linked hlinked _
      | scalar type values =>
          cases h
          rfl
      | array items =>
          obtain ⟨item, _, rfl⟩ := Outcome.map_eq_ok_iff.1 h
          rfl
      | object body =>
          obtain ⟨fields, _, rfl⟩ := Outcome.map_eq_ok_iff.1 h
          rfl

/-- What a reference yields is not required. -/
theorem Catalog.required_of_follow (catalog : Catalog) (stack : List String) (reference : String)
    (place : Pointer) : ∀ linked, catalog.follow stack reference place = .ok linked →
      ∀ wrap, (linked.descriptor wrap).modifiers.required = false := by
  intro linked h wrap
  rw [catalog.modifiers_of_follow stack reference place linked h wrap]

/-! ### Properties that are nothing but a reference -/

/-- The field that a body makes for a property that refers to it. -/
def SchemaTree.asField : SchemaTree → Descriptor
  | .fields named => .embedded {} named
  | .simple descriptor => descriptor.setRequired false

/-- That a property without blocks carries the reference and stands for no array. -/
structure RefersDirectly (dialect : Dialect) (members : Members) (reference : String) : Prop where
  /-- There is no block. -/
  free : BlockFree dialect members
  /-- The reference stands in the property. -/
  reference : Entries.get? members "$ref" = some (.str reference)
  /-- The property is no array. -/
  single : isArrayProperty members = false

/-- That a property without blocks is an array whose items carry the reference. -/
structure RefersByItems (dialect : Dialect) (members : Members) (reference : String) : Prop where
  /-- There is no block. -/
  free : BlockFree dialect members
  /-- The property declares an array. -/
  type : Entries.get? members "type" = some (.str "array")
  /-- The property itself carries no reference. -/
  direct : Entries.get? members "$ref" = none
  /-- The reference stands in the items. -/
  items : ∃ items, Entries.get? members "items" = some (.obj items) ∧
    Entries.get? items "$ref" = some (.str reference)

section Referring

variable {members : Members} {reference : String}

theorem RefersDirectly.resolveField_eq (scope : Scope)
    (h : RefersDirectly scope.dialect members reference) (place : Pointer) :
    resolveField scope (.obj members) place =
      (scope.follow reference place).map (Linked.descriptor false) := by
  rw [resolveField_obj, Form.read_of_blockFree h.free, Form.readDeclared,
    reference?_of_own h.reference, ← h.single]
  rfl

theorem RefersByItems.resolveField_eq (scope : Scope)
    (h : RefersByItems scope.dialect members reference) (place : Pointer) :
    resolveField scope (.obj members) place =
      (scope.follow reference place).map (Linked.descriptor true) := by
  obtain ⟨items, hitems, hreference⟩ := h.items
  have harray : isArrayProperty members = true := by simp [isArrayProperty, h.type, Json.asString?]
  rw [resolveField_obj, Form.read_of_blockFree h.free, Form.readDeclared,
    reference?_of_items h.free h.direct hitems hreference, ← harray]
  rfl

end Referring

/-! ### What a definition yields in place -/

/-- That a definition declares its type in words, if at all. -/
def declaresInWords (body : Members) : Prop :=
  ∀ declared, Entries.get? body "type" = some declared →
    declared = .null ∨ ∃ word, declared = .str word

/-- Whether a definition without properties declares an array. -/
def isArrayDefinition (body : Members) : Bool :=
  !Entries.contains body "properties" && Entries.get? body "type" == some (.str "array")

/-- A scalar under another name is no array. -/
theorem isArrayDefinition_of_isAlias {body : Members} (h : isAlias body = true) :
    isArrayDefinition body = false := by
  rw [isAlias, Bool.and_eq_true] at h
  rw [isArrayDefinition, h.1, Bool.true_and, beq_eq_false_iff_ne]
  intro htype
  rw [htype] at h
  exact absurd h.2 (by decide)

/-- An object is no array. -/
theorem isArrayDefinition_of_describesObject {body : Members}
    (h : Scope.describesObject body = true) : isArrayDefinition body = false := by
  rw [Scope.describesObject, Bool.or_eq_true] at h
  rw [isArrayDefinition, Bool.and_eq_false_iff]
  rcases h with h | h
  · exact .inl (by simp [h])
  · refine .inr (beq_eq_false_iff_ne.2 fun htype => ?_)
    rw [htype] at h
    exact absurd h (by decide)

/-- What declares a type in words, and is neither an object nor a scalar, is an array. -/
theorem isArrayDefinition_of_declaresInWords {body : Members} (hwords : declaresInWords body)
    (hobject : Scope.describesObject body = false) (halias : isAlias body = false) :
    isArrayDefinition body = true := by
  rw [Scope.describesObject, Bool.or_eq_false_iff] at hobject
  obtain ⟨hproperties, htype⟩ := hobject
  cases hget : Entries.get? body "type" with
  | none => simp [hget] at htype
  | some declared =>
      rcases hwords declared hget with rfl | ⟨word, rfl⟩
      · simp [hget] at htype
      · have hcomposite : ((DeclaredType.parse? word).map DeclaredType.isComposite).getD false =
            true := by simpa [isAlias, hproperties, hget, Json.asString?] using halias
        rcases DeclaredType.isComposite_parse?_iff.1 hcomposite with rfl | rfl
        · simp [isArrayDefinition, hproperties, hget]
        · simp [hget, Json.asString?] at htype

/-- What a reference into a definition that compiles yields: the field that its body makes, and for
an array property the array of that, unless the definition is an array itself. -/
theorem Catalog.enter_of_compileDefinition {catalog : Catalog} {stack : List String}
    {name : String} {type : TypeDefinition} {tree : SchemaTree}
    (h : catalog.compileDefinition stack name type = .ok tree) :
    ∃ linked, catalog.enter (name :: stack) name type = .ok linked ∧
      linked.descriptor false = tree.asField ∧
      (declaresInWords type.body → linked.descriptor true =
        if isArrayDefinition type.body then tree.asField else .array {} tree.asField) := by
  rw [compileDefinition, Scope.tree] at h
  rw [enter, Scope.tree]
  cases halias : isAlias type.body with
  | true =>
      -- a reference takes the field itself, and the body only adds whether it is required
      rw [describesObject_of_isAlias halias, if_neg Bool.false_ne_true] at h
      obtain ⟨whole, hwhole, rfl⟩ := Outcome.map_eq_ok_iff.1 h
      obtain ⟨field, hfield, hwhole⟩ := Outcome.bind_eq_ok_iff.1 hwhole
      obtain ⟨rule, _, hwhole⟩ := Outcome.bind_eq_ok_iff.1 hwhole
      cases hwhole
      have hrequired := required_of_resolveField (catalog.required_of_follow _) hfield
      have hasField : (SchemaTree.simple (field.setRequired (rule.appliesTo name))).asField =
          field := by
        rw [SchemaTree.asField, Descriptor.setRequired_setRequired,
          Descriptor.setRequired_eq_self hrequired]
      refine ⟨.element field, ?_, ?_, ?_⟩
      · change (resolveField (catalog.scope (name :: stack)) _ _).map Linked.element = _
        exact Outcome.map_eq_ok_iff.2 ⟨field, hfield, rfl⟩
      · rw [hasField]
        rfl
      · intro _
        rw [hasField, isArrayDefinition_of_isAlias halias]
        rfl
  | false =>
      cases hobject : Scope.describesObject type.body with
      | true =>
          rw [hobject, if_pos rfl] at h
          obtain ⟨fields, hfields, rfl⟩ := Outcome.map_eq_ok_iff.1 h
          refine ⟨.element (.embedded {} fields), ?_, rfl, ?_⟩
          · rw [if_neg Bool.false_ne_true, if_pos rfl, hfields]
            rfl
          · intro _
            rw [isArrayDefinition_of_describesObject hobject]
            rfl
      | false =>
          rw [hobject, if_neg Bool.false_ne_true] at h
          obtain ⟨field, hfield, rfl⟩ := Outcome.map_eq_ok_iff.1 h
          refine ⟨.whole (field.setRequired false), ?_, rfl, ?_⟩
          · rw [if_neg Bool.false_ne_true, if_neg Bool.false_ne_true, hfield]
            rfl
          · intro hwords
            rw [isArrayDefinition_of_declaresInWords hwords hobject halias]
            rfl

/-- **What a definition yields in place is what it yields alone**, when nothing that is being
compiled can be reached from it: the same body or the same cause.  When there is a body, a property
that refers to the definition takes the field that the body makes; an array of references takes the
array of that field, or the field itself when the definition is an array already. -/
theorem Catalog.embedding_agrees {catalog : Catalog} {stack : List String} {name : String}
    {type : TypeDefinition} (htype : Entries.get? catalog.types name = some type)
    (hname : name ∉ stack) (hstack : ∀ other ∈ stack, ¬catalog.Reaches name other) :
    catalog.compileDefinition stack name type = catalog.compileDefinition [] name type ∧
      ∀ tree, catalog.compileDefinition [] name type = .ok tree →
        (∀ members reference place, RefersDirectly catalog.dialect members reference →
          Pointer.target? reference = some name →
          resolveField (catalog.scope stack) (.obj members) place = .ok tree.asField) ∧
        (declaresInWords type.body →
          ∀ members reference place, RefersByItems catalog.dialect members reference →
          Pointer.target? reference = some name →
          resolveField (catalog.scope stack) (.obj members) place =
            .ok (if isArrayDefinition type.body then tree.asField
              else .array {} tree.asField)) := by
  have hsame := compileDefinition_of_not_reaches htype hstack
  refine ⟨hsame, fun tree htree => ?_⟩
  obtain ⟨linked, hlinked, hdirect, harray⟩ := enter_of_compileDefinition (hsame.trans htree)
  -- a reference to the definition is followed into it, as it is not being compiled
  have hfollow (reference : String) (place : Pointer)
      (htarget : Pointer.target? reference = some name) :
      (catalog.scope stack).follow reference place = .ok linked := by
    have hfind : catalog.find? reference = some (name, type) := by simp [find?, htarget, htype]
    exact (follow_of_not_mem hfind hname place).trans hlinked
  constructor
  · intro members reference place hrefers htarget
    rw [RefersDirectly.resolveField_eq (catalog.scope stack) hrefers,
      hfollow reference place htarget, ← hdirect]
    rfl
  · intro hwords members reference place hrefers htarget
    rw [RefersByItems.resolveField_eq (catalog.scope stack) hrefers,
      hfollow reference place htarget, ← harray hwords]
    rfl

/-- A catalog of pets with tags, a tag being a text. -/
def petCatalog : Catalog where
  dialect := .extended
  types :=
    [("Pet", ⟨[("properties", .obj [("tag", .obj [("$ref", .str "#/definitions/Tag")])])], {}⟩),
      ("Tag", ⟨[("type", .str "string")], {}⟩)]

/-- A tag refers to nothing. -/
theorem petCatalog_not_reaches (name : String) : ¬petCatalog.Reaches "Tag" name := by
  intro hreaches
  obtain ⟨next, ⟨type, reference, htype, hmentions, _⟩, _⟩ :=
    Relation.TransGen.head'_iff.1 hreaches
  cases htype
  simp [TypeDefinition.Mentions, Json.Mentions, Json.deepMembers, Json.deepEntries] at hmentions

/-- A text is a text, in every catalog. -/
theorem Catalog.compileDefinition_string (catalog : Catalog) (stack : List String) (name : String) :
    catalog.compileDefinition stack name ⟨[("type", .str "string")], {}⟩ =
      .ok (.simple (.scalar {} .string none)) := by
  let scope := catalog.scope (name :: stack)
  have hbare : Entries.erase [("type", Json.str "string")] catalog.dialect.directiveKey =
      [("type", Json.str "string")] :=
    Entries.erase_eq_self (by cases catalog.dialect <;> rfl)
  have hread : Form.read scope.dialect [("type", .str "string")] (Pointer.definition name) =
      .ok (.scalar .string none) := by
    change Form.read catalog.dialect _ _ = _
    cases catalog.dialect <;> rfl
  have hwhole : scope.wholeField name [("type", .str "string")] (Pointer.definition name) =
      .ok (.scalar {} .string none) := by
    change (resolveField scope (.obj (Entries.erase _ catalog.dialect.directiveKey)) _ >>= _) = _
    rw [hbare, resolveField_of_read hread]
    rfl
  exact Outcome.map_eq_ok_iff.2 ⟨_, hwhole, rfl⟩

/-- Inside a pet, a tag and an array of tags are what a tag is by itself. -/
theorem Catalog.embedding_agrees_of_tag_in_pet :
    (Entries.get? petCatalog.types "Tag" = some ⟨[("type", .str "string")], {}⟩ ∧
        "Tag" ∉ ["Pet"] ∧ ∀ other ∈ ["Pet"], ¬petCatalog.Reaches "Tag" other) ∧
      petCatalog.compileDefinition ["Pet"] "Tag" ⟨[("type", .str "string")], {}⟩ =
        petCatalog.compileDefinition [] "Tag" ⟨[("type", .str "string")], {}⟩ ∧
      resolveField (petCatalog.scope ["Pet"]) (.obj [("$ref", .str "#/definitions/Tag")]) "/tag" =
        .ok (.scalar {} .string none) ∧
      resolveField (petCatalog.scope ["Pet"])
          (.obj [("type", .str "array"), ("items", .obj [("$ref", .str "#/definitions/Tag")])])
          "/tags" =
        .ok (.array {} (.scalar {} .string none)) := by
  have hname : "Tag" ∉ ["Pet"] := by decide
  have hstack : ∀ other ∈ ["Pet"], ¬petCatalog.Reaches "Tag" other :=
    fun other _ => petCatalog_not_reaches other
  obtain ⟨hsame, hfields⟩ := @embedding_agrees petCatalog _ _ _ rfl hname hstack
  obtain ⟨hdirect, harray⟩ := hfields _ (petCatalog.compileDefinition_string [] "Tag")
  have hwords : declaresInWords [("type", .str "string")] := by
    intro declared hdeclared
    cases hdeclared
    exact .inr ⟨"string", rfl⟩
  refine ⟨⟨rfl, hname, hstack⟩, hsame, ?_, ?_⟩
  · refine hdirect _ "#/definitions/Tag" "/tag" ⟨⟨rfl, ?_⟩, rfl, rfl⟩ rfl
    intro items hitems
    cases hitems
  · refine harray hwords _ "#/definitions/Tag" "/tags" ⟨⟨rfl, ?_⟩, rfl, rfl, _, rfl, rfl⟩ rfl
    intro items hitems
    cases hitems
    rfl

/-- A catalog of tags, under a name that holds a slash. -/
def slashCatalog : Catalog where
  dialect := .extended
  types := [("pet/tag", ⟨[("type", .str "string")], {}⟩)]

/-- A definition whose name holds a slash has a body of its own, but cannot be referred to. -/
theorem Catalog.slash_not_embedded :
    ("pet/tag" ∉ ([] : List String) ∧ ∀ other ∈ ([] : List String),
        ¬slashCatalog.Reaches "pet/tag" other) ∧
      slashCatalog.compileDefinition [] "pet/tag" ⟨[("type", .str "string")], {}⟩ =
        .ok (.simple (.scalar {} .string none)) ∧
      RefersDirectly slashCatalog.dialect [("$ref", .str "#/definitions/pet/tag")]
        "#/definitions/pet/tag" ∧
      resolveField (slashCatalog.scope []) (.obj [("$ref", .str "#/definitions/pet/tag")]) "/tag" =
        .error (.unresolvedReference "/tag" "#/definitions/pet/tag") := by
  have hrefers : RefersDirectly slashCatalog.dialect [("$ref", .str "#/definitions/pet/tag")]
      "#/definitions/pet/tag" := by
    refine ⟨⟨rfl, ?_⟩, rfl, rfl⟩
    intro items hitems
    cases hitems
  refine ⟨⟨by decide, by simp⟩, slashCatalog.compileDefinition_string [] _, hrefers, ?_⟩
  · rw [RefersDirectly.resolveField_eq (slashCatalog.scope []) hrefers]
    change (slashCatalog.follow [] _ _).map _ = _
    rw [follow_of_find?_eq_none rfl]
    rfl

end StoreSchema
