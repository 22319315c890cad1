/-
**Fields at every depth.**

An embedded document comes from an object, whether it stands in the compiled definition itself, in a
definition that a reference leads to, or in a property; a block can add to a document, but not
change its fields.  So what is said about the fields of one object holds of every document in a
compiled definition, however deep it lies.

Main definitions:

* `Catalog.Holds` — that a value is made of what stands in a catalog;
* `Catalog.LaidOut` — that fields are those of a definition, with the additional properties of its
  own directives, or of an object inside a property, with none;
* `Catalog.LaysOutDocument` — **that a descriptor, if it is a document, has such fields**.

Main results:

* `Form.distinct_of_part` — the parts of a property repeat no name when the property repeats none;
* `Catalog.everywhere_of_resolve`, `Catalog.everywhere_of_tree`, `Catalog.everywhere_of_follow` —
  the documents of a property, of a definition, and of what a reference yields have such fields;
* `Catalog.fields_laid_out` — **no field is lost, invented or moved**, at any depth.
-/

import StoreSchema.Proofs.Object.Fields
import StoreSchema.Proofs.Regular

set_option relaxedAutoImplicit false
set_option autoImplicit false

namespace StoreSchema

/-! ### Distinct names in the parts of a property -/

/-- Working a block into its property repeats no name. -/
theorem Json.Distinct.retyped {key : String} {block members : Members}
    (h : (Json.obj members).Distinct) (hblock : Entries.get? members key = some (.obj block))
    (validator : Option String) : (Json.obj (retyped key validator block members)).Distinct := by
  rw [StoreSchema.retyped]
  split
  · exact h.filter _
  · refine (h.filter _).insertAll fun entry hentry => ?_
    exact (Json.distinct_obj_iff.1 (h.of_get? hblock)).2 entry (List.mem_filter.1 hentry).1

/-- **The parts of a property repeat no name when the property repeats none.** -/
theorem Form.distinct_of_part {dialect : Dialect} {members : Members} {place : Pointer}
    {form : Form} {part : Json} (h : read dialect members place = .ok form)
    (hpart : Part dialect members form part) (hdistinct : (Json.obj members).Distinct) :
    part.Distinct := by
  have hwithin := within_of_read h
  cases hpart with
  | retyped block validator => exact hdistinct.retyped hwithin validator
  | overriddenItems items => exact hdistinct.of_get? hwithin
  | items items => exact hdistinct.of_get? hwithin
  | property body entry hentry =>
      rw [ObjectBody.properties_of_read (objectBody_of_read h)] at hentry
      exact (Json.distinct_obj_iff.1 hdistinct.listedProperties).2 entry hentry

/-! ### Documents -/

namespace Catalog

/-- That a value repeats no name, and that nothing stands in it that does not stand in a definition
of the catalog, or in what is added to the definition. -/
structure Holds (catalog : Catalog) (value : Json) : Prop where
  /-- No object in the value repeats a name. -/
  distinct : value.Distinct
  /-- All members of objects in it stand in a definition, or in what is added. -/
  stands : ∃ name type, (name, type) ∈ catalog.types ∧
    (value.deepMembers ⊆ (Json.obj type.body).deepMembers ∨
      value.deepMembers ⊆ (Json.obj type.directives.additional).deepMembers)

theorem Holds.inner {catalog : Catalog} {outer inner : Json} (h : catalog.Holds outer)
    (hdistinct : inner.Distinct) (hsub : inner.deepMembers ⊆ outer.deepMembers) :
    catalog.Holds inner := by
  obtain ⟨name, type, htype, hstands⟩ := h.stands
  exact ⟨hdistinct, name, type, htype,
    hstands.imp (List.Subset.trans hsub) (List.Subset.trans hsub)⟩

/-- So do the parts of a property. -/
theorem Holds.part {catalog : Catalog} {members : Members} {place : Pointer} {form : Form}
    {part : Json} (h : catalog.Holds (.obj members))
    (hread : Form.read catalog.dialect members place = .ok form)
    (hpart : Form.Part catalog.dialect members form part) : catalog.Holds part :=
  h.inner (Form.distinct_of_part hread hpart h.distinct) (Form.deepMembers_of_part hread hpart)

/-- So do the values of members. -/
theorem Holds.of_mem {catalog : Catalog} {members : Members} {entry : String × Json}
    (h : catalog.Holds (.obj members)) (hentry : entry ∈ members) : catalog.Holds entry.2 :=
  h.inner ((Json.distinct_obj_iff.1 h.distinct).2 entry hentry)
    (Json.deepMembers_subset_of_mem (Json.mem_deepEntries_of_mem hentry))

/-- So do the properties that an object lists. -/
theorem Holds.listedProperties {catalog : Catalog} {members : Members}
    (h : catalog.Holds (.obj members)) : catalog.Holds (.obj (listedProperties members)) :=
  h.inner h.distinct.listedProperties (deepMembers_listedProperties_subset members)

section Definition

variable {catalog : Catalog} {name : String} {type : TypeDefinition}

theorem holds_body (htype : (name, type) ∈ catalog.types) (hdistinct : type.Distinct) :
    catalog.Holds (.obj type.body) :=
  ⟨hdistinct.body, name, type, htype, .inl (List.Subset.refl _)⟩

theorem holds_additional (htype : (name, type) ∈ catalog.types) (hdistinct : type.Distinct) :
    catalog.Holds (.obj type.directives.additional) :=
  ⟨hdistinct.directives.additional, name, type, htype, .inr (List.Subset.refl _)⟩

/-- A definition without its block is resolved when it is no object. -/
theorem holds_bare (htype : (name, type) ∈ catalog.types) (hdistinct : type.Distinct) :
    catalog.Holds (.obj (Entries.erase type.body catalog.dialect.directiveKey)) :=
  (holds_body htype hdistinct).inner (hdistinct.body.filter _)
    (Json.deepMembers_erase_subset _ _)

end Definition

/-- **That fields are those of an object**: of a definition, with the additional properties of its
own directives, or of an object inside a property, with none. -/
inductive LaidOut (catalog : Catalog) (fields : FieldMap) : Prop where
  | definition {stack : List String} {name : String} {type : TypeDefinition}
      (htype : (name, type) ∈ catalog.types)
      (h : (catalog.scope (name :: stack)).LaysOut type.body type.directives.additional
        (Pointer.definition name) fields) : LaidOut catalog fields
  | inner {stack : List String} {members : Members} {place : Pointer}
      (hmembers : catalog.Holds (.obj members))
      (h : (catalog.scope stack).LaysOut members [] place fields) : LaidOut catalog fields

/-- That a descriptor, if it is an embedded document, has the fields of an object. -/
def LaysOutDocument (catalog : Catalog) (descriptor : Descriptor) : Prop :=
  ∀ fields, descriptor.fields? = some fields → catalog.LaidOut fields

variable {catalog : Catalog}

/-- What is no document need not have the fields of an object. -/
theorem laysOutDocument_of_none {descriptor : Descriptor}
    (h : descriptor.fields? = none) : catalog.LaysOutDocument descriptor := by
  intro fields hfields
  rw [h] at hfields
  cases hfields

/-- What is said of a descriptor besides its shape changes no document in it. -/
theorem everywhere_withModifiers {field : Descriptor}
    (h : field.Everywhere catalog.LaysOutDocument) (modifiers : Modifiers) :
    (field.withModifiers modifiers).Everywhere catalog.LaysOutDocument := by
  refine h.withModifiers fun fields hfields => ?_
  rw [Descriptor.fields?_withModifiers] at hfields
  exact h field (.self field) fields hfields

theorem everywhere_wrapped {field : Descriptor} (h : field.Everywhere catalog.LaysOutDocument)
    (wrap : Bool) : (field.wrapped wrap).Everywhere catalog.LaysOutDocument := by
  rw [Descriptor.wrapped]
  split
  · exact Descriptor.everywhere_array (laysOutDocument_of_none rfl) h
  · exact h

/-- An identifier has no document in it. -/
theorem everywhere_of_identifierField {scope : Scope} {block members : Members} {place : Pointer}
    {field : Descriptor} (h : scope.identifierField block members place = .ok field) :
    field.Everywhere catalog.LaysOutDocument := by
  obtain ⟨target, _, rfl⟩ := Outcome.map_eq_ok_iff.1 h
  refine everywhere_wrapped ?_ _
  exact Descriptor.everywhere_reference (laysOutDocument_of_none rfl)

/-- That what references yield has documents with the fields of objects only. -/
def FollowsLaidOut (catalog : Catalog) (stack : List String) : Prop :=
  ∀ reference place linked, catalog.follow stack reference place = .ok linked →
    (linked.descriptor false).Everywhere catalog.LaysOutDocument

variable {stack : List String}

/-- **All documents in a property have the fields of objects**, when those do that references
yield. -/
theorem everywhere_of_resolve (hfollow : catalog.FollowsLaidOut stack) {property : Json}
    (hproperty : catalog.Holds property) {place : Pointer} {field : Descriptor}
    (hfield : resolveField (catalog.scope stack) property place = .ok field) :
    field.Everywhere catalog.LaysOutDocument := by
  induction property using Form.part_induction catalog.dialect generalizing place field with
  | other property hother =>
      rw [resolveField_of_not_isObject hother] at hfield
      cases hfield
  | object members ih =>
      have hwhole := hfield
      rw [resolveField_obj] at hfield
      obtain ⟨form, hread, hfield⟩ := Outcome.bind_eq_ok_iff.1 hfield
      -- the induction hypothesis for the parts of this form
      have hpart {part : Json} (hpart : Form.Part catalog.dialect members form part)
          {place : Pointer} {field : Descriptor}
          (hfield : resolveField (catalog.scope stack) part place = .ok field) :
          field.Everywhere catalog.LaysOutDocument :=
        ih _ form part hread hpart (hproperty.part hread hpart) hfield
      cases form with
      | overridden block =>
          obtain ⟨validator, _, hfield⟩ := Outcome.bind_eq_ok_iff.1 hfield
          obtain ⟨base, hbase, hfield⟩ := Outcome.bind_eq_ok_iff.1 hfield
          cases hfield
          refine everywhere_withModifiers ?_ _
          rw [Scope.baseField] at hbase
          split at hbase
          · exact everywhere_of_identifierField hbase
          · exact hpart (.retyped block validator) hbase
      | overriddenItems items =>
          obtain ⟨item, hitem, rfl⟩ := Outcome.map_eq_ok_iff.1 hfield
          exact everywhere_wrapped (hpart (.overriddenItems items) hitem) true
      | referring reference =>
          obtain ⟨linked, hlinked, rfl⟩ := Outcome.map_eq_ok_iff.1 hfield
          have hlaid := hfollow reference place linked hlinked
          cases linked with
          | element descriptor => exact everywhere_wrapped hlaid _
          | whole descriptor => exact hlaid
      | scalar type values =>
          cases hfield
          exact Descriptor.everywhere_scalar (laysOutDocument_of_none rfl)
      | array items =>
          obtain ⟨item, hitem, rfl⟩ := Outcome.map_eq_ok_iff.1 hfield
          exact everywhere_wrapped (hpart (.items items) hitem) true
      | object body =>
          obtain ⟨resolved, hresolved, rfl⟩ := Outcome.map_eq_ok_iff.1 hfield
          refine Descriptor.everywhere_embedded ?_ ?_
          · -- the document itself has the fields of the object in the members
            rintro _ ⟨⟩
            rw [resolveField_of_object hread] at hwhole
            obtain ⟨fields, hfields, heq⟩ := Outcome.map_eq_ok_iff.1 hwhole
            cases heq
            have hproperties :=
              DistinctProperties.of_distinct hproperty.distinct Json.distinct_empty_object
            exact .inner hproperty (Scope.laysOut_of_objectFields hproperties hfields)
          · intro entry hentry
            obtain ⟨property, inner, required, hmem, hinner, heq⟩ :=
              resolvedFrom_of_mem hresolved (Entries.mem_of_mem_ofList hentry)
            rw [heq]
            exact everywhere_withModifiers (hpart (.property body _ hmem) hinner) _

/-- All documents in the fields of an object have the fields of objects. -/
theorem everywhere_of_objectFields (hfollow : catalog.FollowsLaidOut stack)
    {members additional : Members} (hmembers : catalog.Holds (.obj members))
    (hadditional : catalog.Holds (.obj additional)) {place : Pointer} {fields : FieldMap}
    (h : (catalog.scope stack).objectFields members additional place = .ok fields) :
    ∀ entry ∈ fields, entry.2.Everywhere catalog.LaysOutDocument := by
  obtain ⟨rule, declared, added, _, hdeclared, hadded, rfl⟩ := Scope.resolved_of_objectFields h
  -- a field comes from one of the properties, which the catalog holds
  have hresolved {properties : Members} (hproperties : catalog.Holds (.obj properties))
      {place : Pointer} {entry : String × Descriptor}
      (hentry : ResolvedFrom (catalog.scope stack) place properties entry) :
      entry.2.Everywhere catalog.LaysOutDocument := by
    obtain ⟨property, inner, required, hmem, hinner, heq⟩ := hentry
    rw [heq]
    exact everywhere_withModifiers
      (everywhere_of_resolve hfollow (hproperties.of_mem hmem) hinner) _
  intro entry hentry
  rcases List.mem_append.1 (Entries.mem_of_mem_ofList hentry) with hentry | hentry
  · exact hresolved hmembers.listedProperties (resolvedFrom_of_mem hdeclared hentry)
  · exact hresolved hadditional (resolvedFrom_of_mem hadded hentry)

/-- **All documents in a definition have the fields of objects**, the definition included. -/
theorem everywhere_of_tree {name : String} (hfollow : catalog.FollowsLaidOut (name :: stack))
    {type : TypeDefinition} (htype : (name, type) ∈ catalog.types) (hdistinct : type.Distinct)
    {tree : SchemaTree} (h : (catalog.scope (name :: stack)).tree name type = .ok tree) :
    tree.root.Everywhere catalog.LaysOutDocument := by
  rw [Scope.tree] at h
  split at h
  · obtain ⟨fields, hfields, rfl⟩ := Outcome.map_eq_ok_iff.1 h
    refine Descriptor.everywhere_embedded ?_
      (everywhere_of_objectFields hfollow (holds_body htype hdistinct)
        (holds_additional htype hdistinct) hfields)
    rintro _ ⟨⟩
    have hproperties :=
      DistinctProperties.of_distinct hdistinct.body hdistinct.directives.additional
    exact .definition htype (Scope.laysOut_of_objectFields hproperties hfields)
  · obtain ⟨whole, hwhole, rfl⟩ := Outcome.map_eq_ok_iff.1 h
    obtain ⟨field, hfield, hwhole⟩ := Outcome.bind_eq_ok_iff.1 hwhole
    obtain ⟨rule, _, hwhole⟩ := Outcome.bind_eq_ok_iff.1 hwhole
    cases hwhole
    exact everywhere_withModifiers
      (everywhere_of_resolve hfollow (holds_bare htype hdistinct) hfield) _

/-- **All documents in what references yield have the fields of objects.** -/
theorem everywhere_of_follow (hdistinct : ∀ entry ∈ catalog.types, entry.2.Distinct)
    (stack : List String) : catalog.FollowsLaidOut stack := by
  intro reference place
  induction stack, reference, place using follow_induction catalog with
  | unresolved stack reference place hfind =>
      intro linked hlinked
      cases hlinked
  | cyclic stack reference place name type hfind hmem =>
      intro linked hlinked
      cases hlinked
      exact Descriptor.everywhere_reference (laysOutDocument_of_none rfl)
  | entered stack reference place name type hfind hmem ih =>
      intro linked hlinked
      have htype := find?_mem hfind
      have hdistinct' := hdistinct _ htype
      rw [enter] at hlinked
      split at hlinked
      · obtain ⟨field, hfield, rfl⟩ := Outcome.map_eq_ok_iff.1 hlinked
        exact everywhere_of_resolve ih (holds_bare htype hdistinct') hfield
      · obtain ⟨tree, htree, rfl⟩ := Outcome.map_eq_ok_iff.1 hlinked
        have hroot := everywhere_of_tree ih htype hdistinct' htree
        cases tree with
        | fields named => exact hroot
        | simple descriptor => exact everywhere_withModifiers hroot _

/-- **No field is lost, invented or moved.**  The fields of an object are laid out in the order of
its properties; so are those of a definition that is compiled, or embedded by a reference, with the
additional properties of its own directives, and those of an object inside a property, with none.
No other documents stand in a compiled definition, at any depth. -/
theorem fields_laid_out (catalog : Catalog) (stack : List String) :
    (∀ members additional place fields, DistinctProperties members additional →
      (catalog.scope stack).objectFields members additional place = .ok fields →
      (catalog.scope stack).LaysOut members additional place fields) ∧
    (∀ name type tree, Scope.describesObject type.body = true →
      DistinctProperties type.body type.directives.additional →
      catalog.compileDefinition stack name type = .ok tree →
      ∃ fields, tree = .fields fields ∧
        (catalog.scope (name :: stack)).LaysOut type.body type.directives.additional
          (Pointer.definition name) fields) ∧
    (∀ members place reference name type descriptor,
      Form.read catalog.dialect members place = .ok (.referring reference) →
      catalog.find? reference = some (name, type) → name ∉ stack →
      Scope.describesObject type.body = true →
      DistinctProperties type.body type.directives.additional →
      resolveField (catalog.scope stack) (.obj members) place = .ok descriptor →
      ∃ fields, descriptor = (Descriptor.embedded {} fields).wrapped (isArrayProperty members) ∧
        (catalog.scope (name :: stack)).LaysOut type.body type.directives.additional
          (Pointer.definition name) fields) ∧
    (∀ members place body descriptor,
      Form.read catalog.dialect members place = .ok (.object body) →
      DistinctProperties members [] →
      resolveField (catalog.scope stack) (.obj members) place = .ok descriptor →
      ∃ fields, descriptor = .embedded {} fields ∧
        (catalog.scope stack).LaysOut members [] place fields) ∧
    (∀ name type tree, (∀ entry ∈ catalog.types, entry.2.Distinct) →
      (name, type) ∈ catalog.types → catalog.compileDefinition stack name type = .ok tree →
      ∀ modifiers fields, tree.root.Contains (.embedded modifiers fields) →
        catalog.LaidOut fields) := by
  refine ⟨?_, ?_, ?_, ?_, ?_⟩
  · intro members additional place fields hdistinct h
    exact Scope.laysOut_of_objectFields hdistinct h
  · intro name type tree hobject hdistinct h
    rw [compileDefinition_of_describesObject hobject] at h
    obtain ⟨fields, hfields, rfl⟩ := Outcome.map_eq_ok_iff.1 h
    exact ⟨fields, rfl, Scope.laysOut_of_objectFields hdistinct hfields⟩
  · intro members place reference name type descriptor hread hfind hstack hobject hdistinct h
    rw [resolveField_of_describesObject hread hfind hstack hobject] at h
    obtain ⟨fields, hfields, rfl⟩ := Outcome.map_eq_ok_iff.1 h
    exact ⟨fields, rfl, Scope.laysOut_of_objectFields hdistinct hfields⟩
  · intro members place body descriptor hread hdistinct h
    rw [resolveField_of_object hread] at h
    obtain ⟨fields, hfields, rfl⟩ := Outcome.map_eq_ok_iff.1 h
    exact ⟨fields, rfl, Scope.laysOut_of_objectFields hdistinct hfields⟩
  · intro name type tree hdistinct htype h modifiers fields hcontains
    have hfollow := everywhere_of_follow hdistinct (name :: stack)
    have hroot := everywhere_of_tree hfollow htype (hdistinct _ htype) h
    exact hroot _ hcontains fields rfl

end Catalog

/-- A home, described inside its owner. -/
def home : Members :=
  [("type", .str "object"),
    ("properties", .obj
      [("street", .obj [("type", .str "string")]), ("__v", .obj [("type", .str "number")])])]

/-- An owner, with a pet and a home; the name is added, and the age becomes a number. -/
def owner : TypeDefinition where
  body :=
    [("properties", .obj
      [("_id", .obj [("type", .str "string")]), ("age", .obj [("type", .str "string")]),
        ("pet", .obj [("$ref", .str "#/definitions/Pet")]), ("home", .obj home)])]
  directives :=
    { additional :=
        [("name", .obj [("type", .str "string")]), ("age", .obj [("type", .str "number")])] }

/-- A pet, to which a weight is added. -/
def pet : TypeDefinition where
  body := [("properties", .obj [("label", .obj [("type", .str "string")])])]
  directives := { additional := [("weight", .obj [("type", .str "number")])] }

/-- Owners and pets. -/
def ownerCatalog : Catalog where
  dialect := .extended
  types := [("Owner", owner), ("Pet", pet)]

theorem distinct_ownerCatalog : ∀ entry ∈ ownerCatalog.types, entry.2.Distinct := by
  intro entry hentry
  have hentry : entry = ("Owner", owner) ∨ entry = ("Pet", pet) := by
    simpa [ownerCatalog] using hentry
  rcases hentry with rfl | rfl
  · refine ⟨?_, ?_, ?_, nofun⟩ <;> simp [owner, home, Json.Distinct, Json.DistinctMembers]
  · refine ⟨?_, ?_, ?_, nofun⟩ <;> simp [pet, Json.Distinct, Json.DistinctMembers]

/-- Owners have the fields that they list, the age as a number, and the name behind them; the pet
inside an owner has its weight, and the home nothing but a street. -/
theorem ownerCatalog_laid_out :
    (∃ fields, (ownerCatalog.scope ["Owner"]).objectFields owner.body owner.directives.additional
        "" = .ok fields ∧ Entries.keys fields = ["age", "pet", "home", "name"] ∧
      (Entries.get? fields "age").bind Descriptor.primitive? = some .number) ∧
    (∃ fields, ownerCatalog.compileDefinition [] "Owner" owner = .ok (.fields fields) ∧
      Entries.keys fields = ["age", "pet", "home", "name"]) ∧
    (∃ fields, resolveField (ownerCatalog.scope ["Owner"])
        (.obj [("$ref", .str "#/definitions/Pet")]) "" = .ok (.embedded {} fields) ∧
      Entries.keys fields = ["label", "weight"]) ∧
    (∃ fields, resolveField (ownerCatalog.scope ["Owner"]) (.obj home) "" =
        .ok (.embedded {} fields) ∧
      Entries.keys fields = ["street"]) ∧
    (∃ tree, ownerCatalog.compileDefinition [] "Owner" owner = .ok tree ∧
      ∀ modifiers fields, tree.root.Contains (.embedded modifiers fields) →
        ownerCatalog.LaidOut fields) := by
  have howner : DistinctProperties owner.body owner.directives.additional :=
    ⟨by decide, by decide⟩
  have hcompiles : (ownerCatalog.compileDefinition [] "Owner" owner).Succeeds := by decide +kernel
  obtain ⟨tree, htree⟩ := hcompiles
  refine ⟨?_, ?_, ?_, ?_, ?_⟩
  · have hsucceeds : ((ownerCatalog.scope ["Owner"]).objectFields owner.body
        owner.directives.additional "").Succeeds := by decide +kernel
    obtain ⟨fields, h⟩ := hsucceeds
    have hlaid := (Catalog.fields_laid_out ownerCatalog ["Owner"]).1 _ _ _ _ howner h
    refine ⟨fields, h, hlaid.names.trans (by decide), ?_⟩
    obtain ⟨rule, field, hrule, hfield, hentry⟩ := hlaid.added "age" _ rfl rfl
    cases hrule
    have hnumber : ((ownerCatalog.scope ["Owner"]).entry (.all false) "age"
        (.obj [("type", .str "number")])
        ((Pointer.child "" "additional-properties").child "age")).toOption.join.bind
          Descriptor.primitive? = some .number := by decide +kernel
    rw [hentry] at hnumber
    rw [hfield]
    exact hnumber
  · obtain ⟨fields, rfl, hlaid⟩ :=
      (Catalog.fields_laid_out ownerCatalog []).2.1 "Owner" owner tree (by decide) howner htree
    exact ⟨fields, htree, hlaid.names.trans (by decide)⟩
  · have hsucceeds : (resolveField (ownerCatalog.scope ["Owner"])
        (.obj [("$ref", .str "#/definitions/Pet")]) "").Succeeds := by decide +kernel
    obtain ⟨descriptor, h⟩ := hsucceeds
    obtain ⟨fields, rfl, hlaid⟩ := (Catalog.fields_laid_out ownerCatalog ["Owner"]).2.2.1
      _ _ _ "Pet" pet descriptor rfl rfl (by decide) (by decide) ⟨by decide, by decide⟩ h
    exact ⟨fields, h, hlaid.names.trans (by decide)⟩
  · have hsucceeds : (resolveField (ownerCatalog.scope ["Owner"]) (.obj home) "").Succeeds := by
      decide +kernel
    obtain ⟨descriptor, h⟩ := hsucceeds
    obtain ⟨fields, rfl, hlaid⟩ := (Catalog.fields_laid_out ownerCatalog ["Owner"]).2.2.2.1
      _ _ _ descriptor rfl ⟨by decide, by decide⟩ h
    exact ⟨fields, h, hlaid.names.trans (by decide)⟩
  · exact ⟨tree, htree, (Catalog.fields_laid_out ownerCatalog []).2.2.2.2 "Owner" owner tree
      distinct_ownerCatalog (List.mem_cons_self ..) htree⟩

end StoreSchema
