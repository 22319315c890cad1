/-
**Compiled schemas are regular.**

Whatever a document says, its schemas can be handed to the store: at every depth the fields of a
document have distinct names, none of which the store keeps for itself, the elements of an array are
not required one by one, and the attributes that blocks add to a descriptor are neither keywords of
properties nor do they steer compilation.  These are facts about single descriptors, which all ways
of building descriptors keep.

Main definitions:

* `Descriptor.Regular` — **a regular descriptor**.

Main results:

* `Descriptor.invariant_regular` — the ways in which descriptors are built keep them regular;
* `compile_eq_ok_iff` — compiling a document is compiling its catalog;
* `regular_of_compile` — **every descriptor in a compiled schema is regular**, at every depth.
-/

import StoreSchema.Proofs.Everywhere

set_option relaxedAutoImplicit false
set_option autoImplicit false

namespace StoreSchema

namespace Descriptor

/-- **A regular descriptor.** -/
structure Regular (descriptor : Descriptor) : Prop where
  /-- The fields of a document have distinct names. -/
  distinct : ∀ fields, descriptor.fields? = some fields → (Entries.keys fields).Nodup
  /-- The store keeps none of these names for itself. -/
  free : ∀ fields, descriptor.fields? = some fields →
    ∀ name ∈ Entries.keys fields, name ∉ reservedNames
  /-- The elements of an array are not required. -/
  elements : ∀ item, descriptor.item? = some item → item.modifiers.required = false
  /-- The attributes are neither keywords of properties nor steer compilation. -/
  attributes : ∀ key ∈ Entries.keys descriptor.modifiers.attributes,
    key ∉ propertyKeywords ∧ key ∉ controlKeys

@[simp] theorem fields?_withModifiers (descriptor : Descriptor) (modifiers : Modifiers) :
    (descriptor.withModifiers modifiers).fields? = descriptor.fields? := by
  cases descriptor <;> rfl

@[simp] theorem item?_withModifiers (descriptor : Descriptor) (modifiers : Modifiers) :
    (descriptor.withModifiers modifiers).item? = descriptor.item? := by
  cases descriptor <;> rfl

/-- Whether a descriptor is regular depends on its shape and its attributes. -/
theorem Regular.withModifiers {descriptor : Descriptor} (h : descriptor.Regular)
    {modifiers : Modifiers}
    (hattributes : ∀ key ∈ Entries.keys modifiers.attributes,
      key ∉ propertyKeywords ∧ key ∉ controlKeys) :
    (descriptor.withModifiers modifiers).Regular where
  distinct := by simpa using h.distinct
  free := by simpa using h.free
  elements := by simpa using h.elements
  attributes := by simpa using hattributes

end Descriptor

/-- A block gives only attributes that are neither keywords of properties nor steer compilation. -/
theorem not_mem_of_mem_attributes {block : Members} {key : String}
    (h : key ∈ Entries.keys (attributes block)) : key ∉ propertyKeywords ∧ key ∉ controlKeys := by
  obtain ⟨member, hmember, rfl⟩ := List.mem_map.1 h
  have hkept := (List.mem_filter.1 hmember).2
  simpa using hkept

namespace Descriptor

/-- **The ways in which descriptors are built keep them regular.** -/
theorem invariant_regular : Invariant Regular where
  array item _ hrequired := by
    refine ⟨nofun, nofun, ?_, nofun⟩
    intro found hfound
    cases hfound
    exact hrequired
  embedded fields _ hdistinct hfree := by
    refine ⟨?_, ?_, nofun, nofun⟩
    · intro found hfound
      cases hfound
      exact hdistinct
    · intro found hfound name hname
      cases hfound
      simpa [isReserved] using hfree name hname
  setRequired field required h := h.withModifiers h.attributes

/-- A block keeps a descriptor regular. -/
theorem Regular.decorate {descriptor : Descriptor} (h : descriptor.Regular)
    (validator : Option String) (block : Members) :
    (decorate validator block descriptor).Regular := by
  refine h.withModifiers ?_
  intro key hkey
  obtain ⟨member, hmember, rfl⟩ := List.mem_map.1 hkey
  -- an attribute was there before, or comes from the block
  rcases Entries.mem_insertAll hmember with hmember | hmember
  · exact h.attributes member.1 (List.mem_map_of_mem hmember)
  · exact not_mem_of_mem_attributes (List.mem_map_of_mem hmember)

theorem regular_scalar (type : Primitive) (values : Option (List Json)) :
    (scalar {} type values).Regular :=
  ⟨nofun, nofun, nofun, nofun⟩

theorem regular_reference (target : Option String) : (reference {} target).Regular :=
  ⟨nofun, nofun, nofun, nofun⟩

end Descriptor

/-- The references and the blocks of every catalog keep descriptors regular. -/
theorem Catalog.keeps_regular (catalog : Catalog) :
    catalog.Keeps (fun _ _ => True) Descriptor.Regular where
  scalar _ _ primitive values _ _ := Descriptor.regular_scalar primitive values
  refers _ _ _ _ _ _ _ := trivial
  trans _ _ _ _ _ := trivial
  cyclic name _ := Descriptor.regular_reference (some name)
  identifier _ _ _ target _ _ _ _ := Descriptor.regular_reference target
  decorate _ _ block validator _ _ _ h := h.decorate validator block

/-- Compiling a document is compiling its catalog under the overlay. -/
theorem compile_eq_ok_iff {source : Source} {options : Options} {compilation : Compilation} :
    compile source options = .ok compilation ↔
      ∃ document catalog, source.normalize = .ok document ∧
        catalogOf document options.overlay = .ok catalog ∧
        catalog.compile options.validators = .ok compilation := by
  rw [compile, Outcome.bind_eq_ok_iff]
  constructor
  · rintro ⟨document, hdocument, h⟩
    obtain ⟨catalog, hcatalog, h⟩ := Outcome.bind_eq_ok_iff.1 h
    exact ⟨document, catalog, hdocument, hcatalog, h⟩
  · rintro ⟨document, catalog, hdocument, hcatalog, h⟩
    exact ⟨document, hdocument, Outcome.bind_eq_ok_iff.2 ⟨catalog, hcatalog, h⟩⟩

/-- **Every descriptor in a compiled schema is regular**: in the body, which counts as a document of
its own when it is an object, in embedded documents, in the definitions that references lead to, in
arrays, and in the properties that are added to a type. -/
theorem regular_of_compile {source : Source} {options : Options} {compilation : Compilation}
    (h : compile source options = .ok compilation) :
    ∀ schema ∈ compilation.schemas, ∀ field, schema.tree.root.Contains field → field.Regular := by
  obtain ⟨document, catalog, _, _, hcompile⟩ := compile_eq_ok_iff.1 h
  exact catalog.keeps_regular.compile Descriptor.invariant_regular hcompile

/-- The friends of a person, which are looked up by an index. -/
def friendsProperty : Members :=
  [("type", .str "array"), ("items", .obj [("$ref", .str "#/definitions/Person")]),
    ("x-swagger-mongoose", .obj [("index", .bool true)])]

/-- The members of a person. -/
def personBody : Members :=
  [("properties", .obj
    [("_id", .obj [("type", .str "string")]), ("friends", .obj friendsProperty),
      ("tag", .obj [("$ref", .str "#/definitions/Tag")])])]

/-- A document of persons, their friends and their tags. -/
def personDocument : Members :=
  [("openapi", .str "3.0"),
    ("definitions", .obj [("Person", .obj personBody), ("Tag", .obj [("type", .str "string")])])]

/-- The definitions of `personDocument`. -/
def personCatalog : Catalog where
  dialect := .extended
  types := [("Person", ⟨personBody, {}⟩), ("Tag", ⟨[("type", .str "string")], {}⟩)]

/-- The friends of a person are identifiers of persons. -/
def friendsField : Descriptor :=
  .array { attributes := [("index", .bool true)] } (.reference {} (some "Person"))

/-- The schema of a person. -/
def personSchema : CompiledSchema where
  name := "Person"
  tree := .fields [("friends", friendsField), ("tag", .scalar {} .string none)]
  options := []
  indexes := []
  validatorModule := none

/-- The schema of a tag. -/
def tagSchema : CompiledSchema where
  name := "Tag"
  tree := .simple (.scalar {} .string none)
  options := []
  indexes := []
  validatorModule := none

theorem resolveField_friends (place : Pointer) :
    resolveField (personCatalog.scope ["Person"]) (.obj friendsProperty) place =
      .ok friendsField := by
  have hfind : personCatalog.find? "#/definitions/Person" = some ("Person", ⟨personBody, {}⟩) := rfl
  have hfollow : personCatalog.follow ["Person"] "#/definitions/Person" place =
      .ok (.element (.reference {} (some "Person"))) :=
    Catalog.follow_of_mem hfind (List.mem_singleton_self _) place
  -- the block is worked into the property, which then is a reference to what is being compiled
  have hretyped : resolveField (personCatalog.scope ["Person"])
      (.obj (retyped "x-swagger-mongoose" none [("index", .bool true)] friendsProperty)) place =
        .ok (.array {} (.reference {} (some "Person"))) := by
    have hread : Form.read (personCatalog.scope ["Person"]).dialect
        (retyped "x-swagger-mongoose" none [("index", .bool true)] friendsProperty) place =
          .ok (.referring "#/definitions/Person") := rfl
    rw [resolveField_of_read hread]
    change (personCatalog.follow _ _ _).map _ = _
    rw [hfollow]
    rfl
  have hread : Form.read (personCatalog.scope ["Person"]).dialect friendsProperty place =
      .ok (.overridden [("index", .bool true)]) := rfl
  rw [resolveField_of_read hread]
  change (resolveField (personCatalog.scope ["Person"])
    (.obj (retyped "x-swagger-mongoose" none [("index", .bool true)] friendsProperty)) place >>=
      fun field => return decorate none [("index", .bool true)] field) = _
  rw [hretyped]
  rfl

theorem resolveField_tag (place : Pointer) :
    resolveField (personCatalog.scope ["Person"]) (.obj [("$ref", .str "#/definitions/Tag")]) place =
      .ok (.scalar {} .string none) := by
  obtain ⟨linked, hlinked, hfield, _⟩ :=
    Catalog.enter_of_compileDefinition (personCatalog.compileDefinition_string ["Person"] "Tag")
  have hfollow : personCatalog.follow ["Person"] "#/definitions/Tag" place = .ok linked :=
    (Catalog.follow_of_not_mem rfl (by decide) place).trans hlinked
  have hread : Form.read (personCatalog.scope ["Person"]).dialect
      [("$ref", .str "#/definitions/Tag")] place = .ok (.referring "#/definitions/Tag") := rfl
  rw [resolveField_of_read hread]
  change (personCatalog.follow _ _ _).map (Linked.descriptor false) = _
  rw [hfollow]
  exact congrArg Except.ok hfield

theorem compile_personDocument :
    compile (.parsed (.obj personDocument)) {} = .ok ⟨[personSchema, tagSchema], []⟩ := by
  have hfriends (place : Pointer) : (personCatalog.scope ["Person"]).entry (.all false) "friends"
      (.obj friendsProperty) place = .ok (some friendsField) := by
    rw [Scope.entry, if_neg (by decide), resolveField_friends]
    rfl
  have htag (place : Pointer) : (personCatalog.scope ["Person"]).entry (.all false) "tag"
      (.obj [("$ref", .str "#/definitions/Tag")]) place =
        .ok (some (.scalar {} .string none)) := by
    rw [Scope.entry, if_neg (by decide), resolveField_tag]
    rfl
  have hproperties (place : Pointer) : resolveProperties (personCatalog.scope ["Person"])
      (.all false) place
      [("_id", .obj [("type", .str "string")]), ("friends", .obj friendsProperty),
        ("tag", .obj [("$ref", .str "#/definitions/Tag")])] =
          .ok [("friends", friendsField), ("tag", .scalar {} .string none)] := by
    rw [resolveProperties_cons, resolveProperties_cons, resolveProperties_cons, hfriends, htag,
      resolveProperties_nil]
    rfl
  have hperson : personCatalog.compileDefinition [] "Person" ⟨personBody, {}⟩ =
      .ok personSchema.tree := by
    change ((do
      let declared ← resolveProperties (personCatalog.scope ["Person"]) (.all false) _ _
      let added ← resolveProperties (personCatalog.scope ["Person"]) (.all false) _ []
      return Entries.ofList (declared ++ added)) : Outcome FieldMap).map SchemaTree.fields = _
    rw [hproperties, resolveProperties_nil]
    rfl
  have hrest : personCatalog.compileTypes [] [("Tag", ⟨[("type", .str "string")], {}⟩)] =
      .ok ⟨[tagSchema], []⟩ := by
    change (personCatalog.compileDefinition [] "Tag" ⟨[("type", .str "string")], {}⟩ >>= _) = _
    rw [personCatalog.compileDefinition_string]
    rfl
  have hcompile : personCatalog.compile [] = .ok ⟨[personSchema, tagSchema], []⟩ := by
    change (personCatalog.compileDefinition [] "Person" ⟨personBody, {}⟩ >>= _) = _
    rw [hperson]
    change (personCatalog.compileTypes [] [("Tag", ⟨[("type", .str "string")], {}⟩)] >>= _) = _
    rw [hrest]
    rfl
  exact compile_eq_ok_iff.2 ⟨personDocument, personCatalog, rfl, rfl, hcompile⟩

/-- The friends of a person are regular: no identifier in the array is required, and the index is an
attribute. -/
theorem friendsField_regular :
    compile (.parsed (.obj personDocument)) {} = .ok ⟨[personSchema, tagSchema], []⟩ ∧
      personSchema.tree.root.Contains friendsField ∧ friendsField.Regular := by
  have hcontains : personSchema.tree.root.Contains friendsField :=
    .field (List.mem_cons_self ..) (.self _)
  exact ⟨compile_personDocument, hcontains,
    regular_of_compile compile_personDocument personSchema (List.mem_cons_self ..)
      friendsField hcontains⟩

end StoreSchema
