/-
**Which types identifiers belong to.**

An identifier that names a type names a definition of the document, whether a block asked for it or
a reference closed a cycle.  If no block asks for identifiers, only cycles make them: on the stack
each definition refers to the one above it, so a reference to a definition on the stack leads from
that definition back to itself.  A definition that does not lead back to itself is thus never found
on the stack; it is followed into every time, and yields the body that it has by itself.

Main definitions:

* `definedNames` — the names of the definitions of a document;
* `Descriptor.BelongsTo` — that the type of an identifier has a property;
* `Catalog.Chain` — that on a stack each definition refers to the one above it.

Main results:

* `keys_of_catalogOf`, `identifierFree_of_catalogOf` — a catalog has the definitions of its
  document, and no block in it asks for an identifier when none does in the document and the overlay;
* `Catalog.keeps_defined`, `Catalog.keeps_reaches` — where identifiers come from;
* `Catalog.follow_of_not_reaches` — **what does not lead back to itself is embedded as it stands**;
* `identifiers_of_compile` — **identifiers belong to definitions, and those that no block asked for
  to definitions on a cycle**.
-/

import StoreSchema.Proofs.Overlay.Invariants
import StoreSchema.Proofs.Regular

set_option relaxedAutoImplicit false
set_option autoImplicit false

namespace StoreSchema

/-- The names of the definitions of a document. -/
def definedNames (document : Members) : List String :=
  Entries.keys (((Entries.get? document "definitions").map Json.members).getD [])

/-! ### The catalog of a document -/

section Catalogs

variable {registry : Registry}

/-- The definitions of a catalog are those of the registry, each with its directives. -/
theorem Registry.paired_of_typeDefinitions {listed : Entries Members}
    {types : Entries TypeDefinition} (h : registry.typeDefinitions listed = .ok types) :
    Entries.Paired (fun name type body => body = type.body ∧
      registry.directives name = .ok type.directives) types listed := by
  induction listed generalizing types with
  | nil =>
      cases h
      exact .nil
  | cons first rest ih =>
      obtain ⟨name, body⟩ := first
      rw [Registry.typeDefinitions] at h
      obtain ⟨directives, hdirectives, h⟩ := Outcome.bind_eq_ok_iff.1 h
      obtain ⟨others, hothers, h⟩ := Outcome.bind_eq_ok_iff.1 h
      cases h
      exact .cons ⟨rfl, hdirectives⟩ (ih hothers)

/-- Only options of schemas are combined. -/
theorem effectiveValue_of_ne {key : String} (hkey : key ≠ schemaOptionsKey)
    (present : Option Json) (value : Json) : effectiveValue key present value = value := by
  unfold effectiveValue
  split
  · rw [if_neg hkey]
  · rfl

/-- A directive of the type counts, and else that of the document. -/
theorem get?_of_effectiveBlock {defaults own : Members} {key : String} {value : Json}
    (hkey : key ≠ schemaOptionsKey)
    (h : Entries.get? (effectiveBlock defaults own) key = some value) :
    Entries.get? defaults key = some value ∨ (key, value) ∈ own := by
  induction own generalizing defaults with
  | nil => exact .inl h
  | cons first rest ih =>
      obtain ⟨name, new⟩ := first
      rw [effectiveBlock] at h
      rcases ih h with hlaid | hmem
      · rw [Entries.get?_insert] at hlaid
        split at hlaid
        · next hname =>
            subst hname
            rw [effectiveValue_of_ne hkey] at hlaid
            cases hlaid
            exact .inr (List.mem_cons_self ..)
        · exact .inl hlaid
      · exact .inr (List.mem_cons_of_mem _ hmem)

/-- The properties that are added to a type stand in its effective block. -/
theorem TypeDirectives.additional_of_read {block : Members} {place : Pointer}
    {directives : TypeDirectives} (h : TypeDirectives.read block place = .ok directives) :
    directives.additional = [] ∨
      Entries.get? block additionalPropertiesKey = some (.obj directives.additional) := by
  obtain ⟨options, _, h⟩ := Outcome.bind_eq_ok_iff.1 h
  obtain ⟨exclude, _, h⟩ := Outcome.bind_eq_ok_iff.1 h
  obtain ⟨additional, hadditional, h⟩ := Outcome.bind_eq_ok_iff.1 h
  obtain ⟨indexes, _, h⟩ := Outcome.bind_eq_ok_iff.1 h
  obtain ⟨validatorModule, _, h⟩ := Outcome.bind_eq_ok_iff.1 h
  cases h
  rw [readObject] at hadditional
  split at hadditional
  · exact .inl (Except.ok.inj hadditional).symm
  · exact .inl (Except.ok.inj hadditional).symm
  · next members hmembers =>
      cases hadditional
      exact .inr hmembers
  · cases hadditional

/-- No block in what is added to a type asks for an identifier when none does in the registry. -/
theorem Registry.IdentifierFree.additional (h : registry.IdentifierFree) {name : String}
    {directives : TypeDirectives} (hdirectives : registry.directives name = .ok directives) :
    (Json.obj directives.additional).IdentifierFree registry.dialect.directiveKey := by
  rcases TypeDirectives.additional_of_read hdirectives with hnone | hget
  · rw [hnone]
    exact Json.identifierFree_nil _
  · have hown : (Json.obj ((Entries.get? registry.typeBlocks name).getD [])).IdentifierFree
        registry.dialect.directiveKey := by
      cases hblock : Entries.get? registry.typeBlocks name with
      | none => exact Json.identifierFree_nil _
      | some block => exact h.typeBlocks (name, block) (Entries.mem_of_get? hblock)
    rcases get?_of_effectiveBlock (by decide) hget with hget | hmem
    · exact (Json.identifierFree_single_iff.1 (h.defaults.of_get? hget)).1
    · have hsingle := Json.identifierFree_obj_iff.1 hown _ hmem
      exact (Json.identifierFree_single_iff.1 hsingle).1

variable {document : Members} {overlay : Option Json} {catalog : Catalog}

/-- A catalog has the definitions of the registry of its document. -/
theorem build_of_catalogOf (h : catalogOf document overlay = .ok catalog) :
    ∃ registry, Registry.build document (Dialect.detect document) = .ok registry ∧
      Entries.keys catalog.types = Entries.keys registry.definitions := by
  obtain ⟨registry, hregistry, h⟩ := Outcome.bind_eq_ok_iff.1 h
  obtain ⟨overlaid, hoverlaid, h⟩ := Outcome.bind_eq_ok_iff.1 h
  obtain ⟨types, htypes, rfl⟩ := Outcome.map_eq_ok_iff.1 h
  refine ⟨registry, hregistry, ?_⟩
  rw [← (Overlay.keys_of_apply hoverlaid).2]
  exact (Registry.paired_of_typeDefinitions htypes).keys_eq

/-- **The catalog of a document has the definitions of the document.** -/
theorem keys_of_catalogOf (h : catalogOf document overlay = .ok catalog) :
    Entries.keys catalog.types = definedNames document := by
  obtain ⟨registry, hregistry, hkeys⟩ := build_of_catalogOf h
  obtain ⟨listed, hlisted, hregistryKeys⟩ := Registry.keys_of_build hregistry
  rw [hkeys, hregistryKeys, definedNames]
  rcases Registry.definitionList_eq_ok_iff.1 hlisted with ⟨hnone, rfl⟩ | hget
  · rw [hnone]
    rfl
  · rw [hget]
    rfl

/-- The definitions of a catalog are distinct when the document repeats no name. -/
theorem nodup_keys_of_catalogOf (h : catalogOf document overlay = .ok catalog)
    (hdistinct : (Json.obj document).Distinct) : (Entries.keys catalog.types).Nodup := by
  obtain ⟨registry, hregistry, hkeys⟩ := build_of_catalogOf h
  rw [hkeys]
  exact Registry.nodup_keys_of_build hregistry hdistinct

/-- **No block in a catalog asks for an identifier** when none does in the document and in the
overlay. -/
theorem identifierFree_of_catalogOf (h : catalogOf document overlay = .ok catalog)
    (hdocument : (Json.obj document).IdentifierFree catalog.dialect.directiveKey)
    (hoverlay : ∀ value, overlay = some value →
      Overlay.IdentifierFree value catalog.dialect.directiveKey) :
    ∀ entry ∈ catalog.types, ∀ block,
      entry.2.Carries catalog.dialect.directiveKey block → ¬AsksForIdentifier block := by
  obtain ⟨registry, hregistry, h⟩ := Outcome.bind_eq_ok_iff.1 h
  obtain ⟨overlaid, hoverlaid, h⟩ := Outcome.bind_eq_ok_iff.1 h
  obtain ⟨types, htypes, rfl⟩ := Outcome.map_eq_ok_iff.1 h
  have hkept := (Overlay.keys_of_apply hoverlaid).1
  have hdialect := Registry.dialect_of_build hregistry
  have hregistryFree : registry.IdentifierFree := by
    refine Registry.identifierFree_of_build hregistry ?_
    rw [← hdialect, ← hkept]
    exact hdocument
  have hfree : overlaid.IdentifierFree := by
    refine Overlay.identifierFree_apply hregistryFree ?_ hoverlaid
    rw [← hkept]
    exact hoverlay
  intro entry hentry block hblock
  obtain ⟨body, hbody, rfl, hdirectives⟩ :=
    (Registry.paired_of_typeDefinitions htypes).exists_of_mem hentry
  rcases hblock with hblock | hblock
  · exact (Json.identifierFree_single_iff.1 (hfree.definitions _ hbody)).1 block hblock
  · exact hfree.additional hdirectives block hblock

end Catalogs

/-! ### Where identifiers come from -/

/-- That the type of an identifier has a property, if it names one. -/
def Descriptor.BelongsTo (Q : String → Prop) (descriptor : Descriptor) : Prop :=
  ∀ name, descriptor.target? = some name → Q name

theorem Descriptor.belongsTo_scalar {Q : String → Prop} (type : Primitive)
    (values : Option (List Json)) : (scalar {} type values).BelongsTo Q := nofun

theorem Descriptor.belongsTo_reference {Q : String → Prop} {target : Option String}
    (h : ∀ name, target = some name → Q name) : (reference {} target).BelongsTo Q := h

/-- Modifiers change nothing about the type of an identifier. -/
theorem Descriptor.BelongsTo.withModifiers {Q : String → Prop} {descriptor : Descriptor}
    (h : descriptor.BelongsTo Q) (modifiers : Modifiers) :
    (descriptor.withModifiers modifiers).BelongsTo Q := by
  cases descriptor with
  | reference _ target => exact h
  | _ => exact nofun

/-- Only identifiers name types, so it is enough to look at those. -/
theorem Descriptor.invariant_belongsTo (Q : String → Prop) : Invariant (BelongsTo Q) where
  array _ _ _ := nofun
  embedded _ _ _ _ := nofun
  setRequired _ _ h := h.withModifiers _

namespace Catalog

variable {catalog : Catalog}

/-- **Identifiers belong to definitions.** -/
theorem keeps_defined (catalog : Catalog) :
    catalog.Keeps (fun _ target => target ∈ Entries.keys catalog.types)
      (Descriptor.BelongsTo (· ∈ Entries.keys catalog.types)) where
  scalar _ _ primitive values _ _ := Descriptor.belongsTo_scalar primitive values
  refers _ _ _ _ _ _ htarget := Entries.isSome_get?_iff.1 (target?_eq_some_iff.1 htarget).2
  trans _ _ _ _ hthird := hthird
  cyclic name hname := by
    refine Descriptor.belongsTo_reference ?_
    intro other hother
    cases hother
    exact hname
  identifier _ _ _ _ _ _ _ htarget := Descriptor.belongsTo_reference htarget
  decorate _ _ _ _ _ _ _ h := h.withModifiers _

/-- **Identifiers that no block asked for belong to definitions on a cycle.** -/
theorem keeps_reaches (hdistinct : (Entries.keys catalog.types).Nodup)
    (hfree : ∀ entry ∈ catalog.types, ∀ block,
      entry.2.Carries catalog.dialect.directiveKey block → ¬AsksForIdentifier block) :
    catalog.Keeps catalog.Reaches (Descriptor.BelongsTo fun name => catalog.Reaches name name) where
  scalar _ _ primitive values _ _ := Descriptor.belongsTo_scalar primitive values
  refers _ type reference _ htype hmentions htarget :=
    .single ⟨type, reference, Entries.get?_of_mem hdistinct htype, hmentions, htarget⟩
  trans _ _ _ hfirst hsecond := hfirst.trans hsecond
  cyclic name hname := by
    refine Descriptor.belongsTo_reference ?_
    intro other hother
    cases hother
    exact hname
  identifier name type block _ htype hblock hstores _ :=
    absurd (asksForIdentifier_of_storesIdentifier hstores) (hfree (name, type) htype block hblock)
  decorate _ _ _ _ _ _ _ h := h.withModifiers _

/-! ### What is embedded -/

/-- **That on a stack each definition refers to the one above it**, as they do while references are
followed. -/
inductive Chain (catalog : Catalog) : List String → Prop where
  /-- A definition that is compiled by itself. -/
  | single (name : String) : Chain catalog [name]
  /-- A definition that is referred to by the one below it. -/
  | link {name below : String} {stack : List String} (hrefers : catalog.Refers below name)
      (h : Chain catalog (below :: stack)) : Chain catalog (name :: below :: stack)

/-- All definitions on a stack lead to the one on top. -/
theorem reaches_of_chain : ∀ {stack : List String} {name : String},
    catalog.Chain (name :: stack) → ∀ other ∈ stack, catalog.Reaches other name
  | [], _, _ => nofun
  | below :: rest, name, .link hrefers h => by
      intro other hother
      rcases List.mem_cons.1 hother with rfl | hother
      · exact .single hrefers
      · exact (reaches_of_chain h other hother).tail hrefers

/-- **A definition that does not lead back to itself is embedded as it stands**: a reference to it
yields the field that its body makes, however it was come to. -/
theorem follow_of_not_reaches {stack : List String} {name : String} {type : TypeDefinition}
    {reference : String} (hchain : catalog.Chain (name :: stack))
    (hname : ¬catalog.Reaches name name) (hfind : catalog.find? reference = some (name, type))
    {tree : SchemaTree} (htree : catalog.compileDefinition [] name type = .ok tree)
    (place : Pointer) :
    ∃ linked, catalog.follow stack reference place = .ok linked ∧
      linked.descriptor false = tree.asField := by
  have hreaches := reaches_of_chain hchain
  have hmem : name ∉ stack := fun hmem => hname (hreaches name hmem)
  have hstack : ∀ other ∈ stack, ¬catalog.Reaches name other :=
    fun other hother hback => hname (hback.trans (hreaches other hother))
  -- so the definition compiles as it does by itself
  have hsame := compileDefinition_of_not_reaches (find?_eq_some_iff.1 hfind).2 hstack
  obtain ⟨linked, hlinked, hdescriptor, _⟩ := enter_of_compileDefinition (hsame.trans htree)
  exact ⟨linked, (follow_of_not_mem hfind hmem place).trans hlinked, hdescriptor⟩

end Catalog

/-- **Identifiers belong to definitions.**  In the schemas of a document every identifier that names
a type, at any depth, names a definition of the document.  When no block asks for an identifier,
neither in the document nor in the overlay, it names a definition that leads back to itself; the
document has to repeat no name, and one that is given as text or bytes repeats none.  A definition
that does not lead back to itself is embedded wherever it is referred to, as it stands. -/
theorem identifiers_of_compile {source : Source} {options : Options} {compilation : Compilation}
    (h : compile source options = .ok compilation) :
    ∃ document catalog, source.normalize = .ok document ∧
      catalogOf document options.overlay = .ok catalog ∧
      (∀ schema ∈ compilation.schemas, ∀ field, schema.tree.root.Contains field →
        ∀ name, field.target? = some name → name ∈ definedNames document) ∧
      ((Json.obj document).Distinct →
        (Json.obj document).IdentifierFree catalog.dialect.directiveKey →
        (∀ overlay, options.overlay = some overlay →
          Overlay.IdentifierFree overlay catalog.dialect.directiveKey) →
        ∀ schema ∈ compilation.schemas, ∀ field, schema.tree.root.Contains field →
          ∀ name, field.target? = some name → catalog.Reaches name name) ∧
      ∀ stack name, catalog.Chain (name :: stack) → ¬catalog.Reaches name name →
        ∀ reference type, catalog.find? reference = some (name, type) →
        ∀ tree, catalog.compileDefinition [] name type = .ok tree →
        ∀ place, ∃ linked, catalog.follow stack reference place = .ok linked ∧
          linked.descriptor false = tree.asField := by
  obtain ⟨document, catalog, hdocument, hcatalog, hcompile⟩ := compile_eq_ok_iff.1 h
  have hkeys := keys_of_catalogOf hcatalog
  refine ⟨document, catalog, hdocument, hcatalog, ?_, ?_, ?_⟩
  · intro schema hschema field hfield name hname
    rw [← hkeys]
    exact catalog.keeps_defined.compile (Descriptor.invariant_belongsTo _) hcompile schema hschema
      field hfield name hname
  · intro hdistinct hdocumentFree hoverlayFree
    have hnodup := nodup_keys_of_catalogOf hcatalog hdistinct
    have hfree := identifierFree_of_catalogOf hcatalog hdocumentFree hoverlayFree
    exact (Catalog.keeps_reaches hnodup hfree).compile (Descriptor.invariant_belongsTo _) hcompile
  · intro stack name hchain hname reference type hfind tree htree place
    exact Catalog.follow_of_not_reaches hchain hname hfind htree place

/-- A tag does not lead back to itself. -/
theorem personCatalog_not_reaches_tag : ¬personCatalog.Reaches "Tag" "Tag" := by
  intro hreaches
  obtain ⟨next, ⟨type, reference, htype, hmentions, _⟩, _⟩ :=
    Relation.TransGen.head'_iff.1 hreaches
  cases htype
  simp [TypeDefinition.Mentions, Json.Mentions, Json.deepMembers, Json.deepEntries] at hmentions

/-- The friends of a person are identifiers of persons, and a person is on a cycle; the tag of a
person is embedded. -/
theorem personDocument_identifiers :
    compile (.parsed (.obj personDocument)) {} = .ok ⟨[personSchema, tagSchema], []⟩ ∧
      (Json.obj personDocument).Distinct ∧
      (Json.obj personDocument).IdentifierFree personCatalog.dialect.directiveKey ∧
      personSchema.tree.root.Contains (.reference {} (some "Person")) ∧
      "Person" ∈ definedNames personDocument ∧ personCatalog.Reaches "Person" "Person" ∧
      ∃ linked, personCatalog.follow ["Person"] "#/definitions/Tag" "/tag" = .ok linked ∧
        linked.descriptor false = .scalar {} .string none := by
  obtain ⟨document, catalog, hdocument, hcatalog, hdefined, hreaches, hembedded⟩ :=
    identifiers_of_compile compile_personDocument
  cases hdocument
  cases hcatalog
  have hcontains : personSchema.tree.root.Contains (.reference {} (some "Person")) :=
    .field (List.mem_cons_self ..) (.item (.self _))
  have hdistinct : (Json.obj personDocument).Distinct := by
    simp [personDocument, personBody, friendsProperty, Json.Distinct, Json.DistinctMembers]
  have hfree : (Json.obj personDocument).IdentifierFree personCatalog.dialect.directiveKey := by
    intro block hblock hasks
    have hindex : block = [("index", .bool true)] := by
      simpa [personDocument, personBody, friendsProperty, personCatalog, Json.Carries,
        Json.deepMembers, Json.deepEntries, Dialect.directiveKey] using hblock
    subst hindex
    simp [AsksForIdentifier] at hasks
  have hoverlay : ∀ overlay, ({} : Options).overlay = some overlay →
      Overlay.IdentifierFree overlay personCatalog.dialect.directiveKey := by
    intro overlay hsome
    cases hsome
  have hchain : personCatalog.Chain ["Tag", "Person"] := by
    refine .link ⟨⟨personBody, {}⟩, "#/definitions/Tag", rfl, .inl ?_, rfl⟩ (.single "Person")
    simp [personBody, friendsProperty, Json.Mentions, Json.deepMembers, Json.deepEntries]
  have hschema : personSchema ∈ [personSchema, tagSchema] := List.mem_cons_self ..
  exact ⟨compile_personDocument, hdistinct, hfree, hcontains,
    hdefined personSchema hschema _ hcontains "Person" rfl,
    hreaches hdistinct hfree hoverlay personSchema hschema _ hcontains "Person" rfl,
    hembedded ["Person"] "Tag" hchain personCatalog_not_reaches_tag "#/definitions/Tag" _ rfl _
      (personCatalog.compileDefinition_string [] "Tag") "/tag"⟩

end StoreSchema
