/-
**Which options of schemas win.**

Options of schemas are set in four places: in the block of the document and in the block of a
definition, where the dialect lets such blocks count, and in the entry `default` and the entry of
the type in an overlay.  What an overlay says is merged in depth into the block of the same level.
The level of the type is then laid over the level of the document option by option, so that an
option of the type replaces that of the document as a whole.

Main definitions:

* `SetsOptions`, `Overlay.DefaultSets` — the options that a block sets, and those that an entry
  `default` sets, in full or in short;
* `OptionSources` — **the options that are set for a type in the four places**;
* `OptionSources.documentLevel`, `OptionSources.typeLevel` — the options at the level of the
  document, and at that of the type.

Main results:

* `SetsOptions.merge`, `SetsOptions.effectiveBlock` — the options of blocks that are merged, and of
  a block laid over another;
* `options_of_compile` — the options of a schema are those of two blocks;
* `options_precedence` — **the options of a type are those at its level, and else those at the level
  of the document**, and no other entry has a part in them.
-/

import StoreSchema.Proofs.Exclusion
import StoreSchema.Proofs.Overlay.Effect

set_option relaxedAutoImplicit false
set_option autoImplicit false

namespace StoreSchema

/-! ### The options that a block sets -/

/-- **That a block sets these options of schemas**: they stand in it as an object, or it sets
none. -/
def SetsOptions (block options : Members) : Prop :=
  (Entries.get? block schemaOptionsKey = none ∧ options = []) ∨
    Entries.get? block schemaOptionsKey = some (.obj options)

/-- The options that are read from a block, whatever stands there. -/
def optionsOf (block : Members) : Members :=
  ((Entries.get? block schemaOptionsKey).map Json.members).getD []

theorem options_of_read {block : Members} {place : Pointer} {directives : TypeDirectives}
    (h : TypeDirectives.read block place = .ok directives) :
    directives.options = optionsOf block := by
  obtain ⟨options, hoptions, h⟩ := Outcome.bind_eq_ok_iff.1 h
  obtain ⟨exclude, _, h⟩ := Outcome.bind_eq_ok_iff.1 h
  obtain ⟨additional, _, h⟩ := Outcome.bind_eq_ok_iff.1 h
  obtain ⟨indexes, _, h⟩ := Outcome.bind_eq_ok_iff.1 h
  obtain ⟨validatorModule, _, h⟩ := Outcome.bind_eq_ok_iff.1 h
  cases h
  rw [TypeDirectives.readObject] at hoptions
  split at hoptions
  · next hget =>
      cases hoptions
      simp [optionsOf, hget]
  · next hget =>
      cases hoptions
      simp [optionsOf, hget, Json.members]
  · next hget =>
      cases hoptions
      simp [optionsOf, hget]
  · cases hoptions

namespace SetsOptions

variable {block defaults own options settings : Members}

theorem optionsOf_eq (h : SetsOptions block options) : optionsOf block = options := by
  rcases h with ⟨hget, rfl⟩ | hget
  · rw [optionsOf, hget]
    rfl
  · rw [optionsOf, hget]
    rfl

/-- A block that repeats no name sets no option twice. -/
theorem nodup (h : SetsOptions block options) (hblock : (Json.obj block).Distinct) :
    (Entries.keys options).Nodup := by
  rcases h with ⟨_, rfl⟩ | hget
  · exact List.nodup_nil
  · exact (Json.distinct_obj_iff.1 (hblock.of_get? hget)).1

/-- **Blocks that are merged set their options merged.** -/
theorem merge (h : SetsOptions defaults options) (hown : SetsOptions own settings)
    (hdistinct : (Json.obj own).Distinct) :
    SetsOptions (Json.merge defaults own) (Json.merge options settings) := by
  have hget := Json.get?_merge (Json.distinct_obj_iff.1 hdistinct).1 defaults schemaOptionsKey
  have hsettings := hown.nodup hdistinct
  rw [SetsOptions, hget]
  rcases hown with ⟨hnone, rfl⟩ | hsome
  · rw [hnone, Option.map_none, Option.none_or, Json.merge]
    exact h
  · rw [hsome, Option.map_some, Option.some_or]
    rcases h with ⟨hnone, rfl⟩ | hdefaults
    · have hmerge : Json.merge [] settings = settings := Json.merge_of_nodup hsettings
      rw [hnone, Json.mergeValue_of_none (by simp), hmerge]
      exact .inr rfl
    · rw [hdefaults, Json.mergeValue_of_objects]
      exact .inr rfl

/-- **A block laid over another sets its options over those of the other**, one by one. -/
theorem effectiveBlock (h : SetsOptions defaults options) (hown : SetsOptions own settings)
    (hdistinct : (Json.obj own).Distinct) :
    SetsOptions (effectiveBlock defaults own) (Entries.insertAll options settings) := by
  have hsettings := hown.nodup hdistinct
  rw [SetsOptions, get?_effectiveBlock (Json.distinct_obj_iff.1 hdistinct).1]
  rcases hown with ⟨hnone, rfl⟩ | hsome
  · rw [hnone, Option.map_none, Option.none_or, Entries.insertAll_nil]
    exact h
  · rw [hsome, Option.map_some, Option.some_or]
    rcases h with ⟨hnone, rfl⟩ | hdefaults
    · have hwritten : Entries.insertAll [] settings = settings :=
        Entries.insertAll_of_nodup hsettings
      rw [hnone, effectiveValue, hwritten]
      · exact .inr rfl
      · rintro _ _ h
        cases h
    · rw [hdefaults, effectiveValue, if_pos rfl]
      exact .inr rfl

end SetsOptions

/-! ### What a document says -/

/-- The block of directives on a type that an object carries, where such blocks count. -/
def typeBlockOf (dialect : Dialect) (members : Members) : Members :=
  if dialect.hasTypeDirectives then
    ((Entries.get? members dialect.directiveKey).map Json.members).getD []
  else []

/-- The members of the definition called `name`. -/
def definitionOf (document : Members) (name : String) : Members :=
  (((Entries.get? document "definitions").bind fun listed =>
    Entries.get? listed.members name).map Json.members).getD []

/-- A block that is read is the block that counts. -/
theorem Registry.getD_of_typeBlock? {dialect : Dialect} {members : Members} {place : Pointer}
    {block : Option Members} (h : typeBlock? dialect members place = .ok block) :
    block.getD [] = typeBlockOf dialect members := by
  obtain ⟨found, hfound, rfl⟩ := Outcome.map_eq_ok_iff.1 h
  rw [typeBlockOf]
  cases dialect.hasTypeDirectives with
  | false => rfl
  | true =>
      rw [Dialect.directive?] at hfound
      split at hfound
      · next hget =>
          cases hfound
          simp [hget]
      · next hget =>
          cases hfound
          simp [hget]
      · cases hfound

theorem distinct_typeBlockOf (dialect : Dialect) {members : Members}
    (h : (Json.obj members).Distinct) : (Json.obj (typeBlockOf dialect members)).Distinct := by
  rw [typeBlockOf]
  split
  · cases hget : Entries.get? members dialect.directiveKey with
    | none => exact Json.distinct_empty_object
    | some value => exact Json.distinct_members (h.of_get? hget)
  · exact Json.distinct_empty_object

theorem distinct_definitionOf {document : Members} (h : (Json.obj document).Distinct)
    (name : String) : (Json.obj (definitionOf document name)).Distinct := by
  rw [definitionOf]
  cases hlisted : Entries.get? document "definitions" with
  | none => exact Json.distinct_empty_object
  | some listed =>
      rw [Option.bind_some]
      have hdefinitions := Json.distinct_members (h.of_get? hlisted)
      cases hget : Entries.get? listed.members name with
      | none => exact Json.distinct_empty_object
      | some value => exact Json.distinct_members (hdefinitions.of_get? hget)

/-- A registry keeps the blocks that count, of the document and of its definitions. -/
theorem Overlay.Mirrors.blocks_eq {registry : Registry} {document : Members}
    (h : Mirrors registry document) :
    registry.defaults = typeBlockOf (Dialect.detect document) document ∧
      ∀ name ∈ Entries.keys registry.definitions,
        (Entries.get? registry.typeBlocks name).getD [] =
          typeBlockOf (Dialect.detect document) (definitionOf document name) := by
  rw [← h.dialect]
  constructor
  · obtain ⟨block, hdefaults, hblock⟩ := h.defaults
    rw [hdefaults, Registry.getD_of_typeBlock? (hblock "")]
  · intro name hname
    obtain ⟨listed, hlisted, hpaired⟩ := h.definitions
    rcases hpaired.get? name with ⟨hnone, _⟩ | ⟨kept, value, _, hvalue, members, rfl, _, hblock⟩
    · exact absurd hname (Entries.get?_eq_none_iff.1 hnone)
    · rw [Registry.getD_of_typeBlock? (hblock "")]
      rcases Registry.definitionList_eq_ok_iff.1 hlisted with ⟨_, rfl⟩ | hget
      · cases hvalue
      · simp [definitionOf, hget, hvalue]

/-! ### The options of a schema -/

/-- The block of the document with the entry `default` of an overlay merged into it. -/
def documentBlock (document : Members) (overlay : Option Json) : Members :=
  let block := typeBlockOf (Dialect.detect document) document
  ((Overlay.valueAt? overlay "default").map fun value =>
    Json.merge block (Overlay.defaultDirective value.members)).getD block

/-- The block of a definition with the entry of its type in an overlay merged into it. -/
def definitionBlock (document : Members) (overlay : Option Json) (name : String) : Members :=
  let block := typeBlockOf (Dialect.detect document) (definitionOf document name)
  ((Overlay.typeValue? overlay name).map fun value => Json.merge block value.members).getD block

/-- **The options of a schema are those of two blocks**: of that of its definition laid over that of
the document, with what the overlay says for each. -/
theorem options_of_compile {source : Source} {document : Members} {options : Options}
    {compilation : Compilation} (hsource : source.normalize = .ok document)
    (hdocument : (Json.obj document).Distinct)
    (hoverlay : ∀ value, options.overlay = some value → value.Distinct)
    (h : compile source options = .ok compilation) {schema : CompiledSchema}
    (hschema : schema ∈ compilation.schemas) :
    schema.options = optionsOf (effectiveBlock (documentBlock document options.overlay)
      (definitionBlock document options.overlay schema.name)) := by
  obtain ⟨found, catalog, hfound, hcatalogOf, hcompile⟩ := compile_eq_ok_iff.1 h
  rw [hsource] at hfound
  cases hfound
  obtain ⟨registry, hregistry, hrest⟩ := Outcome.bind_eq_ok_iff.1 hcatalogOf
  obtain ⟨merged, hmerged, hcatalog⟩ := Outcome.bind_eq_ok_iff.1 hrest
  obtain ⟨types, htypes, rfl⟩ := Outcome.map_eq_ok_iff.1 hcatalog
  obtain ⟨name, type, htype, _, _, hbound⟩ := Catalog.exists_of_mem_schemas hcompile hschema
  obtain ⟨hname, hoptions⟩ : schema.name = name ∧ schema.options = type.directives.options := by
    rw [(bindType_eq_ok hbound).1]
    exact ⟨rfl, rfl⟩
  obtain ⟨body, hbody, _, hdirectives⟩ :=
    (Registry.paired_of_typeDefinitions htypes).exists_of_mem htype
  have hnames : ∀ value, options.overlay = some value → (Entries.keys value.members).Nodup :=
    fun value hvalue => (Json.distinct_obj_iff.1 (Json.distinct_members (hoverlay value hvalue))).1
  have hmirrors := Overlay.mirrors_of_build hregistry
    (Registry.nodup_keys_of_build hregistry hdocument)
  obtain ⟨hdefaults, hblocks⟩ := hmirrors.blocks_eq
  have hdefined : name ∈ Entries.keys registry.definitions := by
    rw [← (Overlay.keys_of_apply hmerged).2]
    exact List.mem_map_of_mem hbody
  rw [hoptions, options_of_read hdirectives, hname, Overlay.defaults_of_apply hnames hmerged,
    Overlay.typeBlock_of_apply name hnames hmerged, hdefaults, hblocks name hdefined]
  rfl

/-! ### Precedence -/

/-- **That an entry `default` sets these options**: in full, under the key of options, or in short,
when it has the key of no type directive. -/
def Overlay.DefaultSets (directive options : Members) : Prop :=
  if ∃ key ∈ typeDirectiveKeys, key ∈ Entries.keys directive then SetsOptions directive options
  else options = directive

theorem Overlay.DefaultSets.setsOptions {directive options : Members}
    (h : DefaultSets directive options) : SetsOptions (defaultDirective directive) options := by
  have hkeys : (directive.any fun member => typeDirectiveKeys.contains member.1) = true ↔
      ∃ key ∈ typeDirectiveKeys, key ∈ Entries.keys directive := by
    simp only [List.any_eq_true, List.contains_iff_mem, Entries.keys, List.mem_map]
    constructor
    · rintro ⟨member, hmember, hkey⟩
      exact ⟨member.1, hkey, member, hmember, rfl⟩
    · rintro ⟨_, hkey, member, hmember, rfl⟩
      exact ⟨member, hmember, hkey⟩
  rw [DefaultSets] at h
  rw [defaultDirective]
  split at h
  · next hfull =>
      rw [if_pos (hkeys.2 hfull)]
      exact h
  · next hshort =>
      rw [if_neg (mt hkeys.1 hshort), h]
      exact .inr rfl

theorem Overlay.distinct_defaultDirective {directive : Members}
    (h : (Json.obj directive).Distinct) : (Json.obj (defaultDirective directive)).Distinct := by
  rw [defaultDirective]
  split
  · exact h
  · rw [Json.distinct_obj_iff]
    simpa using h

/-- **The options that are set for a type in the four places**, each of which sets an object or
nothing. -/
structure OptionSources (document : Members) (overlay : Option Json) (name : String) where
  /-- The options in the block of the document. -/
  ofDocument : Members
  /-- The options in the block of the definition. -/
  ofDefinition : Members
  /-- The options in the entry `default`. -/
  ofDefault : Members
  /-- The options in the entry of the type. -/
  ofType : Members
  /-- The block of the document sets its options, where it counts. -/
  hdocument : SetsOptions (typeBlockOf (Dialect.detect document) document) ofDocument
  /-- So does the block of the definition. -/
  hdefinition : SetsOptions
    (typeBlockOf (Dialect.detect document) (definitionOf document name)) ofDefinition
  /-- The entry `default` sets its options, in full or in short. -/
  hdefault : (Overlay.valueAt? overlay "default" = none ∧ ofDefault = []) ∨
    ∃ directive, Overlay.valueAt? overlay "default" = some (.obj directive) ∧
      Overlay.DefaultSets directive ofDefault
  /-- The entry of the type sets its options. -/
  htype : (Overlay.typeValue? overlay name = none ∧ ofType = []) ∨
    ∃ directive, Overlay.typeValue? overlay name = some (.obj directive) ∧
      SetsOptions directive ofType

namespace OptionSources

variable {document : Members} {overlay : Option Json} {name : String}

/-- **The options at the level of the document**: those of its block with those of the entry
`default` merged into them in depth. -/
def documentLevel (sources : OptionSources document overlay name) : Members :=
  Json.merge sources.ofDocument sources.ofDefault

/-- **The options at the level of the type**: those of its definition with those of its entry merged
into them in depth. -/
def typeLevel (sources : OptionSources document overlay name) : Members :=
  Json.merge sources.ofDefinition sources.ofType

variable (sources : OptionSources document overlay name)
  (hoverlay : ∀ value, overlay = some value → value.Distinct)
include hoverlay

theorem distinct_of_valueAt? {path : String} {directive : Members}
    (h : Overlay.valueAt? overlay path = some (.obj directive)) :
    (Json.obj directive).Distinct := by
  obtain ⟨value, hvalue, hget⟩ := Option.bind_eq_some_iff.1 h
  exact (Json.distinct_members (hoverlay value hvalue)).of_get? hget

theorem setsOptions_documentBlock :
    SetsOptions (documentBlock document overlay) sources.documentLevel := by
  rw [documentBlock, documentLevel]
  rcases sources.hdefault with ⟨hnone, hempty⟩ | ⟨directive, hsome, hsets⟩
  · rw [hnone, hempty, Json.merge]
    exact sources.hdocument
  · rw [hsome]
    exact sources.hdocument.merge hsets.setsOptions
      (Overlay.distinct_defaultDirective (distinct_of_valueAt? hoverlay hsome))

theorem setsOptions_definitionBlock (hdocument : (Json.obj document).Distinct) :
    SetsOptions (definitionBlock document overlay name) sources.typeLevel ∧
      (Json.obj (definitionBlock document overlay name)).Distinct := by
  have hown := distinct_typeBlockOf (Dialect.detect document)
    (distinct_definitionOf hdocument name)
  rw [definitionBlock, typeLevel]
  rcases sources.htype with ⟨hnone, hempty⟩ | ⟨directive, hsome, hsets⟩
  · rw [hnone, hempty, Json.merge]
    exact ⟨sources.hdefinition, hown⟩
  · have hdirective : (Json.obj directive).Distinct := by
      rw [Overlay.typeValue?] at hsome
      split at hsome
      · exact distinct_of_valueAt? hoverlay hsome
      · cases hsome
    rw [hsome]
    exact ⟨sources.hdefinition.merge hsets hdirective,
      Json.distinct_merge hown (Json.distinct_obj_iff.1 hdirective).2⟩

end OptionSources

/-- **The options of a type are those at its level, and else those at the level of the document.**
The names of the options at the level of the document come first, then the new ones of the type.
Nothing else in an overlay has a part in them: they are the same under any overlay that has the same
entry `default` and the same entry for the type. -/
theorem options_precedence {source : Source} {document : Members} {options : Options}
    {compilation : Compilation} (hsource : source.normalize = .ok document)
    (hdocument : (Json.obj document).Distinct)
    (hoverlay : ∀ value, options.overlay = some value → value.Distinct)
    (h : compile source options = .ok compilation) :
    ∀ schema ∈ compilation.schemas,
      (∀ sources : OptionSources document options.overlay schema.name,
        (∀ key, Entries.get? schema.options key =
          (Entries.get? sources.typeLevel key).or (Entries.get? sources.documentLevel key)) ∧
        Entries.keys schema.options = Entries.keys sources.documentLevel ++
          (Entries.keys sources.typeLevel).filter fun key =>
            key ∉ Entries.keys sources.documentLevel) ∧
      ∀ others otherCompilation, compile source others = .ok otherCompilation →
        (∀ value, others.overlay = some value → value.Distinct) →
        Overlay.valueAt? others.overlay "default" = Overlay.valueAt? options.overlay "default" →
        Overlay.typeValue? others.overlay schema.name =
          Overlay.typeValue? options.overlay schema.name →
        ∀ other ∈ otherCompilation.schemas, other.name = schema.name →
          other.options = schema.options := by
  intro schema hschema
  have hoptions := options_of_compile hsource hdocument hoverlay h hschema
  refine ⟨fun sources => ?_, ?_⟩
  · obtain ⟨htype, hdistinct⟩ := sources.setsOptions_definitionBlock hoverlay hdocument
    have hlevels := (sources.setsOptions_documentBlock hoverlay).effectiveBlock htype hdistinct
    have hnodup := htype.nodup hdistinct
    rw [hoptions, hlevels.optionsOf_eq]
    exact ⟨Entries.get?_insertAll hnodup _, Entries.keys_insertAll hnodup _⟩
  · intro others otherCompilation hother hdistinct hdefault htype other hmem hname
    have hsame := options_of_compile hsource hdocument hdistinct hother hmem
    rw [hoptions, hsame, documentBlock, documentBlock, definitionBlock, definitionBlock, hdefault,
      hname, htype]

/-- A definition that declares nothing is an empty document. -/
theorem Catalog.compileDefinition_of_bare (catalog : Catalog) (name : String) {body : Members}
    {directives : TypeDirectives} (hproperties : Entries.get? body "properties" = none)
    (htype : Entries.get? body "type" = none) (hrequired : Entries.get? body "required" = none)
    (hadditional : directives.additional = []) :
    catalog.compileDefinition [] name ⟨body, directives⟩ = .ok (.fields []) := by
  have hobject : Scope.describesObject body = true := by
    rw [Scope.describesObject, htype]
    simp
  have hread (place : Pointer) : ObjectBody.read body place = .ok ⟨.all false, []⟩ := by
    rw [ObjectBody.read, Required.read, ObjectBody.readProperties, hrequired, hproperties]
    rfl
  rw [compileDefinition, Scope.tree, if_pos hobject, Scope.objectFields, hread, hadditional]
  change (resolveProperties _ _ _ [] >>= fun _ => resolveProperties _ _ _ [] >>= _).map _ = _
  rw [resolveProperties_nil, resolveProperties_nil]
  rfl

/-- Pets with options for all types and for themselves. -/
def strictPets : Members :=
  [("openapi", .str "3.0"),
    ("x-swagger-mongoose", .obj
      [("schema-options", .obj [("strict", .bool true), ("versionKey", .bool false)])]),
    ("definitions", .obj
      [("Pet", .obj
        [("x-swagger-mongoose", .obj
          [("schema-options", .obj
            [("collection", .str "pets"), ("toJSON", .obj [("virtuals", .bool true)])])])])])]

/-- Options for all types, in short, and for pets. -/
def strictOverlay : Json :=
  .obj
    [("default", .obj [("toJSON", .obj [("getters", .bool true)]), ("strict", .bool false)]),
      ("Pet", .obj [("schema-options", .obj [("toJSON", .obj [("minimize", .bool false)])])])]

/-- The schema of a pet of `strictPets` under `strictOverlay`. -/
def strictSchema : CompiledSchema where
  name := "Pet"
  tree := .fields []
  options :=
    [("strict", .bool false), ("versionKey", .bool false),
      ("toJSON", .obj [("virtuals", .bool true), ("minimize", .bool false)]),
      ("collection", .str "pets")]
  indexes := []
  validatorModule := none

/-- The definitions of `strictPets` under `strictOverlay`. -/
def strictCatalog : Catalog where
  dialect := .extended
  types :=
    [("Pet",
        ⟨[("x-swagger-mongoose", .obj
            [("schema-options", .obj
              [("collection", .str "pets"), ("toJSON", .obj [("virtuals", .bool true)])])])],
          { options := strictSchema.options }⟩)]

theorem compile_strictPets :
    compile (.parsed (.obj strictPets)) { overlay := some strictOverlay } =
      .ok ⟨[strictSchema], []⟩ := by
  have hcompile : strictCatalog.compile [] = .ok ⟨[strictSchema], []⟩ := by
    rw [Catalog.compile, strictCatalog, Catalog.compileTypes, if_neg (by decide),
      Catalog.compileDefinition_of_bare _ _ rfl rfl rfl rfl]
    rfl
  exact compile_eq_ok_iff.2 ⟨strictPets, strictCatalog, rfl, rfl, hcompile⟩

/-- The options of all types come first; those of a pet are merged in depth, and replace them as a
whole. -/
theorem strictPets_precedence :
    compile (.parsed (.obj strictPets)) { overlay := some strictOverlay } =
        .ok ⟨[strictSchema], []⟩ ∧
      (Json.obj strictPets).Distinct ∧ strictOverlay.Distinct ∧
      Entries.get? strictSchema.options "toJSON" =
        some (.obj [("virtuals", .bool true), ("minimize", .bool false)]) ∧
      Entries.get? strictSchema.options "strict" = some (.bool false) ∧
      Entries.keys strictSchema.options =
        ["strict", "versionKey", "toJSON"] ++ ["collection"] := by
  have hdocument : (Json.obj strictPets).Distinct := by
    simp [strictPets, Json.Distinct, Json.DistinctMembers]
  have hoverlay : strictOverlay.Distinct := by
    simp [strictOverlay, Json.Distinct, Json.DistinctMembers]
  let sources : OptionSources strictPets (some strictOverlay) "Pet" :=
    { ofDocument := [("strict", .bool true), ("versionKey", .bool false)]
      ofDefinition := [("collection", .str "pets"), ("toJSON", .obj [("virtuals", .bool true)])]
      ofDefault := [("toJSON", .obj [("getters", .bool true)]), ("strict", .bool false)]
      ofType := [("toJSON", .obj [("minimize", .bool false)])]
      hdocument := .inr rfl
      hdefinition := .inr rfl
      hdefault := .inr ⟨_, rfl, by rw [Overlay.DefaultSets, if_neg (by decide)]⟩
      htype := .inr ⟨_, rfl, .inr rfl⟩ }
  have hsource : (Source.parsed (.obj strictPets)).normalize = .ok strictPets := rfl
  have hdistinct : ∀ value, some strictOverlay = some value → value.Distinct := by
    rintro _ ⟨⟩
    exact hoverlay
  obtain ⟨hread, hkeys⟩ := (options_precedence hsource hdocument hdistinct compile_strictPets
    strictSchema (List.mem_singleton_self _)).1 sources
  exact ⟨compile_strictPets, hdocument, hoverlay, hread "toJSON", hread "strict", hkeys⟩

/-- A shop that has pets and is left out of the output, and a type whose name reads like the path to
the pets of a shop. -/
def dottedShop : Members :=
  [("openapi", .str "3.0"),
    ("definitions", .obj
      [("shop", .obj
        [("x-swagger-mongoose", .obj [("exclude-schema", .bool true)]),
          ("properties", .obj [("pet", .obj [("type", .str "string")])])]),
        ("shop.pet", .obj [])])]

/-- Options under a path that leads to the pets of a shop, and is the name of a type. -/
def dottedOverlay : Json :=
  .obj [("shop.pet", .obj [("schema-options", .obj [("strict", .bool false)])])]

/-- The schema of the type with a dot in its name. -/
def dottedSchema : CompiledSchema where
  name := "shop.pet"
  tree := .fields []
  options := []
  indexes := []
  validatorModule := none

/-- The definitions of `dottedShop` under `dottedOverlay`, which reaches the pets of the shop. -/
def dottedCatalog : Catalog where
  dialect := .extended
  types :=
    [("shop",
        ⟨[("x-swagger-mongoose", .obj [("exclude-schema", .bool true)]),
            ("properties", .obj
              [("pet", .obj
                [("type", .str "string"),
                  ("x-swagger-mongoose", .obj
                    [("schema-options", .obj [("strict", .bool false)])])])])],
          { exclude := true }⟩),
      ("shop.pet", ⟨[], {}⟩)]

theorem compile_dottedShop :
    compile (.parsed (.obj dottedShop)) { overlay := some dottedOverlay } =
      .ok ⟨[dottedSchema], []⟩ := by
  have hcompile : dottedCatalog.compile [] = .ok ⟨[dottedSchema], []⟩ := by
    rw [Catalog.compile, dottedCatalog, Catalog.compileTypes, if_pos rfl, Catalog.compileTypes,
      if_neg (by decide), Catalog.compileDefinition_of_bare _ _ rfl rfl rfl rfl]
    rfl
  exact compile_eq_ok_iff.2 ⟨dottedShop, dottedCatalog, rfl, rfl, hcompile⟩

/-- A type with a dot in its name does not get the options of the entry under its name. -/
theorem dottedShop_entry_leads_to_field :
    compile (.parsed (.obj dottedShop)) { overlay := some dottedOverlay } =
        .ok ⟨[dottedSchema], []⟩ ∧
      SetsOptions (typeBlockOf (Dialect.detect dottedShop) dottedShop) [] ∧
      SetsOptions (typeBlockOf (Dialect.detect dottedShop)
        (definitionOf dottedShop dottedSchema.name)) [] ∧
      Overlay.valueAt? (some dottedOverlay) "default" = none ∧
      (∃ directive,
        Overlay.valueAt? (some dottedOverlay) dottedSchema.name = some (.obj directive) ∧
        SetsOptions directive [("strict", .bool false)]) ∧
      Entries.get? (Json.merge [] [("strict", .bool false)]) "strict" = some (.bool false) ∧
      Entries.get? dottedSchema.options "strict" = none :=
  ⟨compile_dottedShop, .inl ⟨rfl, rfl⟩, .inl ⟨rfl, rfl⟩, rfl, ⟨_, rfl, .inr rfl⟩, rfl, rfl⟩

end StoreSchema
