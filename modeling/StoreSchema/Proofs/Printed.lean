/-
**Where schemas in print repeat no name.**

A descriptor prints its shape and its modifiers under names of its own, and its attributes behind
them under theirs.  A block gives no attribute the name of a keyword, and neither of the names that
steer compilation.  But `validate`, `identifierRef` and `targetType` are none of these: they are
what a validator, an identifier and its type are called in print.  A block may use them for
attributes, and then a descriptor that prints them itself prints them twice.  This is the only way
in which anything is repeated, and where it does not happen reading the text of the schemas gives
all of them back.

Main definitions:

* `Descriptor.Legible` — that no attribute goes by a name that the descriptor prints itself;
* `Descriptor.ownMembers` — what a descriptor prints besides its attributes;
* `Descriptor.Distinct` — that nothing a descriptor takes over from a document repeats a name;
* `Descriptor.FoundIn`, `Schemas.FoundIn` — that everything a descriptor says, and everything that
  schemas say about their fields, is found in a value under its name.

Main results:

* `Catalog.keeps_distinct` — compiling takes over nothing that repeats a name;
* `Descriptor.distinct_toJson_iff` — a descriptor prints no name twice when all in it are legible;
* `Schemas.foundIn_toJson` — where schemas print no name twice, what they say is found in print;
* `print_of_compile` — **schemas in print repeat no name exactly when all their fields are
  legible**, and then their text gives them back.
-/

import StoreSchema.Proofs.Exclusion
import StoreSchema.Proofs.Json.Readback

set_option relaxedAutoImplicit false
set_option autoImplicit false

namespace StoreSchema

/-! ### What compilation takes over -/

namespace Json

mutual

/-- Nothing that stands in a value repeats a name when the value repeats none. -/
theorem distinct_of_mem_deepMembers : ∀ {value : Json}, value.Distinct →
    ∀ entry ∈ value.deepMembers, entry.2.Distinct
  | .null, _, _, h => by
      rw [deepMembers] at h
      cases h
  | .bool _, _, _, h => by
      rw [deepMembers] at h
      cases h
  | .num _, _, _, h => by
      rw [deepMembers] at h
      cases h
  | .str _, _, _, h => by
      rw [deepMembers] at h
      cases h
  | .arr items, hdistinct, entry, h => by
      rw [Distinct] at hdistinct
      rw [deepMembers] at h
      exact distinct_of_mem_deepItems hdistinct entry h
  | .obj members, hdistinct, entry, h => by
      rw [Distinct] at hdistinct
      rw [deepMembers] at h
      exact distinct_of_mem_deepEntries hdistinct.2 entry h

theorem distinct_of_mem_deepItems : ∀ {items : List Json}, DistinctItems items →
    ∀ entry ∈ deepItems items, entry.2.Distinct
  | [], _, _, h => by
      rw [deepItems] at h
      cases h
  | item :: rest, hdistinct, entry, h => by
      rw [DistinctItems] at hdistinct
      rw [deepItems] at h
      rcases List.mem_append.1 h with h | h
      · exact distinct_of_mem_deepMembers hdistinct.1 entry h
      · exact distinct_of_mem_deepItems hdistinct.2 entry h

theorem distinct_of_mem_deepEntries : ∀ {members : Members}, DistinctMembers members →
    ∀ entry ∈ deepEntries members, entry.2.Distinct
  | [], _, _, h => by
      rw [deepEntries] at h
      cases h
  | (name, value) :: rest, hdistinct, entry, h => by
      rw [DistinctMembers] at hdistinct
      rw [deepEntries] at h
      rcases List.mem_cons.1 h with rfl | h
      · exact hdistinct.1
      · rcases List.mem_append.1 h with h | h
        · exact distinct_of_mem_deepMembers hdistinct.1 entry h
        · exact distinct_of_mem_deepEntries hdistinct.2 entry h

end

end Json

namespace TypeDefinition.Distinct

variable {type : TypeDefinition} (h : type.Distinct)
include h

/-- The values that are listed in a definition repeat no name. -/
theorem of_lists {values : List Json} (hlists : type.Lists values) :
    ∀ value ∈ values, value.Distinct := by
  rw [← Json.distinct_arr_iff]
  rcases hlists with hlists | hlists
  · exact Json.distinct_of_mem_deepMembers h.body _ hlists
  · exact Json.distinct_of_mem_deepMembers h.directives.additional _ hlists

/-- The blocks that are carried by a definition repeat no name. -/
theorem of_carries {key : String} {block : Members} (hcarries : type.Carries key block) :
    (Json.obj block).Distinct := by
  rcases hcarries with hcarries | hcarries
  · exact Json.distinct_of_mem_deepMembers h.body _ hcarries
  · exact Json.distinct_of_mem_deepMembers h.directives.additional _ hcarries

end TypeDefinition.Distinct

namespace Descriptor

/-- **That nothing a descriptor takes over from a document repeats a name.** -/
structure Distinct (descriptor : Descriptor) : Prop where
  /-- The attributes do not. -/
  attributes : (Json.obj descriptor.modifiers.attributes).Distinct
  /-- Nor do the values that a scalar is restricted to. -/
  values : ∀ values, descriptor.values? = some values → ∀ value ∈ values, value.Distinct

@[simp] theorem values?_withModifiers (descriptor : Descriptor) (modifiers : Modifiers) :
    (descriptor.withModifiers modifiers).values? = descriptor.values? := by
  cases descriptor <;> rfl

theorem Distinct.withModifiers {descriptor : Descriptor} (h : descriptor.Distinct)
    {modifiers : Modifiers} (hattributes : (Json.obj modifiers.attributes).Distinct) :
    (descriptor.withModifiers modifiers).Distinct where
  attributes := by simpa using hattributes
  values := by simpa using h.values

/-- Only scalars and blocks take anything over. -/
theorem invariant_distinct : Invariant Distinct where
  array _ _ _ := ⟨Json.distinct_empty_object, nofun⟩
  embedded _ _ _ _ := ⟨Json.distinct_empty_object, nofun⟩
  setRequired _ _ h := h.withModifiers h.attributes

end Descriptor

/-- **Compiling a catalog that repeats no name takes over nothing that repeats one.** -/
theorem Catalog.keeps_distinct {catalog : Catalog} (h : ∀ entry ∈ catalog.types, entry.2.Distinct) :
    catalog.Keeps (fun _ _ => True) Descriptor.Distinct where
  scalar name type _ _ htype hlists := by
    refine ⟨Json.distinct_empty_object, ?_⟩
    intro values hvalues
    exact (h (name, type) htype).of_lists (hlists values hvalues)
  refers _ _ _ _ _ _ _ := trivial
  trans _ _ _ _ _ := trivial
  cyclic _ _ := ⟨Json.distinct_empty_object, nofun⟩
  identifier _ _ _ _ _ _ _ _ := ⟨Json.distinct_empty_object, nofun⟩
  decorate name type block validator field htype hcarries hfield := by
    have hblock : (Json.obj (attributes block)).Distinct :=
      ((h (name, type) htype).of_carries hcarries).filter _
    exact hfield.withModifiers (hfield.attributes.insertAll (Json.distinct_obj_iff.1 hblock).2)

/-! ### Descriptors in print -/

namespace Descriptor

/-- What a descriptor prints as its type. -/
def typeJson : Descriptor → Json
  | .scalar _ type _ => .str type.name
  | .reference _ _ => .str "ObjectId"
  | .embedded _ fields => .obj (fieldsToJson fields)
  | .array _ item => .arr [item.toJson]

/-- **What a descriptor prints besides its attributes.** -/
def ownMembers (descriptor : Descriptor) : Members :=
  ("type", descriptor.typeJson) ::
    ((descriptor.values?.toList.map fun values => ("enum", .arr values)) ++
      (if descriptor.isReference then [("identifierRef", .bool true)] else []) ++
      (descriptor.target?.toList.map fun target => ("targetType", .str target)) ++
      (if descriptor.modifiers.required then [("required", .bool true)] else []) ++
      descriptor.modifiers.validator.toList.map fun name => ("validate", .str name))

/-- A descriptor in print is what it prints itself, and its attributes. -/
theorem toJson_eq (descriptor : Descriptor) :
    descriptor.toJson = .obj (descriptor.ownMembers ++ descriptor.modifiers.attributes) := by
  have hmodifiers (modifiers : Modifiers) : modifierMembers modifiers =
      (if modifiers.required then [("required", .bool true)] else []) ++
        (modifiers.validator.toList.map fun name => ("validate", .str name)) ++
        modifiers.attributes := by
    rw [modifierMembers]
    cases modifiers.validator <;> rfl
  cases descriptor with
  | scalar modifiers type values =>
      cases values with
      | none =>
          rw [toJson, hmodifiers]
          rfl
      | some values =>
          rw [toJson, hmodifiers]
          rfl
  | reference modifiers target =>
      cases target with
      | none =>
          rw [toJson, hmodifiers]
          rfl
      | some target =>
          rw [toJson, hmodifiers]
          rfl
  | embedded modifiers fields =>
      rw [toJson, hmodifiers]
      rfl
  | array modifiers item =>
      rw [toJson, hmodifiers]
      rfl

/-- The names that a descriptor prints itself. -/
theorem mem_keys_ownMembers_iff {descriptor : Descriptor} {key : String} :
    key ∈ Entries.keys descriptor.ownMembers ↔
      key = "type" ∨ (key = "enum" ∧ descriptor.values? ≠ none) ∨
        (key = "identifierRef" ∧ descriptor.isReference = true) ∨
        (key = "targetType" ∧ descriptor.target? ≠ none) ∨
        (key = "required" ∧ descriptor.modifiers.required = true) ∨
        (key = "validate" ∧ descriptor.modifiers.validator ≠ none) := by
  rw [ownMembers, Entries.keys_cons, List.mem_cons]
  cases descriptor.values? <;> cases descriptor.isReference <;> cases descriptor.target? <;>
    cases descriptor.modifiers.required <;> cases descriptor.modifiers.validator <;>
    simp [Entries.keys]

/-- A descriptor prints none of its own names twice. -/
theorem nodup_keys_ownMembers (descriptor : Descriptor) :
    (Entries.keys descriptor.ownMembers).Nodup := by
  rw [ownMembers]
  cases descriptor.values? <;> cases descriptor.isReference <;> cases descriptor.target? <;>
    cases descriptor.modifiers.required <;> cases descriptor.modifiers.validator <;>
    simp [Entries.keys]

/-- **That no attribute goes by a name that the descriptor prints itself.** -/
structure Legible (descriptor : Descriptor) : Prop where
  /-- Where a validator guards the field, none is called `validate`. -/
  validator : descriptor.modifiers.validator ≠ none →
    "validate" ∉ Entries.keys descriptor.modifiers.attributes
  /-- None of an identifier is called `identifierRef`. -/
  reference : descriptor.isReference = true →
    "identifierRef" ∉ Entries.keys descriptor.modifiers.attributes
  /-- None of an identifier that names its type is called `targetType`. -/
  target : descriptor.target? ≠ none →
    "targetType" ∉ Entries.keys descriptor.modifiers.attributes

/-- The other names are keywords of properties, which are no attributes. -/
theorem legible_iff {descriptor : Descriptor} (h : descriptor.Regular) :
    descriptor.Legible ↔ ∀ key ∈ Entries.keys descriptor.ownMembers,
      key ∉ Entries.keys descriptor.modifiers.attributes := by
  constructor
  · intro hlegible key hkey hattribute
    have hkeyword := (h.attributes key hattribute).1
    rcases mem_keys_ownMembers_iff.1 hkey with rfl | ⟨rfl, _⟩ | ⟨rfl, href⟩ | ⟨rfl, htarget⟩ |
      ⟨rfl, _⟩ | ⟨rfl, hvalidator⟩
    · exact hkeyword (by decide)
    · exact hkeyword (by decide)
    · exact hlegible.reference href hattribute
    · exact hlegible.target htarget hattribute
    · exact hkeyword (by decide)
    · exact hlegible.validator hvalidator hattribute
  · intro hdisjoint
    refine ⟨fun hvalidator => ?_, fun href => ?_, fun htarget => ?_⟩
    · exact hdisjoint _ (mem_keys_ownMembers_iff.2 (by simp [hvalidator]))
    · exact hdisjoint _ (mem_keys_ownMembers_iff.2 (by simp [href]))
    · exact hdisjoint _ (mem_keys_ownMembers_iff.2 (by simp [htarget]))

/-- Whether a descriptor prints a name twice is decided by its attributes, and by its type. -/
theorem distinct_toJson_iff_of_typeJson {descriptor : Descriptor} (hregular : descriptor.Regular)
    (hdistinct : descriptor.Distinct) :
    descriptor.toJson.Distinct ↔ descriptor.Legible ∧ descriptor.typeJson.Distinct := by
  obtain ⟨hattributes, hvalues⟩ := Json.distinct_obj_iff.1 hdistinct.attributes
  rw [toJson_eq, Json.distinct_obj_iff, Entries.keys, List.map_append, List.nodup_append,
    legible_iff hregular]
  constructor
  · rintro ⟨⟨_, _, hdisjoint⟩, hall⟩
    refine ⟨fun key hkey hattribute => hdisjoint key hkey key hattribute rfl, ?_⟩
    exact hall ("type", descriptor.typeJson) (List.mem_append_left _ (List.mem_cons_self ..))
  · rintro ⟨hdisjoint, htype⟩
    refine ⟨⟨nodup_keys_ownMembers descriptor, hattributes, ?_⟩, ?_⟩
    · rintro key hkey _ hattribute rfl
      exact hdisjoint key hkey hattribute
    · intro entry hentry
      rcases List.mem_append.1 hentry with hentry | hentry
      · -- besides the type there are texts, truth values and the values of a scalar
        rcases List.mem_cons.1 hentry with rfl | hentry
        · exact htype
        · simp only [List.mem_append, List.mem_map, Option.mem_toList, List.mem_ite_nil_right,
            List.mem_singleton] at hentry
          rcases hentry with (((⟨values, hvalues, rfl⟩ | ⟨_, rfl⟩) | ⟨_, _, rfl⟩) | ⟨_, rfl⟩) |
            ⟨_, _, rfl⟩
          · exact Json.distinct_arr_iff.2 (hdistinct.values values hvalues)
          all_goals simp [Json.Distinct]
      · exact hvalues entry hentry

theorem distinct_fieldsToJson_iff {fields : List (String × Descriptor)} :
    (Json.obj (fieldsToJson fields)).Distinct ↔
      (Entries.keys fields).Nodup ∧ ∀ entry ∈ fields, entry.2.toJson.Distinct := by
  rw [Json.distinct_obj_iff, fieldsToJson_eq_map, Entries.keys, List.map_map, List.forall_mem_map]
  rfl

mutual

/-- **A descriptor prints no name twice exactly when all descriptors in it are legible.** -/
theorem distinct_toJson_iff : ∀ {descriptor : Descriptor}, descriptor.Everywhere Regular →
    descriptor.Everywhere Distinct → (descriptor.toJson.Distinct ↔ descriptor.Everywhere Legible)
  | .scalar modifiers type values, hregular, hdistinct => by
      rw [distinct_toJson_iff_of_typeJson (hregular _ (.self _)) (hdistinct _ (.self _))]
      constructor
      · rintro ⟨hlegible, _⟩
        exact everywhere_scalar hlegible
      · intro hlegible
        exact ⟨hlegible _ (.self _), by simp [typeJson, Json.Distinct]⟩
  | .reference modifiers target, hregular, hdistinct => by
      rw [distinct_toJson_iff_of_typeJson (hregular _ (.self _)) (hdistinct _ (.self _))]
      constructor
      · rintro ⟨hlegible, _⟩
        exact everywhere_reference hlegible
      · intro hlegible
        exact ⟨hlegible _ (.self _), by simp [typeJson, Json.Distinct]⟩
  | .array modifiers item, hregular, hdistinct => by
      have hitem := distinct_toJson_iff (fun inner hinner => hregular inner (.item hinner))
        fun inner hinner => hdistinct inner (.item hinner)
      rw [distinct_toJson_iff_of_typeJson (hregular _ (.self _)) (hdistinct _ (.self _)), typeJson,
        Json.distinct_arr_iff, List.forall_mem_singleton, hitem]
      constructor
      · rintro ⟨hlegible, hitems⟩
        exact everywhere_array hlegible hitems
      · intro hlegible
        exact ⟨hlegible _ (.self _), fun inner hinner => hlegible inner (.item hinner)⟩
  | .embedded modifiers fields, hregular, hdistinct => by
      have hfields := distinct_fields_iff
        (fun entry hentry inner hinner => hregular inner (.field hentry hinner))
        fun entry hentry inner hinner => hdistinct inner (.field hentry hinner)
      have hnames := (hregular _ (.self _)).distinct fields rfl
      rw [distinct_toJson_iff_of_typeJson (hregular _ (.self _)) (hdistinct _ (.self _)), typeJson,
        distinct_fieldsToJson_iff, hfields]
      constructor
      · rintro ⟨hlegible, _, hbelow⟩
        exact everywhere_embedded hlegible hbelow
      · intro hlegible
        exact ⟨hlegible _ (.self _), hnames,
          fun entry hentry inner hinner => hlegible inner (.field hentry hinner)⟩

theorem distinct_fields_iff : ∀ {fields : List (String × Descriptor)},
    (∀ entry ∈ fields, entry.2.Everywhere Regular) →
      (∀ entry ∈ fields, entry.2.Everywhere Distinct) →
        ((∀ entry ∈ fields, entry.2.toJson.Distinct) ↔
          ∀ entry ∈ fields, entry.2.Everywhere Legible)
  | [], _, _ => iff_of_true nofun nofun
  | (name, field) :: rest, hregular, hdistinct => by
      rw [List.forall_mem_cons] at hregular hdistinct
      rw [List.forall_mem_cons, List.forall_mem_cons,
        distinct_toJson_iff hregular.1 hdistinct.1, distinct_fields_iff hregular.2 hdistinct.2]

end

end Descriptor

/-! ### Schemas in print -/

/-- A body prints no name twice exactly when all descriptors in it are legible. -/
theorem SchemaTree.distinct_toJson_iff {tree : SchemaTree}
    (hregular : tree.root.Everywhere Descriptor.Regular)
    (hdistinct : tree.root.Everywhere Descriptor.Distinct) :
    tree.toJson.Distinct ↔ tree.root.Everywhere Descriptor.Legible := by
  cases tree with
  | simple descriptor => exact Descriptor.distinct_toJson_iff hregular hdistinct
  | fields named =>
      -- as the document that it is when it is embedded, a body has no attributes
      have hlegible : (Descriptor.embedded {} named).Legible := ⟨nofun, nofun, nofun⟩
      rw [root] at hregular hdistinct ⊢
      rw [toJson, ← Descriptor.distinct_toJson_iff hregular hdistinct,
        Descriptor.distinct_toJson_iff_of_typeJson (hregular _ (.self _)) (hdistinct _ (.self _))]
      exact (and_iff_right hlegible).symm

/-- An index prints no name twice when it repeats no field. -/
theorem IndexSpec.distinct_toJson {spec : IndexSpec} (h : spec.fieldNames.Nodup) :
    spec.toJson.Distinct := by
  rw [toJson, Json.distinct_arr_iff, List.forall_mem_cons, List.forall_mem_singleton]
  constructor
  · rw [Json.distinct_obj_iff, Entries.keys, List.map_map]
    refine ⟨h, ?_⟩
    intro entry hentry
    obtain ⟨field, _, rfl⟩ := List.mem_map.1 hentry
    rcases field with ⟨name, direction⟩
    cases direction <;> simp [IndexDirection.toJson, Json.Distinct]
  · cases spec.unique <;> simp [Json.Distinct, Json.DistinctMembers]

/-- A schema prints no name twice exactly when its body does not. -/
theorem CompiledSchema.distinct_toJson_iff {schema : CompiledSchema}
    (hoptions : (Json.obj schema.options).Distinct)
    (hindexes : ∀ spec ∈ schema.indexes, spec.fieldNames.Nodup) :
    schema.toJson.Distinct ↔ schema.tree.toJson.Distinct := by
  have hspecs : (Json.arr (schema.indexes.map IndexSpec.toJson)).Distinct := by
    rw [Json.distinct_arr_iff]
    intro item hitem
    obtain ⟨spec, hspec, rfl⟩ := List.mem_map.1 hitem
    exact IndexSpec.distinct_toJson (hindexes spec hspec)
  have hname (name : String) : (Json.str name).Distinct := trivial
  rw [toJson]
  cases schema.indexes.isEmpty <;> cases schema.validatorModule <;>
    simp [Json.distinct_obj_iff, hoptions, hspecs, hname]

/-! ### What print says -/

/-- That the modifiers of a descriptor are found among members, each under its name. -/
structure Modifiers.FoundIn (modifiers : Modifiers) (members : Members) : Prop where
  /-- That the field is required. -/
  required : modifiers.required = true → Entries.get? members "required" = some (.bool true)
  /-- The validator. -/
  validator : ∀ name, modifiers.validator = some name →
    Entries.get? members "validate" = some (.str name)
  /-- The attributes. -/
  attributes : ∀ entry ∈ modifiers.attributes, Entries.get? members entry.1 = some entry.2

namespace Descriptor

mutual

/-- **That everything a descriptor says is found in a value**: its modifiers and its type under
their names, and what stands in it below its type. -/
def FoundIn : Descriptor → Json → Prop
  | .scalar modifiers type values, value =>
      modifiers.FoundIn value.members ∧
        Entries.get? value.members "type" = some (.str type.name) ∧
          ∀ listed, values = some listed → Entries.get? value.members "enum" = some (.arr listed)
  | .reference modifiers target, value =>
      modifiers.FoundIn value.members ∧
        Entries.get? value.members "type" = some (.str "ObjectId") ∧
          Entries.get? value.members "identifierRef" = some (.bool true) ∧
            ∀ name, target = some name →
              Entries.get? value.members "targetType" = some (.str name)
  | .embedded modifiers fields, value =>
      modifiers.FoundIn value.members ∧
        ∃ named, Entries.get? value.members "type" = some (.obj named) ∧ FieldsFoundIn fields named
  | .array modifiers item, value =>
      modifiers.FoundIn value.members ∧
        ∃ found, Entries.get? value.members "type" = some (.arr [found]) ∧ item.FoundIn found

/-- That everything fields say is found among members, under the names of the fields. -/
def FieldsFoundIn : List (String × Descriptor) → Members → Prop
  | [], _ => True
  | (name, field) :: rest, named =>
      (∃ found, Entries.get? named name = some found ∧ field.FoundIn found) ∧
        FieldsFoundIn rest named

end

/-- Where a descriptor prints no name twice, its modifiers are found in print. -/
theorem modifiers_foundIn_toJson {descriptor : Descriptor} (h : descriptor.toJson.Distinct) :
    descriptor.modifiers.FoundIn descriptor.toJson.members := by
  have hget {name : String} {value : Json}
      (hmem : (name, value) ∈ descriptor.ownMembers ++ descriptor.modifiers.attributes) :
      Entries.get? descriptor.toJson.members name = some value := by
    rw [toJson_eq] at h ⊢
    exact Entries.get?_of_mem (Json.distinct_obj_iff.1 h).1 hmem
  constructor
  · intro hrequired
    exact hget (List.mem_append_left _ (by simp [ownMembers, hrequired]))
  · intro name hvalidator
    exact hget (List.mem_append_left _ (by simp [ownMembers, hvalidator]))
  · intro entry hentry
    exact hget (List.mem_append_right _ hentry)

mutual

/-- **Where a descriptor prints no name twice, everything it says is found in print.** -/
theorem foundIn_toJson : ∀ {descriptor : Descriptor}, descriptor.toJson.Distinct →
    descriptor.FoundIn descriptor.toJson
  | .scalar modifiers type values, h => by
      refine ⟨modifiers_foundIn_toJson h, ?_, ?_⟩
      · cases values <;> rw [toJson] <;> rfl
      · rintro listed rfl
        rw [toJson]
        rfl
  | .reference modifiers target, h => by
      refine ⟨modifiers_foundIn_toJson h, ?_, ?_, ?_⟩
      · cases target <;> rw [toJson] <;> rfl
      · cases target <;> rw [toJson] <;> rfl
      · rintro name rfl
        rw [toJson]
        rfl
  | .embedded modifiers fields, h => by
      refine ⟨modifiers_foundIn_toJson h, fieldsToJson fields, by rw [toJson]; rfl, ?_⟩
      rw [toJson] at h
      have htype := (Json.distinct_obj_iff.1 h).2 _ (List.mem_cons_self ..)
      exact fieldsFoundIn_of_subset (Json.distinct_obj_iff.1 htype).1
        (fun _ hentry => hentry) (Json.distinct_obj_iff.1 htype).2
  | .array modifiers item, h => by
      refine ⟨modifiers_foundIn_toJson h, item.toJson, by rw [toJson]; rfl, ?_⟩
      rw [toJson] at h
      have htype := (Json.distinct_obj_iff.1 h).2 _ (List.mem_cons_self ..)
      exact foundIn_toJson (Json.distinct_arr_iff.1 htype _ (List.mem_singleton_self _))

theorem fieldsFoundIn_of_subset : ∀ {fields : List (String × Descriptor)} {named : Members},
    (Entries.keys named).Nodup → fieldsToJson fields ⊆ named →
      (∀ entry ∈ fieldsToJson fields, entry.2.Distinct) → FieldsFoundIn fields named
  | [], _, _, _, _ => trivial
  | (name, field) :: rest, named, hnames, hsubset, hdistinct => by
      rw [fieldsToJson, List.cons_subset] at hsubset
      rw [fieldsToJson, List.forall_mem_cons] at hdistinct
      refine ⟨⟨field.toJson, Entries.get?_of_mem hnames hsubset.1, foundIn_toJson hdistinct.1⟩, ?_⟩
      exact fieldsFoundIn_of_subset hnames hsubset.2 hdistinct.2

end

end Descriptor

/-- That everything a body says is found in a value. -/
def SchemaTree.FoundIn : SchemaTree → Json → Prop
  | .fields named, value => Descriptor.FieldsFoundIn named value.members
  | .simple descriptor, value => descriptor.FoundIn value

/-- That everything schemas say about their fields is found in a value, under their names. -/
def Schemas.FoundIn (schemas : Schemas) (value : Json) : Prop :=
  ∀ schema ∈ schemas, ∃ members body, Entries.get? value.members schema.name = some (.obj members) ∧
    Entries.get? members "fields" = some body ∧ schema.tree.FoundIn body

theorem SchemaTree.foundIn_toJson {tree : SchemaTree} (h : tree.toJson.Distinct) :
    tree.FoundIn tree.toJson := by
  cases tree with
  | simple descriptor => exact Descriptor.foundIn_toJson h
  | fields named =>
      obtain ⟨hnames, hfields⟩ := Json.distinct_obj_iff.1 h
      exact Descriptor.fieldsFoundIn_of_subset hnames (fun _ hentry => hentry) hfields

/-- **Where schemas print no name twice, everything they say about their fields is found in
print.** -/
theorem Schemas.foundIn_toJson {schemas : Schemas} (h : schemas.toJson.Distinct) :
    schemas.FoundIn schemas.toJson := by
  intro schema hschema
  obtain ⟨hnames, hschemas⟩ := Json.distinct_obj_iff.1 h
  have hmem := List.mem_map_of_mem (f := fun schema => (schema.name, schema.toJson)) hschema
  have hprinted := hschemas _ hmem
  have hbody := (Json.distinct_obj_iff.1 hprinted).2 _ (List.mem_append_left _
    (List.mem_append_left _ (List.mem_cons_self ..)))
  exact ⟨_, schema.tree.toJson, Entries.get?_of_mem hnames hmem, rfl,
    SchemaTree.foundIn_toJson hbody⟩

/-! ### Compiled schemas in print -/

/-- **Compiled schemas print no name twice exactly when every field in them is legible.**  The
document and the overlay have to repeat no name; what is given as text or bytes repeats none.  And
where no name is printed twice, everything that was compiled is found in the text: reading it, with
enough room and numbers that are found again in their text, leads to the schemas in print, and there
every field is found under its name, with its type, its target, its validator and its attributes
under theirs. -/
theorem print_of_compile {source : Source} {options : Options} {compilation : Compilation}
    (h : compile source options = .ok compilation)
    (hdocument : ∀ document, source.normalize = .ok document → (Json.obj document).Distinct)
    (hoverlay : ∀ overlay, options.overlay = some overlay → overlay.Distinct) :
    (compilation.schemas.toJson.Distinct ↔ ∀ schema ∈ compilation.schemas,
        ∀ field, schema.tree.root.Contains field → field.Legible) ∧
      (compilation.schemas.toJson.Distinct →
        compilation.schemas.FoundIn compilation.schemas.toJson ∧
          ∀ limit, compilation.schemas.toJson.nesting ≤ limit →
            compilation.schemas.toJson.EveryNumber Number.ReadsBack →
              Json.parse? limit compilation.schemas.toJson.compact.toList =
                some compilation.schemas.toJson) := by
  obtain ⟨document, catalog, hnormalize, hcatalog, hcompile⟩ := compile_eq_ok_iff.1 h
  have hdistinct := hdocument document hnormalize
  have htypes := distinct_of_catalogOf hcatalog hdistinct hoverlay
  have hregular := catalog.keeps_regular.compile Descriptor.invariant_regular hcompile
  have htaken := (Catalog.keeps_distinct htypes).compile Descriptor.invariant_distinct hcompile
  have hnames : compilation.schemas.names.Nodup := by
    rw [Catalog.names_of_compileTypes hcompile]
    exact (List.filter_sublist.map Prod.fst).nodup (nodup_keys_of_catalogOf hcatalog hdistinct)
  have hschema : ∀ schema ∈ compilation.schemas, schema.toJson.Distinct ↔
      ∀ field, schema.tree.root.Contains field → field.Legible := by
    intro schema hschema
    obtain ⟨name, type, htype, _, _, hbound⟩ := Catalog.exists_of_mem_schemas hcompile hschema
    have hdirectives := (htypes (name, type) htype).directives
    have hoptions : schema.options = type.directives.options := by rw [(bindType_eq_ok hbound).1]
    have hindexes : schema.indexes = type.directives.indexes := by rw [(bindType_eq_ok hbound).1]
    rw [CompiledSchema.distinct_toJson_iff (hoptions ▸ hdirectives.options)
      (hindexes ▸ hdirectives.indexes)]
    exact SchemaTree.distinct_toJson_iff (hregular schema hschema) (htaken schema hschema)
  refine ⟨?_, fun hprint => ⟨Schemas.foundIn_toJson hprint, fun limit hroom hnumbers =>
    Json.parse?_compact hprint hnumbers hroom⟩⟩
  rw [Schemas.toJson, Json.distinct_obj_iff, Entries.keys, List.map_map, List.forall_mem_map]
  constructor
  · rintro ⟨_, hall⟩ schema hmem
    exact (hschema schema hmem).1 (hall schema hmem)
  · intro hlegible
    exact ⟨hnames, fun schema hmem => (hschema schema hmem).2 (hlegible schema hmem)⟩

/-- The schemas of persons and tags are found again in their text. -/
theorem personDocument_printed :
    compile (.parsed (.obj personDocument)) {} = .ok ⟨[personSchema, tagSchema], []⟩ ∧
      (Json.obj personDocument).Distinct ∧
      Schemas.FoundIn [personSchema, tagSchema] (Schemas.toJson [personSchema, tagSchema]) ∧
      Json.parse? Json.nestingLimit (Schemas.toJson [personSchema, tagSchema]).compact.toList =
        some (Schemas.toJson [personSchema, tagSchema]) := by
  have hdocument (document : Members)
      (h : (Source.parsed (.obj personDocument)).normalize = .ok document) :
      (Json.obj document).Distinct := by
    cases h
    exact distinct_personDocument
  obtain ⟨_, hread⟩ := print_of_compile compile_personDocument hdocument nofun
  have hprint : (Schemas.toJson [personSchema, tagSchema]).Distinct := by
    simp [Schemas.toJson, CompiledSchema.toJson, personSchema, tagSchema, SchemaTree.toJson,
      friendsField, Descriptor.fieldsToJson, Descriptor.toJson, Descriptor.modifierMembers,
      Primitive.name, Json.Distinct, Json.DistinctMembers, Json.DistinctItems]
  obtain ⟨hfound, hparse⟩ := hread hprint
  refine ⟨compile_personDocument, distinct_personDocument, hfound, hparse _ (by decide) ?_⟩
  simp [Schemas.toJson, CompiledSchema.toJson, personSchema, tagSchema, SchemaTree.toJson,
    friendsField, Descriptor.fieldsToJson, Descriptor.toJson, Descriptor.modifierMembers,
    Json.EveryNumber, Json.EveryNumberMembers, Json.EveryNumberItems]

/-- The owner of a pet, stored as an identifier, with an attribute for the type that it has in the
store. -/
def ownerProperty : Members :=
  [("$ref", .str "#/definitions/Pet"),
    ("x-swagger-mongoose", .obj [("type", .str "objectId"), ("targetType", .str "Shop")])]

/-- The members of a pet that has an owner. -/
def ownedBody : Members := [("properties", .obj [("owner", .obj ownerProperty)])]

/-- A document of pets and their owners. -/
def ownedDocument : Members :=
  [("swagger", .str "2.0"), ("definitions", .obj [("Pet", .obj ownedBody)])]

/-- The schema of a pet that has an owner. -/
def ownedSchema : CompiledSchema where
  name := "Pet"
  tree := .fields
    [("owner", .reference { attributes := [("targetType", .str "Shop")] } (some "Pet"))]
  options := []
  indexes := []
  validatorModule := none

/-- The definitions of `ownedDocument`. -/
def ownedCatalog : Catalog where
  dialect := .extended
  types := [("Pet", ⟨ownedBody, {}⟩)]

theorem compile_ownedDocument :
    compile (.parsed (.obj ownedDocument)) {} = .ok ⟨[ownedSchema], []⟩ := by
  have howner (place : Pointer) : (ownedCatalog.scope ["Pet"]).entry (.all false) "owner"
      (.obj ownerProperty) place =
        .ok (some (.reference { attributes := [("targetType", .str "Shop")] } (some "Pet"))) := by
    have hread : Form.read (ownedCatalog.scope ["Pet"]).dialect ownerProperty place =
        .ok (.overridden [("type", .str "objectId"), ("targetType", .str "Shop")]) := rfl
    rw [Scope.entry, if_neg (by decide), resolveField_of_read hread]
    rfl
  have hpet : ownedCatalog.compileDefinition [] "Pet" ⟨ownedBody, {}⟩ = .ok ownedSchema.tree := by
    change ((do
      let declared ← resolveProperties (ownedCatalog.scope ["Pet"]) (.all false) _
        [("owner", .obj ownerProperty)]
      let added ← resolveProperties (ownedCatalog.scope ["Pet"]) (.all false) _ []
      return Entries.ofList (declared ++ added)) : Outcome FieldMap).map SchemaTree.fields = _
    rw [resolveProperties_cons, howner, resolveProperties_nil, resolveProperties_nil]
    rfl
  have hcompile : ownedCatalog.compile [] = .ok ⟨[ownedSchema], []⟩ := by
    change (ownedCatalog.compileDefinition [] "Pet" ⟨ownedBody, {}⟩ >>= _) = _
    rw [hpet]
    rfl
  exact compile_eq_ok_iff.2 ⟨ownedDocument, ownedCatalog, rfl, rfl, hcompile⟩

/-- The type of the owner is printed twice, and reading the text finds the attribute. -/
theorem ownedDocument_repeats_targetType :
    compile (.parsed (.obj ownedDocument)) {} = .ok ⟨[ownedSchema], []⟩ ∧
      (Json.obj ownedDocument).Distinct ∧ ¬(Schemas.toJson [ownedSchema]).Distinct ∧
      ∃ value, Json.parse? Json.nestingLimit (Schemas.toJson [ownedSchema]).compact.toList = some value ∧
        ¬Schemas.FoundIn [ownedSchema] value := by
  have hnumbers : (Schemas.toJson [ownedSchema]).EveryNumber Number.ReadsBack := by
    simp [Schemas.toJson, CompiledSchema.toJson, ownedSchema, SchemaTree.toJson,
      Descriptor.fieldsToJson, Descriptor.toJson, Descriptor.modifierMembers, Json.EveryNumber,
      Json.EveryNumberMembers]
  have hparse : Json.parse? Json.nestingLimit (Schemas.toJson [ownedSchema]).compact.toList =
      some (.obj [("Pet", .obj [("fields", .obj [("owner", .obj [("type", .str "ObjectId"),
        ("identifierRef", .bool true), ("targetType", .str "Shop")])]), ("options", .obj [])])]) := by
    rw [Json.parse?, Json.tokens?_compact hnumbers]
    rfl
  refine ⟨compile_ownedDocument, ?_, ?_, _, hparse, ?_⟩
  · simp [ownedDocument, ownedBody, ownerProperty, Json.Distinct, Json.DistinctMembers]
  · simp [Schemas.toJson, CompiledSchema.toJson, ownedSchema, SchemaTree.toJson,
      Descriptor.fieldsToJson, Descriptor.toJson, Descriptor.modifierMembers, Json.Distinct,
      Json.DistinctMembers]
  · intro hfound
    obtain ⟨members, body, hmembers, hbody, howner⟩ := hfound ownedSchema (List.mem_singleton_self _)
    cases hmembers
    cases hbody
    obtain ⟨⟨found, hfound, _, _, _, htarget⟩, _⟩ := howner
    cases hfound
    exact absurd (htarget "Pet" rfl) (by decide)

end StoreSchema
