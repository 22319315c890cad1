/-
**Types with their effective directives.**

The directives of a type are those of the document with those of the type laid over them: options
of schemas are combined option by option, and every other directive is replaced as a whole.  A
catalog holds every definition with the directives that are in effect for it.

Main definitions:

* `TypeDirectives` — the directives of one type, read;
* `effectiveBlock` — the block of a type over the block of the document;
* `TypeDirectives.read` — what a block says;
* `Catalog`, `Registry.catalog` — **definitions with their directives**.
-/

import StoreSchema.Index
import StoreSchema.Registry
import StoreSchema.Vocabulary

set_option relaxedAutoImplicit false
set_option autoImplicit false

namespace StoreSchema

/-- The directives of one type; without any, nothing is set, left out or added. -/
structure TypeDirectives where
  /-- The options of the schema. -/
  options : Members := []
  /-- Whether the type is left out of the output. -/
  exclude : Bool := false
  /-- The properties that are added after the declared ones. -/
  additional : Members := []
  /-- The indexes of the schema. -/
  indexes : List IndexSpec := []
  /-- The module of validators that the document names. -/
  validatorModule : Option String := none
deriving DecidableEq

/-- What a directive of the type leaves under `key`, given what stands there already: options of
schemas are written one by one, anything else replaces. -/
def effectiveValue (key : String) (present : Option Json) (value : Json) : Json :=
  match present, value with
  | some (.obj options), .obj settings =>
      if key = schemaOptionsKey then .obj (Entries.insertAll options settings) else value
  | _, _ => value

/-- The block of a type over the block of the document. -/
def effectiveBlock (defaults : Members) : Members → Members
  | [] => defaults
  | (key, value) :: rest =>
      let laid := effectiveValue key (Entries.get? defaults key) value
      effectiveBlock (Entries.insert defaults key laid) rest

namespace TypeDirectives

/-- The object that a directive holds; an absent one and a null are empty. -/
def readObject (block : Members) (key : String) (place : Pointer) : Outcome Members :=
  match Entries.get? block key with
  | none => .ok []
  | some .null => .ok []
  | some (.obj members) => .ok members
  | some other => .error (.wrongDirective (place.child key) [.object] other)

/-- Whether a directive leaves the type out. -/
def readExclude (block : Members) (place : Pointer) : Outcome Bool :=
  match Entries.get? block excludeKey with
  | none => .ok false
  | some .null => .ok false
  | some (.bool exclude) => .ok exclude
  | some other => .error (.wrongDirective (place.child excludeKey) [.boolean] other)

/-- The indexes that a directive describes. -/
def readIndexes (block : Members) (place : Pointer) : Outcome (List IndexSpec) :=
  match Entries.get? block indexKey with
  | none => .ok []
  | some value => IndexSpec.parseAll value (place.child indexKey)

/-- The module of validators that a directive names. -/
def readModule (block : Members) (place : Pointer) : Outcome (Option String) :=
  match Entries.get? block validatorsKey with
  | none => .ok none
  | some .null => .ok none
  | some (.str name) => .ok (some name)
  | some other => .error (.wrongDirective (place.child validatorsKey) [.string] other)

/-- What the block at `place` says. -/
def read (block : Members) (place : Pointer) : Outcome TypeDirectives := do
  let options ← readObject block schemaOptionsKey place
  let exclude ← readExclude block place
  let additional ← readObject block additionalPropertiesKey place
  let indexes ← readIndexes block place
  let validatorModule ← readModule block place
  return { options, exclude, additional, indexes, validatorModule }

end TypeDirectives

/-- A definition and the directives that are in effect for it. -/
structure TypeDefinition where
  /-- The members of the definition. -/
  body : Members
  /-- The directives in effect. -/
  directives : TypeDirectives

/-- All definitions of a document with their directives. -/
structure Catalog where
  /-- The dialect of the document. -/
  dialect : Dialect
  /-- The definitions, in order. -/
  types : Entries TypeDefinition

namespace Catalog

/-- The name and the definition that a reference leads to. -/
def find? (catalog : Catalog) (reference : String) : Option (String × TypeDefinition) :=
  (Pointer.target? reference).bind fun name =>
    (Entries.get? catalog.types name).map fun type => (name, type)

/-- A reference leads to the definition whose name it is made of. -/
theorem find?_eq_some_iff {catalog : Catalog} {reference name : String} {type : TypeDefinition} :
    catalog.find? reference = some (name, type) ↔
      Pointer.target? reference = some name ∧ Entries.get? catalog.types name = some type := by
  rw [find?, Option.bind_eq_some_iff]
  constructor
  · rintro ⟨target, htarget, htype⟩
    obtain ⟨found, hfound, heq⟩ := Option.map_eq_some_iff.1 htype
    cases heq
    exact ⟨htarget, hfound⟩
  · rintro ⟨htarget, htype⟩
    exact ⟨name, htarget, by rw [htype, Option.map_some]⟩

theorem find?_mem_keys {catalog : Catalog} {reference name : String} {type : TypeDefinition}
    (h : catalog.find? reference = some (name, type)) : name ∈ Entries.keys catalog.types :=
  Entries.mem_keys_of_get? (find?_eq_some_iff.1 h).2

theorem find?_mem {catalog : Catalog} {reference name : String} {type : TypeDefinition}
    (h : catalog.find? reference = some (name, type)) : (name, type) ∈ catalog.types :=
  Entries.mem_of_get? (find?_eq_some_iff.1 h).2

/-- Whether the definition called `name` is left out of the output. -/
def isExcluded (catalog : Catalog) (name : String) : Bool :=
  ((Entries.get? catalog.types name).map fun type => type.directives.exclude).getD false

end Catalog

namespace Registry

/-- The directives in effect for the type called `name`. -/
def directives (registry : Registry) (name : String) : Outcome TypeDirectives :=
  let own := (Entries.get? registry.typeBlocks name).getD []
  TypeDirectives.read (effectiveBlock registry.defaults own)
    ((Pointer.definition name).child registry.dialect.directiveKey)

/-- The definitions with the directives in effect for them. -/
def typeDefinitions (registry : Registry) : Entries Members → Outcome (Entries TypeDefinition)
  | [] => .ok []
  | (name, body) :: rest => do
      let directives ← registry.directives name
      let others ← registry.typeDefinitions rest
      return (name, { body, directives }) :: others

/-- **The catalog of a registry.** -/
def catalog (registry : Registry) : Outcome Catalog :=
  (registry.typeDefinitions registry.definitions).map fun types =>
    { dialect := registry.dialect, types }

end Registry

end StoreSchema
