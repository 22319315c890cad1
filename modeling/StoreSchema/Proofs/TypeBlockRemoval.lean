/-
**Removing blocks from definitions.**

A definition is read by the same steps as a property when it is no object and when it is a scalar
under another name, and there its block would be taken for the block of a field: as an identifier, a
validator, a change of the declared type.  It never is.  Once the directives of a type have been
collected its block can be taken away, and every definition compiles, and every reference yields,
what it did before, whatever definitions are being compiled.

In a legacy document blocks on definitions and on the document do not count at all.  They only have
to be objects, and then the document compiles as it does without them.

Main definitions:

* `TypeDefinition.withoutBlock`, `Catalog.withoutBlocks`, `Registry.withoutBlocks` — definitions
  without their blocks, under the same directives;
* `withoutTypeBlocks` — a document without the blocks of its definitions and its own;
* `ObjectTypeBlocks` — that those blocks are objects.

Main results:

* `Overlay.respects_sameBut` — merging into the blocks of properties reads nothing from the block of
  the definition;
* `typeBlocks_never_leak` — **blocks of definitions have no part in resolving**, and in a legacy
  document none in compiling.
-/

import StoreSchema.Proofs.TypeBlocks

set_option relaxedAutoImplicit false
set_option autoImplicit false

namespace StoreSchema

/-! ### Definitions without their blocks -/

/-- A definition without its block, under the same directives. -/
def TypeDefinition.withoutBlock (dialect : Dialect) (type : TypeDefinition) : TypeDefinition :=
  { type with body := Entries.erase type.body dialect.directiveKey }

/-- A catalog whose definitions are without their blocks. -/
def Catalog.withoutBlocks (catalog : Catalog) : Catalog :=
  { catalog with
    types := catalog.types.map fun entry => (entry.1, entry.2.withoutBlock catalog.dialect) }

/-- A registry whose definitions are without their blocks; the directives stay. -/
def Registry.withoutBlocks (registry : Registry) : Registry :=
  { registry with
    definitions := registry.definitions.map fun entry =>
      (entry.1, Entries.erase entry.2 registry.dialect.directiveKey) }

theorem sameBut_erase (key : String) (members : Members) :
    SameBut key (Entries.erase members key) members := by
  rw [SameBut, Entries.erase, Entries.erase, List.filter_filter]
  simp

theorem TypeDefinition.alike_withoutBlock (dialect : Dialect) (type : TypeDefinition) :
    (type.withoutBlock dialect).Alike dialect type :=
  ⟨sameBut_erase _ _, rfl⟩

/-- A catalog is alike to itself without blocks. -/
theorem Catalog.alike_withoutBlocks (catalog : Catalog) : catalog.withoutBlocks.Alike catalog where
  dialect := rfl
  types := (Entries.Paired.refl (fun _ _ => rfl) catalog.types).map_self
    (fun _ type => type.withoutBlock catalog.dialect) fun _ _ type _ =>
      type.alike_withoutBlock catalog.dialect

namespace Registry

/-- Without blocks the same directives are in effect for each type. -/
theorem typeDefinitions_withoutBlocks (registry : Registry) (listed : Entries Members) :
    registry.withoutBlocks.typeDefinitions (listed.map fun entry =>
        (entry.1, Entries.erase entry.2 registry.dialect.directiveKey)) =
      (registry.typeDefinitions listed).map fun types =>
        types.map fun entry => (entry.1, entry.2.withoutBlock registry.dialect) := by
  induction listed with
  | nil => rfl
  | cons entry rest ih =>
      obtain ⟨name, body⟩ := entry
      have hdirectives : registry.withoutBlocks.directives name = registry.directives name := rfl
      rw [List.map_cons, typeDefinitions, typeDefinitions, hdirectives, ih]
      cases registry.directives name with
      | error cause => rfl
      | ok directives => cases registry.typeDefinitions rest <;> rfl

/-- Collecting directives and removing blocks may be done in any order. -/
theorem catalog_withoutBlocks (registry : Registry) :
    registry.withoutBlocks.catalog = registry.catalog.map Catalog.withoutBlocks := by
  have htypes := registry.typeDefinitions_withoutBlocks registry.definitions
  rw [catalog, catalog, Outcome.map_map]
  change (registry.withoutBlocks.typeDefinitions (registry.definitions.map _)).map _ = _
  rw [htypes, Outcome.map_map]
  rfl

end Registry

/-! ### Documents without type blocks -/

/-- A value of a document without the block under `key`. -/
def eraseBlock (key : String) : Json → Json
  | .obj members => .obj (Entries.erase members key)
  | other => other

/-- A document without the blocks under `key` on its definitions and on itself. -/
def withoutTypeBlocks (key : String) (document : Members) : Members :=
  let bare := Entries.erase document key
  match Entries.get? document "definitions" with
  | some (.obj listed) =>
      Entries.insert bare "definitions"
        (.obj (listed.map fun entry => (entry.1, eraseBlock key entry.2)))
  | _ => bare

/-- That the blocks under `key` on the definitions of a document and on the document itself, where
there are any, are objects. -/
structure ObjectTypeBlocks (key : String) (document : Members) : Prop where
  /-- The block of the document is an object. -/
  root : ∀ block, Entries.get? document key = some block → block.isObject = true
  /-- So are the blocks of its definitions. -/
  definitions : ∀ listed, Entries.get? document "definitions" = some (.obj listed) →
    ∀ entry ∈ listed, ∀ block, Entries.get? entry.2.members key = some block →
      block.isObject = true

section Legacy

variable {document : Members} {key : String}

/-- Nothing but the definitions and the block of a document changes. -/
theorem get?_withoutTypeBlocks {other : String} (hkey : other ≠ key)
    (hother : other ≠ "definitions") :
    Entries.get? (withoutTypeBlocks key document) other = Entries.get? document other := by
  rw [withoutTypeBlocks]
  split
  · rw [Entries.get?_insert, if_neg (Ne.symm hother), Entries.get?_erase_of_ne hkey]
  · exact Entries.get?_erase_of_ne hkey document

/-- The dialect of a document does not depend on its blocks. -/
theorem detect_withoutTypeBlocks (dialect : Dialect) :
    Dialect.detect (withoutTypeBlocks dialect.directiveKey document) = Dialect.detect document := by
  have hget (other : String) (hother : other = "openapi" ∨ other = "swagger") :
      Entries.get? (withoutTypeBlocks dialect.directiveKey document) other =
        Entries.get? document other := by
    rcases hother with rfl | rfl <;>
      exact get?_withoutTypeBlocks (dialect.ne_directiveKey (by decide) (by decide)) (by decide)
  rw [Dialect.detect, Dialect.detect, Entries.contains, Entries.contains, hget _ (.inl rfl),
    hget _ (.inr rfl)]

/-- A block on a type does not count in a legacy document, if only it is an object. -/
theorem Registry.typeBlock?_legacy {members : Members} {place : Pointer}
    (h : ∀ block, Entries.get? members Dialect.legacy.directiveKey = some block →
      block.isObject = true) : typeBlock? .legacy members place = .ok none := by
  rw [typeBlock?, Dialect.directive?]
  cases hget : Entries.get? members Dialect.legacy.directiveKey with
  | none => rfl
  | some block =>
      have hobject := h block hget
      cases block with
      | obj entries => rfl
      | _ => cases hobject

/-- Without a block none counts. -/
theorem Registry.typeBlock?_erase (members : Members) (place : Pointer) :
    typeBlock? .legacy (Entries.erase members Dialect.legacy.directiveKey) place = .ok none := by
  refine typeBlock?_legacy fun block hblock => ?_
  rw [Entries.get?_erase_self] at hblock
  cases hblock

/-- A definition stands for itself without its block, in a legacy document. -/
theorem matched_eraseBlock {value : Json}
    (h : ∀ block, Entries.get? value.members Dialect.legacy.directiveKey = some block →
      block.isObject = true) :
    MatchedDefinition .legacy (SameBut Dialect.legacy.directiveKey) value
      (eraseBlock Dialect.legacy.directiveKey value) := by
  cases value with
  | obj members =>
      refine .definition (sameBut_erase _ _).symm fun place => ?_
      rw [Registry.typeBlock?_erase]
      exact Registry.typeBlock?_legacy h
  | _ => exact .other _ rfl

/-- **A legacy document is matched by itself without blocks on types**, if only they are objects. -/
theorem ObjectTypeBlocks.matched (h : ObjectTypeBlocks Dialect.legacy.directiveKey document)
    (hlegacy : Dialect.detect document = .legacy) :
    MatchedDocuments .legacy (SameBut Dialect.legacy.directiveKey) document
      (withoutTypeBlocks Dialect.legacy.directiveKey document) where
  detect_left := hlegacy
  detect_right := (detect_withoutTypeBlocks .legacy).trans hlegacy
  listed := by
    have hne : "definitions" ≠ Dialect.legacy.directiveKey := by decide
    rw [Registry.definitionList, Registry.definitionList, withoutTypeBlocks]
    have hbare := Entries.get?_erase_of_ne hne document
    cases hlisted : Entries.get? document "definitions" with
    | none =>
        rw [hlisted] at hbare
        rw [hbare]
        exact .ok .nil
    | some value =>
        cases value with
        | obj listed =>
            rw [Entries.get?_insert_self]
            refine .ok ?_
            have hself : Entries.Paired (fun _ => Eq) listed listed := .refl (fun _ _ => rfl) listed
            refine hself.with_mem.map_right (fun _ => eraseBlock _) ?_
            rintro name value _ ⟨hmem, rfl⟩
            exact matched_eraseBlock (h.definitions listed hlisted _ hmem)
        | _ =>
            rw [hlisted] at hbare
            rw [hbare]
            exact .error _
  block := by
    have hroot : Entries.get? (withoutTypeBlocks Dialect.legacy.directiveKey document)
        Dialect.legacy.directiveKey = none := by
      rw [withoutTypeBlocks]
      split
      · rw [Entries.get?_insert, if_neg (by decide), Entries.get?_erase_self]
      · exact Entries.get?_erase_self _ _
    rw [Registry.typeBlock?_legacy h.root, Registry.typeBlock?_legacy (by simp [hroot])]

end Legacy

/-! ### What compiles without blocks -/

/-- Merging into the blocks of properties leads to the same properties whatever the block of the
definition holds. -/
theorem Overlay.respects_sameBut (dialect : Dialect) :
    Respects dialect.directiveKey (SameBut dialect.directiveKey) := by
  intro directive fields left right h
  have hne : "properties" ≠ dialect.directiveKey := dialect.ne_directiveKey (by decide) (by decide)
  cases fields with
  | nil =>
      refine .some ?_
      rw [mergeBlock, mergeBlock, SameBut, Entries.erase_insert_self, Entries.erase_insert_self, h]
  | cons field rest =>
      rw [updateProperty, updateProperty, ← h.properties_eq]
      split
      · split
        · cases updateProperty (mergeBlock dialect.directiveKey directive) rest _ with
          | none => exact .none
          | some changed =>
              refine .some ?_
              rw [SameBut, Entries.erase_insert_of_ne hne, Entries.erase_insert_of_ne hne, h]
        · exact .none
      · exact .none

/-- **Blocks of definitions have no part in resolving.**  Without them the directives of all types
are collected as before; every reference is followed, every property is resolved and every
definition is compiled as before, whatever definitions are being compiled, be the outcome a value or
a cause.  A legacy document in which these blocks are objects compiles as it does without them,
under every overlay and with all validators. -/
theorem typeBlocks_never_leak :
    (∀ registry : Registry,
      registry.withoutBlocks.catalog = registry.catalog.map Catalog.withoutBlocks) ∧
    (∀ (catalog : Catalog) (stack : List String),
      (∀ reference place, catalog.withoutBlocks.follow stack reference place =
        catalog.follow stack reference place) ∧
      (∀ property place, resolveField (catalog.withoutBlocks.scope stack) property place =
        resolveField (catalog.scope stack) property place) ∧
      ∀ name type, catalog.withoutBlocks.compileDefinition stack name
          (type.withoutBlock catalog.dialect) = catalog.compileDefinition stack name type) ∧
    ∀ (source : Source) (document : Members), source.normalize = .ok document →
      Dialect.detect document = .legacy →
      ObjectTypeBlocks Dialect.legacy.directiveKey document →
      ∀ options, compile (.parsed (.obj (withoutTypeBlocks Dialect.legacy.directiveKey document)))
        options = compile source options := by
  refine ⟨Registry.catalog_withoutBlocks, fun catalog stack => ?_, ?_⟩
  · have hmatched := catalog.alike_withoutBlocks.matched
    have hsame (body body' : Members) (hbody : SameBut catalog.dialect.directiveKey body body') :
        Interchangeable catalog.dialect body body' := hbody.interchangeable
    refine ⟨hmatched.follow_eq hsame stack, fun property place => ?_, fun name type => ?_⟩
    · rw [hmatched.scope_eq hsame]
    · exact hmatched.compileDefinition_eq hsame stack name (sameBut_erase _ _) type.directives
  · intro source document hsource hlegacy hblocks options
    exact ((hblocks.matched hlegacy).compile_eq (fun _ _ hbody => hbody.interchangeable)
      (Overlay.respects_sameBut .legacy) hsource rfl options).symm

/-- A legacy document with blocks on itself, on an object and on a scalar; on a field they would
make identifiers. -/
def taggedPets : Members :=
  [("x-mongoose", .obj [("schema-options", .obj [("strict", .bool false)])]),
    ("definitions", .obj
      [("Pet", .obj
        [("x-mongoose", .obj [("type", .str "objectId")]),
          ("properties", .obj [("tag", .obj [("$ref", .str "#/definitions/Tag")])])]),
        ("Tag", .obj [("type", .str "string"), ("x-mongoose", .obj [("type", .str "objectId")])])])]

/-- `taggedPets` without its blocks. -/
def taggedPetsBare : Members :=
  [("definitions", .obj
    [("Pet", .obj [("properties", .obj [("tag", .obj [("$ref", .str "#/definitions/Tag")])])]),
      ("Tag", .obj [("type", .str "string")])])]

theorem taggedPets_blocks_never_leak :
    Dialect.detect taggedPets = .legacy ∧
      ObjectTypeBlocks Dialect.legacy.directiveKey taggedPets ∧
      withoutTypeBlocks Dialect.legacy.directiveKey taggedPets = taggedPetsBare ∧
      ∀ options, compile (.parsed (.obj taggedPetsBare)) options =
        compile (.parsed (.obj taggedPets)) options := by
  have hblocks : ObjectTypeBlocks Dialect.legacy.directiveKey taggedPets := by
    refine ⟨fun block hblock => ?_, fun listed hlisted entry hentry block hblock => ?_⟩
    · cases hblock
      rfl
    · cases hlisted
      simp only [List.mem_cons, List.not_mem_nil, or_false] at hentry
      rcases hentry with rfl | rfl <;> cases hblock <;> rfl
  exact ⟨rfl, hblocks, rfl, typeBlocks_never_leak.2.2 (.parsed (.obj taggedPets)) taggedPets rfl rfl
    hblocks⟩

end StoreSchema
