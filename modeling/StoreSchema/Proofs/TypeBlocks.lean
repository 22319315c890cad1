/-
**Blocks on definitions.**

The block that stands on a definition has been read when the directives of its type are collected.
After that nothing looks at it any more, although it still stands among the members of the
definition: definitions that are the same but for their blocks, under the same directives, compile
alike.

Main definitions:

* `SameBut` — that members are the same but for what stands under a key;
* `Catalog.Alike`, `Registry.Alike` — that the definitions of two catalogs, or of two registries,
  are the same but for their blocks.

Main results:

* `SameBut.interchangeable` — **definitions that are the same but for their blocks stand for one
  another**;
* `Catalog.Alike.matched`, `Registry.Alike.matched` — so catalogs and registries that are alike are
  matched;
* `Registry.Alike.compile_eq` — **registries that are alike compile alike**.
-/

import StoreSchema.Proofs.Interchange

set_option relaxedAutoImplicit false
set_option autoImplicit false

namespace StoreSchema

/-- That members are the same but for what stands under `key`. -/
def SameBut (key : String) (left right : Members) : Prop :=
  Entries.erase left key = Entries.erase right key

section SameBut

variable {key : String} {left right : Members}

theorem SameBut.get?_eq (h : SameBut key left right) {other : String} (hother : other ≠ key) :
    Entries.get? left other = Entries.get? right other := by
  rw [← Entries.get?_erase_of_ne hother left, ← Entries.get?_erase_of_ne hother right, h]

variable {dialect : Dialect} (h : SameBut dialect.directiveKey left right)
include h

theorem SameBut.properties_eq : Entries.get? left "properties" = Entries.get? right "properties" :=
  h.get?_eq (dialect.ne_directiveKey (by decide) (by decide))

theorem SameBut.required_eq : Entries.get? left "required" = Entries.get? right "required" :=
  h.get?_eq (dialect.ne_directiveKey (by decide) (by decide))

theorem SameBut.type_eq : Entries.get? left "type" = Entries.get? right "type" :=
  h.get?_eq (dialect.ne_directiveKey (by decide) (by decide))

theorem SameBut.isAlias_eq : isAlias left = isAlias right := by
  rw [isAlias, isAlias, Entries.contains, Entries.contains, h.properties_eq, h.type_eq]

theorem SameBut.describesObject_eq : Scope.describesObject left = Scope.describesObject right := by
  rw [Scope.describesObject, Scope.describesObject, Entries.contains, Entries.contains,
    h.properties_eq, h.type_eq]

theorem SameBut.required_read_eq (place : Pointer) :
    Required.read left place = Required.read right place := by
  rw [Required.read, Required.read, h.required_eq]

theorem SameBut.objectBody_read_eq (place : Pointer) :
    ObjectBody.read left place = ObjectBody.read right place := by
  rw [ObjectBody.read, ObjectBody.read, h.required_read_eq, ObjectBody.readProperties,
    ObjectBody.readProperties, h.properties_eq]

end SameBut

/-! ### Definitions -/

/-- **Definitions that are the same but for their blocks stand for one another**: an alias is
resolved without its block, and a body is read from other keys. -/
theorem SameBut.interchangeable {dialect : Dialect} {left right : Members}
    (h : SameBut dialect.directiveKey left right) : Interchangeable dialect left right where
  isAlias := h.isAlias_eq
  whole scope _ place := by rw [h]
  tree := by
    rintro scope rfl name directives
    have hwhole (place : Pointer) :
        scope.wholeField name left place = scope.wholeField name right place := by
      rw [Scope.wholeField, Scope.wholeField, h, h.required_read_eq]
    have hobject (additional : Members) (place : Pointer) :
        scope.objectFields left additional place = scope.objectFields right additional place := by
      rw [Scope.objectFields, Scope.objectFields, h.objectBody_read_eq]
    rw [Scope.tree, Scope.tree, h.describesObject_eq, hobject, hwhole]

/-- That two definitions are the same but for their blocks, under the same directives. -/
structure TypeDefinition.Alike (dialect : Dialect) (left right : TypeDefinition) : Prop where
  /-- The members are the same but for the block. -/
  body : SameBut dialect.directiveKey left.body right.body
  /-- The directives are the same. -/
  directives : left.directives = right.directives

/-! ### Catalogs and registries -/

/-- That the definitions of two catalogs are the same but for their blocks. -/
structure Catalog.Alike (left right : Catalog) : Prop where
  /-- The dialect is the same. -/
  dialect : left.dialect = right.dialect
  /-- The definitions are, one by one. -/
  types : Entries.Paired (fun _ type type' => type.Alike left.dialect type') left.types right.types

theorem Catalog.Alike.matched {left right : Catalog} (h : left.Alike right) :
    left.Matched left.dialect (SameBut left.dialect.directiveKey) right :=
  ⟨rfl, h.dialect.symm, h.types.mono fun _ _ _ halike => ⟨halike.body, halike.directives⟩⟩

/-- That the definitions of two registries are the same but for their blocks, under the same
directives. -/
structure Registry.Alike (left right : Registry) : Prop where
  /-- The dialect is the same. -/
  dialect : left.dialect = right.dialect
  /-- The directives that apply to every type are the same. -/
  defaults : left.defaults = right.defaults
  /-- The definitions are the same but for their blocks, one by one. -/
  definitions : Entries.Paired (fun _ => SameBut left.dialect.directiveKey) left.definitions
    right.definitions
  /-- The directives of each definition are the same. -/
  typeBlocks : ∀ name ∈ Entries.keys left.definitions,
    Entries.get? left.typeBlocks name = Entries.get? right.typeBlocks name

theorem Registry.Alike.matched {left right : Registry} (h : left.Alike right) :
    left.Matched left.dialect (SameBut left.dialect.directiveKey) right :=
  ⟨rfl, h.dialect.symm, h.definitions, h.defaults, h.typeBlocks⟩

/-- **Registries that are alike compile alike.** -/
theorem Registry.Alike.compile_eq {left right : Registry} (h : left.Alike right)
    (validators : Validators) :
    (left.catalog >>= fun catalog => catalog.compile validators) =
      right.catalog >>= fun catalog => catalog.compile validators :=
  h.matched.compile_eq (fun _ _ hbody => hbody.interchangeable) validators

end StoreSchema
