/-
**Properties without blocks.**

Where neither a property nor its items carry a block, the form of the property is decided by its
references and its declared type alone.

Main definitions:

* `BlockFree` — that neither a property nor its items carry a block;
* `readReference` — what a value under `$ref` yields.

Main results:

* `Form.read_of_blockFree` — **the form is the declared one**;
* `reference?_of_own`, `reference?_of_items`, `reference?_of_none` — which reference counts.
-/

import StoreSchema.Property.Form

set_option relaxedAutoImplicit false
set_option autoImplicit false

namespace StoreSchema

/-- That neither a property nor its items carry a block. -/
structure BlockFree (dialect : Dialect) (members : Members) : Prop where
  /-- The property carries none. -/
  own : Entries.get? members dialect.directiveKey = none
  /-- The items carry none. -/
  items : ∀ items, Entries.get? members "items" = some (.obj items) →
    Entries.get? items dialect.directiveKey = none

variable {dialect : Dialect} {members : Members} {place : Pointer}

theorem directive?_of_get?_eq_none (h : Entries.get? members dialect.directiveKey = none) :
    dialect.directive? members place = .ok none := by rw [Dialect.directive?, h]

namespace BlockFree

/-- No block takes precedence. -/
theorem override?_eq_none (h : BlockFree dialect members) :
    override? dialect members place = .ok none := by
  rw [override?, overridingBlock?, directive?_of_get?_eq_none h.own]
  change itemsOverride? dialect members place = _
  rw [itemsOverride?]
  split
  · next items hitems =>
      rw [overridingBlock?, directive?_of_get?_eq_none (h.items items hitems)]
      rfl
  · rfl

end BlockFree

/-- **The form of a property without blocks is the declared one.** -/
theorem Form.read_of_blockFree (h : BlockFree dialect members) :
    Form.read dialect members place = Form.readDeclared dialect members place := by
  rw [Form.read, h.override?_eq_none]
  rfl

/-! ### References without blocks -/

/-- What a value under `$ref` at `place` yields. -/
def readReference (value : Json) (place : Pointer) : Outcome (Option String) :=
  match value with
  | .str reference => .ok (some reference)
  | other => .error (.wrongKind (place.child "$ref") [.string] other)

theorem ownReference?_of_get? {value : Json} (h : Entries.get? members "$ref" = some value) :
    ownReference? dialect members place = readReference value place := by
  rw [ownReference?, h]
  cases value <;> rfl

theorem ownReference?_of_get?_eq_none (hfree : Entries.get? members dialect.directiveKey = none)
    (h : Entries.get? members "$ref" = none) :
    ownReference? dialect members place = .ok none := by
  rw [ownReference?, h, directive?_of_get?_eq_none hfree]
  rfl

/-- The reference of the property itself counts first. -/
theorem reference?_of_own {value : Json} (h : Entries.get? members "$ref" = some value) :
    reference? dialect members place = readReference value place := by
  rw [reference?, ownReference?_of_get? h]
  cases value <;> rfl

/-- Where the property has none, that of its items counts. -/
theorem reference?_of_own_eq_none (h : ownReference? dialect members place = .ok none) :
    reference? dialect members place =
      match Entries.get? members "items" with
      | some (.obj items) => ownReference? dialect items (place.child "items")
      | _ => .ok none := by
  rw [reference?, h]
  rfl

theorem reference?_of_items (hfree : BlockFree dialect members)
    (h : Entries.get? members "$ref" = none) {items : Members}
    (hitems : Entries.get? members "items" = some (.obj items)) {value : Json}
    (hvalue : Entries.get? items "$ref" = some value) :
    reference? dialect members place = readReference value (place.child "items") := by
  rw [reference?_of_own_eq_none (ownReference?_of_get?_eq_none hfree.own h), hitems]
  exact ownReference?_of_get? hvalue

/-- Where neither has one, there is none. -/
theorem reference?_of_none (hfree : BlockFree dialect members)
    (h : Entries.get? members "$ref" = none)
    (hitems : ∀ items, Entries.get? members "items" = some (.obj items) →
      Entries.get? items "$ref" = none) :
    reference? dialect members place = .ok none := by
  rw [reference?_of_own_eq_none (ownReference?_of_get?_eq_none hfree.own h)]
  split
  · next items hget =>
      exact ownReference?_of_get?_eq_none (hfree.items items hget) (hitems items hget)
  · rfl

end StoreSchema
