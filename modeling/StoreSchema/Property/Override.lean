/-
**Blocks of directives on a property.**

A block on a property, or on the items of a property, takes precedence over what the property
declares, unless it carries a reference and nothing else.  Such a block may store the field as an
identifier, bind a validator to it, change its declaration, and give it attributes.

Main definitions:

* `Override`, `override?` — the block that takes precedence;
* `validatorName?`, `storesIdentifier`, `identifierReference?` — what a block asks for;
* `retyped` — the property with its block worked in;
* `attributes`, `decorate` — what a block adds to a descriptor.

Main results:

* `weightMembers_retyped` — a property loses weight when its block is worked into it;
* `override?_own`, `override?_ofItems` — where the block that takes precedence stands.
-/

import StoreSchema.Descriptor
import StoreSchema.Dialect

set_option relaxedAutoImplicit false
set_option autoImplicit false

namespace StoreSchema

/-! ### Directive blocks on a property -/

/-- A block that takes precedence over what a property declares. -/
inductive Override where
  /-- The block of the property itself. -/
  | own (block : Members)
  /-- The block of the items of the property. -/
  | ofItems (items block : Members)

/-- The block itself. -/
def Override.block : Override → Members
  | .own block => block
  | .ofItems _ block => block

/-- Whether a block does more than carry a reference. -/
def overrides (block : Members) : Bool := block.any fun member => member.1 != "$ref"

/-- The block of an object, when it does more than carry a reference. -/
def overridingBlock? (dialect : Dialect) (members : Members) (place : Pointer) :
    Outcome (Option Members) :=
  (dialect.directive? members place).map fun block => block.filter overrides

/-- The block on the items of a property, when it does more than carry a reference. -/
def itemsOverride? (dialect : Dialect) (members : Members) (place : Pointer) :
    Outcome (Option Override) :=
  match Entries.get? members "items" with
  | some (.obj items) =>
      (overridingBlock? dialect items (place.child "items")).map fun block =>
        block.map (Override.ofItems items)
  | _ => .ok none

/-- The block that takes precedence over what the property at `place` declares: its own, or that of
its items. -/
def override? (dialect : Dialect) (members : Members) (place : Pointer) :
    Outcome (Option Override) := do
  match ← overridingBlock? dialect members place with
  | some block => return some (.own block)
  | none => itemsOverride? dialect members place

/-- The name of the validator that a block binds. -/
def validatorName? (dialect : Dialect) (block : Members) (place : Pointer) :
    Outcome (Option String) :=
  match Entries.get? block "validator" with
  | none => .ok none
  | some .null => .ok none
  | some (.str name) => .ok (some name)
  | some other =>
      let place := (place.child dialect.directiveKey).child "validator"
      .error (.wrongDirective place [.string] other)

/-- Whether a block stores its field as an identifier. -/
def storesIdentifier (block : Members) : Bool :=
  (Entries.get? block "type").bind Json.asString? == some identifierType

/-- The reference to the type that an identifier belongs to: that of the block, of the property or
of its items.  The block may ask for none. -/
def identifierReference? (dialect : Dialect) (block members : Members) : Option String :=
  if Entries.get? block "include-ref" = some (.bool false) then none
  else
    (dialect.explicitReference? block).or <|
      ((Entries.get? members "$ref").bind Json.asString?).or <|
        (Entries.get? members "items").bind fun items =>
          (Entries.get? items.members "$ref").bind Json.asString?

/-- The attributes that a block gives to its field: what is neither a keyword of properties nor
steers compilation. -/
def attributes (block : Members) : Members :=
  block.filter fun member => !propertyKeywords.contains member.1 && !controlKeys.contains member.1

/-- A descriptor with the validator and the attributes of a block. -/
def decorate (validator : Option String) (block : Members) (field : Descriptor) : Descriptor :=
  field.withModifiers { field.modifiers with
    validator
    attributes := Entries.insertAll field.modifiers.attributes (attributes block) }

/-- The members of a property without its block, under `key`; unless the block binds a validator,
its entries are worked in. -/
def retyped (key : String) (validator : Option String) (block members : Members) : Members :=
  let bare := Entries.erase members key
  if validator.isSome then bare
  else Entries.insertAll bare (block.filter fun member => !controlKeys.contains member.1)

/-- Working a block into its property adds at most the weight of the block. -/
theorem weightMembers_retyped_le (key : String) (validator : Option String)
    (block members : Members) :
    Json.weightMembers (retyped key validator block members) ≤
      Json.weightMembers (Entries.erase members key) + Json.weightMembers block := by
  have hfilter := Json.weightMembers_filter_le
    (fun member => !controlKeys.contains member.1) block
  have hinsert := Json.weightMembers_insertAll_le (Entries.erase members key)
    (block.filter fun member => !controlKeys.contains member.1)
  rw [retyped]
  split <;> omega

/-- A property loses weight when its block is worked into it. -/
theorem weightMembers_retyped {key : String} {block members : Members}
    (h : Entries.get? members key = some (.obj block)) (validator : Option String) :
    Json.weightMembers (retyped key validator block members) < Json.weightMembers members := by
  have herase := Json.weightMembers_erase h
  have hretyped := weightMembers_retyped_le key validator block members
  simp only [Json.weight] at herase
  omega

/-! ### Where a block stands -/

theorem directive?_eq_some {dialect : Dialect} {members block : Members} {place : Pointer}
    (h : dialect.directive? members place = .ok (some block)) :
    Entries.get? members dialect.directiveKey = some (.obj block) := by
  rw [Dialect.directive?] at h
  split at h <;> cases h
  assumption

theorem overridingBlock?_eq_some {dialect : Dialect} {members block : Members} {place : Pointer}
    (h : overridingBlock? dialect members place = .ok (some block)) :
    Entries.get? members dialect.directiveKey = some (.obj block) := by
  obtain ⟨found, hfound, h⟩ := Outcome.map_eq_ok_iff.1 h
  rw [(Option.filter_eq_some_iff.1 h).1] at hfound
  exact directive?_eq_some hfound

theorem itemsOverride?_eq_some {dialect : Dialect} {members : Members} {place : Pointer}
    {found : Override} (h : itemsOverride? dialect members place = .ok (some found)) :
    ∃ items block, found = .ofItems items block ∧
      Entries.get? members "items" = some (.obj items) := by
  rw [itemsOverride?] at h
  split at h
  · next items hitems =>
      obtain ⟨block, _, h⟩ := Outcome.map_eq_ok_iff.1 h
      obtain ⟨block, _, h⟩ := Option.map_eq_some_iff.1 h
      exact ⟨items, block, h.symm, hitems⟩
  · cases h

/-- The block that takes precedence is that of the property, or else that of its items. -/
theorem override?_eq_some {dialect : Dialect} {members : Members} {place : Pointer}
    {found : Override} (h : override? dialect members place = .ok (some found)) :
    (∃ block, found = .own block ∧
        Entries.get? members dialect.directiveKey = some (.obj block)) ∨
      ∃ items block, found = .ofItems items block ∧
        Entries.get? members "items" = some (.obj items) := by
  obtain ⟨own, hown, h⟩ := Outcome.bind_eq_ok_iff.1 h
  cases own with
  | some block =>
      cases h
      exact .inl ⟨block, rfl, overridingBlock?_eq_some hown⟩
  | none => exact .inr (itemsOverride?_eq_some h)

/-- The block of a property stands under the key of the dialect. -/
theorem override?_own {dialect : Dialect} {members block : Members} {place : Pointer}
    (h : override? dialect members place = .ok (some (.own block))) :
    Entries.get? members dialect.directiveKey = some (.obj block) := by
  rcases override?_eq_some h with ⟨found, heq, hfound⟩ | ⟨items, found, heq, _⟩
  · cases heq
    exact hfound
  · cases heq

/-- The items that carry an overriding block are the items of the property. -/
theorem override?_ofItems {dialect : Dialect} {members items block : Members} {place : Pointer}
    (h : override? dialect members place = .ok (some (.ofItems items block))) :
    Entries.get? members "items" = some (.obj items) := by
  rcases override?_eq_some h with ⟨found, heq, _⟩ | ⟨found, _, heq, hfound⟩
  · cases heq
  · cases heq
    exact hfound

end StoreSchema
