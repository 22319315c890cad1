/-
**Properties with their blocks changed.**

A change of blocks is made to the block of a property, and then to the blocks of its items and of
the properties that it lists, at any depth.  What else stands in a property stays as it is.  When a
change leaves something out, two properties that come out the same are the same but for what is left
out of their blocks.

An overlay merges into blocks.  If the change comes out the same after any merge as soon as it does
before, then every overlay keeps such properties the same.

Main definitions:

* `Json.onObject` — a value with a change made to it, when it is an object;
* `reblocked`, `reblockedProperties` — **a property with its blocks changed**, and a list of them;
* `SameReblocked` — that two objects come out the same;
* `onDefinitions` — a document with a change made to its definitions.

Main results:

* `SameReblocked.items_rel`, `SameReblocked.properties_rel`, `SameReblocked.block_rel` — what stands
  in objects that come out the same;
* `SameReblocked.erase`, `SameReblocked.insertAll` — changes after which they still do;
* `Overlay.respects_sameReblocked` — **overlays keep them the same**.
-/

import StoreSchema.Proofs.Property.Correspondence

set_option relaxedAutoImplicit false
set_option autoImplicit false

namespace StoreSchema

/-! ### Changes of objects -/

/-- A value with a change made to it, when it is an object. -/
def Json.onObject (change : Members → Members) : Json → Json
  | .obj members => .obj (change members)
  | other => other

theorem Json.onObject_eq_iff {change : Members → Members} {value value' : Json} :
    value.onObject change = value'.onObject change ↔
      Json.ObjectRel (fun members members' => change members = change members') value value' := by
  constructor
  · intro h
    cases value with
    | obj members =>
        cases value' with
        | obj members' => exact .object (Json.obj.inj h)
        | _ => cases h
    | _ =>
        cases value' with
        | obj members' => cases h
        | _ => exact .of_eq h rfl
  · intro h
    cases h with
    | object h => rw [onObject, onObject, h]
    | other value h => rfl

/-- Values that are there in both places or in neither, and come out the same, are related so. -/
theorem rel_of_map_eq {α β : Type} {change : α → β} {first second : Option α}
    (h : first.map change = second.map change) :
    Option.Rel (fun value value' => change value = change value') first second := by
  cases first <;> cases second
  · exact .none
  · cases h
  · cases h
  · exact .some (Option.some.inj h)

/-! ### Changes of blocks -/

mutual

/-- **A property with a change made to its block**, and to the blocks in it at any depth. -/
def reblocked (dialect : Dialect) (change : Members → Members) : Json → Json
  | .obj members => .obj (reblockedMembers dialect change members)
  | other => other

/-- The value of `properties` with a change made to the blocks of all properties in it. -/
def reblockedProperties (dialect : Dialect) (change : Members → Members) : Json → Json
  | .obj listed => .obj (reblockedListed dialect change listed)
  | other => other

/-- The members of a property with a change made to its blocks. -/
def reblockedMembers (dialect : Dialect) (change : Members → Members) :
    List (String × Json) → Members
  | [] => []
  | (key, value) :: rest =>
      let changed :=
        if key = dialect.directiveKey then value.onObject change
        else if key = "items" then reblocked dialect change value
        else if key = "properties" then reblockedProperties dialect change value
        else value
      (key, changed) :: reblockedMembers dialect change rest

/-- The listed properties with a change made to their blocks. -/
def reblockedListed (dialect : Dialect) (change : Members → Members) :
    List (String × Json) → Members
  | [] => []
  | (name, property) :: rest =>
      (name, reblocked dialect change property) :: reblockedListed dialect change rest

end

section Reblocked

variable {dialect : Dialect} {change : Members → Members}

/-- What becomes of the value under a key of a property. -/
def reblockedValue (dialect : Dialect) (change : Members → Members) (key : String)
    (value : Json) : Json :=
  if key = dialect.directiveKey then value.onObject change
  else if key = "items" then reblocked dialect change value
  else if key = "properties" then reblockedProperties dialect change value
  else value

theorem reblockedValue_directiveKey (value : Json) :
    reblockedValue dialect change dialect.directiveKey value = value.onObject change := by
  rw [reblockedValue, if_pos rfl]

theorem reblockedValue_items (value : Json) :
    reblockedValue dialect change "items" value = reblocked dialect change value := by
  rw [reblockedValue, if_neg (dialect.ne_directiveKey (by decide) (by decide)), if_pos rfl]

theorem reblockedValue_properties (value : Json) :
    reblockedValue dialect change "properties" value =
      reblockedProperties dialect change value := by
  rw [reblockedValue, if_neg (dialect.ne_directiveKey (by decide) (by decide)),
    if_neg (by decide), if_pos rfl]

theorem reblockedMembers_eq_map (members : Members) :
    reblockedMembers dialect change members =
      members.map fun entry => (entry.1, reblockedValue dialect change entry.1 entry.2) := by
  induction members with
  | nil => rfl
  | cons entry rest ih =>
      rw [reblockedMembers, ih]
      rfl

theorem reblockedListed_eq_map (listed : Members) :
    reblockedListed dialect change listed =
      listed.map fun entry => (entry.1, reblocked dialect change entry.2) := by
  induction listed with
  | nil => rfl
  | cons entry rest ih =>
      rw [reblockedListed, ih]
      rfl

theorem reblocked_eq_onObject (property : Json) :
    reblocked dialect change property =
      property.onObject (reblockedMembers dialect change) := by
  cases property <;> rfl

theorem reblockedProperties_eq_onObject (value : Json) :
    reblockedProperties dialect change value =
      value.onObject (reblockedListed dialect change) := by
  cases value <;> rfl

/-- **That two objects come out the same** with a change made to their blocks. -/
def SameReblocked (dialect : Dialect) (change : Members → Members) (left right : Members) : Prop :=
  reblockedMembers dialect change left = reblockedMembers dialect change right

theorem reblocked_eq_iff {property property' : Json} :
    reblocked dialect change property = reblocked dialect change property' ↔
      Json.ObjectRel (SameReblocked dialect change) property property' := by
  rw [reblocked_eq_onObject, reblocked_eq_onObject, Json.onObject_eq_iff]
  rfl

theorem reblockedListed_eq_iff {listed listed' : Members} :
    reblockedListed dialect change listed = reblockedListed dialect change listed' ↔
      Entries.Paired (fun _ => Json.ObjectRel (SameReblocked dialect change)) listed listed' := by
  rw [reblockedListed_eq_map, reblockedListed_eq_map,
    @Entries.Paired.map_eq_map_iff _ _ listed listed' _ (fun _ => reblocked dialect change)
      (fun _ => reblocked dialect change)]
  exact ⟨fun h => h.mono fun _ _ _ => reblocked_eq_iff.1,
    fun h => h.mono fun _ _ _ => reblocked_eq_iff.2⟩

theorem reblockedProperties_eq_iff {value value' : Json} :
    reblockedProperties dialect change value = reblockedProperties dialect change value' ↔
      Json.ObjectRel (Entries.Paired fun _ => Json.ObjectRel (SameReblocked dialect change))
        value value' := by
  rw [reblockedProperties_eq_onObject, reblockedProperties_eq_onObject, Json.onObject_eq_iff]
  exact ⟨fun h => h.mono fun _ _ => reblockedListed_eq_iff.1,
    fun h => h.mono fun _ _ => reblockedListed_eq_iff.2⟩

namespace SameReblocked

variable {left right : Members} (h : SameReblocked dialect change left right)
include h

/-- The values under a key come out the same. -/
theorem get?_rel (key : String) :
    Option.Rel
      (fun value value' =>
        reblockedValue dialect change key value = reblockedValue dialect change key value')
      (Entries.get? left key) (Entries.get? right key) := by
  refine rel_of_map_eq ?_
  rw [← Entries.get?_map (reblockedValue dialect change),
    ← Entries.get?_map (reblockedValue dialect change), ← reblockedMembers_eq_map,
    ← reblockedMembers_eq_map, h]

/-- Other values are the same. -/
theorem get?_eq {key : String} (hkey : key ≠ dialect.directiveKey) (hitems : key ≠ "items")
    (hproperties : key ≠ "properties") : Entries.get? left key = Entries.get? right key := by
  have hrel := h.get?_rel key
  generalize Entries.get? left key = value, Entries.get? right key = value' at hrel ⊢
  cases hrel with
  | none => rfl
  | some hvalue =>
      rw [reblockedValue, reblockedValue, if_neg hkey, if_neg hitems, if_neg hproperties,
        if_neg hkey, if_neg hitems, if_neg hproperties] at hvalue
      rw [hvalue]

theorem items_rel :
    Option.Rel (Json.ObjectRel (SameReblocked dialect change)) (Entries.get? left "items")
      (Entries.get? right "items") := by
  have hrel := h.get?_rel "items"
  generalize Entries.get? left "items" = items, Entries.get? right "items" = items' at hrel ⊢
  cases hrel with
  | none => exact .none
  | some hitems =>
      rw [reblockedValue_items, reblockedValue_items] at hitems
      exact .some (reblocked_eq_iff.1 hitems)

theorem properties_rel :
    Option.Rel (Json.ObjectRel (Entries.Paired fun _ =>
        Json.ObjectRel (SameReblocked dialect change)))
      (Entries.get? left "properties") (Entries.get? right "properties") := by
  have hrel := h.get?_rel "properties"
  generalize Entries.get? left "properties" = listed, Entries.get? right "properties" = listed'
    at hrel ⊢
  cases hrel with
  | none => exact .none
  | some hlisted =>
      rw [reblockedValue_properties, reblockedValue_properties] at hlisted
      exact .some (reblockedProperties_eq_iff.1 hlisted)

/-- The change makes the same of both blocks. -/
theorem block_rel :
    Option.Rel (Json.ObjectRel fun block block' => change block = change block')
      (Entries.get? left dialect.directiveKey) (Entries.get? right dialect.directiveKey) := by
  have hrel := h.get?_rel dialect.directiveKey
  generalize Entries.get? left dialect.directiveKey = block,
    Entries.get? right dialect.directiveKey = block' at hrel ⊢
  cases hrel with
  | none => exact .none
  | some hblock =>
      rw [reblockedValue_directiveKey, reblockedValue_directiveKey] at hblock
      exact .some (Json.onObject_eq_iff.1 hblock)

/-- Objects that come out the same still do when a key is removed, -/
theorem erase (key : String) :
    SameReblocked dialect change (Entries.erase left key) (Entries.erase right key) := by
  rw [SameReblocked, reblockedMembers_eq_map, reblockedMembers_eq_map, Entries.map_erase,
    Entries.map_erase, ← reblockedMembers_eq_map, ← reblockedMembers_eq_map, h]

/-- when values are written that come out the same, -/
theorem insert {key : String} {value value' : Json}
    (hvalue : reblockedValue dialect change key value = reblockedValue dialect change key value') :
    SameReblocked dialect change (Entries.insert left key value)
      (Entries.insert right key value') := by
  rw [SameReblocked, reblockedMembers_eq_map, reblockedMembers_eq_map, Entries.map_insert,
    Entries.map_insert, ← reblockedMembers_eq_map, ← reblockedMembers_eq_map, h, hvalue]

/-- and when the same entries are written. -/
theorem insertAll (source : Members) :
    SameReblocked dialect change (Entries.insertAll left source)
      (Entries.insertAll right source) := by
  induction source generalizing left right with
  | nil => exact h
  | cons entry rest ih => exact ih (h.insert rfl)

end SameReblocked

/-! ### Overlays -/

/-- **Overlays keep objects the same** but for what a change leaves out of their blocks, as long as
the change comes out the same after a merge as soon as it does before. -/
theorem Overlay.respects_sameReblocked
    (hmerge : ∀ block block' directive, change block = change block' →
      change (Json.merge block directive) = change (Json.merge block' directive)) :
    Respects dialect.directiveKey (SameReblocked dialect change) := by
  refine respects_of_properties ?_ (fun left right h => h.properties_rel) ?_
  · intro directive left right h
    have hblock : change (((Entries.get? left dialect.directiveKey).map Json.members).getD []) =
        change (((Entries.get? right dialect.directiveKey).map Json.members).getD []) := by
      have hrel := h.block_rel
      generalize Entries.get? left dialect.directiveKey = block,
        Entries.get? right dialect.directiveKey = block' at hrel ⊢
      cases hrel with
      | none => rfl
      | some hrel =>
          cases hrel with
          | object hrel => exact hrel
          | other value hother => rfl
    refine h.insert ?_
    rw [reblockedValue_directiveKey, reblockedValue_directiveKey, Json.onObject, Json.onObject,
      hmerge _ _ directive hblock]
  · intro left right listed listed' h hlisted
    refine h.insert ?_
    rw [reblockedValue_properties, reblockedValue_properties, reblockedProperties_eq_iff]
    exact .object hlisted

end Reblocked

/-! ### Documents -/

/-- A document with a change made to what it lists as definitions. -/
def onDefinitions (change : Json → Json) (document : Members) : Members :=
  match Entries.get? document "definitions" with
  | some listed => Entries.insert document "definitions" (change listed)
  | none => document

section Documents

variable {change : Json → Json} {document : Members}

/-- Nothing but the definitions of a document changes. -/
theorem get?_onDefinitions {key : String} (hkey : key ≠ "definitions") :
    Entries.get? (onDefinitions change document) key = Entries.get? document key := by
  rw [onDefinitions]
  split
  · rw [Entries.get?_insert, if_neg (Ne.symm hkey)]
  · rfl

theorem get?_definitions_onDefinitions :
    Entries.get? (onDefinitions change document) "definitions" =
      (Entries.get? document "definitions").map change := by
  rw [onDefinitions]
  split
  · next listed hlisted => rw [Entries.get?_insert_self, hlisted, Option.map_some]
  · next hlisted => rw [hlisted, Option.map_none]

theorem detect_onDefinitions : Dialect.detect (onDefinitions change document) =
    Dialect.detect document := by
  rw [Dialect.detect, Dialect.detect, Entries.contains, Entries.contains,
    get?_onDefinitions (by decide), get?_onDefinitions (by decide)]

end Documents

end StoreSchema
