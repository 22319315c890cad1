/-
**Following references between definitions.**

A reference is followed by compiling the definition that it leads to, in place.  The definitions
that are being compiled form a stack of names; a reference to one of them is not followed but
becomes the identifier of a document of that type.  So every reference that is followed puts a new
name of the catalog on the stack, and cycles of references end.

Main definitions:

* `Catalog.remaining` — the number of definitions that are not being compiled;
* `isAlias` — whether a definition is a scalar under another name;
* `Catalog.follow` — **what a reference yields**;
* `Catalog.scope`, `Catalog.compileDefinition` — resolving inside a definition, and **the body of a
  definition**;
* `Catalog.enter` — what a definition yields for a reference that leads to it.

Main results:

* `Catalog.remaining_cons_lt` — a new name on the stack leaves fewer definitions;
* `Catalog.follow_of_find?_eq_none`, `Catalog.follow_of_mem`, `Catalog.follow_of_not_mem` — the
  three ways of a reference;
* `Catalog.follow_induction` — **induction along references**.
-/

import StoreSchema.Property.Resolve

set_option relaxedAutoImplicit false
set_option autoImplicit false

namespace StoreSchema

/-- Whether a definition is a scalar under another name: it has no properties, and declares a type
in words that is neither an array nor an object. -/
def isAlias (members : Members) : Bool :=
  !Entries.contains members "properties" &&
    match (Entries.get? members "type").bind Json.asString? with
    | none => false
    | some word => !((DeclaredType.parse? word).map DeclaredType.isComposite).getD false

/-- A scalar under another name is no object. -/
theorem describesObject_of_isAlias {body : Members} (h : isAlias body = true) :
    Scope.describesObject body = false := by
  rw [isAlias, Bool.and_eq_true, Bool.not_eq_true'] at h
  rw [Scope.describesObject, h.1, Bool.false_or]
  cases htype : Entries.get? body "type" with
  | none => simp [htype] at h
  | some declared =>
      cases declared with
      | str word =>
          rw [htype] at h
          have hword : word ≠ "object" := by
            rintro rfl
            exact absurd h.2 (by decide)
          simp [Json.asString?, hword]
      | null => simp [htype, Json.asString?] at h
      | _ => simp [Json.asString?]

/-- What a reference to a definition with this body yields. -/
def SchemaTree.linked : SchemaTree → Linked
  | .fields named => .element (.embedded {} named)
  | .simple descriptor => .whole (descriptor.setRequired false)

namespace Catalog

/-- The number of definitions that are not on the stack of those being compiled. -/
def remaining (catalog : Catalog) (stack : List String) : Nat :=
  ((Entries.keys catalog.types).filter fun name => !stack.contains name).length

/-- A new name on the stack leaves fewer definitions. -/
theorem remaining_cons_lt {catalog : Catalog} {stack : List String} {name : String}
    (hname : name ∈ Entries.keys catalog.types) (hstack : name ∉ stack) :
    catalog.remaining (name :: stack) < catalog.remaining stack := by
  have hfilter :
      (Entries.keys catalog.types).filter (fun other => !(name :: stack).contains other) =
        ((Entries.keys catalog.types).filter fun other => !stack.contains other).filter
          fun other => other != name := by
    rw [List.filter_filter]
    refine List.filter_congr fun other _ => ?_
    rw [List.contains_cons, Bool.not_or]
    rfl
  rw [remaining, remaining, hfilter, List.length_filter_lt_length_iff_exists]
  exact ⟨name, by simp [hname, hstack], by simp⟩

/-- The name of the definition that a reference leads to. -/
def target? (catalog : Catalog) (reference : String) : Option String :=
  (catalog.find? reference).map Prod.fst

/-- **What the reference at `place` yields**, while the definitions on the stack are being
compiled. -/
def follow (catalog : Catalog) (stack : List String) (reference : String) (place : Pointer) :
    Outcome Linked :=
  match _h : catalog.find? reference with
  | none => .error (.unresolvedReference place reference)
  | some (name, type) =>
      if _hs : name ∈ stack then .ok (.element (.reference {} (some name)))
      else
        let scope : Scope :=
          { dialect := catalog.dialect
            target? := catalog.target?
            follow := fun reference place => catalog.follow (name :: stack) reference place }
        if isAlias type.body then
          let bare := Entries.erase type.body catalog.dialect.directiveKey
          (resolveField scope (.obj bare) (Pointer.definition name)).map Linked.element
        else (scope.tree name type).map SchemaTree.linked
termination_by catalog.remaining stack
decreasing_by exact remaining_cons_lt (find?_mem_keys _h) _hs

/-- Resolving while the definitions on the stack are being compiled. -/
def scope (catalog : Catalog) (stack : List String) : Scope :=
  { dialect := catalog.dialect
    target? := catalog.target?
    follow := catalog.follow stack }

/-- **The body of the definition called `name`**, while those on the stack are being compiled. -/
def compileDefinition (catalog : Catalog) (stack : List String) (name : String)
    (type : TypeDefinition) : Outcome SchemaTree :=
  (catalog.scope (name :: stack)).tree name type

/-! ### The ways of a reference -/

/-- What the definition called `name` yields for a reference that leads to it, while the
definitions on the stack, itself among them, are being compiled. -/
def enter (catalog : Catalog) (stack : List String) (name : String) (type : TypeDefinition) :
    Outcome Linked :=
  if isAlias type.body then
    let bare := Entries.erase type.body catalog.dialect.directiveKey
    (resolveField (catalog.scope stack) (.obj bare) (Pointer.definition name)).map Linked.element
  else ((catalog.scope stack).tree name type).map SchemaTree.linked

variable {catalog : Catalog} {stack : List String} {reference name : String}
  {type : TypeDefinition}

/-- A reference that leads nowhere is a cause. -/
theorem follow_of_find?_eq_none (h : catalog.find? reference = none) (place : Pointer) :
    catalog.follow stack reference place = .error (.unresolvedReference place reference) := by
  rw [follow]
  split
  · rfl
  · next hfind =>
      rw [h] at hfind
      cases hfind

/-- A reference to a definition that is being compiled becomes an identifier. -/
theorem follow_of_mem (h : catalog.find? reference = some (name, type)) (hstack : name ∈ stack)
    (place : Pointer) :
    catalog.follow stack reference place = .ok (.element (.reference {} (some name))) := by
  rw [follow]
  split
  · next hfind =>
      rw [h] at hfind
      cases hfind
  · next hfind =>
      rw [h] at hfind
      cases hfind
      rw [dif_pos hstack]

/-- Any other reference is followed into its definition. -/
theorem follow_of_not_mem (h : catalog.find? reference = some (name, type))
    (hstack : name ∉ stack) (place : Pointer) :
    catalog.follow stack reference place = catalog.enter (name :: stack) name type := by
  rw [follow]
  split
  · next hfind =>
      rw [h] at hfind
      cases hfind
  · next hfind =>
      rw [h] at hfind
      cases hfind
      rw [dif_neg hstack]
      rfl

/-- **Induction along references**: what holds of references that lead nowhere and of those that
close a cycle, and holds of a reference as soon as it holds of all that are met in its definition,
holds of every reference. -/
theorem follow_induction (catalog : Catalog)
    {motive : List String → String → Pointer → Outcome Linked → Prop}
    (unresolved : ∀ stack reference place, catalog.find? reference = none →
      motive stack reference place (.error (.unresolvedReference place reference)))
    (cyclic : ∀ stack reference place name type, catalog.find? reference = some (name, type) →
      name ∈ stack → motive stack reference place (.ok (.element (.reference {} (some name)))))
    (entered : ∀ stack reference place name type, catalog.find? reference = some (name, type) →
      name ∉ stack →
      (∀ inner place, motive (name :: stack) inner place
        (catalog.follow (name :: stack) inner place)) →
      motive stack reference place (catalog.enter (name :: stack) name type))
    (stack : List String) (reference : String) (place : Pointer) :
    motive stack reference place (catalog.follow stack reference place) := by
  -- the induction is on the number of definitions that are not being compiled
  induction hremaining : catalog.remaining stack using Nat.strongRecOn
    generalizing stack reference place with
  | _ remaining ih =>
      subst hremaining
      cases hfind : catalog.find? reference with
      | none =>
          rw [follow_of_find?_eq_none hfind]
          exact unresolved stack reference place hfind
      | some found =>
          obtain ⟨name, type⟩ := found
          by_cases hmem : name ∈ stack
          · rw [follow_of_mem hfind hmem]
            exact cyclic stack reference place name type hfind hmem
          · rw [follow_of_not_mem hfind hmem]
            refine entered stack reference place name type hfind hmem ?_
            intro inner place'
            have hlt := remaining_cons_lt (find?_mem_keys hfind) hmem
            exact ih _ hlt (name :: stack) inner place' rfl

end Catalog

end StoreSchema
