/-
**References in the blocks of legacy documents.**

A legacy document refers to definitions in its properties; no meaning is given to a reference in a
block.  Most such references are idle: they are left alone when the block does nothing else, when it
stores the field as an identifier, and when it binds a validator.  But a block that takes precedence
and does neither is worked into its property, and its reference with it.  There it stands like a
reference of the property itself, and is followed.

Idle references can be removed and changed at will, in blocks at any depth.  Which of them are idle
is decided by the blocks as they are under the overlay.

Main definitions:

* `isWorkedIn` — that a block is worked into its property;
* `withoutReference`, `withoutIdleReference` — a block without its reference, unless it is worked in;
* `withoutBlockReferences` — a document without the references of its blocks;
* `Registry.overlaid` — the registry of a document under an overlay;
* `Registry.withoutIdleReferences` — the definitions of a registry without idle references.

Main results:

* `correspondence_idle` — legacy properties that differ in idle references only correspond;
* `idle_references_inert` — **idle references have no part in compiling**;
* `linkedShop_unlinked` — a reference that is worked in has one.
-/

import StoreSchema.Proofs.References.Blocks
import StoreSchema.Proofs.TypeBlockRemoval

set_option relaxedAutoImplicit false
set_option autoImplicit false

namespace StoreSchema

/-! ### Idle references -/

/-- Whether a block in precedence is worked into its property: it stores no identifier and binds no
validator. -/
def isWorkedIn (block : Members) : Bool :=
  overrides block && !storesIdentifier block &&
    decide ((Entries.get? block "validator").getD .null = .null)

/-- A block without its reference, -/
def withoutReference (block : Members) : Members := Entries.erase block "$ref"

/-- unless the block is worked into the property. -/
def withoutIdleReference (block : Members) : Members :=
  if isWorkedIn block then block else withoutReference block

section Blocks

variable {block block' : Members}

theorem overrides_erase_reference (block : Members) :
    overrides (Entries.erase block "$ref") = overrides block := by
  rw [overrides, overrides, Entries.erase, List.any_filter]
  simp

theorem attributes_erase_reference (block : Members) :
    attributes (Entries.erase block "$ref") = attributes block := by
  rw [attributes, attributes, Entries.erase, List.filter_filter]
  refine List.filter_congr fun entry _ => ?_
  by_cases hkey : entry.1 = "$ref"
  · simp [hkey, propertyKeywords]
  · simp [hkey]

/-- Blocks that differ in their references only are worked in, or are not, together. -/
theorem isWorkedIn_eq (h : Entries.erase block "$ref" = Entries.erase block' "$ref") :
    isWorkedIn block = isWorkedIn block' := by
  have hget {key : String} (hkey : key ≠ "$ref") :
      Entries.get? block key = Entries.get? block' key := by
    rw [← Entries.get?_erase_of_ne hkey, h, Entries.get?_erase_of_ne hkey]
  rw [isWorkedIn, isWorkedIn, storesIdentifier, storesIdentifier, hget (by decide),
    hget (by decide), ← overrides_erase_reference, h, overrides_erase_reference]

/-- **What blocks have in common that are the same without idle references**: they differ in their
references only, and not in those if they are worked in. -/
theorem of_withoutIdleReference_eq
    (h : withoutIdleReference block = withoutIdleReference block') :
    Entries.erase block "$ref" = Entries.erase block' "$ref" ∧
      (isWorkedIn block = true → block = block') := by
  have herase (block : Members) :
      Entries.erase (withoutIdleReference block) "$ref" = Entries.erase block "$ref" := by
    rw [withoutIdleReference]
    split
    · rfl
    · exact Entries.erase_eq_self (Entries.get?_erase_self block "$ref")
  have hsame : Entries.erase block "$ref" = Entries.erase block' "$ref" := by
    rw [← herase, h, herase]
  refine ⟨hsame, fun hworked => ?_⟩
  rwa [withoutIdleReference, withoutIdleReference, ← isWorkedIn_eq hsame, if_pos hworked,
    if_pos hworked] at h

/-- In a legacy document the same is read from blocks that differ in their references only. -/
theorem readAlike_of_erase_eq (h : Entries.erase block "$ref" = Entries.erase block' "$ref") :
    ReadAlike .legacy block block' where
  overrides := by rw [← overrides_erase_reference, h, overrides_erase_reference]
  word key hkey := by
    have hne : key ≠ "$ref" := by
      rintro rfl
      revert hkey
      decide
    rw [← Entries.get?_erase_of_ne hne, h, Entries.get?_erase_of_ne hne]
  reference := rfl
  attributes := by rw [← attributes_erase_reference, h, attributes_erase_reference]

theorem isWorkedIn_of_validatorName? {dialect : Dialect} {place : Pointer}
    (hoverrides : overrides block = true) (hstores : storesIdentifier block = false)
    (hvalidator : validatorName? dialect block place = .ok none) : isWorkedIn block = true := by
  have hnull : (Entries.get? block "validator").getD .null = .null := by
    rw [validatorName?] at hvalidator
    split at hvalidator
    · next hget => rw [hget, Option.getD_none]
    · next hget => rw [hget, Option.getD_some]
    · cases hvalidator
    · cases hvalidator
  rw [isWorkedIn, hoverrides, hstores, hnull]
  rfl

end Blocks

/-! ### Resolving -/

/-- **Legacy properties that differ in idle references only correspond.** -/
theorem correspondence_idle :
    Correspondence .legacy (SameReblocked .legacy withoutIdleReference) where
  keyword h key hkey := by
    refine h.get?_eq ?_ ?_ ?_ <;> rintro rfl <;> revert hkey <;> decide
  items h := h.items_rel
  properties h := h.properties_rel
  block {left right} h := by
    have hblock := h.block_rel
    generalize Entries.get? left Dialect.legacy.directiveKey = block,
      Entries.get? right Dialect.legacy.directiveKey = block' at hblock ⊢
    cases hblock with
    | none => exact .none
    | some hblock =>
        exact .some (hblock.mono fun _ _ h =>
          readAlike_of_erase_eq (of_withoutIdleReference_eq h).1)
  bare h := h.erase _
  workedIn := by
    intro left right block block' place validator h hleft hright hoverrides hstores hvalidator
    have hblock := h.block_rel
    rw [hleft, hright] at hblock
    cases validator with
    | some name => exact h.erase _
    | none =>
        have hworked := isWorkedIn_of_validatorName? hoverrides hstores hvalidator
        have hsame : block = block' := by
          cases hblock with
          | some hblock =>
              cases hblock with
              | object hblock => exact (of_withoutIdleReference_eq hblock).2 hworked
              | other value hother => rfl
        rw [hsame]
        exact (h.erase _).insertAll _

/-- **Legacy definitions that differ in idle references only**, apart from their own blocks, stand
for one another. -/
theorem interchangeable_of_idle {left right : Members}
    (h : SameReblocked .legacy withoutIdleReference
      (Entries.erase left Dialect.legacy.directiveKey)
      (Entries.erase right Dialect.legacy.directiveKey)) : Interchangeable .legacy left right := by
  have hbare (members : Members) : Interchangeable .legacy
      (Entries.erase members Dialect.legacy.directiveKey) members :=
    SameBut.interchangeable (sameBut_erase _ members)
  exact ((hbare left).symm.trans (correspondence_idle.interchangeable h)).trans (hbare right)

/-! ### Documents -/

/-- Merging into blocks that differ in their references only leaves them so. -/
theorem erase_merge_eq {key : String} {block block' : Members}
    (h : Entries.erase block key = Entries.erase block' key) (directive : Members) :
    Entries.erase (Json.merge block directive) key =
      Entries.erase (Json.merge block' directive) key := by
  induction directive generalizing block block' with
  | nil =>
      rw [Json.merge, Json.merge]
      exact h
  | cons entry rest ih =>
      obtain ⟨name, value⟩ := entry
      rw [Json.merge, Json.merge]
      refine ih ?_
      by_cases hname : name = key
      · subst hname
        rw [Entries.erase_insert_self, Entries.erase_insert_self, h]
      · have hget : Entries.get? block name = Entries.get? block' name := by
          rw [← Entries.get?_erase_of_ne hname, h, Entries.get?_erase_of_ne hname]
        rw [Entries.erase_insert_of_ne hname, Entries.erase_insert_of_ne hname, h, hget]

/-- A document without the references of its blocks, at any depth of its definitions. -/
def withoutBlockReferences (document : Members) : Members :=
  onDefinitions (reblockedProperties (Dialect.detect document) withoutReference) document

/-- The registry of a document under an overlay. -/
def Registry.overlaid (document : Members) (overlay : Option Json) : Outcome Registry := do
  let registry ← Registry.build document (Dialect.detect document)
  Overlay.apply registry overlay

/-- The definitions of a registry without their own blocks, and without the references of the other
blocks in them that are not worked in. -/
def Registry.withoutIdleReferences (registry : Registry) : Entries Members :=
  registry.definitions.map fun entry =>
    (entry.1, reblockedMembers registry.dialect withoutIdleReference
      (Entries.erase entry.2 registry.dialect.directiveKey))

section Documents

variable {left right : Members}

/-- Definitions of a legacy document that differ in references of blocks only are matched. -/
theorem matchedDefinition_of_blockReferences {value value' : Json}
    (h : Json.ObjectRel (SameReblocked .legacy withoutReference) value value') :
    MatchedDefinition .legacy (SameReblocked .legacy withoutReference) value value' := by
  cases h with
  | other value h => exact .other value h
  | @object body body' h =>
      refine .definition h fun place => ?_
      rw [Registry.typeBlock?, Registry.typeBlock?, Dialect.directive?, Dialect.directive?]
      have hblock := h.block_rel
      generalize Entries.get? body Dialect.legacy.directiveKey = block,
        Entries.get? body' Dialect.legacy.directiveKey = block' at hblock ⊢
      cases hblock with
      | none => rfl
      | some hblock => cases hblock <;> rfl

/-- **Legacy documents that differ in references of blocks only are matched.** -/
theorem matchedDocuments_of_withoutBlockReferences (hlegacy : Dialect.detect left = .legacy)
    (h : withoutBlockReferences left = withoutBlockReferences right) :
    MatchedDocuments .legacy (SameReblocked .legacy withoutReference) left right := by
  have hright : Dialect.detect right = .legacy := by
    rw [← hlegacy, ← detect_onDefinitions, ← withoutBlockReferences, ← h, withoutBlockReferences,
      detect_onDefinitions]
  rw [withoutBlockReferences, withoutBlockReferences, hlegacy, hright] at h
  refine ⟨hlegacy, hright, ?_, ?_⟩
  · have hlisted := rel_of_map_eq ((get?_definitions_onDefinitions.symm.trans
      (congrArg (Entries.get? · "definitions") h)).trans get?_definitions_onDefinitions)
    rw [Registry.definitionList, Registry.definitionList]
    generalize Entries.get? left "definitions" = value,
      Entries.get? right "definitions" = value' at hlisted ⊢
    cases hlisted with
    | none => exact .ok .nil
    | @some value value' hlisted =>
        cases reblockedProperties_eq_iff.1 hlisted with
        | object hpaired =>
            exact .ok (hpaired.mono fun _ _ _ => matchedDefinition_of_blockReferences)
        | other _ hother =>
            cases value with
            | obj members => cases hother
            | _ => exact .error _
  · have hkey : Dialect.legacy.directiveKey ≠ "definitions" := by decide
    rw [Registry.typeBlock?, Registry.typeBlock?, Dialect.directive?, Dialect.directive?,
      ← get?_onDefinitions hkey, h, get?_onDefinitions hkey]

/-- Matched registries that are the same without idle references are matched by that. -/
theorem Registry.Matched.of_withoutIdleReferences {related : Members → Members → Prop}
    {registry registry' : Registry} (h : registry.Matched .legacy related registry')
    (hidle : registry.withoutIdleReferences = registry'.withoutIdleReferences) :
    registry.Matched .legacy (fun body body' => SameReblocked .legacy withoutIdleReference
      (Entries.erase body Dialect.legacy.directiveKey)
      (Entries.erase body' Dialect.legacy.directiveKey)) registry' where
  dialect_left := h.dialect_left
  dialect_right := h.dialect_right
  definitions := by
    rw [withoutIdleReferences, withoutIdleReferences, h.dialect_left, h.dialect_right] at hidle
    exact Entries.Paired.map_eq_map_iff.1 hidle
  defaults := h.defaults
  typeBlocks := h.typeBlocks

/-- **Idle references have no part in compiling.**  Two legacy documents that differ in the
references of their blocks only, at any depth, compile alike whenever under the overlay they differ
in idle references only: into the same schemas, with the same warnings, or with the same cause at
the same place. -/
theorem idle_references_inert {source source' : Source} (hsource : source.normalize = .ok left)
    (hsource' : source'.normalize = .ok right) (hlegacy : Dialect.detect left = .legacy)
    (h : withoutBlockReferences left = withoutBlockReferences right) (options : Options)
    (hidle : ∀ registry registry', Registry.overlaid left options.overlay = .ok registry →
      Registry.overlaid right options.overlay = .ok registry' →
      registry.withoutIdleReferences = registry'.withoutIdleReferences) :
    compile source options = compile source' options := by
  have hmatched := matchedDocuments_of_withoutBlockReferences hlegacy h
  have hrespects : Overlay.Respects Dialect.legacy.directiveKey
      (SameReblocked .legacy withoutReference) :=
    Overlay.respects_sameReblocked fun _ _ directive hblock => erase_merge_eq hblock directive
  have hoverlaid := hmatched.build.bind fun _ _ hbuilt =>
    Overlay.matched_apply hrespects hbuilt options.overlay
  rw [Registry.overlaid, Registry.overlaid, hmatched.detect_left, hmatched.detect_right] at hidle
  rw [compile_of_normalize hsource hmatched.detect_left,
    compile_of_normalize hsource' hmatched.detect_right]
  generalize hleft : (Registry.build left .legacy >>= fun registry =>
      Overlay.apply registry options.overlay) = overlaid,
    hright : (Registry.build right .legacy >>= fun registry =>
      Overlay.apply registry options.overlay) = overlaid' at hoverlaid ⊢
  cases hoverlaid with
  | error cause => rfl
  | ok hregistries =>
      have hsame := hregistries.of_withoutIdleReferences (hidle _ _ hleft hright)
      exact hsame.compile_eq (fun _ _ => interchangeable_of_idle) options.validators

/-- A legacy shop.  The blocks of its first pet, of its owner and of its tags carry references that
are idle, and the block of its pet one that is worked in. -/
def markedShop (first owner tags : Members) : Members :=
  [("swagger", .str "1.2"),
    ("definitions", .obj
      [("Pet", .obj [("properties", .obj [("name", .obj [("type", .str "string")])])]),
        ("Shop", .obj
          [("properties", .obj
            [("first", .obj [("type", .str "string"), ("x-mongoose", .obj first)]),
              ("owner", .obj
                [("$ref", .str "#/definitions/Pet"),
                  ("x-mongoose", .obj (owner ++ [("type", .str "objectId")]))]),
              ("tags", .obj
                [("type", .str "array"),
                  ("items", .obj
                    [("type", .str "string"),
                      ("x-mongoose", .obj (("validator", .str "short") :: tags))])]),
              ("pet", .obj
                [("x-mongoose", .obj
                  [("$ref", .str "#/definitions/Pet"), ("index", .bool true)])])])])])]

/-- A block that carries a reference to the pets. -/
def petMark : Members := [("$ref", .str "#/definitions/Pet")]

/-- An overlay for the owner. -/
def ownerOverlay : Json := .obj [("Shop.owner", .obj [("sparse", .bool true)])]

/-- Under the overlay the shop compiles as it does without its idle references. -/
theorem markedShop_inert :
    withoutBlockReferences (markedShop petMark petMark petMark) =
        withoutBlockReferences (markedShop [] [] []) ∧
      ∀ validators,
        compile (.parsed (.obj (markedShop petMark petMark petMark)))
            { overlay := some ownerOverlay, validators } =
          compile (.parsed (.obj (markedShop [] [] [])))
            { overlay := some ownerOverlay, validators } := by
  have hmarked : (Source.parsed (.obj (markedShop petMark petMark petMark))).normalize =
      .ok (markedShop petMark petMark petMark) := rfl
  have hbare : (Source.parsed (.obj (markedShop [] [] []))).normalize =
      .ok (markedShop [] [] []) := rfl
  have hlegacy : Dialect.detect (markedShop petMark petMark petMark) = .legacy := by decide +kernel
  have hsame : withoutBlockReferences (markedShop petMark petMark petMark) =
      withoutBlockReferences (markedShop [] [] []) := by decide +kernel
  have hidle : (Registry.overlaid (markedShop petMark petMark petMark)
      (some ownerOverlay)).toOption.map Registry.withoutIdleReferences =
        (Registry.overlaid (markedShop [] [] []) (some ownerOverlay)).toOption.map
          Registry.withoutIdleReferences := by decide +kernel
  refine ⟨hsame, fun validators => idle_references_inert hmarked hbare hlegacy hsame _ ?_⟩
  intro registry registry' hleft hright
  rw [hleft, hright] at hidle
  exact Option.some.inj hidle

/-- A legacy shop whose pet is a string to which a block gives an index, and a reference. -/
def linkedShop : Members :=
  [("swagger", .str "1.2"),
    ("definitions", .obj
      [("Pet", .obj [("properties", .obj [("name", .obj [("type", .str "string")])])]),
        ("Shop", .obj
          [("properties", .obj
            [("pet", .obj
              [("type", .str "string"),
                ("x-mongoose", .obj
                  [("$ref", .str "#/definitions/Pet"), ("index", .bool true)])])])])])]

/-- The print of the schemas of a document, as far as it compiles. -/
def printOf? (document : Members) : Option Json :=
  (compile (.parsed (.obj document)) {}).toOption.map fun compilation =>
    Schemas.toJson compilation.schemas

/-- What is printed of the shop, `type` being the type of its pet. -/
def shopPrint (type : Json) : Json :=
  .obj
    [("Pet", .obj
        [("fields", .obj [("name", .obj [("type", .str "String")])]), ("options", .obj [])]),
      ("Shop", .obj
        [("fields", .obj [("pet", .obj [("type", type), ("index", .bool true)])]),
          ("options", .obj [])])]

/-- **A reference that is worked in has a part in compiling**: the pet of the shop is an embedded
document because of it, and a string without. -/
theorem linkedShop_unlinked :
    Dialect.detect linkedShop = .legacy ∧
      printOf? linkedShop = some (shopPrint (.obj [("name", .obj [("type", .str "String")])])) ∧
      printOf? (withoutBlockReferences linkedShop) = some (shopPrint (.str "String")) ∧
      compile (.parsed (.obj linkedShop)) {} ≠
        compile (.parsed (.obj (withoutBlockReferences linkedShop))) {} := by
  have hlinked : printOf? linkedShop =
      some (shopPrint (.obj [("name", .obj [("type", .str "String")])])) := by decide +kernel
  have hunlinked : printOf? (withoutBlockReferences linkedShop) =
      some (shopPrint (.str "String")) := by decide +kernel
  refine ⟨by decide +kernel, hlinked, hunlinked, fun hsame => ?_⟩
  rw [printOf?, hsame, ← printOf?, hunlinked] at hlinked
  revert hlinked
  decide

end Documents

end StoreSchema
