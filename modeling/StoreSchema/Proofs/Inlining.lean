/-
**Overlays and blocks in the document.**

What an overlay says from outside, the document can say itself: each entry is merged into the block
at the place that it addresses.  For `default` that is the block of the document, for `Type` the
block of the definition, and for `Type.field` the block of a property.  This module writes an
overlay into its document and shows that the document then compiles by itself to what it compiled to
under the overlay.

The two ways differ on the way: an overlay leaves the block of a definition as it stands and keeps
the merged one beside it, whereas the document that it has been written into carries the merged one.
The invariant says how the registry of the one mirrors the other.

Main definitions:

* `Overlay.inline?` — **the document with an overlay written into it**;
* `Overlay.Mirrors` — that a registry is the one of a document, but for stale blocks on definitions.

Main results:

* `Registry.nodup_keys_of_build` — the definitions of a document that repeats no name are distinct;
* `Overlay.Mirrors.replace` — a change of one definition keeps the registry and the document
  mirrored;
* `Overlay.Mirrors.applyEntry` — one entry keeps the registry and the document mirrored;
* `Overlay.Mirrors.mergeEntries` — and so does an overlay;
* `Overlay.compile_inline` — **the document under an overlay compiles to what it compiles to with
  the overlay written into it**.
-/

import StoreSchema.Proofs.Json.Distinct
import StoreSchema.Proofs.TypeBlocks

set_option relaxedAutoImplicit false
set_option autoImplicit false

namespace StoreSchema

namespace Overlay

/-! ### Writing an overlay into its document -/

/-- The document with a directive merged into the block at the place that a path addresses: that of
the document, of a definition, or of a property. -/
def inlineAt? (key : String) (document : Members) (path : String) (directive : Members) :
    Option Members :=
  if path = "default" then some (mergeBlock key (defaultDirective directive) document)
  else
    match Text.dotted path, Entries.get? document "definitions" with
    | name :: fields, some (.obj definitions) =>
        match Entries.get? definitions name with
        | some (.obj members) =>
            (updateProperty (mergeBlock key directive) fields members).map fun changed =>
              Entries.insert document "definitions"
                (.obj (Entries.insert definitions name (.obj changed)))
        | _ => none
    | _, _ => none

/-- **The document with an overlay written into it**, entry by entry. -/
def inline? (key : String) : Members → Members → Option Members
  | [], document => some document
  | (path, .obj directive) :: rest, document =>
      (inlineAt? key document path directive).bind fun changed => inline? key rest changed
  | _ :: _, _ => none

/-- That a path leads to a field of a definition. -/
def LeadsToField (path : String) : Prop := 2 ≤ (Text.dotted path).length

end Overlay

/-! ### What blocks are read -/

namespace Registry

variable {dialect : Dialect} {members members' : Members} {block : Option Members}

/-- Only what stands under the key of blocks is read. -/
theorem typeBlock?_congr
    (h : Entries.get? members dialect.directiveKey = Entries.get? members' dialect.directiveKey)
    (place : Pointer) : typeBlock? dialect members place = typeBlock? dialect members' place := by
  rw [typeBlock?, typeBlock?, Dialect.directive?, Dialect.directive?, h]

/-- A block that is read is read at every place. -/
theorem typeBlock?_of_place {place : Pointer} (h : typeBlock? dialect members place = .ok block)
    (place' : Pointer) : typeBlock? dialect members place' = .ok block := by
  obtain ⟨found, hfound, h⟩ := Outcome.map_eq_ok_iff.1 h
  refine Outcome.map_eq_ok_iff.2 ⟨found, ?_, h⟩
  rw [Dialect.directive?] at hfound ⊢
  split at hfound
  · exact hfound
  · exact hfound
  · cases hfound

/-- In an extended document, what is merged into a block is read from it. -/
theorem typeBlock?_mergeBlock {place : Pointer}
    (h : typeBlock? .extended members place = .ok block) (directive : Members) (place' : Pointer) :
    typeBlock? .extended (Overlay.mergeBlock Dialect.extended.directiveKey directive members)
      place' = .ok (some (Json.merge (block.getD []) directive)) := by
  have hblock : ((Entries.get? members Dialect.extended.directiveKey).map Json.members).getD [] =
      block.getD [] := by
    obtain ⟨found, hfound, h⟩ := Outcome.map_eq_ok_iff.1 h
    cases h
    rw [Dialect.directive?] at hfound
    split at hfound
    · next hget =>
        cases hfound
        rw [hget]
        rfl
    · next hget =>
        cases hfound
        rw [hget]
        rfl
    · cases hfound
  rw [Overlay.mergeBlock, hblock, typeBlock?, Dialect.directive?, Entries.get?_insert_self]
  rfl

/-- The definitions that are read, with their blocks, are those that are listed. -/
theorem readDefinitions_eq_ok_iff {listed : Members} {read : Entries (Members × Option Members)} :
    readDefinitions dialect listed = .ok read ↔
      Entries.Paired (fun _ found value => value = .obj found.1 ∧
        ∀ place, typeBlock? dialect found.1 place = .ok found.2) read listed := by
  constructor
  · intro h
    induction listed generalizing read with
    | nil =>
        cases h
        exact .nil
    | cons first rest ih =>
        obtain ⟨name, value⟩ := first
        cases value with
        | obj members =>
            rw [readDefinitions] at h
            obtain ⟨block, hblock, h⟩ := Outcome.bind_eq_ok_iff.1 h
            obtain ⟨others, hothers, h⟩ := Outcome.bind_eq_ok_iff.1 h
            cases h
            exact .cons ⟨rfl, typeBlock?_of_place hblock⟩ (ih hothers)
        | _ => cases h
  · intro h
    induction h with
    | nil => rfl
    | @cons name found value rest rest' hfound hrest ih =>
        obtain ⟨rfl, hblock⟩ := hfound
        rw [readDefinitions, hblock, ih]
        rfl

/-- The registry of a document has the definitions that the document lists. -/
theorem keys_of_build {document : Members} {registry : Registry}
    (h : build document dialect = .ok registry) :
    ∃ listed, definitionList document = .ok listed ∧
      Entries.keys registry.definitions = Entries.keys listed := by
  obtain ⟨listed, hlisted, h⟩ := Outcome.bind_eq_ok_iff.1 h
  obtain ⟨read, hread, h⟩ := Outcome.bind_eq_ok_iff.1 h
  obtain ⟨_, _, h⟩ := Outcome.bind_eq_ok_iff.1 h
  cases h
  refine ⟨listed, hlisted, ?_⟩
  rw [← (readDefinitions_eq_ok_iff.1 hread).keys_eq]
  simp [Entries.keys]

/-- The definitions of a document that repeats no name are distinct. -/
theorem nodup_keys_of_build {document : Members} {registry : Registry}
    (h : build document dialect = .ok registry) (hdistinct : (Json.obj document).Distinct) :
    (Entries.keys registry.definitions).Nodup := by
  obtain ⟨listed, hlisted, hkeys⟩ := keys_of_build h
  rw [hkeys]
  rcases definitionList_eq_ok_iff.1 hlisted with ⟨_, rfl⟩ | hget
  · exact List.nodup_nil
  · have hobject := (Json.distinct_obj_iff.1 hdistinct).2 _ (Entries.mem_of_get? hget)
    exact (Json.distinct_obj_iff.1 hobject).1

/-- The block of a definition is kept under its name. -/
theorem get?_blocks {read : Entries (Members × Option Members)}
    (hdistinct : (Entries.keys read).Nodup) {name : String} {members : Members}
    {block : Option Members} (h : (name, members, block) ∈ read) :
    Entries.get? (read.filterMap fun entry => entry.2.2.map fun block => (entry.1, block)) name =
      block := by
  induction read with
  | nil => cases h
  | cons first rest ih =>
      rw [Entries.keys_cons, List.nodup_cons] at hdistinct
      rcases List.mem_cons.1 h with rfl | h
      · cases block with
        | some block => simp [Entries.get?_cons]
        | none =>
            -- the definitions that follow have other names
            have hnone : name ∉ Entries.keys
                (rest.filterMap fun entry => entry.2.2.map fun block => (entry.1, block)) := by
              intro hmem
              obtain ⟨entry, hentry, rfl⟩ := List.mem_map.1 hmem
              obtain ⟨source, hsource, hentry⟩ := List.mem_filterMap.1 hentry
              obtain ⟨block, _, rfl⟩ := Option.map_eq_some_iff.1 hentry
              have hsource : source.1 ∈ Entries.keys rest := List.mem_map_of_mem hsource
              exact hdistinct.1 hsource
            simpa using Entries.get?_eq_none_iff.2 hnone
      · have hmem : name ∈ Entries.keys rest := List.mem_map_of_mem h
        have hne : first.1 ≠ name := by
          rintro rfl
          exact hdistinct.1 hmem
        cases hblock : first.2.2 with
        | some own => simpa [hblock, Entries.get?_cons, hne] using ih hdistinct.2 h
        | none => simpa [hblock] using ih hdistinct.2 h

end Registry

/-! ### The invariant -/

namespace Overlay

/-- That a registry keeps a definition as it stands in the document, but for its block, and keeps
the block. -/
def MirrorsDefinition (registry : Registry) (name : String) (kept : Members) (value : Json) :
    Prop :=
  ∃ members, value = .obj members ∧ SameBut registry.dialect.directiveKey kept members ∧
    ∀ place, Registry.typeBlock? registry.dialect members place =
      .ok (Entries.get? registry.typeBlocks name)

/-- **That a registry is the one of a document**, but for stale blocks on definitions. -/
structure Mirrors (registry : Registry) (document : Members) : Prop where
  /-- The dialect is that of the document. -/
  dialect : registry.dialect = Dialect.detect document
  /-- The names of definitions are distinct. -/
  distinct : (Entries.keys registry.definitions).Nodup
  /-- The directives that apply to every type are those of the document. -/
  defaults : ∃ block, registry.defaults = block.getD [] ∧
    ∀ place, Registry.typeBlock? registry.dialect document place = .ok block
  /-- The definitions are those of the document. -/
  definitions : ∃ listed, Registry.definitionList document = .ok listed ∧
    Entries.Paired (MirrorsDefinition registry) registry.definitions listed

/-- The registry that is built for a document mirrors it. -/
theorem mirrors_of_build {document : Members} {registry : Registry}
    (h : Registry.build document (Dialect.detect document) = .ok registry)
    (hdistinct : (Entries.keys registry.definitions).Nodup) : Mirrors registry document := by
  obtain ⟨listed, hlisted, h⟩ := Outcome.bind_eq_ok_iff.1 h
  obtain ⟨read, hread, h⟩ := Outcome.bind_eq_ok_iff.1 h
  obtain ⟨block, hblock, h⟩ := Outcome.bind_eq_ok_iff.1 h
  cases h
  refine ⟨rfl, hdistinct, ⟨block, rfl, Registry.typeBlock?_of_place hblock⟩, listed, hlisted, ?_⟩
  have hdistinct : (Entries.keys read).Nodup := by
    rw [Entries.keys, List.map_map] at hdistinct
    exact hdistinct
  refine (Registry.readDefinitions_eq_ok_iff.1 hread).with_mem.map_left (fun _ found => found.1) ?_
  rintro name found value ⟨hmem, rfl, hfound⟩
  refine ⟨found.1, rfl, rfl, fun place => ?_⟩
  have hkept : Entries.get? (read.filterMap fun entry =>
      entry.2.2.map fun block => (entry.1, block)) name = found.2 :=
    Registry.get?_blocks hdistinct hmem
  rw [hfound place]
  exact congrArg _ hkept.symm

/-- A document that a registry mirrors is built into a registry that is alike. -/
theorem Mirrors.build {document : Members} {registry : Registry} (h : Mirrors registry document) :
    ∃ built, Registry.build document (Dialect.detect document) = .ok built ∧
      registry.Alike built := by
  obtain ⟨block, hdefaults, hblock⟩ := h.defaults
  obtain ⟨listed, hlisted, hpaired⟩ := h.definitions
  -- the document is read with the blocks that the registry keeps
  let read : Entries (Members × Option Members) := listed.map fun entry =>
    (entry.1, entry.2.members, Entries.get? registry.typeBlocks entry.1)
  have hread : Registry.readDefinitions registry.dialect listed = .ok read := by
    refine Registry.readDefinitions_eq_ok_iff.2 (hpaired.map_self
      (fun name value => (value.members, Entries.get? registry.typeBlocks name)) ?_)
    rintro name kept value ⟨members, rfl, _, hmembers⟩
    exact ⟨rfl, hmembers⟩
  have hkeys : Entries.keys read = Entries.keys registry.definitions := by
    rw [hpaired.keys_eq, Entries.keys, List.map_map]
    rfl
  refine ⟨{ dialect := registry.dialect
            definitions := read.map fun entry => (entry.1, entry.2.1)
            defaults := block.getD []
            typeBlocks := read.filterMap fun entry => entry.2.2.map fun block => (entry.1, block) },
    ?_, ⟨rfl, hdefaults, ?_, ?_⟩⟩
  · rw [Registry.build, ← h.dialect, hlisted]
    change (Registry.readDefinitions registry.dialect listed >>= _) = _
    rw [hread]
    change (Registry.typeBlock? registry.dialect document "" >>= _) = _
    rw [hblock]
    rfl
  · change Entries.Paired _ _ (read.map _)
    rw [List.map_map]
    refine hpaired.map_right (fun _ value => value.members) ?_
    rintro name kept value ⟨members, rfl, hsame, _⟩
    exact hsame
  · intro name hname
    rw [← hkeys] at hname
    obtain ⟨entry, hentry, rfl⟩ := List.mem_map.1 hname
    obtain ⟨source, _, rfl⟩ := List.mem_map.1 hentry
    exact (Registry.get?_blocks (hkeys ▸ h.distinct) hentry).symm

/-! ### Changes of the document -/

section Changes

variable {document : Members} {registry : Registry}

theorem detect_insert {key : String} (hopenapi : "openapi" ≠ key) (hswagger : "swagger" ≠ key)
    (value : Json) :
    Dialect.detect (Entries.insert document key value) = Dialect.detect document := by
  rw [Dialect.detect, Dialect.detect, Entries.contains, Entries.contains, Entries.get?_insert,
    Entries.get?_insert, if_neg hopenapi.symm, if_neg hswagger.symm]

theorem definitionList_insert {key : String} (hkey : "definitions" ≠ key) (value : Json) :
    Registry.definitionList (Entries.insert document key value) =
      Registry.definitionList document := by
  rw [Registry.definitionList, Registry.definitionList, Entries.get?_insert, if_neg hkey.symm]

/-- Definitions of which there is one stand in the document. -/
theorem definitions_of_definitionList {listed : Members}
    (h : Registry.definitionList document = .ok listed) {name : String} {value : Json}
    (hvalue : Entries.get? listed name = some value) :
    Entries.get? document "definitions" = some (.obj listed) := by
  rcases Registry.definitionList_eq_ok_iff.1 h with ⟨_, rfl⟩ | hget
  · cases hvalue
  · exact hget

/-- A definition of a registry stands in the document that the registry mirrors. -/
theorem Mirrors.definition (h : Mirrors registry document) {name : String}
    (hname : name ∈ Entries.keys registry.definitions) :
    ∃ listed kept members, Entries.get? document "definitions" = some (.obj listed) ∧
      Entries.get? registry.definitions name = some kept ∧
      Entries.get? listed name = some (.obj members) ∧
      MirrorsDefinition registry name kept (.obj members) := by
  obtain ⟨listed, hlisted, hpaired⟩ := h.definitions
  rcases hpaired.get? name with ⟨hnone, _⟩ | ⟨kept, value, hkept, hvalue, hmirrors⟩
  · exact absurd hname (Entries.get?_eq_none_iff.1 hnone)
  · obtain ⟨members, rfl, hdefinition⟩ := hmirrors
    exact ⟨listed, kept, members, definitions_of_definitionList hlisted hvalue, hkept, hvalue,
      members, rfl, hdefinition⟩

/-- **A change of one definition is mirrored by a change of the document**, when what is kept for
the definition mirrors what is written into the document. -/
theorem Mirrors.replace (h : Mirrors registry document) (merged : Registry) {listed : Members}
    (hlisted : Entries.get? document "definitions" = some (.obj listed))
    (hdialect : merged.dialect = registry.dialect) (hdefaults : merged.defaults = registry.defaults)
    {name : String} (hname : name ∈ Entries.keys registry.definitions) {kept members : Members}
    (hdefinitions : merged.definitions = Entries.insert registry.definitions name kept)
    (hblocks : ∀ other, other ≠ name →
      Entries.get? merged.typeBlocks other = Entries.get? registry.typeBlocks other)
    (hnew : MirrorsDefinition merged name kept (.obj members)) :
    Mirrors merged (Entries.insert document "definitions"
      (.obj (Entries.insert listed name (.obj members)))) where
  dialect := by
    rw [detect_insert (by decide) (by decide), hdialect, h.dialect]
  distinct := by
    rw [hdefinitions]
    exact Entries.nodup_keys_insert h.distinct name kept
  defaults := by
    obtain ⟨block, hblock, hread⟩ := h.defaults
    refine ⟨block, hdefaults.trans hblock, fun place => ?_⟩
    rw [hdialect, ← hread place]
    refine Registry.typeBlock?_congr ?_ place
    have hkey : "definitions" ≠ registry.dialect.directiveKey :=
      Dialect.ne_directiveKey (by decide) (by decide) _
    rw [Entries.get?_insert, if_neg hkey]
  definitions := by
    obtain ⟨source, hsource, hpaired⟩ := h.definitions
    rw [Registry.definitionList_eq_ok_iff.2 (.inr hlisted)] at hsource
    cases hsource
    refine ⟨_, Registry.definitionList_eq_ok_iff.2 (.inr (Entries.get?_insert_self ..)), ?_⟩
    rw [hdefinitions]
    refine hpaired.insert h.distinct hname hnew ?_
    rintro other kept' value hother ⟨members', rfl, hsame, hblock⟩
    rw [← hdialect] at hsame hblock
    exact ⟨members', rfl, hsame, fun place => by rw [hblock place, hblocks other hother]⟩

/-- A change of the directives that apply to every type is mirrored by a change of the block of the
document. -/
theorem Mirrors.of_defaults (h : Mirrors registry document)
    (hextended : registry.dialect = .extended) (directive : Members) :
    Mirrors { registry with defaults := Json.merge registry.defaults directive }
      (mergeBlock registry.dialect.directiveKey directive document) where
  dialect := by
    rw [mergeBlock, detect_insert, h.dialect]
    · exact Dialect.ne_directiveKey (by decide) (by decide) _
    · exact Dialect.ne_directiveKey (by decide) (by decide) _
  distinct := h.distinct
  defaults := by
    obtain ⟨block, hblock, hread⟩ := h.defaults
    refine ⟨some (Json.merge (block.getD []) directive), ?_, fun place => ?_⟩
    · rw [hblock]
      rfl
    · dsimp only
      rw [hextended] at hread ⊢
      exact Registry.typeBlock?_mergeBlock (hread "") directive place
  definitions := by
    obtain ⟨listed, hlisted, hpaired⟩ := h.definitions
    refine ⟨listed, ?_, hpaired⟩
    rw [mergeBlock, definitionList_insert, hlisted]
    exact Dialect.ne_directiveKey (by decide) (by decide) _

theorem sameBut_mergeBlock {key : String} {kept members : Members} (h : SameBut key kept members)
    (directive : Members) : SameBut key kept (mergeBlock key directive members) := by
  rw [SameBut, mergeBlock, Entries.erase_insert_self]
  exact h

/-- A property is changed alike where the members are the same but for the block; the block stays as
it is. -/
theorem updateProperty_of_sameBut {dialect : Dialect} {change : Members → Members} {field : String}
    {fields : List String} {kept members changed : Members}
    (h : SameBut dialect.directiveKey kept members)
    (hchanged : updateProperty change (field :: fields) kept = some changed) :
    ∃ changed', updateProperty change (field :: fields) members = some changed' ∧
      SameBut dialect.directiveKey changed changed' ∧
      Entries.get? changed' dialect.directiveKey = Entries.get? members dialect.directiveKey := by
  have hproperties : "properties" ≠ dialect.directiveKey :=
    Dialect.ne_directiveKey (by decide) (by decide) _
  rw [updateProperty] at hchanged ⊢
  rw [← h.properties_eq]
  split at hchanged
  · next properties hget =>
      split at hchanged
      · next property hfield =>
          obtain ⟨new, hnew, rfl⟩ := Option.map_eq_some_iff.1 hchanged
          refine ⟨_, Option.map_eq_some_iff.2 ⟨new, hnew, rfl⟩, ?_, ?_⟩
          · rw [SameBut, Entries.erase_insert_of_ne hproperties,
              Entries.erase_insert_of_ne hproperties, h]
          · rw [Entries.get?_insert, if_neg hproperties]
      · cases hchanged
  · cases hchanged

end Changes

/-! ### Entries of an overlay -/

section Run

variable {document : Members} {registry merged : Registry}

/-- In an extended document, a directive for a type is mirrored by a change of the block of the
definition. -/
theorem Mirrors.mergeType (h : Mirrors registry document) (hextended : registry.dialect = .extended)
    {listed kept members : Members} {name : String}
    (hlisted : Entries.get? document "definitions" = some (.obj listed))
    (hkept : Entries.get? registry.definitions name = some kept)
    (hmirrors : MirrorsDefinition registry name kept (.obj members)) (directive : Members) :
    Mirrors (mergeType registry name directive) (Entries.insert document "definitions"
      (.obj (Entries.insert listed name
        (.obj (mergeBlock registry.dialect.directiveKey directive members))))) := by
  obtain ⟨_, hmembers, hsame, hblock⟩ := hmirrors
  cases hmembers
  have hname := Entries.mem_keys_of_get? hkept
  -- the definition is kept with its stale block
  have hstale : registry.definitions = Entries.insert registry.definitions name kept :=
    (Entries.insert_eq_self hkept).symm
  refine h.replace (Overlay.mergeType registry name directive) hlisted rfl rfl hname hstale
    (fun other hother => ?_) ?_
  · change Entries.get? (Entries.insert _ _ _) _ = _
    rw [Entries.get?_insert, if_neg (Ne.symm hother)]
  · refine ⟨_, rfl, sameBut_mergeBlock hsame directive, fun place => ?_⟩
    change Registry.typeBlock? registry.dialect _ _ = .ok (Entries.get? (Entries.insert _ _ _) _)
    rw [Entries.get?_insert_self]
    rw [hextended] at hblock ⊢
    exact Registry.typeBlock?_mergeBlock (hblock "") directive place

/-- A directive for a field is mirrored by the same change of the definition in the document. -/
theorem Mirrors.mergeField (h : Mirrors registry document) {listed kept members : Members}
    {name field : String} {fields : List String} {directive : Members}
    (hlisted : Entries.get? document "definitions" = some (.obj listed))
    (hkept : Entries.get? registry.definitions name = some kept)
    (hmirrors : MirrorsDefinition registry name kept (.obj members))
    (hmerged : mergeField? registry name (field :: fields) directive = some merged) :
    ∃ changed, updateProperty (mergeBlock registry.dialect.directiveKey directive) (field :: fields)
        members = some changed ∧
      Mirrors merged (Entries.insert document "definitions"
        (.obj (Entries.insert listed name (.obj changed)))) := by
  obtain ⟨_, hmembers, hsame, hblock⟩ := hmirrors
  cases hmembers
  rw [mergeField?, hkept, Option.bind_some] at hmerged
  obtain ⟨new, hnew, rfl⟩ := Option.map_eq_some_iff.1 hmerged
  obtain ⟨changed, hchanged, hsame, hget⟩ := updateProperty_of_sameBut hsame hnew
  refine ⟨changed, hchanged, ?_⟩
  refine h.replace
    { registry with definitions := Entries.insert registry.definitions name new }
    hlisted rfl rfl (Entries.mem_keys_of_get? hkept) rfl (fun _ _ => rfl) ?_
  refine ⟨changed, rfl, hsame, fun place => ?_⟩
  exact (Registry.typeBlock?_congr hget place).trans (hblock place)

/-- A change at a path is mirrored by a change of the document. -/
theorem Mirrors.mergeAt {path : String} {directive : Members} (h : Mirrors registry document)
    (hpath : path ≠ "default") (hfield : registry.dialect = .legacy → LeadsToField path)
    (hmerged : mergeAt? registry path directive = some merged) :
    ∃ document', inlineAt? registry.dialect.directiveKey document path directive =
      some document' ∧ Mirrors merged document' := by
  rw [mergeAt?] at hmerged
  split at hmerged
  · cases hmerged
  · next name fields hsegments =>
      split at hmerged
      · cases hmerged
      · next hcontains =>
          have hname : name ∈ Entries.keys registry.definitions := by
            rw [← Entries.contains_iff]
            simpa using hcontains
          obtain ⟨listed, kept, members, hlisted, hkept, hmembers, hmirrors⟩ := h.definition hname
          rw [inlineAt?, if_neg hpath, hsegments, hlisted]
          dsimp only
          rw [hmembers]
          cases fields with
          | nil =>
              cases hmerged
              -- a legacy document takes no entries for definitions
              have hextended : registry.dialect = .extended := by
                cases hdialect : registry.dialect with
                | extended => rfl
                | legacy =>
                    have hlength := hfield hdialect
                    simp [LeadsToField, hsegments] at hlength
              exact ⟨_, rfl, h.mergeType hextended hlisted hkept hmirrors directive⟩
          | cons field fields =>
              change mergeField? registry name (field :: fields) directive = some merged at hmerged
              obtain ⟨changed, hchanged, hmirrors⟩ := h.mergeField hlisted hkept hmirrors hmerged
              exact ⟨_, Option.map_eq_some_iff.2 ⟨changed, hchanged, rfl⟩, hmirrors⟩

theorem dialect_of_mergeAt {path : String} {directive : Members}
    (h : mergeAt? registry path directive = some merged) : merged.dialect = registry.dialect := by
  rw [mergeAt?] at h
  split at h
  · cases h
  · split at h
    · cases h
    · split at h
      · cases h
        rfl
      · obtain ⟨definition, _, h⟩ := Option.bind_eq_some_iff.1 h
        obtain ⟨changed, _, rfl⟩ := Option.map_eq_some_iff.1 h
        rfl

/-- **One entry keeps the registry and the document mirrored.** -/
theorem Mirrors.applyEntry {path : String} {value : Json} (h : Mirrors registry document)
    (hfield : registry.dialect = .legacy → LeadsToField path)
    (hmerged : Overlay.applyEntry registry path value = .ok merged) :
    ∃ directive document', value = .obj directive ∧
      inlineAt? registry.dialect.directiveKey document path directive = some document' ∧
      Mirrors merged document' ∧ merged.dialect = registry.dialect := by
  cases value with
  | obj directive =>
      rw [Overlay.applyEntry] at hmerged
      split at hmerged
      · next hpath =>
          cases hmerged
          have hextended : registry.dialect = .extended := by
            cases hdialect : registry.dialect with
            | extended => rfl
            | legacy =>
                have hlength := hfield hdialect
                rw [hpath] at hlength
                exact absurd hlength (by unfold LeadsToField; decide)
          refine ⟨directive, _, rfl, ?_, h.of_defaults hextended _, rfl⟩
          rw [inlineAt?, if_pos hpath]
      · next hpath =>
          split at hmerged
          · next merged' hmerge =>
              cases hmerged
              obtain ⟨document', hdocument, hmirrors⟩ := h.mergeAt hpath hfield hmerge
              exact ⟨directive, document', rfl, hdocument, hmirrors, dialect_of_mergeAt hmerge⟩
          · cases hmerged
  | _ => cases hmerged

/-- **An overlay keeps the registry and the document mirrored.** -/
theorem Mirrors.mergeEntries {entries : Members} (h : Mirrors registry document)
    (hfields : registry.dialect = .legacy → ∀ entry ∈ entries, LeadsToField entry.1)
    (hmerged : Overlay.mergeEntries registry entries = (merged, none)) :
    ∃ document', inline? registry.dialect.directiveKey entries document = some document' ∧
      Mirrors merged document' := by
  induction entries generalizing registry document with
  | nil =>
      cases hmerged
      exact ⟨document, rfl, h⟩
  | cons entry rest ih =>
      obtain ⟨path, value⟩ := entry
      rw [Overlay.mergeEntries] at hmerged
      split at hmerged
      · next next hnext =>
          have hfield (hlegacy : registry.dialect = .legacy) : LeadsToField path :=
            hfields hlegacy (path, value) (List.mem_cons_self ..)
          obtain ⟨directive, between, rfl, hbetween, hmirrors, hdialect⟩ :=
            h.applyEntry hfield hnext
          have hrest (hlegacy : next.dialect = .legacy) :
              ∀ entry ∈ rest, LeadsToField entry.1 := fun entry hentry =>
            hfields (hdialect ▸ hlegacy) entry (List.mem_cons_of_mem _ hentry)
          obtain ⟨document', hdocument, hmerged⟩ := ih hmirrors hrest hmerged
          refine ⟨document', ?_, hmerged⟩
          rw [inline?, hbetween, Option.bind_some, ← hdialect, hdocument]
      · cases hmerged

end Run

/-- **The document under an overlay compiles to what it compiles to with the overlay written into
it**, the same schemas or the same cause, whatever validators there are.  In a legacy document
blocks count on fields only, and so the overlay has to lead to fields.  The definitions are distinct
in every document that repeats no name (`Registry.nodup_keys_of_build`), and a document that is
given as text or bytes repeats none. -/
theorem compile_inline {source : Source} {document entries : Members} {registry merged : Registry}
    (hsource : source.normalize = .ok document)
    (hbuild : Registry.build document (Dialect.detect document) = .ok registry)
    (hdistinct : (Entries.keys registry.definitions).Nodup)
    (hmerged : merge registry (.obj entries) = (merged, none))
    (hfields : Dialect.detect document = .legacy → ∀ entry ∈ entries, LeadsToField entry.1)
    (validators : Validators) :
    ∃ document', inline? (Dialect.detect document).directiveKey entries document = some document' ∧
      compile source { overlay := some (.obj entries), validators } =
        compile (.parsed (.obj document')) { validators } := by
  have hmirrors := mirrors_of_build hbuild hdistinct
  rw [← hmirrors.dialect] at hfields ⊢
  obtain ⟨document', hdocument, hmirrors'⟩ := hmirrors.mergeEntries hfields hmerged
  obtain ⟨built, hbuilt, halike⟩ := hmirrors'.build
  refine ⟨document', hdocument, ?_⟩
  -- either side compiles the catalog of its registry
  have hleft : compile source { overlay := some (.obj entries), validators } =
      merged.catalog >>= fun catalog => catalog.compile validators := by
    rw [compile, hsource]
    change (catalogOf document (some (.obj entries)) >>= _) = _
    rw [catalogOf, hbuild]
    change (apply registry (some (.obj entries)) >>= _) >>= _ = _
    rw [apply, hmerged]
    rfl
  have hright : compile (.parsed (.obj document')) { validators } =
      built.catalog >>= fun catalog => catalog.compile validators := by
    change (catalogOf document' none >>= _) = _
    rw [catalogOf, hbuilt]
    rfl
  rw [hleft, hright, halike.compile_eq]

/-- Pets of a store, with a collection of their own and an owner. -/
def storePets : Members :=
  [("openapi", .str "3.0"),
    ("definitions", .obj
      [("Pet", .obj
        [("x-swagger-mongoose", .obj [("schema-options", .obj [("collection", .str "pets")])]),
          ("properties", .obj
            [("owner", .obj [("type", .str "object"), ("properties", .obj
              [("name", .obj [("type", .str "string")])])])])])])]

/-- Options for all types and for pets, and an attribute of the name of their owner. -/
def storeOverlay : Members :=
  [("default", .obj [("timestamps", .bool true)]),
    ("Pet", .obj [("schema-options", .obj [("strict", .bool false)])]),
    ("Pet.owner.name", .obj [("trim", .bool true)])]

/-- `storePets` with `storeOverlay` written into it. -/
def storePetsInlined : Members :=
  [("openapi", .str "3.0"),
    ("definitions", .obj
      [("Pet", .obj
        [("x-swagger-mongoose", .obj
          [("schema-options", .obj [("collection", .str "pets"), ("strict", .bool false)])]),
          ("properties", .obj
            [("owner", .obj [("type", .str "object"), ("properties", .obj
              [("name", .obj [("type", .str "string"),
                ("x-swagger-mongoose", .obj [("trim", .bool true)])])])])])])]),
    ("x-swagger-mongoose", .obj [("schema-options", .obj [("timestamps", .bool true)])])]

theorem storePets_inline :
    ∃ registry merged, Registry.build storePets (Dialect.detect storePets) = .ok registry ∧
      (Entries.keys registry.definitions).Nodup ∧
      merge registry (.obj storeOverlay) = (merged, none) ∧
      compile (.parsed (.obj storePets)) { overlay := some (.obj storeOverlay), validators := [] } =
        compile (.parsed (.obj storePetsInlined)) { validators := [] } := by
  obtain ⟨registry, merged, hbuild, hdistinct, hmerged⟩ : ∃ registry merged,
      Registry.build storePets (Dialect.detect storePets) = .ok registry ∧
        (Entries.keys registry.definitions).Nodup ∧
        merge registry (.obj storeOverlay) = (merged, none) := ⟨_, _, rfl, by decide, rfl⟩
  have hinline : inline? (Dialect.detect storePets).directiveKey storeOverlay storePets =
      some storePetsInlined := rfl
  have hextended : Dialect.detect storePets = .extended := by decide
  have hfields : Dialect.detect storePets = .legacy →
      ∀ entry ∈ storeOverlay, LeadsToField entry.1 := by
    intro hlegacy
    rw [hextended] at hlegacy
    cases hlegacy
  have hsource : (Source.parsed (.obj storePets)).normalize = .ok storePets := rfl
  obtain ⟨document', hdocument, hcompile⟩ :=
    compile_inline hsource hbuild hdistinct hmerged hfields []
  rw [hinline] at hdocument
  cases hdocument
  exact ⟨registry, merged, hbuild, hdistinct, hmerged, hcompile⟩

end Overlay

end StoreSchema
