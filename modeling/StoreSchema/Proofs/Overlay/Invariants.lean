/-
**What an overlay keeps.**

An overlay is laid over a registry entry by entry, so it keeps what every entry keeps.  It never
adds a definition, takes one away or changes the dialect.  And it does not make up what nobody
wrote: where members are merged, every text that comes out stood under the same name on one side.
So when no block asks for an identifier, neither in the document nor in the overlay, none does in
the registry under the overlay.

Main definitions:

* `AsksForIdentifier`, `Json.IdentifierFree` — that a block asks for an identifier, and that none
  does in a value, at any depth;
* `Overlay.IdentifierFree`, `Registry.IdentifierFree` — that none does in an overlay, or in a
  registry.

Main results:

* `Json.identifierFree_merge` — merging makes up no block that asks for an identifier;
* `Overlay.apply_induction` — **what every entry keeps, an overlay keeps**;
* `Overlay.keys_of_apply` — it keeps the names of the definitions;
* `Registry.identifierFree_of_build`, `Overlay.identifierFree_apply` — **no block in a registry asks
  for an identifier** when none does in the document and in the overlay.
-/

import StoreSchema.Proofs.Inlining
import StoreSchema.Proofs.Json.Depth
import StoreSchema.Proofs.Overlay.Order

set_option relaxedAutoImplicit false
set_option autoImplicit false

namespace StoreSchema

/-! ### Blocks that ask for identifiers -/

/-- That a block asks for its field to be stored as an identifier. -/
def AsksForIdentifier (block : Members) : Prop := ("type", Json.str identifierType) ∈ block

theorem asksForIdentifier_of_storesIdentifier {block : Members}
    (h : storesIdentifier block = true) : AsksForIdentifier block := by
  rw [storesIdentifier, beq_iff_eq, Option.bind_eq_some_iff] at h
  obtain ⟨value, hvalue, htext⟩ := h
  cases value with
  | str text =>
      cases htext
      exact Entries.mem_of_get? hvalue
  | _ => cases htext

namespace Json

/-- **That no block in a value asks for an identifier**, at any depth. -/
def IdentifierFree (value : Json) (key : String) : Prop :=
  ∀ block, value.Carries key block → ¬AsksForIdentifier block

variable {key name : String} {members : Members} {value : Json}

theorem IdentifierFree.mono {inner outer : Json} (h : outer.IdentifierFree key)
    (hsub : inner.deepMembers ⊆ outer.deepMembers) : inner.IdentifierFree key :=
  fun block hblock => h block (hsub hblock)

/-- Whether an object is free of such blocks is decided member by member. -/
theorem identifierFree_obj_iff :
    (obj members).IdentifierFree key ↔ ∀ entry ∈ members, (obj [entry]).IdentifierFree key := by
  have hself (entry : String × Json) : entry ∈ deepEntries [entry] :=
    mem_deepEntries_of_mem (List.mem_singleton_self entry)
  constructor
  · intro h entry hentry
    refine h.mono ?_
    rw [deepMembers_obj, deepMembers_obj]
    refine deepEntries_subset ?_
    intro other hother
    rw [List.mem_singleton.1 hother]
    exact mem_deepEntries_of_mem hentry
  · intro h block hblock
    rw [Carries, deepMembers_obj, mem_deepEntries_iff] at hblock
    rcases hblock with hblock | ⟨outer, houter, hblock⟩
    · exact h _ hblock block (by rw [Carries, deepMembers_obj]; exact hself _)
    · exact h outer houter block (deepMembers_subset_of_mem (hself outer) hblock)

/-- A single member is free of such blocks when its value is, and is not such a block itself. -/
theorem identifierFree_single_iff :
    (obj [(name, value)]).IdentifierFree key ↔
      value.IdentifierFree key ∧ (name = key → ∀ block, value = obj block →
        ¬AsksForIdentifier block) := by
  have hcarries (block : Members) : (obj [(name, value)]).Carries key block ↔
      (name = key ∧ value = obj block) ∨ value.Carries key block := by
    rw [Carries, deepMembers_obj, mem_deepEntries_iff]
    simp [Carries, eq_comm]
  constructor
  · intro h
    refine ⟨fun block hblock => h block ((hcarries block).2 (.inr hblock)), ?_⟩
    intro hname block hvalue
    exact h block ((hcarries block).2 (.inl ⟨hname, hvalue⟩))
  · rintro ⟨hvalue, hown⟩ block hblock
    rcases (hcarries block).1 hblock with ⟨hname, hblock⟩ | hblock
    · exact hown hname block hblock
    · exact hvalue block hblock

theorem identifierFree_nil (key : String) : (obj []).IdentifierFree key := by
  rw [identifierFree_obj_iff]
  exact nofun

theorem IdentifierFree.of_get? (h : (obj members).IdentifierFree key)
    (hget : Entries.get? members name = some value) : (obj [(name, value)]).IdentifierFree key :=
  identifierFree_obj_iff.1 h _ (Entries.mem_of_get? hget)

theorem IdentifierFree.insert (h : (obj members).IdentifierFree key)
    (hvalue : (obj [(name, value)]).IdentifierFree key) :
    (obj (Entries.insert members name value)).IdentifierFree key := by
  rw [identifierFree_obj_iff] at h ⊢
  intro entry hentry
  rcases Entries.mem_insert hentry with hentry | rfl
  · exact h entry hentry
  · exact hvalue

/-- An object that stands under a name stays free of such blocks when an object is written into
it. -/
theorem IdentifierFree.insert_object {outer : String} {inner : Members}
    (h : (obj [(outer, obj members)]).IdentifierFree key)
    (hinner : (obj [(name, obj inner)]).IdentifierFree key) :
    (obj [(outer, obj (Entries.insert members name (obj inner)))]).IdentifierFree key := by
  obtain ⟨hmembers, hown⟩ := identifierFree_single_iff.1 h
  refine identifierFree_single_iff.2 ⟨hmembers.insert hinner, ?_⟩
  rintro houter block hblock hasks
  cases hblock
  -- what is written is an object, so the type is the one from before
  rcases Entries.mem_insert hasks with hasks | hasks
  · exact hown houter members rfl hasks
  · cases hasks

/-! ### Merging -/

/-- What is no object replaces what was there. -/
theorem mergeValue_of_not_isObject (h : value.isObject = false) (target : Option Json) :
    mergeValue target value = value := by
  cases value with
  | obj members => cases h
  | _ => simp [mergeValue]

/-- Two objects are merged. -/
theorem mergeValue_of_objects (target source : Members) :
    mergeValue (some (obj target)) (obj source) = obj (merge target source) := by
  simp [mergeValue]

/-- An object replaces anything else. -/
theorem mergeValue_of_none {target : Option Json} (h : ∀ members, target ≠ some (obj members))
    (source : Members) : mergeValue target (obj source) = obj source := by
  rw [mergeValue]
  exact h

theorem isObject_mergeValue (target : Option Json) (source : Members) :
    (mergeValue target (obj source)).isObject = true := by
  by_cases hold : ∃ members, target = some (obj members)
  · obtain ⟨members, rfl⟩ := hold
    rw [mergeValue_of_objects]
    rfl
  · rw [mergeValue_of_none (not_exists.1 hold)]
    rfl

/-- Where members are merged, what is no object stood under its name on one side. -/
theorem mem_of_mem_merge {target source : Members} (hvalue : value.isObject = false)
    (h : (name, value) ∈ merge target source) : (name, value) ∈ target ∨ (name, value) ∈ source := by
  induction source generalizing target with
  | nil => exact .inl h
  | cons first rest ih =>
      obtain ⟨other, new⟩ := first
      rw [merge] at h
      rcases ih h with h | h
      · rcases Entries.mem_insert h with h | h
        · exact .inl h
        · -- what was written is no object, so it is the new value as it stands
          obtain ⟨rfl, rfl⟩ := Prod.mk.inj h
          refine .inr ?_
          cases hnew : new.isObject with
          | false =>
              rw [mergeValue_of_not_isObject hnew]
              exact List.mem_cons_self ..
          | true =>
              rw [isObject_iff.1 hnew, isObject_mergeValue] at hvalue
              cases hvalue
      · exact .inr (List.mem_cons_of_mem _ h)

mutual

theorem identifierFree_mergeValue {key name : String} : ∀ {source : Json} {target : Option Json},
    (∀ value, target = some value → (obj [(name, value)]).IdentifierFree key) →
      (obj [(name, source)]).IdentifierFree key →
        (obj [(name, mergeValue target source)]).IdentifierFree key
  | .obj source, target, htarget, hsource => by
      by_cases hold : ∃ members, target = some (obj members)
      · obtain ⟨members, rfl⟩ := hold
        rw [mergeValue_of_objects]
        obtain ⟨hmembers, hown⟩ := identifierFree_single_iff.1 (htarget _ rfl)
        obtain ⟨hinner, hnew⟩ := identifierFree_single_iff.1 hsource
        refine identifierFree_single_iff.2 ⟨identifierFree_merge hmembers hinner, ?_⟩
        rintro hname block hblock hasks
        cases hblock
        rcases mem_of_mem_merge rfl hasks with hasks | hasks
        · exact hown hname members rfl hasks
        · exact hnew hname source rfl hasks
      · rw [mergeValue_of_none (not_exists.1 hold)]
        exact hsource
  | .null, _, _, hsource => hsource
  | .bool _, _, _, hsource => hsource
  | .num _, _, _, hsource => hsource
  | .str _, _, _, hsource => hsource
  | .arr _, _, _, hsource => hsource

/-- **Merging makes up no block that asks for an identifier.** -/
theorem identifierFree_merge {key : String} : ∀ {source : List (String × Json)} {target : Members},
    (obj target).IdentifierFree key → (obj source).IdentifierFree key →
      (obj (merge target source)).IdentifierFree key
  | [], _, htarget, _ => htarget
  | (name, value) :: rest, target, htarget, hsource => by
      rw [identifierFree_obj_iff, List.forall_mem_cons] at hsource
      rw [merge]
      have hvalue := identifierFree_mergeValue (fun _ hold => htarget.of_get? hold) hsource.1
      exact identifierFree_merge (htarget.insert hvalue) (identifierFree_obj_iff.2 hsource.2)

end

end Json

namespace Overlay

/-! ### Entries -/

/-- That no entry of an overlay, taken as a block, asks for an identifier, nor does any block in
one. -/
def IdentifierFree (overlay : Json) (key : String) : Prop :=
  ∀ entry ∈ overlay.members, (Json.obj [(key, entry.2)]).IdentifierFree key

section Changes

variable {key name : String} {directive members : Members}

/-- Merging a directive into the block of an object makes up nothing. -/
theorem identifierFree_mergeBlock (hdirective : (Json.obj [(key, .obj directive)]).IdentifierFree key)
    (h : (Json.obj [(name, .obj members)]).IdentifierFree key) :
    (Json.obj [(name, .obj (mergeBlock key directive members))]).IdentifierFree key := by
  have hmembers := (Json.identifierFree_single_iff.1 h).1
  have hblock : (Json.obj [(key, .obj (((Entries.get? members key).map Json.members).getD []))]
      ).IdentifierFree key := by
    cases hget : Entries.get? members key with
    | none =>
        refine Json.identifierFree_single_iff.2 ⟨Json.identifierFree_nil key, ?_⟩
        rintro _ block hblock
        cases hblock
        exact nofun
    | some value =>
        cases value with
        | obj block => exact hmembers.of_get? hget
        | _ =>
            refine Json.identifierFree_single_iff.2 ⟨Json.identifierFree_nil key, ?_⟩
            rintro _ block hblock
            cases hblock
            exact nofun
  refine h.insert_object ?_
  rw [← Json.mergeValue_of_objects]
  refine Json.identifierFree_mergeValue ?_ hdirective
  rintro value hvalue
  cases hvalue
  exact hblock

/-- What makes up nothing in the property at the end of a path makes up nothing in the object at its
beginning. -/
theorem identifierFree_updateProperty {change : Members → Members}
    (hchange : ∀ name members, (Json.obj [(name, .obj members)]).IdentifierFree key →
      (Json.obj [(name, .obj (change members))]).IdentifierFree key)
    {fields : List String} {changed : Members}
    (h : (Json.obj [(name, .obj members)]).IdentifierFree key)
    (hchanged : updateProperty change fields members = some changed) :
    (Json.obj [(name, .obj changed)]).IdentifierFree key := by
  induction fields generalizing name members changed with
  | nil =>
      cases hchanged
      exact hchange name members h
  | cons field rest ih =>
      have hmembers := (Json.identifierFree_single_iff.1 h).1
      rw [updateProperty_cons] at hchanged
      obtain ⟨listed, listed', hlisted, hupdate, rfl⟩ := Entries.update?_eq_some_iff.1 hchanged
      obtain ⟨properties, properties', rfl, hproperties, rfl⟩ := Json.update?_eq_some_iff.1 hupdate
      have hlistedFree := hmembers.of_get? hlisted
      obtain ⟨value, value', hvalue, hbelow, rfl⟩ := Entries.update?_eq_some_iff.1 hproperties
      obtain ⟨property, property', rfl, hproperty, rfl⟩ := Json.update?_eq_some_iff.1 hbelow
      have hpropertyFree := (Json.identifierFree_single_iff.1 hlistedFree).1.of_get? hvalue
      exact h.insert_object (hlistedFree.insert_object (ih hpropertyFree hproperty))

end Changes

end Overlay

/-! ### Registries -/

/-- **That no block in a registry asks for an identifier**, neither in the definitions nor in the
directives of types. -/
structure Registry.IdentifierFree (registry : Registry) : Prop where
  /-- None does in the definitions. -/
  definitions : ∀ entry ∈ registry.definitions,
    (Json.obj [(entry.1, .obj entry.2)]).IdentifierFree registry.dialect.directiveKey
  /-- None does in the directives that apply to every type. -/
  defaults : (Json.obj registry.defaults).IdentifierFree registry.dialect.directiveKey
  /-- None does in the directives of single types. -/
  typeBlocks : ∀ entry ∈ registry.typeBlocks,
    (Json.obj entry.2).IdentifierFree registry.dialect.directiveKey

namespace Overlay

variable {registry merged : Registry}

/-- An entry that takes effect merges a directive in at the place it leads to. -/
theorem change?_eq_some_iff {entry : String × Json} :
    change? registry entry = some merged ↔
      ∃ directive target, entry.2 = .obj directive ∧ Target.read? entry.1 = some target ∧
        target.mergeIn? directive registry = some merged := by
  rw [change?, Option.bind_eq_some_iff]
  constructor
  · rintro ⟨⟨target, directive⟩, hplaced, hmerged⟩
    have htarget := read?_of_placed? hplaced
    rw [placed?] at hplaced
    split at hplaced
    · next found hfound =>
        obtain ⟨_, _, heq⟩ := Option.map_eq_some_iff.1 hplaced
        cases heq
        exact ⟨_, target, hfound, htarget, hmerged⟩
    · cases hplaced
  · rintro ⟨directive, target, hdirective, htarget, hmerged⟩
    refine ⟨(target, directive), ?_, hmerged⟩
    rw [placed?, hdirective]
    exact Option.map_eq_some_iff.2 ⟨target, htarget, rfl⟩

/-- **What every entry keeps, an overlay keeps.** -/
theorem apply_induction {I : Registry → Prop} {overlay : Option Json} (hstart : I registry)
    (hstep : ∀ value entry registry merged, overlay = some value → entry ∈ value.members →
      I registry → change? registry entry = some merged → I merged)
    (h : apply registry overlay = .ok merged) : I merged := by
  cases overlay with
  | none =>
      cases h
      exact hstart
  | some value =>
      rw [apply] at h
      split at h
      · next found hfound =>
          cases h
          cases value with
          | null =>
              cases hfound
              exact hstart
          | obj entries =>
              have hrun := mergeEntries_eq_iff.1 hfound
              have hsteps : ∀ entry ∈ entries, ∀ registry merged, I registry →
                  change? registry entry = some merged → I merged :=
                fun entry hentry registry merged => hstep _ entry registry merged rfl hentry
              clear hfound hstep
              -- the induction is on the entries that are still to take effect
              induction entries generalizing registry with
              | nil =>
                  cases hrun
                  exact hstart
              | cons entry rest ih =>
                  rw [List.foldlM_cons] at hrun
                  obtain ⟨next, hnext, hrun⟩ := Option.bind_eq_some_iff.1 hrun
                  rw [List.forall_mem_cons] at hsteps
                  exact ih (hsteps.1 registry next hstart hnext) hrun hsteps.2
          | _ => cases hfound
      · cases h

/-- An overlay keeps the dialect and the names of the definitions. -/
theorem keys_of_apply {overlay : Option Json} (h : apply registry overlay = .ok merged) :
    merged.dialect = registry.dialect ∧
      Entries.keys merged.definitions = Entries.keys registry.definitions := by
  refine apply_induction (I := fun merged => merged.dialect = registry.dialect ∧
    Entries.keys merged.definitions = Entries.keys registry.definitions) ⟨rfl, rfl⟩ ?_ h
  rintro _ entry before after _ _ ⟨hdialect, hkeys⟩ hchange
  obtain ⟨directive, target, _, _, hmerged⟩ := change?_eq_some_iff.1 hchange
  obtain ⟨definitions, hdefinitions, rfl⟩ := Option.map_eq_some_iff.1 hmerged
  exact ⟨hdialect, (Target.keys_of_definitions? hdefinitions).trans hkeys⟩

/-- Laying a directive in at a place makes up nothing. -/
theorem identifierFree_mergeIn {target : Target} {directive : Members}
    (h : registry.IdentifierFree)
    (hdirective : (Json.obj [(registry.dialect.directiveKey, .obj directive)]).IdentifierFree
      registry.dialect.directiveKey)
    (hmerged : target.mergeIn? directive registry = some merged) : merged.IdentifierFree := by
  obtain ⟨definitions, hdefinitions, rfl⟩ := Option.map_eq_some_iff.1 hmerged
  have hplain := (Json.identifierFree_single_iff.1 hdirective).1
  cases target with
  | document =>
      cases hdefinitions
      refine ⟨h.definitions, Json.identifierFree_merge h.defaults ?_, h.typeBlocks⟩
      rw [defaultDirective]
      split
      · exact hplain
      · -- the directive is an option of schemas, which is no block
        refine Json.identifierFree_single_iff.2 ⟨hplain, fun hkey => ?_⟩
        exact absurd hkey (Dialect.ne_directiveKey (by decide) (by decide) _)
  | type name =>
      rw [Target.definitions?] at hdefinitions
      split at hdefinitions
      · cases hdefinitions
        refine ⟨h.definitions, h.defaults, ?_⟩
        intro entry hentry
        rcases Entries.mem_insert hentry with hentry | rfl
        · exact h.typeBlocks entry hentry
        · refine Json.identifierFree_merge ?_ hplain
          cases hget : Entries.get? registry.typeBlocks name with
          | none => exact Json.identifierFree_nil _
          | some block => exact h.typeBlocks (name, block) (Entries.mem_of_get? hget)
      · cases hdefinitions
  | field name first rest =>
      obtain ⟨members, changed, hmembers, hchanged, rfl⟩ :=
        Entries.update?_eq_some_iff.1 hdefinitions
      refine ⟨?_, h.defaults, h.typeBlocks⟩
      intro entry hentry
      rcases Entries.mem_insert hentry with hentry | rfl
      · exact h.definitions entry hentry
      · have hfree := h.definitions (name, members) (Entries.mem_of_get? hmembers)
        exact identifierFree_updateProperty
          (fun _ _ hinner => identifierFree_mergeBlock hdirective hinner) hfree hchanged

/-- An overlay in which nothing asks for an identifier keeps a registry free of that. -/
theorem identifierFree_apply {overlay : Option Json} (h : registry.IdentifierFree)
    (hoverlay : ∀ value, overlay = some value →
      IdentifierFree value registry.dialect.directiveKey)
    (hmerged : apply registry overlay = .ok merged) : merged.IdentifierFree := by
  refine (apply_induction (I := fun merged => merged.dialect = registry.dialect ∧
    merged.IdentifierFree) ⟨rfl, h⟩ ?_ hmerged).2
  rintro value entry before after hvalue hentry ⟨hdialect, hbefore⟩ hchange
  obtain ⟨directive, target, hdirective, _, hmerged⟩ := change?_eq_some_iff.1 hchange
  have hfree := hoverlay value hvalue entry hentry
  rw [hdirective, ← hdialect] at hfree
  refine ⟨?_, identifierFree_mergeIn hbefore hfree hmerged⟩
  obtain ⟨definitions, _, rfl⟩ := Option.map_eq_some_iff.1 hmerged
  exact hdialect

end Overlay

namespace Registry

variable {document : Members} {dialect : Dialect} {registry : Registry}

/-- A block that counts stands under the key of blocks. -/
theorem get?_of_typeBlock? {members block : Members} {place : Pointer}
    (h : typeBlock? dialect members place = .ok (some block)) :
    Entries.get? members dialect.directiveKey = some (.obj block) := by
  obtain ⟨found, hfound, h⟩ := Outcome.map_eq_ok_iff.1 h
  split at h
  · subst h
    exact directive?_eq_some hfound
  · cases h

theorem dialect_of_build (h : build document dialect = .ok registry) :
    registry.dialect = dialect := by
  obtain ⟨_, _, h⟩ := Outcome.bind_eq_ok_iff.1 h
  obtain ⟨_, _, h⟩ := Outcome.bind_eq_ok_iff.1 h
  obtain ⟨_, _, h⟩ := Outcome.bind_eq_ok_iff.1 h
  cases h
  rfl

/-- **The registry of a document in which nothing asks for an identifier is free of that.** -/
theorem identifierFree_of_build (h : build document dialect = .ok registry)
    (hfree : (Json.obj document).IdentifierFree dialect.directiveKey) :
    registry.IdentifierFree := by
  obtain ⟨listed, hlisted, h⟩ := Outcome.bind_eq_ok_iff.1 h
  obtain ⟨read, hread, h⟩ := Outcome.bind_eq_ok_iff.1 h
  obtain ⟨defaults, hdefaults, h⟩ := Outcome.bind_eq_ok_iff.1 h
  cases h
  have hlistedFree : (Json.obj listed).IdentifierFree dialect.directiveKey := by
    rcases definitionList_eq_ok_iff.1 hlisted with ⟨_, rfl⟩ | hget
    · exact Json.identifierFree_nil _
    · exact (Json.identifierFree_single_iff.1 (hfree.of_get? hget)).1
  have hpaired := readDefinitions_eq_ok_iff.1 hread
  -- what is read of a definition stands in the document
  have hreadFree : ∀ entry ∈ read,
      (Json.obj [(entry.1, .obj entry.2.1)]).IdentifierFree dialect.directiveKey := by
    intro entry hentry
    obtain ⟨value, hvalue, rfl, _⟩ := hpaired.exists_of_mem hentry
    exact Json.identifierFree_obj_iff.1 hlistedFree _ hvalue
  refine ⟨?_, ?_, ?_⟩
  · intro entry hentry
    obtain ⟨found, hfound, rfl⟩ := List.mem_map.1 hentry
    exact hreadFree found hfound
  · cases defaults with
    | none => exact Json.identifierFree_nil _
    | some block =>
        have hblock := hfree.of_get? (get?_of_typeBlock? hdefaults)
        exact (Json.identifierFree_single_iff.1 hblock).1
  · intro entry hentry
    obtain ⟨found, hfound, hentry⟩ := List.mem_filterMap.1 hentry
    obtain ⟨block, hblock, rfl⟩ := Option.map_eq_some_iff.1 hentry
    obtain ⟨value, _, _, hplace⟩ := hpaired.exists_of_mem hfound
    have hread := hplace ""
    rw [hblock] at hread
    have hmembers := (Json.identifierFree_single_iff.1 (hreadFree found hfound)).1
    exact (Json.identifierFree_single_iff.1 (hmembers.of_get? (get?_of_typeBlock? hread))).1

end Registry

end StoreSchema
