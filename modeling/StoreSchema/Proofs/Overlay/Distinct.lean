/-
**No name is repeated under an overlay.**

A document that is read from text repeats no name.  Whatever is made of it on the way to its
schemas is made by writes under names, by merging or by leaving members out, and none of these lets
a name stand twice: so the definitions, the directives of types and the indexes repeat no name
either.  An overlay has to repeat none, because an object that it puts where there was none is put
there as it is.

Main definitions:

* `Registry.Distinct`, `TypeDefinition.Distinct` — that nothing in a registry, or in a definition
  with its directives, repeats a name.

Main results:

* `Json.distinct_merge` — merging repeats no name;
* `Registry.distinct_of_build`, `Overlay.distinct_apply` — nor does the registry of a document, or
  an overlay on it;
* `distinct_effectiveBlock` — nor do the directives in effect for a type;
* `distinct_of_catalogOf` — **nor does the catalog of a document**.
-/

import StoreSchema.Proofs.Identifiers

set_option relaxedAutoImplicit false
set_option autoImplicit false

namespace StoreSchema

/-! ### Writing and merging -/

namespace Json

variable {members source : Members} {name : String} {value : Json}

theorem Distinct.of_get? (h : (obj members).Distinct)
    (hget : Entries.get? members name = some value) : value.Distinct :=
  (distinct_obj_iff.1 h).2 _ (Entries.mem_of_get? hget)

theorem Distinct.filter (h : (obj members).Distinct) (keep : String × Json → Bool) :
    (obj (members.filter keep)).Distinct := by
  rw [distinct_obj_iff] at h ⊢
  refine ⟨h.1.sublist (List.filter_sublist.map Prod.fst), fun entry hentry => ?_⟩
  exact h.2 entry (List.mem_filter.1 hentry).1

/-- Only the values that are written have to repeat no name. -/
theorem Distinct.insertAll (h : (obj members).Distinct)
    (hsource : ∀ entry ∈ source, entry.2.Distinct) :
    (obj (Entries.insertAll members source)).Distinct := by
  rw [distinct_obj_iff] at h ⊢
  refine ⟨Entries.nodup_keys_insertAll h.1 source, fun entry hentry => ?_⟩
  rcases Entries.mem_insertAll hentry with hentry | hentry
  · exact h.2 entry hentry
  · exact hsource entry hentry

mutual

theorem distinct_mergeValue : ∀ {source : Json} {target : Option Json},
    (∀ value, target = some value → value.Distinct) → source.Distinct →
      (mergeValue target source).Distinct
  | .obj source, target, htarget, hsource => by
      by_cases hold : ∃ members, target = some (obj members)
      · obtain ⟨members, rfl⟩ := hold
        rw [mergeValue_of_objects]
        exact distinct_merge (htarget _ rfl) (distinct_obj_iff.1 hsource).2
      · rw [mergeValue_of_none (not_exists.1 hold)]
        exact hsource
  | .null, _, _, hsource => hsource
  | .bool _, _, _, hsource => hsource
  | .num _, _, _, hsource => hsource
  | .str _, _, _, hsource => hsource
  | .arr _, _, _, hsource => hsource

/-- **Merging repeats no name.** -/
theorem distinct_merge : ∀ {source : List (String × Json)} {target : Members},
    (obj target).Distinct → (∀ entry ∈ source, entry.2.Distinct) →
      (obj (merge target source)).Distinct
  | [], _, htarget, _ => htarget
  | (name, value) :: rest, target, htarget, hsource => by
      rw [List.forall_mem_cons] at hsource
      rw [merge]
      have hold : ∀ old, Entries.get? target name = some old → old.Distinct :=
        fun _ hold => htarget.of_get? hold
      exact distinct_merge (htarget.insert (distinct_mergeValue hold hsource.1) name) hsource.2

end

/-- The members of a value repeat no name when the value repeats none. -/
theorem distinct_members (h : value.Distinct) : (obj value.members).Distinct := by
  cases value with
  | obj members => exact h
  | _ => exact distinct_empty_object

/-- What is read of a table of objects, if anything, repeats no name. -/
theorem distinct_getD {blocks : Entries Members} (h : ∀ entry ∈ blocks, (obj entry.2).Distinct)
    (name : String) : (obj ((Entries.get? blocks name).getD [])).Distinct := by
  cases hblock : Entries.get? blocks name with
  | none => exact distinct_empty_object
  | some block => exact h (name, block) (Entries.mem_of_get? hblock)

end Json

/-! ### Registries -/

/-- **That nothing in a registry repeats a name.** -/
structure Registry.Distinct (registry : Registry) : Prop where
  /-- No definition does. -/
  definitions : ∀ entry ∈ registry.definitions, (Json.obj entry.2).Distinct
  /-- Nor do the directives that apply to every type. -/
  defaults : (Json.obj registry.defaults).Distinct
  /-- Nor do the directives of single types. -/
  typeBlocks : ∀ entry ∈ registry.typeBlocks, (Json.obj entry.2).Distinct

/-- **The registry of a document that repeats no name repeats none.** -/
theorem Registry.distinct_of_build {document : Members} {dialect : Dialect} {registry : Registry}
    (h : build document dialect = .ok registry) (hdistinct : (Json.obj document).Distinct) :
    registry.Distinct := by
  obtain ⟨listed, hlisted, h⟩ := Outcome.bind_eq_ok_iff.1 h
  obtain ⟨read, hread, h⟩ := Outcome.bind_eq_ok_iff.1 h
  obtain ⟨defaults, hdefaults, h⟩ := Outcome.bind_eq_ok_iff.1 h
  cases h
  have hlistedDistinct : (Json.obj listed).Distinct := by
    rcases definitionList_eq_ok_iff.1 hlisted with ⟨_, rfl⟩ | hget
    · exact Json.distinct_empty_object
    · exact hdistinct.of_get? hget
  have hpaired := readDefinitions_eq_ok_iff.1 hread
  have hreadDistinct : ∀ entry ∈ read, (Json.obj entry.2.1).Distinct := by
    intro entry hentry
    obtain ⟨value, hvalue, rfl, _⟩ := hpaired.exists_of_mem hentry
    exact (Json.distinct_obj_iff.1 hlistedDistinct).2 _ hvalue
  refine ⟨?_, ?_, ?_⟩
  · intro entry hentry
    obtain ⟨found, hfound, rfl⟩ := List.mem_map.1 hentry
    exact hreadDistinct found hfound
  · cases defaults with
    | none => exact Json.distinct_empty_object
    | some block => exact hdistinct.of_get? (get?_of_typeBlock? hdefaults)
  · intro entry hentry
    obtain ⟨found, hfound, hentry⟩ := List.mem_filterMap.1 hentry
    obtain ⟨block, hblock, rfl⟩ := Option.map_eq_some_iff.1 hentry
    obtain ⟨value, _, _, hplace⟩ := hpaired.exists_of_mem hfound
    have hread := hplace ""
    rw [hblock] at hread
    exact (hreadDistinct found hfound).of_get? (get?_of_typeBlock? hread)

namespace Overlay

variable {registry merged : Registry} {key : String} {directive members : Members}

theorem distinct_mergeBlock (hdirective : (Json.obj directive).Distinct)
    (h : (Json.obj members).Distinct) : (Json.obj (mergeBlock key directive members)).Distinct := by
  refine h.insert (Json.distinct_merge ?_ (Json.distinct_obj_iff.1 hdirective).2) key
  cases hget : Entries.get? members key with
  | none => exact Json.distinct_empty_object
  | some value => exact Json.distinct_members (h.of_get? hget)

/-- What repeats no name in the property at the end of a path repeats none in the object at its
beginning. -/
theorem distinct_updateProperty {change : Members → Members}
    (hchange : ∀ members, (Json.obj members).Distinct → (Json.obj (change members)).Distinct)
    {fields : List String} {changed : Members} (h : (Json.obj members).Distinct)
    (hchanged : updateProperty change fields members = some changed) :
    (Json.obj changed).Distinct := by
  induction fields generalizing members changed with
  | nil =>
      cases hchanged
      exact hchange members h
  | cons field rest ih =>
      rw [updateProperty_cons] at hchanged
      obtain ⟨listed, listed', hlisted, hupdate, rfl⟩ := Entries.update?_eq_some_iff.1 hchanged
      obtain ⟨properties, properties', rfl, hproperties, rfl⟩ := Json.update?_eq_some_iff.1 hupdate
      have hlistedDistinct := h.of_get? hlisted
      obtain ⟨value, value', hvalue, hbelow, rfl⟩ := Entries.update?_eq_some_iff.1 hproperties
      obtain ⟨property, property', rfl, hproperty, rfl⟩ := Json.update?_eq_some_iff.1 hbelow
      exact h.insert (hlistedDistinct.insert (ih (hlistedDistinct.of_get? hvalue) hproperty) _) _

/-- Merging a directive in at a place repeats no name. -/
theorem distinct_mergeIn {target : Target} (h : registry.Distinct)
    (hdirective : (Json.obj directive).Distinct)
    (hmerged : target.mergeIn? directive registry = some merged) : merged.Distinct := by
  obtain ⟨definitions, hdefinitions, rfl⟩ := Option.map_eq_some_iff.1 hmerged
  cases target with
  | document =>
      cases hdefinitions
      refine ⟨h.definitions, Json.distinct_merge h.defaults ?_, h.typeBlocks⟩
      rw [defaultDirective]
      split
      · exact (Json.distinct_obj_iff.1 hdirective).2
      · simpa using hdirective
  | type name =>
      rw [Target.definitions?] at hdefinitions
      split at hdefinitions
      · cases hdefinitions
        refine ⟨h.definitions, h.defaults, ?_⟩
        intro entry hentry
        rcases Entries.mem_insert hentry with hentry | rfl
        · exact h.typeBlocks entry hentry
        · have hblock := Json.distinct_getD h.typeBlocks name
          exact Json.distinct_merge hblock (Json.distinct_obj_iff.1 hdirective).2
      · cases hdefinitions
  | field name first rest =>
      obtain ⟨members, changed, hmembers, hchanged, rfl⟩ :=
        Entries.update?_eq_some_iff.1 hdefinitions
      refine ⟨?_, h.defaults, h.typeBlocks⟩
      intro entry hentry
      rcases Entries.mem_insert hentry with hentry | rfl
      · exact h.definitions entry hentry
      · have hdistinct := h.definitions (name, members) (Entries.mem_of_get? hmembers)
        exact distinct_updateProperty (fun _ => distinct_mergeBlock hdirective) hdistinct hchanged

/-- **An overlay that repeats no name keeps a registry from repeating one.** -/
theorem distinct_apply {overlay : Option Json} (h : registry.Distinct)
    (hoverlay : ∀ value, overlay = some value → value.Distinct)
    (hmerged : apply registry overlay = .ok merged) : merged.Distinct := by
  refine apply_induction (I := Registry.Distinct) h ?_ hmerged
  rintro value entry before after hvalue hentry hbefore hchange
  obtain ⟨directive, target, hdirective, _, hmerged⟩ := change?_eq_some_iff.1 hchange
  have hentries := Json.distinct_members (hoverlay value hvalue)
  have hdistinct := (Json.distinct_obj_iff.1 hentries).2 entry hentry
  rw [hdirective] at hdistinct
  exact distinct_mergeIn hbefore hdistinct hmerged

end Overlay

/-! ### Directives in effect -/

theorem distinct_effectiveValue {key : String} {present : Option Json} {value : Json}
    (hpresent : ∀ old, present = some old → old.Distinct) (hvalue : value.Distinct) :
    (effectiveValue key present value).Distinct := by
  unfold effectiveValue
  split
  · next options settings =>
      split
      · exact (hpresent _ rfl).insertAll (Json.distinct_obj_iff.1 hvalue).2
      · exact hvalue
  · exact hvalue

/-- **The directives in effect for a type repeat no name.** -/
theorem distinct_effectiveBlock {defaults own : Members} (h : (Json.obj defaults).Distinct)
    (hown : ∀ entry ∈ own, entry.2.Distinct) :
    (Json.obj (effectiveBlock defaults own)).Distinct := by
  induction own generalizing defaults with
  | nil => exact h
  | cons first rest ih =>
      rw [List.forall_mem_cons] at hown
      have hpresent : ∀ old, Entries.get? defaults first.1 = some old → old.Distinct :=
        fun _ hold => h.of_get? hold
      exact ih (h.insert (distinct_effectiveValue hpresent hown.1) _) hown.2

namespace IndexSpec

variable {place : Pointer}

/-- The fields of an index are members of the directive, in order. -/
theorem keys_of_directions {members : Members} {fields : List (String × IndexDirection)}
    (h : directions place members = .ok fields) : Entries.keys fields = Entries.keys members := by
  induction members generalizing fields with
  | nil =>
      cases h
      rfl
  | cons first rest ih =>
      obtain ⟨field, value⟩ := first
      rw [directions] at h
      split at h
      · cases h
      · obtain ⟨others, hothers, rfl⟩ := Outcome.map_eq_ok_iff.1 h
        rw [Entries.keys_cons, Entries.keys_cons, ih hothers]

/-- An index repeats no field when its directive repeats no name. -/
theorem nodup_of_parse {value : Json} {spec : IndexSpec} (hvalue : value.Distinct)
    (h : parse value place = .ok spec) : spec.fieldNames.Nodup := by
  cases value with
  | obj members =>
      obtain ⟨named, hnamed, h⟩ := Outcome.bind_eq_ok_iff.1 h
      obtain ⟨_, _, h⟩ := Outcome.bind_eq_ok_iff.1 h
      obtain ⟨_, _, h⟩ := Outcome.bind_eq_ok_iff.1 h
      obtain ⟨fields, hfields, h⟩ := Outcome.bind_eq_ok_iff.1 h
      have hnamedDistinct : (Json.obj named).Distinct := by
        rw [fieldMembers] at hnamed
        split at hnamed
        · next found hfound =>
            cases hnamed
            exact hvalue.of_get? hfound
        · cases hnamed
        · cases hnamed
          exact hvalue.filter _
      have hnodup := (Json.distinct_obj_iff.1 hnamedDistinct).1
      rw [← keys_of_directions hfields] at hnodup
      split at h
      · cases h
      · cases h
        exact hnodup
  | _ => cases h

theorem nodup_of_parseItems {items : List Json} {start : Nat} {specs : List IndexSpec}
    (hitems : ∀ item ∈ items, item.Distinct) (h : parseItems place start items = .ok specs) :
    ∀ spec ∈ specs, spec.fieldNames.Nodup := by
  induction items generalizing start specs with
  | nil =>
      cases h
      exact nofun
  | cons item rest ih =>
      rw [List.forall_mem_cons] at hitems
      obtain ⟨first, hfirst, h⟩ := Outcome.bind_eq_ok_iff.1 h
      obtain ⟨others, hothers, h⟩ := Outcome.bind_eq_ok_iff.1 h
      cases h
      exact List.forall_mem_cons.2 ⟨nodup_of_parse hitems.1 hfirst, ih hitems.2 hothers⟩

theorem nodup_of_parseMembers {members : Members} {specs : List IndexSpec}
    (hmembers : ∀ entry ∈ members, entry.2.Distinct) (h : parseMembers place members = .ok specs) :
    ∀ spec ∈ specs, spec.fieldNames.Nodup := by
  induction members generalizing specs with
  | nil =>
      cases h
      exact nofun
  | cons entry rest ih =>
      rw [List.forall_mem_cons] at hmembers
      obtain ⟨first, hfirst, h⟩ := Outcome.bind_eq_ok_iff.1 h
      obtain ⟨others, hothers, h⟩ := Outcome.bind_eq_ok_iff.1 h
      cases h
      exact List.forall_mem_cons.2 ⟨nodup_of_parse hmembers.1 hfirst, ih hmembers.2 hothers⟩

/-- No index of a directive repeats a field. -/
theorem nodup_of_parseAll {value : Json} {specs : List IndexSpec} (hvalue : value.Distinct)
    (h : parseAll value place = .ok specs) : ∀ spec ∈ specs, spec.fieldNames.Nodup := by
  cases value with
  | null =>
      cases h
      exact nofun
  | arr items => exact nodup_of_parseItems (Json.distinct_arr_iff.1 hvalue) h
  | obj members =>
      rw [parseAll] at h
      split at h
      · cases h
        exact nofun
      · split at h
        · exact nodup_of_parseMembers (Json.distinct_obj_iff.1 hvalue).2 h
        · obtain ⟨spec, hspec, rfl⟩ := Outcome.map_eq_ok_iff.1 h
          exact List.forall_mem_singleton.2 (nodup_of_parse hvalue hspec)
  | _ => cases h

end IndexSpec

/-- That nothing in the directives of a type repeats a name. -/
structure TypeDirectives.Distinct (directives : TypeDirectives) : Prop where
  /-- The options do not. -/
  options : (Json.obj directives.options).Distinct
  /-- Nor do the properties that are added. -/
  additional : (Json.obj directives.additional).Distinct
  /-- Nor does an index repeat a field. -/
  indexes : ∀ spec ∈ directives.indexes, spec.fieldNames.Nodup

namespace TypeDirectives

variable {block : Members} {place : Pointer}

theorem distinct_of_readObject {key : String} {members : Members} (h : (Json.obj block).Distinct)
    (hread : readObject block key place = .ok members) : (Json.obj members).Distinct := by
  rw [readObject] at hread
  split at hread
  · cases hread
    exact Json.distinct_empty_object
  · cases hread
    exact Json.distinct_empty_object
  · next found hfound =>
      cases hread
      exact h.of_get? hfound
  · cases hread

/-- What a block says repeats no name when the block repeats none. -/
theorem distinct_of_read {directives : TypeDirectives} (h : (Json.obj block).Distinct)
    (hread : read block place = .ok directives) : directives.Distinct := by
  obtain ⟨options, hoptions, hread⟩ := Outcome.bind_eq_ok_iff.1 hread
  obtain ⟨exclude, _, hread⟩ := Outcome.bind_eq_ok_iff.1 hread
  obtain ⟨additional, hadditional, hread⟩ := Outcome.bind_eq_ok_iff.1 hread
  obtain ⟨indexes, hindexes, hread⟩ := Outcome.bind_eq_ok_iff.1 hread
  obtain ⟨validatorModule, _, hread⟩ := Outcome.bind_eq_ok_iff.1 hread
  cases hread
  refine ⟨distinct_of_readObject h hoptions, distinct_of_readObject h hadditional, ?_⟩
  rw [readIndexes] at hindexes
  split at hindexes
  · cases hindexes
    exact nofun
  · next value hvalue => exact IndexSpec.nodup_of_parseAll (h.of_get? hvalue) hindexes

end TypeDirectives

/-! ### Catalogs -/

/-- **That nothing in a definition and its directives repeats a name.** -/
structure TypeDefinition.Distinct (type : TypeDefinition) : Prop where
  /-- The members do not. -/
  body : (Json.obj type.body).Distinct
  /-- Nor do the directives. -/
  directives : type.directives.Distinct

/-- **The catalog of a document that repeats no name, under an overlay that repeats none, repeats
none.** -/
theorem distinct_of_catalogOf {document : Members} {overlay : Option Json} {catalog : Catalog}
    (h : catalogOf document overlay = .ok catalog) (hdocument : (Json.obj document).Distinct)
    (hoverlay : ∀ value, overlay = some value → value.Distinct) :
    ∀ entry ∈ catalog.types, entry.2.Distinct := by
  obtain ⟨registry, hregistry, h⟩ := Outcome.bind_eq_ok_iff.1 h
  obtain ⟨overlaid, hoverlaid, h⟩ := Outcome.bind_eq_ok_iff.1 h
  obtain ⟨types, htypes, rfl⟩ := Outcome.map_eq_ok_iff.1 h
  have hbuilt := Registry.distinct_of_build hregistry hdocument
  have hdistinct := Overlay.distinct_apply hbuilt hoverlay hoverlaid
  intro entry hentry
  obtain ⟨body, hbody, rfl, hdirectives⟩ :=
    (Registry.paired_of_typeDefinitions htypes).exists_of_mem hentry
  have hown := Json.distinct_getD hdistinct.typeBlocks entry.1
  have hblock := distinct_effectiveBlock hdistinct.defaults (Json.distinct_obj_iff.1 hown).2
  exact ⟨hdistinct.definitions _ hbody, TypeDirectives.distinct_of_read hblock hdirectives⟩

end StoreSchema
