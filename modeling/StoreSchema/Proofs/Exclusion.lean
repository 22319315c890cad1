/-
**Leaving a type out takes nothing else away.**

A type that is left out of the output still is a definition like any other: references lead to it,
and what it says is embedded where they stand.  So leaving types out by an overlay is the same as
taking their schemas out of the output.  The overlay writes one member into the directives of each
such type.  No other directive is read from that member, so nothing that references find has
changed, and every other schema comes out as before.

Main definitions:

* `Registry.excludes` — whether the directives in effect leave a type out;
* `Overlay.exclusion` — the overlay that leaves types out;
* `Registry.ExcludingFrom`, `Catalog.excluding` — a registry and a catalog under that overlay;
* `Compilation.without` — schemas and warnings without those of some types.

Main results:

* `get?_effectiveBlock` — what is in effect for a type, directive by directive;
* `Catalog.names_of_compileTypes` — the schemas of a catalog are those of the types that are not left
  out, in order;
* `Catalog.compileTypes_excluding` — **leaving types out of a catalog takes their schemas away**;
* `exclusion_of_compile` — both, for the schemas of a document.
-/

import StoreSchema.Proofs.Overlay.Distinct

set_option relaxedAutoImplicit false
set_option autoImplicit false

namespace StoreSchema

/-! ### The directives in effect -/

/-- **What is in effect for a type under a key**: what its own directives leave of that of the
document, and that of the document where they say nothing. -/
theorem get?_effectiveBlock {defaults own : Members} (hdistinct : (Entries.keys own).Nodup)
    (key : String) :
    Entries.get? (effectiveBlock defaults own) key =
      ((Entries.get? own key).map (effectiveValue key (Entries.get? defaults key))).or
        (Entries.get? defaults key) := by
  induction own generalizing defaults with
  | nil => rfl
  | cons first rest ih =>
      obtain ⟨name, value⟩ := first
      rw [Entries.keys_cons, List.nodup_cons] at hdistinct
      rw [effectiveBlock, ih hdistinct.2, Entries.get?_cons, Entries.get?_insert]
      by_cases hname : name = key
      · subst hname
        simp [Entries.get?_eq_none_iff.2 hdistinct.1]
      · simp [hname]

namespace TypeDirectives

variable {block block' : Members} {place : Pointer} {directives : TypeDirectives}

/-- A type is left out exactly when its block says so. -/
theorem exclude_of_read (h : read block place = .ok directives) :
    directives.exclude = true ↔ Entries.get? block excludeKey = some (.bool true) := by
  obtain ⟨options, _, h⟩ := Outcome.bind_eq_ok_iff.1 h
  obtain ⟨exclude, hexclude, h⟩ := Outcome.bind_eq_ok_iff.1 h
  obtain ⟨additional, _, h⟩ := Outcome.bind_eq_ok_iff.1 h
  obtain ⟨indexes, _, h⟩ := Outcome.bind_eq_ok_iff.1 h
  obtain ⟨validatorModule, _, h⟩ := Outcome.bind_eq_ok_iff.1 h
  cases h
  rw [readExclude] at hexclude
  split at hexclude
  · next hget =>
      cases hexclude
      simp [hget]
  · next hget =>
      cases hexclude
      simp [hget]
  · next hget =>
      cases hexclude
      simp [hget]
  · cases hexclude

/-- A block that leaves the type out, and is the same under all other keys, says the same
otherwise. -/
theorem read_of_excluding (h : read block place = .ok directives)
    (hexclude : Entries.get? block' excludeKey = some (.bool true))
    (hothers : ∀ key, key ≠ excludeKey → Entries.get? block' key = Entries.get? block key) :
    read block' place = .ok { directives with exclude := true } := by
  obtain ⟨options, hoptions, h⟩ := Outcome.bind_eq_ok_iff.1 h
  obtain ⟨exclude, _, h⟩ := Outcome.bind_eq_ok_iff.1 h
  obtain ⟨additional, hadditional, h⟩ := Outcome.bind_eq_ok_iff.1 h
  obtain ⟨indexes, hindexes, h⟩ := Outcome.bind_eq_ok_iff.1 h
  obtain ⟨validatorModule, hmodule, h⟩ := Outcome.bind_eq_ok_iff.1 h
  cases h
  rw [readObject, ← hothers _ (by decide)] at hoptions hadditional
  rw [readIndexes, ← hothers _ (by decide)] at hindexes
  rw [readModule, ← hothers _ (by decide)] at hmodule
  have hread : readExclude block' place = .ok true := by rw [readExclude, hexclude]
  refine Outcome.bind_eq_ok_iff.2 ⟨options, hoptions, ?_⟩
  refine Outcome.bind_eq_ok_iff.2 ⟨true, hread, ?_⟩
  refine Outcome.bind_eq_ok_iff.2 ⟨additional, hadditional, ?_⟩
  refine Outcome.bind_eq_ok_iff.2 ⟨indexes, hindexes, ?_⟩
  exact Outcome.bind_eq_ok_iff.2 ⟨validatorModule, hmodule, rfl⟩

end TypeDirectives

/-! ### The names of the schemas -/

/-- Whether the directives in effect for a type leave it out of the output. -/
def Registry.excludes (registry : Registry) (name : String) : Bool :=
  let own := (Entries.get? registry.typeBlocks name).getD []
  Entries.get? (effectiveBlock registry.defaults own) excludeKey == some (.bool true)

theorem Registry.exclude_of_directives {registry : Registry} {name : String}
    {directives : TypeDirectives} (h : registry.directives name = .ok directives) :
    directives.exclude = registry.excludes name := by
  rw [Bool.eq_iff_iff, TypeDirectives.exclude_of_read h, excludes, beq_iff_eq]

namespace Catalog

variable {catalog : Catalog} {validators : Validators}

/-- **The schemas of a catalog are those of the types that are not left out**, in order. -/
theorem names_of_compileTypes {types : Entries TypeDefinition} {compilation : Compilation}
    (h : catalog.compileTypes validators types = .ok compilation) :
    compilation.schemas.names =
      Entries.keys (types.filter fun entry => !entry.2.directives.exclude) := by
  induction types generalizing compilation with
  | nil =>
      cases h
      rfl
  | cons first rest ih =>
      obtain ⟨name, type⟩ := first
      cases hexclude : type.directives.exclude with
      | true =>
          rw [compileTypes, if_pos hexclude] at h
          rw [ih h, List.filter_cons_of_neg (by simp [hexclude])]
      | false =>
          obtain ⟨tree, schema, warnings, others, _, hbound, hothers, rfl⟩ :=
            (compileTypes_cons_eq_ok_iff hexclude).1 h
          obtain ⟨rfl, _⟩ := bindType_eq_ok hbound
          rw [List.filter_cons_of_pos (by simp [hexclude]), Entries.keys_cons, ← ih hothers]
          rfl

end Catalog

/-- The schemas of a registry are those of the definitions that its directives do not leave out. -/
theorem Registry.names_of_compile {registry : Registry} {catalog : Catalog}
    (hcatalog : registry.catalog = .ok catalog) {validators : Validators} {compilation : Compilation}
    (h : catalog.compile validators = .ok compilation) :
    compilation.schemas.names =
      (Entries.keys registry.definitions).filter fun name => !registry.excludes name := by
  obtain ⟨types, htypes, rfl⟩ := Outcome.map_eq_ok_iff.1 hcatalog
  rw [Catalog.names_of_compileTypes h]
  have hpaired := Registry.paired_of_typeDefinitions htypes
  generalize registry.definitions = definitions at hpaired
  clear h htypes hcatalog
  induction hpaired with
  | nil => rfl
  | @cons name type body rest rest' htype hrest ih =>
      have hexclude := Registry.exclude_of_directives htype.2
      rw [Entries.keys_cons, List.filter_cons, List.filter_cons, hexclude, ← ih]
      split <;> rfl

/-! ### The overlay that leaves types out -/

/-- The directive that leaves a type out. -/
def excludeDirective : Members := [(excludeKey, .bool true)]

/-- The overlay that leaves the named types out. -/
def Overlay.exclusion (excluded : List String) : Json :=
  .obj (excluded.map fun name => (name, .obj excludeDirective))

/-- That a registry differs from another one in leaving the named types out. -/
structure Registry.ExcludingFrom (merged registry : Registry) (excluded : List String) : Prop where
  /-- The dialect is the same. -/
  dialect : merged.dialect = registry.dialect
  /-- The definitions are the same. -/
  definitions : merged.definitions = registry.definitions
  /-- The directives that apply to every type are the same. -/
  defaults : merged.defaults = registry.defaults
  /-- The directives of the named types leave them out. -/
  named : ∀ name ∈ excluded, Entries.get? merged.typeBlocks name =
    some (Entries.insert ((Entries.get? registry.typeBlocks name).getD []) excludeKey (.bool true))
  /-- The directives of all other types are the same. -/
  others : ∀ name, name ∉ excluded →
    Entries.get? merged.typeBlocks name = Entries.get? registry.typeBlocks name

namespace Overlay

variable {registry : Registry}

/-- An entry that leaves a type out writes one member into its directives. -/
theorem applyEntry_excludeDirective {name : String}
    (hname : name ∈ Entries.keys registry.definitions) (hdot : '.' ∉ name.toList)
    (hdefault : name ≠ "default") :
    applyEntry registry name (.obj excludeDirective) =
      .ok (mergeType registry name excludeDirective) := by
  have hpath : Text.dotted name = [name] := Text.dotted_of_not_mem hdot
  have hmerged : mergeAt? registry name excludeDirective =
      some (mergeType registry name excludeDirective) := by
    rw [mergeAt?, hpath]
    simp [Entries.contains_iff.2 hname]
  rw [applyEntry, if_neg hdefault, hmerged]

/-- **The overlay takes effect, and does nothing but leave the types out.** -/
theorem excludingFrom_of_merge {excluded : List String}
    (hexcluded : ∀ name ∈ excluded, name ∈ Entries.keys registry.definitions ∧
      '.' ∉ name.toList ∧ name ≠ "default") :
    ∃ merged, merge registry (exclusion excluded) = (merged, none) ∧
      merged.ExcludingFrom registry excluded := by
  induction excluded generalizing registry with
  | nil => exact ⟨registry, rfl, ⟨rfl, rfl, rfl, nofun, fun _ _ => rfl⟩⟩
  | cons name rest ih =>
      rw [List.forall_mem_cons] at hexcluded
      obtain ⟨⟨hname, hdot, hdefault⟩, hrest⟩ := hexcluded
      obtain ⟨merged, hmerged, h⟩ : ∃ merged,
          merge (mergeType registry name excludeDirective) (exclusion rest) = (merged, none) ∧
            merged.ExcludingFrom (mergeType registry name excludeDirective) rest := ih hrest
      have hblock : Entries.get? (mergeType registry name excludeDirective).typeBlocks name =
          some (Entries.insert ((Entries.get? registry.typeBlocks name).getD []) excludeKey
            (.bool true)) := Entries.get?_insert_self _ _ _
      have hother {other : String} (hne : other ≠ name) :
          Entries.get? (mergeType registry name excludeDirective).typeBlocks other =
            Entries.get? registry.typeBlocks other := by
        rw [mergeType, Entries.get?_insert, if_neg hne.symm]
      refine ⟨merged, ?_, h.dialect, h.definitions, h.defaults, ?_, ?_⟩
      · change mergeEntries registry ((name, .obj excludeDirective) :: _) = _
        rw [mergeEntries, applyEntry_excludeDirective hname hdot hdefault]
        exact hmerged
      · intro other hmem
        by_cases hne : other = name
        · subst hne
          by_cases hmore : other ∈ rest
          · -- written twice, the member counts once
            rw [h.named other hmore, hblock, Option.getD_some, Entries.insert_insert_self]
          · rw [h.others other hmore, hblock]
        · have hmore : other ∈ rest := (List.mem_cons.1 hmem).resolve_left hne
          rw [h.named other hmore, hother hne]
      · intro other hmem
        rw [List.mem_cons, not_or] at hmem
        rw [h.others other hmem.2, hother hmem.1]

end Overlay

/-! ### A catalog without some types -/

/-- A definition that is left out of the output. -/
def TypeDefinition.exclude (type : TypeDefinition) : TypeDefinition :=
  { type with directives := { type.directives with exclude := true } }

/-- A definition that is left out when it is among the named ones. -/
def TypeDefinition.excludeIn (excluded : List String) (name : String) (type : TypeDefinition) :
    TypeDefinition :=
  if name ∈ excluded then type.exclude else type

/-- The catalog with the named types left out of the output. -/
def Catalog.excluding (catalog : Catalog) (excluded : List String) : Catalog :=
  { catalog with
    types := catalog.types.map fun entry =>
      (entry.1, entry.2.excludeIn excluded entry.1) }

/-- Schemas and warnings without those of the named types. -/
def Compilation.without (compilation : Compilation) (excluded : List String) : Compilation where
  schemas := compilation.schemas.filter fun schema => schema.name ∉ excluded
  warnings := compilation.warnings.filter fun warning => warning.schema ∉ excluded

namespace Registry.ExcludingFrom

variable {registry merged : Registry} {excluded : List String}

/-- The directives of the named types leave them out, and all else is as before. -/
theorem directives (h : merged.ExcludingFrom registry excluded) (hdistinct : registry.Distinct)
    {name : String} {directives : TypeDirectives}
    (hread : registry.directives name = .ok directives) :
    merged.directives name =
      .ok (if name ∈ excluded then { directives with exclude := true } else directives) := by
  rw [Registry.directives] at hread ⊢
  rw [h.dialect, h.defaults]
  by_cases hname : name ∈ excluded
  · have hown : (Entries.keys ((Entries.get? registry.typeBlocks name).getD [])).Nodup :=
      (Json.distinct_obj_iff.1 (Json.distinct_getD hdistinct.typeBlocks name)).1
    rw [if_pos hname, h.named name hname, Option.getD_some]
    refine TypeDirectives.read_of_excluding hread ?_ fun key hkey => ?_
    · rw [get?_effectiveBlock (Entries.nodup_keys_insert hown _ _), Entries.get?_insert_self,
        Option.map_some, effectiveValue_of_ne (by decide), Option.some_or]
    · rw [get?_effectiveBlock (Entries.nodup_keys_insert hown _ _), get?_effectiveBlock hown,
        Entries.get?_insert, if_neg hkey.symm]
  · rw [if_neg hname, h.others name hname]
    exact hread

/-- **The catalog of the registry is that of the other one with the named types left out.** -/
theorem catalog (h : merged.ExcludingFrom registry excluded) (hdistinct : registry.Distinct)
    {catalog : Catalog} (hcatalog : registry.catalog = .ok catalog) :
    merged.catalog = .ok (catalog.excluding excluded) := by
  obtain ⟨types, htypes, rfl⟩ := Outcome.map_eq_ok_iff.1 hcatalog
  have hmerged : merged.typeDefinitions registry.definitions = .ok (types.map fun entry =>
      (entry.1, entry.2.excludeIn excluded entry.1)) := by
    have hpaired := Registry.paired_of_typeDefinitions htypes
    generalize registry.definitions = definitions at hpaired
    clear hcatalog htypes
    induction hpaired with
    | nil => rfl
    | @cons name type body rest rest' htype hrest ih =>
        obtain ⟨rfl, hdirectives⟩ := htype
        rw [Registry.typeDefinitions, h.directives hdistinct hdirectives, ih]
        change Except.ok _ = Except.ok _
        rw [List.map_cons, TypeDefinition.excludeIn]
        split <;> rfl
  rw [Registry.catalog, h.definitions, hmerged, h.dialect]
  rfl

end Registry.ExcludingFrom

namespace Catalog

variable {catalog : Catalog} {excluded : List String} {validators : Validators}

theorem content_excludeIn (excluded : List String) (name : String) (type : TypeDefinition) :
    (type.excludeIn excluded name).content = type.content := by
  rw [TypeDefinition.excludeIn]
  split <;> rfl

/-- References find in the catalog what they found before. -/
theorem agreeOn_excluding (catalog : Catalog) (excluded : List String) :
    catalog.AgreeOn (catalog.excluding excluded) fun _ => True where
  dialect := rfl
  content name _ := by
    have hpaired : Entries.Paired (fun _ type type' => type'.content = type.content) catalog.types
        (catalog.excluding excluded).types :=
      (Entries.Paired.refl (fun _ type => Eq.refl type) catalog.types).map_right
        (fun name type => type.excludeIn excluded name) fun name type type' heq => by
          rw [content_excludeIn, heq]
    rcases hpaired.get? name with ⟨hleft, hright⟩ | ⟨type, type', hleft, hright, hcontent⟩
    · rw [hleft, hright]
    · rw [hleft, hright, Option.map_some, Option.map_some, hcontent]
  closed _ _ _ _ _ _ := fun _ _ => .inl trivial

/-- **Leaving types out of a catalog takes their schemas out of the output**, and no others. -/
theorem compileTypes_excluding (hdistinct : (Entries.keys catalog.types).Nodup)
    {types : Entries TypeDefinition} (htypes : ∀ entry ∈ types, entry ∈ catalog.types)
    {compilation : Compilation} (h : catalog.compileTypes validators types = .ok compilation) :
    (catalog.excluding excluded).compileTypes validators (types.map fun entry =>
        (entry.1, entry.2.excludeIn excluded entry.1)) = .ok (compilation.without excluded) := by
  induction types generalizing compilation with
  | nil =>
      cases h
      rfl
  | cons first rest ih =>
      obtain ⟨name, type⟩ := first
      rw [List.forall_mem_cons] at htypes
      rw [List.map_cons]
      cases hexclude : type.directives.exclude with
      | true =>
          -- a type that was left out before still is
          have hstill : (type.excludeIn excluded name).directives.exclude = true := by
            rw [TypeDefinition.excludeIn]
            split
            · rfl
            · exact hexclude
          rw [compileTypes, if_pos hexclude] at h
          rw [compileTypes, if_pos hstill]
          exact ih htypes.2 h
      | false =>
          obtain ⟨tree, schema, warnings, others, htree, hbound, hothers, rfl⟩ :=
            (compileTypes_cons_eq_ok_iff hexclude).1 h
          obtain ⟨hschema, hwarnings⟩ := bindType_eq_ok hbound
          have hname : schema.name = name := by rw [hschema]
          have hrest := ih htypes.2 hothers
          by_cases hmem : name ∈ excluded
          · have hnow : type.excludeIn excluded name = type.exclude := if_pos hmem
            have hnone : warnings.filter (fun warning => warning.schema ∉ excluded) = [] :=
              List.filter_eq_nil_iff.2 fun warning hwarning => by simp [hwarnings _ hwarning, hmem]
            have hout : type.exclude.directives.exclude = true := rfl
            rw [hnow, compileTypes, if_pos hout, hrest, Compilation.without, Compilation.without,
              List.filter_cons_of_neg (by simp [hname, hmem]), List.filter_append, hnone,
              List.nil_append]
          · have hnow : type.excludeIn excluded name = type := if_neg hmem
            have hkept : warnings.filter (fun warning => warning.schema ∉ excluded) = warnings :=
              List.filter_eq_self.2 fun warning hwarning => by simp [hwarnings _ hwarning, hmem]
            have hget := Entries.get?_of_mem hdistinct htypes.1
            have hsame : catalog.compileDefinition [] name type =
                (catalog.excluding excluded).compileDefinition [] name type :=
              compileDefinition_congr (agreeOn_excluding catalog excluded) trivial hget rfl
                fun _ _ => .rfl
            rw [hnow]
            refine (compileTypes_cons_eq_ok_iff hexclude).2
              ⟨tree, schema, warnings, _, hsame.symm.trans htree, hbound, hrest, ?_⟩
            rw [Compilation.without, Compilation.without,
              List.filter_cons_of_pos (by simp [hname, hmem]), List.filter_append, hkept]

end Catalog

/-! ### The schemas of a document -/

/-- **Leaving types out is a filter.**  The schemas of a document under an overlay are those of its
definitions that the directives in effect do not leave out, in the order of the document.  And where
a document compiles by itself, an overlay that leaves some of its definitions out takes their schemas
away and changes nothing else; the document has to repeat no name, and one that is given as text or
bytes repeats none. -/
theorem exclusion_of_compile {source : Source} {options : Options} {compilation : Compilation}
    (h : compile source options = .ok compilation) :
    ∃ document, source.normalize = .ok document ∧
      (∃ registry merged, Registry.build document (Dialect.detect document) = .ok registry ∧
        Overlay.apply registry options.overlay = .ok merged ∧
        compilation.schemas.names =
          (definedNames document).filter fun name => !merged.excludes name) ∧
      (options.overlay = none → (Json.obj document).Distinct → ∀ excluded : List String,
        (∀ name ∈ excluded, name ∈ definedNames document ∧ '.' ∉ name.toList ∧
          name ≠ "default") →
        compile source { options with overlay := some (Overlay.exclusion excluded) } =
          .ok (compilation.without excluded)) := by
  obtain ⟨document, catalog, hdocument, hcatalogOf, hcompile⟩ := compile_eq_ok_iff.1 h
  have hkeys := keys_of_catalogOf hcatalogOf
  obtain ⟨registry, hregistry, hrest⟩ := Outcome.bind_eq_ok_iff.1 hcatalogOf
  obtain ⟨merged, hmerged, hcatalog⟩ := Outcome.bind_eq_ok_iff.1 hrest
  obtain ⟨types, htypes, hcatalogEq⟩ := Outcome.map_eq_ok_iff.1 hcatalog
  have hdefinitions : Entries.keys merged.definitions = definedNames document := by
    rw [← hkeys, ← hcatalogEq]
    exact (Registry.paired_of_typeDefinitions htypes).keys_eq.symm
  refine ⟨document, hdocument, ⟨registry, merged, hregistry, hmerged, ?_⟩, ?_⟩
  · rw [← hdefinitions]
    exact Registry.names_of_compile hcatalog hcompile
  · intro hnone hdistinct excluded hexcluded
    rw [hnone] at hmerged
    cases hmerged
    rw [← hdefinitions] at hexcluded
    obtain ⟨overlaid, hoverlaid, hexcluding⟩ := Overlay.excludingFrom_of_merge hexcluded
    have hregistryDistinct := Registry.distinct_of_build hregistry hdistinct
    have happly : Overlay.apply registry (some (Overlay.exclusion excluded)) = .ok overlaid := by
      rw [Overlay.apply, hoverlaid]
    refine compile_eq_ok_iff.2 ⟨document, catalog.excluding excluded, hdocument, ?_, ?_⟩
    · exact Outcome.bind_eq_ok_iff.2 ⟨registry, hregistry, Outcome.bind_eq_ok_iff.2
        ⟨overlaid, happly, hexcluding.catalog hregistryDistinct hcatalog⟩⟩
    · have hnodup := nodup_keys_of_catalogOf hcatalogOf hdistinct
      exact Catalog.compileTypes_excluding hnodup (fun _ hentry => hentry) hcompile

theorem distinct_personDocument : (Json.obj personDocument).Distinct := by
  simp [personDocument, personBody, friendsProperty, Json.Distinct, Json.DistinctMembers]

/-- Without its tags a document of persons still has the schema of a person, tags embedded. -/
theorem personDocument_without_tags :
    compile (.parsed (.obj personDocument)) {} = .ok ⟨[personSchema, tagSchema], []⟩ ∧
      compile (.parsed (.obj personDocument)) { overlay := some (Overlay.exclusion ["Tag"]) } =
        .ok ⟨[personSchema], []⟩ := by
  refine ⟨compile_personDocument, ?_⟩
  obtain ⟨document, hdocument, _, hwithout⟩ := exclusion_of_compile compile_personDocument
  cases hdocument
  exact hwithout rfl distinct_personDocument ["Tag"] (by decide)

end StoreSchema
