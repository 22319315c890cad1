/-
**Which documents are accepted.**

A document without directive blocks is accepted exactly when each of its definitions is well-formed
by itself, its references leading to definitions of the document.  Compiling enters definitions over
and over again, under ever other stacks; that nothing but the texts one by one matters is the
content of this module.

Main definitions:

* `LeadsTo` — that a reference leads to one of the names;
* `Catalog.Plain` — that no definition of a catalog has blocks or directives;
* `WellFormedDocument` — **well-formed documents**.

Main results:

* `Catalog.Plain.follow_succeeds` — among well-formed definitions every reference is followed,
  whatever is being compiled;
* `Catalog.Plain.compile_succeeds_iff` — a plain catalog compiles exactly when its definitions are
  well-formed;
* `compile_succeeds_iff_wellFormed` — **a document without blocks compiles exactly when it is
  well-formed**;
* `slashedDocument_refused` — a definition whose name holds a slash cannot be referred to.
-/

import StoreSchema.Compile
import StoreSchema.Proofs.Bindings
import StoreSchema.Proofs.WellFormed

set_option relaxedAutoImplicit false
set_option autoImplicit false

namespace StoreSchema

/-- That a reference is made of one of the names. -/
def MadeOf (names : List String) (reference : String) : Prop :=
  ∃ name ∈ names, reference = Pointer.referenceStart ++ name

/-- That a reference leads to one of the names: it is made of the name, which is not empty and holds
no slash. -/
def LeadsTo (names : List String) (reference : String) : Prop :=
  ∃ name ∈ names, reference = Pointer.referenceStart ++ name ∧ name ≠ "" ∧ '/' ∉ name.toList

namespace Catalog

/-- That no definition has blocks or directives. -/
structure Plain (catalog : Catalog) : Prop where
  /-- The key of blocks is used nowhere. -/
  lacks : ∀ entry ∈ catalog.types, (Json.obj entry.2.body).Lacks catalog.dialect.directiveKey
  /-- No directive is in effect. -/
  directives : ∀ entry ∈ catalog.types, entry.2.directives = {}

/-- A reference leads to a definition when one is found for it. -/
theorem leadsTo_iff {catalog : Catalog} {reference : String} :
    LeadsTo (Entries.keys catalog.types) reference ↔
      ∃ found, catalog.find? reference = some found := by
  constructor
  · rintro ⟨name, hname, hleads⟩
    have htarget := Pointer.target?_eq_some_iff.2 hleads
    obtain ⟨type, htype⟩ := Option.isSome_iff_exists.1 (Entries.isSome_get?_iff.2 hname)
    exact ⟨(name, type), find?_eq_some_iff.2 ⟨htarget, htype⟩⟩
  · rintro ⟨⟨name, type⟩, hfind⟩
    have htarget := (find?_eq_some_iff.1 hfind).1
    exact ⟨name, find?_mem_keys hfind, Pointer.target?_eq_some_iff.1 htarget⟩

/-- Where a reference stands does not decide whether it can be followed. -/
theorem follow_succeeds_congr (catalog : Catalog) (stack : List String) (reference : String)
    (place place' : Pointer) :
    (catalog.follow stack reference place).Succeeds ↔
      (catalog.follow stack reference place').Succeeds := by
  cases hfind : catalog.find? reference with
  | none =>
      rw [follow_of_find?_eq_none hfind, follow_of_find?_eq_none hfind]
      exact iff_of_false (Outcome.not_succeeds_error _) (Outcome.not_succeeds_error _)
  | some found =>
      obtain ⟨name, type⟩ := found
      by_cases hmem : name ∈ stack
      · rw [follow_of_mem hfind hmem, follow_of_mem hfind hmem]
      · rw [follow_of_not_mem hfind hmem, follow_of_not_mem hfind hmem]

namespace Plain

variable {catalog : Catalog} (hplain : catalog.Plain)
include hplain

/-- A definition compiles exactly when it is well-formed, for the references that can be followed
while it is being compiled. -/
theorem tree_succeeds_iff {name : String} {type : TypeDefinition}
    (hmem : (name, type) ∈ catalog.types) (stack : List String) :
    ((catalog.scope stack).tree name type).Succeeds ↔
      WellFormedDefinition (fun reference => (catalog.follow stack reference "").Succeeds)
        type.body := by
  refine Scope.tree_succeeds_iff ?_ (hplain.lacks _ hmem) ?_ name
  · exact fun reference place => follow_succeeds_congr catalog stack reference place ""
  · rw [hplain.directives _ hmem]

/-- A definition is entered when it is well-formed, for the references that can be followed while
it is being compiled. -/
theorem enter_succeeds {name : String} {type : TypeDefinition}
    (hmem : (name, type) ∈ catalog.types) {stack : List String}
    (hdef : WellFormedDefinition (fun reference => (catalog.follow stack reference "").Succeeds)
      type.body) : (catalog.enter stack name type).Succeeds := by
  have hlacks := hplain.lacks _ hmem
  rw [enter]
  cases halias : isAlias type.body with
  | true =>
      rw [if_pos rfl, Entries.erase_eq_self hlacks.get?_eq_none, Outcome.succeeds_map_iff]
      have hmeans : ¬MeansObject type.body := by
        rw [← Scope.describesObject_iff, describesObject_of_isAlias halias]
        exact Bool.false_ne_true
      refine (resolveField_succeeds_iff ?_ hlacks _).2 (hdef.2 hmeans).1
      exact fun reference place => follow_succeeds_congr catalog stack reference place ""
  | false =>
      rw [if_neg Bool.false_ne_true, Outcome.succeeds_map_iff]
      exact (hplain.tree_succeeds_iff hmem stack).2 hdef

/-- **Among well-formed definitions every reference is followed**, whatever is being compiled. -/
theorem follow_succeeds
    (hdefs : ∀ entry ∈ catalog.types,
      WellFormedDefinition (LeadsTo (Entries.keys catalog.types)) entry.2.body)
    (stack : List String) {reference : String}
    (hleads : LeadsTo (Entries.keys catalog.types) reference)
    (place : Pointer) : (catalog.follow stack reference place).Succeeds := by
  induction stack, reference, place using follow_induction catalog with
  | unresolved stack reference place hfind =>
      obtain ⟨found, hfound⟩ := leadsTo_iff.1 hleads
      rw [hfind] at hfound
      cases hfound
  | cyclic stack reference place name type hfind hmem => exact Outcome.succeeds_ok _
  | entered stack reference place name type hfind hmem ih =>
      have htype := find?_mem hfind
      -- the references of the definition are followed under the longer stack
      refine hplain.enter_succeeds htype ((hdefs _ htype).mono ?_)
      exact fun inner hinner => ih inner "" hinner

/-- No block is carried by a definition, or by what is added to it. -/
theorem not_carries {name : String} {type : TypeDefinition} (hmem : (name, type) ∈ catalog.types)
    (block : Members) : ¬type.Carries catalog.dialect.directiveKey block := by
  rintro (hblock | hblock)
  · exact (hplain.lacks _ hmem).not_carries block hblock
  · rw [hplain.directives _ hmem] at hblock
    cases hblock

/-- What references yield names no validator. -/
theorem keeps_unbound : catalog.Keeps (fun _ _ => True) Descriptor.Unbound where
  scalar _ _ primitive values _ _ := Descriptor.unbound_scalar primitive values
  refers _ _ _ _ _ _ _ := trivial
  trans _ _ _ _ _ := trivial
  cyclic name _ := Descriptor.unbound_reference (some name)
  identifier _ _ block _ htype hblock := absurd hblock (hplain.not_carries htype block)
  decorate _ _ block _ _ htype hblock := absurd hblock (hplain.not_carries htype block)

/-- A definition that compiles can be bound, whatever validators there are. -/
theorem bindType_succeeds {name : String} {type : TypeDefinition}
    (hmem : (name, type) ∈ catalog.types) {tree : SchemaTree}
    (htree : catalog.compileDefinition [] name type = .ok tree) (validators : Validators) :
    (bindType name tree type.directives validators).Succeeds := by
  have hunbound : tree.root.Unbound :=
    hplain.keeps_unbound.compileDefinition Descriptor.invariant_unbound hmem htree _ (.self _)
  rw [bindType, Outcome.succeeds_map_iff, bindValidators, ← tree.bindings_root, hunbound]
  exact Outcome.succeeds_ok ()

/-- The types of a plain catalog compile when each of them does. -/
theorem compileTypes_succeeds_iff (validators : Validators) {types : Entries TypeDefinition}
    (htypes : ∀ entry ∈ types, entry ∈ catalog.types) :
    (catalog.compileTypes validators types).Succeeds ↔
      ∀ entry ∈ types, (catalog.compileDefinition [] entry.1 entry.2).Succeeds := by
  induction types with
  | nil => exact iff_of_true (Outcome.succeeds_ok _) (by simp)
  | cons first rest ih =>
      obtain ⟨name, type⟩ := first
      have hmem := htypes (name, type) (List.mem_cons_self ..)
      have hrest := ih fun entry hentry => htypes entry (List.mem_cons_of_mem _ hentry)
      rw [List.forall_mem_cons, ← hrest, compileTypes, hplain.directives _ hmem,
        if_neg Bool.false_ne_true, Outcome.succeeds_bind_iff]
      constructor
      · rintro ⟨tree, htree, hnext⟩
        obtain ⟨bound, _, hnext⟩ := Outcome.succeeds_bind_iff.1 hnext
        obtain ⟨others, hothers, _⟩ := Outcome.succeeds_bind_iff.1 hnext
        exact ⟨⟨tree, htree⟩, others, hothers⟩
      · rintro ⟨⟨tree, htree⟩, others, hothers⟩
        have hbound := hplain.bindType_succeeds hmem htree validators
        rw [hplain.directives _ hmem] at hbound
        obtain ⟨bound, hbound⟩ := hbound
        refine ⟨tree, htree, Outcome.succeeds_bind_iff.2 ⟨bound, hbound, ?_⟩⟩
        exact Outcome.succeeds_bind_iff.2 ⟨others, hothers, Outcome.succeeds_ok _⟩

/-- **A plain catalog compiles exactly when its definitions are well-formed.** -/
theorem compile_succeeds_iff (validators : Validators) :
    (catalog.compile validators).Succeeds ↔
      ∀ entry ∈ catalog.types,
        WellFormedDefinition (LeadsTo (Entries.keys catalog.types)) entry.2.body := by
  rw [compile, hplain.compileTypes_succeeds_iff validators fun _ h => h]
  constructor
  · intro hcompiles entry hentry
    have hdef := (hplain.tree_succeeds_iff hentry [entry.1]).1 (hcompiles entry hentry)
    refine hdef.mono fun reference hfollow => ?_
    -- a reference that is followed leads somewhere
    cases hfind : catalog.find? reference with
    | none =>
        rw [follow_of_find?_eq_none hfind] at hfollow
        exact absurd hfollow (Outcome.not_succeeds_error _)
    | some found => exact leadsTo_iff.2 ⟨found, hfind⟩
  · intro hdefs entry hentry
    refine (hplain.tree_succeeds_iff hentry [entry.1]).2 ((hdefs entry hentry).mono ?_)
    exact fun reference hleads => hplain.follow_succeeds hdefs [entry.1] hleads ""

end Plain

end Catalog

/-! ### Documents -/

/-- **A well-formed document**: it lists well-formed definitions, whose references are `good` for
the names that it lists, or it lists none at all. -/
inductive WellFormedDocument (good : List String → String → Prop) (document : Members) : Prop where
  /-- There are no definitions. -/
  | absent (h : Entries.get? document "definitions" = none)
  /-- All definitions are well-formed objects. -/
  | present (definitions : Members)
      (h : Entries.get? document "definitions" = some (.obj definitions))
      (hdefs : ∀ entry ∈ definitions, ∃ members, entry.2 = .obj members ∧
        WellFormedDefinition (good (Entries.keys definitions)) members)

/-- A document is well-formed when the definitions that it lists are. -/
theorem wellFormedDocument_iff {good : List String → String → Prop} {document : Members} :
    WellFormedDocument good document ↔ ∃ listed, Registry.definitionList document = .ok listed ∧
      ∀ entry ∈ listed, ∃ members, entry.2 = .obj members ∧
        WellFormedDefinition (good (Entries.keys listed)) members := by
  constructor
  · intro hdocument
    cases hdocument with
    | absent hget =>
        exact ⟨[], Registry.definitionList_eq_ok_iff.2 (.inl ⟨hget, rfl⟩), by simp⟩
    | present definitions hget hdefs =>
        exact ⟨definitions, Registry.definitionList_eq_ok_iff.2 (.inr hget), hdefs⟩
  · rintro ⟨listed, hlisted, hdefs⟩
    rcases Registry.definitionList_eq_ok_iff.1 hlisted with ⟨hget, rfl⟩ | hget
    · exact .absent hget
    · exact .present listed hget hdefs

/-- What stands in the definitions of a document stands in the document. -/
theorem lacks_of_definitionList {document listed : Members} {key : String}
    (hlacks : (Json.obj document).Lacks key)
    (hlisted : Registry.definitionList document = .ok listed) :
    ∀ entry ∈ listed, entry.2.Lacks key := by
  intro entry hentry
  rcases Registry.definitionList_eq_ok_iff.1 hlisted with ⟨_, rfl⟩ | hget
  · cases hentry
  · exact hlacks.of_mem (Json.mem_deepEntries_of_listed hget hentry)

/-- The catalog of definitions without directives. -/
def Catalog.ofDefinitions (dialect : Dialect) (definitions : Entries Members) : Catalog where
  dialect
  types := definitions.map fun entry => (entry.1, { body := entry.2, directives := {} })

theorem Catalog.keys_ofDefinitions (dialect : Dialect) (definitions : Entries Members) :
    Entries.keys (ofDefinitions dialect definitions).types = Entries.keys definitions := by
  simp [ofDefinitions, Entries.keys]

namespace Registry

theorem typeBlock?_of_get?_eq_none {dialect : Dialect} {members : Members}
    (h : Entries.get? members dialect.directiveKey = none) (place : Pointer) :
    typeBlock? dialect members place = .ok none := by
  rw [typeBlock?, directive?_of_get?_eq_none h]
  cases dialect <;> rfl

/-- Definitions without blocks are read when they are objects. -/
theorem readDefinitions_of_lacks {dialect : Dialect} {listed : Members}
    (hlacks : ∀ entry ∈ listed, entry.2.Lacks dialect.directiveKey)
    (hobjects : ∀ entry ∈ listed, entry.2.isObject = true) :
    readDefinitions dialect listed =
      .ok (listed.map fun entry => (entry.1, entry.2.members, none)) := by
  induction listed with
  | nil => rfl
  | cons first rest ih =>
      obtain ⟨name, value⟩ := first
      have hobject := hobjects (name, value) (List.mem_cons_self ..)
      have hvalue := hlacks (name, value) (List.mem_cons_self ..)
      obtain ⟨members, rfl⟩ : ∃ members, value = .obj members := ⟨_, Json.isObject_iff.1 hobject⟩
      rw [readDefinitions, typeBlock?_of_get?_eq_none hvalue.get?_eq_none,
        ih (fun entry hentry => hlacks entry (List.mem_cons_of_mem _ hentry))
          (fun entry hentry => hobjects entry (List.mem_cons_of_mem _ hentry))]
      rfl

/-- What is read are objects. -/
theorem isObject_of_readDefinitions {dialect : Dialect} {listed : Members}
    (h : (readDefinitions dialect listed).Succeeds) :
    ∀ entry ∈ listed, entry.2.isObject = true := by
  induction listed with
  | nil => simp
  | cons first rest ih =>
      obtain ⟨name, value⟩ := first
      cases value with
      | obj members =>
          rw [readDefinitions] at h
          obtain ⟨block, _, h⟩ := Outcome.succeeds_bind_iff.1 h
          obtain ⟨others, hothers, _⟩ := Outcome.succeeds_bind_iff.1 h
          rw [List.forall_mem_cons]
          exact ⟨rfl, ih ⟨others, hothers⟩⟩
      | _ => exact absurd h (Outcome.not_succeeds_error _)

/-- Without blocks no directive is in effect. -/
theorem typeDefinitions_of_nil {registry : Registry} (hdefaults : registry.defaults = [])
    (hblocks : registry.typeBlocks = []) (definitions : Entries Members) :
    registry.typeDefinitions definitions =
      .ok (definitions.map fun entry => (entry.1, { body := entry.2, directives := {} })) := by
  induction definitions with
  | nil => rfl
  | cons first rest ih =>
      obtain ⟨name, body⟩ := first
      rw [typeDefinitions, directives, hdefaults, hblocks, ih]
      rfl

end Registry

/-- The catalog of a document without blocks is that of its definitions, when they are objects. -/
theorem catalogOf_of_lacks {document listed : Members}
    (hlacks : (Json.obj document).Lacks (Dialect.detect document).directiveKey)
    (hlisted : Registry.definitionList document = .ok listed)
    (hobjects : ∀ entry ∈ listed, entry.2.isObject = true) :
    catalogOf document none = .ok (.ofDefinitions (Dialect.detect document)
      (listed.map fun entry => (entry.1, entry.2.members))) := by
  have hdefs := lacks_of_definitionList hlacks hlisted
  have hbuild : Registry.build document (Dialect.detect document) = .ok
      ⟨Dialect.detect document, listed.map fun entry => (entry.1, entry.2.members), [], []⟩ := by
    rw [Registry.build, hlisted,
      Registry.typeBlock?_of_get?_eq_none hlacks.get?_eq_none]
    change (Registry.readDefinitions _ listed >>= _) = _
    rw [Registry.readDefinitions_of_lacks hdefs hobjects]
    simp [bind, Except.bind, pure, Except.pure, Function.comp_def]
  rw [catalogOf, hbuild]
  change Registry.catalog _ = _
  rw [Registry.catalog, Registry.typeDefinitions_of_nil rfl rfl]
  rfl

/-- The definitions of a document that has a catalog are objects. -/
theorem isObject_of_catalogOf {document : Members} {overlay : Option Json}
    (h : (catalogOf document overlay).Succeeds) :
    ∃ listed, Registry.definitionList document = .ok listed ∧
      ∀ entry ∈ listed, entry.2.isObject = true := by
  obtain ⟨registry, hbuild, _⟩ := Outcome.succeeds_bind_iff.1 h
  obtain ⟨listed, hlisted, hbuild⟩ := Outcome.bind_eq_ok_iff.1 hbuild
  obtain ⟨read, hread, _⟩ := Outcome.bind_eq_ok_iff.1 hbuild
  exact ⟨listed, hlisted, Registry.isObject_of_readDefinitions ⟨read, hread⟩⟩

/-- Definitions that are objects, in which no block stands, form a plain catalog. -/
theorem Catalog.plain_ofDefinitions {dialect : Dialect} {listed : Members}
    (hdefs : ∀ entry ∈ listed, entry.2.Lacks dialect.directiveKey)
    (hobjects : ∀ entry ∈ listed, entry.2.isObject = true) :
    (ofDefinitions dialect (listed.map fun entry => (entry.1, entry.2.members))).Plain where
  lacks := by
    intro entry hentry
    simp only [ofDefinitions, List.map_map, List.mem_map, Function.comp_apply] at hentry
    obtain ⟨source, hsource, rfl⟩ := hentry
    rw [← Json.isObject_iff.1 (hobjects source hsource)]
    exact hdefs source hsource
  directives := by
    intro entry hentry
    simp only [ofDefinitions, List.map_map, List.mem_map, Function.comp_apply] at hentry
    obtain ⟨source, _, rfl⟩ := hentry
    rfl

/-- Definitions that are objects compile exactly when they are well-formed. -/
theorem Catalog.compile_ofDefinitions_succeeds_iff {dialect : Dialect} {listed : Members}
    (hdefs : ∀ entry ∈ listed, entry.2.Lacks dialect.directiveKey)
    (hobjects : ∀ entry ∈ listed, entry.2.isObject = true) (validators : Validators) :
    ((ofDefinitions dialect (listed.map fun entry => (entry.1, entry.2.members))).compile
        validators).Succeeds ↔
      ∀ entry ∈ listed, ∃ members, entry.2 = .obj members ∧
        WellFormedDefinition (LeadsTo (Entries.keys listed)) members := by
  have hplain := plain_ofDefinitions hdefs hobjects
  have hkeys : Entries.keys (listed.map fun entry => (entry.1, entry.2.members)) =
      Entries.keys listed := by simp [Entries.keys]
  rw [hplain.compile_succeeds_iff validators, keys_ofDefinitions, hkeys]
  simp only [ofDefinitions, List.map_map, List.forall_mem_map, Function.comp_apply]
  refine forall₂_congr fun entry hentry => ?_
  have hobject := Json.isObject_iff.1 (hobjects entry hentry)
  constructor
  · exact fun hdef => ⟨_, hobject, hdef⟩
  · rintro ⟨members, hmembers, hdef⟩
    rw [hmembers]
    exact hdef

/-- **A document without blocks compiles exactly when it is well-formed**, whatever validators
there are. -/
theorem compile_succeeds_iff_wellFormed {source : Source} {document : Members}
    (hsource : source.normalize = .ok document)
    (hlacks : (Json.obj document).Lacks (Dialect.detect document).directiveKey)
    (validators : Validators) :
    (∃ compilation, compile source { validators } = .ok compilation) ↔
      WellFormedDocument LeadsTo document := by
  have hcompile : compile source { validators } =
      catalogOf document none >>= fun catalog => catalog.compile validators := by
    rw [compile, hsource]
    rfl
  -- for definitions that are objects, one catalog decides both sides
  have hdecides {listed : Members} (hlisted : Registry.definitionList document = .ok listed)
      (hobjects : ∀ entry ∈ listed, entry.2.isObject = true) :
      (compile source { validators }).Succeeds ↔ ∀ entry ∈ listed, ∃ members,
        entry.2 = .obj members ∧ WellFormedDefinition (LeadsTo (Entries.keys listed)) members := by
    rw [hcompile, catalogOf_of_lacks hlacks hlisted hobjects]
    exact Catalog.compile_ofDefinitions_succeeds_iff (lacks_of_definitionList hlacks hlisted)
      hobjects validators
  rw [wellFormedDocument_iff]
  constructor
  · intro hcompiles
    have hcatalog := hcompiles
    rw [hcompile] at hcatalog
    obtain ⟨catalog, hcatalog, _⟩ := Outcome.succeeds_bind_iff.1 hcatalog
    obtain ⟨listed, hlisted, hobjects⟩ := isObject_of_catalogOf ⟨catalog, hcatalog⟩
    exact ⟨listed, hlisted, (hdecides hlisted hobjects).1 hcompiles⟩
  · rintro ⟨listed, hlisted, hdefs⟩
    refine (hdecides hlisted fun entry hentry => ?_).2 hdefs
    obtain ⟨members, hmembers, _⟩ := hdefs entry hentry
    rw [hmembers]
    rfl

/-- Pets with an owner and tags, owners with pets. -/
def petDocument : Members :=
  [("definitions", .obj
    [("Pet", .obj [("properties", .obj
        [("owner", .obj [("$ref", .str "#/definitions/Owner")]),
          ("tags", .obj [("items", .obj [("$ref", .str "#/definitions/Tag")])])])]),
      ("Owner", .obj [("properties", .obj
        [("pets", .obj [("items", .obj [("$ref", .str "#/definitions/Pet")])])])]),
      ("Tag", .obj [("type", .str "string")])])]

/-- An object that says nothing but its properties is well-formed when these are. -/
theorem wellFormedDefinition_of_properties {good : String → Prop} {properties : Members}
    (h : ∀ entry ∈ properties, WellFormedProperty good entry.2) :
    WellFormedDefinition good [("properties", .obj properties)] := by
  refine ⟨fun _ => .intro ?_ ?_ ?_, fun hmeans => absurd (.inl rfl) hmeans⟩
  · intro value hvalue
    cases hvalue
  · intro value hvalue
    cases hvalue
    simp [Json.kind]
  · intro listed hlisted entry hentry _
    cases hlisted
    exact h entry hentry

/-- A text is well-formed. -/
theorem wellFormedDefinition_string {good : String → Prop} :
    WellFormedDefinition good [("type", .str "string")] := by
  refine ⟨?_, fun _ => ⟨.scalar ⟨rfl, ?_⟩ ⟨"string", rfl, rfl⟩ rfl ?_ ?_, ?_⟩⟩
  · -- a text is no object
    rintro (hproperties | htype)
    · cases hproperties
    · rcases htype _ rfl with h | h
      · cases h
      · exact absurd h (by decide)
  · intro items hitems
    cases hitems
  · intro h
    cases h
  · intro value hvalue
    cases hvalue
  · intro value hvalue
    cases hvalue

theorem petDocument_wellFormed : WellFormedDocument LeadsTo petDocument := by
  have hleads : ∀ name ∈ ["Pet", "Owner", "Tag"],
      LeadsTo ["Pet", "Owner", "Tag"] (Pointer.referenceStart ++ name) := by
    intro name hname
    refine ⟨name, hname, rfl, ?_⟩
    revert name
    decide
  refine .present _ rfl ?_
  simp only [List.forall_mem_cons, List.not_mem_nil, false_implies, implies_true, and_true]
  refine ⟨⟨_, rfl, wellFormedDefinition_of_properties ?_⟩,
    ⟨_, rfl, wellFormedDefinition_of_properties ?_⟩, ⟨_, rfl, wellFormedDefinition_string⟩⟩
  · simp only [List.forall_mem_cons, List.not_mem_nil, false_implies, implies_true, and_true]
    exact ⟨.direct rfl (hleads "Owner" (by decide)),
      .byItems rfl rfl rfl (hleads "Tag" (by decide))⟩
  · simp only [List.forall_mem_cons, List.not_mem_nil, false_implies, implies_true, and_true]
    exact .byItems rfl rfl rfl (hleads "Pet" (by decide))

/-- Owners and pets refer to each other, and compile. -/
theorem petDocument_compiles :
    (Json.obj petDocument).Lacks (Dialect.detect petDocument).directiveKey ∧
      ∃ compilation,
        compile (.parsed (.obj petDocument)) { validators := [] } = .ok compilation := by
  have hlacks : (Json.obj petDocument).Lacks (Dialect.detect petDocument).directiveKey := by
    unfold Json.Lacks
    decide
  exact ⟨hlacks, (compile_succeeds_iff_wellFormed rfl hlacks []).2 petDocument_wellFormed⟩

/-- A document whose definitions go by a name with a slash. -/
def slashedDocument : Members :=
  [("definitions", .obj
    [("Pet", .obj [("properties", .obj [("tag", .obj [("$ref", .str "#/definitions/a/b")])])]),
      ("a/b", .obj [("type", .str "string")])])]

/-- The definitions of `slashedDocument`. -/
def slashedCatalog : Catalog :=
  .ofDefinitions .legacy
    [("Pet", [("properties", .obj [("tag", .obj [("$ref", .str "#/definitions/a/b")])])]),
      ("a/b", [("type", .str "string")])]

theorem slashedCatalog_compileDefinition_pet (type : TypeDefinition)
    (htype : Entries.get? slashedCatalog.types "Pet" = some type) :
    slashedCatalog.compileDefinition [] "Pet" type =
      .error (.unresolvedReference "/definitions/Pet/properties/tag" "#/definitions/a/b") := by
  cases htype
  have hplace : ((Pointer.definition "Pet").child "properties").child "tag" =
      "/definitions/Pet/properties/tag" := rfl
  have hread : Form.read (slashedCatalog.scope ["Pet"]).dialect
      [("$ref", .str "#/definitions/a/b")] "/definitions/Pet/properties/tag" =
        .ok (.referring "#/definitions/a/b") := rfl
  have hfollow : (slashedCatalog.scope ["Pet"]).follow "#/definitions/a/b"
      "/definitions/Pet/properties/tag" = .error (.unresolvedReference
        "/definitions/Pet/properties/tag" "#/definitions/a/b") :=
    Catalog.follow_of_find?_eq_none rfl _
  have hfield : resolveField (slashedCatalog.scope ["Pet"])
      (.obj [("$ref", .str "#/definitions/a/b")]) "/definitions/Pet/properties/tag" =
        .error (.unresolvedReference "/definitions/Pet/properties/tag" "#/definitions/a/b") := by
    rw [resolveField_of_read hread, Scope.perform, hfollow]
    rfl
  have hfields : resolveProperties (slashedCatalog.scope ["Pet"]) (.all false)
      ((Pointer.definition "Pet").child "properties")
      [("tag", .obj [("$ref", .str "#/definitions/a/b")])] =
        .error (.unresolvedReference "/definitions/Pet/properties/tag" "#/definitions/a/b") := by
    rw [resolveProperties_cons, Scope.entry, hplace, hfield]
    rfl
  change ((resolveProperties _ _ _ _ >>= _).map SchemaTree.fields : Outcome SchemaTree) = _
  rw [hfields]
  rfl

/-- A definition whose name holds a slash cannot be referred to: the definitions are well-formed up
to the references, each of which is made of one of the names, and yet they do not compile. -/
theorem slashedDocument_refused :
    (Json.obj slashedDocument).Lacks (Dialect.detect slashedDocument).directiveKey ∧
      WellFormedDocument MadeOf slashedDocument ∧
      compile (.parsed (.obj slashedDocument)) {} =
        .error (.unresolvedReference "/definitions/Pet/properties/tag" "#/definitions/a/b") := by
  refine ⟨?_, ?_, ?_⟩
  · unfold Json.Lacks
    decide
  · refine .present _ rfl ?_
    simp only [List.forall_mem_cons, List.not_mem_nil, false_implies, implies_true, and_true]
    refine ⟨⟨_, rfl, wellFormedDefinition_of_properties ?_⟩, ⟨_, rfl, wellFormedDefinition_string⟩⟩
    simp only [List.forall_mem_cons, List.not_mem_nil, false_implies, implies_true, and_true]
    exact .direct rfl ⟨"a/b", by decide, rfl⟩
  · have hcatalog : catalogOf slashedDocument none = .ok slashedCatalog := rfl
    change (catalogOf slashedDocument none >>= fun catalog => catalog.compile []) = _
    rw [hcatalog]
    change (slashedCatalog.compileDefinition [] "Pet" _ >>= _) = _
    rw [slashedCatalog_compileDefinition_pet _ rfl]
    rfl

end StoreSchema
