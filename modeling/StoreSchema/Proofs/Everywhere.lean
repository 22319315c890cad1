/-
**Descriptors at every depth.**

A body is built from few kinds of descriptors in few ways: scalars, identifiers, arrays of items
that are not required, embedded documents whose fields have distinct and free names, all of these
with what an object or a block says besides.  So a property of descriptors that these ways keep
holds of every descriptor in a body, at every depth.  Scalars, identifiers and blocks depend on
where they stand.  The values that a scalar is restricted to are listed in a definition.  An
identifier comes from a block that asks for it, or from a reference that closes a cycle: all
definitions on the stack lead to the one that is compiled, so the one that is referred to leads back
to itself.

Main definitions:

* `Descriptor.Contains`, `Descriptor.Everywhere` — that a descriptor stands in another at some
  depth, and what holds at every depth;
* `SchemaTree.root` — a body as one descriptor;
* `Descriptor.Invariant` — that the ways in which descriptors are put together keep a property;
* `Scope.Keeps`, `Catalog.Keeps` — that the listed values, the references and the blocks of a scope,
  or of a catalog, keep it.

Main results:

* `everywhere_of_resolveField`, `Scope.everywhere_of_tree` — properties and definitions yield
  descriptors that have the property at every depth, when references do;
* `Catalog.Keeps.follow` — **and references do**;
* `Catalog.Keeps.compile` — so all schemas of a catalog do.
-/

import StoreSchema.Compile
import StoreSchema.Proofs.Embedding

set_option relaxedAutoImplicit false
set_option autoImplicit false

namespace StoreSchema

/-! ### Depth -/

namespace Descriptor

/-- That a descriptor stands in another one at some depth, or is that one. -/
inductive Contains : Descriptor → Descriptor → Prop where
  /-- The descriptor itself. -/
  | self (descriptor : Descriptor) : Contains descriptor descriptor
  /-- What stands in the items of an array. -/
  | item {modifiers : Modifiers} {item inner : Descriptor} (h : Contains item inner) :
      Contains (.array modifiers item) inner
  /-- What stands in a field of an embedded document. -/
  | field {modifiers : Modifiers} {fields : FieldMap} {entry : String × Descriptor}
      {inner : Descriptor} (hentry : entry ∈ fields) (h : Contains entry.2 inner) :
      Contains (.embedded modifiers fields) inner

/-- **That every descriptor in a descriptor has a property**, itself included. -/
def Everywhere (P : Descriptor → Prop) (descriptor : Descriptor) : Prop :=
  ∀ inner, descriptor.Contains inner → P inner

variable {P : Descriptor → Prop}

theorem everywhere_scalar {modifiers : Modifiers} {type : Primitive} {values : Option (List Json)}
    (h : P (.scalar modifiers type values)) : (scalar modifiers type values).Everywhere P := by
  intro inner hinner
  cases hinner
  exact h

theorem everywhere_reference {modifiers : Modifiers} {target : Option String}
    (h : P (.reference modifiers target)) : (reference modifiers target).Everywhere P := by
  intro inner hinner
  cases hinner
  exact h

theorem everywhere_array {modifiers : Modifiers} {item : Descriptor}
    (h : P (.array modifiers item)) (hitem : item.Everywhere P) :
    (array modifiers item).Everywhere P := by
  intro inner hinner
  cases hinner with
  | self => exact h
  | item hinner => exact hitem inner hinner

theorem everywhere_embedded {modifiers : Modifiers} {fields : FieldMap}
    (h : P (.embedded modifiers fields)) (hfields : ∀ entry ∈ fields, entry.2.Everywhere P) :
    (embedded modifiers fields).Everywhere P := by
  intro inner hinner
  cases hinner with
  | self => exact h
  | field hentry hinner => exact hfields _ hentry inner hinner

/-- Other modifiers change nothing below the descriptor itself. -/
theorem Everywhere.withModifiers {descriptor : Descriptor} (h : descriptor.Everywhere P)
    {modifiers : Modifiers} (hself : P (descriptor.withModifiers modifiers)) :
    (descriptor.withModifiers modifiers).Everywhere P := by
  cases descriptor with
  | scalar _ type values => exact everywhere_scalar hself
  | reference _ target => exact everywhere_reference hself
  | embedded _ fields =>
      exact everywhere_embedded hself fun entry hentry inner hinner => h inner (.field hentry hinner)
  | array _ item => exact everywhere_array hself fun inner hinner => h inner (.item hinner)

/-- **That the ways in which descriptors are put together keep a property.**  Scalars, identifiers
and blocks depend on what a document says, and are left to the scope. -/
structure Invariant (P : Descriptor → Prop) : Prop where
  /-- Arrays have it when their items do and are not required. -/
  array : ∀ item : Descriptor, P item → item.modifiers.required = false → P (.array {} item)
  /-- Embedded documents have it when their fields do, and have distinct and free names. -/
  embedded : ∀ fields : FieldMap, (∀ entry ∈ fields, P entry.2) → (Entries.keys fields).Nodup →
    (∀ name ∈ Entries.keys fields, isReserved name = false) → P (.embedded {} fields)
  /-- It does not depend on whether a field is required. -/
  setRequired : ∀ (field : Descriptor) required, P field → P (field.setRequired required)

end Descriptor

/-- A body as one descriptor: an object as the document that it is when it is embedded. -/
def SchemaTree.root : SchemaTree → Descriptor
  | .fields named => .embedded {} named
  | .simple descriptor => descriptor

/-! ### Properties -/

/-- That the definition, or what is added to it, carries the block somewhere. -/
def TypeDefinition.Carries (type : TypeDefinition) (key : String) (block : Members) : Prop :=
  (Json.obj type.body).Carries key block ∨ (Json.obj type.directives.additional).Carries key block

/-- That the definition, or what is added to it, lists the values somewhere. -/
def TypeDefinition.Lists (type : TypeDefinition) (values : List Json) : Prop :=
  (Json.obj type.body).Lists values ∨ (Json.obj type.directives.additional).Lists values

/-- That the values that are listed, the references that are mentioned and the blocks that are
carried keep a property in a scope. -/
structure Scope.Keeps (scope : Scope) (P : Descriptor → Prop) (listed : List Json → Prop)
    (mentioned : String → Prop) (carried : Members → Prop) : Prop where
  /-- Scalars have it, unless their values are not listed. -/
  scalar : ∀ type values, (∀ found, values = some found → listed found) → P (.scalar {} type values)
  /-- The identifiers that blocks ask for have it; they belong to types that can be referred to. -/
  identifier : ∀ block target, carried block → storesIdentifier block = true →
    (∀ name, target = some name → ∃ reference, scope.target? reference = some name) →
    P (.reference {} target)
  /-- Descriptors keep it when blocks add a validator and attributes. -/
  decorate : ∀ block validator field, carried block → P field → P (decorate validator block field)
  /-- What references yield has it. -/
  follow : ∀ reference place linked, mentioned reference →
    scope.follow reference place = .ok linked → (linked.descriptor false).Everywhere P
  /-- What references yield is not required. -/
  required : ∀ reference place linked, scope.follow reference place = .ok linked →
    ∀ wrap, (linked.descriptor wrap).modifiers.required = false

theorem Scope.Keeps.mono {scope : Scope} {P : Descriptor → Prop} {listed rarer : List Json → Prop}
    {mentioned fewer : String → Prop} {carried less : Members → Prop}
    (h : scope.Keeps P listed mentioned carried) (hrarer : ∀ values, rarer values → listed values)
    (hfewer : ∀ reference, fewer reference → mentioned reference)
    (hless : ∀ block, less block → carried block) : scope.Keeps P rarer fewer less where
  scalar type values hvalues := h.scalar type values fun found hfound =>
    hrarer found (hvalues found hfound)
  identifier block target hblock := h.identifier block target (hless block hblock)
  decorate block validator field hblock := h.decorate block validator field (hless block hblock)
  follow reference place linked hreference :=
    h.follow reference place linked (hfewer reference hreference)
  required := h.required

/-- What is put into a property is put to its scope by the whole. -/
theorem Scope.Keeps.inner {scope : Scope} {P : Descriptor → Prop} {key : String} {outer inner : Json}
    (h : scope.Keeps P outer.Lists outer.Mentions (outer.Carries key))
    (hsub : inner.deepMembers ⊆ outer.deepMembers) :
    scope.Keeps P inner.Lists inner.Mentions (inner.Carries key) :=
  h.mono (fun _ hvalues => hsub hvalues) (fun _ hreference => hreference.mono hsub)
    fun _ hblock => hsub hblock

section Resolving

variable {P : Descriptor → Prop} (hP : Descriptor.Invariant P)
include hP

theorem Descriptor.Everywhere.setRequired {descriptor : Descriptor} (h : descriptor.Everywhere P)
    (required : Bool) : (descriptor.setRequired required).Everywhere P :=
  h.withModifiers (hP.setRequired descriptor required (h _ (.self _)))

theorem Descriptor.Everywhere.wrapped {descriptor : Descriptor} (h : descriptor.Everywhere P)
    (hrequired : descriptor.modifiers.required = false) (wrap : Bool) :
    (descriptor.wrapped wrap).Everywhere P := by
  rw [Descriptor.wrapped]
  split
  · exact everywhere_array (hP.array descriptor (h _ (.self _)) hrequired) h
  · exact h

/-- What a reference yields for an array has the property when it has it by itself. -/
theorem Linked.everywhere_descriptor {linked : Linked}
    (h : (linked.descriptor false).Everywhere P)
    (hrequired : (linked.descriptor false).modifiers.required = false) (wrap : Bool) :
    (linked.descriptor wrap).Everywhere P := by
  cases linked with
  | element descriptor => exact Descriptor.Everywhere.wrapped hP h hrequired wrap
  | whole descriptor => exact h

/-- The document of fields that were resolved has the property when the fields do. -/
theorem everywhere_embedded_ofList {fields : List (String × Descriptor)}
    (hfree : ∀ entry ∈ fields, isReserved entry.1 = false)
    (h : ∀ entry ∈ fields, entry.2.Everywhere P) :
    (Descriptor.embedded {} (Entries.ofList fields)).Everywhere P := by
  have hfields : ∀ entry ∈ Entries.ofList fields, entry.2.Everywhere P :=
    fun entry hentry => h entry (Entries.mem_of_mem_ofList hentry)
  refine Descriptor.everywhere_embedded (hP.embedded _ ?_ (Entries.nodup_keys_ofList fields) ?_)
    hfields
  · intro entry hentry
    exact hfields entry hentry _ (.self _)
  · intro name hname
    obtain ⟨entry, hentry, rfl⟩ := List.mem_map.1 hname
    exact hfree entry (Entries.mem_of_mem_ofList hentry)

variable {scope : Scope}

/-- The identifier that a block asks for has the property. -/
theorem Scope.Keeps.identifierField {block members : Members} {place : Pointer} {field : Descriptor}
    (h : scope.Keeps P (Json.obj members).Lists (Json.obj members).Mentions
      ((Json.obj members).Carries scope.dialect.directiveKey))
    (hblock : (Json.obj members).Carries scope.dialect.directiveKey block)
    (hstores : storesIdentifier block = true)
    (hfield : scope.identifierField block members place = .ok field) : field.Everywhere P := by
  obtain ⟨target, htarget, rfl⟩ := Outcome.map_eq_ok_iff.1 hfield
  have hleads : ∀ name, target = some name → ∃ reference, scope.target? reference = some name := by
    rintro name rfl
    rw [identifierTarget] at htarget
    split at htarget
    · cases htarget
    · next reference _ =>
        split at htarget
        · next found hfound =>
            cases htarget
            exact ⟨reference, hfound⟩
        · cases htarget
  have hidentifier := h.identifier block target hblock hstores hleads
  exact Descriptor.Everywhere.wrapped hP (Descriptor.everywhere_reference hidentifier) rfl _

/-- **A property of an object yields descriptors that have the property at every depth**, when what
references yield does. -/
theorem everywhere_of_resolveField {property : Json}
    (h : scope.Keeps P property.Lists property.Mentions
      (property.Carries scope.dialect.directiveKey))
    {place : Pointer} {field : Descriptor}
    (hfield : resolveField scope property place = .ok field) : field.Everywhere P := by
  induction property using Form.part_induction scope.dialect generalizing place field with
  | other property hother =>
      rw [resolveField_of_not_isObject hother] at hfield
      cases hfield
  | object members ih =>
      rw [resolveField_obj] at hfield
      obtain ⟨form, hread, hfield⟩ := Outcome.bind_eq_ok_iff.1 hfield
      -- the induction hypothesis for the parts of this form
      have hpart {part : Json} (hpart : Form.Part scope.dialect members form part) {place : Pointer}
          {field : Descriptor} (hfield : resolveField scope part place = .ok field) :
          field.Everywhere P :=
        ih _ form part hread hpart (h.inner (Form.deepMembers_of_part hread hpart)) hfield
      have hitem {part : Json} (hitem : Form.Part scope.dialect members form part) {place : Pointer}
          {item : Descriptor} (hresolved : resolveField scope part place = .ok item) :
          (Descriptor.array {} item).Everywhere P :=
        (hpart hitem hresolved).wrapped hP (required_of_resolveField h.required hresolved) true
      cases form with
      | overridden block =>
          obtain ⟨validator, _, hfield⟩ := Outcome.bind_eq_ok_iff.1 hfield
          obtain ⟨inner, hinner, hfield⟩ := Outcome.bind_eq_ok_iff.1 hfield
          cases hfield
          have hblock : (Json.obj members).Carries scope.dialect.directiveKey block := by
            rw [Json.Carries, Json.deepMembers_obj]
            exact Json.mem_deepEntries_of_get? (Form.within_of_read hread)
          have hbase : inner.Everywhere P := by
            rw [Scope.baseField] at hinner
            split at hinner
            · next hstores => exact Scope.Keeps.identifierField hP h hblock hstores hinner
            · exact hpart (.retyped block validator) hinner
          exact hbase.withModifiers (h.decorate block validator inner hblock (hbase _ (.self _)))
      | overriddenItems items =>
          obtain ⟨item, hresolved, rfl⟩ := Outcome.map_eq_ok_iff.1 hfield
          exact hitem (.overriddenItems items) hresolved
      | referring reference =>
          obtain ⟨linked, hlinked, rfl⟩ := Outcome.map_eq_ok_iff.1 hfield
          have hfollow := h.follow reference place linked (Form.mentions_of_read hread) hlinked
          have hrequired := h.required reference place linked hlinked false
          exact Linked.everywhere_descriptor hP hfollow hrequired _
      | scalar type values =>
          cases hfield
          refine Descriptor.everywhere_scalar (h.scalar type values ?_)
          rintro found rfl
          exact Form.lists_of_read hread
      | array items =>
          obtain ⟨item, hresolved, rfl⟩ := Outcome.map_eq_ok_iff.1 hfield
          exact hitem (.items items) hresolved
      | object body =>
          obtain ⟨fields, hfields, rfl⟩ := Outcome.map_eq_ok_iff.1 hfield
          refine everywhere_embedded_ofList hP (fun _ hentry => isReserved_of_mem hfields hentry) ?_
          intro entry hentry
          obtain ⟨property, field, required, hmem, hfield, heq⟩ :=
            resolvedFrom_of_mem hfields hentry
          rw [heq]
          exact (hpart (.property body _ hmem) hfield).setRequired hP required

/-- The listed properties yield fields that have the property at every depth. -/
theorem everywhere_of_resolveProperties {properties : Members}
    (h : scope.Keeps P (Json.obj properties).Lists (Json.obj properties).Mentions
      ((Json.obj properties).Carries scope.dialect.directiveKey))
    {rule : Required} {place : Pointer} {fields : List (String × Descriptor)}
    (hfields : resolveProperties scope rule place properties = .ok fields)
    {entry : String × Descriptor} (hentry : entry ∈ fields) : entry.2.Everywhere P := by
  obtain ⟨property, field, required, hmem, hfield, heq⟩ := resolvedFrom_of_mem hfields hentry
  rw [heq]
  have hproperty := h.inner (Json.deepMembers_subset_of_mem (Json.mem_deepEntries_of_mem hmem))
  exact (everywhere_of_resolveField hP hproperty hfield).setRequired hP required

/-- **So does a definition.** -/
theorem Scope.everywhere_of_tree {type : TypeDefinition}
    (h : scope.Keeps P type.Lists type.Mentions (type.Carries scope.dialect.directiveKey))
    {name : String} {tree : SchemaTree} (htree : scope.tree name type = .ok tree) :
    tree.root.Everywhere P := by
  have hbody : scope.Keeps P (Json.obj type.body).Lists (Json.obj type.body).Mentions
      ((Json.obj type.body).Carries scope.dialect.directiveKey) :=
    h.mono (fun _ => .inl) (fun _ => .inl) fun _ => .inl
  have hadditional : scope.Keeps P (Json.obj type.directives.additional).Lists
      (Json.obj type.directives.additional).Mentions
      ((Json.obj type.directives.additional).Carries scope.dialect.directiveKey) :=
    h.mono (fun _ => .inr) (fun _ => .inr) fun _ => .inr
  rw [Scope.tree] at htree
  split at htree
  · obtain ⟨named, hnamed, rfl⟩ := Outcome.map_eq_ok_iff.1 htree
    obtain ⟨rule, declared, added, _, hdeclared, hadded, rfl⟩ :=
      Scope.resolved_of_objectFields hnamed
    have hproperties := deepMembers_listedProperties_subset type.body
    refine everywhere_embedded_ofList hP ?_ ?_
    · intro entry hentry
      rcases List.mem_append.1 hentry with hentry | hentry
      · exact isReserved_of_mem hdeclared hentry
      · exact isReserved_of_mem hadded hentry
    · intro entry hentry
      rcases List.mem_append.1 hentry with hentry | hentry
      · exact everywhere_of_resolveProperties hP (hbody.inner hproperties) hdeclared hentry
      · exact everywhere_of_resolveProperties hP hadditional hadded hentry
  · obtain ⟨whole, hwhole, rfl⟩ := Outcome.map_eq_ok_iff.1 htree
    obtain ⟨field, hfield, hwhole⟩ := Outcome.bind_eq_ok_iff.1 hwhole
    obtain ⟨rule, _, hwhole⟩ := Outcome.bind_eq_ok_iff.1 hwhole
    cases hwhole
    have hbare := hbody.inner (Json.deepMembers_erase_subset type.body scope.dialect.directiveKey)
    exact (everywhere_of_resolveField hP hbare hfield).setRequired hP _

end Resolving

/-! ### Schemas -/

/-- The schema of a type has its name, its body and its directives; the warnings bear its name. -/
theorem bindType_eq_ok {name : String} {tree : SchemaTree} {directives : TypeDirectives}
    {validators : Validators} {schema : CompiledSchema} {warnings : List IndexWarning}
    (h : bindType name tree directives validators = .ok (schema, warnings)) :
    schema = ⟨name, tree, directives.options, directives.indexes, directives.validatorModule⟩ ∧
      ∀ warning ∈ warnings, warning.schema = name := by
  obtain ⟨_, _, hschema⟩ := Outcome.map_eq_ok_iff.1 h
  cases hschema
  refine ⟨rfl, fun warning hwarning => ?_⟩
  obtain ⟨field, _, hfield⟩ := List.mem_filterMap.1 hwarning
  split at hfield
  · cases hfield
  · cases hfield
    rfl

/-- Compiling types that start with one that is not left out. -/
theorem Catalog.compileTypes_cons_eq_ok_iff {catalog : Catalog} {validators : Validators}
    {name : String} {type : TypeDefinition} {rest : Entries TypeDefinition}
    {compilation : Compilation} (hexclude : type.directives.exclude = false) :
    catalog.compileTypes validators ((name, type) :: rest) = .ok compilation ↔
      ∃ tree schema warnings others, catalog.compileDefinition [] name type = .ok tree ∧
        bindType name tree type.directives validators = .ok (schema, warnings) ∧
        catalog.compileTypes validators rest = .ok others ∧
        compilation = ⟨schema :: others.schemas, warnings ++ others.warnings⟩ := by
  rw [compileTypes, if_neg (by simp [hexclude]), Outcome.bind_eq_ok_iff]
  constructor
  · rintro ⟨tree, htree, h⟩
    obtain ⟨⟨schema, warnings⟩, hbound, h⟩ := Outcome.bind_eq_ok_iff.1 h
    obtain ⟨others, hothers, h⟩ := Outcome.bind_eq_ok_iff.1 h
    exact ⟨tree, schema, warnings, others, htree, hbound, hothers, (Except.ok.inj h).symm⟩
  · rintro ⟨tree, schema, warnings, others, htree, hbound, hothers, rfl⟩
    exact ⟨tree, htree, Outcome.bind_eq_ok_iff.2
      ⟨(schema, warnings), hbound, Outcome.bind_eq_ok_iff.2 ⟨others, hothers, rfl⟩⟩⟩

/-- Every compiled schema is that of a definition: it has its body, and is bound with its
directives. -/
theorem Catalog.exists_of_mem_schemas {catalog : Catalog} {validators : Validators}
    {compilation : Compilation} (h : catalog.compile validators = .ok compilation)
    {schema : CompiledSchema} (hschema : schema ∈ compilation.schemas) :
    ∃ name type, (name, type) ∈ catalog.types ∧
      catalog.compileDefinition [] name type = .ok schema.tree ∧
      ∃ warnings, bindType name schema.tree type.directives validators = .ok (schema, warnings) := by
  rw [Catalog.compile] at h
  generalize catalog.types = types at h
  induction types generalizing compilation with
  | nil =>
      cases h
      cases hschema
  | cons first rest ih =>
      obtain ⟨name, type⟩ := first
      -- a schema of the others comes from a later definition
      have hrest {others : Compilation} (hothers : catalog.compileTypes validators rest = .ok others)
          (hmem : schema ∈ others.schemas) : ∃ name' type', (name', type') ∈ (name, type) :: rest ∧
            catalog.compileDefinition [] name' type' = .ok schema.tree ∧
            ∃ warnings, bindType name' schema.tree type'.directives validators =
              .ok (schema, warnings) := by
        obtain ⟨name', type', htype, hcompiled⟩ := ih hmem hothers
        exact ⟨name', type', List.mem_cons_of_mem _ htype, hcompiled⟩
      cases hexclude : type.directives.exclude with
      | true =>
          rw [compileTypes, if_pos hexclude] at h
          exact hrest h hschema
      | false =>
          obtain ⟨tree, bound, warnings, others, htree, hbound, hothers, rfl⟩ :=
            (compileTypes_cons_eq_ok_iff hexclude).1 h
          rcases List.mem_cons.1 hschema with rfl | hschema
          · have hsame : schema.tree = tree := by rw [(bindType_eq_ok hbound).1]
            rw [← hsame] at htree hbound
            exact ⟨name, type, List.mem_cons_self .., htree, warnings, hbound⟩
          · exact hrest hothers hschema

/-! ### References -/

/-- That the listed values, the references and the blocks of a catalog keep a property: `leads` holds
between definitions along references, and what leads back to itself may become an identifier. -/
structure Catalog.Keeps (catalog : Catalog) (leads : String → String → Prop)
    (P : Descriptor → Prop) : Prop where
  /-- Scalars have it; the values that they are restricted to are listed in a definition. -/
  scalar : ∀ name type primitive values, (name, type) ∈ catalog.types →
    (∀ found, values = some found → type.Lists found) → P (.scalar {} primitive values)
  /-- A definition leads to those that it refers to. -/
  refers : ∀ name type reference target, (name, type) ∈ catalog.types → type.Mentions reference →
    catalog.target? reference = some target → leads name target
  /-- And on to those that they lead to. -/
  trans : ∀ first second third, leads first second → leads second third → leads first third
  /-- Identifiers of types that lead back to themselves have the property. -/
  cyclic : ∀ name, leads name name → P (.reference {} (some name))
  /-- So have the identifiers that blocks ask for; they belong to definitions. -/
  identifier : ∀ name type block target, (name, type) ∈ catalog.types →
    type.Carries catalog.dialect.directiveKey block → storesIdentifier block = true →
    (∀ other, target = some other → other ∈ Entries.keys catalog.types) → P (.reference {} target)
  /-- And descriptors keep the property when blocks add a validator and attributes. -/
  decorate : ∀ name type block validator field, (name, type) ∈ catalog.types →
    type.Carries catalog.dialect.directiveKey block → P field → P (decorate validator block field)

namespace Catalog.Keeps

variable {catalog : Catalog} {leads : String → String → Prop} {P : Descriptor → Prop}

/-- The scope of a definition has the property when references do. -/
theorem scope (h : catalog.Keeps leads P) {stack : List String} {name : String}
    {type : TypeDefinition} (htype : (name, type) ∈ catalog.types)
    (hfollow : ∀ reference place linked, type.Mentions reference →
      catalog.follow stack reference place = .ok linked → (linked.descriptor false).Everywhere P) :
    (catalog.scope stack).Keeps P type.Lists type.Mentions
      (type.Carries catalog.dialect.directiveKey) where
  scalar primitive values := h.scalar name type primitive values htype
  identifier block target hblock hstores hleads := by
    refine h.identifier name type block target htype hblock hstores ?_
    intro other hother
    obtain ⟨reference, hreference⟩ := hleads other hother
    have hsome := (target?_eq_some_iff.1 hreference).2
    exact Entries.isSome_get?_iff.1 hsome
  decorate block validator field := h.decorate name type block validator field htype
  follow := hfollow
  required := catalog.required_of_follow stack

variable (hP : Descriptor.Invariant P)
include hP

/-- What a definition yields for a reference has the property when references in it do. -/
theorem enter {stack : List String} {name : String} {type : TypeDefinition} {linked : Linked}
    (h : (catalog.scope stack).Keeps P type.Lists type.Mentions
      (type.Carries catalog.dialect.directiveKey))
    (hlinked : catalog.enter stack name type = .ok linked) :
    (linked.descriptor false).Everywhere P := by
  rw [Catalog.enter] at hlinked
  split at hlinked
  · obtain ⟨field, hfield, rfl⟩ := Outcome.map_eq_ok_iff.1 hlinked
    have hbody : (catalog.scope stack).Keeps P (Json.obj type.body).Lists
        (Json.obj type.body).Mentions ((Json.obj type.body).Carries catalog.dialect.directiveKey) :=
      h.mono (fun _ => .inl) (fun _ => .inl) fun _ => .inl
    exact everywhere_of_resolveField hP (hbody.inner (Json.deepMembers_erase_subset _ _)) hfield
  · obtain ⟨tree, htree, rfl⟩ := Outcome.map_eq_ok_iff.1 hlinked
    have hroot := Scope.everywhere_of_tree hP h htree
    cases tree with
    | fields named => exact hroot
    | simple descriptor => exact hroot.setRequired hP false

/-- **What a reference yields has the property at every depth**, when everything on the stack leads
to the definition that is referred to. -/
theorem follow (h : catalog.Keeps leads P) (stack : List String) (reference : String)
    (place : Pointer) :
    (∀ target, catalog.target? reference = some target → ∀ other ∈ stack, leads other target) →
      ∀ linked, catalog.follow stack reference place = .ok linked →
        (linked.descriptor false).Everywhere P := by
  induction stack, reference, place using follow_induction catalog with
  | unresolved stack reference place hfind =>
      intro _ linked hlinked
      cases hlinked
  | cyclic stack reference place name type hfind hmem =>
      intro hstack linked hlinked
      cases hlinked
      have htarget : catalog.target? reference = some name := by simp [target?, hfind]
      exact Descriptor.everywhere_reference (h.cyclic name (hstack name htarget name hmem))
  | entered stack reference place name type hfind hmem ih =>
      intro hstack linked hlinked
      have htarget : catalog.target? reference = some name := by simp [target?, hfind]
      have htype := find?_mem hfind
      refine enter hP (h.scope htype ?_) hlinked
      intro inner place' linked' hmentions hlinked'
      refine ih inner place' ?_ linked' hlinked'
      -- what led to the definition also leads to those that it refers to
      intro target hinner other hother
      have hstep := h.refers name type inner target htype hmentions hinner
      rcases List.mem_cons.1 hother with rfl | hother
      · exact hstep
      · exact h.trans other name target (hstack name htarget other hother) hstep

/-- The body of a definition has the property at every depth. -/
theorem compileDefinition (h : catalog.Keeps leads P) {name : String} {type : TypeDefinition}
    (htype : (name, type) ∈ catalog.types) {tree : SchemaTree}
    (htree : catalog.compileDefinition [] name type = .ok tree) : tree.root.Everywhere P := by
  refine Scope.everywhere_of_tree hP (h.scope htype ?_) htree
  intro reference place linked hmentions hlinked
  refine follow hP h [name] reference place ?_ linked hlinked
  intro target htarget other hother
  rw [List.mem_singleton] at hother
  subst hother
  exact h.refers other type reference target htype hmentions htarget

/-- **All schemas of a catalog have the property at every depth.** -/
theorem compile (h : catalog.Keeps leads P) {validators : Validators} {compilation : Compilation}
    (hcompile : catalog.compile validators = .ok compilation) :
    ∀ schema ∈ compilation.schemas, schema.tree.root.Everywhere P := by
  intro schema hschema
  obtain ⟨name, type, htype, htree, _⟩ := exists_of_mem_schemas hcompile hschema
  exact compileDefinition hP h htype htree

end Catalog.Keeps

end StoreSchema
