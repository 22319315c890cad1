/-
**Validators only have to be registered.**

Compilation asks the registry of validators one thing: whether the names that blocks bind are in it.
It asks type by type, right after a body is compiled, and nothing that it yields depends on the
answer.  So a document that compiles with one registry yields the same schemas with every other one
that has the names which its schemas bind, and with any other the cause is a name that is missing.

Main definitions:

* `Descriptor.Binds`, `Schemas.Bind` — that a validator guards a field, at any depth.

Main results:

* `Descriptor.binds_iff` — the validators that are looked up are those that guard a field;
* `bindValidators_cases` — a body is bound, or names a validator that is not registered;
* `Catalog.compileTypes_cases` — types that compile with one registry compile to the same schemas
  with another, or a validator is missing there;
* `compile_of_other_validators` — **the schemas of a document do not depend on the registry**, and
  there are none exactly when a validator is missing.
-/

import StoreSchema.Proofs.Bindings
import StoreSchema.Proofs.Regular

set_option relaxedAutoImplicit false
set_option autoImplicit false

namespace StoreSchema

/-! ### Guarded fields -/

namespace Descriptor

/-- That the validator called `name` guards a descriptor, or one that stands in it at some depth. -/
def Binds (descriptor : Descriptor) (name : String) : Prop :=
  ∃ field, descriptor.Contains field ∧ field.modifiers.validator = some name

theorem binds_of_mem_ownBinding {descriptor : Descriptor} {place : Pointer} {binding : Binding}
    (h : binding ∈ descriptor.ownBinding place) : descriptor.Binds binding.validator := by
  obtain ⟨name, hname, rfl⟩ := List.mem_map.1 h
  exact ⟨descriptor, .self descriptor, Option.mem_toList.1 hname⟩

theorem exists_mem_ownBinding {descriptor : Descriptor} {name : String}
    (h : descriptor.modifiers.validator = some name) (place : Pointer) :
    ∃ binding ∈ descriptor.ownBinding place, binding.validator = name :=
  ⟨⟨place, name⟩, List.mem_map.2 ⟨name, Option.mem_toList.2 h, rfl⟩, rfl⟩

mutual

theorem binds_of_mem_bindings : ∀ {descriptor : Descriptor} {place : Pointer} {binding : Binding},
    binding ∈ descriptor.bindings place → descriptor.Binds binding.validator
  | .scalar .., _, _, h => by
      rw [bindings] at h
      exact binds_of_mem_ownBinding h
  | .reference .., _, _, h => by
      rw [bindings] at h
      exact binds_of_mem_ownBinding h
  | .embedded _ fields, _, _, h => by
      rw [bindings] at h
      rcases List.mem_append.1 h with h | h
      · exact binds_of_mem_ownBinding h
      · obtain ⟨entry, hentry, field, hfield, hname⟩ := exists_binds_of_mem_fieldBindings h
        exact ⟨field, .field hentry hfield, hname⟩
  | .array _ item, _, _, h => by
      rw [bindings] at h
      rcases List.mem_append.1 h with h | h
      · exact binds_of_mem_ownBinding h
      · obtain ⟨field, hfield, hname⟩ := binds_of_mem_bindings h
        exact ⟨field, .item hfield, hname⟩

theorem exists_binds_of_mem_fieldBindings : ∀ {fields : List (String × Descriptor)}
    {place : Pointer} {binding : Binding}, binding ∈ fieldBindings place fields →
      ∃ entry ∈ fields, entry.2.Binds binding.validator
  | [], _, _, h => by
      rw [fieldBindings] at h
      cases h
  | (name, field) :: rest, _, _, h => by
      rw [fieldBindings] at h
      rcases List.mem_append.1 h with h | h
      · exact ⟨(name, field), List.mem_cons_self .., binds_of_mem_bindings h⟩
      · obtain ⟨entry, hentry, hbinds⟩ := exists_binds_of_mem_fieldBindings h
        exact ⟨entry, List.mem_cons_of_mem _ hentry, hbinds⟩

end

/-- What is bound in a field is bound where the fields are. -/
theorem exists_mem_fieldBindings {fields : List (String × Descriptor)}
    {entry : String × Descriptor} (hentry : entry ∈ fields) {name : String}
    (h : ∀ place, ∃ binding ∈ entry.2.bindings place, binding.validator = name) (place : Pointer) :
    ∃ binding ∈ fieldBindings place fields, binding.validator = name := by
  induction fields with
  | nil => cases hentry
  | cons first rest ih =>
      obtain ⟨field, descriptor⟩ := first
      rw [fieldBindings]
      rcases List.mem_cons.1 hentry with rfl | hentry
      · obtain ⟨binding, hbinding, hname⟩ := h (place.child field)
        exact ⟨binding, List.mem_append_left _ hbinding, hname⟩
      · obtain ⟨binding, hbinding, hname⟩ := ih hentry
        exact ⟨binding, List.mem_append_right _ hbinding, hname⟩

/-- The validator of a descriptor is bound wherever the descriptor stands. -/
theorem exists_mem_bindings {descriptor field : Descriptor} (hfield : descriptor.Contains field)
    {name : String} (hname : field.modifiers.validator = some name) (place : Pointer) :
    ∃ binding ∈ descriptor.bindings place, binding.validator = name := by
  induction hfield generalizing place with
  | self descriptor =>
      obtain ⟨binding, hbinding, hvalidator⟩ := exists_mem_ownBinding hname place
      refine ⟨binding, ?_, hvalidator⟩
      cases descriptor with
      | scalar => rwa [bindings]
      | reference => rwa [bindings]
      | embedded => rw [bindings]; exact List.mem_append_left _ hbinding
      | array => rw [bindings]; exact List.mem_append_left _ hbinding
  | item _ ih =>
      obtain ⟨binding, hbinding, hvalidator⟩ := ih hname (place.child "items")
      rw [bindings]
      exact ⟨binding, List.mem_append_right _ hbinding, hvalidator⟩
  | field hentry _ ih =>
      obtain ⟨binding, hbinding, hvalidator⟩ :=
        exists_mem_fieldBindings hentry (ih hname) (place.child "properties")
      rw [bindings]
      exact ⟨binding, List.mem_append_right _ hbinding, hvalidator⟩

/-- **The validators that are looked up are those that guard a field.** -/
theorem binds_iff {descriptor : Descriptor} {name : String} (place : Pointer) :
    descriptor.Binds name ↔ ∃ binding ∈ descriptor.bindings place, binding.validator = name := by
  constructor
  · rintro ⟨field, hfield, hname⟩
    exact exists_mem_bindings hfield hname place
  · rintro ⟨binding, hbinding, rfl⟩
    exact binds_of_mem_bindings hbinding

end Descriptor

/-- A body is bound when all the validators that it names are registered; otherwise one that is not
is the cause. -/
theorem bindValidators_cases (tree : SchemaTree) (validators : Validators) (place : Pointer) :
    (bindValidators tree validators place = .ok () ∧
        ∀ name, tree.root.Binds name → name ∈ Entries.keys validators) ∨
      ∃ missing name, tree.root.Binds name ∧ name ∉ Entries.keys validators ∧
        bindValidators tree validators place = .error (.validatorNotFound missing name) := by
  rw [bindValidators]
  cases hfind : (tree.bindings place).find? fun binding =>
      !Entries.contains validators binding.validator with
  | none =>
      refine .inl ⟨rfl, fun name hname => ?_⟩
      obtain ⟨binding, hbinding, rfl⟩ := (Descriptor.binds_iff place).1 hname
      rw [SchemaTree.bindings_root] at hbinding
      have hfound := List.find?_eq_none.1 hfind binding hbinding
      exact Entries.contains_iff.1 (by simpa using hfound)
  | some binding =>
      refine .inr ⟨binding.place, binding.validator, ?_, ?_, rfl⟩
      · refine (Descriptor.binds_iff place).2 ⟨binding, ?_, rfl⟩
        rw [SchemaTree.bindings_root]
        exact List.mem_of_find?_eq_some hfind
      · have hmissing := List.find?_some hfind
        rw [← Entries.contains_iff]
        simpa using hmissing

/-! ### Schemas -/

/-- That the validator called `name` guards a field of a schema, at any depth. -/
def Schemas.Bind (schemas : Schemas) (name : String) : Prop :=
  ∃ schema ∈ schemas, schema.tree.root.Binds name

namespace Schemas

variable {schema : CompiledSchema} {others : Schemas} {name : String}

theorem not_bind_nil : ¬Bind [] name := by
  rintro ⟨schema, hschema, _⟩
  cases hschema

theorem bind_cons_iff :
    Bind (schema :: others) name ↔ schema.tree.root.Binds name ∨ Bind others name := by
  simp [Bind]

end Schemas

/-- A type that is bound with one registry is bound to the same schema with another, unless a
validator that its body names is missing there. -/
theorem bindType_cases {name : String} {tree : SchemaTree} {directives : TypeDirectives}
    {first : Validators} {schema : CompiledSchema} {warnings : List IndexWarning}
    (h : bindType name tree directives first = .ok (schema, warnings)) (second : Validators) :
    (bindType name tree directives second = .ok (schema, warnings) ∧
        ∀ bound, schema.tree.root.Binds bound → bound ∈ Entries.keys second) ∨
      ∃ place missing, schema.tree.root.Binds missing ∧ missing ∉ Entries.keys second ∧
        bindType name tree directives second = .error (.validatorNotFound place missing) := by
  obtain ⟨_, _, hschema⟩ := Outcome.map_eq_ok_iff.1 h
  have htree : tree = schema.tree := congrArg (fun bound => bound.1.tree) hschema
  rw [bindType, hschema, ← htree]
  rcases bindValidators_cases tree second (Pointer.definition name) with
    ⟨hbinds, hregistered⟩ | ⟨place, missing, hbinds, hmissing, herror⟩
  · exact .inl ⟨by rw [hbinds]; rfl, hregistered⟩
  · exact .inr ⟨place, missing, hbinds, hmissing, by rw [herror]; rfl⟩

namespace Catalog

variable {catalog : Catalog} {first : Validators}

/-- **Types that compile with one registry compile to the same schemas with another**, unless a
validator that a schema binds is missing there. -/
theorem compileTypes_cases {types : Entries TypeDefinition} {compilation : Compilation}
    (h : catalog.compileTypes first types = .ok compilation) (second : Validators) :
    (catalog.compileTypes second types = .ok compilation ∧
        ∀ name, compilation.schemas.Bind name → name ∈ Entries.keys second) ∨
      ∃ place name, compilation.schemas.Bind name ∧ name ∉ Entries.keys second ∧
        catalog.compileTypes second types = .error (.validatorNotFound place name) := by
  induction types generalizing compilation with
  | nil =>
      cases h
      exact .inl ⟨rfl, fun name hname => absurd hname Schemas.not_bind_nil⟩
  | cons entry rest ih =>
      obtain ⟨name, type⟩ := entry
      cases hexclude : type.directives.exclude with
      | true =>
          rw [compileTypes, if_pos hexclude] at h ⊢
          exact ih h
      | false =>
          obtain ⟨tree, schema, warnings, others, htree, hbound, hothers, rfl⟩ :=
            (compileTypes_cons_eq_ok_iff hexclude).1 h
          -- the body is compiled as before, then it is bound, and then the other types follow
          rcases bindType_cases hbound second with
            ⟨hsame, hregistered⟩ | ⟨place, missing, hbinds, hmissing, herror⟩
          · rcases ih hothers with ⟨hrest, hothers⟩ | ⟨place, missing, hbind, hmissing, herror⟩
            · refine .inl ⟨(compileTypes_cons_eq_ok_iff hexclude).2
                ⟨tree, schema, warnings, others, htree, hsame, hrest, rfl⟩, fun bound hbound => ?_⟩
              rcases Schemas.bind_cons_iff.1 hbound with hown | hother
              · exact hregistered bound hown
              · exact hothers bound hother
            · refine .inr ⟨place, missing, Schemas.bind_cons_iff.2 (.inr hbind), hmissing, ?_⟩
              rw [compileTypes, if_neg (by simp [hexclude]), htree]
              change bindType name tree type.directives second >>= _ = _
              rw [hsame]
              change catalog.compileTypes second rest >>= _ = _
              rw [herror]
              rfl
          · refine .inr ⟨place, missing, Schemas.bind_cons_iff.2 (.inl hbinds), hmissing, ?_⟩
            rw [compileTypes, if_neg (by simp [hexclude]), htree]
            change bindType name tree type.directives second >>= _ = _
            rw [herror]
            rfl

end Catalog

/-- **The schemas of a document do not depend on the registry of validators**: with another one they
are the same or there are none; they are there exactly when every validator that guards one of their
fields is registered, and otherwise the cause is such a validator that is not. -/
theorem compile_of_other_validators {source : Source} {overlay : Option Json} {first : Validators}
    {compilation : Compilation}
    (h : compile source { overlay, validators := first } = .ok compilation) (second : Validators) :
    (∀ other, compile source { overlay, validators := second } = .ok other →
        other = compilation) ∧
      ((∃ other, compile source { overlay, validators := second } = .ok other) ↔
        ∀ name, compilation.schemas.Bind name → name ∈ Entries.keys second) ∧
      ((¬∀ name, compilation.schemas.Bind name → name ∈ Entries.keys second) →
        ∃ place name, compilation.schemas.Bind name ∧ name ∉ Entries.keys second ∧
          compile source { overlay, validators := second } =
            .error (.validatorNotFound place name)) := by
  obtain ⟨document, catalog, hdocument, hcatalog, hcompile⟩ := compile_eq_ok_iff.1 h
  have hsecond : compile source { overlay, validators := second } = catalog.compile second := by
    rw [compile, hdocument]
    change catalogOf document overlay >>= _ = _
    rw [hcatalog]
    rfl
  rw [hsecond]
  rcases Catalog.compileTypes_cases hcompile second with
    ⟨hsame, hregistered⟩ | ⟨place, name, hbind, hmissing, herror⟩
  · have hsame : catalog.compile second = .ok compilation := hsame
    rw [hsame]
    refine ⟨fun other hother => (Except.ok.inj hother).symm, ?_, ?_⟩
    · exact iff_of_true ⟨compilation, rfl⟩ hregistered
    · exact fun hnot => absurd hregistered hnot
  · have herror : catalog.compile second = .error (.validatorNotFound place name) := herror
    rw [herror]
    have hnot : ¬∀ name, compilation.schemas.Bind name → name ∈ Entries.keys second :=
      fun hregistered => hmissing (hregistered name hbind)
    refine ⟨?_, ?_, fun _ => ⟨place, name, hbind, hmissing, rfl⟩⟩
    · intro other hother
      cases hother
    · refine iff_of_false ?_ hnot
      rintro ⟨other, hother⟩
      cases hother

/-- Tags are strings that the validator `isTag` guards. -/
def tagItems : Members :=
  [("type", .str "string"), ("x-swagger-mongoose", .obj [("validator", .str "isTag")])]

/-- An array of tags. -/
def tagsBody : Members := [("type", .str "array"), ("items", .obj tagItems)]

/-- A document of tags. -/
def tagsDocument : Members :=
  [("openapi", .str "3.0"), ("definitions", .obj [("Tags", .obj tagsBody)])]

/-- The definitions of `tagsDocument`. -/
def tagsCatalog : Catalog where
  dialect := .extended
  types := [("Tags", ⟨tagsBody, {}⟩)]

/-- A single tag. -/
def tagField : Descriptor := .scalar { validator := some "isTag" } .string none

/-- The schema of an array of tags. -/
def tagsSchema : CompiledSchema where
  name := "Tags"
  tree := .simple (.array {} tagField)
  options := []
  indexes := []
  validatorModule := none

theorem resolveField_tagItems (place : Pointer) :
    resolveField (tagsCatalog.scope ["Tags"]) (.obj tagItems) place = .ok tagField := by
  have hbare : resolveField (tagsCatalog.scope ["Tags"])
      (.obj (retyped "x-swagger-mongoose" (some "isTag") [("validator", .str "isTag")] tagItems))
      place = .ok (.scalar {} .string none) := by
    have hread : Form.read (tagsCatalog.scope ["Tags"]).dialect
        (retyped "x-swagger-mongoose" (some "isTag") [("validator", .str "isTag")] tagItems) place =
          .ok (.scalar .string none) := rfl
    rw [resolveField_of_read hread]
    rfl
  have hread : Form.read (tagsCatalog.scope ["Tags"]).dialect tagItems place =
      .ok (.overridden [("validator", .str "isTag")]) := rfl
  rw [resolveField_of_read hread]
  change (resolveField (tagsCatalog.scope ["Tags"])
    (.obj (retyped "x-swagger-mongoose" (some "isTag") [("validator", .str "isTag")] tagItems))
      place >>= fun field =>
        return decorate (some "isTag") [("validator", .str "isTag")] field) = _
  rw [hbare]
  rfl

theorem compile_tagsDocument :
    compile (.parsed (.obj tagsDocument)) { validators := Validators.permissive ["isTag"] } =
      .ok ⟨[tagsSchema], []⟩ := by
  have hread (place : Pointer) : Form.read (tagsCatalog.scope ["Tags"]).dialect tagsBody place =
      .ok (.overriddenItems tagItems) := rfl
  have htags : tagsCatalog.compileDefinition [] "Tags" ⟨tagsBody, {}⟩ = .ok tagsSchema.tree := by
    change ((do
      let field ← resolveField (tagsCatalog.scope ["Tags"]) (.obj tagsBody) _
      let rule ← Required.read tagsBody _
      return field.setRequired (rule.appliesTo "Tags")) : Outcome Descriptor).map
        SchemaTree.simple = _
    rw [resolveField_of_read (hread _)]
    change ((resolveField (tagsCatalog.scope ["Tags"]) (.obj tagItems) _).map _ >>= _).map _ = _
    rw [resolveField_tagItems]
    rfl
  have hcompile : tagsCatalog.compile (Validators.permissive ["isTag"]) =
      .ok ⟨[tagsSchema], []⟩ := by
    change (tagsCatalog.compileDefinition [] "Tags" ⟨tagsBody, {}⟩ >>= _) = _
    rw [htags]
    rfl
  exact compile_eq_ok_iff.2 ⟨tagsDocument, tagsCatalog, rfl, rfl, hcompile⟩

/-- Without the validator of its elements the array of tags does not compile. -/
theorem tagsDocument_without_isTag :
    compile (.parsed (.obj tagsDocument)) { validators := Validators.permissive ["isTag"] } =
        .ok ⟨[tagsSchema], []⟩ ∧
      ∃ place, compile (.parsed (.obj tagsDocument)) { validators := [] } =
        .error (.validatorNotFound place "isTag") := by
  refine ⟨compile_tagsDocument, ?_⟩
  have hbind : Schemas.Bind [tagsSchema] "isTag" :=
    ⟨tagsSchema, List.mem_cons_self .., tagField, .item (.self _), rfl⟩
  obtain ⟨_, _, hmissing⟩ := compile_of_other_validators compile_tagsDocument []
  obtain ⟨place, name, hname, _, herror⟩ := hmissing fun h => List.not_mem_nil (h "isTag" hbind)
  -- nothing else is bound
  obtain ⟨schema, hschema, field, hfield, hvalidator⟩ := hname
  obtain rfl := List.mem_singleton.1 hschema
  cases hfield with
  | self => cases hvalidator
  | item hfield =>
      cases hfield
      cases hvalidator
      exact ⟨place, herror⟩

end StoreSchema
