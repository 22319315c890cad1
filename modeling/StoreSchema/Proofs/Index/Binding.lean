/-
**Binding indexes, and the fields that they name.**

Indexes are bound to a schema one after the other.  Each of their fields is looked up by its dotted
path, and one that is not found gives rise to a warning, but is kept: all that happens to the schema
is that the indexes are put behind those that it has.

A dotted path leads from field to field.  The first segment names a field of the body, which has to
be an object; every further one names a field of the embedded document that the field before is,
below any number of arrays.  Scalars and identifiers end the path.

Main definitions:

* `Descriptor.Encloses` — the embedded document below the arrays of a descriptor;
* `LeadsAlong` — **that names lead from fields to a descriptor**;
* `StandsUnder` — that a descriptor stands in fields, under names;
* `CompiledSchema.bindIndex`, `CompiledSchema.bindEach` — indexes bound one by one.

Main results:

* `SchemaTree.fieldAt?_eq_some_iff` — **what dotted paths lead to**;
* `SchemaTree.fieldAt?_of_standsUnder` — every field is found under its dotted path;
* `CompiledSchema.bindEach_eq` — one by one, indexes are bound as all at once;
* `CompiledSchema.indexes_bound` — **what binding does, and which fields it finds**.
-/

import StoreSchema.Proofs.Everywhere

set_option relaxedAutoImplicit false
set_option autoImplicit false

namespace StoreSchema

/-! ### Paths through documents -/

/-- **That a descriptor is an embedded document with these fields**, below any number of arrays. -/
inductive Descriptor.Encloses : Descriptor → FieldMap → Prop where
  | embedded (modifiers : Modifiers) (fields : FieldMap) :
      Encloses (.embedded modifiers fields) fields
  | array (modifiers : Modifiers) {item : Descriptor} {fields : FieldMap}
      (h : Encloses item fields) : Encloses (.array modifiers item) fields

/-- **That names lead from fields to a descriptor**: each is the name of a field in the document
that the field before encloses. -/
inductive LeadsAlong : FieldMap → List String → Descriptor → Prop where
  | last {fields : FieldMap} {name : String} {field : Descriptor}
      (h : Entries.get? fields name = some field) : LeadsAlong fields [name] field
  | next {fields inner : FieldMap} {name : String} {names : List String}
      {field target : Descriptor} (h : Entries.get? fields name = some field)
      (hencloses : field.Encloses inner) (hrest : LeadsAlong inner names target) :
      LeadsAlong fields (name :: names) target

theorem Descriptor.innerFields?_eq_some_iff {descriptor : Descriptor} {fields : FieldMap} :
    descriptor.innerFields? = some fields ↔ descriptor.Encloses fields := by
  constructor
  · intro h
    fun_induction Descriptor.innerFields? descriptor with
    | case1 modifiers item ih => exact .array modifiers (ih h)
    | case2 modifiers inner =>
        cases h
        exact .embedded modifiers _
    | case3 => cases h
  · intro h
    induction h with
    | embedded => rfl
    | array modifiers _ ih => exact ih

/-- Names lead to what is found by descending along them. -/
theorem leadsAlong_iff {fields : FieldMap} {name : String} {names : List String}
    {target : Descriptor} :
    LeadsAlong fields (name :: names) target ↔
      ∃ field, Entries.get? fields name = some field ∧ field.descend? names = some target := by
  induction names generalizing fields name with
  | nil =>
      constructor
      · rintro (h | ⟨_, _, hrest⟩)
        · exact ⟨target, h, rfl⟩
        · cases hrest
      · rintro ⟨field, hget, hdescend⟩
        cases hdescend
        exact .last hget
  | cons second names ih =>
      constructor
      · rintro (_ | ⟨hget, hencloses, hrest⟩)
        obtain ⟨next, hnext, hdescend⟩ := ih.1 hrest
        refine ⟨_, hget, ?_⟩
        rw [Descriptor.descend?, Descriptor.innerFields?_eq_some_iff.2 hencloses, Option.bind_some,
          hnext, Option.bind_some, hdescend]
      · rintro ⟨field, hget, hdescend⟩
        rw [Descriptor.descend?, Option.bind_eq_some_iff] at hdescend
        obtain ⟨next, hnext, hdescend⟩ := hdescend
        obtain ⟨inner, hinner, hnext⟩ := Option.bind_eq_some_iff.1 hnext
        exact .next hget (Descriptor.innerFields?_eq_some_iff.1 hinner)
          (ih.2 ⟨next, hnext, hdescend⟩)

/-- **What dotted paths lead to**: from the fields of an object, along the segments of the path. -/
theorem SchemaTree.fieldAt?_eq_some_iff {tree : SchemaTree} {path : String} {field : Descriptor} :
    tree.fieldAt? path = some field ↔
      ∃ fields, tree = .fields fields ∧ LeadsAlong fields (Text.dotted path) field := by
  rw [fieldAt?]
  cases hpath : Text.dotted path with
  | nil =>
      refine iff_of_false nofun ?_
      rintro ⟨fields, _, hleads⟩
      cases hleads
  | cons first rest =>
      rw [Option.bind_eq_some_iff]
      cases tree with
      | fields named =>
          simp only [SchemaTree.fields.injEq, exists_eq_left']
          exact leadsAlong_iff.symm
      | simple descriptor =>
          refine iff_of_false ?_ ?_
          · rintro ⟨_, hfield, _⟩
            cases hfield
          · rintro ⟨_, htree, _⟩
            cases htree

/-! ### Every field is found -/

/-- That a descriptor stands in fields, or in documents that these enclose, under names. -/
inductive StandsUnder : FieldMap → List String → Descriptor → Prop where
  | own {fields : FieldMap} {name : String} {field : Descriptor} (h : (name, field) ∈ fields) :
      StandsUnder fields [name] field
  | inner {fields inner : FieldMap} {name : String} {names : List String}
      {field target : Descriptor} (h : (name, field) ∈ fields) (hencloses : field.Encloses inner)
      (hrest : StandsUnder inner names target) : StandsUnder fields (name :: names) target

/-- That the fields of a descriptor, if it is a document, have distinct names. -/
def Descriptor.NamesDistinct (descriptor : Descriptor) : Prop :=
  ∀ fields, descriptor.fields? = some fields → (Entries.keys fields).Nodup

/-- What holds everywhere in a descriptor holds everywhere in the document that it encloses. -/
theorem Descriptor.Encloses.everywhere {P : Descriptor → Prop} {descriptor : Descriptor}
    {fields : FieldMap} (h : descriptor.Encloses fields) (heverywhere : descriptor.Everywhere P) :
    ∃ modifiers, (Descriptor.embedded modifiers fields).Everywhere P := by
  induction h with
  | embedded modifiers fields => exact ⟨modifiers, heverywhere⟩
  | array modifiers _ ih => exact ih fun inner hinner => heverywhere inner (.item hinner)

/-- Names lead to what stands under them, where no document repeats a name. -/
theorem StandsUnder.leadsAlong {fields : FieldMap} {names : List String} {target : Descriptor}
    (h : StandsUnder fields names target) {modifiers : Modifiers}
    (hdistinct : (Descriptor.embedded modifiers fields).Everywhere Descriptor.NamesDistinct) :
    LeadsAlong fields names target := by
  induction h generalizing modifiers with
  | own hmem => exact .last (Entries.get?_of_mem (hdistinct _ (.self _) _ rfl) hmem)
  | @inner fields inner name names field target hmem hencloses _ ih =>
      have hfield : field.Everywhere Descriptor.NamesDistinct :=
        fun descriptor hstands => hdistinct descriptor (.field hmem hstands)
      obtain ⟨_, hinner⟩ := hencloses.everywhere hfield
      exact .next (Entries.get?_of_mem (hdistinct _ (.self _) _ rfl) hmem) hencloses (ih hinner)

/-- **Every field is found under its dotted path** when no name on the way holds a dot. -/
theorem SchemaTree.fieldAt?_of_standsUnder {fields : FieldMap} {names : List String}
    {field : Descriptor} (h : StandsUnder fields names field)
    (hdistinct : (SchemaTree.fields fields).root.Everywhere Descriptor.NamesDistinct)
    (hdots : ∀ name ∈ names, '.' ∉ name.toList) :
    (SchemaTree.fields fields).fieldAt? (".".intercalate names) = some field := by
  have hleads := h.leadsAlong hdistinct
  rw [fieldAt?_eq_some_iff]
  refine ⟨fields, rfl, ?_⟩
  cases names with
  | nil => cases h
  | cons name names =>
      rw [Text.dotted_intercalate hdots]
      exact hleads

/-! ### Binding -/

namespace CompiledSchema

/-- The warnings so far, and one more when a field of an index is not found. -/
def lookUp (schema : CompiledSchema) (logged : List IndexWarning) (field : String) :
    List IndexWarning :=
  match schema.tree.fieldAt? field with
  | some _ => logged
  | none => logged ++ [⟨schema.name, field⟩]

/-- One more index bound to a schema: its fields are looked up, then it is put behind the others. -/
def bindIndex (bound : CompiledSchema × List IndexWarning) (index : IndexSpec) :
    CompiledSchema × List IndexWarning :=
  ({ bound.1 with indexes := bound.1.indexes ++ [index] },
    index.fieldNames.foldl bound.1.lookUp bound.2)

/-- **Indexes bound one by one.** -/
def bindEach (schema : CompiledSchema) (indexes : List IndexSpec) :
    CompiledSchema × List IndexWarning :=
  indexes.foldl bindIndex (schema, [])

/-- The fields of one index are looked up in order, and what is not found is logged. -/
theorem foldl_lookUp (schema : CompiledSchema) (fields : List String)
    (logged : List IndexWarning) :
    fields.foldl schema.lookUp logged = logged ++ fields.filterMap fun field =>
      if (schema.tree.fieldAt? field).isSome then none else some ⟨schema.name, field⟩ := by
  induction fields generalizing logged with
  | nil => simp
  | cons field fields ih =>
      rw [List.foldl_cons, ih, lookUp, List.filterMap_cons]
      cases schema.tree.fieldAt? field <;> simp

theorem bindIndex_eq (schema : CompiledSchema) (logged : List IndexWarning) (index : IndexSpec) :
    bindIndex (schema, logged) index =
      ((schema.bindIndexes [index]).1, logged ++ (schema.bindIndexes [index]).2) := by
  rw [bindIndex, foldl_lookUp, bindIndexes, indexWarnings, List.flatMap_singleton]

/-- **Binding two lists one after the other is binding them at once**: the schema is the same, and
so are the warnings. -/
theorem bindIndexes_append (schema : CompiledSchema) (indexes further : List IndexSpec) :
    schema.bindIndexes (indexes ++ further) =
      (((schema.bindIndexes indexes).1.bindIndexes further).1,
        (schema.bindIndexes indexes).2 ++
          ((schema.bindIndexes indexes).1.bindIndexes further).2) := by
  simp only [bindIndexes, indexWarnings, List.append_assoc, List.flatMap_append,
    List.filterMap_append]
  rfl

/-- **One by one, indexes are bound as all at once.** -/
theorem bindEach_eq (schema : CompiledSchema) (indexes : List IndexSpec) :
    schema.bindEach indexes = schema.bindIndexes indexes := by
  -- the warnings of earlier indexes stand before those of later ones
  have hrun : ∀ (schema : CompiledSchema) (logged : List IndexWarning),
      indexes.foldl bindIndex (schema, logged) =
        ((schema.bindIndexes indexes).1, logged ++ (schema.bindIndexes indexes).2) := by
    induction indexes with
    | nil =>
        intro schema logged
        simp [bindIndexes, indexWarnings]
    | cons index indexes ih =>
        intro schema logged
        have hfirst := schema.bindIndexes_append [index] indexes
        rw [List.singleton_append] at hfirst
        rw [List.foldl_cons, bindIndex_eq, ih, hfirst, List.append_assoc]
  rw [bindEach, hrun, List.nil_append]

/-- The fields of which binding warns are those that are not found, in order. -/
theorem indexWarnings_eq (schema : CompiledSchema) (indexes : List IndexSpec) :
    schema.indexWarnings indexes =
      ((indexes.flatMap IndexSpec.fieldNames).filter fun field =>
        (schema.tree.fieldAt? field).isNone).map fun field => ⟨schema.name, field⟩ := by
  rw [indexWarnings]
  induction indexes.flatMap IndexSpec.fieldNames with
  | nil => rfl
  | cons field fields ih =>
      rw [List.filterMap_cons, List.filter_cons, ih]
      cases schema.tree.fieldAt? field <;> rfl

/-- **What binding does, and which fields it finds.**  Binding is done one index after the other.
The indexes are put behind those of the schema, which stays the same otherwise, and each field that
is not found gives rise to one warning, in order; lists of indexes may be bound one after the other.
A field is found when its path leads to it along its segments, and every field of an object is found
under its dotted path, unless a name on the way holds a dot. -/
theorem indexes_bound (schema : CompiledSchema) (indexes : List IndexSpec) :
    schema.bindIndexes indexes = schema.bindEach indexes ∧
      schema.bindIndexes indexes =
        ({ schema with indexes := schema.indexes ++ indexes },
          ((indexes.flatMap IndexSpec.fieldNames).filter fun field =>
            (schema.tree.fieldAt? field).isNone).map fun field => ⟨schema.name, field⟩) ∧
      (∀ further, schema.bindIndexes (indexes ++ further) =
        (((schema.bindIndexes indexes).1.bindIndexes further).1,
          (schema.bindIndexes indexes).2 ++
            ((schema.bindIndexes indexes).1.bindIndexes further).2)) ∧
      (∀ path field, schema.tree.fieldAt? path = some field ↔
        ∃ fields, schema.tree = .fields fields ∧ LeadsAlong fields (Text.dotted path) field) ∧
      ∀ fields names field, schema.tree = .fields fields →
        schema.tree.root.Everywhere Descriptor.NamesDistinct →
        StandsUnder fields names field → (∀ name ∈ names, '.' ∉ name.toList) →
        schema.tree.fieldAt? (".".intercalate names) = some field := by
  refine ⟨(schema.bindEach_eq indexes).symm, ?_, schema.bindIndexes_append indexes,
    fun _ _ => SchemaTree.fieldAt?_eq_some_iff, ?_⟩
  · rw [bindIndexes, indexWarnings_eq]
  · intro fields names field htree hdistinct hstands hdots
    rw [htree] at hdistinct ⊢
    exact SchemaTree.fieldAt?_of_standsUnder hstands hdistinct hdots

/-- People with lists of lists of contacts, and a field whose name holds a dot. -/
def peopleFields : FieldMap :=
  [("contacts", .array {} (.array {} (.embedded {} [("phone", .scalar {} .string none)]))),
    ("home.phone", .scalar {} .string none)]

/-- The schema of people. -/
def peopleSchema : CompiledSchema where
  name := "Person"
  tree := .fields peopleFields
  options := []
  indexes := []
  validatorModule := none

/-- An index over fields that people have, one of which is not found, and over one that they do not
have. -/
def peopleIndex : IndexSpec where
  fields :=
    [("contacts.phone", .ascending), ("home.phone", .ascending), ("contacts.fax", .ascending)]
  unique := false
  background := true

/-- The phone of a contact is found; what is warned of is the fax, and the field with the dot. -/
theorem peopleSchema_bound :
    peopleSchema.tree.root.Everywhere Descriptor.NamesDistinct ∧
      StandsUnder peopleFields ["contacts", "phone"] (.scalar {} .string none) ∧
      peopleSchema.tree.fieldAt? "contacts.phone" = some (.scalar {} .string none) ∧
      (peopleSchema.bindIndexes [peopleIndex, peopleIndex]).1.indexes =
        [peopleIndex, peopleIndex] ∧
      (peopleSchema.bindIndexes [peopleIndex, peopleIndex]).2 =
        [⟨"Person", "home.phone"⟩, ⟨"Person", "contacts.fax"⟩, ⟨"Person", "home.phone"⟩,
          ⟨"Person", "contacts.fax"⟩] := by
  have hdistinct : peopleSchema.tree.root.Everywhere Descriptor.NamesDistinct := by
    have htext : (Descriptor.scalar {} .string none).Everywhere Descriptor.NamesDistinct :=
      Descriptor.everywhere_scalar nofun
    refine Descriptor.everywhere_embedded (by rintro _ ⟨⟩; decide) ?_
    rintro _ (_ | ⟨_, _ | ⟨_, ⟨⟩⟩⟩)
    · refine Descriptor.everywhere_array nofun (Descriptor.everywhere_array nofun ?_)
      refine Descriptor.everywhere_embedded (by rintro _ ⟨⟩; decide) ?_
      rintro _ (_ | ⟨_, ⟨⟩⟩)
      exact htext
    · exact htext
  have hstands : StandsUnder peopleFields ["contacts", "phone"] (.scalar {} .string none) :=
    .inner (List.mem_cons_self ..) (.array {} (.array {} (.embedded {} _)))
      (.own (List.mem_cons_self ..))
  obtain ⟨_, hbound, _, _, hfound⟩ := peopleSchema.indexes_bound [peopleIndex, peopleIndex]
  refine ⟨hdistinct, hstands, hfound _ _ _ rfl hdistinct hstands (by decide), ?_, ?_⟩
  · rw [hbound]
    rfl
  · rw [hbound]
    decide

end CompiledSchema

end StoreSchema
