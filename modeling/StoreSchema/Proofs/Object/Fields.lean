/-
**The fields of an object.**

An object lists properties, and the directives of a type may add others to them.  The fields come in
the order of the listed properties, then in that of the properties that are only added; names that
the store keeps for itself are left out.  An added property of a listed name takes the place of the
listed one.  Which properties are added is decided by what the object is: a definition takes those
of its own directives, wherever it is reached from, and an object inside a property takes none.

Main definitions:

* `fieldNames` — the names of the fields of an object;
* `DistinctProperties` — that no property is listed, or added, twice;
* `Scope.Fills`, `Scope.LaysOut` — that a property makes the field of its name, and **that fields
  are those of an object**.

Main results:

* `keys_of_resolveProperties`, `get?_of_resolveProperties` — the fields of listed properties;
* `distinctProperties_of_catalogOf` — the definitions of a document list and add no property twice;
* `Scope.laysOut_of_objectFields` — **the fields of an object are laid out so**;
* `Catalog.compileDefinition_of_describesObject`, `Catalog.resolveField_of_describesObject`,
  `resolveField_of_object` — definitions that are compiled or embedded, and objects inside
  properties, have the fields of an object.
-/

import StoreSchema.Proofs.Overlay.Distinct
import StoreSchema.Proofs.Paired
import StoreSchema.Proofs.Property.Parts

set_option relaxedAutoImplicit false
set_option autoImplicit false

namespace StoreSchema

/-! ### Listed properties -/

section Resolved

variable {scope : Scope} {rule : Required} {place : Pointer} {properties : Members}
  {fields : List (String × Descriptor)}

/-- Fields stand under the names of the properties that may have one, in the same order. -/
theorem keys_of_resolveProperties (h : resolveProperties scope rule place properties = .ok fields) :
    Entries.keys fields = (Entries.keys properties).filter fun name => !isReserved name := by
  rw [← (resolveProperties_eq_ok_iff.1 h).keys_eq]
  exact Entries.keys_filter (fun name => !isReserved name) properties

/-- Each property with a free name is resolved. -/
theorem exists_entry_of_resolveProperties
    (h : resolveProperties scope rule place properties = .ok fields) {name : String}
    {property : Json} (hproperty : (name, property) ∈ properties)
    (hname : isReserved name = false) :
    ∃ field, scope.entry rule name property (place.child name) = .ok (some field) := by
  have hfree : (name, property) ∈ properties.filter fun property => !isReserved property.1 :=
    List.mem_filter.2 ⟨hproperty, by rw [hname, Bool.not_false]⟩
  obtain ⟨field, _, hentry⟩ := (resolveProperties_eq_ok_iff.1 h).exists_of_mem hfree
  exact ⟨field, hentry⟩

/-- Under a free name stands the field of the property of that name. -/
theorem get?_of_resolveProperties (h : resolveProperties scope rule place properties = .ok fields)
    {name : String} {property : Json} (hname : isReserved name = false)
    (hproperty : Entries.get? properties name = some property) :
    ∃ field, Entries.get? fields name = some field ∧
      scope.entry rule name property (place.child name) = .ok (some field) := by
  have hfree : (!isReserved name) = true := by rw [hname, Bool.not_false]
  have hsame := Entries.get?_filter (fun name => !isReserved name) hfree properties
  rcases (resolveProperties_eq_ok_iff.1 h).get? name with ⟨hnone, _⟩ | ⟨found, field, hfound, hrest⟩
  · rw [hsame, hproperty] at hnone
    cases hnone
  · rw [hsame, hproperty] at hfound
    cases hfound
    exact ⟨field, hrest⟩

end Resolved

/-! ### The properties of an object -/

/-- The properties that an object lists repeat no name when the object repeats none. -/
theorem Json.Distinct.listedProperties {members : Members} (h : (Json.obj members).Distinct) :
    (Json.obj (listedProperties members)).Distinct := by
  rw [StoreSchema.listedProperties]
  cases hget : Entries.get? members "properties" with
  | none => exact Json.distinct_empty_object
  | some listed =>
      cases listed with
      | obj properties => exact h.of_get? hget
      | _ => exact Json.distinct_empty_object

/-- **The names of the fields of an object**: those of the declared properties in their order, then
those of the additional ones that are not declared, in theirs; without the names that the store
keeps for itself. -/
def fieldNames (declared additional : Members) : List String :=
  (Entries.keys declared ++
    (Entries.keys additional).filter fun name => name ∉ Entries.keys declared).filter
      fun name => !isReserved name

theorem mem_fieldNames_iff {declared additional : Members} {name : String} :
    name ∈ fieldNames declared additional ↔
      isReserved name = false ∧
        (name ∈ Entries.keys additional ∨ name ∈ Entries.keys declared) := by
  rw [fieldNames, List.mem_filter, List.mem_append, List.mem_filter]
  by_cases hname : name ∈ Entries.keys declared <;> simp [hname, and_comm]

/-- The names are also those of the fields, when the reserved ones are left out first. -/
theorem fieldNames_eq (declared additional : Members) :
    fieldNames declared additional =
      (Entries.keys declared).filter (fun name => !isReserved name) ++
        ((Entries.keys additional).filter fun name => !isReserved name).filter
          fun name => name ∉ (Entries.keys declared).filter fun name => !isReserved name := by
  rw [fieldNames, List.filter_append, List.filter_filter, List.filter_filter]
  congr 1
  refine List.filter_congr fun name _ => ?_
  by_cases hname : isReserved name = true <;> simp [hname]

/-- That among the properties of an object, and among the additional ones, no name comes twice. -/
structure DistinctProperties (members additional : Members) : Prop where
  /-- The object lists no name twice. -/
  listed : (Entries.keys (listedProperties members)).Nodup
  /-- No name is added twice. -/
  added : (Entries.keys additional).Nodup

theorem DistinctProperties.of_distinct {members additional : Members}
    (hmembers : (Json.obj members).Distinct) (hadditional : (Json.obj additional).Distinct) :
    DistinctProperties members additional where
  listed := (Json.distinct_obj_iff.1 hmembers.listedProperties).1
  added := (Json.distinct_obj_iff.1 hadditional).1

/-- The definitions of a document that repeats no name list and add no name twice. -/
theorem distinctProperties_of_catalogOf {document : Members} {overlay : Option Json}
    {catalog : Catalog} (h : catalogOf document overlay = .ok catalog)
    (hdocument : (Json.obj document).Distinct)
    (hoverlay : ∀ value, overlay = some value → value.Distinct) :
    ∀ entry ∈ catalog.types, DistinctProperties entry.2.body entry.2.directives.additional := by
  intro entry hentry
  have htype := distinct_of_catalogOf h hdocument hoverlay entry hentry
  exact .of_distinct htype.body htype.directives.additional

/-! ### Objects -/

namespace Scope

/-- That the property called `name`, below the `group` of the object at `place`, makes the field of
that name. -/
def Fills (scope : Scope) (members : Members) (place : Pointer) (group : String)
    (fields : FieldMap) (name : String) (property : Json) : Prop :=
  ∃ rule field, Required.read members place = .ok rule ∧
    Entries.get? fields name = some field ∧
    scope.entry rule name property ((place.child group).child name) = .ok (some field)

/-- **That fields are those of the object at `place`**, with the additional properties.  The names
are distinct, so that they say where each field stands. -/
structure LaysOut (scope : Scope) (members additional : Members) (place : Pointer)
    (fields : FieldMap) : Prop where
  /-- The names are those of the properties, in order. -/
  names : Entries.keys fields = fieldNames (listedProperties members) additional
  /-- No name comes twice. -/
  nodup : (Entries.keys fields).Nodup
  /-- A declared property makes the field of its name, unless one of that name is added. -/
  declared : ∀ name property, isReserved name = false → name ∉ Entries.keys additional →
    Entries.get? (listedProperties members) name = some property →
    scope.Fills members place "properties" fields name property
  /-- An additional property makes the field of its name. -/
  added : ∀ name property, isReserved name = false →
    Entries.get? additional name = some property →
    scope.Fills members place "additional-properties" fields name property

variable {scope : Scope} {members additional : Members} {place : Pointer} {fields : FieldMap}

/-- **The fields of an object are laid out in the order of its properties.** -/
theorem laysOut_of_objectFields (hdistinct : DistinctProperties members additional)
    (h : scope.objectFields members additional place = .ok fields) :
    scope.LaysOut members additional place fields := by
  obtain ⟨rule, declared, added, hrule, hdeclared, hadded, rfl⟩ := resolved_of_objectFields h
  -- of the two lists of fields neither repeats a name, so the second is written over the first
  have hkeys := keys_of_resolveProperties hdeclared
  have hkeys' := keys_of_resolveProperties hadded
  have hnodup : (Entries.keys declared).Nodup := hkeys ▸ hdistinct.listed.filter _
  have hnodup' : (Entries.keys added).Nodup := hkeys' ▸ hdistinct.added.filter _
  rw [Entries.ofList_append hnodup]
  refine ⟨?_, Entries.nodup_keys_insertAll hnodup _, ?_, ?_⟩
  · rw [Entries.keys_insertAll hnodup', hkeys, hkeys', fieldNames_eq]
  · intro name property hname hnew hproperty
    obtain ⟨field, hfield, hentry⟩ := get?_of_resolveProperties hdeclared hname hproperty
    have hnone : Entries.get? added name = none := by
      rw [Entries.get?_eq_none_iff, hkeys']
      exact fun hmem => hnew (List.mem_filter.1 hmem).1
    refine ⟨rule, field, hrule, ?_, hentry⟩
    rw [Entries.get?_insertAll hnodup', hnone, hfield, Option.none_or]
  · intro name property hname hproperty
    obtain ⟨field, hfield, hentry⟩ := get?_of_resolveProperties hadded hname hproperty
    refine ⟨rule, field, hrule, ?_, hentry⟩
    rw [Entries.get?_insertAll hnodup', hfield, Option.some_or]

end Scope

/-- An object inside a property is resolved as one to which nothing is added. -/
theorem resolveField_of_object {scope : Scope} {members : Members} {place : Pointer}
    {body : ObjectBody} (h : Form.read scope.dialect members place = .ok (.object body)) :
    resolveField scope (.obj members) place =
      (scope.objectFields members [] place).map (Descriptor.embedded {}) := by
  rw [resolveField_of_read h, ← Scope.perform_object, Form.objectBody_of_read h]
  rfl

/-! ### Definitions -/

namespace Catalog

variable {catalog : Catalog} {stack : List String} {name : String} {type : TypeDefinition}

/-- A definition of an object has the fields of the object, with the additional properties of its
directives. -/
theorem compileDefinition_of_describesObject (h : Scope.describesObject type.body = true) :
    catalog.compileDefinition stack name type =
      ((catalog.scope (name :: stack)).objectFields type.body type.directives.additional
        (Pointer.definition name)).map SchemaTree.fields := by
  rw [compileDefinition, Scope.tree, if_pos h]

/-- A property that refers to such a definition embeds a document with these fields. -/
theorem resolveField_of_describesObject {members : Members} {place : Pointer} {reference : String}
    (hread : Form.read catalog.dialect members place = .ok (.referring reference))
    (hfind : catalog.find? reference = some (name, type)) (hstack : name ∉ stack)
    (h : Scope.describesObject type.body = true) :
    resolveField (catalog.scope stack) (.obj members) place =
      ((catalog.scope (name :: stack)).objectFields type.body type.directives.additional
        (Pointer.definition name)).map fun fields =>
          (Descriptor.embedded {} fields).wrapped (isArrayProperty members) := by
  have halias : isAlias type.body = false := by
    refine eq_false_of_ne_true fun halias => ?_
    rw [describesObject_of_isAlias halias] at h
    cases h
  have htree : catalog.compileDefinition stack name type = _ :=
    compileDefinition_of_describesObject h
  rw [compileDefinition] at htree
  rw [resolveField_of_read hread]
  change (catalog.follow stack reference place).map _ = _
  rw [follow_of_not_mem hfind hstack, enter, halias, if_neg Bool.false_ne_true, htree,
    Outcome.map_map, Outcome.map_map]
  rfl

end Catalog

end StoreSchema
