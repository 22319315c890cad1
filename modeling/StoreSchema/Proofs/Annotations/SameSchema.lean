/-
**Schemas without annotations.**

A schema says what it describes under seven keywords, and in its block.  Everything else in it is an
annotation: descriptions, titles, examples, words that no one knows, and the block of the other
dialect.  Schemas stand in schemas as items and as listed properties, and with them their
annotations, at any depth.

Two schemas that come out the same without annotations have the same form, with parts that come out
the same in turn.

Main definitions:

* `schemaKeywords`, `Dialect.isKeyword` — the keys of a schema that are no annotations;
* `unannotated`, `unannotatedProperties` — **a schema without annotations**, and a list of schemas;
* `SameSchema`, `SameSchemas` — that two objects are the same schema but for annotations, or list
  the same schemas;
* `Form.Alike` — that two forms are the same but for annotations in their parts.

Main results:

* `get?_unannotatedMembers`, `unannotatedMembers_insert` — what removing annotations leaves of a
  value under a key, and of a write;
* `SameSchema.erase`, `SameSchema.insert`, `SameSchema.retyped` — changes that keep schemas the
  same;
* `SameSchema.matched_form` — **the same schema has the same form**.
-/

import StoreSchema.Proofs.Interchange

set_option relaxedAutoImplicit false
set_option autoImplicit false

namespace StoreSchema

/-! ### Schemas without annotations -/

/-- The keywords under which a schema says what it describes. -/
def schemaKeywords : List String :=
  ["type", "format", "items", "$ref", "enum", "properties", "required"]

/-- Whether what stands under a key of a schema is no annotation. -/
def Dialect.isKeyword (dialect : Dialect) (key : String) : Bool :=
  key == dialect.directiveKey || schemaKeywords.contains key

mutual

/-- **A schema without annotations**, at any depth; a value that is no object is no schema. -/
def unannotated (dialect : Dialect) : Json → Json
  | .obj members => .obj (unannotatedMembers dialect members)
  | other => other

/-- The value of `properties` with all schemas in it without annotations. -/
def unannotatedProperties (dialect : Dialect) : Json → Json
  | .obj listed => .obj (unannotatedListed dialect listed)
  | other => other

/-- The members of a schema that are no annotations, with the schemas in them without any. -/
def unannotatedMembers (dialect : Dialect) : List (String × Json) → Members
  | [] => []
  | (key, value) :: rest =>
      if key = "items" then (key, unannotated dialect value) :: unannotatedMembers dialect rest
      else if key = "properties" then
        (key, unannotatedProperties dialect value) :: unannotatedMembers dialect rest
      else if dialect.isKeyword key then (key, value) :: unannotatedMembers dialect rest
      else unannotatedMembers dialect rest

/-- The listed schemas without annotations. -/
def unannotatedListed (dialect : Dialect) : List (String × Json) → Members
  | [] => []
  | (name, property) :: rest =>
      (name, unannotated dialect property) :: unannotatedListed dialect rest

end

section Unannotated

variable {dialect : Dialect}

/-- What is kept of the value under a keyword. -/
def unannotatedValue (dialect : Dialect) (key : String) (value : Json) : Json :=
  if key = "items" then unannotated dialect value
  else if key = "properties" then unannotatedProperties dialect value
  else value

theorem unannotatedMembers_cons (key : String) (value : Json) (rest : Members) :
    unannotatedMembers dialect ((key, value) :: rest) =
      if dialect.isKeyword key then
        (key, unannotatedValue dialect key value) :: unannotatedMembers dialect rest
      else unannotatedMembers dialect rest := by
  rw [unannotatedMembers, unannotatedValue]
  by_cases hitems : key = "items"
  · simp [hitems, Dialect.isKeyword, schemaKeywords]
  · by_cases hproperties : key = "properties"
    · simp [hproperties, Dialect.isKeyword, schemaKeywords]
    · simp [hitems, hproperties]

/-- What stands under a keyword is there without annotations too. -/
theorem get?_unannotatedMembers {key : String} (hkey : dialect.isKeyword key = true)
    (members : Members) :
    Entries.get? (unannotatedMembers dialect members) key =
      (Entries.get? members key).map (unannotatedValue dialect key) := by
  induction members with
  | nil => rfl
  | cons entry rest ih =>
      obtain ⟨name, value⟩ := entry
      rw [unannotatedMembers_cons, Entries.get?_cons]
      by_cases hname : name = key
      · subst hname
        rw [if_pos hkey, Entries.get?_cons, if_pos rfl, if_pos rfl, Option.map_some]
      · rw [if_neg hname, ← ih]
        split
        · rw [Entries.get?_cons, if_neg hname]
        · rfl

theorem unannotatedMembers_erase (members : Members) (key : String) :
    unannotatedMembers dialect (Entries.erase members key) =
      Entries.erase (unannotatedMembers dialect members) key := by
  induction members with
  | nil => rfl
  | cons entry rest ih =>
      obtain ⟨name, value⟩ := entry
      rw [Entries.erase, Entries.erase] at *
      by_cases hkept : dialect.isKeyword name = true <;> by_cases hname : name != key <;>
        simp [unannotatedMembers_cons, hname, hkept, ih]

/-- A write under a keyword is a write without annotations; any other write is none. -/
theorem unannotatedMembers_insert (members : Members) (key : String) (value : Json) :
    unannotatedMembers dialect (Entries.insert members key value) =
      if dialect.isKeyword key then
        Entries.insert (unannotatedMembers dialect members) key (unannotatedValue dialect key value)
      else unannotatedMembers dialect members := by
  induction members with
  | nil => rw [Entries.insert, unannotatedMembers_cons]; rfl
  | cons entry rest ih =>
      obtain ⟨name, old⟩ := entry
      rw [Entries.insert_cons]
      by_cases hname : name = key
      · subst hname
        by_cases hkey : dialect.isKeyword name = true <;>
          simp [unannotatedMembers_cons, hkey, Entries.insert_cons]
      · by_cases hkey : dialect.isKeyword key = true <;>
          by_cases hold : dialect.isKeyword name = true <;>
          simp [unannotatedMembers_cons, hname, hkey, hold, ih, Entries.insert_cons]

end Unannotated

/-! ### Schemas that differ in annotations only -/

/-- **That two objects are the same schema but for annotations.** -/
def SameSchema (dialect : Dialect) (left right : Members) : Prop :=
  unannotatedMembers dialect left = unannotatedMembers dialect right

section SameSchema

variable {dialect : Dialect}

/-- That two lists name the same schemas but for annotations. -/
def SameSchemas (dialect : Dialect) : Members → Members → Prop :=
  Entries.Paired fun _ property property' =>
    unannotated dialect property = unannotated dialect property'

theorem unannotatedListed_eq_iff {listed listed' : Members} :
    unannotatedListed dialect listed = unannotatedListed dialect listed' ↔
      SameSchemas dialect listed listed' := by
  constructor
  · intro h
    induction listed generalizing listed' with
    | nil =>
        cases listed' with
        | nil => exact .nil
        | cons => simp [unannotatedListed] at h
    | cons entry rest ih =>
        cases listed' with
        | nil => simp [unannotatedListed] at h
        | cons entry' rest' =>
            obtain ⟨name, property⟩ := entry
            obtain ⟨name', property'⟩ := entry'
            simp only [unannotatedListed, List.cons.injEq, Prod.mk.injEq] at h
            obtain ⟨⟨rfl, hproperty⟩, hrest⟩ := h
            exact .cons hproperty (ih hrest)
  · intro h
    induction h with
    | nil => rfl
    | cons hproperty hrest ih => rw [unannotatedListed, unannotatedListed, hproperty, ih]

/-- Values that come out the same without annotations are the same schema, or one and the same value
that is no schema. -/
theorem unannotated_eq_cases {value value' : Json}
    (h : unannotated dialect value = unannotated dialect value') :
    (∃ members members', value = .obj members ∧ value' = .obj members' ∧
        SameSchema dialect members members') ∨ value = value' ∧ value.isObject = false := by
  cases value with
  | obj members =>
      cases value' with
      | obj members' =>
          rw [unannotated, unannotated, Json.obj.injEq] at h
          exact .inl ⟨members, members', rfl, rfl, h⟩
      | _ => simp [unannotated] at h
  | _ =>
      cases value' with
      | obj members' => simp [unannotated] at h
      | _ => exact .inr ⟨h, rfl⟩

/-- Values of `properties` that come out the same without annotations list the same schemas, or are
one and the same value that lists none. -/
theorem unannotatedProperties_eq_cases {value value' : Json}
    (h : unannotatedProperties dialect value = unannotatedProperties dialect value') :
    (∃ listed listed', value = .obj listed ∧ value' = .obj listed' ∧
        SameSchemas dialect listed listed') ∨ value = value' ∧ value.isObject = false := by
  cases value with
  | obj listed =>
      cases value' with
      | obj listed' =>
          rw [unannotatedProperties, unannotatedProperties, Json.obj.injEq,
            unannotatedListed_eq_iff] at h
          exact .inl ⟨listed, listed', rfl, rfl, h⟩
      | _ => simp [unannotatedProperties] at h
  | _ =>
      cases value' with
      | obj listed' => simp [unannotatedProperties] at h
      | _ => exact .inr ⟨h, rfl⟩

namespace SameSchema

variable {left right : Members} (h : SameSchema dialect left right)
include h

theorem unannotated_eq : unannotated dialect (.obj left) = unannotated dialect (.obj right) := by
  rw [unannotated, unannotated, h]

/-- What stands under a keyword comes out the same without annotations. -/
theorem map_get?_eq {key : String} (hkey : dialect.isKeyword key = true) :
    (Entries.get? left key).map (unannotatedValue dialect key) =
      (Entries.get? right key).map (unannotatedValue dialect key) := by
  rw [← get?_unannotatedMembers hkey, ← get?_unannotatedMembers hkey, h]

/-- What stands under a keyword below which there are no schemas is the same. -/
theorem get?_eq {key : String} (hkey : dialect.isKeyword key = true) (hitems : key ≠ "items")
    (hproperties : key ≠ "properties") : Entries.get? left key = Entries.get? right key := by
  have hvalue : unannotatedValue dialect key = id := by
    funext value
    rw [unannotatedValue, if_neg hitems, if_neg hproperties, id]
  have hget := h.map_get?_eq hkey
  rwa [hvalue, Option.map_id_fun, id, id] at hget

/-- The blocks are the same. -/
theorem get?_directiveKey_eq :
    Entries.get? left dialect.directiveKey = Entries.get? right dialect.directiveKey := by
  have hitems : "items" ≠ dialect.directiveKey := dialect.ne_directiveKey (by decide) (by decide)
  have hproperties : "properties" ≠ dialect.directiveKey :=
    dialect.ne_directiveKey (by decide) (by decide)
  exact h.get?_eq (by simp [Dialect.isKeyword]) hitems.symm hproperties.symm

/-- There are items in both or in neither, and they come out the same without annotations. -/
theorem items_cases :
    (Entries.get? left "items" = none ∧ Entries.get? right "items" = none) ∨
      ∃ items items', Entries.get? left "items" = some items ∧
        Entries.get? right "items" = some items' ∧
        unannotated dialect items = unannotated dialect items' := by
  have hkey : dialect.isKeyword "items" = true := by simp [Dialect.isKeyword, schemaKeywords]
  have hget := h.map_get?_eq hkey
  cases hleft : Entries.get? left "items" <;> cases hright : Entries.get? right "items" <;>
    rw [hleft, hright] at hget
  · exact .inl ⟨rfl, rfl⟩
  · cases hget
  · cases hget
  · exact .inr ⟨_, _, rfl, rfl, Option.some.inj hget⟩

/-- There are properties in both or in neither, and they come out the same without annotations. -/
theorem properties_cases :
    (Entries.get? left "properties" = none ∧ Entries.get? right "properties" = none) ∨
      ∃ listed listed', Entries.get? left "properties" = some listed ∧
        Entries.get? right "properties" = some listed' ∧
        unannotatedProperties dialect listed = unannotatedProperties dialect listed' := by
  have hkey : dialect.isKeyword "properties" = true := by simp [Dialect.isKeyword, schemaKeywords]
  have hget := h.map_get?_eq hkey
  cases hleft : Entries.get? left "properties" <;>
    cases hright : Entries.get? right "properties" <;> rw [hleft, hright] at hget
  · exact .inl ⟨rfl, rfl⟩
  · cases hget
  · cases hget
  · exact .inr ⟨_, _, rfl, rfl, Option.some.inj hget⟩

/-- The same schema stays the same when a key is removed, -/
theorem erase (key : String) :
    SameSchema dialect (Entries.erase left key) (Entries.erase right key) := by
  rw [SameSchema, unannotatedMembers_erase, unannotatedMembers_erase, h]

/-- and when values are written that come out the same without annotations. -/
theorem insert {key : String} {value value' : Json}
    (hvalue : unannotatedValue dialect key value = unannotatedValue dialect key value') :
    SameSchema dialect (Entries.insert left key value) (Entries.insert right key value') := by
  rw [SameSchema, unannotatedMembers_insert, unannotatedMembers_insert, h, hvalue]

theorem insertAll (source : Members) :
    SameSchema dialect (Entries.insertAll left source) (Entries.insertAll right source) := by
  induction source generalizing left right with
  | nil => exact h
  | cons entry rest ih => exact ih (h.insert rfl)

/-- A block is worked into the same schema with the same result. -/
theorem retyped (key : String) (validator : Option String) (block : Members) :
    SameSchema dialect (retyped key validator block left)
      (StoreSchema.retyped key validator block right) := by
  rw [StoreSchema.retyped, StoreSchema.retyped]
  split
  · exact h.erase key
  · exact (h.erase key).insertAll _

/-! ### What is read from a schema -/

theorem type_eq : Entries.get? left "type" = Entries.get? right "type" :=
  h.get?_eq (by simp [Dialect.isKeyword, schemaKeywords]) (by decide) (by decide)

theorem reference_eq : Entries.get? left "$ref" = Entries.get? right "$ref" :=
  h.get?_eq (by simp [Dialect.isKeyword, schemaKeywords]) (by decide) (by decide)

theorem required_eq : Entries.get? left "required" = Entries.get? right "required" :=
  h.get?_eq (by simp [Dialect.isKeyword, schemaKeywords]) (by decide) (by decide)

theorem contains_properties_eq :
    Entries.contains left "properties" = Entries.contains right "properties" := by
  rw [Entries.contains, Entries.contains]
  rcases h.properties_cases with ⟨hleft, hright⟩ | ⟨_, _, hleft, hright, _⟩
  · rw [hleft, hright]
  · rw [hleft, hright]
    rfl

theorem isAlias_eq : isAlias left = isAlias right := by
  rw [isAlias, isAlias, h.contains_properties_eq, h.type_eq]

theorem describesObject_eq : Scope.describesObject left = Scope.describesObject right := by
  rw [Scope.describesObject, Scope.describesObject, h.contains_properties_eq, h.type_eq]

theorem isArrayProperty_eq : isArrayProperty left = isArrayProperty right := by
  rw [isArrayProperty, isArrayProperty, h.type_eq]
  rcases h.items_cases with ⟨hleft, hright⟩ | ⟨items, items', hleft, hright, hitems⟩
  · rw [hleft, hright]
  · rw [hleft, hright]
    rcases unannotated_eq_cases hitems with ⟨_, _, rfl, rfl, _⟩ | ⟨rfl, _⟩ <;> rfl

theorem directive?_eq (place : Pointer) :
    dialect.directive? left place = dialect.directive? right place := by
  rw [Dialect.directive?, Dialect.directive?, h.get?_directiveKey_eq]

theorem overridingBlock?_eq (place : Pointer) :
    overridingBlock? dialect left place = overridingBlock? dialect right place := by
  rw [overridingBlock?, overridingBlock?, h.directive?_eq]

theorem ownReference?_eq (place : Pointer) :
    ownReference? dialect left place = ownReference? dialect right place := by
  rw [ownReference?, ownReference?, h.reference_eq, h.directive?_eq]

theorem reference?_eq (place : Pointer) :
    reference? dialect left place = reference? dialect right place := by
  rw [reference?, reference?, h.ownReference?_eq]
  congr 1
  funext own
  cases own with
  | some reference => rfl
  | none =>
      dsimp only
      rcases h.items_cases with ⟨hleft, hright⟩ | ⟨items, items', hleft, hright, hitems⟩
      · rw [hleft, hright]
      · rw [hleft, hright]
        rcases unannotated_eq_cases hitems with ⟨_, _, rfl, rfl, hsame⟩ | ⟨rfl, _⟩
        · exact hsame.ownReference?_eq _
        · rfl

theorem identifierReference?_eq (block : Members) :
    identifierReference? dialect block left = identifierReference? dialect block right := by
  rw [identifierReference?, identifierReference?, h.reference_eq]
  rcases h.items_cases with ⟨hleft, hright⟩ | ⟨items, items', hleft, hright, hitems⟩
  · rw [hleft, hright]
  · rw [hleft, hright]
    rcases unannotated_eq_cases hitems with ⟨_, _, rfl, rfl, hsame⟩ | ⟨rfl, _⟩
    · rw [Option.bind_some, Option.bind_some, Json.members_obj, Json.members_obj,
        hsame.reference_eq]
    · rfl

theorem required_read_eq (place : Pointer) :
    Required.read left place = Required.read right place := by
  rw [Required.read, Required.read, h.required_eq]

theorem declaredType_eq (place : Pointer) : declaredType left place = declaredType right place := by
  rw [declaredType, declaredType, h.type_eq]

theorem checkNumberFormat_eq (place : Pointer) :
    checkNumberFormat left place = checkNumberFormat right place := by
  have hformat : Entries.get? left "format" = Entries.get? right "format" :=
    h.get?_eq (by simp [Dialect.isKeyword, schemaKeywords]) (by decide) (by decide)
  rw [checkNumberFormat, checkNumberFormat, hformat]

theorem readScalar_eq (place : Pointer) (type : Primitive) :
    Form.readScalar left place type = Form.readScalar right place type := by
  have hvalues : Entries.get? left "enum" = Entries.get? right "enum" :=
    h.get?_eq (by simp [Dialect.isKeyword, schemaKeywords]) (by decide) (by decide)
  rw [Form.readScalar, Form.readScalar, readValues, readValues, hvalues]

end SameSchema

/-! ### Forms -/

/-- That two blocks take precedence alike: they are the same, be it on items that are the same
schema. -/
inductive Override.Alike (dialect : Dialect) : Override → Override → Prop where
  | own (block : Members) : Alike dialect (.own block) (.own block)
  | ofItems {items items' : Members} (hitems : SameSchema dialect items items') (block : Members) :
      Alike dialect (.ofItems items block) (.ofItems items' block)

theorem Override.Alike.block_eq {found found' : Override} (h : found.Alike dialect found') :
    found.block = found'.block := by
  cases h <;> rfl

/-- That two objects require the same fields and list the same schemas. -/
structure ObjectBody.Alike (dialect : Dialect) (body body' : ObjectBody) : Prop where
  /-- The required fields are the same. -/
  required : body.required = body'.required
  /-- The listed schemas are. -/
  properties : SameSchemas dialect body.properties body'.properties

/-- **That two forms are the same but for annotations in their parts.** -/
inductive Form.Alike (dialect : Dialect) : Form → Form → Prop where
  | overridden (block : Members) : Alike dialect (.overridden block) (.overridden block)
  | overriddenItems {items items' : Members} (hitems : SameSchema dialect items items') :
      Alike dialect (.overriddenItems items) (.overriddenItems items')
  | referring (reference : String) : Alike dialect (.referring reference) (.referring reference)
  | scalar (type : Primitive) (values : Option (List Json)) :
      Alike dialect (.scalar type values) (.scalar type values)
  | array {items items' : Json} (hitems : unannotated dialect items = unannotated dialect items') :
      Alike dialect (.array items) (.array items')
  | object {body body' : ObjectBody} (hbody : body.Alike dialect body') :
      Alike dialect (.object body) (.object body')

namespace SameSchema

variable {left right : Members} (h : SameSchema dialect left right)
include h

theorem matched_override? (place : Pointer) :
    Outcome.Matched (Option.Rel (Override.Alike dialect)) (override? dialect left place)
      (override? dialect right place) := by
  rw [override?, override?, h.overridingBlock?_eq]
  cases overridingBlock? dialect right place with
  | error cause => exact .error cause
  | ok own =>
      cases own with
      | some block => exact .ok (.some (.own block))
      | none =>
          change Outcome.Matched _ (itemsOverride? dialect left place)
            (itemsOverride? dialect right place)
          rw [itemsOverride?, itemsOverride?]
          rcases h.items_cases with ⟨hleft, hright⟩ | ⟨items, items', hleft, hright, hitems⟩
          · rw [hleft, hright]
            exact .ok .none
          · rw [hleft, hright]
            rcases unannotated_eq_cases hitems with ⟨_, _, rfl, rfl, hsame⟩ | ⟨rfl, hother⟩
            · dsimp only
              rw [hsame.overridingBlock?_eq]
              cases overridingBlock? dialect _ (place.child "items") with
              | error cause => exact .error cause
              | ok block =>
                  cases block with
                  | none => exact .ok .none
                  | some block => exact .ok (.some (.ofItems hsame block))
            · cases items with
              | obj members => cases hother
              | _ => exact .ok .none

theorem matched_objectBody (place : Pointer) :
    Outcome.Matched (ObjectBody.Alike dialect) (ObjectBody.read left place)
      (ObjectBody.read right place) := by
  rw [ObjectBody.read, ObjectBody.read, h.required_read_eq]
  cases Required.read right place with
  | error cause => exact .error cause
  | ok required =>
      have hproperties : Outcome.Matched (SameSchemas dialect)
          (ObjectBody.readProperties left place) (ObjectBody.readProperties right place) := by
        rw [ObjectBody.readProperties, ObjectBody.readProperties]
        rcases h.properties_cases with ⟨hleft, hright⟩ | ⟨value, value', hleft, hright, hsame⟩
        · rw [hleft, hright]
          exact .ok .nil
        · rw [hleft, hright]
          rcases unannotatedProperties_eq_cases hsame with
            ⟨_, _, rfl, rfl, hlisted⟩ | ⟨rfl, hother⟩
          · exact .ok hlisted
          · cases value with
            | obj members => cases hother
            | null => exact .ok .nil
            | _ => exact .error _
      exact hproperties.bind fun _ _ hlisted => .ok ⟨rfl, hlisted⟩

theorem matched_readItems (place : Pointer) :
    Outcome.Matched (fun items items' => unannotated dialect items = unannotated dialect items')
      (readItems left place) (readItems right place) := by
  rw [readItems, readItems]
  rcases h.items_cases with ⟨hleft, hright⟩ | ⟨items, items', hleft, hright, hitems⟩
  · rw [hleft, hright]
    exact .error _
  · rw [hleft, hright]
    rcases unannotated_eq_cases hitems with ⟨_, _, rfl, rfl, hsame⟩ | ⟨rfl, _⟩
    · exact .ok hitems
    · cases items with
      | null => exact .error _
      | _ => exact .ok rfl

theorem matched_readTyped (place : Pointer) :
    Outcome.Matched (Form.Alike dialect) (Form.readTyped left place)
      (Form.readTyped right place) := by
  have hscalar (type : Primitive) : Outcome.Matched (Form.Alike dialect)
      (Form.readScalar left place type) (Form.readScalar right place type) := by
    rw [h.readScalar_eq, Form.readScalar]
    cases readValues right place with
    | error cause => exact .error cause
    | ok values => exact .ok (.scalar type values)
  rw [Form.readTyped, Form.readTyped, h.declaredType_eq]
  cases declaredType right place with
  | error cause => exact .error cause
  | ok type =>
      cases type with
      | number =>
          change Outcome.Matched _ (checkNumberFormat left place >>= _)
            (checkNumberFormat right place >>= _)
          rw [h.checkNumberFormat_eq]
          cases checkNumberFormat right place with
          | error cause => exact .error cause
          | ok _ => exact hscalar .number
      | array => exact (h.matched_readItems place).map fun _ _ hitems => .array hitems
      | object => exact (h.matched_objectBody place).map fun _ _ hbody => .object hbody
      | _ => exact hscalar _

/-- **The same schema has the same form**, but for annotations in its parts. -/
theorem matched_form (place : Pointer) :
    Outcome.Matched (Form.Alike dialect) (Form.read dialect left place)
      (Form.read dialect right place) := by
  rw [Form.read, Form.read]
  refine (h.matched_override? place).bind fun found found' hfound => ?_
  cases hfound with
  | some hfound =>
      cases hfound with
      | own block => exact .ok (.overridden block)
      | ofItems hitems block => exact .ok (.overriddenItems hitems)
  | none =>
      change Outcome.Matched _ (Form.readDeclared dialect left place)
        (Form.readDeclared dialect right place)
      rw [Form.readDeclared, Form.readDeclared, h.reference?_eq]
      cases reference? dialect right place with
      | error cause => exact .error cause
      | ok reference =>
          cases reference with
          | some reference => exact .ok (.referring reference)
          | none => exact h.matched_readTyped place

end SameSchema

end SameSchema

end StoreSchema
