/-
**Well-formed definitions.**

Whether a definition without directive blocks compiles can be told from its own text, up to the
references in it.  This module says how: a property is a reference, by itself or on its items, or
declares a type whose further keywords fit it; an object lists well-formed properties; a definition
is one or the other.  Which references are good is a parameter.

Main definitions:

* `Holds` — the kinds that the value under a key may be of;
* `WellFormedProperty`, `WellFormedObject` — **well-formed properties and objects**;
* `WellFormedDefinition` — well-formed definitions.

Main results:

* `resolveField_succeeds_iff` — **a property without blocks is resolved exactly when it is
  well-formed**, for the references that can be followed;
* `Scope.tree_succeeds_iff` — and so is a definition.
-/

import StoreSchema.Proofs.Property.Parts
import StoreSchema.Proofs.Property.Plain

set_option relaxedAutoImplicit false
set_option autoImplicit false

namespace StoreSchema

/-! ### The conditions on one text -/

/-- That the value under a key, if there is one, is of one of the kinds. -/
def Holds (members : Members) (key : String) (kinds : List Json.Kind) : Prop :=
  ∀ value, Entries.get? members key = some value → value.kind ∈ kinds

/-- That the format of a number, if there is one, is null or a known word. -/
def HoldsNumberFormat (members : Members) : Prop :=
  ∀ format, Entries.get? members "format" = some format →
    format = .null ∨ ∃ word ∈ numberFormats, format = .str word

/-- That the property declares the type in words. -/
def Declares (members : Members) (type : DeclaredType) : Prop :=
  ∃ word, Entries.get? members "type" = some (.str word) ∧ DeclaredType.parse? word = some type

/-- That neither the property nor its items hold anything under `$ref`. -/
structure Unreferring (members : Members) : Prop where
  /-- The property does not. -/
  own : Entries.get? members "$ref" = none
  /-- Its items do not. -/
  items : ∀ items, Entries.get? members "items" = some (.obj items) →
    Entries.get? items "$ref" = none

mutual

/-- **A well-formed property**, with references that are `good`. -/
inductive WellFormedProperty (good : String → Prop) : Json → Prop where
  /-- A property with a reference. -/
  | direct {members : Members} {reference : String}
      (href : Entries.get? members "$ref" = some (.str reference)) (hgood : good reference) :
      WellFormedProperty good (.obj members)
  /-- A property whose items have a reference. -/
  | byItems {members items : Members} {reference : String}
      (hown : Entries.get? members "$ref" = none)
      (hitems : Entries.get? members "items" = some (.obj items))
      (href : Entries.get? items "$ref" = some (.str reference)) (hgood : good reference) :
      WellFormedProperty good (.obj members)
  /-- A scalar. -/
  | scalar {members : Members} {type : DeclaredType} (hrefs : Unreferring members)
      (htype : Declares members type) (hscalar : type.isComposite = false)
      (hformat : type = .number → HoldsNumberFormat members)
      (hvalues : Holds members "enum" [.null, .array]) : WellFormedProperty good (.obj members)
  /-- An array of its items. -/
  | array {members : Members} {items : Json} (hrefs : Unreferring members)
      (htype : Declares members .array) (hitems : Entries.get? members "items" = some items)
      (hproperty : WellFormedProperty good items) : WellFormedProperty good (.obj members)
  /-- An embedded object. -/
  | object {members : Members} (hrefs : Unreferring members) (htype : Declares members .object)
      (hobject : WellFormedObject good members) : WellFormedProperty good (.obj members)

/-- **A well-formed object**, with references that are `good`. -/
inductive WellFormedObject (good : String → Prop) : Members → Prop where
  /-- The properties whose names are not reserved are well-formed. -/
  | intro {members : Members} (hrequired : Holds members "required" [.null, .boolean, .array])
      (hproperties : Holds members "properties" [.null, .object])
      (hproperty : ∀ properties, Entries.get? members "properties" = some (.obj properties) →
        ∀ entry ∈ properties, isReserved entry.1 = false → WellFormedProperty good entry.2) :
      WellFormedObject good members

end

/-- That a definition is meant as an object: it has properties, or declares no other type. -/
def MeansObject (members : Members) : Prop :=
  (Entries.get? members "properties").isSome ∨
    ∀ type, Entries.get? members "type" = some type → type = .null ∨ type = .str "object"

/-- **A well-formed definition**: an object, or a property that may say whether it is required. -/
def WellFormedDefinition (good : String → Prop) (members : Members) : Prop :=
  (MeansObject members → WellFormedObject good members) ∧
    (¬MeansObject members → WellFormedProperty good (.obj members) ∧
      Holds members "required" [.null, .boolean, .array])

/-! ### More references are good -/

section Mono

variable {good better : String → Prop}

mutual

theorem WellFormedProperty.mono (h : ∀ reference, good reference → better reference) :
    ∀ {property : Json}, WellFormedProperty good property → WellFormedProperty better property
  | _, .direct href hgood => .direct href (h _ hgood)
  | _, .byItems hown hitems href hgood => .byItems hown hitems href (h _ hgood)
  | _, .scalar hrefs htype hscalar hformat hvalues => .scalar hrefs htype hscalar hformat hvalues
  | _, .array hrefs htype hitems hproperty => .array hrefs htype hitems (hproperty.mono h)
  | _, .object hrefs htype hobject => .object hrefs htype (hobject.mono h)

theorem WellFormedObject.mono (h : ∀ reference, good reference → better reference) :
    ∀ {members : Members}, WellFormedObject good members → WellFormedObject better members
  | _, .intro hrequired hproperties hproperty =>
      .intro hrequired hproperties fun properties hget entry hentry hreserved =>
        (hproperty properties hget entry hentry hreserved).mono h

end

theorem WellFormedDefinition.mono (h : ∀ reference, good reference → better reference)
    {members : Members} (hdef : WellFormedDefinition good members) :
    WellFormedDefinition better members :=
  ⟨fun hobject => (hdef.1 hobject).mono h,
    fun hobject => ⟨(hdef.2 hobject).1.mono h, (hdef.2 hobject).2⟩⟩

end Mono

/-! ### What each reader accepts -/

section Readers

variable (members : Members) (place : Pointer)

theorem succeeds_required_read_iff :
    (Required.read members place).Succeeds ↔
      Holds members "required" [.null, .boolean, .array] := by
  rw [Required.read, Holds]
  cases h : Entries.get? members "required" with
  | none => simp
  | some value => cases value <;> simp [Json.kind]

theorem succeeds_readProperties_iff :
    (ObjectBody.readProperties members place).Succeeds ↔
      Holds members "properties" [.null, .object] := by
  rw [ObjectBody.readProperties, Holds]
  cases h : Entries.get? members "properties" with
  | none => simp
  | some value => cases value <;> simp [Json.kind]

theorem succeeds_readValues_iff :
    (readValues members place).Succeeds ↔ Holds members "enum" [.null, .array] := by
  rw [readValues, Holds]
  cases h : Entries.get? members "enum" with
  | none => simp
  | some value => cases value <;> simp [Json.kind]

theorem succeeds_checkNumberFormat_iff :
    (checkNumberFormat members place).Succeeds ↔ HoldsNumberFormat members := by
  rw [checkNumberFormat, HoldsNumberFormat]
  cases h : Entries.get? members "format" with
  | none => simp
  | some value =>
      cases value with
      | str word => by_cases hword : word ∈ numberFormats <;> simp [Json.asString?, hword]
      | _ => simp [Json.asString?]

theorem declaredType_eq_ok_iff {type : DeclaredType} :
    declaredType members place = .ok type ↔ Declares members type := by
  rw [declaredType, Declares]
  cases h : Entries.get? members "type" with
  | none => simp
  | some value =>
      cases value with
      | str word => cases hword : DeclaredType.parse? word <;> simp [Json.asString?, hword]
      | _ => simp [Json.asString?]

theorem readItems_eq_ok_iff {items : Json} :
    readItems members place = .ok items ↔
      Entries.get? members "items" = some items ∧ items ≠ .null := by
  rw [readItems]
  cases h : Entries.get? members "items" with
  | none => simp
  | some value =>
      cases value <;> simp only [Except.ok.injEq, Option.some.injEq] <;> grind

end Readers

/-! ### Well-formed properties by their first keywords -/

section Inversion

variable {good : String → Prop} {members items : Members} {value : Json}

theorem wellFormedProperty_iff_of_ref (href : Entries.get? members "$ref" = some value) :
    WellFormedProperty good (.obj members) ↔
      ∃ reference, value = .str reference ∧ good reference := by
  constructor
  · intro h
    cases h with
    | direct hget hgood =>
        rw [href] at hget
        cases hget
        exact ⟨_, rfl, hgood⟩
    | byItems hown => simp [href] at hown
    | scalar hrefs => exact absurd hrefs.own (by simp [href])
    | array hrefs => exact absurd hrefs.own (by simp [href])
    | object hrefs => exact absurd hrefs.own (by simp [href])
  · rintro ⟨reference, rfl, hgood⟩
    exact .direct href hgood

theorem wellFormedProperty_iff_of_items_ref (hown : Entries.get? members "$ref" = none)
    (hitems : Entries.get? members "items" = some (.obj items))
    (href : Entries.get? items "$ref" = some value) :
    WellFormedProperty good (.obj members) ↔
      ∃ reference, value = .str reference ∧ good reference := by
  constructor
  · intro h
    cases h with
    | direct hget => simp [hown] at hget
    | byItems _ hget hget' hgood =>
        rw [hitems] at hget
        cases hget
        rw [href] at hget'
        cases hget'
        exact ⟨_, rfl, hgood⟩
    | scalar hrefs => exact absurd (hrefs.items items hitems) (by simp [href])
    | array hrefs => exact absurd (hrefs.items items hitems) (by simp [href])
    | object hrefs => exact absurd (hrefs.items items hitems) (by simp [href])
  · rintro ⟨reference, rfl, hgood⟩
    exact .byItems hown hitems href hgood

theorem Declares.unique {type type' : DeclaredType} (h : Declares members type)
    (h' : Declares members type') : type = type' := by
  obtain ⟨word, hword, hparse⟩ := h
  obtain ⟨word', hword', hparse'⟩ := h'
  rw [hword] at hword'
  cases hword'
  rw [hparse] at hparse'
  exact Option.some.inj hparse'

/-- A well-formed property without references declares a type. -/
theorem WellFormedProperty.declares (hrefs : Unreferring members)
    (h : WellFormedProperty good (.obj members)) : ∃ type, Declares members type := by
  cases h with
  | direct hget => simp [hrefs.own] at hget
  | byItems _ hitems href => simp [hrefs.items _ hitems] at href
  | scalar _ htype => exact ⟨_, htype⟩
  | array _ htype => exact ⟨_, htype⟩
  | object _ htype => exact ⟨_, htype⟩

theorem wellFormedProperty_iff_of_scalar (hrefs : Unreferring members) {type : DeclaredType}
    (htype : Declares members type) (hscalar : type.isComposite = false) :
    WellFormedProperty good (.obj members) ↔
      (type = .number → HoldsNumberFormat members) ∧ Holds members "enum" [.null, .array] := by
  constructor
  · intro h
    cases h with
    | direct hget => simp [hrefs.own] at hget
    | byItems _ hitems href => simp [hrefs.items _ hitems] at href
    | scalar _ htype' _ hformat hvalues =>
        rw [htype.unique htype']
        exact ⟨hformat, hvalues⟩
    | array _ htype' =>
        rw [htype.unique htype'] at hscalar
        cases hscalar
    | object _ htype' =>
        rw [htype.unique htype'] at hscalar
        cases hscalar
  · rintro ⟨hformat, hvalues⟩
    exact .scalar hrefs htype hscalar hformat hvalues

theorem wellFormedProperty_iff_of_array (hrefs : Unreferring members)
    (htype : Declares members .array) :
    WellFormedProperty good (.obj members) ↔
      ∃ items, Entries.get? members "items" = some items ∧ WellFormedProperty good items := by
  constructor
  · intro h
    cases h with
    | direct hget => simp [hrefs.own] at hget
    | byItems _ hitems href => simp [hrefs.items _ hitems] at href
    | scalar _ htype' hscalar =>
        rw [← htype.unique htype'] at hscalar
        cases hscalar
    | array _ _ hitems hproperty => exact ⟨_, hitems, hproperty⟩
    | object _ htype' => cases htype.unique htype'
  · rintro ⟨items, hitems, hproperty⟩
    exact .array hrefs htype hitems hproperty

theorem wellFormedProperty_iff_of_object (hrefs : Unreferring members)
    (htype : Declares members .object) :
    WellFormedProperty good (.obj members) ↔ WellFormedObject good members := by
  constructor
  · intro h
    cases h with
    | direct hget => simp [hrefs.own] at hget
    | byItems _ hitems href => simp [hrefs.items _ hitems] at href
    | scalar _ htype' hscalar =>
        rw [← htype.unique htype'] at hscalar
        cases hscalar
    | array _ htype' => cases htype.unique htype'
    | object _ _ hobject => exact hobject
  · exact .object hrefs htype

/-- What is no object is no well-formed property. -/
theorem WellFormedProperty.isObject {property : Json} (h : WellFormedProperty good property) :
    property.isObject = true := by cases h <;> rfl

end Inversion

/-! ### Resolving without blocks -/

/-- In a value that lacks the key of blocks, no block takes precedence. -/
theorem blockFree_of_lacks {dialect : Dialect} {property : Json}
    (h : property.Lacks dialect.directiveKey) : BlockFree dialect property.members where
  own := by
    cases property with
    | obj members => exact h.get?_eq_none
    | _ => rfl
  items := by
    intro items hitems
    cases property with
    | obj members =>
        have hlacks : (Json.obj items).Lacks dialect.directiveKey :=
          h.of_mem (Json.mem_deepEntries_of_get? hitems)
        exact hlacks.get?_eq_none
    | _ => cases hitems

theorem fieldRequired_of_blockFree {dialect : Dialect} {property : Json}
    (h : BlockFree dialect property.members) (rule : Required) (name : String) (place : Pointer) :
    fieldRequired dialect rule name property place = .ok (rule.appliesTo name) := by
  rw [fieldRequired, h.override?_eq_none]
  rfl

section Resolving

variable {scope : Scope} {good : String → Prop}

theorem Scope.entry_succeeds_iff {property : Json} (h : BlockFree scope.dialect property.members)
    (rule : Required) (name : String) (place : Pointer) :
    (scope.entry rule name property place).Succeeds ↔
      (isReserved name = false → (resolveField scope property place).Succeeds) := by
  rw [entry]
  split
  · next hreserved => simp [hreserved]
  · next hreserved =>
      rw [Bool.not_eq_true] at hreserved
      simp only [hreserved, forall_const, fieldRequired_of_blockFree h]
      exact Outcome.succeeds_bind_pure_iff

/-- Listed properties are resolved when each of them is, reserved names apart. -/
theorem resolveProperties_succeeds_iff {properties : Members}
    (hlacks : ∀ entry ∈ properties, entry.2.Lacks scope.dialect.directiveKey) (rule : Required)
    (place : Pointer) :
    (resolveProperties scope rule place properties).Succeeds ↔
      ∀ entry ∈ properties, isReserved entry.1 = false →
        (resolveField scope entry.2 (place.child entry.1)).Succeeds := by
  induction properties with
  | nil => simp [resolveProperties_nil]
  | cons first rest ih =>
      obtain ⟨name, property⟩ := first
      have hfirst := blockFree_of_lacks (hlacks (name, property) (List.mem_cons_self ..))
      have hrest := ih fun entry hentry => hlacks entry (List.mem_cons_of_mem _ hentry)
      rw [resolveProperties_cons, List.forall_mem_cons, ← hrest, ← Scope.entry_succeeds_iff hfirst]
      refine Outcome.succeeds_bind_iff_and fun found => ?_
      exact Outcome.succeeds_bind_pure_iff

/-- The object at a place is read when its keywords are of the right kinds, and its properties are
those that it lists. -/
theorem ObjectBody.read_succeeds_iff {members : Members} {place : Pointer} :
    (ObjectBody.read members place).Succeeds ↔
      Holds members "required" [.null, .boolean, .array] ∧
        Holds members "properties" [.null, .object] := by
  rw [← succeeds_required_read_iff members place, ← succeeds_readProperties_iff members place]
  refine Outcome.succeeds_bind_iff_and fun required => ?_
  exact Outcome.succeeds_bind_pure_iff

/-- The properties of an object are resolved exactly when the object is well-formed, if each of them
is resolved exactly when it is well-formed. -/
theorem resolveBody_succeeds_iff {members : Members}
    (hlacks : (Json.obj members).Lacks scope.dialect.directiveKey)
    (hproperty : ∀ properties, Entries.get? members "properties" = some (.obj properties) →
      ∀ entry ∈ properties, ∀ place,
        (resolveField scope entry.2 place).Succeeds ↔ WellFormedProperty good entry.2)
    (place place' : Pointer) :
    (∃ body, ObjectBody.read members place = .ok body ∧
        (resolveProperties scope body.required place' body.properties).Succeeds) ↔
      WellFormedObject good members := by
  -- whatever is listed, it is resolved when each property is well-formed
  have hlisted {body : ObjectBody} (hbody : ObjectBody.read members place = .ok body) :
      (resolveProperties scope body.required place' body.properties).Succeeds ↔
        ∀ properties, Entries.get? members "properties" = some (.obj properties) →
          ∀ entry ∈ properties, isReserved entry.1 = false → WellFormedProperty good entry.2 := by
    rw [resolveProperties_succeeds_iff]
    · rw [ObjectBody.properties_of_read hbody]
      cases hget : Entries.get? members "properties" with
      | none => simp
      | some listed =>
          cases listed with
          | obj properties =>
              simp only [Option.map_some, Json.members_obj, Option.getD_some, Option.some.injEq,
                Json.obj.injEq, forall_eq']
              refine forall₂_congr fun entry hentry => ?_
              rw [hproperty properties hget entry hentry]
          | _ => simp [Json.members]
    · intro entry hentry
      exact hlacks.of_mem (ObjectBody.mem_deepEntries_of_read hbody hentry)
  constructor
  · rintro ⟨body, hbody, hresolved⟩
    obtain ⟨hrequired, hproperties⟩ := ObjectBody.read_succeeds_iff.1 ⟨body, hbody⟩
    exact .intro hrequired hproperties ((hlisted hbody).1 hresolved)
  · rintro ⟨hrequired, hproperties, hwell⟩
    have hread : (ObjectBody.read members place).Succeeds :=
      ObjectBody.read_succeeds_iff.2 ⟨hrequired, hproperties⟩
    obtain ⟨body, hbody⟩ := hread
    exact ⟨body, hbody, (hlisted hbody).2 hwell⟩

/-- A scalar is resolved exactly when its format and its values are of the right kinds. -/
theorem performTyped_succeeds_iff_of_scalar {members : Members} {place : Pointer}
    {type : DeclaredType} (htype : declaredType members place = .ok type)
    (hscalar : type.isComposite = false) :
    (Form.readTyped members place >>= scope.perform members place).Succeeds ↔
      (type = .number → HoldsNumberFormat members) ∧ Holds members "enum" [.null, .array] := by
  have hvalues (primitive : Primitive) :
      (Form.readScalar members place primitive >>= scope.perform members place).Succeeds ↔
        Holds members "enum" [.null, .array] := by
    rw [← succeeds_readValues_iff members place, Form.readScalar]
    cases readValues members place with
    | error cause => exact iff_of_false (Outcome.not_succeeds_error cause) (by simp)
    | ok values => exact iff_of_true ⟨_, rfl⟩ ⟨_, rfl⟩
  rw [Form.readTyped, htype]
  cases type with
  | number =>
      rw [← succeeds_checkNumberFormat_iff members place, forall_prop_of_true rfl]
      change ((do
        checkNumberFormat members place
        Form.readScalar members place .number) >>= scope.perform members place).Succeeds ↔ _
      rw [bind_assoc]
      exact Outcome.succeeds_bind_iff_and fun _ => hvalues .number
  | array => cases hscalar
  | object => cases hscalar
  | _ => exact (hvalues _).trans (by simp)

/-- A property that refers is resolved exactly when the reference is good. -/
theorem resolveField_succeeds_iff_of_reference
    (hfollow : ∀ reference place, (scope.follow reference place).Succeeds ↔ good reference)
    {members : Members} (hfree : BlockFree scope.dialect members) {place place' : Pointer}
    {value : Json} (h : reference? scope.dialect members place = readReference value place') :
    (resolveField scope (.obj members) place).Succeeds ↔
      ∃ reference, value = .str reference ∧ good reference := by
  rw [resolveField_obj, Form.read_of_blockFree hfree, Form.readDeclared, h]
  cases value with
  | str reference =>
      simp only [Json.str.injEq, exists_eq_left', ← hfollow reference place]
      exact Outcome.succeeds_map_iff
  | _ => exact iff_of_false (Outcome.not_succeeds_error _) (by simp)

section Inner

variable {members : Members} (hlacks : (Json.obj members).Lacks scope.dialect.directiveKey)
  (hinner : ∀ inner : Json, inner.weight < (Json.obj members).weight →
    inner.Lacks scope.dialect.directiveKey → ∀ place,
    (resolveField scope inner place).Succeeds ↔ WellFormedProperty good inner)
include hlacks hinner

/-- An array is resolved exactly when its items are well-formed. -/
theorem performTyped_succeeds_iff_of_array {place : Pointer}
    (htype : declaredType members place = .ok .array) :
    (Form.readTyped members place >>= scope.perform members place).Succeeds ↔
      ∃ items, Entries.get? members "items" = some items ∧ WellFormedProperty good items := by
  rw [Form.readTyped, htype]
  change Outcome.Succeeds
    ((readItems members place).map Form.array >>= scope.perform members place) ↔ _
  cases hread : readItems members place with
  | error cause =>
      refine iff_of_false (Outcome.not_succeeds_error cause) ?_
      rintro ⟨items, hitems, hproperty⟩
      have hnull : items ≠ .null := by
        rintro rfl
        cases hproperty.isObject
      rw [(readItems_eq_ok_iff members place).2 ⟨hitems, hnull⟩] at hread
      cases hread
  | ok items =>
      obtain ⟨hitems, _⟩ := (readItems_eq_ok_iff members place).1 hread
      have hlighter : items.weight < (Json.obj members).weight := by
        have := Json.weight_of_get? hitems
        simp only [Json.weight]
        omega
      have hitemsLacks : items.Lacks scope.dialect.directiveKey :=
        hlacks.of_mem (Json.mem_deepEntries_of_get? hitems)
      simp only [hitems, Option.some.injEq, exists_eq_left']
      rw [← hinner items hlighter hitemsLacks (place.child "items")]
      exact Outcome.succeeds_map_iff

/-- An embedded object is resolved exactly when it is well-formed. -/
theorem performTyped_succeeds_iff_of_object {place : Pointer}
    (htype : declaredType members place = .ok .object) :
    (Form.readTyped members place >>= scope.perform members place).Succeeds ↔
      WellFormedObject good members := by
  have hproperty : ∀ properties, Entries.get? members "properties" = some (.obj properties) →
      ∀ entry ∈ properties, ∀ place,
        (resolveField scope entry.2 place).Succeeds ↔ WellFormedProperty good entry.2 := by
    intro properties hget entry hentry place
    have hlighter : entry.2.weight < (Json.obj members).weight := by
      have hlisted := Json.weight_of_get? hget
      have hlisting := Json.weight_of_mem hentry
      simp only [Json.weight] at hlisted ⊢
      omega
    exact hinner entry.2 hlighter (hlacks.of_mem (Json.mem_deepEntries_of_listed hget hentry)) place
  rw [← resolveBody_succeeds_iff hlacks hproperty place (place.child "properties"), Form.readTyped,
    htype]
  change Outcome.Succeeds
    ((ObjectBody.read members place).map Form.object >>= scope.perform members place) ↔ _
  cases ObjectBody.read members place with
  | error cause => exact iff_of_false (Outcome.not_succeeds_error cause) (by simp)
  | ok body =>
      simp only [Except.ok.injEq, exists_eq_left']
      exact Outcome.succeeds_map_iff

/-- A property that declares a type is resolved exactly when the keywords of that type fit it. -/
theorem performTyped_succeeds_iff (hrefs : Unreferring members) (place : Pointer) :
    (Form.readTyped members place >>= scope.perform members place).Succeeds ↔
      WellFormedProperty good (.obj members) := by
  cases hread : declaredType members place with
  | error cause =>
      refine iff_of_false ?_ fun h => ?_
      · rw [Form.readTyped, hread]
        exact Outcome.not_succeeds_error cause
      · obtain ⟨type, htype⟩ := h.declares hrefs
        rw [(declaredType_eq_ok_iff members place).2 htype] at hread
        cases hread
  | ok type =>
      have htype := (declaredType_eq_ok_iff members place).1 hread
      cases hcomposite : type.isComposite with
      | false =>
          rw [performTyped_succeeds_iff_of_scalar hread hcomposite,
            wellFormedProperty_iff_of_scalar hrefs htype hcomposite]
      | true =>
          cases type with
          | array =>
              rw [performTyped_succeeds_iff_of_array hlacks hinner hread,
                wellFormedProperty_iff_of_array hrefs htype]
          | object =>
              rw [performTyped_succeeds_iff_of_object hlacks hinner hread,
                wellFormedProperty_iff_of_object hrefs htype]
          | _ => cases hcomposite

end Inner

/-- **A property without blocks is resolved exactly when it is well-formed**, for the references
that can be followed. -/
theorem resolveField_succeeds_iff
    (hfollow : ∀ reference place, (scope.follow reference place).Succeeds ↔ good reference)
    {property : Json} (hlacks : property.Lacks scope.dialect.directiveKey) (place : Pointer) :
    (resolveField scope property place).Succeeds ↔ WellFormedProperty good property := by
  induction hweight : property.weight using Nat.strongRecOn generalizing property place with
  | _ weight ih =>
      subst hweight
      cases hobject : property.isObject with
      | false =>
          rw [resolveField_of_not_isObject hobject]
          refine iff_of_false (Outcome.not_succeeds_error _) fun h => ?_
          rw [h.isObject] at hobject
          cases hobject
      | true =>
          obtain ⟨members, rfl⟩ : ∃ members, property = .obj members :=
            ⟨_, Json.isObject_iff.1 hobject⟩
          have hfree : BlockFree scope.dialect members := blockFree_of_lacks hlacks
          -- a reference of the property precedes one of its items, and both precede the type
          cases hown : Entries.get? members "$ref" with
          | some value =>
              rw [wellFormedProperty_iff_of_ref hown]
              exact resolveField_succeeds_iff_of_reference hfollow hfree (reference?_of_own hown)
          | none =>
              by_cases hitems : ∃ items value, Entries.get? members "items" = some (.obj items) ∧
                  Entries.get? items "$ref" = some value
              · obtain ⟨items, value, hget, hvalue⟩ := hitems
                rw [wellFormedProperty_iff_of_items_ref hown hget hvalue]
                exact resolveField_succeeds_iff_of_reference hfollow hfree
                  (reference?_of_items hfree hown hget hvalue)
              · have hrefs : Unreferring members := by
                  refine ⟨hown, fun items hget => Option.eq_none_iff_forall_ne_some.2 ?_⟩
                  exact fun value hvalue => hitems ⟨items, value, hget, hvalue⟩
                rw [resolveField_obj, Form.read_of_blockFree hfree, Form.readDeclared,
                  reference?_of_none hfree hrefs.own hrefs.items]
                refine performTyped_succeeds_iff hlacks ?_ hrefs place
                exact fun inner hlighter hinner place => ih _ hlighter hinner place rfl

/-! ### Definitions without blocks -/

theorem Scope.describesObject_iff {members : Members} :
    describesObject members = true ↔ MeansObject members := by
  rw [describesObject, MeansObject, Bool.or_eq_true, Entries.contains]
  refine or_congr Iff.rfl ?_
  cases h : Entries.get? members "type" with
  | none => simp
  | some value => cases value <;> simp [Json.asString?]

/-- **A definition without blocks compiles exactly when it is well-formed**, for the references that
can be followed. -/
theorem Scope.tree_succeeds_iff
    (hfollow : ∀ reference place, (scope.follow reference place).Succeeds ↔ good reference)
    {type : TypeDefinition} (hlacks : (Json.obj type.body).Lacks scope.dialect.directiveKey)
    (hadditional : type.directives.additional = []) (name : String) :
    (scope.tree name type).Succeeds ↔ WellFormedDefinition good type.body := by
  have hproperty : ∀ properties, Entries.get? type.body "properties" = some (.obj properties) →
      ∀ entry ∈ properties, ∀ place,
        (resolveField scope entry.2 place).Succeeds ↔ WellFormedProperty good entry.2 := by
    intro properties hget entry hentry place
    have hlisted := hlacks.of_mem (Json.mem_deepEntries_of_listed hget hentry)
    exact resolveField_succeeds_iff hfollow hlisted place
  rw [tree, WellFormedDefinition]
  cases hobject : describesObject type.body with
  | true =>
      have hmeans := describesObject_iff.1 hobject
      rw [if_pos rfl, Outcome.succeeds_map_iff, hadditional, objectFields,
        Outcome.succeeds_bind_iff]
      simp only [hmeans, forall_const, not_true, false_implies, and_true]
      rw [← resolveBody_succeeds_iff hlacks hproperty (Pointer.definition name)
        ((Pointer.definition name).child "properties")]
      refine exists_congr fun body => and_congr_right fun _ => ?_
      refine (Outcome.succeeds_bind_iff_and fun declared => ?_).trans (and_iff_left trivial)
      rw [resolveProperties_nil]
      exact iff_of_true ⟨_, rfl⟩ trivial
  | false =>
      have hmeans : ¬MeansObject type.body := by
        rw [← describesObject_iff, hobject]
        exact Bool.false_ne_true
      rw [if_neg Bool.false_ne_true, Outcome.succeeds_map_iff, wholeField]
      simp only [hmeans, false_implies, not_false_eq_true, forall_const, true_and]
      rw [Entries.erase_eq_self hlacks.get?_eq_none, ← resolveField_succeeds_iff hfollow hlacks,
        ← succeeds_required_read_iff type.body (Pointer.definition name)]
      refine Outcome.succeeds_bind_iff_and fun field => ?_
      exact Outcome.succeeds_bind_pure_iff

end Resolving

end StoreSchema
