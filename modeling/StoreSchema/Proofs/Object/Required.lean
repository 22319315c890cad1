/-
**Which fields of an object are required.**

The block in precedence over a property answers whether its field is required: the block of the
property when it does more than carry a reference, else that of the items when that one does.  Where
it gives no answer, the object that has the property decides, by a list of names or for all at once.
Nothing else has a say: neither the definition that a reference leads to, nor the object around an
object inside a property, nor what the descriptor said before.  An answer that is no truth value is
refused.

Main definitions:

* `decisiveBlock?`, `prevailingBlock?` — the block of an object that counts, and that over a
  property;
* `requiredAnswer?` — the answer of that block;
* `requiredFlag` — whether a field is required, by the answer and by what the object says;
* `FollowsRequired` — **that the fields of an object are required accordingly**.

Main results:

* `required_of_fieldRequired`, `not_succeeds_fieldRequired` — how the answer is found, and when it
  is refused;
* `Scope.LaysOut.followsRequired`, `Scope.not_succeeds_objectFields` — the fields of an object are
  required accordingly, or there are none;
* `Scope.required_propagates` — **and nothing else decides it**.
-/

import StoreSchema.Proofs.Attributes.Merging
import StoreSchema.Proofs.Object.Depth

set_option relaxedAutoImplicit false
set_option autoImplicit false

namespace StoreSchema

/-! ### The block that answers -/

/-- The block of an object, when it does more than carry a reference. -/
def decisiveBlock? (dialect : Dialect) (members : Members) : Option Members :=
  (some (ownBlock dialect.directiveKey members)).filter overrides

/-- The block in precedence over a property: its own, or else that of its items. -/
def prevailingBlock? (dialect : Dialect) (property : Json) : Option Members :=
  (decisiveBlock? dialect property.members).or <|
    (Entries.get? property.members "items").bind fun items => decisiveBlock? dialect items.members

/-- What the block in precedence over a property says under `required`. -/
def requiredAnswer? (dialect : Dialect) (property : Json) : Option Json :=
  (prevailingBlock? dialect property).bind fun block => Entries.get? block "required"

/-- **Whether the field called `name` is required**, by the answer of a block, and else by what the
object says under `required`: a truth value for all its fields, or a list of names. -/
def requiredFlag (rule answer : Option Json) (name : String) : Bool :=
  match answer with
  | some (.bool required) => required
  | _ =>
      match rule with
      | some (.bool required) => required
      | some (.arr listed) => decide (Json.str name ∈ listed)
      | _ => false

section Property

variable {dialect : Dialect} {members : Members} {place : Pointer}

theorem overridingBlock?_eq_ok {found : Option Members}
    (h : overridingBlock? dialect members place = .ok found) :
    found = decisiveBlock? dialect members := by
  rw [overridingBlock?, Dialect.directive?] at h
  rw [decisiveBlock?, ownBlock]
  split at h
  · next hget =>
      cases h
      rw [hget]
      rfl
  · next hget =>
      cases h
      rw [hget]
      rfl
  · cases h

theorem itemsOverride?_eq_ok {found : Option Override}
    (h : itemsOverride? dialect members place = .ok found) :
    found.map Override.block = (Entries.get? members "items").bind fun items =>
      decisiveBlock? dialect items.members := by
  rw [itemsOverride?] at h
  split at h
  · next items hitems =>
      obtain ⟨block, hblock, rfl⟩ := Outcome.map_eq_ok_iff.1 h
      rw [hitems, overridingBlock?_eq_ok hblock, Option.map_map]
      exact Option.map_id'
  · next hother =>
      cases h
      cases hitems : Entries.get? members "items" with
      | none => rfl
      | some items =>
          cases items with
          | obj items => exact absurd hitems (hother items)
          | _ => rfl

/-- The block that is found to take precedence is the one that stands over the property. -/
theorem override?_eq_ok {property : Json} {found : Option Override}
    (h : override? dialect property.members place = .ok found) :
    found.map Override.block = prevailingBlock? dialect property := by
  obtain ⟨own, hown, h⟩ := Outcome.bind_eq_ok_iff.1 h
  rw [prevailingBlock?, ← overridingBlock?_eq_ok hown]
  cases own with
  | some block =>
      cases h
      rfl
  | none => rw [Option.none_or, itemsOverride?_eq_ok h]

/-- What an object says under `required` decides where no block does. -/
theorem appliesTo_of_read {rule : Required} (h : Required.read members place = .ok rule)
    (name : String) :
    rule.appliesTo name = requiredFlag (Entries.get? members "required") none name := by
  rw [Required.read] at h
  split at h
  · next hget =>
      cases h
      rw [hget]
      rfl
  · next hget =>
      cases h
      rw [hget]
      rfl
  · next hget =>
      cases h
      rw [hget]
      rfl
  · next listed hget =>
      cases h
      rw [hget]
      change (listed.any fun item => item.asString? == some name) = decide (Json.str name ∈ listed)
      rw [Bool.eq_iff_iff, List.any_eq_true, decide_eq_true_iff]
      constructor
      · rintro ⟨item, hitem, hname⟩
        cases item <;> simp_all [Json.asString?]
      · intro hname
        exact ⟨_, hname, by simp [Json.asString?]⟩
  · cases h

/-- The rule of the object `members`, and the answer of the block over a property, decide whether
its field is required. -/
theorem required_of_fieldRequired {rule : Required} {name : String} {property : Json}
    {place' : Pointer} {required : Bool} (hrule : Required.read members place = .ok rule)
    (h : fieldRequired dialect rule name property place' = .ok required) :
    required =
      requiredFlag (Entries.get? members "required") (requiredAnswer? dialect property) name := by
  obtain ⟨found, hfound, h⟩ := Outcome.bind_eq_ok_iff.1 h
  rw [requiredAnswer?, ← override?_eq_ok hfound]
  have happlies := appliesTo_of_read hrule name
  cases found with
  | none =>
      cases h
      exact happlies
  | some found =>
      rw [Option.map_some, Option.bind_some]
      dsimp only at h
      split at h
      · next hget =>
          cases h
          rw [hget, happlies]
      · next hget =>
          cases h
          rw [hget, happlies]
          rfl
      · next hget =>
          cases h
          rw [hget]
          rfl
      · cases h

/-- An answer that is no truth value is refused, unless something else is wrong with the blocks. -/
theorem not_succeeds_fieldRequired {rule : Required} {name : String} {property value : Json}
    (hanswer : requiredAnswer? dialect property = some value) (hnull : value.kind ≠ .null)
    (hboolean : value.kind ≠ .boolean) :
    ¬(fieldRequired dialect rule name property place).Succeeds := by
  rw [fieldRequired, Outcome.succeeds_bind_iff]
  rintro ⟨found, hfound, h⟩
  rw [requiredAnswer?, ← override?_eq_ok hfound] at hanswer
  cases found with
  | none => cases hanswer
  | some found =>
      rw [Option.map_some, Option.bind_some] at hanswer
      dsimp only at h
      rw [hanswer] at h
      cases value with
      | null => exact hnull rfl
      | bool required => exact hboolean rfl
      | _ => exact Outcome.not_succeeds_error _ h

end Property

/-! ### The fields of an object -/

/-- The property that makes the field called `name`: the additional one, else the declared one. -/
def producingProperty? (members additional : Members) (name : String) : Option Json :=
  (Entries.get? additional name).or (Entries.get? (listedProperties members) name)

/-- **That the fields of an object are required as the object and the blocks say.** -/
def FollowsRequired (dialect : Dialect) (members additional : Members) (fields : FieldMap) :
    Prop :=
  ∀ name field, (name, field) ∈ fields →
    ∃ property, producingProperty? members additional name = some property ∧
      field.modifiers.required =
        requiredFlag (Entries.get? members "required") (requiredAnswer? dialect property) name

/-- Names and flags are settled by the object, the additional properties and the dialect. -/
theorem FollowsRequired.flags_eq {dialect : Dialect} {members additional : Members}
    {fields : FieldMap} (h : FollowsRequired dialect members additional fields) :
    (fields.map fun field => (field.1, field.2.modifiers.required)) =
      (Entries.keys fields).map fun name =>
        (name, requiredFlag (Entries.get? members "required")
          ((producingProperty? members additional name).bind (requiredAnswer? dialect)) name) := by
  rw [Entries.keys, List.map_map]
  refine List.map_congr_left fun entry hentry => ?_
  obtain ⟨property, hproperty, hflag⟩ := h entry.1 entry.2 hentry
  rw [hflag, Function.comp_apply, hproperty, Option.bind_some]

namespace Scope

variable {scope : Scope} {members additional : Members} {place : Pointer} {fields : FieldMap}

/-- Whether a field is required was found out. -/
theorem fieldRequired_of_entry {rule : Required} {name : String} {property : Json}
    {place' : Pointer} {field : Descriptor}
    (h : scope.entry rule name property place' = .ok (some field)) :
    fieldRequired scope.dialect rule name property place' = .ok field.modifiers.required := by
  rw [entry] at h
  split at h
  · cases h
  · obtain ⟨inner, _, h⟩ := Outcome.bind_eq_ok_iff.1 h
    obtain ⟨required, hrequired, h⟩ := Outcome.bind_eq_ok_iff.1 h
    cases h
    rw [Descriptor.modifiers_setRequired]
    exact hrequired

/-- The field that a property makes is required as the object and the blocks say. -/
theorem required_of_fills {group name : String} {property : Json} {field : Descriptor}
    (h : scope.Fills members place group fields name property)
    (hfield : Entries.get? fields name = some field) :
    field.modifiers.required =
      requiredFlag (Entries.get? members "required") (requiredAnswer? scope.dialect property)
        name := by
  obtain ⟨rule, found, hrule, hfound, hentry⟩ := h
  rw [hfield] at hfound
  cases hfound
  exact required_of_fieldRequired hrule (fieldRequired_of_entry hentry)

/-- **Fields that are laid out are required as the object and the blocks say.** -/
theorem LaysOut.followsRequired (h : scope.LaysOut members additional place fields) :
    FollowsRequired scope.dialect members additional fields := by
  intro name field hmem
  have hfield := Entries.get?_of_mem h.nodup hmem
  have hname : name ∈ fieldNames (listedProperties members) additional :=
    h.names ▸ Entries.mem_keys_of_get? hfield
  obtain ⟨hfree, hname⟩ := mem_fieldNames_iff.1 hname
  cases hadded : Entries.get? additional name with
  | some property =>
      refine ⟨property, by rw [producingProperty?, hadded, Option.some_or], ?_⟩
      exact required_of_fills (h.added name property hfree hadded) hfield
  | none =>
      have hnew := Entries.get?_eq_none_iff.1 hadded
      obtain ⟨property, hproperty⟩ := Option.isSome_iff_exists.1
        (Entries.isSome_get?_iff.2 (hname.resolve_left hnew))
      refine ⟨property, by rw [producingProperty?, hadded, Option.none_or, hproperty], ?_⟩
      exact required_of_fills (h.declared name property hfree hnew hproperty) hfield

/-- An answer that is no truth value, over a property with a free name, leaves no fields. -/
theorem not_succeeds_objectFields {name : String} {property value : Json}
    (hproperty : (name, property) ∈ listedProperties members ++ additional)
    (hname : isReserved name = false)
    (hanswer : requiredAnswer? scope.dialect property = some value) (hnull : value.kind ≠ .null)
    (hboolean : value.kind ≠ .boolean) :
    ¬(scope.objectFields members additional place).Succeeds := by
  rintro ⟨fields, h⟩
  obtain ⟨rule, declared, added, _, hdeclared, hadded, _⟩ := resolved_of_objectFields h
  have hentry : ∃ place' field, scope.entry rule name property place' = .ok (some field) := by
    rcases List.mem_append.1 hproperty with hproperty | hproperty
    · exact ⟨_, exists_entry_of_resolveProperties hdeclared hproperty hname⟩
    · exact ⟨_, exists_entry_of_resolveProperties hadded hproperty hname⟩
  obtain ⟨place', field, hentry⟩ := hentry
  exact not_succeeds_fieldRequired hanswer hnull hboolean
    ⟨_, fieldRequired_of_entry hentry⟩

/-- **Requiredness comes from the object and the blocks alone.**  The fields of an object are
required as the object itself and the blocks over its properties say; whatever references yield, and
wherever the object stands, the flags are the same.  An object inside a property has its own say.
And an answer of a block that is no truth value leaves no fields. -/
theorem required_propagates (scope : Scope) (members additional : Members) (place : Pointer) :
    (∀ fields, DistinctProperties members additional →
      scope.objectFields members additional place = .ok fields →
      FollowsRequired scope.dialect members additional fields) ∧
    (∀ (other : Scope) place' fields fields', other.dialect = scope.dialect →
      DistinctProperties members additional →
      scope.objectFields members additional place = .ok fields →
      other.objectFields members additional place' = .ok fields' →
      (fields.map fun field => (field.1, field.2.modifiers.required)) =
        fields'.map fun field => (field.1, field.2.modifiers.required)) ∧
    (∀ inner place' body descriptor,
      Form.read scope.dialect inner place' = .ok (.object body) → DistinctProperties inner [] →
      resolveField scope (.obj inner) place' = .ok descriptor →
      ∃ fields, descriptor = .embedded {} fields ∧ FollowsRequired scope.dialect inner [] fields) ∧
    (∀ name property value, (name, property) ∈ listedProperties members ++ additional →
      isReserved name = false → requiredAnswer? scope.dialect property = some value →
      value.kind ≠ .null → value.kind ≠ .boolean →
      ¬(scope.objectFields members additional place).Succeeds) := by
  refine ⟨?_, ?_, ?_, ?_⟩
  · intro fields hdistinct h
    exact (laysOut_of_objectFields hdistinct h).followsRequired
  · intro other place' fields fields' hdialect hdistinct h h'
    have hlaid := laysOut_of_objectFields hdistinct h
    have hlaid' := laysOut_of_objectFields hdistinct h'
    have hfollows' := hlaid'.followsRequired
    rw [hdialect] at hfollows'
    rw [hlaid.followsRequired.flags_eq, hfollows'.flags_eq, hlaid.names, hlaid'.names]
  · intro inner place' body descriptor hread hdistinct h
    rw [resolveField_of_object hread] at h
    obtain ⟨fields, hfields, rfl⟩ := Outcome.map_eq_ok_iff.1 h
    exact ⟨fields, rfl, (laysOut_of_objectFields hdistinct hfields).followsRequired⟩
  · intro name property value hproperty hname hanswer hnull hboolean
    exact not_succeeds_objectFields hproperty hname hanswer hnull hboolean

end Scope

/-- A ticket that requires its title and its labels, with a place that has requirements of its own;
the block over the labels asks for none. -/
def ticket : Members :=
  [("required", .arr [.str "title", .null, .str "labels", .str "street"]),
    ("properties", .obj
      [("title", .obj [("type", .str "string")]),
        ("labels", .obj
          [("type", .str "array"),
            ("items", .obj
              [("type", .str "string"),
                ("x-swagger-mongoose", .obj [("required", .bool false)])])]),
        ("owner", .obj [("$ref", .str "#/definitions/Owner")]),
        ("venue", .obj venue)])]
where
  /-- The place of a ticket. -/
  venue : Members :=
    [("type", .str "object"), ("required", .bool false),
      ("properties", .obj [("street", .obj [("type", .str "string")])])]

/-- A title that takes the place of that of a ticket, and whose block may ask for anything. -/
def retitled (answer : Json) : Members :=
  [("title", .obj
    [("type", .str "string"), ("x-swagger-mongoose", .obj [("required", answer)])])]

/-- A scope in which every reference yields a required text. -/
def textScope : Scope where
  dialect := .extended
  target? _ := none
  follow _ _ := .ok (.whole (.scalar { required := true } .string none))

/-- A ticket requires its title, whatever is known about owners; its place requires no street; and a
title whose block answers by a text is refused. -/
theorem ticket_required :
    (∃ fields fields', (ownerCatalog.scope []).objectFields ticket (retitled .null) "" =
        .ok fields ∧
      textScope.objectFields ticket (retitled .null) "/ticket" = .ok fields' ∧
      (fields.map fun field => (field.1, field.2.modifiers.required)) =
        [("title", true), ("labels", false), ("owner", false), ("venue", false)] ∧
      (fields'.map fun field => (field.1, field.2.modifiers.required)) =
        fields.map fun field => (field.1, field.2.modifiers.required)) ∧
    (∃ fields, resolveField (ownerCatalog.scope []) (.obj ticket.venue) "" =
        .ok (.embedded {} fields) ∧
      FollowsRequired .extended ticket.venue [] fields) ∧
    ¬((ownerCatalog.scope []).objectFields ticket (retitled (.str "yes")) "").Succeeds := by
  have hdistinct : DistinctProperties ticket (retitled .null) := ⟨by decide, by decide⟩
  obtain ⟨hfollows, hindependent, _, _⟩ :=
    (ownerCatalog.scope []).required_propagates ticket (retitled .null) ""
  refine ⟨?_, ?_, ?_⟩
  · have hsucceeds : ((ownerCatalog.scope []).objectFields ticket (retitled .null) "").Succeeds :=
      by decide +kernel
    have hsucceeds' : (textScope.objectFields ticket (retitled .null) "/ticket").Succeeds := by
      decide +kernel
    obtain ⟨fields, h⟩ := hsucceeds
    obtain ⟨fields', h'⟩ := hsucceeds'
    refine ⟨fields, fields', h, h', ?_, ?_⟩
    · rw [(hfollows fields hdistinct h).flags_eq,
        (Scope.laysOut_of_objectFields hdistinct h).names]
      decide +kernel
    · exact (hindependent textScope "/ticket" fields fields' rfl hdistinct h h').symm
  · have hsucceeds : (resolveField (ownerCatalog.scope []) (.obj ticket.venue) "").Succeeds := by
      decide +kernel
    obtain ⟨descriptor, h⟩ := hsucceeds
    obtain ⟨fields, rfl, hvenue⟩ := ((ownerCatalog.scope []).required_propagates ticket
      (retitled .null) "").2.2.1 ticket.venue "" _ descriptor rfl ⟨by decide, by decide⟩ h
    exact ⟨fields, h, hvenue⟩
  · exact ((ownerCatalog.scope []).required_propagates ticket (retitled (.str "yes")) "").2.2.2
      "title" _ (.str "yes") (List.mem_append_right _ (List.mem_singleton_self _)) (by decide)
      (by decide +kernel) (by decide) (by decide)

end StoreSchema
