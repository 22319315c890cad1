/-
**Resolving a property, step by step.**

`resolveField` reads the form of a property and then resolves its parts: the property with its block
worked in, the items, or the listed properties.  This module states that step as one equation,
names the parts, and derives from them the induction principle that all statements about resolving
share: what holds of a property as soon as it holds of all its parts holds of every property.

Main definitions:

* `Scope.baseField`, `Scope.overrideField` — what a block builds on, and the descriptor of a
  property whose block takes precedence;
* `Scope.perform` — the descriptor that a form yields;
* `Scope.entry` — the field of one listed property;
* `listedProperties`, `ResolvedFrom` — the properties that an object lists, and that a field comes
  from one of them;
* `Form.Part` — the properties that are resolved in turn for a form.

Main results:

* `resolveField_obj` — **resolving is reading the form and performing it**;
* `resolveField_of_ofItems` — items that carry a block in precedence are resolved by it;
* `resolveProperties_eq_ok_iff`, `Scope.resolved_of_objectFields` — **listed properties are resolved
  one by one**, and so are those of an object;
* `Form.read_cases`, `Form.readTyped_cases` — what the form of a property can be;
* `Form.weight_of_part`, `Form.deepMembers_of_part` — a part is lighter than the property, and
  nothing stands in it that does not stand in the property;
* `Form.part_induction` — **induction over the parts of a property**.
-/

import StoreSchema.Links
import StoreSchema.Proofs.Json.Depth
import StoreSchema.Proofs.Paired

set_option relaxedAutoImplicit false
set_option autoImplicit false

namespace StoreSchema

/-! ### One step -/

namespace Scope

/-- The descriptor that a block builds on: an identifier, or the property with the block worked
in. -/
def baseField (scope : Scope) (block members : Members) (place : Pointer)
    (validator : Option String) : Outcome Descriptor :=
  if storesIdentifier block then scope.identifierField block members place
  else resolveField scope (.obj (retyped scope.dialect.directiveKey validator block members)) place

/-- The descriptor of the property at `place` whose block takes precedence. -/
def overrideField (scope : Scope) (block members : Members) (place : Pointer) :
    Outcome Descriptor := do
  let validator ← validatorName? scope.dialect block place
  let field ← scope.baseField block members place validator
  return decorate validator block field

/-- The descriptor that a form of the property at `place` yields. -/
def perform (scope : Scope) (members : Members) (place : Pointer) : Form → Outcome Descriptor
  | .overridden block => scope.overrideField block members place
  | .overriddenItems items =>
      (resolveField scope (.obj items) (place.child "items")).map (Descriptor.array {})
  | .referring reference =>
      (scope.follow reference place).map (Linked.descriptor (isArrayProperty members))
  | .scalar type values => .ok (.scalar {} type values)
  | .array items => (resolveField scope items (place.child "items")).map (Descriptor.array {})
  | .object body =>
      (resolveProperties scope body.required (place.child "properties") body.properties).map
        fun fields => .embedded {} (Entries.ofList fields)

/-- The field of one listed property at `place`; nothing for a name that the store keeps. -/
def entry (scope : Scope) (rule : Required) (name : String) (property : Json) (place : Pointer) :
    Outcome (Option Descriptor) :=
  if isReserved name then .ok none
  else do
    let field ← resolveField scope property place
    let required ← fieldRequired scope.dialect rule name property place
    return some (field.setRequired required)

end Scope

/-- **Resolving a property is reading its form and performing it.** -/
theorem resolveField_obj (scope : Scope) (members : Members) (place : Pointer) :
    resolveField scope (.obj members) place =
      Form.read scope.dialect members place >>= scope.perform members place := by
  rw [resolveField]
  split
  case h_2 block h =>
    rw [h]
    change _ = scope.overrideField block members place
    rw [Scope.overrideField]
    congr 1
    funext validator
    rw [Scope.baseField]
    split <;> rfl
  all_goals
    next h =>
      rw [h]
      rfl

theorem resolveField_of_read {scope : Scope} {members : Members} {place : Pointer} {form : Form}
    (h : Form.read scope.dialect members place = .ok form) :
    resolveField scope (.obj members) place = scope.perform members place form := by
  rw [resolveField_obj, h]
  rfl

/-- The items that carry the block which takes precedence are resolved by it. -/
theorem resolveField_of_ofItems {scope : Scope} {members items block : Members} {place : Pointer}
    (h : override? scope.dialect members place = .ok (some (.ofItems items block))) :
    Entries.get? items scope.dialect.directiveKey = some (.obj block) ∧
      resolveField scope (.obj items) (place.child "items") =
        scope.overrideField block items (place.child "items") := by
  have hitems : override? scope.dialect items (place.child "items") = .ok (some (.own block)) := by
    obtain ⟨own, _, h⟩ := Outcome.bind_eq_ok_iff.1 h
    cases own with
    | some own => cases h
    | none =>
        change itemsOverride? scope.dialect members place = _ at h
        rw [itemsOverride?] at h
        split at h
        · obtain ⟨found, hfound, h⟩ := Outcome.map_eq_ok_iff.1 h
          obtain ⟨found, rfl, h⟩ := Option.map_eq_some_iff.1 h
          cases h
          rw [override?, hfound]
          rfl
        · cases h
  have hread : Form.read scope.dialect items (place.child "items") = .ok (.overridden block) := by
    rw [Form.read, hitems]
    rfl
  exact ⟨override?_own hitems, resolveField_of_read hread⟩

/-- A value that is no object is no property. -/
theorem resolveField_of_not_isObject {scope : Scope} {property : Json} {place : Pointer}
    (h : property.isObject = false) :
    resolveField scope property place = .error (.wrongKind place [.object] property) := by
  cases property with
  | obj members => simp [Json.isObject] at h
  | _ => simp [resolveField]

theorem resolveProperties_nil (scope : Scope) (rule : Required) (place : Pointer) :
    resolveProperties scope rule place [] = .ok [] := by rw [resolveProperties]

/-- An object to which nothing is added is the document of its properties. -/
theorem Scope.perform_object (scope : Scope) (members : Members) (place : Pointer) :
    (ObjectBody.read members place).map Form.object >>= scope.perform members place =
      (scope.objectFields members [] place).map (Descriptor.embedded {}) := by
  rw [Outcome.bind_map, objectFields, Outcome.map_bind]
  congr 1
  funext body
  rw [Outcome.map_bind, resolveProperties_nil]
  change (resolveProperties _ _ _ _).map _ = _
  cases resolveProperties scope body.required (place.child "properties") body.properties with
  | error cause => rfl
  | ok declared =>
      change Except.ok _ = Except.ok (Descriptor.embedded {} (Entries.ofList (declared ++ [])))
      rw [List.append_nil]

/-- The first listed property is resolved before the others. -/
theorem resolveProperties_cons (scope : Scope) (rule : Required) (place : Pointer) (name : String)
    (property : Json) (rest : Members) :
    resolveProperties scope rule place ((name, property) :: rest) = do
      let first ← scope.entry rule name property (place.child name)
      let others ← resolveProperties scope rule place rest
      return first.elim others fun field => (name, field) :: others := by
  rw [resolveProperties, Scope.entry]
  split
  · exact (bind_pure _).symm
  · rw [bind_assoc]
    congr 1
    funext field
    rw [bind_assoc]
    rfl

theorem Scope.entry_of_isReserved {scope : Scope} {name : String} (h : isReserved name = true)
    (rule : Required) (property : Json) (place : Pointer) :
    scope.entry rule name property place = .ok none := by rw [entry, if_pos h]

/-- A property with a free name yields a field, if anything. -/
theorem Scope.exists_of_entry {scope : Scope} {rule : Required} {name : String} {property : Json}
    {place : Pointer} {found : Option Descriptor} (h : isReserved name = false)
    (hfound : scope.entry rule name property place = .ok found) : ∃ field, found = some field := by
  rw [entry, h, if_neg Bool.false_ne_true] at hfound
  obtain ⟨field, _, hfound⟩ := Outcome.bind_eq_ok_iff.1 hfound
  obtain ⟨required, _, hfound⟩ := Outcome.bind_eq_ok_iff.1 hfound
  cases hfound
  exact ⟨_, rfl⟩

/-- **Listed properties are resolved one by one**, those with a free name. -/
theorem resolveProperties_eq_ok_iff {scope : Scope} {rule : Required} {place : Pointer}
    {properties : Members} {fields : List (String × Descriptor)} :
    resolveProperties scope rule place properties = .ok fields ↔
      Entries.Paired
        (fun name property field =>
          scope.entry rule name property (place.child name) = .ok (some field))
        (properties.filter fun property => !isReserved property.1) fields := by
  induction properties generalizing fields with
  | nil =>
      rw [resolveProperties_nil, List.filter_nil]
      constructor
      · rintro ⟨⟩
        exact .nil
      · rintro ⟨⟩
        rfl
  | cons first rest ih =>
      obtain ⟨name, property⟩ := first
      rw [resolveProperties_cons]
      cases hname : isReserved name with
      | true =>
          rw [List.filter_cons_of_neg (by simp [hname]), ← ih,
            Scope.entry_of_isReserved hname]
          change (resolveProperties scope rule place rest >>= pure) = .ok fields ↔ _
          rw [bind_pure]
      | false =>
          rw [List.filter_cons_of_pos (by simp [hname])]
          constructor
          · intro h
            obtain ⟨found, hfound, h⟩ := Outcome.bind_eq_ok_iff.1 h
            obtain ⟨others, hothers, h⟩ := Outcome.bind_eq_ok_iff.1 h
            obtain ⟨field, rfl⟩ := Scope.exists_of_entry hname hfound
            cases h
            exact .cons hfound (ih.1 hothers)
          · rintro (_ | ⟨hfield, hrest⟩)
            rw [hfield, ih.2 hrest]
            rfl

/-- That a field comes from one of the listed properties, the one of its name. -/
def ResolvedFrom (scope : Scope) (place : Pointer) (properties : Members)
    (entry : String × Descriptor) : Prop :=
  ∃ property field required, (entry.1, property) ∈ properties ∧
    resolveField scope property (place.child entry.1) = .ok field ∧
    entry.2 = field.setRequired required

/-- Each field is what the listed property of its name yields. -/
theorem entry_eq_of_mem {scope : Scope} {rule : Required} {place : Pointer}
    {properties : Members} {fields : List (String × Descriptor)}
    (h : resolveProperties scope rule place properties = .ok fields) {entry : String × Descriptor}
    (hentry : entry ∈ fields) :
    ∃ property, (entry.1, property) ∈ properties ∧
      scope.entry rule entry.1 property (place.child entry.1) = .ok (some entry.2) := by
  obtain ⟨property, hproperty, hyields⟩ :=
    (resolveProperties_eq_ok_iff.1 h).exists_of_mem_right hentry
  exact ⟨property, (List.mem_filter.1 hproperty).1, hyields⟩

/-- A listed property that yields a field has a free name, and is resolved. -/
theorem Scope.free_of_entry {scope : Scope} {rule : Required} {name : String} {property : Json}
    {place : Pointer} {field : Descriptor}
    (h : scope.entry rule name property place = .ok (some field)) :
    isReserved name = false ∧ ∃ inner required, resolveField scope property place = .ok inner ∧
      field = inner.setRequired required := by
  rw [Scope.entry] at h
  split at h
  · cases h
  · next hname =>
      obtain ⟨inner, hinner, h⟩ := Outcome.bind_eq_ok_iff.1 h
      obtain ⟨required, _, h⟩ := Outcome.bind_eq_ok_iff.1 h
      cases h
      exact ⟨by simpa using hname, inner, required, hinner, rfl⟩

theorem resolvedFrom_of_mem {scope : Scope} {rule : Required} {place : Pointer}
    {properties : Members} {fields : List (String × Descriptor)}
    (h : resolveProperties scope rule place properties = .ok fields) {entry : String × Descriptor}
    (hentry : entry ∈ fields) : ResolvedFrom scope place properties entry := by
  obtain ⟨property, hproperty, hyields⟩ := entry_eq_of_mem h hentry
  obtain ⟨_, field, required, hfield, heq⟩ := Scope.free_of_entry hyields
  exact ⟨property, field, required, hproperty, hfield, heq⟩

/-- No field has a name that the store keeps for itself. -/
theorem isReserved_of_mem {scope : Scope} {rule : Required} {place : Pointer} {properties : Members}
    {fields : List (String × Descriptor)}
    (h : resolveProperties scope rule place properties = .ok fields) {entry : String × Descriptor}
    (hentry : entry ∈ fields) : isReserved entry.1 = false := by
  obtain ⟨property, _, hyields⟩ := entry_eq_of_mem h hentry
  exact (Scope.free_of_entry hyields).1

/-! ### The parts of a form -/

/-- The properties that are resolved in turn for a form of the property with these members. -/
inductive Form.Part (dialect : Dialect) (members : Members) : Form → Json → Prop where
  /-- The property with its block worked in. -/
  | retyped (block : Members) (validator : Option String) :
      Part dialect members (.overridden block)
        (.obj (retyped dialect.directiveKey validator block members))
  /-- The items that carry the block. -/
  | overriddenItems (items : Members) : Part dialect members (.overriddenItems items) (.obj items)
  /-- The items of an array. -/
  | items (items : Json) : Part dialect members (.array items) items
  /-- A property of an object. -/
  | property (body : ObjectBody) (entry : String × Json) (h : entry ∈ body.properties) :
      Part dialect members (.object body) entry.2

/-- A listed property weighs less than the list. -/
theorem Json.weight_of_mem {members : Members} {entry : String × Json} (h : entry ∈ members) :
    entry.2.weight < Json.weightMembers members := by
  induction members with
  | nil => simp at h
  | cons first rest ih =>
      obtain ⟨key, value⟩ := first
      simp only [Json.weightMembers]
      rcases List.mem_cons.1 h with rfl | h
      · simp only
        omega
      · have := ih h
        omega

/-- The properties that an object lists. -/
def listedProperties (members : Members) : Members :=
  ((Entries.get? members "properties").map Json.members).getD []

/-- The properties that an object lists stand in it. -/
theorem mem_deepEntries_of_listedProperties {members : Members} {entry : String × Json}
    (hentry : entry ∈ listedProperties members) : entry ∈ Json.deepEntries members := by
  rw [listedProperties] at hentry
  cases hget : Entries.get? members "properties" with
  | none => simp [hget] at hentry
  | some listed =>
      rw [hget, Option.map_some, Option.getD_some] at hentry
      cases listed with
      | obj properties => exact Json.mem_deepEntries_of_listed hget hentry
      | _ => simp [Json.members] at hentry

theorem deepMembers_listedProperties_subset (members : Members) :
    (Json.obj (listedProperties members)).deepMembers ⊆ (Json.obj members).deepMembers := by
  rw [Json.deepMembers_obj, Json.deepMembers_obj]
  exact Json.deepEntries_subset fun _ => mem_deepEntries_of_listedProperties

/-- The properties of an object stand in it. -/
theorem ObjectBody.mem_deepEntries_of_read {members : Members} {place : Pointer}
    {body : ObjectBody} (h : ObjectBody.read members place = .ok body) {entry : String × Json}
    (hentry : entry ∈ body.properties) : entry ∈ Json.deepEntries members := by
  rw [ObjectBody.properties_of_read h] at hentry
  exact mem_deepEntries_of_listedProperties hentry

/-- An object that has fields says which are required; the listed and the additional properties are
resolved by that, and the second are written over the first. -/
theorem Scope.resolved_of_objectFields {scope : Scope} {members additional : Members}
    {place : Pointer} {fields : FieldMap}
    (h : scope.objectFields members additional place = .ok fields) :
    ∃ rule declared added, Required.read members place = .ok rule ∧
      resolveProperties scope rule (place.child "properties") (listedProperties members) =
        .ok declared ∧
      resolveProperties scope rule (place.child "additional-properties") additional = .ok added ∧
      fields = Entries.ofList (declared ++ added) := by
  obtain ⟨body, hbody, h⟩ := Outcome.bind_eq_ok_iff.1 h
  obtain ⟨declared, hdeclared, h⟩ := Outcome.bind_eq_ok_iff.1 h
  obtain ⟨added, hadded, h⟩ := Outcome.bind_eq_ok_iff.1 h
  cases h
  rw [ObjectBody.properties_of_read hbody] at hdeclared
  obtain ⟨rule, hrule, hbody⟩ := Outcome.bind_eq_ok_iff.1 hbody
  obtain ⟨properties, _, hbody⟩ := Outcome.bind_eq_ok_iff.1 hbody
  cases hbody
  exact ⟨rule, declared, added, hrule, hdeclared, hadded, rfl⟩

/-- Working a block into its property brings nothing new. -/
theorem deepMembers_retyped_subset {key : String} {block members : Members}
    (h : Entries.get? members key = some (.obj block)) (validator : Option String) :
    (Json.obj (retyped key validator block members)).deepMembers ⊆
      (Json.obj members).deepMembers := by
  have hbare := Json.deepMembers_erase_subset members key
  rw [retyped]
  split
  · exact hbare
  · rw [Json.deepMembers_obj, Json.deepMembers_obj] at hbare ⊢
    -- what is written comes from the block, the rest from the property without it
    refine Json.deepEntries_subset ?_
    intro entry hentry
    rcases Entries.mem_insertAll hentry with hentry | hentry
    · exact hbare (Json.mem_deepEntries_of_mem hentry)
    · exact Json.mem_deepEntries_of_listed h (List.mem_filter.1 hentry).1

namespace Form

variable {dialect : Dialect} {members : Members} {place : Pointer}

/-- What the form of a property can be: its block, that of its items, a reference, or what its
declared type asks for. -/
theorem read_cases {form : Form} (h : read dialect members place = .ok form) :
    (∃ block, override? dialect members place = .ok (some (.own block)) ∧
        form = .overridden block) ∨
      (∃ items block, override? dialect members place = .ok (some (.ofItems items block)) ∧
        form = .overriddenItems items) ∨
      (∃ reference, reference? dialect members place = .ok (some reference) ∧
        form = .referring reference) ∨
      readTyped members place = .ok form := by
  obtain ⟨found, hfound, h⟩ := Outcome.bind_eq_ok_iff.1 h
  rcases found with _ | block | ⟨items, block⟩
  · obtain ⟨reference, hreference, h⟩ := Outcome.bind_eq_ok_iff.1 h
    cases reference with
    | some reference =>
        cases h
        exact .inr (.inr (.inl ⟨reference, hreference, rfl⟩))
    | none => exact .inr (.inr (.inr h))
  · cases h
    exact .inl ⟨block, hfound, rfl⟩
  · cases h
    exact .inr (.inl ⟨items, block, hfound, rfl⟩)

theorem get?_of_readValues {values : List Json} (h : readValues members place = .ok (some values)) :
    Entries.get? members "enum" = some (.arr values) := by
  rw [readValues] at h
  split at h
  · cases h
  · cases h
  · next hget =>
      cases h
      exact hget
  · cases h

/-- A declared type asks for a scalar, for an array of the items, or for the object. -/
theorem readTyped_cases {form : Form} (h : readTyped members place = .ok form) :
    (∃ type values, readValues members place = .ok values ∧ form = .scalar type values) ∨
      (∃ items, readItems members place = .ok items ∧ form = .array items) ∨
      ∃ body, ObjectBody.read members place = .ok body ∧ form = .object body := by
  obtain ⟨declared, _, h⟩ := Outcome.bind_eq_ok_iff.1 h
  cases declared with
  | number =>
      obtain ⟨_, _, h⟩ := Outcome.bind_eq_ok_iff.1 h
      obtain ⟨values, hvalues, rfl⟩ := Outcome.map_eq_ok_iff.1 h
      exact .inl ⟨_, values, hvalues, rfl⟩
  | array =>
      obtain ⟨items, hitems, rfl⟩ := Outcome.map_eq_ok_iff.1 h
      exact .inr (.inl ⟨items, hitems, rfl⟩)
  | object =>
      obtain ⟨body, hbody, rfl⟩ := Outcome.map_eq_ok_iff.1 h
      exact .inr (.inr ⟨body, hbody, rfl⟩)
  | _ =>
      obtain ⟨values, hvalues, rfl⟩ := Outcome.map_eq_ok_iff.1 h
      exact .inl ⟨_, values, hvalues, rfl⟩

/-- An object form is the object that stands in the members. -/
theorem objectBody_of_read {body : ObjectBody}
    (h : read dialect members place = .ok (.object body)) :
    ObjectBody.read members place = .ok body := by
  rcases read_cases h with ⟨_, _, h⟩ | ⟨_, _, _, h⟩ | ⟨_, _, h⟩ | h
  · cases h
  · cases h
  · cases h
  · rcases readTyped_cases h with ⟨_, _, _, h⟩ | ⟨_, _, h⟩ | ⟨_, hbody, h⟩
    · cases h
    · cases h
    · cases h
      exact hbody

/-- The values of a scalar form are listed in the members. -/
theorem lists_of_read {type : Primitive} {values : List Json}
    (h : read dialect members place = .ok (.scalar type (some values))) :
    (Json.obj members).Lists values := by
  rcases read_cases h with ⟨_, _, h⟩ | ⟨_, _, _, h⟩ | ⟨_, _, h⟩ | h
  · cases h
  · cases h
  · cases h
  · rcases readTyped_cases h with ⟨_, _, hvalues, h⟩ | ⟨_, _, h⟩ | ⟨_, _, h⟩
    · cases h
      rw [Json.Lists, Json.deepMembers_obj]
      exact Json.mem_deepEntries_of_get? (get?_of_readValues hvalues)
    · cases h
    · cases h

/-- **A part is lighter than the property.** -/
theorem weight_of_part {form : Form} {part : Json} (h : read dialect members place = .ok form)
    (hpart : Part dialect members form part) : part.weight < (Json.obj members).weight := by
  have hwithin := within_of_read h
  cases hpart with
  | retyped block validator =>
      have := weightMembers_retyped hwithin validator
      simp only [Json.weight]
      omega
  | overriddenItems items =>
      have := Json.weight_of_get? hwithin
      simp only [Json.weight] at this ⊢
      omega
  | items items =>
      have := Json.weight_of_get? hwithin
      simp only [Json.weight]
      omega
  | property body entry hentry =>
      have hlt := Json.weight_of_mem hentry
      exact Nat.lt_trans hlt hwithin

/-- **Nothing stands in a part that does not stand in the property.** -/
theorem deepMembers_of_part {form : Form} {part : Json} (h : read dialect members place = .ok form)
    (hpart : Part dialect members form part) :
    part.deepMembers ⊆ (Json.obj members).deepMembers := by
  have hwithin := within_of_read h
  cases hpart with
  | retyped block validator => exact deepMembers_retyped_subset hwithin validator
  | overriddenItems items =>
      exact Json.deepMembers_subset_of_mem (Json.mem_deepEntries_of_get? hwithin)
  | items items => exact Json.deepMembers_subset_of_mem (Json.mem_deepEntries_of_get? hwithin)
  | property body entry hentry =>
      have hmem := ObjectBody.mem_deepEntries_of_read (objectBody_of_read h) hentry
      exact Json.deepMembers_subset_of_mem hmem

/-- **Induction over the parts of a property**: what holds of a property as soon as it holds of
the parts of each of its forms, holds of every property. -/
theorem part_induction (dialect : Dialect) {motive : Json → Prop}
    (other : ∀ property : Json, property.isObject = false → motive property)
    (object : ∀ members : Members,
      (∀ place form part, read dialect members place = .ok form →
        Part dialect members form part → motive part) → motive (.obj members))
    (property : Json) : motive property := by
  -- the induction is on the weight, which every part has less of
  induction hweight : property.weight using Nat.strongRecOn generalizing property with
  | _ weight ih =>
      subst hweight
      by_cases hobject : property.isObject = true
      · rw [Json.isObject_iff.1 hobject] at ih ⊢
        refine object _ ?_
        intro place form part hread hpart
        exact ih part.weight (weight_of_part hread hpart) part rfl
      · exact other property (by simpa using hobject)

end Form

end StoreSchema
