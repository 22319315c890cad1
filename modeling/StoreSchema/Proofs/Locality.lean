/-
**What compiling a definition depends on.**

Compiling a definition looks at nothing but the definition, the properties that are added to it, and
what the references in these lead to, which are again definitions.  So two runs agree as soon as
they agree on a set of names that is closed under references: the definitions under these names and
which of them are being compiled.  Neither the other definitions nor the rest of the stack play a
part.

Main definitions:

* `TypeDefinition.Mentions` — that a reference stands somewhere in a definition or in the properties
  that are added to it;
* `Scope.Agree` — that two scopes treat the references of a given kind alike;
* `Catalog.AgreeOn` — that two catalogs agree on a set of names closed under references.

Main results:

* `resolveField_congr`, `Scope.tree_congr` — only the references in a property, or in a definition,
  are put to the scope;
* `Catalog.follow_congr` — **a reference yields the same in catalogs and under stacks that agree on
  the names it may lead to**;
* `Catalog.compileDefinition_congr` — and so does the body of a definition.
-/

import StoreSchema.Proofs.Property.Parts

set_option relaxedAutoImplicit false
set_option autoImplicit false

namespace StoreSchema

/-- That the reference stands somewhere in the definition, or in the properties added to it. -/
def TypeDefinition.Mentions (type : TypeDefinition) (reference : String) : Prop :=
  (Json.obj type.body).Mentions reference ∨
    (Json.obj type.directives.additional).Mentions reference

/-! ### The references that a property puts to its scope -/

section Mentioned

variable {dialect : Dialect} {members block : Members} {place : Pointer} {reference : String}

theorem mentions_of_get? (h : Entries.get? members "$ref" = some (.str reference)) :
    (Json.obj members).Mentions reference := by
  rw [Json.Mentions, Json.deepMembers_obj]
  exact Json.mem_deepEntries_of_get? h

/-- What is mentioned under a key is mentioned in the object. -/
theorem Json.Mentions.of_get? {key : String} {value : Json} (h : value.Mentions reference)
    (hvalue : Entries.get? members key = some value) : (Json.obj members).Mentions reference :=
  h.of_mem (Json.mem_deepEntries_of_get? hvalue)

theorem mentions_of_asString? {value : Option Json} (hvalue : Entries.get? members "$ref" = value)
    (h : value.bind Json.asString? = some reference) : (Json.obj members).Mentions reference := by
  obtain ⟨found, rfl, h⟩ := Option.bind_eq_some_iff.1 h
  cases found with
  | str text =>
      cases h
      exact mentions_of_get? hvalue
  | _ => cases h

/-- The reference that a block carries stands in it. -/
theorem mentions_of_explicitReference? (h : dialect.explicitReference? block = some reference) :
    (Json.obj block).Mentions reference := by
  cases dialect with
  | legacy => cases h
  | extended => exact mentions_of_asString? rfl h

theorem mentions_of_ownReference? (h : ownReference? dialect members place = .ok (some reference)) :
    (Json.obj members).Mentions reference := by
  rw [ownReference?] at h
  split at h
  · next hget =>
      cases h
      exact mentions_of_get? hget
  · cases h
  · obtain ⟨block, hblock, h⟩ := Outcome.map_eq_ok_iff.1 h
    obtain ⟨block, rfl, h⟩ := Option.bind_eq_some_iff.1 h
    exact (mentions_of_explicitReference? h).of_get? (directive?_eq_some hblock)

/-- The reference of a property stands in it. -/
theorem mentions_of_reference? (h : reference? dialect members place = .ok (some reference)) :
    (Json.obj members).Mentions reference := by
  obtain ⟨own, hown, h⟩ := Outcome.bind_eq_ok_iff.1 h
  cases own with
  | some own =>
      cases h
      exact mentions_of_ownReference? hown
  | none =>
      dsimp only at h
      split at h
      · next items hitems => exact (mentions_of_ownReference? h).of_get? hitems
      · cases h

/-- The reference that a form follows stands in the property. -/
theorem Form.mentions_of_read (h : Form.read dialect members place = .ok (.referring reference)) :
    (Json.obj members).Mentions reference := by
  rcases Form.read_cases h with ⟨_, _, h⟩ | ⟨_, _, _, h⟩ | ⟨_, hreference, h⟩ | h
  · cases h
  · cases h
  · cases h
    exact mentions_of_reference? hreference
  · rcases Form.readTyped_cases h with ⟨_, _, _, h⟩ | ⟨_, _, h⟩ | ⟨_, _, h⟩ <;> cases h

/-- The reference to the type of an identifier stands in the property, block included. -/
theorem mentions_of_identifierReference?
    (hblock : Entries.get? members dialect.directiveKey = some (.obj block))
    (h : identifierReference? dialect block members = some reference) :
    (Json.obj members).Mentions reference := by
  rw [identifierReference?] at h
  split at h
  · cases h
  · rcases Option.or_eq_some_iff.1 h with h | ⟨_, h⟩
    · exact (mentions_of_explicitReference? h).of_get? hblock
    · rcases Option.or_eq_some_iff.1 h with h | ⟨_, h⟩
      · exact mentions_of_asString? rfl h
      · obtain ⟨items, hitems, h⟩ := Option.bind_eq_some_iff.1 h
        cases items with
        | obj items => exact (mentions_of_asString? rfl h).of_get? hitems
        | _ => simp [Json.members] at h

end Mentioned

/-! ### Scopes that agree -/

/-- That two scopes treat the references that are mentioned alike. -/
structure Scope.Agree (left right : Scope) (mentioned : String → Prop) : Prop where
  /-- The dialect is the same. -/
  dialect : left.dialect = right.dialect
  /-- The references lead to the same names. -/
  target? : ∀ reference, mentioned reference → left.target? reference = right.target? reference
  /-- Following the references yields the same. -/
  follow : ∀ reference place, mentioned reference →
    left.follow reference place = right.follow reference place

namespace Scope

variable {left right : Scope}

theorem Agree.mono {mentioned fewer : String → Prop} (h : left.Agree right mentioned)
    (hfewer : ∀ reference, fewer reference → mentioned reference) : left.Agree right fewer where
  dialect := h.dialect
  target? reference hreference := h.target? reference (hfewer reference hreference)
  follow reference place hreference := h.follow reference place (hfewer reference hreference)

/-- Identifiers belong to the same types. -/
theorem identifierField_congr {block members : Members} {place : Pointer}
    (h : left.Agree right (Json.obj members).Mentions)
    (hblock : Entries.get? members left.dialect.directiveKey = some (.obj block)) :
    left.identifierField block members place = right.identifierField block members place := by
  rw [identifierField, identifierField, identifierTarget, identifierTarget, ← h.dialect]
  cases hreference : identifierReference? left.dialect block members with
  | none => rfl
  | some reference =>
      have hmentions := mentions_of_identifierReference? hblock hreference
      simp only [h.target? reference hmentions]

end Scope

/-- Listed properties are resolved alike when each of them is. -/
theorem resolveProperties_congr {left right : Scope} (hdialect : left.dialect = right.dialect)
    {properties : Members}
    (h : ∀ entry ∈ properties, ∀ place,
      resolveField left entry.2 place = resolveField right entry.2 place)
    (rule : Required) (place : Pointer) :
    resolveProperties left rule place properties =
      resolveProperties right rule place properties := by
  induction properties with
  | nil => rw [resolveProperties_nil, resolveProperties_nil]
  | cons first rest ih =>
      obtain ⟨name, property⟩ := first
      have hfirst := h (name, property) (List.mem_cons_self ..) (place.child name)
      have hrest := ih fun entry hentry => h entry (List.mem_cons_of_mem _ hentry)
      dsimp only at hfirst
      rw [resolveProperties_cons, resolveProperties_cons, Scope.entry, Scope.entry, hfirst,
        hdialect, hrest]

/-- **Only the references in a property are put to the scope.** -/
theorem resolveField_congr {left right : Scope} {property : Json}
    (h : left.Agree right property.Mentions) (place : Pointer) :
    resolveField left property place = resolveField right property place := by
  induction property using Form.part_induction left.dialect generalizing place with
  | other property hother =>
      rw [resolveField_of_not_isObject hother, resolveField_of_not_isObject hother]
  | object members ih =>
      rw [resolveField_obj, resolveField_obj, ← h.dialect]
      cases hread : Form.read left.dialect members place with
      | error cause => rfl
      | ok form =>
          -- the induction hypothesis for the parts of this form
          have hpart : ∀ part, Form.Part left.dialect members form part → ∀ place,
              resolveField left part place = resolveField right part place := by
            intro part hpart place'
            refine ih place form part hread hpart ?_ place'
            exact h.mono fun reference hreference =>
              hreference.mono (Form.deepMembers_of_part hread hpart)
          have hwithin := Form.within_of_read hread
          change left.perform members place form = right.perform members place form
          cases form with
          | overridden block =>
              have hbase (validator : Option String) :
                  left.baseField block members place validator =
                    right.baseField block members place validator := by
                rw [Scope.baseField, Scope.baseField, ← h.dialect,
                  Scope.identifierField_congr h hwithin, hpart _ (.retyped block validator)]
              simp only [Scope.perform, Scope.overrideField, ← h.dialect, hbase]
          | overriddenItems items =>
              rw [Scope.perform, Scope.perform, hpart _ (.overriddenItems items)]
          | referring reference =>
              rw [Scope.perform, Scope.perform, h.follow _ _ (Form.mentions_of_read hread)]
          | scalar type values => rfl
          | array items => rw [Scope.perform, Scope.perform, hpart _ (.items items)]
          | object body =>
              rw [Scope.perform, Scope.perform, resolveProperties_congr h.dialect]
              intro entry hentry
              exact hpart entry.2 (.property body entry hentry)

/-! ### Definitions -/

/-- What compiling a definition reads: its members and the properties added to it. -/
def TypeDefinition.content (type : TypeDefinition) : Members × Members :=
  (type.body, type.directives.additional)

/-- **Only the references in a definition are put to the scope.** -/
theorem Scope.tree_congr {left right : Scope} {type type' : TypeDefinition}
    (h : left.Agree right type.Mentions) (hcontent : type.content = type'.content)
    (name : String) : left.tree name type = right.tree name type' := by
  obtain ⟨hbody, hadditional⟩ := Prod.mk.inj hcontent
  have hwhole (place : Pointer) : left.wholeField name type.body place =
      right.wholeField name type.body place := by
    rw [wholeField, wholeField, ← h.dialect, resolveField_congr]
    refine h.mono fun reference hreference => .inl (hreference.mono ?_)
    exact Json.deepMembers_erase_subset _ _
  have hobject (place : Pointer) : left.objectFields type.body type.directives.additional place =
      right.objectFields type.body type.directives.additional place := by
    rw [objectFields, objectFields]
    cases hread : ObjectBody.read type.body place with
    | error cause => rfl
    | ok body =>
        have hdeclared : ∀ entry ∈ body.properties, ∀ place,
            resolveField left entry.2 place = resolveField right entry.2 place := by
          intro entry hentry place
          refine resolveField_congr (h.mono fun reference hreference => .inl ?_) place
          exact hreference.of_mem (ObjectBody.mem_deepEntries_of_read hread hentry)
        have hadded : ∀ entry ∈ type.directives.additional, ∀ place,
            resolveField left entry.2 place = resolveField right entry.2 place := by
          intro entry hentry place
          refine resolveField_congr (h.mono fun reference hreference => .inr ?_) place
          exact hreference.of_mem (Json.mem_deepEntries_of_mem hentry)
        change (do
          let declared ← resolveProperties left _ _ _
          let added ← resolveProperties left _ _ _
          return Entries.ofList (declared ++ added)) = _
        rw [resolveProperties_congr h.dialect hdeclared, resolveProperties_congr h.dialect hadded]
        rfl
  rw [tree, tree, ← hbody, ← hadditional, hobject, hwhole]

/-! ### Catalogs that agree on a closed set of names -/

namespace Catalog

/-- That a reference leads to one of the names, or nowhere in both catalogs. -/
def Covered (left right : Catalog) (names : String → Prop) (reference : String) : Prop :=
  ∀ target, Pointer.target? reference = some target →
    names target ∨ (Entries.get? left.types target = none ∧ Entries.get? right.types target = none)

/-- That two catalogs agree on a set of names that is closed under references. -/
structure AgreeOn (left right : Catalog) (names : String → Prop) : Prop where
  /-- The dialect is the same. -/
  dialect : left.dialect = right.dialect
  /-- The definitions under the names have the same content. -/
  content : ∀ name, names name →
    (Entries.get? left.types name).map TypeDefinition.content =
      (Entries.get? right.types name).map TypeDefinition.content
  /-- The references in these definitions lead to the names, or nowhere. -/
  closed : ∀ name type reference, names name → Entries.get? left.types name = some type →
    type.Mentions reference → left.Covered right names reference

namespace AgreeOn

variable {left right : Catalog} {names : String → Prop}

/-- A reference that is covered leads nowhere in both catalogs, or in both to definitions with the
same content. -/
theorem find? (h : left.AgreeOn right names) {reference : String}
    (hcovered : left.Covered right names reference) :
    (left.find? reference = none ∧ right.find? reference = none) ∨
      ∃ name type type', names name ∧ Entries.get? left.types name = some type ∧
        type.content = type'.content ∧ left.find? reference = some (name, type) ∧
        right.find? reference = some (name, type') := by
  cases htarget : Pointer.target? reference with
  | none => exact .inl ⟨by simp [Catalog.find?, htarget], by simp [Catalog.find?, htarget]⟩
  | some target =>
      have hnone (h : Entries.get? left.types target = none)
          (h' : Entries.get? right.types target = none) :
          left.find? reference = none ∧ right.find? reference = none :=
        ⟨by simp [Catalog.find?, htarget, h], by simp [Catalog.find?, htarget, h']⟩
      rcases hcovered target htarget with hname | ⟨hleft, hright⟩
      · have hcontent := h.content target hname
        cases hleft : Entries.get? left.types target with
        | none =>
            rw [hleft, Option.map_none, eq_comm, Option.map_eq_none_iff] at hcontent
            exact .inl (hnone hleft hcontent)
        | some type =>
            rw [hleft, Option.map_some, eq_comm, Option.map_eq_some_iff] at hcontent
            obtain ⟨type', hright, hcontent⟩ := hcontent
            refine .inr ⟨target, type, type', hname, hleft, hcontent.symm, ?_, ?_⟩
            · simp [Catalog.find?, htarget, hleft]
            · simp [Catalog.find?, htarget, hright]
      · exact .inl (hnone hleft hright)

end AgreeOn

variable {left right : Catalog} {names : String → Prop}

/-- The scopes of two catalogs agree where following does. -/
theorem scope_agree (h : left.AgreeOn right names) {stack stack' : List String}
    (hfollow : ∀ reference place, left.Covered right names reference →
      left.follow stack reference place = right.follow stack' reference place) :
    (left.scope stack).Agree (right.scope stack') (left.Covered right names) where
  dialect := h.dialect
  target? reference hcovered := by
    change left.target? reference = right.target? reference
    rw [target?, target?]
    rcases h.find? hcovered with ⟨hleft, hright⟩ | ⟨_, _, _, _, _, _, hleft, hright⟩
    · rw [hleft, hright]
    · rw [hleft, hright]
      rfl
  follow reference place hcovered := hfollow reference place hcovered

/-- Entering a definition yields the same where following does. -/
theorem enter_congr (h : left.AgreeOn right names) {stack stack' : List String}
    (hfollow : ∀ reference place, left.Covered right names reference →
      left.follow stack reference place = right.follow stack' reference place)
    {name : String} {type type' : TypeDefinition} (hname : names name)
    (htype : Entries.get? left.types name = some type) (hcontent : type.content = type'.content) :
    left.enter stack name type = right.enter stack' name type' := by
  have hagree : (left.scope stack).Agree (right.scope stack') type.Mentions :=
    (scope_agree h hfollow).mono fun reference hreference =>
      h.closed name type reference hname htype hreference
  have hbody : type.body = type'.body := (Prod.mk.inj hcontent).1
  rw [enter, enter, ← hbody, ← h.dialect, Scope.tree_congr hagree hcontent]
  dsimp only
  rw [resolveField_congr]
  refine hagree.mono fun reference hreference => .inl (hreference.mono ?_)
  exact Json.deepMembers_erase_subset _ _

/-- **A reference yields the same in catalogs, and under stacks, that agree on the names it may
lead to.** -/
theorem follow_congr (h : left.AgreeOn right names) {stack stack' : List String}
    (hstack : ∀ name, names name → (name ∈ stack ↔ name ∈ stack')) {reference : String}
    (hcovered : left.Covered right names reference) (place : Pointer) :
    left.follow stack reference place = right.follow stack' reference place := by
  -- the induction is on the number of definitions that are not being compiled
  induction hremaining : left.remaining stack using Nat.strongRecOn
    generalizing stack stack' reference place with
  | _ remaining ih =>
      subst hremaining
      rcases h.find? hcovered with ⟨hleft, hright⟩ |
        ⟨name, type, type', hname, htype, hcontent, hleft, hright⟩
      · rw [follow_of_find?_eq_none hleft, follow_of_find?_eq_none hright]
      · by_cases hmem : name ∈ stack
        · rw [follow_of_mem hleft hmem, follow_of_mem hright ((hstack name hname).1 hmem)]
        · have hmem' : name ∉ stack' := fun hmem' => hmem ((hstack name hname).2 hmem')
          rw [follow_of_not_mem hleft hmem, follow_of_not_mem hright hmem']
          -- the name joins both stacks, which agree on the names as before
          refine enter_congr h ?_ hname htype hcontent
          intro reference place hcovered
          have hlt := remaining_cons_lt (find?_mem_keys hleft) hmem
          refine ih _ hlt ?_ hcovered place rfl
          intro other hother
          rw [List.mem_cons, List.mem_cons, hstack other hother]

/-- **The body of a definition is the same in catalogs, and under stacks, that agree on a closed
set of names.** -/
theorem compileDefinition_congr (h : left.AgreeOn right names) {stack stack' : List String}
    {name : String} {type type' : TypeDefinition} (hname : names name)
    (htype : Entries.get? left.types name = some type) (hcontent : type.content = type'.content)
    (hstack : ∀ other, names other → (other ∈ name :: stack ↔ other ∈ name :: stack')) :
    left.compileDefinition stack name type = right.compileDefinition stack' name type' := by
  refine Scope.tree_congr ?_ hcontent name
  have hfollow : ∀ reference place, left.Covered right names reference →
      left.follow (name :: stack) reference place = right.follow (name :: stack') reference place :=
    fun reference place hcovered => follow_congr h hstack hcovered place
  refine (scope_agree h hfollow).mono ?_
  exact fun reference hreference => h.closed name type reference hname htype hreference

end Catalog

end StoreSchema
