/-
**Properties that are stored as identifiers.**

A block may ask that its field be stored as the identifier of another document.  The type of that
document is looked up by name only: of the references of the block, of the object that carries the
block, and of the items of that object, the first one counts, and it has to be made of the name of a
definition.  Nothing else is read, so that the definition itself, the definitions that are being
compiled, and whatever else the property says do not matter.

Main definitions:

* `Override.carrier`, `Override.enclose` — the object that carries a block, and the descriptor of
  the property, given that of the carrier;
* `identifierReferences` — the references that count, in order;
* `NamesValidator`, `IdentifierType` — the validator that a block names, and the type that its
  identifier belongs to;
* `Identifies` — **the descriptor of an identifier**;
* `Override.SameIdentifier` — that two properties say the same about their identifiers.

Main results:

* `resolveField_of_override` — a property is resolved by the block that takes precedence;
* `Catalog.overrideField_eq_ok_iff` — what a block that asks for an identifier yields;
* `Catalog.identifier_outcome` — **an identifier never enters the definition that it names**.
-/

import StoreSchema.Proofs.Acceptance
import StoreSchema.Proofs.Embedding

set_option relaxedAutoImplicit false
set_option autoImplicit false

namespace StoreSchema

/-! ### Where a block stands -/

namespace Override

/-- The object that carries the block: the property, or its items. -/
def carrier (members : Members) : Override → Members
  | .own _ => members
  | .ofItems items _ => items

/-- The place of that object. -/
def place (place : Pointer) : Override → Pointer
  | .own _ => place
  | .ofItems _ _ => place.child "items"

/-- Whether the items carry the block. -/
def onItems : Override → Bool
  | .own _ => false
  | .ofItems _ _ => true

/-- The descriptor of the property, given that of the object that carries the block: an array when
that is the items. -/
def enclose (found : Override) (field : Descriptor) : Descriptor := field.wrapped found.onItems

end Override

/-- **A property is resolved by the block that takes precedence.** -/
theorem resolveField_of_override {scope : Scope} {members : Members} {place : Pointer}
    {found : Override} (h : override? scope.dialect members place = .ok (some found)) :
    resolveField scope (.obj members) place =
      (scope.overrideField found.block (found.carrier members) (found.place place)).map
        found.enclose := by
  cases found with
  | own block =>
      have hread : Form.read scope.dialect members place = .ok (.overridden block) := by
        rw [Form.read, h]
        rfl
      rw [resolveField_of_read hread]
      change _ = (scope.overrideField block members place).map id
      rw [Except.map_id]
      rfl
  | ofItems items block =>
      have hread : Form.read scope.dialect members place = .ok (.overriddenItems items) := by
        rw [Form.read, h]
        rfl
      rw [resolveField_of_read hread, Scope.perform, (resolveField_of_ofItems h).2]
      rfl

/-- That an object stands for an array: it declares one, or describes items. -/
def StandsForArray (members : Members) : Prop :=
  Entries.get? members "type" = some (.str "array") ∨
    ∃ items, Entries.get? members "items" = some (.obj items)

theorem isArrayProperty_iff {members : Members} :
    isArrayProperty members = true ↔ StandsForArray members := by
  rw [isArrayProperty, Bool.or_eq_true, StandsForArray]
  refine or_congr ?_ ?_
  · cases Entries.get? members "type" with
    | none => simp
    | some type => cases type <;> simp [Json.asString?]
  · cases Entries.get? members "items" with
    | none => simp
    | some items => cases items <;> simp [Json.isObject]

/-! ### What is read -/

/-- The references that an identifier may take its type from, in order: that of the block, that of
the object which carries it, and that of the items of this object. -/
def identifierReferences (dialect : Dialect) (block carrier : Members) : List String :=
  (dialect.explicitReference? block).toList ++
    ((Entries.get? carrier "$ref").bind Json.asString?).toList ++
    ((Entries.get? carrier "items").bind fun items =>
      (Entries.get? items.members "$ref").bind Json.asString?).toList

/-- The first reference counts, unless the block asks for none. -/
theorem identifierReference?_eq (dialect : Dialect) (block carrier : Members) :
    identifierReference? dialect block carrier =
      if Entries.get? block "include-ref" = some (.bool false) then none
      else (identifierReferences dialect block carrier).head? := by
  rw [identifierReference?, identifierReferences, List.head?_append, List.head?_append,
    Option.head?_toList, Option.head?_toList, Option.head?_toList, Option.or_assoc]

/-- That a block names a validator, or none. -/
inductive NamesValidator (block : Members) : Option String → Prop where
  | absent (h : Entries.get? block "validator" = none) : NamesValidator block none
  | null (h : Entries.get? block "validator" = some .null) : NamesValidator block none
  | named {name : String} (h : Entries.get? block "validator" = some (.str name)) :
      NamesValidator block (some name)

theorem validatorName?_eq_ok_iff {dialect : Dialect} {block : Members} {place : Pointer}
    {validator : Option String} :
    validatorName? dialect block place = .ok validator ↔ NamesValidator block validator := by
  rw [validatorName?]
  constructor
  · intro h
    split at h
    · next hget =>
        cases h
        exact .absent hget
    · next hget =>
        cases h
        exact .null hget
    · next hget =>
        cases h
        exact .named hget
    · cases h
  · rintro (hget | hget | hget) <;> rw [hget]

/-- A block names a validator, or none, when nothing else stands in that place. -/
theorem exists_namesValidator_iff {block : Members} :
    (∃ validator, NamesValidator block validator) ↔ Holds block "validator" [.null, .string] := by
  rw [Holds]
  constructor
  · rintro ⟨validator, hget | hget | hget⟩ value hvalue
    all_goals
      rw [hget] at hvalue
      cases hvalue
    · simp [Json.kind]
    · simp [Json.kind]
  · intro h
    cases hget : Entries.get? block "validator" with
    | none => exact ⟨none, .absent hget⟩
    | some value =>
        cases value with
        | null => exact ⟨none, .null hget⟩
        | str name => exact ⟨some name, .named hget⟩
        | _ => exact absurd (h _ hget) (by simp [Json.kind])

/-! ### What it makes of the field -/

/-- **The type that an identifier belongs to**, for the block of an object with the members
`carrier`, in a document whose definitions have the names. -/
inductive IdentifierType (names : List String) (dialect : Dialect) (block carrier : Members) :
    Option String → Prop where
  /-- The block asks for none. -/
  | suppressed (h : Entries.get? block "include-ref" = some (.bool false)) :
      IdentifierType names dialect block carrier none
  /-- There is no reference. -/
  | unreferring (h : identifierReferences dialect block carrier = []) :
      IdentifierType names dialect block carrier none
  /-- The first reference is made of the name of a definition. -/
  | named {reference name : String} {others : List String}
      (hasked : Entries.get? block "include-ref" ≠ some (.bool false))
      (h : identifierReferences dialect block carrier = reference :: others)
      (htarget : Pointer.target? reference = some name) (hname : name ∈ names) :
      IdentifierType names dialect block carrier (some name)

/-- What a block says of its field, besides its shape. -/
def blockModifiers (validator : Option String) (block : Members) : Modifiers where
  validator
  attributes := Entries.insertAll [] (attributes block)

/-- **The descriptor of an identifier**: a single one, or an array of them where the object that
carries the block stands for an array. -/
inductive Identifies (names : List String) (dialect : Dialect) (block carrier : Members) :
    Descriptor → Prop where
  | single {validator target : Option String} (hvalidator : NamesValidator block validator)
      (htarget : IdentifierType names dialect block carrier target)
      (hsingle : ¬StandsForArray carrier) :
      Identifies names dialect block carrier (.reference (blockModifiers validator block) target)
  | array {validator target : Option String} (hvalidator : NamesValidator block validator)
      (htarget : IdentifierType names dialect block carrier target)
      (harray : StandsForArray carrier) :
      Identifies names dialect block carrier
        (.array (blockModifiers validator block) (.reference {} target))

/-- A block and a property yield the identifier of a type when they name the type and a validator,
or none. -/
theorem identifies_iff {names : List String} {dialect : Dialect} {block carrier : Members}
    {field : Descriptor} :
    Identifies names dialect block carrier field ↔ ∃ validator target,
      NamesValidator block validator ∧ IdentifierType names dialect block carrier target ∧
        field = decorate validator block
          ((Descriptor.reference {} target).wrapped (isArrayProperty carrier)) := by
  constructor
  · rintro (⟨hvalidator, htarget, hsingle⟩ | ⟨hvalidator, htarget, harray⟩)
    · rw [← isArrayProperty_iff, Bool.not_eq_true] at hsingle
      refine ⟨_, _, hvalidator, htarget, ?_⟩
      rw [hsingle]
      rfl
    · rw [← isArrayProperty_iff] at harray
      refine ⟨_, _, hvalidator, htarget, ?_⟩
      rw [harray]
      rfl
  · rintro ⟨validator, target, hvalidator, htarget, rfl⟩
    cases hwrap : isArrayProperty carrier with
    | true => exact .array hvalidator htarget (isArrayProperty_iff.1 hwrap)
    | false => exact .single hvalidator htarget (by simp [← isArrayProperty_iff, hwrap])

/-- A type is found, or none is asked for, unless the first reference leads nowhere. -/
theorem exists_identifierType_iff {names : List String} {dialect : Dialect}
    {block carrier : Members} :
    (∃ target, IdentifierType names dialect block carrier target) ↔
      Entries.get? block "include-ref" = some (.bool false) ∨
        identifierReferences dialect block carrier = [] ∨
        ∃ reference others, identifierReferences dialect block carrier = reference :: others ∧
          LeadsTo names reference := by
  constructor
  · rintro ⟨target, hsuppressed | hnone | ⟨_, hfirst, htarget, hname⟩⟩
    · exact .inl hsuppressed
    · exact .inr (.inl hnone)
    · exact .inr (.inr ⟨_, _, hfirst, _, hname, Pointer.target?_eq_some_iff.1 htarget⟩)
  · rintro (hsuppressed | hnone | ⟨reference, others, hfirst, name, hname, hleads⟩)
    · exact ⟨none, .suppressed hsuppressed⟩
    · exact ⟨none, .unreferring hnone⟩
    · by_cases hasked : Entries.get? block "include-ref" = some (.bool false)
      · exact ⟨none, .suppressed hasked⟩
      · exact ⟨some name, .named hasked hfirst (Pointer.target?_eq_some_iff.2 hleads) hname⟩

/-- An identifier is made unless what names the validator is no name, or the first reference leads
nowhere. -/
theorem exists_identifies_iff {names : List String} {dialect : Dialect} {block carrier : Members} :
    (∃ field, Identifies names dialect block carrier field) ↔
      Holds block "validator" [.null, .string] ∧
        (Entries.get? block "include-ref" = some (.bool false) ∨
          identifierReferences dialect block carrier = [] ∨
          ∃ reference others, identifierReferences dialect block carrier = reference :: others ∧
            LeadsTo names reference) := by
  rw [← exists_namesValidator_iff, ← exists_identifierType_iff]
  constructor
  · rintro ⟨field, h⟩
    obtain ⟨validator, target, hvalidator, htarget, _⟩ := identifies_iff.1 h
    exact ⟨⟨validator, hvalidator⟩, target, htarget⟩
  · rintro ⟨⟨validator, hvalidator⟩, target, htarget⟩
    exact ⟨_, identifies_iff.2 ⟨validator, target, hvalidator, htarget, rfl⟩⟩

/-- **That two properties say the same about their identifiers**: their blocks are equal and stand
alike, and the objects that carry them refer alike and stand alike for arrays. -/
structure Override.SameIdentifier (dialect : Dialect) (left right : Members)
    (found found' : Override) : Prop where
  /-- The blocks are equal. -/
  block : found.block = found'.block
  /-- They stand on the properties, or on the items. -/
  onItems : found.onItems = found'.onItems
  /-- The same references count. -/
  references : identifierReferences dialect found.block (found.carrier left) =
    identifierReferences dialect found'.block (found'.carrier right)
  /-- Both objects stand for arrays, or neither does. -/
  array : StandsForArray (found.carrier left) ↔ StandsForArray (found'.carrier right)

namespace Catalog

variable {catalog : Catalog} {block carrier : Members} {place : Pointer}

theorem identifierTarget_eq_ok_iff {stack : List String} {target : Option String} :
    (catalog.scope stack).identifierTarget block carrier place = .ok target ↔
      IdentifierType (Entries.keys catalog.types) catalog.dialect block carrier target := by
  have hread : identifierReference? (catalog.scope stack).dialect block carrier =
      if Entries.get? block "include-ref" = some (.bool false) then none
      else (identifierReferences catalog.dialect block carrier).head? :=
    identifierReference?_eq catalog.dialect block carrier
  rw [Scope.identifierTarget, hread]
  by_cases hasked : Entries.get? block "include-ref" = some (.bool false)
  · rw [if_pos hasked]
    constructor
    · rintro ⟨⟩
      exact .suppressed hasked
    · rintro (_ | _ | ⟨hnot, _, _, _⟩)
      · rfl
      · rfl
      · exact absurd hasked hnot
  · rw [if_neg hasked]
    cases hreferences : identifierReferences catalog.dialect block carrier with
    | nil =>
        constructor
        · rintro ⟨⟩
          exact .unreferring hreferences
        · rintro (_ | _ | ⟨_, hsome, _, _⟩)
          · rfl
          · rfl
          · rw [hreferences] at hsome
            cases hsome
    | cons reference others =>
        dsimp only [List.head?_cons]
        constructor
        · intro h
          split at h
          · next name hname =>
              cases h
              have hname : catalog.target? reference = some name := hname
              obtain ⟨htarget, hmem⟩ := target?_eq_some_iff.1 hname
              exact .named hasked hreferences htarget (Entries.isSome_get?_iff.1 hmem)
          · cases h
        · rintro (hsuppressed | hnone | ⟨_, hsome, htarget, hname⟩)
          · exact absurd hsuppressed hasked
          · rw [hreferences] at hnone
            cases hnone
          · rw [hreferences] at hsome
            cases hsome
            have hfound : (catalog.scope stack).target? reference = some _ :=
              target?_eq_some_iff.2 ⟨htarget, Entries.isSome_get?_iff.2 hname⟩
            rw [hfound]

/-- **What a block that asks for an identifier yields.** -/
theorem overrideField_eq_ok_iff (hblock : storesIdentifier block = true) {stack : List String}
    {field : Descriptor} :
    (catalog.scope stack).overrideField block carrier place = .ok field ↔
      Identifies (Entries.keys catalog.types) catalog.dialect block carrier field := by
  rw [identifies_iff, Scope.overrideField, Outcome.bind_eq_ok_iff]
  refine exists_congr fun validator => ?_
  rw [Scope.baseField, if_pos hblock, Scope.identifierField, validatorName?_eq_ok_iff,
    Outcome.bind_map, Outcome.bind_eq_ok_iff, ← exists_and_left]
  refine exists_congr fun target => ?_
  rw [identifierTarget_eq_ok_iff]
  refine and_congr_right fun _ => and_congr_right fun _ => ?_
  constructor
  · rintro ⟨⟩
    rfl
  · rintro rfl
    rfl

/-- Catalogs whose definitions have the same names agree on where references lead. -/
theorem target?_congr {other : Catalog}
    (hnames : ∀ name, name ∈ Entries.keys catalog.types ↔ name ∈ Entries.keys other.types) :
    catalog.target? = other.target? := by
  funext reference
  ext name
  rw [target?_eq_some_iff, target?_eq_some_iff, Entries.isSome_get?_iff, Entries.isSome_get?_iff,
    hnames]

/-- **Nothing else is read** for a block that asks for an identifier. -/
theorem overrideField_congr {other : Catalog} (hdialect : catalog.dialect = other.dialect)
    (hnames : ∀ name, name ∈ Entries.keys catalog.types ↔ name ∈ Entries.keys other.types)
    (hblock : storesIdentifier block = true) {carrier' : Members}
    (hreferences : identifierReferences catalog.dialect block carrier =
      identifierReferences catalog.dialect block carrier')
    (harray : StandsForArray carrier ↔ StandsForArray carrier') (stack stack' : List String) :
    (catalog.scope stack).overrideField block carrier place =
      (other.scope stack').overrideField block carrier' place := by
  have hscope : (other.scope stack').dialect = (catalog.scope stack).dialect := hdialect.symm
  have htarget : (other.scope stack').target? = (catalog.scope stack).target? :=
    (target?_congr hnames).symm
  have hwrap : isArrayProperty carrier = isArrayProperty carrier' := by
    rw [Bool.eq_iff_iff, isArrayProperty_iff, isArrayProperty_iff, harray]
  have hreference : identifierReference? (catalog.scope stack).dialect block carrier =
      identifierReference? (catalog.scope stack).dialect block carrier' := by
    change identifierReference? catalog.dialect _ _ = identifierReference? catalog.dialect _ _
    rw [identifierReference?_eq, identifierReference?_eq, hreferences]
  rw [Scope.overrideField, Scope.overrideField, hscope]
  refine congrArg (Bind.bind _) (funext fun validator => ?_)
  rw [Scope.baseField, Scope.baseField, if_pos hblock, if_pos hblock, Scope.identifierField,
    Scope.identifierField, Scope.identifierTarget, Scope.identifierTarget, hscope, htarget, hwrap,
    hreference]

/-- **An identifier never enters the definition that it names.**  A property whose block asks for
one yields exactly the identifier that the names of the definitions, the block and the object that
carries it determine, in an array of its own when that object is the items.  It fails only where no
name stands as that of the validator, or where the first reference leads nowhere.  The outcome stays
the same in every catalog with these names, whatever its definitions say and whichever are being
compiled, and for every property that says the same about its identifier, whatever else it says. -/
theorem identifier_outcome {members : Members} {found : Override}
    (hfound : override? catalog.dialect members place = .ok (some found))
    (hblock : storesIdentifier found.block = true) (stack : List String) :
    (∀ field, resolveField (catalog.scope stack) (.obj members) place = .ok field ↔
      ∃ inner, Identifies (Entries.keys catalog.types) catalog.dialect found.block
          (found.carrier members) inner ∧
        field = found.enclose inner) ∧
      ((resolveField (catalog.scope stack) (.obj members) place).Succeeds ↔
        Holds found.block "validator" [.null, .string] ∧
          (Entries.get? found.block "include-ref" = some (.bool false) ∨
            identifierReferences catalog.dialect found.block (found.carrier members) = [] ∨
            ∃ reference others,
              identifierReferences catalog.dialect found.block (found.carrier members) =
                reference :: others ∧
              LeadsTo (Entries.keys catalog.types) reference)) ∧
      ∀ (other : Catalog) (stack' : List String) (members' : Members) (found' : Override),
        catalog.dialect = other.dialect →
        (∀ name, name ∈ Entries.keys catalog.types ↔ name ∈ Entries.keys other.types) →
        override? other.dialect members' place = .ok (some found') →
        Override.SameIdentifier catalog.dialect members members' found found' →
        resolveField (catalog.scope stack) (.obj members) place =
          resolveField (other.scope stack') (.obj members') place := by
  have hresolve : resolveField (catalog.scope stack) (.obj members) place =
      ((catalog.scope stack).overrideField found.block (found.carrier members)
        (found.place place)).map found.enclose := resolveField_of_override hfound
  refine ⟨fun field => ?_, ?_, ?_⟩
  · rw [hresolve, Outcome.map_eq_ok_iff]
    refine exists_congr fun inner => ?_
    rw [overrideField_eq_ok_iff hblock]
    exact and_congr_right fun _ => eq_comm
  · rw [hresolve, Outcome.succeeds_map_iff, ← exists_identifies_iff]
    exact exists_congr fun inner => overrideField_eq_ok_iff hblock
  · rintro other stack' members' found' hdialect hnames hfound' ⟨hsame, honItems, hrefs, harray⟩
    have hresolve' : resolveField (other.scope stack') (.obj members') place =
        ((other.scope stack').overrideField found'.block (found'.carrier members')
          (found'.place place)).map found'.enclose := resolveField_of_override hfound'
    rw [← hsame] at hrefs
    have hplace : found.place place = found'.place place := by
      cases found <;> cases found' <;> first | rfl | cases honItems
    have henclose : found.enclose = found'.enclose := by
      funext inner
      rw [Override.enclose, Override.enclose, honItems]
    rw [hresolve, hresolve', ← hsame, ← hplace, ← henclose,
      overrideField_congr hdialect hnames hblock hrefs harray stack stack']

/-- Pets that are whatever `body` says. -/
def petsOf (body : Members) : Catalog := .ofDefinitions .legacy [("Pet", body)]

/-- A block that asks for an identifier. -/
def identifierBlock : Members := [("type", .str identifierType), ("index", .bool true)]

/-- A reference to pets that is stored as an identifier. -/
def petIdentifier : Members :=
  [("$ref", .str "#/definitions/Pet"), ("x-mongoose", .obj identifierBlock)]

/-- A list of pets is stored as an array of identifiers, even while pets are being compiled, and
whether or not they can be. -/
theorem petIdentifiers_outcome :
    override? .legacy [("type", .str "array"), ("items", .obj petIdentifier)] "" =
        .ok (some (.ofItems petIdentifier identifierBlock)) ∧
      storesIdentifier identifierBlock = true ∧
      resolveField ((petsOf []).scope ["Pet"])
          (.obj [("type", .str "array"), ("items", .obj petIdentifier)]) "" =
        .ok (.array {} (.reference { attributes := [("index", .bool true)] } (some "Pet"))) ∧
      resolveField ((petsOf []).scope ["Pet"])
          (.obj [("type", .str "array"), ("items", .obj petIdentifier)]) "" =
        resolveField ((petsOf [("type", .str "creature")]).scope [])
          (.obj [("type", .num (.integer 7)), ("items", .obj petIdentifier)]) "" := by
  have hfound : override? (petsOf []).dialect
      [("type", .str "array"), ("items", .obj petIdentifier)] "" =
        .ok (some (.ofItems petIdentifier identifierBlock)) := rfl
  have hblock : storesIdentifier identifierBlock = true := rfl
  obtain ⟨hyields, _, hsame⟩ := identifier_outcome hfound hblock ["Pet"]
  refine ⟨hfound, hblock, (hyields _).2 ⟨_, .single (.absent rfl) ?_ ?_, rfl⟩, ?_⟩
  · exact .named (by decide) rfl (by decide) (by decide)
  · rintro (htype | ⟨items, hitems⟩)
    · cases htype
    · cases hitems
  · exact hsame _ [] _ (.ofItems petIdentifier identifierBlock) rfl (fun _ => Iff.rfl) rfl
      ⟨rfl, rfl, rfl, Iff.rfl⟩

end Catalog

end StoreSchema
