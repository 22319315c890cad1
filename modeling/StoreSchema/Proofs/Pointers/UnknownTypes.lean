/-
**Where an unknown type stands.**

When a document is refused for a type that does not exist, the cause names a place.  The object that
declares the type stands there: from the definition in the place its steps lead to the object,
whatever references led to the definition.  But only the name of the definition is escaped in the
place, and the names of properties are written as they are.  So the place is the pointer to the
object exactly when the names of all properties on the way are plain.

The proof follows the cause through compilation: what a step refuses, it refuses at a place in
`refused`, whatever that is, as long as all places are that hold a type in the property at hand.

Main definitions:

* `Json.walk?`, `Json.at?` — what steps, or a pointer, lead to in a value;
* `Json.DeclaresAt` — that steps lead to an object that declares a type which does not exist;
* `Outcome.RefusesTypes` — that an outcome refuses types only at certain places;
* `Catalog.DeclaresUnknown` — that a definition declares such a type at a place.

Main results:

* `Json.at?_ofSteps` — a pointer leads to what its steps lead to;
* `refusesTypes_resolveField`, `Catalog.Plain.refusesTypes_follow`, `refusesTypes_compile` — **types
  are refused where they are declared**: in a property, behind a reference, and in a document;
* `unknown_type_located` — **the place of an unknown type leads to the object that declares it**,
  and when it is the pointer to that object;
* `priceDocument_misplaced` — a place that no pointer leads to.
-/

import StoreSchema.Proofs.Acceptance
import StoreSchema.Proofs.Object.Depth
import StoreSchema.Proofs.Pointers.References

set_option relaxedAutoImplicit false
set_option autoImplicit false

namespace StoreSchema

/-! ### Walking along steps -/

namespace Json

/-- What is one step inside a value: the member of that name, or the item with that index, which is
written in decimal digits. -/
def child? : Json → String → Option Json
  | .obj members, step => Entries.get? members step
  | .arr items, step => (items.zipIdx.find? fun item => toString item.2 == step).map Prod.fst
  | _, _ => none

/-- What steps lead to in a value. -/
def walk? : Json → List String → Option Json
  | value, [] => some value
  | value, step :: steps => (value.child? step).bind fun inner => walk? inner steps

/-- **What a pointer leads to** in a value. -/
def at? (value : Json) (pointer : Pointer) : Option Json :=
  (Pointer.steps? pointer).bind value.walk?

/-- A pointer leads to what its steps lead to. -/
theorem at?_ofSteps (value : Json) (steps : List String) :
    value.at? (Pointer.ofSteps steps) = value.walk? steps := by
  rw [at?, Pointer.steps?_ofSteps, Option.bind_some]

theorem walk?_of_get? {members : Members} {step : String} {inner : Json}
    (h : Entries.get? members step = some inner) (steps : List String) :
    (obj members).walk? (step :: steps) = inner.walk? steps := by
  rw [walk?, child?, h, Option.bind_some]

/-- That steps lead to an object that declares a type which does not exist. -/
def DeclaresAt (value : Json) (steps : List String) (declared : Json) : Prop :=
  ∃ members, value.walk? steps = some (.obj members) ∧
    Entries.get? members "type" = some declared ∧
    declared.asString?.bind DeclaredType.parse? = none

variable {members : Members} {steps : List String} {declared : Json}

theorem DeclaresAt.of_get? {step : String} {inner : Json} (h : inner.DeclaresAt steps declared)
    (hget : Entries.get? members step = some inner) :
    (obj members).DeclaresAt (step :: steps) declared := by
  obtain ⟨found, hwalk, htype⟩ := h
  exact ⟨found, by rw [walk?_of_get? hget, hwalk], htype⟩

/-- What a listed property declares stands in the object that lists it. -/
theorem DeclaresAt.of_listed {entry : String × Json} (h : entry.2.DeclaresAt steps declared)
    (hdistinct : (obj members).Distinct) (hentry : entry ∈ listedProperties members) :
    (obj members).DeclaresAt ("properties" :: entry.1 :: steps) declared := by
  have hnames := (distinct_obj_iff.1 hdistinct.listedProperties).1
  have hget := Entries.get?_of_mem hnames hentry
  rw [listedProperties] at hget
  cases hlisted : Entries.get? members "properties" with
  | none => simp [hlisted] at hget
  | some listed =>
      rw [hlisted, Option.map_some, Option.getD_some] at hget
      cases listed with
      | obj properties => exact (h.of_get? hget).of_get? hlisted
      | _ => simp [Json.members] at hget

end Json

/-! ### Refused types -/

namespace Outcome

variable {α β : Type} {refused : Pointer → Json → Prop}

/-- The cause against a value. -/
def cause? : Outcome α → Option CompileError
  | .ok _ => none
  | .error cause => some cause

theorem cause?_eq_some_iff {outcome : Outcome α} {cause : CompileError} :
    outcome.cause? = some cause ↔ outcome = .error cause := by
  cases outcome <;> simp [cause?]

/-- **That an outcome refuses types only at certain places.** -/
def RefusesTypes (refused : Pointer → Json → Prop) (outcome : Outcome α) : Prop :=
  ∀ place declared, outcome = .error (.unrecognizedType place declared) → refused place declared

theorem refusesTypes_ok (value : α) : RefusesTypes refused (.ok value) := nofun

theorem RefusesTypes.bind {first : Outcome α} {next : α → Outcome β}
    (hfirst : first.RefusesTypes refused)
    (hnext : ∀ value, first = .ok value → (next value).RefusesTypes refused) :
    (first >>= next).RefusesTypes refused := by
  cases first with
  | error cause =>
      rintro place declared ⟨⟩
      exact hfirst place declared rfl
  | ok value => exact hnext value rfl

theorem RefusesTypes.map {outcome : Outcome α} (h : outcome.RefusesTypes refused) (change : α → β) :
    RefusesTypes refused (outcome.map change) := by
  cases outcome with
  | error cause =>
      rintro place declared ⟨⟩
      exact h place declared rfl
  | ok value => exact refusesTypes_ok (change value)

end Outcome

open Outcome

section Reading

variable {refused : Pointer → Json → Prop} {dialect : Dialect} {members : Members} {place : Pointer}

theorem refusesTypes_required_read : (Required.read members place).RefusesTypes refused := by
  intro place declared h
  rw [Required.read] at h
  split at h <;> cases h

theorem refusesTypes_objectBody_read : (ObjectBody.read members place).RefusesTypes refused := by
  refine refusesTypes_required_read.bind fun required _ => ?_
  refine RefusesTypes.bind ?_ fun properties _ => refusesTypes_ok _
  intro place declared h
  rw [ObjectBody.readProperties] at h
  split at h <;> cases h

theorem refusesTypes_directive? : (dialect.directive? members place).RefusesTypes refused := by
  intro place declared h
  rw [Dialect.directive?] at h
  split at h <;> cases h

theorem refusesTypes_ownReference? :
    (ownReference? dialect members place).RefusesTypes refused := by
  rw [ownReference?]
  split
  · exact refusesTypes_ok _
  · intro place declared h
    cases h
  · exact refusesTypes_directive?.map _

theorem refusesTypes_reference? : (reference? dialect members place).RefusesTypes refused := by
  refine refusesTypes_ownReference?.bind fun own _ => ?_
  cases own with
  | some reference => exact refusesTypes_ok _
  | none =>
      dsimp only
      split
      · exact refusesTypes_ownReference?
      · exact refusesTypes_ok _

theorem refusesTypes_readScalar (type : Primitive) :
    (Form.readScalar members place type).RefusesTypes refused := by
  refine RefusesTypes.map ?_ _
  intro place declared h
  rw [readValues] at h
  split at h <;> cases h

theorem refusesTypes_checkNumberFormat :
    (checkNumberFormat members place).RefusesTypes refused := by
  intro place declared h
  rw [checkNumberFormat] at h
  split at h
  · cases h
  · cases h
  · split at h <;> cases h

theorem refusesTypes_readItems : (readItems members place).RefusesTypes refused := by
  intro place declared h
  rw [readItems] at h
  split at h <;> cases h

/-- A declared type is refused where it stands. -/
theorem refusesTypes_declaredType
    (h : ∀ declared, (Json.obj members).DeclaresAt [] declared → refused place declared) :
    (declaredType members place).RefusesTypes refused := by
  intro place' declared herror
  rw [declaredType] at herror
  split at herror
  · cases herror
  · cases herror
  · next hget =>
      split at herror
      · cases herror
      · next hparse =>
          cases herror
          exact h _ ⟨members, rfl, hget, hparse⟩

theorem refusesTypes_readTyped
    (h : ∀ declared, (Json.obj members).DeclaresAt [] declared → refused place declared) :
    (Form.readTyped members place).RefusesTypes refused := by
  refine (refusesTypes_declaredType h).bind fun type _ => ?_
  cases type with
  | number => exact refusesTypes_checkNumberFormat.bind fun _ _ => refusesTypes_readScalar _
  | array => exact refusesTypes_readItems.map _
  | object => exact refusesTypes_objectBody_read.map _
  | _ => exact refusesTypes_readScalar _

end Reading

/-! ### Properties -/

section Resolving

variable {refused : Pointer → Json → Prop} {scope : Scope}

/-- Listed properties refuse types only where each of them does. -/
theorem refusesTypes_resolveProperties {properties : Members} {place : Pointer}
    (hlacks : ∀ entry ∈ properties, entry.2.Lacks scope.dialect.directiveKey)
    (hproperty : ∀ entry ∈ properties,
      (resolveField scope entry.2 (place.child entry.1)).RefusesTypes refused)
    (rule : Required) : (resolveProperties scope rule place properties).RefusesTypes refused := by
  induction properties with
  | nil =>
      rw [resolveProperties_nil]
      exact refusesTypes_ok []
  | cons first rest ih =>
      obtain ⟨name, property⟩ := first
      rw [List.forall_mem_cons] at hlacks hproperty
      have hentry : (scope.entry rule name property (place.child name)).RefusesTypes refused := by
        rw [Scope.entry]
        split
        · exact refusesTypes_ok none
        · rw [fieldRequired_of_blockFree (blockFree_of_lacks hlacks.1)]
          exact hproperty.1.bind fun _ _ => refusesTypes_ok _
      rw [resolveProperties_cons]
      refine hentry.bind fun _ _ => ?_
      exact (ih hlacks.2 hproperty.2).bind fun _ _ => refusesTypes_ok _

/-- **A property refuses types where they are declared in it**, references apart. -/
theorem refusesTypes_resolveField
    (hfollow : ∀ reference place, (scope.follow reference place).RefusesTypes refused)
    {property : Json} (hlacks : property.Lacks scope.dialect.directiveKey)
    (hdistinct : property.Distinct) {place : Pointer}
    (hrefused : ∀ steps declared, property.DeclaresAt steps declared →
      refused (place.below steps) declared) :
    (resolveField scope property place).RefusesTypes refused := by
  induction property using Form.part_induction scope.dialect generalizing place with
  | other property hproperty =>
      rw [resolveField_of_not_isObject hproperty]
      nofun
  | object members ih =>
      have hfree : BlockFree scope.dialect members := blockFree_of_lacks hlacks
      rw [resolveField_obj]
      refine RefusesTypes.bind ?_ fun form hread => ?_
      · rw [Form.read_of_blockFree hfree]
        refine refusesTypes_reference?.bind fun reference _ => ?_
        cases reference with
        | some reference => exact refusesTypes_ok _
        | none => exact refusesTypes_readTyped fun declared h => hrefused [] declared h
      have hwithin := Form.within_of_read hread
      -- a part is resolved at the place that its steps lead to
      have hinner (inner : List String) {part : Json}
          (h : Form.Part scope.dialect members form part)
          (hdeclares : ∀ steps declared, part.DeclaresAt steps declared →
            (Json.obj members).DeclaresAt (inner ++ steps) declared) :
          (resolveField scope part (place.below inner)).RefusesTypes refused := by
        refine ih place form part hread h (hlacks.mono (Form.deepMembers_of_part hread h))
          (Form.distinct_of_part hread h hdistinct) fun steps declared hsteps => ?_
        rw [← Pointer.below_append]
        exact hrefused _ declared (hdeclares steps declared hsteps)
      cases form with
      | overridden block =>
          rw [Form.Within, hfree.own] at hwithin
          cases hwithin
      | overriddenItems items =>
          exact (hinner ["items"] (.overriddenItems items) fun _ _ h => h.of_get? hwithin).map _
      | referring reference => exact (hfollow reference place).map _
      | scalar type values => exact refusesTypes_ok _
      | array items => exact (hinner ["items"] (.items items) fun _ _ h => h.of_get? hwithin).map _
      | object body =>
          have hlisted := ObjectBody.properties_of_read (Form.objectBody_of_read hread)
          refine (refusesTypes_resolveProperties ?_ ?_ body.required).map _
          · intro entry hentry
            exact hlacks.mono (Form.deepMembers_of_part hread (.property body entry hentry))
          · intro entry hentry
            refine hinner ["properties", entry.1] (.property body entry hentry) ?_
            rw [hlisted] at hentry
            exact fun _ _ h => h.of_listed hdistinct hentry

end Resolving

/-! ### Definitions -/

namespace Catalog

/-- **That a definition declares a type which does not exist**, at the place that the steps from the
definition lead to. -/
def DeclaresUnknown (catalog : Catalog) (place : Pointer) (declared : Json) : Prop :=
  ∃ name type steps, (name, type) ∈ catalog.types ∧
    (Json.obj type.body).DeclaresAt steps declared ∧
    place = (Pointer.definition name).below steps

namespace Plain

variable {catalog : Catalog} (hplain : catalog.Plain)
  (hdistinct : ∀ entry ∈ catalog.types, (Json.obj entry.2.body).Distinct)
include hplain hdistinct

section Definition

variable {stack : List String} {name : String} {type : TypeDefinition}
  (hfollow : ∀ reference place,
    (catalog.follow stack reference place).RefusesTypes catalog.DeclaresUnknown)
  (htype : (name, type) ∈ catalog.types)
include hfollow htype

/-- A definition that is resolved as a property refuses types where definitions declare them. -/
theorem refusesTypes_bare :
    (resolveField (catalog.scope stack)
      (.obj (Entries.erase type.body catalog.dialect.directiveKey))
      (Pointer.definition name)).RefusesTypes catalog.DeclaresUnknown := by
  have hlacks := hplain.lacks _ htype
  rw [Entries.erase_eq_self hlacks.get?_eq_none]
  exact refusesTypes_resolveField hfollow hlacks (hdistinct _ htype)
    fun steps declared h => ⟨name, type, steps, htype, h, rfl⟩

theorem refusesTypes_objectFields :
    ((catalog.scope stack).objectFields type.body [] (Pointer.definition name)).RefusesTypes
      catalog.DeclaresUnknown := by
  have hlacks := hplain.lacks _ htype
  have hbody := hdistinct _ htype
  refine refusesTypes_objectBody_read.bind fun body hread => ?_
  have hlisted : body.properties = listedProperties type.body := ObjectBody.properties_of_read hread
  refine RefusesTypes.bind ?_ fun declared _ => ?_
  · rw [hlisted]
    refine refusesTypes_resolveProperties ?_ ?_ body.required
    · intro entry hentry
      exact hlacks.of_mem (mem_deepEntries_of_listedProperties hentry)
    · intro entry hentry
      refine refusesTypes_resolveField hfollow
        (hlacks.of_mem (mem_deepEntries_of_listedProperties hentry))
        ((Json.distinct_obj_iff.1 hbody.listedProperties).2 entry hentry) ?_
      intro steps declared h
      refine ⟨name, type, "properties" :: entry.1 :: steps, htype, h.of_listed hbody hentry, ?_⟩
      rw [Pointer.below_cons, Pointer.below_cons]
  · rw [resolveProperties_nil]
    exact refusesTypes_ok _

theorem refusesTypes_tree :
    ((catalog.scope stack).tree name type).RefusesTypes catalog.DeclaresUnknown := by
  rw [Scope.tree, hplain.directives _ htype]
  split
  · exact (hplain.refusesTypes_objectFields hdistinct hfollow htype).map _
  · refine RefusesTypes.map ?_ _
    refine (hplain.refusesTypes_bare hdistinct hfollow htype).bind fun field _ => ?_
    exact refusesTypes_required_read.bind fun rule _ => refusesTypes_ok _

end Definition

/-- **A reference refuses types where definitions declare them**, whatever it leads to, and whatever
is being compiled. -/
theorem refusesTypes_follow (stack : List String) (reference : String) (place : Pointer) :
    (catalog.follow stack reference place).RefusesTypes catalog.DeclaresUnknown := by
  induction stack, reference, place using follow_induction catalog with
  | unresolved stack reference place hfind => nofun
  | cyclic stack reference place name type hfind hmem => exact refusesTypes_ok _
  | entered stack reference place name type hfind hmem ih =>
      have htype := find?_mem hfind
      rw [enter]
      split
      · exact (hplain.refusesTypes_bare hdistinct ih htype).map _
      · exact (hplain.refusesTypes_tree hdistinct ih htype).map _

/-- **A plain catalog refuses types where its definitions declare them.** -/
theorem refusesTypes_compile (validators : Validators) :
    (catalog.compile validators).RefusesTypes catalog.DeclaresUnknown := by
  have htypes : ∀ types : Entries TypeDefinition, (∀ entry ∈ types, entry ∈ catalog.types) →
      (catalog.compileTypes validators types).RefusesTypes catalog.DeclaresUnknown := by
    intro types htypes
    induction types with
    | nil => exact refusesTypes_ok _
    | cons first rest ih =>
        obtain ⟨name, type⟩ := first
        rw [List.forall_mem_cons] at htypes
        rw [compileTypes]
        split
        · exact ih htypes.2
        · refine RefusesTypes.bind ?_ fun tree _ => ?_
          · exact hplain.refusesTypes_tree hdistinct
              (hplain.refusesTypes_follow hdistinct [name]) htypes.1
          · refine RefusesTypes.bind ?_ fun bound _ => ?_
            · refine RefusesTypes.map ?_ _
              intro place declared h
              rw [bindValidators] at h
              split at h <;> cases h
            · exact (ih htypes.2).bind fun others _ => refusesTypes_ok _
  exact htypes catalog.types fun _ h => h

end Plain

end Catalog

/-! ### Documents -/

section Documents

variable {refused : Pointer → Json → Prop}

theorem refusesTypes_typeBlock? {dialect : Dialect} {members : Members} {place : Pointer} :
    (Registry.typeBlock? dialect members place).RefusesTypes refused :=
  refusesTypes_directive?.map _

/-- A document is not refused for its types before these are compiled. -/
theorem refusesTypes_build {document : Members} {dialect : Dialect} :
    (Registry.build document dialect).RefusesTypes refused := by
  have hread (listed : Members) :
      (Registry.readDefinitions dialect listed).RefusesTypes refused := by
    induction listed with
    | nil => exact refusesTypes_ok _
    | cons first rest ih =>
        obtain ⟨name, value⟩ := first
        cases value with
        | obj members =>
            refine refusesTypes_typeBlock?.bind fun block _ => ?_
            exact ih.bind fun others _ => refusesTypes_ok _
        | _ => nofun
  refine RefusesTypes.bind ?_ fun listed _ => ?_
  · intro place declared h
    rw [Registry.definitionList] at h
    split at h <;> cases h
  · refine (hread listed).bind fun read _ => ?_
    exact refusesTypes_typeBlock?.bind fun defaults _ => refusesTypes_ok _

/-- Nor is a document without blocks while its catalog is made. -/
theorem refusesTypes_catalogOf {document : Members}
    (hlacks : (Json.obj document).Lacks (Dialect.detect document).directiveKey) :
    (catalogOf document none).RefusesTypes refused := by
  cases hbuild : Registry.build document (Dialect.detect document) with
  | error cause =>
      have hrefused : RefusesTypes refused (.error cause : Outcome Registry) := by
        rw [← hbuild]
        exact refusesTypes_build
      rw [catalogOf, hbuild]
      refine hrefused.bind fun registry h => ?_
      cases h
  | ok registry =>
      obtain ⟨listed, hlisted, hread⟩ := Outcome.bind_eq_ok_iff.1 hbuild
      obtain ⟨read, hread, _⟩ := Outcome.bind_eq_ok_iff.1 hread
      rw [catalogOf_of_lacks hlacks hlisted (Registry.isObject_of_readDefinitions ⟨read, hread⟩)]
      exact refusesTypes_ok _

end Documents

/-- What the definitions of a document declare stands in the document. -/
theorem Catalog.DeclaresUnknown.stands {document listed : Members} {dialect : Dialect}
    {place : Pointer} {declared : Json} (hdistinct : (Json.obj document).Distinct)
    (hlisted : Registry.definitionList document = .ok listed)
    (hobjects : ∀ entry ∈ listed, entry.2.isObject = true)
    (h : (ofDefinitions dialect
      (listed.map fun entry => (entry.1, entry.2.members))).DeclaresUnknown place declared) :
    ∃ name steps, (Json.obj document).DeclaresAt ("definitions" :: name :: steps) declared ∧
      place = (Pointer.definition name).below steps := by
  obtain ⟨name, type, steps, htype, hdeclares, rfl⟩ := h
  simp only [ofDefinitions, List.map_map, List.mem_map, Function.comp_apply, Prod.mk.injEq] at htype
  obtain ⟨entry, hentry, rfl, rfl⟩ := htype
  rcases Registry.definitionList_eq_ok_iff.1 hlisted with ⟨_, rfl⟩ | hget
  · cases hentry
  · have hnames := (Json.distinct_obj_iff.1 (hdistinct.of_get? hget)).1
    rw [← Json.isObject_iff.1 (hobjects entry hentry)] at hdeclares
    have hname := Entries.get?_of_mem hnames hentry
    exact ⟨entry.1, steps, (hdeclares.of_get? hname).of_get? hget, rfl⟩

/-- **A document without blocks refuses types where it declares them.** -/
theorem refusesTypes_compile {document : Members} (hdistinct : (Json.obj document).Distinct)
    (hlacks : (Json.obj document).Lacks (Dialect.detect document).directiveKey)
    (validators : Validators) :
    (catalogOf document none >>= fun catalog => catalog.compile validators).RefusesTypes
      fun place declared => ∃ name steps,
        (Json.obj document).DeclaresAt ("definitions" :: name :: steps) declared ∧
          place = (Pointer.definition name).below steps := by
  refine (refusesTypes_catalogOf hlacks).bind fun catalog hcatalog => ?_
  have htypes := distinct_of_catalogOf hcatalog hdistinct nofun
  obtain ⟨listed, hlisted, hobjects⟩ := isObject_of_catalogOf ⟨catalog, hcatalog⟩
  rw [catalogOf_of_lacks hlacks hlisted hobjects] at hcatalog
  cases hcatalog
  have hplain := Catalog.plain_ofDefinitions (lacks_of_definitionList hlacks hlisted) hobjects
  intro place declared h
  have hdeclares := hplain.refusesTypes_compile (fun entry hentry => (htypes entry hentry).body)
    validators place declared h
  exact hdeclares.stands hdistinct hlisted hobjects

/-- **The place of an unknown type leads to the object that declares it.**  When a document without
blocks is refused for a type, the object under the steps from the definition in the place holds the
type as it is reported, however many references led to the definition.  The place is the pointer to
that object exactly when all of these steps are plain, and then leads to it. -/
theorem unknown_type_located {source : Source} {document : Members}
    (hsource : source.normalize = .ok document) (hdistinct : (Json.obj document).Distinct)
    (hlacks : (Json.obj document).Lacks (Dialect.detect document).directiveKey)
    {validators : Validators} {place : Pointer} {declared : Json}
    (h : compile source { validators } = .error (.unrecognizedType place declared)) :
    ∃ name steps members,
      place = (Pointer.definition name).below steps ∧
      (Json.obj document).walk? ("definitions" :: name :: steps) = some (.obj members) ∧
      Entries.get? members "type" = some declared ∧
      (declared = .str declared.plainText ∨
        declared.asString? = none ∧ declared.compact = declared.plainText) ∧
      declared.asString?.bind DeclaredType.parse? = none ∧
      (place = Pointer.ofSteps ("definitions" :: name :: steps) ↔
        ∀ step ∈ steps, Pointer.Plain step) ∧
      ((∀ step ∈ steps, Pointer.Plain step) →
        (Json.obj document).at? place = some (.obj members)) := by
  have hcompile : compile source { validators } =
      catalogOf document none >>= fun catalog => catalog.compile validators := by
    rw [compile, hsource]
    rfl
  rw [hcompile] at h
  obtain ⟨name, steps, ⟨members, hwalk, htype, hparse⟩, rfl⟩ :=
    refusesTypes_compile hdistinct hlacks validators place declared h
  have hplace : (Pointer.definition name).below steps =
        Pointer.ofSteps ("definitions" :: name :: steps) ↔
      ∀ step ∈ steps, Pointer.Plain step := by
    rw [Pointer.definition_eq_ofSteps]
    exact Pointer.below_eq_ofSteps_iff
  have htext : declared = .str declared.plainText ∨
      declared.asString? = none ∧ declared.compact = declared.plainText := by
    cases declared with
    | str text => exact .inl rfl
    | _ => exact .inr ⟨rfl, rfl⟩
  refine ⟨name, steps, members, rfl, hwalk, htype, htext, hparse, hplace, fun hplain => ?_⟩
  rw [hplace.2 hplain, Json.at?_ofSteps, hwalk]

/-- Orders refer to cats and dogs, whose tags have sizes of an unknown type. -/
def tagDocument : Members :=
  [("definitions", .obj
    [("Order", .obj [("properties", .obj
        [("pet", .obj [("$ref", .str "#/definitions/cat~dog")])])]),
      ("cat~dog", .obj [("properties", .obj
        [("tags", .obj
          [("type", .str "array"),
            ("items", .obj
              [("type", .str "object"),
                ("properties", .obj [("size", .obj [("type", .str "measure")])])])])])])])]

/-- The place of the sizes leads from the definition to them. -/
theorem tagDocument_located :
    (Json.obj tagDocument).Distinct ∧
      (Json.obj tagDocument).Lacks (Dialect.detect tagDocument).directiveKey ∧
      compile (.parsed (.obj tagDocument)) { validators := [] } = .error (.unrecognizedType
        "/definitions/cat~0dog/properties/tags/items/properties/size" (.str "measure")) ∧
      (∃ name steps members, "/definitions/cat~0dog/properties/tags/items/properties/size" =
          (Pointer.definition name).below steps ∧
        (Json.obj tagDocument).walk? ("definitions" :: name :: steps) = some (.obj members) ∧
        Entries.get? members "type" = some (.str "measure")) ∧
      (Json.obj tagDocument).at? "/definitions/cat~0dog/properties/tags/items/properties/size" =
        some (.obj [("type", .str "measure")]) := by
  have hdistinct : (Json.obj tagDocument).Distinct := by
    simp [tagDocument, Json.Distinct, Json.DistinctMembers]
  have hlacks : (Json.obj tagDocument).Lacks (Dialect.detect tagDocument).directiveKey := by
    unfold Json.Lacks
    decide
  have hcompile : compile (.parsed (.obj tagDocument)) { validators := [] } =
      .error (.unrecognizedType "/definitions/cat~0dog/properties/tags/items/properties/size"
        (.str "measure")) := by
    rw [← Outcome.cause?_eq_some_iff]
    decide +kernel
  obtain ⟨name, steps, members, hplace, hwalk, htype, _⟩ :=
    unknown_type_located rfl hdistinct hlacks hcompile
  refine ⟨hdistinct, hlacks, hcompile, ⟨name, steps, members, hplace, hwalk, htype⟩, ?_⟩
  decide +kernel

/-- Pets have a property whose name holds a slash, of an unknown type. -/
def priceDocument : Members :=
  [("definitions", .obj
    [("Pet", .obj [("properties", .obj [("price/unit", .obj [("type", .str "currency")])])])])]

/-- **A place that does not lead to the type it reports**: the slash in the name of the property is
not escaped, as one in the name of a definition would be. -/
theorem priceDocument_misplaced :
    (Json.obj priceDocument).Distinct ∧
      (Json.obj priceDocument).Lacks (Dialect.detect priceDocument).directiveKey ∧
      compile (.parsed (.obj priceDocument)) {} =
        .error (.unrecognizedType "/definitions/Pet/properties/price/unit" (.str "currency")) ∧
      (Json.obj priceDocument).at? "/definitions/Pet/properties/price/unit" = none ∧
      (Json.obj priceDocument).at? "/definitions/Pet/properties/price~1unit" =
        some (.obj [("type", .str "currency")]) := by
  refine ⟨?_, ?_, ?_, ?_, ?_⟩
  · simp [priceDocument, Json.Distinct, Json.DistinctMembers]
  · unfold Json.Lacks
    decide
  · rw [← Outcome.cause?_eq_some_iff]
    decide +kernel
  · decide +kernel
  · decide +kernel

end StoreSchema
