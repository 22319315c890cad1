/-
**Annotations are inert.**

Schemas that come out the same without annotations are resolved alike, since their forms match part
by part, and a block is worked into both of them with the same result.  An overlay leads through one
of them wherever it leads through the other.  So documents whose definitions differ in annotations
only compile alike: into the same schemas, or with the same cause at the same place.

Main definitions:

* `withoutAnnotations` — a document whose definitions are without annotations.

Main results:

* `resolveField_eq_of_unannotated`, `SameSchema.interchangeable` — **schemas that differ in
  annotations only are resolved alike**, and such definitions stand for one another;
* `Overlay.respects_sameSchema` — overlays keep schemas the same but for annotations;
* `annotations_inert` — **documents that differ in annotations only compile alike**.
-/

import StoreSchema.Proofs.Annotations.SameSchema
import StoreSchema.Proofs.Property.Parts

set_option relaxedAutoImplicit false
set_option autoImplicit false

namespace StoreSchema

/-! ### Resolving -/

/-- Whether a field is required does not depend on annotations. -/
theorem fieldRequired_eq_of_unannotated {dialect : Dialect} {property property' : Json}
    (h : unannotated dialect property = unannotated dialect property') (rule : Required)
    (name : String) (place : Pointer) :
    fieldRequired dialect rule name property place =
      fieldRequired dialect rule name property' place := by
  rcases unannotated_eq_cases h with ⟨_, _, rfl, rfl, hsame⟩ | ⟨rfl, _⟩
  · rw [fieldRequired, fieldRequired, Json.members_obj, Json.members_obj]
    refine (hsame.matched_override? place).bind_eq fun found found' hfound => ?_
    cases hfound with
    | none => rfl
    | some hfound =>
        dsimp only
        rw [hfound.block_eq]
  · rfl

/-- Listed schemas are resolved alike when each of them is. -/
theorem resolveProperties_eq_of_sameSchemas {scope : Scope} {properties properties' : Members}
    (h : SameSchemas scope.dialect properties properties')
    (hresolve : ∀ entry ∈ properties, ∀ property',
      unannotated scope.dialect entry.2 = unannotated scope.dialect property' →
      ∀ place, resolveField scope entry.2 place = resolveField scope property' place)
    (rule : Required) (place : Pointer) :
    resolveProperties scope rule place properties =
      resolveProperties scope rule place properties' := by
  induction h with
  | nil => rfl
  | @cons name property property' rest rest' hproperty hrest ih =>
      rw [List.forall_mem_cons] at hresolve
      rw [resolveProperties_cons, resolveProperties_cons, ih hresolve.2, Scope.entry, Scope.entry,
        hresolve.1 property' hproperty, fieldRequired_eq_of_unannotated hproperty]

/-- Forms that are the same but for annotations yield the same when their parts do. -/
theorem Scope.perform_eq_of_alike {scope : Scope} {members members' : Members}
    (hsame : SameSchema scope.dialect members members') {form form' : Form}
    (hform : form.Alike scope.dialect form')
    (hparts : ∀ part, Form.Part scope.dialect members form part →
      ∀ part', unannotated scope.dialect part = unannotated scope.dialect part' →
      ∀ place, resolveField scope part place = resolveField scope part' place) (place : Pointer) :
    scope.perform members place form = scope.perform members' place form' := by
  cases hform with
  | overridden block =>
      have hbase (validator : Option String) :
          scope.baseField block members place validator =
            scope.baseField block members' place validator := by
        have hretyped := hsame.retyped scope.dialect.directiveKey validator block
        rw [baseField, baseField, identifierField, identifierField, identifierTarget,
          identifierTarget, hsame.identifierReference?_eq, hsame.isArrayProperty_eq,
          hparts _ (.retyped block validator) _ hretyped.unannotated_eq]
      rw [perform, perform, overrideField, overrideField]
      simp only [hbase]
  | @overriddenItems items items' hitems =>
      rw [perform, perform, hparts _ (.overriddenItems items) _ hitems.unannotated_eq]
  | referring reference => rw [perform, perform, hsame.isArrayProperty_eq]
  | scalar type values => rfl
  | @array items items' hitems => rw [perform, perform, hparts _ (.items items) _ hitems]
  | @object body body' hbody =>
      have hproperties := resolveProperties_eq_of_sameSchemas hbody.properties fun entry hentry =>
        hparts _ (.property body entry hentry)
      rw [perform, perform, ← hbody.required, hproperties]

/-- **Schemas that differ in annotations only are resolved alike**: into the same descriptor, or
with the same cause. -/
theorem resolveField_eq_of_unannotated (scope : Scope) {property property' : Json}
    (h : unannotated scope.dialect property = unannotated scope.dialect property')
    (place : Pointer) : resolveField scope property place = resolveField scope property' place := by
  -- the parts of both properties come out the same in turn, also where a block is worked in
  induction property using Form.part_induction scope.dialect generalizing property' place with
  | other property hproperty =>
      rcases unannotated_eq_cases h with ⟨_, _, rfl, rfl, _⟩ | ⟨rfl, _⟩
      · cases hproperty
      · rfl
  | object members ih =>
      rcases unannotated_eq_cases h with ⟨_, members', heq, rfl, hsame⟩ | ⟨rfl, _⟩
      · cases heq
        have hform := hsame.matched_form place
        rw [resolveField_obj, resolveField_obj]
        generalize hleft : Form.read scope.dialect members place = read,
          Form.read scope.dialect members' place = read' at hform
        cases hform with
        | error cause => rfl
        | ok halike =>
            exact Scope.perform_eq_of_alike hsame halike
              (fun part hpart _ hsame' inner => ih place _ part hleft hpart hsame' inner) place
      · rfl

/-! ### Definitions -/

/-- **Definitions that differ in annotations only stand for one another.** -/
theorem SameSchema.interchangeable {dialect : Dialect} {left right : Members}
    (h : SameSchema dialect left right) : Interchangeable dialect left right where
  isAlias := h.isAlias_eq
  whole := by
    rintro scope rfl place
    exact resolveField_eq_of_unannotated scope (h.erase _).unannotated_eq place
  tree := by
    rintro scope rfl name directives
    have hobject (additional : Members) (place : Pointer) :
        scope.objectFields left additional place = scope.objectFields right additional place := by
      refine (h.matched_objectBody place).bind_eq fun body body' hbody => ?_
      have hproperties := resolveProperties_eq_of_sameSchemas hbody.properties
        fun _ _ _ hproperty inner => resolveField_eq_of_unannotated scope hproperty inner
      rw [← hbody.required, hproperties]
    have hwhole (place : Pointer) :
        scope.wholeField name left place = scope.wholeField name right place := by
      rw [Scope.wholeField, Scope.wholeField, h.required_read_eq,
        resolveField_eq_of_unannotated scope (h.erase scope.dialect.directiveKey).unannotated_eq]
    rw [Scope.tree, Scope.tree, h.describesObject_eq, hobject, hwhole]

/-- **Overlays keep schemas the same but for annotations**: a path leads through both of them or
through neither, and what is merged at its end is the same. -/
theorem Overlay.respects_sameSchema (dialect : Dialect) :
    Respects dialect.directiveKey (SameSchema dialect) := by
  intro directive fields left right h
  induction fields generalizing left right with
  | nil =>
      refine .some ?_
      rw [mergeBlock, mergeBlock, h.get?_directiveKey_eq]
      exact h.insert rfl
  | cons field rest ih =>
      rw [updateProperty, updateProperty]
      rcases h.properties_cases with ⟨hleft, hright⟩ | ⟨value, value', hleft, hright, hsame⟩
      · rw [hleft, hright]
        exact .none
      · rw [hleft, hright]
        rcases unannotatedProperties_eq_cases hsame with
          ⟨listed, listed', rfl, rfl, hlisted⟩ | ⟨rfl, hother⟩
        · dsimp only
          rcases hlisted.get? field with
            ⟨hleft, hright⟩ | ⟨property, property', hleft, hright, hproperty⟩
          · rw [hleft, hright]
            exact .none
          · rw [hleft, hright]
            rcases unannotated_eq_cases hproperty with ⟨_, _, rfl, rfl, hfield⟩ | ⟨rfl, hother⟩
            · refine rel_map (ih _ _ hfield) fun changed changed' hchanged => h.insert ?_
              have hlisted' : SameSchemas dialect (Entries.insert listed field (.obj changed))
                  (Entries.insert listed' field (.obj changed')) :=
                hlisted.insert_of_related hchanged.unannotated_eq
              exact congrArg Json.obj (unannotatedListed_eq_iff.2 hlisted')
            · cases property with
              | obj members => cases hother
              | _ => exact .none
        · cases value with
          | obj members => cases hother
          | _ => exact .none

/-! ### Documents -/

/-- A document whose definitions are without annotations. -/
def withoutAnnotations (document : Members) : Members :=
  match Entries.get? document "definitions" with
  | some listed =>
      Entries.insert document "definitions" (unannotatedProperties (Dialect.detect document) listed)
  | none => document

section Documents

variable {document left right : Members}

/-- Nothing but the definitions of a document changes. -/
theorem get?_withoutAnnotations {key : String} (hkey : key ≠ "definitions") :
    Entries.get? (withoutAnnotations document) key = Entries.get? document key := by
  rw [withoutAnnotations]
  split
  · rw [Entries.get?_insert, if_neg (Ne.symm hkey)]
  · rfl

theorem get?_definitions_withoutAnnotations :
    Entries.get? (withoutAnnotations document) "definitions" =
      (Entries.get? document "definitions").map
        (unannotatedProperties (Dialect.detect document)) := by
  rw [withoutAnnotations]
  split
  · next listed hlisted => rw [Entries.get?_insert_self, hlisted, Option.map_some]
  · next hlisted => rw [hlisted, Option.map_none]

theorem detect_withoutAnnotations :
    Dialect.detect (withoutAnnotations document) = Dialect.detect document := by
  rw [Dialect.detect, Dialect.detect, Entries.contains, Entries.contains,
    get?_withoutAnnotations (by decide), get?_withoutAnnotations (by decide)]

/-- A definition is matched by a definition that differs in annotations only. -/
theorem matchedDefinition_of_unannotated {dialect : Dialect} {value value' : Json}
    (h : unannotated dialect value = unannotated dialect value') :
    MatchedDefinition dialect (SameSchema dialect) value value' := by
  rcases unannotated_eq_cases h with ⟨_, _, rfl, rfl, hsame⟩ | ⟨rfl, hother⟩
  · refine .definition hsame fun place => ?_
    rw [Registry.typeBlock?, Registry.typeBlock?, hsame.directive?_eq]
  · exact .other _ hother

/-- **Documents that differ in annotations only are matched.** -/
theorem matchedDocuments_of_withoutAnnotations
    (h : withoutAnnotations left = withoutAnnotations right) :
    MatchedDocuments (Dialect.detect left) (SameSchema (Dialect.detect left)) left right := by
  have hdetect : Dialect.detect right = Dialect.detect left := by
    rw [← detect_withoutAnnotations, ← h, detect_withoutAnnotations]
  refine ⟨rfl, hdetect, ?_, ?_⟩
  · have hlisted : (Entries.get? left "definitions").map
        (unannotatedProperties (Dialect.detect left)) =
          (Entries.get? right "definitions").map (unannotatedProperties (Dialect.detect left)) := by
      rw [← get?_definitions_withoutAnnotations, h, get?_definitions_withoutAnnotations, hdetect]
    rw [Registry.definitionList, Registry.definitionList]
    cases hleft : Entries.get? left "definitions" <;>
      cases hright : Entries.get? right "definitions" <;> rw [hleft, hright] at hlisted
    · exact .ok .nil
    · cases hlisted
    · cases hlisted
    · next value value' =>
        rcases unannotatedProperties_eq_cases (Option.some.inj hlisted) with
          ⟨_, _, rfl, rfl, hsame⟩ | ⟨rfl, hother⟩
        · exact .ok (hsame.mono fun _ _ _ => matchedDefinition_of_unannotated)
        · cases value with
          | obj members => cases hother
          | _ => exact .error _
  · have hkey : (Dialect.detect left).directiveKey ≠ "definitions" :=
      ((Dialect.detect left).ne_directiveKey (by decide) (by decide)).symm
    rw [Registry.typeBlock?, Registry.typeBlock?, Dialect.directive?, Dialect.directive?,
      ← get?_withoutAnnotations hkey, h, get?_withoutAnnotations hkey]

/-- **Annotations are inert.**  Documents that differ in annotations only, at any depth of their
definitions, compile alike whatever the overlay and the validators: into the same schemas, with the
same warnings, or with the same cause at the same place. -/
theorem annotations_inert {source source' : Source} (hsource : source.normalize = .ok left)
    (hsource' : source'.normalize = .ok right)
    (h : withoutAnnotations left = withoutAnnotations right) (options : Options) :
    compile source options = compile source' options :=
  (matchedDocuments_of_withoutAnnotations h).compile_eq (fun _ _ hsame => hsame.interchangeable)
    (Overlay.respects_sameSchema _) hsource hsource' options

/-- Pets with annotations: on the definition, on a property, and on items, which also carry the
block of the other dialect. -/
def describedPets : Members :=
  [("openapi", .str "3.0"),
    ("definitions", .obj
      [("Pet", .obj
        [("description", .str "A pet in the store."),
          ("properties", .obj
            [("tags", .obj
              [("title", .str "Tags"), ("type", .str "array"),
                ("items", .obj
                  [("type", .str "string"), ("x-mongoose", .obj [("type", .str "objectId")]),
                    ("maxLength", .num (.integer 8))])])])])])]

/-- The same pets without annotations. -/
def plainPets : Members :=
  [("openapi", .str "3.0"),
    ("definitions", .obj
      [("Pet", .obj
        [("properties", .obj
          [("tags", .obj [("type", .str "array"), ("items", .obj [("type", .str "string")])])])])])]

theorem describedPets_inert :
    withoutAnnotations describedPets = plainPets ∧ withoutAnnotations plainPets = plainPets ∧
      ∀ options, compile (.parsed (.obj describedPets)) options =
        compile (.parsed (.obj plainPets)) options := by
  have hdescribed : (Source.parsed (.obj describedPets)).normalize = .ok describedPets := rfl
  have hplain : (Source.parsed (.obj plainPets)).normalize = .ok plainPets := rfl
  exact ⟨rfl, rfl, annotations_inert hdescribed hplain rfl⟩

end Documents

end StoreSchema
