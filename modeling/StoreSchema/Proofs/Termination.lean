/-
**Compilation comes to an end.**

The routines of compilation call one another without a bound in sight: a reference leads to a
definition of any size, which may lead back, and a block makes a new property before that is
resolved.  What decreases is a pair.  First come the definitions that are not being compiled, of
which a reference takes one; then, while the stack stays as it is, the weight of what a call has to
resolve, a block counting as much as its entries: working it into its property takes the key away
under which it stands.

Main definitions:

* `Catalog.Below` — that a call is nearer to the end than another;
* `Catalog.Sound` — that the definitions being compiled are distinct ones of the catalog.

Main results:

* `Catalog.yields_routine` — **what one routine does**, given that its calls return: it makes calls
  that are nearer to the end, and yields what the function of the same purpose yields;
* `Catalog.compilation_terminates` — **all routines run to their ends**.
-/

import StoreSchema.Proofs.Routine.Texts

set_option relaxedAutoImplicit false
set_option autoImplicit false

namespace StoreSchema

namespace Catalog

open Script

variable (catalog : Catalog)

/-! ### What decreases -/

/-- The number of definitions that a call leaves to those it makes. -/
def left : Call → List String → Nat
  | .definition name _, stack => catalog.remaining (name :: stack)
  | _, stack => catalog.remaining stack

/-- The weight of what a call has to resolve. -/
def size : Call → Nat
  | .definition _ type =>
      1 + Json.weightMembers type.body + Json.weightMembers type.directives.additional
  | .tree _ type =>
      1 + Json.weightMembers type.body + Json.weightMembers type.directives.additional
  | .object members additional _ => Json.weightMembers members + Json.weightMembers additional
  | .property _ _ property _ => property.weight
  | .field property _ => property.weight
  | .reference _ _ _ => 0
  | .typed members _ => 1 + Json.weightMembers members
  | .override block members _ =>
      1 + Json.weightMembers (Entries.erase members catalog.dialect.directiveKey) +
        Json.weightMembers block

/-- The order of calls that resolve the same. -/
def rank : Call → Nat
  | .definition _ _ => 5
  | .tree _ _ => 4
  | .object _ _ _ => 3
  | .property _ _ _ _ => 2
  | .override _ _ _ => 2
  | .field _ _ => 1
  | .typed _ _ => 0
  | .reference _ _ _ => 0

/-- How far a call is from the end. -/
def distance (step : Step) : Nat × Nat :=
  (catalog.left step.1 step.2, 6 * catalog.size step.1 + rank step.1)

/-- **That a call is nearer to the end than another.** -/
def Below : Step → Step → Prop :=
  InvImage (Prod.Lex (· < ·) (· < ·)) catalog.distance

theorem below_wellFounded : WellFounded catalog.Below :=
  InvImage.wf _ (Prod.lex Nat.lt_wfRel Nat.lt_wfRel).wf

/-! ### What stays as it is -/

/-- That a call finds distinct definitions of the catalog being compiled, and compiles another one
if it compiles one. -/
structure Sound (c : Call) (stack : List String) : Prop where
  /-- No definition is compiled while it is being compiled. -/
  nodup : stack.Nodup
  /-- What is being compiled are definitions. -/
  known : ∀ name ∈ stack, name ∈ Entries.keys catalog.types
  /-- The definition that is to be compiled is another one. -/
  another : ∀ name type, c = .definition name type →
    name ∈ Entries.keys catalog.types ∧ name ∉ stack

/-- That a call may be made by another: it is nearer to the end, and sound if the other is. -/
def Admits (c : Call) (stack : List String) (inner : Call) (stack' : List String) : Prop :=
  (catalog.Sound c stack → catalog.Sound inner stack') ∧ catalog.Below (inner, stack') (c, stack)

variable {catalog}

/-- Among calls with the same stack that compile no definition, what resolves less may be called. -/
theorem admits_of_lt {c inner : Call} {stack : List String}
    (hleft : catalog.left inner stack = catalog.left c stack)
    (hinner : inner.isDefinition = false)
    (hlt : 6 * catalog.size inner + rank inner < 6 * catalog.size c + rank c) :
    catalog.Admits c stack inner stack := by
  refine ⟨fun hsound => ⟨hsound.nodup, hsound.known, ?_⟩, Prod.lex_def.2 (.inr ⟨hleft, hlt⟩)⟩
  rintro name type rfl
  cases hinner

/-- Under one more definition everything that compiles no definition may be called. -/
theorem Sound.under {c inner : Call} {stack : List String} {name : String}
    (hsound : catalog.Sound c stack) (hname : name ∈ Entries.keys catalog.types)
    (hstack : name ∉ stack) (hinner : inner.isDefinition = false) :
    catalog.Sound inner (name :: stack) where
  nodup := List.nodup_cons.2 ⟨hstack, hsound.nodup⟩
  known := List.forall_mem_cons.2 ⟨hname, hsound.known⟩
  another other type h := by
    subst h
    cases hinner

/-! ### The routines one by one -/

section Routines

variable (stack : List String)

theorem yields_definition (name : String) (type : TypeDefinition) :
    (catalog.routine (.definition name type)).Yields catalog.answer
      (catalog.Admits (.definition name type) stack) stack
      (catalog.answer (.definition name type) stack) stack := by
  have hadmits :
      catalog.Admits (.definition name type) stack (.tree name type) (name :: stack) := by
    -- the definition counts as one that is being compiled already when it is called
    refine ⟨?_, Prod.lex_def.2 (.inr ⟨rfl, ?_⟩)⟩
    · intro hsound
      obtain ⟨hname, hstack⟩ := hsound.another name type rfl
      exact hsound.under hname hstack rfl
    · simp only [distance, size, rank]
      omega
  exact yields_under hadmits

theorem yields_tree (name : String) (type : TypeDefinition) :
    (catalog.treeText name type).Yields catalog.answer
      (catalog.Admits (.tree name type) stack) stack
      ((catalog.scope stack).tree name type) stack := by
  rw [treeText, Scope.tree]
  split
  · have hadmits : catalog.Admits (.tree name type) stack
        (.object type.body type.directives.additional (Pointer.definition name)) stack :=
      admits_of_lt rfl rfl (by simp only [size, rank]; omega)
    exact (yields_perform hadmits).map SchemaTree.fields
  · have hadmits : catalog.Admits (.tree name type) stack
        (.field (.obj (Entries.erase type.body catalog.dialect.directiveKey))
          (Pointer.definition name)) stack := by
      have herase := Json.weightMembers_filter_le
        (fun entry => entry.1 != catalog.dialect.directiveKey) type.body
      refine admits_of_lt rfl rfl ?_
      simp only [size, rank, Json.weight, Entries.erase]
      omega
    rw [Scope.wholeField, Outcome.map_bind]
    refine (yields_perform hadmits).bind fun field _ => ?_
    rw [Outcome.map_bind]
    exact (yields_lift _ stack).bind fun rule _ => ⟨rfl, rfl⟩

/-- Listed properties are resolved one after another, when each of them may be. -/
theorem yields_fields {c : Call} {rule : Required} {place : Pointer} {properties : Members}
    (hadmits : ∀ entry ∈ properties, ∀ place,
      catalog.Admits c stack (.property rule entry.1 entry.2 place) stack) :
    (Script.fields rule place properties).Yields catalog.answer (catalog.Admits c stack) stack
      (resolveProperties (catalog.scope stack) rule place properties) stack := by
  induction properties with
  | nil =>
      rw [resolveProperties_nil]
      exact ⟨rfl, rfl⟩
  | cons first rest ih =>
      obtain ⟨name, property⟩ := first
      have hfirst := hadmits (name, property) (List.mem_cons_self ..) (place.child name)
      have hrest := ih fun entry hentry => hadmits entry (List.mem_cons_of_mem _ hentry)
      rw [resolveProperties_cons]
      refine (yields_perform hfirst).bind fun found _ => ?_
      exact hrest.bind fun others _ => ⟨rfl, rfl⟩

theorem yields_object (members additional : Members) (place : Pointer) :
    (objectText members additional place).Yields catalog.answer
      (catalog.Admits (.object members additional place) stack) stack
      ((catalog.scope stack).objectFields members additional place) stack := by
  refine (yields_lift _ stack).bind fun body hbody => ?_
  have hdeclared : ∀ entry ∈ body.properties, ∀ place',
      catalog.Admits (.object members additional place) stack
        (.property body.required entry.1 entry.2 place') stack := by
    intro entry hentry place'
    have hentry := Json.weight_of_mem hentry
    have hbody := ObjectBody.weight_of_read hbody
    refine admits_of_lt rfl rfl ?_
    simp only [size, rank, Json.weight] at hbody ⊢
    omega
  have hadded : ∀ entry ∈ additional, ∀ place',
      catalog.Admits (.object members additional place) stack
        (.property body.required entry.1 entry.2 place') stack := by
    intro entry hentry place'
    have hentry := Json.weight_of_mem hentry
    refine admits_of_lt rfl rfl ?_
    simp only [size, rank]
    omega
  refine (yields_fields stack hdeclared).bind fun declared _ => ?_
  exact (yields_fields stack hadded).bind fun added _ => ⟨rfl, rfl⟩

theorem yields_property (rule : Required) (name : String) (property : Json) (place : Pointer) :
    (catalog.propertyText rule name property place).Yields catalog.answer
      (catalog.Admits (.property rule name property place) stack) stack
      ((catalog.scope stack).entry rule name property place) stack := by
  rw [propertyText, Scope.entry]
  split
  · exact ⟨rfl, rfl⟩
  · have hadmits : catalog.Admits (.property rule name property place) stack
        (.field property place) stack :=
      admits_of_lt rfl rfl (by simp only [size, rank]; omega)
    refine (yields_perform hadmits).bind fun field _ => ?_
    exact (yields_lift _ stack).bind fun required _ => ⟨rfl, rfl⟩

theorem yields_field (property : Json) (place : Pointer) :
    (catalog.fieldText property place).Yields catalog.answer
      (catalog.Admits (.field property place) stack) stack
      (resolveField (catalog.scope stack) property place) stack := by
  cases property with
  | obj members =>
      have hoverride {block inner : Members} (place' : Pointer)
          (hblock : Entries.get? inner catalog.dialect.directiveKey = some (.obj block))
          (hinner : Json.weightMembers inner ≤ Json.weightMembers members) :
          catalog.Admits (.field (.obj members) place) stack
            (.override block inner place') stack := by
        -- property and block weigh less apart, as the key of the block is gone
        have herase := Json.weightMembers_erase hblock
        refine admits_of_lt rfl rfl ?_
        simp only [size, rank, Json.weight] at herase ⊢
        omega
      rw [fieldText, resolveField_obj, Form.read, bind_assoc]
      refine (yields_lift _ stack).bind fun found hfound => ?_
      rcases found with _ | block | ⟨items, block⟩
      · rw [Form.readDeclared, bind_assoc]
        refine (yields_lift _ stack).bind fun reference hreference => ?_
        cases reference with
        | some reference =>
            have hadmits : catalog.Admits (.field (.obj members) place) stack
                (.reference members reference place) stack :=
              admits_of_lt rfl rfl (by simp only [size, rank, Json.weight]; omega)
            exact yields_perform hadmits
        | none =>
            have hadmits : catalog.Admits (.field (.obj members) place) stack
                (.typed members place) stack :=
              admits_of_lt rfl rfl (by simp only [size, rank, Json.weight]; omega)
            exact yields_perform hadmits
      · exact yields_perform (hoverride place (override?_own hfound) (Nat.le_refl _))
      · change override? (catalog.scope stack).dialect members place = _ at hfound
        obtain ⟨hblock, hitems⟩ := resolveField_of_ofItems hfound
        have hlt := Json.weight_of_get? (override?_ofItems hfound)
        have hle : Json.weightMembers items ≤ Json.weightMembers members := by
          simp only [Json.weight] at hlt
          omega
        change Yields _ _ _ _ ((resolveField _ (.obj items) _).map _) _
        rw [hitems]
        exact (yields_perform (hoverride _ hblock hle)).map (Descriptor.array {})
  | _ =>
      rw [resolveField_of_not_isObject rfl]
      exact ⟨rfl, rfl⟩

theorem yields_reference (members : Members) (reference : String) (place : Pointer) :
    (catalog.referenceText members reference place).Yields catalog.answer
      (catalog.Admits (.reference members reference place) stack) stack
      ((catalog.follow stack reference place).map (Linked.descriptor (isArrayProperty members)))
      stack := by
  rw [referenceText]
  split
  · next hfind =>
      rw [follow_of_find?_eq_none hfind]
      exact ⟨rfl, rfl⟩
  · next name type hfind =>
      have hname := find?_mem_keys hfind
      by_cases hstack : name ∈ stack
      · rw [follow_of_mem hfind hstack, Yields, if_pos hstack]
        exact ⟨rfl, rfl⟩
      · -- what is entered has one definition less to compile
        have hleft := remaining_cons_lt hname hstack
        rw [follow_of_not_mem hfind hstack, enter, Yields, if_neg hstack]
        split
        · have hadmits : catalog.Admits (.reference members reference place) stack
              (.field (.obj (Entries.erase type.body catalog.dialect.directiveKey))
                (Pointer.definition name)) (name :: stack) :=
            ⟨fun hsound => hsound.under hname hstack rfl, Prod.lex_def.2 (.inl hleft)⟩
          rw [Outcome.map_map]
          exact (yields_under hadmits).map _
        · have hadmits : catalog.Admits (.reference members reference place) stack
              (.definition name type) stack := by
            refine ⟨fun hsound => ⟨hsound.nodup, hsound.known, ?_⟩, Prod.lex_def.2 (.inl hleft)⟩
            intro other type' h
            cases h
            exact ⟨hname, hstack⟩
          rw [Outcome.map_map]
          exact (yields_perform hadmits).map _

theorem yields_scalar {c : Call} (members : Members) (place : Pointer) (type : Primitive) :
    (scalarText members place type).Yields catalog.answer (catalog.Admits c stack) stack
      (Form.readScalar members place type >>= (catalog.scope stack).perform members place)
      stack := by
  rw [scalarText, Form.readScalar, Outcome.bind_map]
  exact (yields_lift _ stack).bind fun values _ => ⟨rfl, rfl⟩

theorem yields_typed (members : Members) (place : Pointer) :
    (typedText members place).Yields catalog.answer (catalog.Admits (.typed members place) stack)
      stack (Form.readTyped members place >>= (catalog.scope stack).perform members place)
      stack := by
  rw [typedText, Form.readTyped, bind_assoc]
  refine (yields_lift _ stack).bind fun type htype => ?_
  cases type with
  | number =>
      rw [bind_assoc]
      exact (yields_lift _ stack).bind fun _ _ => yields_scalar stack members place .number
  | array =>
      rw [Outcome.bind_map]
      refine (yields_lift _ stack).bind fun items hitems => ?_
      have hadmits : catalog.Admits (.typed members place) stack
          (.field items (place.child "items")) stack := by
        have hlt := Json.weight_of_get? (get?_of_readItems hitems)
        refine admits_of_lt rfl rfl ?_
        simp only [size, rank]
        omega
      exact (yields_perform hadmits).map (Descriptor.array {})
  | object =>
      have hadmits : catalog.Admits (.typed members place) stack (.object members [] place) stack :=
        admits_of_lt rfl rfl (by simp only [size, rank, Json.weightMembers]; omega)
      rw [Scope.perform_object]
      exact (yields_perform hadmits).map (Descriptor.embedded {})
  | _ => exact yields_scalar stack members place _

theorem yields_override (block members : Members) (place : Pointer) :
    (catalog.overrideText block members place).Yields catalog.answer
      (catalog.Admits (.override block members place) stack) stack
      ((catalog.scope stack).overrideField block members place) stack := by
  refine (yields_lift _ stack).bind fun validator _ => ?_
  refine Yields.map ?_ (decorate validator block)
  rw [baseText, Scope.baseField]
  split
  · exact yields_lift _ stack
  · have hadmits : catalog.Admits (.override block members place) stack
        (.field (.obj (retyped catalog.dialect.directiveKey validator block members)) place)
        stack := by
      -- what the block brings in, be it a further block, weighs no more than the block
      have hle := weightMembers_retyped_le catalog.dialect.directiveKey validator block members
      refine admits_of_lt rfl rfl ?_
      simp only [size, rank, Json.weight]
      omega
    exact yields_perform hadmits

/-- **What one routine does**, given that its calls return. -/
theorem yields_routine (c : Call) :
    (catalog.routine c).Yields catalog.answer (catalog.Admits c stack) stack
      (catalog.answer c stack) stack := by
  cases c with
  | definition name type => exact yields_definition stack name type
  | tree name type => exact yields_tree stack name type
  | object members additional place => exact yields_object stack members additional place
  | property rule name property place => exact yields_property stack rule name property place
  | field property place => exact yields_field stack property place
  | reference members reference place => exact yields_reference stack members reference place
  | typed members place => exact yields_typed stack members place
  | override block members place => exact yields_override stack block members place

end Routines

/-- With no definition being compiled, each definition of the catalog may be. -/
theorem sound_definition {name : String} {type : TypeDefinition}
    (h : (name, type) ∈ catalog.types) : catalog.Sound (.definition name type) [] where
  nodup := List.nodup_nil
  known := by simp
  another other type' h' := by
    cases h'
    exact ⟨List.mem_map_of_mem h, List.not_mem_nil⟩

theorem yields_typesText (validators : Validators) {types : Entries TypeDefinition}
    (htypes : ∀ entry ∈ types, entry ∈ catalog.types) :
    (typesText validators types).Yields catalog.answer catalog.Sound []
      (catalog.compileTypes validators types) [] := by
  induction types with
  | nil => exact ⟨rfl, rfl⟩
  | cons first rest ih =>
      obtain ⟨name, type⟩ := first
      have hrest := ih fun entry hentry => htypes entry (List.mem_cons_of_mem _ hentry)
      rw [typesText, compileTypes]
      split
      · exact hrest
      · refine (yields_perform (sound_definition (htypes _ (List.mem_cons_self ..)))).bind ?_
        intro tree _
        refine (yields_lift _ []).bind fun bound _ => ?_
        exact hrest.bind fun others _ => ⟨rfl, rfl⟩

/-! ### All routines together -/

/-- Every call runs to its answer and leaves the stack as it was; when it is sound, so are the calls
on the way. -/
theorem runs_routine {sound : Call → List String → Prop}
    (hsound : ∀ c stack inner stack', catalog.Admits c stack inner stack' → sound c stack →
      sound inner stack') {c : Call} {stack : List String} (h : sound c stack) :
    ∃ steps, Runs catalog.routine (catalog.routine c) stack steps (catalog.answer c stack) stack ∧
      ∀ step ∈ steps, sound step.1 step.2 := by
  refine runs_of_yields catalog.below_wellFounded (fun c stack h => ?_) h
  refine (yields_routine stack c).mono fun inner stack' hadmits => ?_
  exact ⟨hsound c stack inner stack' hadmits h, hadmits.2⟩

theorem exists_runs (c : Call) (stack : List String) :
    ∃ steps, Runs catalog.routine (catalog.routine c) stack steps (catalog.answer c stack)
      stack := by
  have hrun : ∃ steps,
      Runs catalog.routine (catalog.routine c) stack steps (catalog.answer c stack) stack ∧
        ∀ step ∈ steps, True := runs_routine (fun _ _ _ _ _ _ => trivial) trivial
  obtain ⟨steps, hrun, _⟩ := hrun
  exact ⟨steps, hrun⟩

/-- A call has no run but that to its answer. -/
theorem answer_of_runs {c : Call} {stack final : List String} {steps : List Step}
    {outcome : Outcome c.Result}
    (h : Runs catalog.routine (catalog.routine c) stack steps outcome final) :
    outcome = catalog.answer c stack ∧ final = stack := by
  obtain ⟨_, hrun⟩ := exists_runs c stack
  exact (h.unique hrun).2

/-- **Compilation comes to an end**, whatever the definitions and their directives are.  No routine
calls itself without end; every call, failing or not, leaves the stack as it was, and returns what
the function of the same purpose yields; and compiling all types runs to its end, where every call
on the way finds distinct definitions on the stack, so at most as many as there are. -/
theorem compilation_terminates (catalog : Catalog) :
    (WellFounded fun inner outer : Step =>
        Issues catalog.routine (catalog.routine outer.1) outer.2 inner) ∧
      (∀ c stack, ∃ steps,
        Runs catalog.routine (catalog.routine c) stack steps (catalog.answer c stack) stack) ∧
      (∀ c stack steps outcome final,
        Runs catalog.routine (catalog.routine c) stack steps outcome final →
          outcome = catalog.answer c stack ∧ final = stack) ∧
      ∀ validators, ∃ steps,
        Runs catalog.routine (typesText validators catalog.types) [] steps
          (catalog.compile validators) [] ∧
          ∀ step ∈ steps, step.2.Nodup ∧ (∀ name ∈ step.2, name ∈ Entries.keys catalog.types) ∧
            step.2.length ≤ catalog.types.length := by
  refine ⟨?_, exists_runs, fun _ _ _ _ _ => answer_of_runs, ?_⟩
  · -- what a routine calls is below it, for calls return their answers
    refine Subrelation.wf (fun hissues => ?_) catalog.below_wellFounded
    exact (issued_of_issues (fun _ _ _ _ _ => answer_of_runs) hissues (yields_routine _ _)).2
  · intro validators
    have hyields := yields_typesText validators fun entry (h : entry ∈ catalog.types) => h
    obtain ⟨steps, hrun, hsteps⟩ := (hyields.mono fun c stack hsound =>
      ⟨hsound, runs_routine (fun _ _ _ _ hadmits => hadmits.1) hsound⟩).runs
    refine ⟨steps, hrun, fun step hstep => ?_⟩
    have hsound := hsteps step hstep
    have hlength := hsound.nodup.length_le_of_subset fun name => hsound.known name
    rw [Entries.keys, List.length_map] at hlength
    exact ⟨hsound.nodup, hsound.known, hlength⟩

end Catalog

end StoreSchema
