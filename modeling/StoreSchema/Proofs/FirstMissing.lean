/-
**The first validator that is missing.**

A body is searched for validators that are not registered from the root down: a descriptor comes
before those in it, and of two fields the one that stands first comes first, with all that is in
it.  The search ends with the first validator that is missing, and the cause says where that is: the
place of the body, and below it one step for every field and every array on the way down.

The way down to a descriptor is written here as the steps that are taken, each with its place among
the steps that could be taken; which of two ways comes first can be read off these places.

Main definitions:

* `Descent`, `Descriptor.LeadsTo` — a step down, and what steps lead to;
* `Descent.Before` — **that one way down comes before another**;
* `Descriptor.Guards`, `Descriptor.guards` — that steps lead to a field with a validator, and all
  validators in order, with the steps to them.

Main results:

* `Descriptor.bindings_eq_map_guards` — what is searched, place by place;
* `Descriptor.mem_guards_iff`, `Descriptor.pairwise_guards` — **all guarded fields are met, in
  order**;
* `bindValidators_eq` — the search ends with the first that is missing;
* `first_missing_reported` — **which validators are missing, and which one is reported where**.
-/

import StoreSchema.Proofs.Registered

set_option relaxedAutoImplicit false
set_option autoImplicit false

namespace StoreSchema

/-! ### Ways down -/

/-- A step down from a descriptor: to one of its fields, which has a place among them and a name, or
to the elements of an array. -/
inductive Descent where
  | field (index : Nat) (name : String)
  | items

namespace Descent

/-- The place of the step among those that could be taken. -/
def index : Descent → Nat
  | field index _ => index
  | items => 0

/-- The place that the step leads to. -/
def below (place : Pointer) : Descent → Pointer
  | field _ name => (place.child "properties").child name
  | items => place.child "items"

/-- **That one way down comes before another**: it ends above it, or it takes an earlier step where
they part. -/
def Before : List Descent → List Descent → Prop
  | _, [] => False
  | [], _ :: _ => True
  | step :: steps, other :: others =>
      step.index < other.index ∨ step.index = other.index ∧ Before steps others

theorem Before.asymm {steps others : List Descent} (h : Before steps others) :
    ¬Before others steps := by
  induction steps generalizing others with
  | nil => simp [Before]
  | cons step steps ih =>
      cases others with
      | nil => simp [Before] at h
      | cons other others =>
          rintro (hless | ⟨heq, hothers⟩)
          · rcases h with h | ⟨h, _⟩ <;> omega
          · rcases h with h | ⟨_, h⟩
            · omega
            · exact ih h hothers

end Descent

namespace Descriptor

/-- **What steps lead to** from a descriptor. -/
inductive LeadsTo : Descriptor → List Descent → Descriptor → Prop where
  | here (descriptor : Descriptor) : LeadsTo descriptor [] descriptor
  | field {modifiers : Modifiers} {fields : FieldMap} {index : Nat} {name : String}
      {field inner : Descriptor} {steps : List Descent} (hfield : fields[index]? = some (name, field))
      (hrest : LeadsTo field steps inner) :
      LeadsTo (.embedded modifiers fields) (.field index name :: steps) inner
  | items {modifiers : Modifiers} {item inner : Descriptor} {steps : List Descent}
      (hrest : LeadsTo item steps inner) : LeadsTo (.array modifiers item) (.items :: steps) inner

/-- That steps lead to a field that the validator called `name` guards. -/
def Guards (descriptor : Descriptor) (steps : List Descent) (name : String) : Prop :=
  ∃ field, descriptor.LeadsTo steps field ∧ field.modifiers.validator = some name

/-- Everything that stands in a descriptor is led to, and nothing else. -/
theorem contains_iff {descriptor inner : Descriptor} :
    descriptor.Contains inner ↔ ∃ steps, descriptor.LeadsTo steps inner := by
  constructor
  · intro h
    induction h with
    | self descriptor => exact ⟨[], .here descriptor⟩
    | item _ ih =>
        obtain ⟨steps, hsteps⟩ := ih
        exact ⟨_, .items hsteps⟩
    | field hentry _ ih =>
        obtain ⟨steps, hsteps⟩ := ih
        obtain ⟨index, hindex⟩ := List.getElem?_of_mem hentry
        exact ⟨_, .field hindex hsteps⟩
  · rintro ⟨steps, h⟩
    induction h with
    | here descriptor => exact .self descriptor
    | field hfield _ ih => exact .field (List.mem_of_getElem? hfield) ih
    | items _ ih => exact .item ih

theorem binds_iff_guards {descriptor : Descriptor} {name : String} :
    descriptor.Binds name ↔ ∃ steps, descriptor.Guards steps name := by
  constructor
  · rintro ⟨field, hfield, hname⟩
    obtain ⟨steps, hsteps⟩ := contains_iff.1 hfield
    exact ⟨steps, field, hsteps, hname⟩
  · rintro ⟨steps, field, hsteps, hname⟩
    exact ⟨field, contains_iff.2 ⟨steps, hsteps⟩, hname⟩

/-! ### All of them, in order -/

/-- The validator of the descriptor itself, to which no steps lead. -/
def ownGuard (modifiers : Modifiers) : List (List Descent × String) :=
  modifiers.validator.toList.map fun name => ([], name)

/-- The steps to a validator, after one more. -/
def stepTo (step : Descent) (guard : List Descent × String) : List Descent × String :=
  (step :: guard.1, guard.2)

mutual

/-- **All validators in a descriptor**, with the steps to them, each before those below it. -/
def guards : Descriptor → List (List Descent × String)
  | .scalar modifiers _ _ => ownGuard modifiers
  | .reference modifiers _ => ownGuard modifiers
  | .embedded modifiers fields => ownGuard modifiers ++ fieldGuards 0 fields
  | .array modifiers item => ownGuard modifiers ++ (guards item).map (stepTo .items)

/-- The validators in fields, the first of which stands at `index`. -/
def fieldGuards (index : Nat) : List (String × Descriptor) → List (List Descent × String)
  | [] => []
  | (name, field) :: rest =>
      (guards field).map (stepTo (.field index name)) ++ fieldGuards (index + 1) rest

end

/-- The validator that steps lead to, at its place below another one. -/
def bindingAt (place : Pointer) (guard : List Descent × String) : Binding :=
  ⟨guard.1.foldl Descent.below place, guard.2⟩

theorem ownBinding_eq (place : Pointer) (descriptor : Descriptor) :
    descriptor.ownBinding place = (ownGuard descriptor.modifiers).map (bindingAt place) := by
  rw [ownBinding, ownGuard, List.map_map]
  rfl

theorem map_bindingAt_stepTo (place : Pointer) (step : Descent)
    (found : List (List Descent × String)) :
    (found.map (stepTo step)).map (bindingAt place) = found.map (bindingAt (step.below place)) := by
  rw [List.map_map]
  rfl

mutual

/-- **What is searched** are all validators, at the places that the steps to them lead to. -/
theorem bindings_eq_map_guards : ∀ (descriptor : Descriptor) (place : Pointer),
    descriptor.bindings place = descriptor.guards.map (bindingAt place)
  | .scalar .., place => by
      rw [bindings, guards, ownBinding_eq]
      rfl
  | .reference .., place => by
      rw [bindings, guards, ownBinding_eq]
      rfl
  | .embedded modifiers fields, place => by
      rw [bindings, guards, ownBinding_eq, fieldBindings_eq_map_guards fields 0 place,
        List.map_append]
      rfl
  | .array modifiers item, place => by
      rw [bindings, guards, ownBinding_eq, bindings_eq_map_guards item, List.map_append,
        map_bindingAt_stepTo]
      rfl

theorem fieldBindings_eq_map_guards : ∀ (fields : List (String × Descriptor)) (index : Nat)
    (place : Pointer), fieldBindings (place.child "properties") fields =
      (fieldGuards index fields).map (bindingAt place)
  | [], _, _ => by
      rw [fieldBindings, fieldGuards]
      rfl
  | (name, field) :: rest, index, place => by
      rw [fieldBindings, fieldGuards, bindings_eq_map_guards field,
        fieldBindings_eq_map_guards rest (index + 1) place, List.map_append, map_bindingAt_stepTo]
      rfl

end

theorem mem_ownGuard_iff {modifiers : Modifiers} {steps : List Descent} {name : String} :
    (steps, name) ∈ ownGuard modifiers ↔ steps = [] ∧ modifiers.validator = some name := by
  rw [ownGuard, List.mem_map]
  constructor
  · rintro ⟨found, hfound, heq⟩
    cases heq
    exact ⟨rfl, Option.mem_toList.1 hfound⟩
  · rintro ⟨rfl, hname⟩
    exact ⟨name, Option.mem_toList.2 hname, rfl⟩

theorem mem_map_stepTo_iff {found : List (List Descent × String)} {step : Descent}
    {steps : List Descent} {name : String} :
    (steps, name) ∈ found.map (stepTo step) ↔
      ∃ rest, steps = step :: rest ∧ (rest, name) ∈ found := by
  rw [List.mem_map]
  constructor
  · rintro ⟨⟨rest, found⟩, hfound, heq⟩
    cases heq
    exact ⟨rest, rfl, hfound⟩
  · rintro ⟨rest, rfl, hrest⟩
    exact ⟨(rest, name), hrest, rfl⟩

mutual

/-- **All guarded fields are met**, and no others. -/
theorem mem_guards_iff : ∀ {descriptor : Descriptor} {steps : List Descent} {name : String},
    (steps, name) ∈ descriptor.guards ↔ descriptor.Guards steps name
  | .scalar modifiers type values, steps, name => by
      rw [guards, mem_ownGuard_iff]
      constructor
      · rintro ⟨rfl, hname⟩
        exact ⟨_, .here _, hname⟩
      · rintro ⟨field, ⟨⟩, hname⟩
        exact ⟨rfl, hname⟩
  | .reference modifiers target, steps, name => by
      rw [guards, mem_ownGuard_iff]
      constructor
      · rintro ⟨rfl, hname⟩
        exact ⟨_, .here _, hname⟩
      · rintro ⟨field, ⟨⟩, hname⟩
        exact ⟨rfl, hname⟩
  | .embedded modifiers fields, steps, name => by
      rw [guards, List.mem_append, mem_ownGuard_iff, mem_fieldGuards_iff]
      constructor
      · rintro (⟨rfl, hname⟩ | ⟨index, label, field, rest, hfield, rfl, inner, hinner, hname⟩)
        · exact ⟨_, .here _, hname⟩
        · rw [Nat.zero_add]
          exact ⟨inner, .field hfield hinner, hname⟩
      · rintro ⟨inner, hinner, hname⟩
        cases hinner with
        | here => exact .inl ⟨rfl, hname⟩
        | @field _ _ index label field _ rest hfield hrest =>
            exact .inr ⟨index, label, field, rest, hfield, by rw [Nat.zero_add], inner, hrest, hname⟩
  | .array modifiers item, steps, name => by
      rw [guards, List.mem_append, mem_ownGuard_iff, mem_map_stepTo_iff]
      constructor
      · rintro (⟨rfl, hname⟩ | ⟨rest, rfl, hrest⟩)
        · exact ⟨_, .here _, hname⟩
        · obtain ⟨inner, hinner, hname⟩ := mem_guards_iff.1 hrest
          exact ⟨inner, .items hinner, hname⟩
      · rintro ⟨inner, hinner, hname⟩
        cases hinner with
        | here => exact .inl ⟨rfl, hname⟩
        | @items _ _ _ rest hrest => exact .inr ⟨rest, rfl, mem_guards_iff.2 ⟨inner, hrest, hname⟩⟩

theorem mem_fieldGuards_iff : ∀ {fields : List (String × Descriptor)} {start : Nat}
    {steps : List Descent} {name : String}, (steps, name) ∈ fieldGuards start fields ↔
      ∃ index label field rest, fields[index]? = some (label, field) ∧
        steps = .field (start + index) label :: rest ∧ field.Guards rest name
  | [], _, _, _ => by simp [fieldGuards]
  | (label, field) :: others, start, steps, name => by
      rw [fieldGuards, List.mem_append, mem_map_stepTo_iff, mem_fieldGuards_iff]
      constructor
      · rintro (⟨rest, rfl, hrest⟩ | ⟨index, label', field', rest, hfield, rfl, hguards⟩)
        · exact ⟨0, label, field, rest, rfl, rfl, mem_guards_iff.1 hrest⟩
        · refine ⟨index + 1, label', field', rest, hfield, ?_, hguards⟩
          rw [Nat.add_assoc, Nat.add_comm 1]
      · rintro ⟨index, label', field', rest, hfield, rfl, hguards⟩
        cases index with
        | zero =>
            cases hfield
            exact .inl ⟨rest, rfl, mem_guards_iff.2 hguards⟩
        | succ index =>
            refine .inr ⟨index, label', field', rest, hfield, ?_, hguards⟩
            rw [Nat.add_assoc, Nat.add_comm 1]

end

/-- What is met one step down is met in the same order as without the step. -/
theorem pairwise_map_stepTo {found : List (List Descent × String)}
    (h : found.Pairwise fun first second => Descent.Before first.1 second.1) (step : Descent) :
    (found.map (stepTo step)).Pairwise fun first second => Descent.Before first.1 second.1 := by
  rw [List.pairwise_map]
  exact h.imp fun hbefore => .inr ⟨rfl, hbefore⟩

/-- A descriptor is met before what stands below it. -/
theorem pairwise_ownGuard_append {modifiers : Modifiers} {found : List (List Descent × String)}
    (h : found.Pairwise fun first second => Descent.Before first.1 second.1)
    (hbelow : ∀ guard ∈ found, ∃ step steps, guard.1 = step :: steps) :
    (ownGuard modifiers ++ found).Pairwise fun first second =>
      Descent.Before first.1 second.1 := by
  rw [List.pairwise_append]
  refine ⟨?_, h, ?_⟩
  · cases hvalidator : modifiers.validator <;> simp [ownGuard, hvalidator]
  · rintro ⟨steps, name⟩ hown guard hguard
    obtain ⟨rfl, _⟩ := mem_ownGuard_iff.1 hown
    obtain ⟨step, rest, heq⟩ := hbelow guard hguard
    rw [heq]
    trivial

mutual

/-- **They are met in order.** -/
theorem pairwise_guards : ∀ descriptor : Descriptor,
    descriptor.guards.Pairwise fun first second => Descent.Before first.1 second.1
  | .scalar modifiers type values => by
      rw [guards, ← List.append_nil (ownGuard modifiers)]
      exact pairwise_ownGuard_append .nil nofun
  | .reference modifiers target => by
      rw [guards, ← List.append_nil (ownGuard modifiers)]
      exact pairwise_ownGuard_append .nil nofun
  | .embedded modifiers fields => by
      rw [guards]
      refine pairwise_ownGuard_append (pairwise_fieldGuards fields 0) ?_
      rintro ⟨steps, name⟩ hguard
      obtain ⟨index, label, field, rest, _, rfl, _⟩ := mem_fieldGuards_iff.1 hguard
      exact ⟨_, rest, rfl⟩
  | .array modifiers item => by
      rw [guards]
      refine pairwise_ownGuard_append (pairwise_map_stepTo (pairwise_guards item) _) ?_
      rintro ⟨steps, name⟩ hguard
      obtain ⟨rest, rfl, _⟩ := mem_map_stepTo_iff.1 hguard
      exact ⟨_, rest, rfl⟩

theorem pairwise_fieldGuards : ∀ (fields : List (String × Descriptor)) (start : Nat),
    (fieldGuards start fields).Pairwise fun first second => Descent.Before first.1 second.1
  | [], _ => by
      rw [fieldGuards]
      exact .nil
  | (label, field) :: others, start => by
      rw [fieldGuards, List.pairwise_append]
      refine ⟨pairwise_map_stepTo (pairwise_guards field) _,
        pairwise_fieldGuards others (start + 1), ?_⟩
      rintro ⟨steps, name⟩ hfirst ⟨steps', name'⟩ hsecond
      obtain ⟨rest, rfl, _⟩ := mem_map_stepTo_iff.1 hfirst
      obtain ⟨index, label', field', rest', _, rfl, _⟩ := mem_fieldGuards_iff.1 hsecond
      -- the other field stands further back
      refine .inl ?_
      simp only [Descent.index]
      omega

end

end Descriptor

/-! ### The search -/

/-- The first of ordered items that has a property is the one that no other with the property comes
before. -/
theorem find?_eq_some_iff_of_pairwise {α : Type} {before : α → α → Prop}
    (hasymm : ∀ first second, before first second → ¬before second first) {has : α → Bool}
    {items : List α} (hordered : items.Pairwise before) {item : α} :
    items.find? has = some item ↔
      item ∈ items ∧ has item = true ∧ ∀ other ∈ items, has other = true → ¬before other item := by
  constructor
  · intro h
    obtain ⟨hitem, front, back, rfl, hfront⟩ := List.find?_eq_some_iff_append.1 h
    refine ⟨by simp, hitem, fun other hother hhas hbefore => ?_⟩
    rw [List.pairwise_append, List.pairwise_cons] at hordered
    rcases List.mem_append.1 hother with hother | hother
    · have hlacks := hfront other hother
      simp [hhas] at hlacks
    · rcases List.mem_cons.1 hother with rfl | hother
      · exact hasymm _ _ hbefore hbefore
      · exact hasymm _ _ hbefore (hordered.2.1.1 other hother)
  · rintro ⟨hmem, hitem, hfirst⟩
    cases hfind : items.find? has with
    | none => exact absurd hitem (List.find?_eq_none.1 hfind item hmem)
    | some found =>
        obtain ⟨hfound, front, back, rfl, hfront⟩ := List.find?_eq_some_iff_append.1 hfind
        rw [List.pairwise_append, List.pairwise_cons] at hordered
        rcases List.mem_append.1 hmem with hmem | hmem
        · have hlacks := hfront item hmem
          simp [hitem] at hlacks
        · rcases List.mem_cons.1 hmem with rfl | hmem
          · rfl
          · exact absurd (hordered.2.1.1 item hmem) (hfirst found (by simp) hfound)

/-- Whether a validator is missing is whether its name is not registered. -/
theorem isMissing_iff {validators : Validators} {name : String} :
    (!Entries.contains validators name) = true ↔ name ∉ Entries.keys validators := by
  rw [Bool.not_eq_true', ← Entries.contains_iff, Bool.not_eq_true]

/-- The first validator that is missing, in terms of the steps to it. -/
theorem Descriptor.find?_guards_eq_some_iff {descriptor : Descriptor} {validators : Validators}
    {steps : List Descent} {name : String} :
    descriptor.guards.find? (fun guard => !Entries.contains validators guard.2) =
        some (steps, name) ↔
      descriptor.Guards steps name ∧ name ∉ Entries.keys validators ∧
        ∀ earlier other, descriptor.Guards earlier other → Descent.Before earlier steps →
          other ∈ Entries.keys validators := by
  rw [find?_eq_some_iff_of_pairwise (fun _ _ => Descent.Before.asymm) descriptor.pairwise_guards,
    mem_guards_iff, isMissing_iff]
  refine and_congr_right fun _ => and_congr_right fun _ => ?_
  constructor
  · intro h earlier other hother hbefore
    refine Decidable.byContradiction fun hmissing => ?_
    exact h (earlier, other) (mem_guards_iff.2 hother) (isMissing_iff.2 hmissing) hbefore
  · rintro h ⟨earlier, other⟩ hother hmissing hbefore
    exact isMissing_iff.1 hmissing (h earlier other (mem_guards_iff.1 hother) hbefore)

/-- None is missing when all that guard a field are registered. -/
theorem Descriptor.find?_guards_eq_none_iff {descriptor : Descriptor} {validators : Validators} :
    descriptor.guards.find? (fun guard => !Entries.contains validators guard.2) = none ↔
      ∀ name, descriptor.Binds name → name ∈ Entries.keys validators := by
  rw [List.find?_eq_none]
  constructor
  · intro h name hname
    obtain ⟨steps, hsteps⟩ := binds_iff_guards.1 hname
    have hfound := h _ (mem_guards_iff.2 hsteps)
    rw [isMissing_iff] at hfound
    exact Decidable.not_not.1 hfound
  · rintro h ⟨steps, name⟩ hguard hmissing
    exact isMissing_iff.1 hmissing (h name (binds_iff_guards.2 ⟨steps, mem_guards_iff.1 hguard⟩))

/-- **The search ends with the first validator that is missing**, at the place that the steps to it
lead to. -/
theorem bindValidators_eq (tree : SchemaTree) (validators : Validators) (place : Pointer) :
    bindValidators tree validators place =
      (tree.root.guards.find? fun guard => !Entries.contains validators guard.2).elim (.ok ())
        fun guard => .error (.validatorNotFound (guard.1.foldl Descent.below place) guard.2) := by
  rw [bindValidators, ← SchemaTree.bindings_root, Descriptor.bindings_eq_map_guards, List.find?_map]
  have hfind : ((fun binding : Binding => !Entries.contains validators binding.validator) ∘
      Descriptor.bindingAt place) = fun guard => !Entries.contains validators guard.2 := rfl
  rw [hfind]
  cases tree.root.guards.find? fun guard => !Entries.contains validators guard.2 <;> rfl

/-- **Which validators are missing, and which one is reported where.**  A body is bound when all
validators that guard one of its fields, at any depth, are registered.  Otherwise the cause is the
first that is not, on the way down and from field to field, with its name and its place: that of the
body, and below it one step for every field and every array on the way. -/
theorem first_missing_reported (tree : SchemaTree) (validators : Validators) (place : Pointer) :
    (bindValidators tree validators place = .ok () ↔
      ∀ name, tree.root.Binds name → name ∈ Entries.keys validators) ∧
    ∀ cause, bindValidators tree validators place = .error cause ↔
      ∃ steps name, tree.root.Guards steps name ∧ name ∉ Entries.keys validators ∧
        (∀ earlier other, tree.root.Guards earlier other → Descent.Before earlier steps →
          other ∈ Entries.keys validators) ∧
        cause = .validatorNotFound (steps.foldl Descent.below place) name := by
  rw [← Descriptor.find?_guards_eq_none_iff, bindValidators_eq]
  constructor
  · cases tree.root.guards.find? fun guard => !Entries.contains validators guard.2 with
    | none => exact iff_of_true rfl rfl
    | some guard => exact iff_of_false nofun nofun
  · intro cause
    constructor
    · intro h
      cases hguard : tree.root.guards.find? fun guard => !Entries.contains validators guard.2 with
      | none =>
          rw [hguard] at h
          cases h
      | some guard =>
          rw [hguard] at h
          obtain ⟨hguards, hmissing, hearlier⟩ := Descriptor.find?_guards_eq_some_iff.1 hguard
          exact ⟨guard.1, guard.2, hguards, hmissing, hearlier, (Except.error.inj h).symm⟩
    · rintro ⟨steps, name, hguards, hmissing, hearlier, rfl⟩
      rw [Descriptor.find?_guards_eq_some_iff.2 ⟨hguards, hmissing, hearlier⟩]
      rfl

/-- The phones of a person are checked before what follows them, and each phone before its parts. -/
example :
    bindValidators
        (.fields [("phones", .array {} (.embedded { validator := some "isPhone" }
            [("home", .scalar { validator := some "isHome" } .string none)])),
          ("email", .scalar { validator := some "isEmail" } .string none)])
        (Validators.permissive ["isPhone"]) "/definitions/Person" =
      .error (.validatorNotFound "/definitions/Person/properties/phones/items/properties/home"
        "isHome") := rfl

end StoreSchema
