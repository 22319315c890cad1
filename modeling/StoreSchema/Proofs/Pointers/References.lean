/-
**Referring to a definition by its pointer.**

The place of a definition is a pointer, in which the tildes and the slashes of its name are escaped.
A reference takes the name as it stands behind `#/definitions/`, and undoes no escapes.  So the
pointer of a definition, made a reference, leads to the definition that is called like the step in
it: to the definition itself when its name is plain, and else to another one or to none.

Main results:

* `Pointer.target?_definition` — the name that the pointer of a definition leads to;
* `Pointer.target?_definition_eq_self_iff` — which names lead to themselves;
* `Pointer.definition_injective` — no two definitions share a pointer;
* `Registry.resolve_definition` — **what the pointer of a definition leads to**;
* `lookalikes_confused` — a definition that is taken for another one by its pointer.
-/

import StoreSchema.Registry
import StoreSchema.Proofs.Pointers.Steps

set_option relaxedAutoImplicit false
set_option autoImplicit false

namespace StoreSchema

namespace Pointer

theorem definition_eq_ofSteps (name : String) : definition name = ofSteps ["definitions", name] :=
  rfl

/-- No two definitions share a pointer. -/
theorem definition_injective {name other : String} (h : definition name = definition other) :
    name = other := by
  have hsteps := steps?_ofSteps ["definitions", name]
  rw [← definition_eq_ofSteps, h, definition_eq_ofSteps, steps?_ofSteps] at hsteps
  simpa using hsteps.symm

/-- The pointer of a definition leads to the name that is written in it. -/
theorem target?_definition {name : String} (h : name ≠ "") :
    target? ("#" ++ definition name) = some (escape name) := by
  rw [target?_eq_some_iff]
  refine ⟨?_, escape_ne_empty h, slash_not_mem_escape name⟩
  rw [definition, child, ← String.append_assoc, ← String.append_assoc]
  rfl

theorem target?_definition_empty : target? ("#" ++ definition "") = none := by decide

/-- **The names that lead to themselves** by the pointers of their definitions. -/
theorem target?_definition_eq_self_iff {name : String} :
    target? ("#" ++ definition name) = some name ↔ name ≠ "" ∧ Plain name := by
  by_cases hname : name = ""
  · subst hname
    rw [target?_definition_empty]
    exact iff_of_false nofun fun h => h.1 rfl
  · rw [target?_definition hname, Option.some.injEq, escape_eq_self_iff]
    exact (and_iff_right hname).symm

end Pointer

namespace Registry

/-- **What the pointer of a definition leads to**: the definition that is called like the step in
the pointer.  That is the definition itself when its name is plain, and never when it is not; and
the pointer is not at fault, for no two definitions share one, and the name can be read back from
it. -/
theorem resolve_definition (registry : Registry) {name : String} {members : Members}
    (hname : name ≠ "") (hget : Entries.get? registry.definitions name = some members)
    (place : Pointer) :
    registry.resolve ("#" ++ Pointer.definition name) place =
        (match Entries.get? registry.definitions (Pointer.escape name) with
          | some found => .ok (Pointer.escape name, found)
          | none => .error (.unresolvedReference place ("#" ++ Pointer.definition name))) ∧
      (registry.resolve ("#" ++ Pointer.definition name) place = .ok (name, members) ↔
        Pointer.Plain name) ∧
      (Pointer.target? ("#" ++ Pointer.definition name) = some name ↔ Pointer.Plain name) ∧
      (∀ other, Pointer.definition other = Pointer.definition name → other = name) ∧
      Pointer.steps? (Pointer.definition name) = some ["definitions", name] := by
  have hfind : registry.find? ("#" ++ Pointer.definition name) =
      (Entries.get? registry.definitions (Pointer.escape name)).map fun found =>
        (Pointer.escape name, found) := by
    rw [find?, Pointer.target?_definition hname, Option.bind_some]
  refine ⟨?_, ?_, ?_, fun _ => Pointer.definition_injective, ?_⟩
  · rw [resolve, hfind]
    cases Entries.get? registry.definitions (Pointer.escape name) <;> rfl
  · rw [resolve, hfind, ← Pointer.escape_eq_self_iff]
    constructor
    · intro h
      cases hescape : Entries.get? registry.definitions (Pointer.escape name) with
      | none =>
          rw [hescape] at h
          cases h
      | some found =>
          rw [hescape] at h
          exact congrArg Prod.fst (Except.ok.inj h)
    · intro h
      rw [h, hget]
      rfl
  · rw [Pointer.target?_definition_eq_self_iff]
    exact and_iff_right hname
  · rw [Pointer.definition_eq_ofSteps, Pointer.steps?_ofSteps]

end Registry

/-- Two definitions with look-alike names, one whose name has a slash, and one with a plain name. -/
def lookalikes : Members :=
  [("definitions", .obj
    [("a~b", .obj [("type", .str "string")]), ("a~0b", .obj [("type", .str "number")]),
      ("a/b", .obj [("type", .str "boolean")]), ("Pet", .obj [("type", .str "date")])])]

/-- The registry of `lookalikes`. -/
def lookalikeRegistry : Registry where
  dialect := .legacy
  definitions :=
    [("a~b", [("type", .str "string")]), ("a~0b", [("type", .str "number")]),
      ("a/b", [("type", .str "boolean")]), ("Pet", [("type", .str "date")])]
  defaults := []
  typeBlocks := []

/-- The pointer of the definition with a plain name leads back to it, that of a look-alike does
not. -/
theorem lookalikes_resolved :
    Registry.build lookalikes .legacy = .ok lookalikeRegistry ∧
      lookalikeRegistry.resolve "#/definitions/Pet" "" = .ok ("Pet", [("type", .str "date")]) ∧
      lookalikeRegistry.resolve "#/definitions/a~0b" "" ≠
        .ok ("a~b", [("type", .str "string")]) := by
  have hpet := lookalikeRegistry.resolve_definition (by decide : "Pet" ≠ "") rfl ""
  have hlookalike := lookalikeRegistry.resolve_definition (by decide : "a~b" ≠ "") rfl ""
  refine ⟨rfl, hpet.2.1.2 (by decide), fun h => ?_⟩
  exact absurd (hlookalike.2.1.1 h) (by decide)

/-- **A definition that is taken for another one by its pointer**, and one that its pointer does not
lead to. -/
theorem lookalikes_confused :
    Registry.build lookalikes .legacy = .ok lookalikeRegistry ∧
      lookalikeRegistry.resolve ("#" ++ Pointer.definition "a~b") "" =
        .ok ("a~0b", [("type", .str "number")]) ∧
      lookalikeRegistry.resolve ("#" ++ Pointer.definition "a/b") "" =
        .error (.unresolvedReference "" "#/definitions/a~1b") := ⟨rfl, rfl, rfl⟩

end StoreSchema
