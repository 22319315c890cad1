/-
**The definitions of a document and the directives that apply to them.**

A registry holds the members of every definition, in the order of the document, and beside them the
directive blocks of types: those of the document itself, which apply to every type, and those of
single definitions.  A block is checked wherever it stands, and kept only where the dialect lets it
count.

Main definitions:

* `Registry`, `Registry.build` — a registry, and **the registry of a document**;
* `Registry.resolve` — the name a reference leads to.
-/

import StoreSchema.Dialect

set_option relaxedAutoImplicit false
set_option autoImplicit false

namespace StoreSchema

/-- The definitions of a document and the directive blocks of types. -/
structure Registry where
  /-- The dialect of the document. -/
  dialect : Dialect
  /-- The members of every definition. -/
  definitions : Entries Members
  /-- The directives that apply to every type. -/
  defaults : Members
  /-- The directives of single types. -/
  typeBlocks : Entries Members

namespace Registry

/-- The definitions that a document lists. -/
def definitionList (document : Members) : Outcome Members :=
  match Entries.get? document "definitions" with
  | none => .ok []
  | some (.obj definitions) => .ok definitions
  | some other => .error (.wrongKind "/definitions" [.object] other)

/-- A document lists the definitions that stand in it, or none when it has no such key. -/
theorem definitionList_eq_ok_iff {document listed : Members} :
    definitionList document = .ok listed ↔
      (Entries.get? document "definitions" = none ∧ listed = []) ∨
        Entries.get? document "definitions" = some (.obj listed) := by
  rw [definitionList]
  cases Entries.get? document "definitions" with
  | none => simp [eq_comm]
  | some value => cases value <;> simp

/-- A directive block, where the dialect lets blocks on types count. -/
def typeBlock? (dialect : Dialect) (members : Members) (place : Pointer) :
    Outcome (Option Members) :=
  (dialect.directive? members place).map fun block =>
    if dialect.hasTypeDirectives then block else none

/-- The members and the directive block of every definition, in order. -/
def readDefinitions (dialect : Dialect) :
    Members → Outcome (List (String × Members × Option Members))
  | [] => .ok []
  | (name, .obj members) :: rest => do
      let block ← typeBlock? dialect members (Pointer.definition name)
      let others ← readDefinitions dialect rest
      return (name, members, block) :: others
  | (name, other) :: _ => .error (.wrongKind (Pointer.definition name) [.object] other)

/-- **The registry of a document.** -/
def build (document : Members) (dialect : Dialect) : Outcome Registry := do
  let listed ← definitionList document
  let read ← readDefinitions dialect listed
  let defaults ← typeBlock? dialect document ""
  return {
    dialect
    definitions := read.map fun (name, members, _) => (name, members)
    defaults := defaults.getD []
    typeBlocks := read.filterMap fun (name, _, block) => block.map fun block => (name, block) }

/-- The name and the members of the definition that a reference leads to. -/
def find? (registry : Registry) (reference : String) : Option (String × Members) :=
  (Pointer.target? reference).bind fun name =>
    (Entries.get? registry.definitions name).map fun members => (name, members)

/-- The definition that the reference at `place` leads to. -/
def resolve (registry : Registry) (reference : String) (place : Pointer) :
    Outcome (String × Members) :=
  match registry.find? reference with
  | some found => .ok found
  | none => .error (.unresolvedReference place reference)

end Registry

end StoreSchema
