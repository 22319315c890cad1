/-
**Compiling a document into schemas.**

A document is normalized, its dialect is detected and its definitions are registered; an overlay is
laid over them, and the directives of all types are read.  Then every definition that is not
excluded is compiled and bound, in the order of the document.  The first cause ends everything.

Main definitions:

* `Options`, `Compilation` — what steers compilation, and what it yields;
* `bindType` — the compiled schema of one type;
* `Catalog.compile` — the schemas of a catalog;
* `compile` — **the schemas of a document**.
-/

import StoreSchema.Links
import StoreSchema.Overlay
import StoreSchema.Schema
import StoreSchema.Source

set_option relaxedAutoImplicit false
set_option autoImplicit false

namespace StoreSchema

/-- What steers compilation. -/
structure Options where
  /-- Directives from outside the document. -/
  overlay : Option Json := none
  /-- The validators that a document may name. -/
  validators : Validators := []

/-- What compilation yields. -/
structure Compilation where
  /-- The compiled schemas, in the order of their definitions. -/
  schemas : Schemas
  /-- The warnings about their indexes. -/
  warnings : List IndexWarning

/-- The compiled schema of one type and the warnings about its indexes. -/
def bindType (name : String) (tree : SchemaTree) (directives : TypeDirectives)
    (validators : Validators) : Outcome (CompiledSchema × List IndexWarning) :=
  (bindValidators tree validators (Pointer.definition name)).map fun _ =>
    CompiledSchema.bindIndexes
      { name, tree, options := directives.options, indexes := []
        validatorModule := directives.validatorModule }
      directives.indexes

namespace Catalog

/-- The compiled schemas of the given types, excluded ones left out. -/
def compileTypes (catalog : Catalog) (validators : Validators) :
    Entries TypeDefinition → Outcome Compilation
  | [] => .ok ⟨[], []⟩
  | (name, type) :: rest =>
      if type.directives.exclude then catalog.compileTypes validators rest
      else do
        let tree ← catalog.compileDefinition [] name type
        let (schema, warnings) ← bindType name tree type.directives validators
        let others ← catalog.compileTypes validators rest
        return ⟨schema :: others.schemas, warnings ++ others.warnings⟩

/-- The compiled schemas of a catalog. -/
def compile (catalog : Catalog) (validators : Validators) : Outcome Compilation :=
  catalog.compileTypes validators catalog.types

end Catalog

/-- The catalog of a document under an overlay. -/
def catalogOf (document : Members) (overlay : Option Json) : Outcome Catalog := do
  let registry ← Registry.build document (Dialect.detect document)
  let overlaid ← Overlay.apply registry overlay
  overlaid.catalog

/-- **The schemas of a document.** -/
def compile (source : Source) (options : Options) : Outcome Compilation := do
  let document ← source.normalize
  let catalog ← catalogOf document options.overlay
  catalog.compile options.validators

/-- Compiles a document and hands the cause or the schemas to a receiver. -/
def compileThen {α : Type} (source : Source) (options : Options)
    (receive : Option CompileError → Option Compilation → α) : α :=
  match compile source options with
  | .ok compilation => receive none (some compilation)
  | .error cause => receive (some cause) none

end StoreSchema
