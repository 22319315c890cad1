/-
**Overlays: directives from outside the document.**

An overlay is an object of entries.  The entry `default` is laid over the directives that apply to
every type; an entry `Type` over the directives of that type; an entry `Type.field` over the block
of a property, which is reached through nested `properties`.  Entries are taken in order.  Each one
either changes the registry or is the cause that ends the overlay, and then the entries before it
have taken effect and no other.

Main definitions:

* `Overlay.updateProperty` — a change of the property that a path of fields leads to;
* `Overlay.applyEntry` — **the registry after one entry**;
* `Overlay.merge` — the registry after an overlay, and the cause that ended it.
-/

import StoreSchema.Json.Merge
import StoreSchema.Registry
import StoreSchema.Vocabulary

set_option relaxedAutoImplicit false
set_option autoImplicit false

namespace StoreSchema.Overlay

/-- The members of a definition after a change of the property that the path of fields leads to;
nothing when the path does not lead through `properties` to an object. -/
def updateProperty (change : Members → Members) : List String → Members → Option Members
  | [], members => some (change members)
  | field :: rest, members =>
      match Entries.get? members "properties" with
      | some (.obj properties) =>
          match Entries.get? properties field with
          | some (.obj property) =>
              (updateProperty change rest property).map fun changed =>
                Entries.insert members "properties"
                  (.obj (Entries.insert properties field (.obj changed)))
          | _ => none
      | _ => none

/-- The members of a property with a directive merged into their block. -/
def mergeBlock (key : String) (directive members : Members) : Members :=
  let block := ((Entries.get? members key).map Json.members).getD []
  Entries.insert members key (.obj (Json.merge block directive))

/-- The directives of an entry `default`; without the key of any type directive they are options of
schemas. -/
def defaultDirective (directive : Members) : Members :=
  if directive.any fun member => typeDirectiveKeys.contains member.1 then directive
  else [(schemaOptionsKey, .obj directive)]

/-- The registry with a directive merged into the directives of a type. -/
def mergeType (registry : Registry) (name : String) (directive : Members) : Registry :=
  let block := (Entries.get? registry.typeBlocks name).getD []
  { registry with
    typeBlocks := Entries.insert registry.typeBlocks name (Json.merge block directive) }

/-- The registry with a directive merged into the block of a property. -/
def mergeField? (registry : Registry) (name : String) (fields : List String)
    (directive : Members) : Option Registry :=
  (Entries.get? registry.definitions name).bind fun definition =>
    (updateProperty (mergeBlock registry.dialect.directiveKey directive) fields definition).map
      fun changed =>
        { registry with definitions := Entries.insert registry.definitions name changed }

/-- The registry with a directive merged in at the place that a dotted path addresses. -/
def mergeAt? (registry : Registry) (path : String) (directive : Members) : Option Registry :=
  match Text.dotted path with
  | [] => none
  | name :: fields =>
      if !Entries.contains registry.definitions name then none
      else if fields.isEmpty then some (mergeType registry name directive)
      else mergeField? registry name fields directive

/-- **The registry after one entry.** -/
def applyEntry (registry : Registry) (path : String) (value : Json) : Outcome Registry :=
  match value with
  | .obj directive =>
      if path = "default" then
        .ok { registry with
          defaults := Json.merge registry.defaults (defaultDirective directive) }
      else
        match mergeAt? registry path directive with
        | some merged => .ok merged
        | none => .error (.badOverlayPath path)
  | other => .error (.wrongDirective path [.object] other)

/-- The registry after the entries that took effect, and the cause that ended them. -/
def mergeEntries (registry : Registry) : Members → Registry × Option CompileError
  | [] => (registry, none)
  | (path, value) :: rest =>
      match applyEntry registry path value with
      | .ok merged => mergeEntries merged rest
      | .error cause => (registry, some cause)

/-- **The registry after an overlay**, and the cause that ended it. -/
def merge (registry : Registry) : Json → Registry × Option CompileError
  | .null => (registry, none)
  | .obj entries => mergeEntries registry entries
  | other => (registry, some (.wrongDirective "overlay" [.object] other))

/-- The registry after an overlay that may be absent and has to take effect as a whole. -/
def apply (registry : Registry) : Option Json → Outcome Registry
  | none => .ok registry
  | some overlay =>
      match merge registry overlay with
      | (merged, none) => .ok merged
      | (_, some cause) => .error cause

end StoreSchema.Overlay
