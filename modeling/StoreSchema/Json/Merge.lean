/-
**Merging objects in depth.**

Members are merged name by name: where both sides hold an object the two are merged in turn, and
everywhere else the value that is merged in replaces what was there.  Names keep their places, and
new names follow in their own order.

Main definitions:

* `Json.mergeValue` — a value laid over another;
* `Json.merge` — **members laid over members, in depth**.
-/

import StoreSchema.Json.Basic

set_option relaxedAutoImplicit false
set_option autoImplicit false

namespace StoreSchema.Json

mutual

/-- The value `source` laid over what stands there: two objects are merged, anything else is
replaced. -/
def mergeValue (target : Option Json) : Json → Json
  | .obj source =>
      match target with
      | some (.obj members) => .obj (merge members source)
      | _ => .obj source
  | source => source

/-- **The members `source` laid over `target`, in depth.** -/
def merge (target : Members) : List (String × Json) → Members
  | [] => target
  | (name, value) :: rest =>
      merge (Entries.insert target name (mergeValue (Entries.get? target name) value)) rest

end

end StoreSchema.Json
