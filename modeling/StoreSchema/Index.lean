/-
**Index directives.**

An index lists fields with a direction or a special kind each, and two options.  In a directive it
is written either with its fields under `fields`, or flat, the options standing among the fields.
One directive may hold a single index, an array of indexes, or an object of indexes under names
that do not matter.

Main definitions:

* `IndexDirection`, `IndexSpec` — the direction of a field, and an index;
* `IndexSpec.parse`, `IndexSpec.parseAll` — an index, and **all indexes of a directive**;
* `IndexSpec.toJson` — an index in print: its fields and its options.
-/

import StoreSchema.Error

set_option relaxedAutoImplicit false
set_option autoImplicit false

namespace StoreSchema

/-- The direction or special kind of an indexed field. -/
inductive IndexDirection where
  | ascending
  | descending
  | text
  | hashed
  | geo2dSphere
deriving DecidableEq, Repr

namespace IndexDirection

/-- The words for the directions and kinds. -/
def words : List (String × IndexDirection) :=
  [("asc", .ascending), ("ascending", .ascending), ("desc", .descending),
    ("descending", .descending), ("text", .text), ("hashed", .hashed), ("2dsphere", .geo2dSphere)]

/-- The direction that a value gives: the integer `1` or `-1`, or a word. -/
def parse? : Json → Option IndexDirection
  | .num (.integer 1) => some .ascending
  | .num (.integer (-1)) => some .descending
  | .str word => words.lookup word
  | _ => none

/-- A direction in print. -/
def toJson : IndexDirection → Json
  | .ascending => .num (.integer 1)
  | .descending => .num (.integer (-1))
  | .text => .str "text"
  | .hashed => .str "hashed"
  | .geo2dSphere => .str "2dsphere"

end IndexDirection

/-- An index over one or more fields. -/
structure IndexSpec where
  /-- The indexed fields, in order. -/
  fields : List (String × IndexDirection)
  /-- Whether no two documents may agree on the fields. -/
  unique : Bool
  /-- Whether the index is built beside other work. -/
  background : Bool
deriving DecidableEq, Repr

namespace IndexSpec

/-- The names of the indexed fields. -/
def fieldNames (spec : IndexSpec) : List String := spec.fields.map Prod.fst

/-- Whether the index spans several fields. -/
def isCompound (spec : IndexSpec) : Bool := 1 < spec.fields.length

/-- An index in print: its fields, and its options. -/
def toJson (spec : IndexSpec) : Json :=
  .arr [.obj (spec.fields.map fun field => (field.1, field.2.toJson)),
    .obj ((if spec.unique then [("unique", .bool true)] else []) ++
      [("background", .bool spec.background)])]

/-! ### Reading -/

/-- The yes-or-no option under `key`, or `default` where there is none. -/
def flag (members : Members) (key : String) (default : Bool) (place : Pointer) : Outcome Bool :=
  match Entries.get? members key with
  | none => .ok default
  | some .null => .ok default
  | some (.bool value) => .ok value
  | some other => .error (.wrongDirective (place.child key) [.boolean] other)

/-- The keys of options, which the flat notation puts among the fields. -/
def optionKeys : List String := ["unique", "background"]

/-- The members that give fields their directions: those under `fields`, or in the flat notation
all that are no options. -/
def fieldMembers (members : Members) (place : Pointer) : Outcome Members :=
  match Entries.get? members "fields" with
  | some (.obj fields) => .ok fields
  | some other => .error (.wrongDirective (place.child "fields") [.object] other)
  | none => .ok (members.filter fun member => !optionKeys.contains member.1)

/-- The directions that members give. -/
def directions (place : Pointer) : Members → Outcome (List (String × IndexDirection))
  | [] => .ok []
  | (field, value) :: rest =>
      match IndexDirection.parse? value with
      | none => .error (.invalidDirective (place.child field) (.unsupportedDirection value))
      | some direction => (directions place rest).map ((field, direction) :: ·)

/-- The index that a value describes. -/
def parse (value : Json) (place : Pointer) : Outcome IndexSpec :=
  match value with
  | .obj members => do
      let named ← fieldMembers members place
      let unique ← flag members "unique" false place
      let background ← flag members "background" true place
      let fields ← directions place named
      if fields.isEmpty then throw (.invalidDirective place .noIndexFields)
      return ⟨fields, unique, background⟩
  | other => .error (.wrongDirective place [.object] other)

/-- The indexes that numbered items describe, the first of them under the number `start`. -/
def parseItems (place : Pointer) (start : Nat) : List Json → Outcome (List IndexSpec)
  | [] => .ok []
  | item :: rest => do
      let spec ← parse item (place.child (Nat.repr start))
      let specs ← parseItems place (start + 1) rest
      return spec :: specs

/-- The indexes that named members describe. -/
def parseMembers (place : Pointer) : Members → Outcome (List IndexSpec)
  | [] => .ok []
  | (name, value) :: rest => do
      let spec ← parse value (place.child name)
      let specs ← parseMembers place rest
      return spec :: specs

/-- **All indexes of a directive.**  An object is one index when it has `fields` or a member that
is no object, and indexes under names otherwise. -/
def parseAll (value : Json) (place : Pointer) : Outcome (List IndexSpec) :=
  match value with
  | .null => .ok []
  | .arr items => parseItems place 0 items
  | .obj members =>
      if members.isEmpty then .ok []
      else if !Entries.contains members "fields" && members.all fun member => member.2.isObject then
        parseMembers place members
      else (parse value place).map fun spec => [spec]
  | other => .error (.wrongDirective place [.object, .array] other)

end IndexSpec

end StoreSchema
