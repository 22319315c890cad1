/-
**Reading JSON text.**

The reader is a machine that takes one token at a time.  Between tokens it is in one of a few
stages, each of which says what may come next, and it holds a frame for every array or object that
is still open.  The number of frames is the depth of nesting, which a limit bounds.  A name that is
repeated in one object keeps its first place and takes the last value.

Main definitions:

* `Json.Frame`, `Json.Stage` — the open containers, and what may come next;
* `Json.Stage.step`, `Json.Stage.run` — one token, and many;
* `Json.parse?` — **the value of a text**, under a limit on nesting.
-/

import StoreSchema.Json.Token

set_option relaxedAutoImplicit false
set_option autoImplicit false

namespace StoreSchema.Json

/-- An array or object that is still open. -/
inductive Frame where
  /-- An array, with the items read so far, last first. -/
  | array (items : List Json)
  /-- An object, with the members read so far and the name whose value comes next. -/
  | object (members : Members) (name : String)

/-- What may come next. -/
inductive Stage where
  /-- A value. -/
  | wantsValue (frames : List Frame)
  /-- The first item of an array, or its end. -/
  | wantsItem (frames : List Frame)
  /-- The first name of an object, or its end. -/
  | wantsFirstName (frames : List Frame)
  /-- A further name of an object. -/
  | wantsName (members : Members) (frames : List Frame)
  /-- The colon behind a name. -/
  | wantsColon (members : Members) (name : String) (frames : List Frame)
  /-- Whatever may follow a complete value. -/
  | complete (value : Json) (frames : List Frame)

namespace Stage

/-- The stage after the token that starts a value. -/
def start (limit : Nat) (frames : List Frame) : Token → Option Stage
  | .null => some (.complete .null frames)
  | .bool value => some (.complete (.bool value) frames)
  | .num value => some (.complete (.num value) frames)
  | .str text => some (.complete (.str text) frames)
  | .openArray => if frames.length < limit then some (.wantsItem frames) else none
  | .openObject => if frames.length < limit then some (.wantsFirstName frames) else none
  | _ => none

/-- The stage after one more token; nothing when the token may not come here. -/
def step (limit : Nat) : Stage → Token → Option Stage
  | .wantsValue frames, token => start limit frames token
  | .wantsItem frames, .closeArray => some (.complete (.arr []) frames)
  | .wantsItem frames, token => start limit (.array [] :: frames) token
  | .wantsFirstName frames, .closeObject => some (.complete (.obj []) frames)
  | .wantsFirstName frames, .str name => some (.wantsColon [] name frames)
  | .wantsName members frames, .str name => some (.wantsColon members name frames)
  | .wantsColon members name frames, .colon => some (.wantsValue (.object members name :: frames))
  | .complete value (.array items :: frames), .comma =>
      some (.wantsValue (.array (value :: items) :: frames))
  | .complete value (.array items :: frames), .closeArray =>
      some (.complete (.arr (value :: items).reverse) frames)
  | .complete value (.object members name :: frames), .comma =>
      some (.wantsName (Entries.insert members name value) frames)
  | .complete value (.object members name :: frames), .closeObject =>
      some (.complete (.obj (Entries.insert members name value)) frames)
  | _, _ => none

/-- The stage after all the tokens. -/
def run (limit : Nat) (stage : Stage) : List Token → Option Stage
  | [] => some stage
  | token :: rest => (stage.step limit token).bind fun next => next.run limit rest

/-- The value that has been read, when nothing is left open. -/
def finish? : Stage → Option Json
  | .complete value [] => some value
  | _ => none

end Stage

/-- The largest number of arrays and objects inside one another in a document. -/
def nestingLimit : Nat := 127

/-- **The value of a text**; nothing when the text is no JSON, or nested beyond `limit`. -/
def parse? (limit : Nat) (text : List Char) : Option Json :=
  (tokens? text).bind fun tokens => ((Stage.wantsValue []).run limit tokens).bind Stage.finish?

end StoreSchema.Json
