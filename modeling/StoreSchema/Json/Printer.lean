/-
**JSON values in print.**

A value has two prints.  The compact one is the text of its tokens with nothing between them.  The
laid-out one puts every item and member on a line of its own, two blanks further in than the
container it belongs to; an empty container stays on one line.

Main definitions:

* `Json.tokens`, `Json.compact` — the tokens of a value, and its compact print;
* `Json.layout`, `Json.pretty` — the print on indented lines;
* `Json.plainText` — a string as it is, and any other value in compact print.
-/

import StoreSchema.Json.Token

set_option relaxedAutoImplicit false
set_option autoImplicit false

namespace StoreSchema.Json

/-! ### Compact print -/

mutual

/-- The tokens of a value. -/
def tokens : Json → List Token
  | .null => [.null]
  | .bool value => [.bool value]
  | .num value => [.num value]
  | .str text => [.str text]
  | .arr [] => [.openArray, .closeArray]
  | .arr (item :: rest) => .openArray :: (tokens item ++ itemTokens rest ++ [.closeArray])
  | .obj [] => [.openObject, .closeObject]
  | .obj ((name, value) :: rest) =>
      .openObject :: .str name :: .colon :: (tokens value ++ memberTokens rest ++ [.closeObject])

/-- The tokens of further items, a comma before each. -/
def itemTokens : List Json → List Token
  | [] => []
  | item :: rest => .comma :: (tokens item ++ itemTokens rest)

/-- The tokens of further members, a comma before each. -/
def memberTokens : List (String × Json) → List Token
  | [] => []
  | (name, value) :: rest => .comma :: .str name :: .colon :: (tokens value ++ memberTokens rest)

end

/-- The value in compact print. -/
def compact (value : Json) : String := String.join (value.tokens.map Token.text)

/-- A string as it is, and any other value in compact print. -/
def plainText : Json → String
  | .str text => text
  | value => value.compact

/-! ### Print on indented lines -/

/-- The start of a line that is `depth` containers deep. -/
def indentation (depth : Nat) : String := String.ofList ('\n' :: List.replicate (2 * depth) ' ')

mutual

/-- The value on indented lines, its container being `depth` deep. -/
def layout (depth : Nat) : Json → String
  | .null => Token.null.text
  | .bool value => (Token.bool value).text
  | .num value => (Token.num value).text
  | .str text => (Token.str text).text
  | .arr [] => "[]"
  | .arr (item :: rest) =>
      "[" ++ indentation (depth + 1) ++ layout (depth + 1) item ++ layoutItems (depth + 1) rest ++
        indentation depth ++ "]"
  | .obj [] => "\x7b\x7d"
  | .obj ((name, value) :: rest) =>
      "\x7b" ++ indentation (depth + 1) ++ quote name ++ ": " ++ layout (depth + 1) value ++
        layoutMembers (depth + 1) rest ++ indentation depth ++ "\x7d"

/-- Further items on lines of their own, a comma before each line. -/
def layoutItems (depth : Nat) : List Json → String
  | [] => ""
  | item :: rest => "," ++ indentation depth ++ layout depth item ++ layoutItems depth rest

/-- Further members on lines of their own, a comma before each line. -/
def layoutMembers (depth : Nat) : List (String × Json) → String
  | [] => ""
  | (name, value) :: rest =>
      "," ++ indentation depth ++ quote name ++ ": " ++ layout depth value ++
        layoutMembers depth rest

end

/-- The value on indented lines. -/
def pretty (value : Json) : String := value.layout 0

end StoreSchema.Json
