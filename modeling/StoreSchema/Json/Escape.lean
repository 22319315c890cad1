/-
**Characters between the quotes of a JSON string.**

Between its quotes a string is a sequence of pieces: a character that stands for itself, a short
escape such as `\n`, or `\u` with four hexadecimal digits, which names a unit of UTF-16.  Two units
that form a surrogate pair name one character; a surrogate on its own names none, and the string is
refused.  In print only the quote, the backslash and the control characters below `U+0020` are
escaped.

Main definitions:

* `Json.Piece`, `Json.scanPieces` — the pieces up to the closing quote, and what follows it;
* `Json.decodePieces` — the characters that the pieces name;
* `Json.escape`, `Json.quote` — a character and a text in print.

Main results:

* `Json.scanPieces_length` — reading consumes at least the closing quote.
-/

set_option relaxedAutoImplicit false
set_option autoImplicit false

namespace StoreSchema.Json

/-! ### Reading -/

/-- One written character of a string. -/
inductive Piece where
  /-- A character that is known at once. -/
  | char (c : Char)
  /-- A unit of UTF-16 given by its number. -/
  | unit (code : Nat)

/-- The value of a hexadecimal digit. -/
def hexValue? (c : Char) : Option Nat :=
  if c.isDigit then some (c.toNat - '0'.toNat)
  else if 'a' ≤ c ∧ c ≤ 'f' then some (c.toNat - 'a'.toNat + 10)
  else if 'A' ≤ c ∧ c ≤ 'F' then some (c.toNat - 'A'.toNat + 10)
  else none

/-- The unit that four hexadecimal digits name. -/
def unitOf? (a b c d : Char) : Option Nat := do
  let a ← hexValue? a
  let b ← hexValue? b
  let c ← hexValue? c
  let d ← hexValue? d
  return ((a * 16 + b) * 16 + c) * 16 + d

/-- The character that a backslash before `c` stands for. -/
def shortEscape? (c : Char) : Option Char :=
  if c = '"' ∨ c = '\\' ∨ c = '/' then some c
  else if c = 'b' then some '\x08'
  else if c = 't' then some '\t'
  else if c = 'n' then some '\n'
  else if c = 'f' then some '\x0c'
  else if c = 'r' then some '\r'
  else none

/-- The pieces up to the closing quote, and the text behind it. -/
def scanPieces : List Char → Option (List Piece × List Char)
  | [] => none
  | '\\' :: 'u' :: a :: b :: c :: d :: rest =>
      match unitOf? a b c d, scanPieces rest with
      | some code, some (pieces, behind) => some (.unit code :: pieces, behind)
      | _, _ => none
  | '\\' :: c :: rest =>
      match shortEscape? c, scanPieces rest with
      | some c, some (pieces, behind) => some (.char c :: pieces, behind)
      | _, _ => none
  | c :: rest =>
      if c = '"' then some ([], rest)
      else if c = '\\' ∨ c.toNat < 0x20 then none
      else
        match scanPieces rest with
        | some (pieces, behind) => some (.char c :: pieces, behind)
        | none => none

/-- Whether a unit is the first of a surrogate pair. -/
def isLeading (code : Nat) : Bool := 0xD800 ≤ code && code < 0xDC00

/-- Whether a unit is the second of a surrogate pair. -/
def isTrailing (code : Nat) : Bool := 0xDC00 ≤ code && code < 0xE000

/-- The characters that the pieces name; nothing when a surrogate has no partner. -/
def decodePieces : List Piece → Option (List Char)
  | [] => some []
  | .char c :: rest => (decodePieces rest).map (c :: ·)
  | .unit code :: rest =>
      if isLeading code then
        match rest with
        | .unit low :: rest =>
            if isTrailing low then
              let joined := 0x10000 + (code - 0xD800) * 0x400 + (low - 0xDC00)
              (decodePieces rest).map (Char.ofNat joined :: ·)
            else none
        | _ => none
      else if isTrailing code then none
      else (decodePieces rest).map (Char.ofNat code :: ·)

/-- Reading consumes at least the closing quote. -/
theorem scanPieces_length {text behind : List Char} {pieces : List Piece}
    (h : scanPieces text = some (pieces, behind)) : behind.length < text.length := by
  fun_induction scanPieces text generalizing pieces behind <;>
    simp_all <;> grind

/-! ### Printing -/

/-- A digit in hexadecimal print. -/
def hexDigit (n : Nat) : Char := Nat.digitChar n

/-- A character as it is printed between the quotes of a string. -/
def escape (c : Char) : List Char :=
  if c = '"' ∨ c = '\\' then ['\\', c]
  else if c = '\x08' then ['\\', 'b']
  else if c = '\t' then ['\\', 't']
  else if c = '\n' then ['\\', 'n']
  else if c = '\x0c' then ['\\', 'f']
  else if c = '\r' then ['\\', 'r']
  else if c.toNat < 0x20 then
    ['\\', 'u', '0', '0', hexDigit (c.toNat / 16), hexDigit (c.toNat % 16)]
  else [c]

/-- A text in print, between quotes. -/
def quote (text : String) : String :=
  String.ofList ('"' :: text.toList.flatMap escape ++ ['"'])

end StoreSchema.Json
