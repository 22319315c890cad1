/-
**Numbers in text.**

A numeral is written as an optional minus sign, a whole part without a leading zero, an optional
fraction and an optional exponent.  It names an integer when it has neither fraction nor exponent
and fits a machine word, signed or unsigned.  Every other numeral names a binary floating-point
number, and none at all when that number would be infinite: its leading digits are read into a word
while they fit, and the word is moved to its place by a power of ten.  The number is the nearest one
when the digits are few, and may be a neighbour of it when they are many.  A minus sign before a
plain zero names the negative floating-point zero.

In print an integer is its decimal digits.  A floating-point number is its shortest digits, written
positionally while the exponent of the leading digit lies between `-5` and `15`, with at least one
digit after the point, and with an exponent otherwise.

Main definitions:

* `Numeral`, `Numeral.ofLexeme?` — the parts of a written number;
* `Numeral.held` — what a word holds of the digits, and the power of ten;
* `Numeral.number?` — the number that a numeral names;
* `Binary64.text`, `Number.text` — numbers in print.
-/

import StoreSchema.Json.Basic
import StoreSchema.Binary64.Shortest

set_option relaxedAutoImplicit false
set_option autoImplicit false

namespace StoreSchema

/-! ### Reading -/

/-- The parts of a written number. -/
structure Numeral where
  /-- Whether it starts with a minus sign. -/
  negative : Bool
  /-- The digits before the point. -/
  whole : List Char
  /-- The digits after the point, when there is one. -/
  fraction : Option (List Char)
  /-- The power of ten, when one is given. -/
  exponent : Option Int

namespace Numeral

/-- The fraction at the head of `text`, and what follows it; a point needs digits behind it. -/
def fraction? : List Char → Option (Option (List Char) × List Char)
  | '.' :: rest =>
      let digits := rest.takeWhile Char.isDigit
      if digits.isEmpty then none else some (some digits, rest.dropWhile Char.isDigit)
  | rest => some (none, rest)

/-- The signed power of ten that makes up all of `text`. -/
def power? (text : List Char) : Option Int :=
  let (negative, digits) := match text with
    | '-' :: digits => (true, digits)
    | '+' :: digits => (false, digits)
    | digits => (false, digits)
  if digits.isEmpty || !digits.all Char.isDigit then none
  else
    let magnitude : Int := Nat.ofDigitChars 10 digits 0
    some (if negative then -magnitude else magnitude)

/-- The exponent that makes up all of `text`; no text is no exponent. -/
def exponent? : List Char → Option (Option Int)
  | [] => some none
  | c :: rest => if c = 'e' ∨ c = 'E' then (power? rest).map some else none

/-- The parts of a lexeme that is a written number. -/
def ofLexeme? (lexeme : List Char) : Option Numeral := do
  let (negative, unsigned) := match lexeme with
    | '-' :: unsigned => (true, unsigned)
    | unsigned => (false, unsigned)
  let whole := unsigned.takeWhile Char.isDigit
  if whole.isEmpty || (whole.head? = some '0' && whole.length != 1) then none
  else
    let (fraction, behind) ← fraction? (unsigned.dropWhile Char.isDigit)
    let exponent ← exponent? behind
    return ⟨negative, whole, fraction, exponent⟩

/-- Reads digits into an unsigned word while they fit: the word, and the digits left over. -/
def absorb (word : Nat) : List Char → Nat × List Char
  | [] => (word, [])
  | digit :: rest =>
      let next := 10 * word + (digit.toNat - '0'.toNat)
      if next < unsignedBound then absorb next rest else (word, digit :: rest)

/-- What a word holds of a numeral, as an integer and a power of ten.  A digit left over before the
point raises the power, one left over behind the point does not count. -/
def held (numeral : Numeral) : DecimalNumeral :=
  let fraction := numeral.fraction.getD []
  let (word, skipped) := absorb 0 numeral.whole
  -- a small digit behind the point may still fit when a larger one before it did not
  let (word, dropped) := absorb word fraction
  ⟨word, numeral.exponent.getD 0 + skipped.length - (fraction.length - dropped.length)⟩

/-- The floating-point number that a numeral names. -/
def real? (numeral : Numeral) : Option Number :=
  (Binary64.ofDecimal numeral.negative numeral.held.digits numeral.held.scale).map Number.real

/-- The number that a numeral names. -/
def number? (numeral : Numeral) : Option Number :=
  match numeral.fraction, numeral.exponent with
  | none, none =>
      let magnitude := Nat.ofDigitChars 10 numeral.whole 0
      if numeral.negative then
        if magnitude ≠ 0 ∧ magnitude ≤ signedBound then some (.integer (-(magnitude : Int)))
        else numeral.real?
      else if magnitude < unsignedBound then some (.integer magnitude)
      else numeral.real?
  | _, _ => numeral.real?

end Numeral

/-! ### Printing -/

/-- Digits with the point after the first `places` of them; at least one digit stands on each
side. -/
def positional (digits : List Char) (places : Int) : List Char :=
  if (digits.length : Int) ≤ places then
    digits ++ List.replicate (places - digits.length).toNat '0' ++ ['.', '0']
  else if 0 < places then digits.take places.toNat ++ '.' :: digits.drop places.toNat
  else '0' :: '.' :: List.replicate (-places).toNat '0' ++ digits

/-- Digits with the point after the first of them, and the exponent of the first. -/
def scientific (digits : List Char) (exponent : Int) : List Char :=
  let mantissa := match digits with
    | first :: second :: rest => first :: '.' :: second :: rest
    | digits => digits
  let sign := if exponent < 0 then '-' else '+'
  mantissa ++ 'e' :: sign :: Nat.toDigits 10 exponent.natAbs

namespace Binary64

/-- The magnitude of a number in print. -/
def magnitudeText (x : Binary64) : List Char :=
  if x.isZero then ['0', '.', '0']
  else
    let shortest := x.shortest
    let digits := Nat.toDigits 10 shortest.digits
    let exponent : Int := shortest.scale + digits.length - 1
    if -5 ≤ exponent ∧ exponent ≤ 15 then positional digits (exponent + 1)
    else scientific digits exponent

/-- A floating-point number in print. -/
def text (x : Binary64) : List Char :=
  if x.negative then '-' :: x.magnitudeText else x.magnitudeText

end Binary64

/-- An integer in print. -/
def integerText (value : Int) : List Char :=
  if value < 0 then '-' :: Nat.toDigits 10 value.natAbs else Nat.toDigits 10 value.natAbs

/-- A number in print. -/
def Number.text : Number → List Char
  | .integer value => integerText value
  | .real value => value.text

end StoreSchema
