/-
**Validators and their registry.**

A validator accepts or rejects values, and reports a rejection in words of its own, in which
`{VALUE}` stands for the rejected value.  A registry holds validators by name.

Main definitions:

* `Validator`, `Validator.check` — a validator, and its verdict on a value;
* `Validators` — validators by name;
* `Predicate` — the predicates that are known by a name.
-/

import StoreSchema.Json.Printer
import StoreSchema.Text.Segments

set_option relaxedAutoImplicit false
set_option autoImplicit false

namespace StoreSchema

/-- A check on values and the report of a rejection. -/
structure Validator where
  /-- The report, with `{VALUE}` for the rejected value. -/
  message : String
  /-- Whether a value passes. -/
  accepts : Json → Bool

namespace Validator

/-- The report of the rejection of a value. -/
def report (validator : Validator) (value : Json) : String :=
  String.ofList (Text.fill value.plainText.toList validator.message.toList)

/-- The verdict on a value: nothing, or the report of its rejection. -/
def check (validator : Validator) (value : Json) : Option String :=
  if validator.accepts value then none else some (validator.report value)

/-- The validator that accepts every value. -/
def permissive (message : String) : Validator := ⟨message, fun _ => true⟩

end Validator

/-- Validators under their names. -/
abbrev Validators := Entries Validator

namespace Validators

/-- A registry of validators under the given names that accept every value. -/
def permissive (names : List String) : Validators :=
  Entries.ofList (names.map fun name => (name, Validator.permissive "\x7bVALUE\x7d rejected"))

end Validators

/-! ### Predicates -/

/-- The predicates that are known by a name. -/
inductive Predicate where
  /-- Every value. -/
  | always
  /-- No value. -/
  | never
  /-- Strings. -/
  | string
  /-- Strings of one or more digits. -/
  | digits
  /-- Strings with exactly ten digits among their characters. -/
  | tenDigits
deriving DecidableEq, Repr

/-- Whether a value satisfies a predicate; digits are those of ASCII. -/
def Predicate.holds (predicate : Predicate) (value : Json) : Bool :=
  match predicate, value with
  | .always, _ => true
  | .never, _ => false
  | .string, .str _ => true
  | .digits, .str text => !text.isEmpty && text.toList.all Char.isDigit
  | .tenDigits, .str text => text.toList.countP Char.isDigit == 10
  | _, _ => false

end StoreSchema
