/-
**Dialects of schema documents.**

What a document says about storage stands in blocks of directives under a key of their own.  The
version of the document decides which key that is and how far such blocks reach: a legacy document
has them on fields only; an extended one also on definitions and on the document itself, and a
block may name a definition by a reference of its own.

Main definitions:

* `Dialect`, `Dialect.detect` — the dialects, and the one a document is written in;
* `Dialect.directiveKey`, `Dialect.hasTypeDirectives` — the key of a block, and its reach;
* `Dialect.directive?` — the block that stands in an object;
* `Dialect.explicitReference?` — the reference that a block carries.
-/

import StoreSchema.Error
import StoreSchema.Powers
import StoreSchema.Text.Blank
import StoreSchema.Text.Segments

set_option relaxedAutoImplicit false
set_option autoImplicit false

namespace StoreSchema

/-- A dialect of schema documents. -/
inductive Dialect where
  /-- Documents older than version 2. -/
  | legacy
  /-- Documents of version 2 and later. -/
  | extended
deriving DecidableEq, Repr

namespace Dialect

/-! ### Detection -/

/-- The natural number that a text of digits writes, with or without a plus sign; nothing when it
does not fit a machine word. -/
def versionNumber? (text : List Char) : Option Nat :=
  let digits := match text with
    | '+' :: digits => digits
    | digits => digits
  if digits.isEmpty || !digits.all Char.isDigit then none
  else
    let value := Nat.ofDigitChars 10 digits 0
    if value < unsignedBound then some value else none

/-- The major version that a version entry gives: what stands before the first dot of a text, or
the whole part of a number. -/
def majorVersion? : Json → Option Nat
  | .str text => versionNumber? (Text.trim (text.toList.takeWhile (· ≠ '.')))
  | .num value => some value.wholePart
  | _ => none

/-- The dialect that a document is written in. -/
def detect (document : Members) : Dialect :=
  if Entries.contains document "openapi" then .extended
  else
    match (Entries.get? document "swagger").bind majorVersion? with
    | some major => if 2 ≤ major then .extended else .legacy
    | none => .legacy

/-! ### Directive blocks -/

/-- The key under which a block of directives stands. -/
def directiveKey : Dialect → String
  | .legacy => "x-mongoose"
  | .extended => "x-swagger-mongoose"

theorem ne_directiveKey {key : String} (hlegacy : key ≠ legacy.directiveKey)
    (hextended : key ≠ extended.directiveKey) (dialect : Dialect) : key ≠ dialect.directiveKey := by
  cases dialect with
  | legacy => exact hlegacy
  | extended => exact hextended

/-- Whether blocks on definitions and on the document count. -/
def hasTypeDirectives : Dialect → Bool
  | .legacy => false
  | .extended => true

/-- The block of directives in the object at `place`. -/
def directive? (dialect : Dialect) (members : Members) (place : Pointer) :
    Outcome (Option Members) :=
  match Entries.get? members dialect.directiveKey with
  | none => .ok none
  | some (.obj block) => .ok (some block)
  | some other => .error (.wrongDirective (place.child dialect.directiveKey) [.object] other)

/-- The reference that a block carries. -/
def explicitReference? (dialect : Dialect) (block : Members) : Option String :=
  match dialect with
  | .legacy => none
  | .extended => (Entries.get? block "$ref").bind Json.asString?

end Dialect

end StoreSchema
