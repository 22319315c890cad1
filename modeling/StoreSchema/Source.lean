/-
**Where a document comes from.**

A document is given as text, as bytes, or as a value that has been read already; a string value is
taken for text.  Whatever the source, the document is the object that the source holds.  A source
with nothing but blanks, and a null, is no document at all; among bytes only the five ASCII blanks
count.

Main definitions:

* `Source` — the forms in which a document is given;
* `Source.normalize` — **the members of the document**.
-/

import StoreSchema.Error
import StoreSchema.Json.Reader
import StoreSchema.Text.Blank

set_option relaxedAutoImplicit false
set_option autoImplicit false

namespace StoreSchema

/-- A document in one of the forms in which it may be given. -/
inductive Source where
  | text (content : String)
  | bytes (content : ByteArray)
  | parsed (content : Json)

namespace Source

/-- Whether a byte is a blank of ASCII: the space, the tabulator, the line feed, the form feed and
the carriage return. -/
def isBlankByte (byte : UInt8) : Bool :=
  byte == 0x20 || byte == 0x09 || byte == 0x0A || byte == 0x0C || byte == 0x0D

/-- The value that the text of a document holds. -/
def readText (text : String) : Outcome Json :=
  if Text.allBlank text.toList then .error .missingSpec
  else
    match Json.parse? Json.nestingLimit text.toList with
    | some value => .ok value
    | none => .error .invalidJson

/-- The value that UTF-8 bytes hold. -/
def parseBytes? (bytes : ByteArray) : Option Json :=
  (String.fromUTF8? bytes).bind fun text => Json.parse? Json.nestingLimit text.toList

/-- The value that the bytes of a document hold. -/
def readBytes (bytes : ByteArray) : Outcome Json :=
  if bytes.toList.all isBlankByte then .error .missingSpec
  else
    match parseBytes? bytes with
    | some value => .ok value
    | none => .error .invalidJson

/-- The value that a source holds. -/
def read : Source → Outcome Json
  | .text content => readText content
  | .bytes content => readBytes content
  | .parsed (.str content) => readText content
  | .parsed content => .ok content

/-- **The members of the document that a source holds.** -/
def normalize (source : Source) : Outcome Members := do
  match ← source.read with
  | .obj members => return members
  | .null => throw .missingSpec
  | other => throw (.notADocument other.kind)

end Source

end StoreSchema
