/-
**The vocabulary of properties.**

The types that a property may declare, the formats that refine a number, the keywords that belong
to the description of a property, and the keys and names with a meaning of their own.

Main definitions:

* `Primitive` — how a scalar is stored;
* `DeclaredType`, `DeclaredType.parse?` — the types a property may declare;
* `numberFormats`, `propertyKeywords`, `controlKeys`, `typeDirectiveKeys` — words with a meaning;
* `isReserved` — the names of fields that the store keeps for itself.
-/

set_option relaxedAutoImplicit false
set_option autoImplicit false

namespace StoreSchema

/-- How a scalar is stored. -/
inductive Primitive where
  | number
  | string
  | boolean
  | date
deriving DecidableEq, Repr

/-- The name of a primitive. -/
def Primitive.name : Primitive → String
  | .number => "Number"
  | .string => "String"
  | .boolean => "Boolean"
  | .date => "Date"

/-- The types that a property may declare. -/
inductive DeclaredType where
  | integer
  | long
  | float
  | double
  | number
  | string
  | password
  | boolean
  | date
  | dateTime
  | array
  | object
deriving DecidableEq, Repr

namespace DeclaredType

/-- The words for the types. -/
def words : List (String × DeclaredType) :=
  [("integer", .integer), ("long", .long), ("float", .float), ("double", .double),
    ("number", .number), ("string", .string), ("password", .password), ("boolean", .boolean),
    ("date", .date), ("dateTime", .dateTime), ("array", .array), ("object", .object)]

/-- The type that a word declares. -/
def parse? (word : String) : Option DeclaredType := words.lookup word

/-- Whether values of the type have parts. -/
def isComposite : DeclaredType → Bool
  | .array => true
  | .object => true
  | _ => false

/-- Two words declare a type whose values have parts. -/
theorem isComposite_parse?_iff {word : String} :
    ((parse? word).map isComposite).getD false = true ↔ word = "array" ∨ word = "object" := by
  constructor
  · intro h
    rw [parse?] at h
    cases hlookup : words.lookup word with
    | none => simp [hlookup] at h
    | some type =>
        have hmem : (word, type) ∈ words := by
          obtain ⟨_, _, hwords, _⟩ := List.lookup_eq_some_iff.1 hlookup
          simp [hwords]
        rw [hlookup] at h
        clear hlookup
        cases type <;> simp_all [isComposite, words]
  · rintro (rfl | rfl) <;> decide

end DeclaredType

/-- The formats that refine the type `number`. -/
def numberFormats : List String :=
  ["float", "double", "int32", "int64", "integer", "long", "decimal"]

/-- The keywords that describe a property; in a directive block they are no attributes. -/
def propertyKeywords : List String :=
  ["type", "format", "items", "$ref", "enum", "properties", "required", "description", "example",
    "title", "readOnly", "xml", "externalDocs"]

/-- The keys of a directive block that steer compilation and describe nothing. -/
def controlKeys : List String := ["validator", "include-ref", "required"]

/-- The type of a directive block that stores a field as an identifier. -/
def identifierType : String := "objectId"

/-- The key of the directive that sets the options of a schema. -/
def schemaOptionsKey : String := "schema-options"

/-- The key of the directive that leaves a type out of the output. -/
def excludeKey : String := "exclude-schema"

/-- The key of the directive that adds properties to a type. -/
def additionalPropertiesKey : String := "additional-properties"

/-- The key of the directive that describes indexes. -/
def indexKey : String := "index"

/-- The key of the directive that names a module of validators. -/
def validatorsKey : String := "validators"

/-- The keys of the directives on types. -/
def typeDirectiveKeys : List String :=
  [schemaOptionsKey, excludeKey, additionalPropertiesKey, indexKey, validatorsKey]

/-- The names of fields that the store keeps for itself. -/
def reservedNames : List String := ["_id", "__v"]

/-- Whether the store keeps the name for itself. -/
def isReserved (name : String) : Bool := reservedNames.contains name

end StoreSchema
