/-
**Why a document does not compile.**

Compilation ends with the first cause that it meets, and with no schema at all.  A cause names the
place it was met at and what was wrong there; its wording, its kind and the exit status of the
command line are functions of the cause.

Main definitions:

* `Fault` — what is wrong with the value at a place;
* `CompileError` — **the causes**;
* `CompileError.message`, `CompileError.kind`, `CompileError.exitCode` — their wording, their kind
  and their exit status;
* `Outcome`, `Outcome.Succeeds` — a value, or the first cause against it; and that it is a value.

Main results:

* `Outcome.bind_eq_ok_iff`, `Outcome.map_eq_ok_iff`, `Outcome.succeeds_bind_iff` — when a composed
  outcome succeeds.
-/

import StoreSchema.Json.Printer
import StoreSchema.Pointer

set_option relaxedAutoImplicit false
set_option autoImplicit false

namespace StoreSchema

/-- What is wrong with the value at a place. -/
inductive Fault where
  /-- A value of another kind was expected. -/
  | expected (wanted : List Json.Kind) (got : Json.Kind)
  /-- A property has neither a type nor a reference. -/
  | untyped
  /-- An array property does not describe its items. -/
  | noItems
  /-- An index gives a field a direction that does not exist. -/
  | unsupportedDirection (value : Json)
  /-- An index names no field. -/
  | noIndexFields
deriving DecidableEq

/-- The wording of a fault. -/
def Fault.message : Fault → String
  | .expected wanted got =>
      "expected " ++ " or ".intercalate (wanted.map Json.Kind.name) ++ ", got " ++ got.name
  | .untyped => "property has no type or $ref"
  | .noItems => "array property has no items"
  | .unsupportedDirection value => "unsupported index direction " ++ value.compact
  | .noIndexFields => "index has no fields"

/-- The coarse kinds of cause. -/
inductive ErrorKind where
  | missingSpec
  | parseError
  | unrecognizedType
  | badOverlayPath
  | unresolvedReference
  | validatorNotFound
  | invalidSchema
deriving DecidableEq, Repr

/-- **The causes for which a document does not compile.** -/
inductive CompileError where
  /-- There is no document. -/
  | missingSpec
  /-- The text of the document is no JSON. -/
  | invalidJson
  /-- The document is no object. -/
  | notADocument (actual : Json.Kind)
  /-- A property declares a type that does not exist. -/
  | unrecognizedType (place : Pointer) (declared : Json)
  /-- A number declares a format that does not exist. -/
  | unrecognizedFormat (place : Pointer) (format : Json)
  /-- An overlay entry leads to no definition or to no property. -/
  | badOverlayPath (path : String)
  /-- A reference leads to no definition. -/
  | unresolvedReference (place : Pointer) (reference : String)
  /-- A field is bound to a validator that is not registered. -/
  | validatorNotFound (place : Pointer) (name : String)
  /-- Something is wrong with the schema at a place. -/
  | invalidSchema (place : Pointer) (fault : Fault)
  /-- Something is wrong with the directive at a place. -/
  | invalidDirective (place : Pointer) (fault : Fault)
deriving DecidableEq

namespace CompileError

/-- The wording of a cause. -/
def message : CompileError → String
  | .missingSpec => "schema document not supplied"
  | .invalidJson => "invalid JSON"
  | .notADocument actual => "schema document must be a JSON object, got " ++ actual.name
  | .unrecognizedType place declared =>
      "unrecognized schema type \"" ++ declared.plainText ++ "\" at " ++ place
  | .unrecognizedFormat place format =>
      "unrecognized number format \"" ++ format.plainText ++ "\" at " ++ place
  | .badOverlayPath path => "overlay path \"" ++ path ++ "\" does not exist in definitions"
  | .unresolvedReference place reference =>
      "unresolved reference \"" ++ reference ++ "\" at " ++ place
  | .validatorNotFound place name =>
      "validator \"" ++ name ++ "\" bound at " ++ place ++ " is not registered"
  | .invalidSchema place fault => "invalid schema at " ++ place ++ ": " ++ fault.message
  | .invalidDirective place fault => "invalid directive at " ++ place ++ ": " ++ fault.message

/-- The kind of a cause. -/
def kind : CompileError → ErrorKind
  | .missingSpec => .missingSpec
  | .invalidJson => .parseError
  | .notADocument _ => .parseError
  | .unrecognizedType _ _ => .unrecognizedType
  | .unrecognizedFormat _ _ => .unrecognizedType
  | .badOverlayPath _ => .badOverlayPath
  | .unresolvedReference _ _ => .unresolvedReference
  | .validatorNotFound _ _ => .validatorNotFound
  | .invalidSchema _ _ => .invalidSchema
  | .invalidDirective _ _ => .invalidSchema

/-- The exit status of a command that a cause ends: `3` when nothing was there to read, else
`2`. -/
def exitCode : CompileError → Nat
  | .missingSpec => 3
  | _ => 2

/-- The cause that a value of another kind than those `wanted` stands in the schema. -/
def wrongKind (place : Pointer) (wanted : List Json.Kind) (value : Json) : CompileError :=
  .invalidSchema place (.expected wanted value.kind)

/-- The cause that a value of another kind than those `wanted` stands in a directive. -/
def wrongDirective (place : Pointer) (wanted : List Json.Kind) (value : Json) : CompileError :=
  .invalidDirective place (.expected wanted value.kind)

end CompileError

/-! ### Outcomes -/

/-- What compiling yields: a value, or the first cause against it. -/
abbrev Outcome := Except CompileError

namespace Outcome

variable {α β : Type}

/-- Two steps succeed exactly when the first does and the second does after it. -/
theorem bind_eq_ok_iff {first : Outcome α} {next : α → Outcome β} {result : β} :
    (first >>= next) = .ok result ↔ ∃ value, first = .ok value ∧ next value = .ok result := by
  cases first with
  | error cause => simp [bind, Except.bind]
  | ok value => simp [bind, Except.bind]

/-- A mapped outcome succeeds exactly when the outcome does. -/
theorem map_eq_ok_iff {first : Outcome α} {change : α → β} {result : β} :
    first.map change = .ok result ↔ ∃ value, first = .ok value ∧ change value = result := by
  cases first with
  | error cause => simp [Except.map]
  | ok value => simp [Except.map]

/-- What two steps yield is changed by changing what the second one yields. -/
theorem map_bind {γ : Type} (first : Outcome α) (next : α → Outcome β) (change : β → γ) :
    (first >>= next).map change = first >>= fun value => (next value).map change := by
  cases first <;> rfl

theorem map_map {γ : Type} (outcome : Outcome α) (change : α → β) (again : β → γ) :
    (outcome.map change).map again = outcome.map fun value => again (change value) := by
  cases outcome <;> rfl

theorem bind_map {γ : Type} (outcome : Outcome α) (change : α → β) (next : β → Outcome γ) :
    outcome.map change >>= next = outcome >>= fun value => next (change value) := by
  cases outcome <;> rfl

/-- That an outcome is a value. -/
def Succeeds (outcome : Outcome α) : Prop := ∃ value, outcome = .ok value

@[simp] theorem succeeds_ok (value : α) : Succeeds (.ok value) := ⟨value, rfl⟩

@[simp] theorem not_succeeds_error (cause : CompileError) :
    ¬Succeeds (.error cause : Outcome α) := by
  rintro ⟨value, h⟩
  cases h

instance (outcome : Outcome α) : Decidable outcome.Succeeds :=
  match outcome with
  | .ok value => isTrue (succeeds_ok value)
  | .error cause => isFalse (not_succeeds_error cause)

@[simp] theorem succeeds_map_iff {outcome : Outcome α} {change : α → β} :
    Succeeds (outcome.map change) ↔ outcome.Succeeds := by
  cases outcome with
  | error cause => exact iff_of_false (not_succeeds_error cause) (not_succeeds_error cause)
  | ok value => exact iff_of_true (succeeds_ok _) (succeeds_ok value)

/-- Two steps succeed when the first does and the second does after it. -/
theorem succeeds_bind_iff {first : Outcome α} {next : α → Outcome β} :
    Succeeds (first >>= next) ↔ ∃ value, first = .ok value ∧ (next value).Succeeds := by
  constructor
  · rintro ⟨result, h⟩
    obtain ⟨value, hfirst, hnext⟩ := bind_eq_ok_iff.1 h
    exact ⟨value, hfirst, result, hnext⟩
  · rintro ⟨value, hfirst, result, hnext⟩
    exact ⟨result, bind_eq_ok_iff.2 ⟨value, hfirst, hnext⟩⟩

/-- Two steps succeed when both do, if the second does so whatever the first yields. -/
theorem succeeds_bind_iff_and {first : Outcome α} {next : α → Outcome β} {succeeds : Prop}
    (h : ∀ value, (next value).Succeeds ↔ succeeds) :
    Succeeds (first >>= next) ↔ first.Succeeds ∧ succeeds := by
  rw [succeeds_bind_iff]
  constructor
  · rintro ⟨value, hfirst, hnext⟩
    exact ⟨⟨value, hfirst⟩, (h value).1 hnext⟩
  · rintro ⟨⟨value, hfirst⟩, hnext⟩
    exact ⟨value, hfirst, (h value).2 hnext⟩

/-- A step after which a value is formed succeeds when the step does. -/
theorem succeeds_bind_pure_iff {first : Outcome α} {form : α → β} :
    Succeeds (first >>= fun value => pure (form value)) ↔ first.Succeeds :=
  (succeeds_bind_iff_and fun value => iff_true_intro (succeeds_ok (form value))).trans
    (and_iff_left trivial)

end Outcome

end StoreSchema
