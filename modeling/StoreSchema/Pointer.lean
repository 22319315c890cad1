/-
**Places in a document, and references to its definitions.**

A place is written as a JSON pointer: the steps that lead to it, each after a slash.  The step that
names a definition writes `~` as `~0` and `/` as `~1`; the steps below a definition are written as
they are.  A reference leads to a definition when it is `#/definitions/` and a name that is not
empty and holds no slash; the name is taken as it stands.

Main definitions:

* `Pointer.child` — one step further;
* `Pointer.definition` — the place of a definition;
* `Pointer.target?` — the name a reference leads to.

Main results:

* `Pointer.target?_eq_some_iff` — **which references lead to a name**.
-/

set_option relaxedAutoImplicit false
set_option autoImplicit false

namespace StoreSchema

/-- A place in a document. -/
abbrev Pointer := String

namespace Pointer

/-- The place one step further. -/
def child (place : Pointer) (step : String) : Pointer := place ++ "/" ++ step

/-- A character of a name as it is written in a step. -/
def escapeChar (c : Char) : List Char :=
  if c = '~' then ['~', '0'] else if c = '/' then ['~', '1'] else [c]

/-- A name as it is written in a step. -/
def escape (name : String) : String := String.ofList (name.toList.flatMap escapeChar)

/-- The place of the definition called `name`. -/
def definition (name : String) : Pointer := child "/definitions" (escape name)

/-- What every reference to a definition starts with. -/
def referenceStart : String := "#/definitions/"

/-- The name of the definition that a reference leads to. -/
def target? (reference : String) : Option String :=
  match referenceStart.toList.isPrefixOf? reference.toList with
  | some name => if name.isEmpty || name.contains '/' then none else some (String.ofList name)
  | none => none

theorem isPrefixOf?_eq_some_iff {start text rest : List Char} :
    start.isPrefixOf? text = some rest ↔ text = start ++ rest := by
  induction start generalizing text with
  | nil =>
      change some text = some rest ↔ text = rest
      rw [Option.some.injEq]
  | cons c start ih =>
      cases text with
      | nil => exact iff_of_false nofun nofun
      | cons d text =>
          change (if c == d then start.isPrefixOf? text else none) = some rest ↔ _
          split
          · next h => simp [ih, eq_of_beq h]
          · next h =>
              have hne : d ≠ c := fun heq => h (by simp [heq])
              simp [hne]

/-- **A reference leads to a name** when it is made of that name, and the name may be referred to:
it is not empty and holds no slash. -/
theorem target?_eq_some_iff {reference name : String} :
    target? reference = some name ↔
      reference = referenceStart ++ name ∧ name ≠ "" ∧ '/' ∉ name.toList := by
  rw [target?]
  constructor
  · intro h
    split at h
    · next rest hrest =>
        split at h
        · cases h
        · next hname =>
            cases h
            rw [isPrefixOf?_eq_some_iff] at hrest
            rw [Bool.or_eq_true, not_or] at hname
            refine ⟨?_, ?_, ?_⟩
            · rw [← String.toList_inj, hrest, String.toList_append, String.toList_ofList]
            · rw [ne_eq, ← String.toList_inj, String.toList_ofList]
              simpa using hname.1
            · rw [String.toList_ofList]
              simpa using hname.2
    · cases h
  · rintro ⟨rfl, hempty, hslash⟩
    have hstart : referenceStart.toList.isPrefixOf? (referenceStart ++ name).toList =
        some name.toList := isPrefixOf?_eq_some_iff.2 (by simp)
    rw [hstart]
    simp [hempty, hslash]

end Pointer

end StoreSchema
