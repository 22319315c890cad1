/-
**Every representation of a document normalizes to it.**

A document may be given as a value, as the text of the value on one line or on many, as the bytes of
that text, or as a string value that holds the text.  Reading finds the value in all of them, with
its members in their order, as long as three things hold of it: no object in it repeats a name, its
numbers are integers that fit a machine word, and it is nested no deeper than text may be.  So the
schemas do not depend on the form, and a boolean, a number or an array is refused in every form for
what it is.

A string value is the one thing that is not among its own forms: given as a value it is taken for
text.

Main definitions:

* `Json.Portable` — that a value is found again in its text;
* `Source.Represents` — **the forms in which a value may be given**.

Main results:

* `Source.Represents.read_eq` — **a value is read in each of its forms**;
* `representations_agree` — **every representation of an object is normalized to its members and
  compiled alike, and every representation of a boolean, a number or an array is refused for its
  kind**.
-/

import StoreSchema.Proofs.Blanks
import StoreSchema.Proofs.Json.Layout

set_option relaxedAutoImplicit false
set_option autoImplicit false

namespace StoreSchema

/-! ### Values that are found again -/

/-- That a number is an integer that fits a machine word, signed or unsigned. -/
def Number.FitsWord : Number → Prop
  | .integer value => -signedBound ≤ value ∧ value < unsignedBound
  | .real _ => False

/-- Such a number is found again in its text. -/
theorem Number.FitsWord.readsBack {number : Number} (h : number.FitsWord) : number.ReadsBack := by
  cases number with
  | integer value =>
      rw [FitsWord] at h
      exact Number.readsBack_integer h.1 h.2
  | real value =>
      rw [FitsWord] at h
      cases h

/-- **That a value is found again in its text**: it repeats no name, its numbers are integers that
fit a machine word, and there are at most 127 arrays and objects inside one another. -/
structure Json.Portable (value : Json) : Prop where
  distinct : value.Distinct
  numbers : value.EveryNumber Number.FitsWord
  nesting_le : value.nesting ≤ 127

theorem Json.WrittenAs.parse?_of_portable {value : Json} {text : List Char}
    (h : value.WrittenAs text) (hvalue : value.Portable) :
    Json.parse? Json.nestingLimit text = some value := by
  have hnumbers : value.EveryNumber Number.ReadsBack :=
    hvalue.numbers.imp fun _ => Number.FitsWord.readsBack
  exact h.parse?_eq hnumbers hvalue.distinct hvalue.nesting_le

namespace Source

/-! ### The text of a value -/

section

variable {content : String} {value : Json}
  (h : Json.parse? Json.nestingLimit content.toList = some value)

include h

/-- A text in which a value is found is not blank. -/
theorem allBlank_of_parse? : Text.allBlank content.toList = false := by
  rw [Bool.eq_false_iff]
  intro hblank
  rw [Json.parse?_of_allBlank hblank] at h
  cases h

theorem read_text_of_parse? : (text content).read = .ok value := by
  rw [read, readText, allBlank_of_parse? h, h]
  rfl

theorem read_bytes_of_parse? : (bytes content.toUTF8).read = .ok value := by
  have hbeyond : ¬Text.BlankBeyondAscii content.toList := by
    rintro ⟨hblank, _⟩
    rw [allBlank_of_parse? h] at hblank
    cases hblank
  rw [read_bytes_eq hbeyond, read_text_of_parse? h]

end

/-! ### The forms of a value -/

/-- **The forms in which a value may be given**: one of its prints, the bytes of one, a string that
holds one, and the value itself. -/
inductive Represents (value : Json) : Source → Prop where
  | text {content : String} : value.WrittenAs content.toList → Represents value (.text content)
  | bytes {content : String} :
      value.WrittenAs content.toList → Represents value (.bytes content.toUTF8)
  | string {content : String} :
      value.WrittenAs content.toList → Represents value (.parsed (.str content))
  | value : Represents value (.parsed value)

namespace Represents

variable {value : Json} {source : Source}

/-- **A value is read in each of its forms**; but a string that is given as a value is taken for
text. -/
theorem read_eq (h : Represents value source) (hvalue : value.Portable)
    (hkind : value.kind ≠ .string) : source.read = .ok value := by
  cases h with
  | text hwritten => exact read_text_of_parse? (hwritten.parse?_of_portable hvalue)
  | bytes hwritten => exact read_bytes_of_parse? (hwritten.parse?_of_portable hvalue)
  | string hwritten => exact read_text_of_parse? (hwritten.parse?_of_portable hvalue)
  | value =>
      cases value with
      | str content => exact absurd rfl hkind
      | _ => rfl

/-- An object is normalized to its members in each of its forms. -/
theorem normalize_obj {members : Members} (h : Represents (.obj members) source)
    (hvalue : (Json.obj members).Portable) : source.normalize = .ok members := by
  have hkind : (Json.obj members).kind ≠ .string := nofun
  rw [normalize, h.read_eq hvalue hkind]
  rfl

/-- A value that is no document is refused for its kind in each of its forms. -/
theorem normalize_of_kind (h : Represents value source) (hvalue : value.Portable)
    (hkind : value.kind = .boolean ∨ value.kind = .number ∨ value.kind = .array) :
    source.normalize = .error (.notADocument value.kind) := by
  have hstring : value.kind ≠ .string := by
    rcases hkind with hkind | hkind | hkind <;> rw [hkind] <;> decide
  rw [normalize, h.read_eq hvalue hstring]
  cases value with
  | bool _ => rfl
  | num _ => rfl
  | arr _ => rfl
  | null => simp [Json.kind] at hkind
  | str _ => simp [Json.kind] at hkind
  | obj _ => simp [Json.kind] at hkind

end Represents

end Source

/-! ### Documents -/

/-- **Every representation of a document normalizes to it.**  For a value without repeated names
whose numbers are integers that fit a machine word and whose nesting is at most 127: if it is an
object, each of its forms is normalized to its members in their order, and any two of its forms
compile alike; if it is a boolean, a number or an array, each of its forms is refused for its
kind. -/
theorem representations_agree {value : Json} (hvalue : value.Portable) :
    (∀ members, value = .obj members →
      (∀ source, Source.Represents value source → source.normalize = .ok members) ∧
        ∀ source source', Source.Represents value source → Source.Represents value source' →
          ∀ options, compile source options = compile source' options) ∧
      (value.kind = .boolean ∨ value.kind = .number ∨ value.kind = .array →
        ∀ source, Source.Represents value source →
          source.normalize = .error (.notADocument value.kind) ∧
            ∀ options, compile source options = .error (.notADocument value.kind)) := by
  refine ⟨?_, ?_⟩
  · rintro members rfl
    have hnormalize (source : Source) (h : Source.Represents (.obj members) source) :
        source.normalize = .ok members := h.normalize_obj hvalue
    refine ⟨hnormalize, fun source source' h h' => compile_congr ?_⟩
    rw [hnormalize source h, hnormalize source' h']
  · intro hkind source h
    have hnormalize := h.normalize_of_kind hvalue hkind
    exact ⟨hnormalize, compile_of_normalize_error hnormalize⟩

/-- A document that holds the largest word. -/
def sizesDocument : Members :=
  [("größe", .arr [.num (.integer 18446744073709551615), .str "\""])]

/-- Its text on lines, between blanks. -/
def sizesText : String :=
  "\n\x7b\n  \"größe\": [\n    18446744073709551615,\n    \"\\\"\"\n  ]\n\x7d\t"

theorem portable_sizesDocument : (Json.obj sizesDocument).Portable := by
  refine ⟨?_, ?_, by decide⟩
  · simp [sizesDocument, Json.Distinct, Json.DistinctMembers, Json.DistinctItems]
  · simp only [sizesDocument, Json.EveryNumber, Json.EveryNumberMembers, Json.EveryNumberItems,
      Number.FitsWord]
    decide

theorem writtenAs_sizesText : (Json.obj sizesDocument).WrittenAs sizesText.toList := by
  refine ⟨['\n'], ['\t'], ?_, ?_, .inr (by decide +kernel)⟩ <;> simp [Json.Blank, Json.isSpace]

/-- The sizes are normalized to their members and compiled alike from their text, from its bytes and
from a string that holds it; an array of a boolean is no document in bytes either. -/
theorem sizesDocument_representations :
    (Json.obj sizesDocument).Portable ∧
      (Source.text sizesText).normalize = .ok sizesDocument ∧
      (Source.bytes sizesText.toUTF8).normalize = .ok sizesDocument ∧
      (Source.parsed (.str sizesText)).normalize = .ok sizesDocument ∧
      (∀ options, compile (.bytes sizesText.toUTF8) options =
        compile (.parsed (.obj sizesDocument)) options) ∧
      (Json.arr [.bool true]).Portable ∧
      (Source.bytes "[true]".toUTF8).normalize = .error (.notADocument .array) := by
  obtain ⟨hnormalize, hcompile⟩ :=
    (representations_agree portable_sizesDocument).1 sizesDocument rfl
  have harray : (Json.arr [.bool true]).Portable := by
    refine ⟨?_, ?_, by decide⟩
    · simp [Json.Distinct, Json.DistinctItems]
    · simp [Json.EveryNumber, Json.EveryNumberItems]
  have hbytes : Source.Represents (.arr [.bool true]) (.bytes "[true]".toUTF8) :=
    .bytes ⟨[], [], nofun, nofun, .inl (by decide)⟩
  exact ⟨portable_sizesDocument, hnormalize _ (.text writtenAs_sizesText),
    hnormalize _ (.bytes writtenAs_sizesText), hnormalize _ (.string writtenAs_sizesText),
    hcompile _ _ (.bytes writtenAs_sizesText) .value, harray,
    ((representations_agree harray).2 (.inr (.inr rfl)) _ hbytes).1⟩

end StoreSchema
