/-
**Blank characters.**

A character is blank when it has the Unicode property `White_Space`: twenty-five code points, from
the tabulator to the ideographic space.  Trimming removes blank characters at both ends of a text.

Main definitions:

* `Text.isBlank` — the property;
* `Text.trim`, `Text.allBlank` — a text without the blanks around it, and whether nothing is left.
-/

set_option relaxedAutoImplicit false
set_option autoImplicit false

namespace StoreSchema.Text

/-- The ranges of code points with the property `White_Space`. -/
def blankRanges : List (Nat × Nat) :=
  [(0x9, 0xD), (0x20, 0x20), (0x85, 0x85), (0xA0, 0xA0), (0x1680, 0x1680), (0x2000, 0x200A),
    (0x2028, 0x2029), (0x202F, 0x202F), (0x205F, 0x205F), (0x3000, 0x3000)]

/-- Whether the character is blank. -/
def isBlank (c : Char) : Bool :=
  blankRanges.any fun range => range.1 ≤ c.toNat && c.toNat ≤ range.2

/-- The text without the blank characters at its two ends. -/
def trim (text : List Char) : List Char :=
  ((text.dropWhile isBlank).reverse.dropWhile isBlank).reverse

/-- Whether the text holds blank characters only. -/
def allBlank (text : List Char) : Bool := text.all isBlank

end StoreSchema.Text
