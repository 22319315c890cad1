/-
**Tokens of JSON text.**

JSON text is a sequence of tokens with blanks between them: punctuation, strings, numbers and the
three words.  A word or number extends as far as it can, so a token ends where a character stands
that no word or number contains.

Main definitions:

* `Json.Token`, `Json.Token.text` — tokens and their print;
* `Json.Token.scan` — the token that starts with a given character, and the text behind it;
* `Json.tokens?` — **the tokens of a text**, or nothing when some part of it is no token.

Main results:

* `Json.Token.scan_length` — the text behind a token is no longer than what followed its first
  character.
-/

import StoreSchema.Json.Escape
import StoreSchema.Json.Numeral

set_option relaxedAutoImplicit false
set_option autoImplicit false

namespace StoreSchema.Json

/-- A token of JSON text. -/
inductive Token where
  | openObject
  | closeObject
  | openArray
  | closeArray
  | colon
  | comma
  | null
  | bool (value : Bool)
  | num (value : Number)
  | str (text : String)
deriving DecidableEq

namespace Token

/-- A token in print. -/
def text : Token → String
  | .openObject => "\x7b"
  | .closeObject => "\x7d"
  | .openArray => "["
  | .closeArray => "]"
  | .colon => ":"
  | .comma => ","
  | .null => "null"
  | .bool true => "true"
  | .bool false => "false"
  | .num value => String.ofList value.text
  | .str text => quote text

/-- The token that is a single punctuation mark. -/
def punctuation? (c : Char) : Option Token :=
  if c = '{' then some .openObject
  else if c = '}' then some .closeObject
  else if c = '[' then some .openArray
  else if c = ']' then some .closeArray
  else if c = ':' then some .colon
  else if c = ',' then some .comma
  else none

/-- Whether words and numbers may contain the character. -/
def isWordChar (c : Char) : Bool := c.isAlphanum || c = '-' || c = '+' || c = '.'

/-- The token that a run of word characters makes up. -/
def ofWord? (word : List Char) : Option Token :=
  if word = ['n', 'u', 'l', 'l'] then some .null
  else if word = ['t', 'r', 'u', 'e'] then some (.bool true)
  else if word = ['f', 'a', 'l', 's', 'e'] then some (.bool false)
  else (Numeral.ofLexeme? word).bind fun numeral => numeral.number?.map Token.num

/-- The token that starts with `c` and goes on in `rest`, and the text behind it. -/
def scan (c : Char) (rest : List Char) : Option (Token × List Char) :=
  if c = '"' then
    match scanPieces rest with
    | some (pieces, behind) =>
        (decodePieces pieces).map fun text => (.str (String.ofList text), behind)
    | none => none
  else if isWordChar c then
    (ofWord? (c :: rest.takeWhile isWordChar)).map fun token => (token, rest.dropWhile isWordChar)
  else (punctuation? c).map fun token => (token, rest)

/-- The text behind a token is no longer than what followed its first character. -/
theorem scan_length {c : Char} {rest behind : List Char} {token : Token}
    (h : scan c rest = some (token, behind)) : behind.length ≤ rest.length := by
  rw [scan] at h
  split at h
  · split at h
    · next pieces after hpieces =>
        obtain ⟨text, _, htext⟩ := Option.map_eq_some_iff.1 h
        simp only [Prod.mk.injEq] at htext
        have := scanPieces_length hpieces
        rw [← htext.2]
        omega
    · simp at h
  · split at h
    · obtain ⟨word, _, hword⟩ := Option.map_eq_some_iff.1 h
      simp only [Prod.mk.injEq] at hword
      rw [← hword.2]
      exact (List.dropWhile_sublist _).length_le
    · obtain ⟨mark, _, hmark⟩ := Option.map_eq_some_iff.1 h
      simp only [Prod.mk.injEq] at hmark
      exact Nat.le_of_eq (by rw [← hmark.2])

end Token

/-- Whether the character may stand between two tokens. -/
def isSpace (c : Char) : Bool := c = ' ' || c = '\t' || c = '\n' || c = '\r'

/-- **The tokens of a text**; nothing when some part of it is no token. -/
def tokens? : List Char → Option (List Token)
  | [] => some []
  | c :: rest =>
      if isSpace c then tokens? rest
      else
        match _h : Token.scan c rest with
        | none => none
        | some (token, behind) => (tokens? behind).map (token :: ·)
termination_by text => text.length
decreasing_by
  · simp
  · have := Token.scan_length _h
    simp only [List.length_cons]
    omega

end StoreSchema.Json
