/-
**Tokens are found again in their text.**

A token in print is read as the token that it is, provided that a word or a number is followed by
something that no word contains.  For strings this is so character by character: what is escaped is
written in a form of its own, and every other character stands for itself.  For integers it is so
within the machine words; whether a floating-point number is found again is a matter of its digits
and left to a hypothesis.

Main definitions:

* `Number.ReadsBack`, `Json.Token.ReadsBack` — that a number, or a token, is found again in its text;
* `Json.EndsWord` — that a text does not go on with a word;
* `Json.Spells` — that a text is made of tokens, with blanks between them.

Main results:

* `Number.readsBack_integer` — integers that fit a machine word are found again;
* `Json.scanPieces_quote` — so are the characters of a string;
* `Json.tokens?_of_spells` — **a text is read as the tokens that it is made of**.
-/

import StoreSchema.Json.Token

set_option relaxedAutoImplicit false
set_option autoImplicit false

namespace StoreSchema

/-! ### Numbers -/

/-- That a number is found again in its text. -/
def Number.ReadsBack (number : Number) : Prop :=
  number.text.all Json.Token.isWordChar = true ∧
    Json.Token.ofWord? number.text = some (.num number)

theorem eq_zero_of_digitChar : ∀ n < 10, n.digitChar = '0' → n = 0 := by decide

/-- Only zero is written with a leading zero. -/
theorem eq_zero_of_head?_toDigits {n : Nat} (h : (Nat.toDigits 10 n).head? = some '0') : n = 0 := by
  induction n using Nat.strongRecOn with
  | _ n ih =>
      rw [Nat.toDigits_eq_if (by decide)] at h
      split at h
      · next hlt => exact eq_zero_of_digitChar n hlt (Option.some.inj h)
      · next hle =>
          -- the digits before the last one start alike
          obtain ⟨c, rest, hdigits⟩ := List.exists_cons_of_ne_nil (Nat.toDigits_ne_nil (n := n / 10))
          rw [hdigits, List.cons_append] at h
          have hzero := ih (n / 10) (by omega) (by rw [hdigits]; exact h)
          omega

namespace Numeral

/-- Digits without a leading zero are a numeral. -/
theorem ofLexeme?_toDigits (n : Nat) :
    ofLexeme? (Nat.toDigits 10 n) = some ⟨false, Nat.toDigits 10 n, none, none⟩ ∧
      ofLexeme? ('-' :: Nat.toDigits 10 n) = some ⟨true, Nat.toDigits 10 n, none, none⟩ := by
  have hdigits : ∀ c ∈ Nat.toDigits 10 n, c.isDigit = true :=
    fun c hc => Nat.isDigit_of_mem_toDigits (by decide) (by decide) hc
  have htake : (Nat.toDigits 10 n ++ []).takeWhile Char.isDigit = Nat.toDigits 10 n ++ [] :=
    List.takeWhile_append_of_pos hdigits
  have hdrop : (Nat.toDigits 10 n ++ []).dropWhile Char.isDigit = [] :=
    List.dropWhile_append_of_pos hdigits
  rw [List.append_nil] at htake hdrop
  have hzero : ¬((Nat.toDigits 10 n).head? = some '0' ∧ (Nat.toDigits 10 n).length ≠ 1) := by
    rintro ⟨hhead, hlength⟩
    rw [eq_zero_of_head?_toDigits hhead] at hlength
    exact hlength rfl
  have hminus : ∀ rest, Nat.toDigits 10 n ≠ '-' :: rest := by
    intro rest heq
    have hminus := hdigits '-' (by simp [heq])
    exact absurd hminus (by decide)
  have hwhole : ((Nat.toDigits 10 n).isEmpty ||
      ((Nat.toDigits 10 n).head? = some '0' && (Nat.toDigits 10 n).length != 1)) = false := by
    rw [Bool.or_eq_false_iff, Bool.eq_false_iff, Bool.eq_false_iff]
    refine ⟨by simp, fun h => hzero ?_⟩
    simpa using h
  constructor
  · rw [ofLexeme?, htake, hdrop, hwhole]
    · rfl
    · exact hminus
  · rw [ofLexeme?, htake, hdrop, hwhole]
    rfl

end Numeral

/-- Digits and a minus sign stand in words. -/
theorem all_isWordChar_integerText (value : Int) :
    (integerText value).all Json.Token.isWordChar = true := by
  have hdigits : (Nat.toDigits 10 value.natAbs).all Json.Token.isWordChar = true := by
    rw [List.all_eq_true]
    intro c hc
    have hdigit := Nat.isDigit_of_mem_toDigits (by decide) (by decide) hc
    simp [Json.Token.isWordChar, Char.isAlphanum, hdigit]
  rw [integerText]
  split
  · rw [List.all_cons, hdigits]
    rfl
  · exact hdigits

/-- A text of digits, with or without a sign, is none of the three words. -/
theorem ofWord?_integerText {value : Int} {numeral : Numeral}
    (h : Numeral.ofLexeme? (integerText value) = some numeral) :
    Json.Token.ofWord? (integerText value) = numeral.number?.map Json.Token.num := by
  have hdigits : ∀ c ∈ Nat.toDigits 10 value.natAbs, c.isDigit = true :=
    fun c hc => Nat.isDigit_of_mem_toDigits (by decide) (by decide) hc
  have hword {word : List Char} {c : Char} (hc : c ∈ word) (hdigit : c.isDigit = false)
      (hminus : '-' ∉ word) : integerText value ≠ word := by
    rintro rfl
    rw [integerText] at hc hminus
    split at hc
    · next hneg => exact hminus (by simp [hneg])
    · rw [hdigits c hc] at hdigit
      cases hdigit
  have hn : integerText value ≠ ['n', 'u', 'l', 'l'] := by
    refine hword (List.mem_cons_self ..) (by decide) (by decide)
  have ht : integerText value ≠ ['t', 'r', 'u', 'e'] := by
    refine hword (List.mem_cons_self ..) (by decide) (by decide)
  have hf : integerText value ≠ ['f', 'a', 'l', 's', 'e'] := by
    refine hword (List.mem_cons_self ..) (by decide) (by decide)
  rw [Json.Token.ofWord?, if_neg hn, if_neg ht, if_neg hf, h]
  rfl

/-- **Integers that fit a machine word, signed or unsigned, are found again.** -/
theorem Number.readsBack_integer {value : Int} (hlow : -signedBound ≤ value)
    (hhigh : value < unsignedBound) : (Number.integer value).ReadsBack := by
  refine ⟨all_isWordChar_integerText value, ?_⟩
  obtain ⟨hplain, hsigned⟩ := Numeral.ofLexeme?_toDigits value.natAbs
  have hmagnitude : Nat.ofDigitChars 10 (Nat.toDigits 10 value.natAbs) 0 = value.natAbs :=
    Nat.ofDigitChars_toDigits (by decide) (by decide)
  change Json.Token.ofWord? (integerText value) = _
  by_cases hneg : value < 0
  · have htext : integerText value = '-' :: Nat.toDigits 10 value.natAbs := if_pos hneg
    have hrange : value.natAbs ≠ 0 ∧ value.natAbs ≤ signedBound := by omega
    have hvalue : -(value.natAbs : Int) = value := by omega
    have hlexeme : Numeral.ofLexeme? (integerText value) =
        some ⟨true, Nat.toDigits 10 value.natAbs, none, none⟩ := by rw [htext, hsigned]
    rw [ofWord?_integerText hlexeme, Numeral.number?]
    simp only [hmagnitude, if_pos hrange, reduceIte, hvalue, Option.map_some]
  · have htext : integerText value = Nat.toDigits 10 value.natAbs := if_neg hneg
    have hrange : value.natAbs < unsignedBound := by omega
    have hvalue : (value.natAbs : Int) = value := by omega
    have hlexeme : Numeral.ofLexeme? (integerText value) =
        some ⟨false, Nat.toDigits 10 value.natAbs, none, none⟩ := by rw [htext, hplain]
    rw [ofWord?_integerText hlexeme, Numeral.number?]
    simp only [hmagnitude, if_pos hrange, Bool.false_eq_true, if_false, hvalue, Option.map_some]

namespace Json

/-! ### Strings -/

theorem hexValue?_hexDigit : ∀ n < 16, hexValue? (hexDigit n) = some n := by decide

/-- A character is found again in what is printed for it. -/
theorem scanPieces_escape (c : Char) : ∃ piece,
    (∀ rest, scanPieces (escape c ++ rest) =
      (scanPieces rest).map fun found => (piece :: found.1, found.2)) ∧
    ∀ pieces, decodePieces (piece :: pieces) = (decodePieces pieces).map (c :: ·) := by
  have hshort {written : Char} (hwritten : shortEscape? written = some c) (hu : written ≠ 'u')
      (rest : List Char) : scanPieces ('\\' :: written :: rest) =
        (scanPieces rest).map fun found => (.char c :: found.1, found.2) := by
    rw [scanPieces.eq_def]
    split
    · next heq => cases heq
    · next heq =>
        cases heq
        exact absurd rfl hu
    · next heq =>
        cases heq
        rw [hwritten]
        cases scanPieces rest <;> rfl
    · next hnot heq =>
        cases heq
        exact (hnot written rest rfl rfl).elim
  have hchar (pieces : List Piece) :
      decodePieces (.char c :: pieces) = (decodePieces pieces).map (c :: ·) := by rw [decodePieces]
  by_cases hplain : c = '"' ∨ c = '\\'
  · refine ⟨.char c, fun rest => ?_, hchar⟩
    rw [escape, if_pos hplain]
    rcases hplain with rfl | rfl <;> exact hshort (by decide) (by decide) rest
  rw [escape, if_neg hplain]
  by_cases hb : c = '\x08'
  · subst hb
    exact ⟨.char '\x08', fun rest => hshort (by decide) (by decide) rest, hchar⟩
  rw [if_neg hb]
  by_cases ht : c = '\t'
  · subst ht
    exact ⟨.char '\t', fun rest => hshort (by decide) (by decide) rest, hchar⟩
  rw [if_neg ht]
  by_cases hn : c = '\n'
  · subst hn
    exact ⟨.char '\n', fun rest => hshort (by decide) (by decide) rest, hchar⟩
  rw [if_neg hn]
  by_cases hf : c = '\x0c'
  · subst hf
    exact ⟨.char '\x0c', fun rest => hshort (by decide) (by decide) rest, hchar⟩
  rw [if_neg hf]
  by_cases hr : c = '\r'
  · subst hr
    exact ⟨.char '\r', fun rest => hshort (by decide) (by decide) rest, hchar⟩
  rw [if_neg hr]
  by_cases hcontrol : c.toNat < 0x20
  · -- four digits name the character
    rw [if_pos hcontrol]
    have hhigh := hexValue?_hexDigit (c.toNat / 16) (by omega)
    have hlow := hexValue?_hexDigit (c.toNat % 16) (by omega)
    have hzero : hexValue? '0' = some 0 := by decide
    have hunit : unitOf? '0' '0' (hexDigit (c.toNat / 16)) (hexDigit (c.toNat % 16)) =
        some c.toNat := by
      rw [unitOf?, hzero, hhigh, hlow]
      change some (((0 * 16 + 0) * 16 + c.toNat / 16) * 16 + c.toNat % 16) = some c.toNat
      congr 1
      omega
    refine ⟨.unit c.toNat, fun rest => ?_, fun pieces => ?_⟩
    · change scanPieces ('\\' :: 'u' :: '0' :: '0' :: _ :: _ :: rest) = _
      rw [scanPieces, hunit]
      cases scanPieces rest <;> rfl
    · have hleading : isLeading c.toNat = false := by simp [isLeading]; omega
      have htrailing : isTrailing c.toNat = false := by simp [isTrailing]; omega
      rw [decodePieces.eq_def]
      simp only [hleading, htrailing, Char.ofNat_toNat, Bool.false_eq_true, if_false]
  · rw [if_neg hcontrol]
    rw [not_or] at hplain
    refine ⟨.char c, fun rest => ?_, hchar⟩
    change scanPieces (c :: rest) = _
    rw [scanPieces.eq_def]
    split
    · next heq => cases heq
    · next heq =>
        cases heq
        exact absurd rfl hplain.2
    · next heq =>
        cases heq
        exact absurd rfl hplain.2
    · next heq =>
        cases heq
        rw [if_neg hplain.1, if_neg (by simp [hplain.2, hcontrol])]
        cases scanPieces rest <;> rfl

/-- **The characters of a string are found again between its quotes.** -/
theorem scanPieces_quote (text rest : List Char) :
    ∃ pieces, scanPieces (text.flatMap escape ++ '"' :: rest) = some (pieces, rest) ∧
      decodePieces pieces = some text := by
  induction text with
  | nil => exact ⟨[], by simp [scanPieces], rfl⟩
  | cons c text ih =>
      obtain ⟨pieces, hscan, hdecode⟩ := ih
      obtain ⟨piece, hpiece, hcharacter⟩ := scanPieces_escape c
      refine ⟨piece :: pieces, ?_, ?_⟩
      · rw [List.flatMap_cons, List.append_assoc, hpiece, hscan]
        rfl
      · rw [hcharacter, hdecode]
        rfl

/-! ### Tokens -/

/-- That a text does not go on with a word. -/
def EndsWord (text : List Char) : Prop := ∀ c rest, text = c :: rest → Token.isWordChar c = false

theorem endsWord_nil : EndsWord [] := nofun

theorem endsWord_cons {c : Char} (h : Token.isWordChar c = false) (rest : List Char) :
    EndsWord (c :: rest) := by
  intro first others heq
  cases heq
  exact h

namespace Token

/-- Whether a token is written with the characters of words. -/
def isWord : Token → Bool
  | .null => true
  | .bool _ => true
  | .num _ => true
  | _ => false

/-- That a token is found again in its text. -/
def ReadsBack (token : Token) : Prop := ∀ number, token = .num number → number.ReadsBack

/-- That a token is read off the head of its text, and leaves what follows. -/
def ScansTo (token : Token) (rest : List Char) : Prop :=
  ∃ c text, token.text.toList = c :: text ∧ isSpace c = false ∧
    scan c (text ++ rest) = some (token, rest)

theorem isSpace_of_isWordChar {c : Char} (h : isWordChar c = true) : isSpace c = false := by
  rw [Bool.eq_false_iff]
  intro hspace
  simp only [isSpace, Bool.or_eq_true, decide_eq_true_eq] at hspace
  rcases hspace with ((rfl | rfl) | rfl) | rfl <;> exact absurd h (by decide)

/-- A word is read to its end. -/
theorem scan_word {token : Token} {rest : List Char} (hrest : EndsWord rest)
    (hword : token.text.toList.all isWordChar = true)
    (hread : ofWord? token.text.toList = some token) : token.ScansTo rest := by
  generalize htext : token.text.toList = word at hword hread
  cases word with
  | nil => cases hread
  | cons c text =>
      rw [List.all_cons, Bool.and_eq_true, List.all_eq_true] at hword
      obtain ⟨hc, htextWord⟩ := hword
      have hnone : rest.takeWhile isWordChar = [] ∧ rest.dropWhile isWordChar = rest := by
        cases rest with
        | nil => exact ⟨rfl, rfl⟩
        | cons first others => simp [hrest first others rfl]
      have hquote : c ≠ '"' := by
        rintro rfl
        exact absurd hc (by decide)
      refine ⟨c, text, htext, isSpace_of_isWordChar hc, ?_⟩
      rw [scan, if_neg hquote, if_pos hc, List.takeWhile_append_of_pos htextWord,
        List.dropWhile_append_of_pos htextWord, hnone.1, hnone.2, List.append_nil, hread]
      rfl

/-- **A token is read off the head of its text.** -/
theorem scan_text {token : Token} {rest : List Char} (htoken : token.ReadsBack)
    (hrest : token.isWord = true → EndsWord rest) : token.ScansTo rest := by
  cases token with
  | null => exact scan_word (hrest rfl) (by decide) (by decide)
  | bool value => cases value <;> exact scan_word (hrest rfl) (by decide) (by decide)
  | num number =>
      obtain ⟨hword, hread⟩ := htoken number rfl
      have htext : (Token.num number).text.toList = number.text := String.toList_ofList
      refine scan_word (hrest rfl) ?_ ?_
      · rw [htext]
        exact hword
      · rw [htext]
        exact hread
  | str text =>
      obtain ⟨pieces, hscan, hdecode⟩ := scanPieces_quote text.toList rest
      refine ⟨'"', text.toList.flatMap escape ++ ['"'], String.toList_ofList, by decide, ?_⟩
      rw [scan, if_pos rfl, List.append_assoc, List.singleton_append, hscan]
      change (decodePieces pieces).map _ = _
      rw [hdecode, Option.map_some, String.ofList_toList]
  | _ => exact ⟨_, [], rfl, by decide, rfl⟩

end Token

/-- **That a text is made of tokens**, with blanks between them, and with something other than a word
behind every word. -/
inductive Spells : List Token → List Char → Prop where
  /-- Nothing is left. -/
  | nil : Spells [] []
  /-- A blank. -/
  | space {tokens : List Token} {text : List Char} {c : Char} (hc : isSpace c = true)
      (h : Spells tokens text) : Spells tokens (c :: text)
  /-- A token. -/
  | token {tokens : List Token} {text : List Char} {token : Token} (htoken : token.ReadsBack)
      (hword : token.isWord = true → EndsWord text) (h : Spells tokens text) :
      Spells (token :: tokens) (token.text.toList ++ text)

/-- **A text is read as the tokens that it is made of.** -/
theorem tokens?_of_spells {tokens : List Token} {text : List Char} (h : Spells tokens text) :
    tokens? text = some tokens := by
  induction h with
  | nil => rw [tokens?]
  | space hc h ih => rw [tokens?, if_pos hc, ih]
  | @token tokens text token htoken hword h ih =>
      obtain ⟨c, first, htext, hc, hscan⟩ := Token.scan_text htoken hword
      rw [htext, List.cons_append, tokens?, if_neg (by simp [hc])]
      split
      · next hnone =>
          rw [hscan] at hnone
          cases hnone
      · next found behind hfound =>
          rw [hscan] at hfound
          cases hfound
          rw [ih, Option.map_some]

end Json

end StoreSchema
