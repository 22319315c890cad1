/-
**The same document as text, as bytes and as a string.**

A document may be given as text, as the bytes of that text, or as a string value.  The first and the
last are read alike.  Bytes are decoded and read alike too, but before that it is asked whether
anything is there at all, and the question is put twice: of a text it is asked whether all of its
characters are blank, of bytes whether they are blanks of ASCII.  The vertical tabulator, the
no-break space and their like are blank without being blanks of ASCII, and none of them may stand
between tokens.  So a text of blanks with such a character among them is no document when it is
given as text, and no JSON when it is given as bytes; every other text is treated alike.

Main definitions:

* `Text.isAsciiBlank` — whether a character is a blank of ASCII;
* `Text.BlankBeyondAscii` — that a text holds blanks only, and not only those of ASCII.

Main results:

* `Source.parseBytes?_toUTF8`, `Source.all_isBlankByte_toUTF8` — the bytes of a text are decoded to
  the text, and are blank when the text holds blanks of ASCII only;
* `Json.parse?_of_allBlank` — blanks are no JSON;
* `compile_forms_agree_iff` — **the forms of a document are treated alike exactly where its text is
  not blank beyond ASCII**.
-/

import StoreSchema.Compile

set_option relaxedAutoImplicit false
set_option autoImplicit false

namespace StoreSchema

/-! ### Blanks of ASCII -/

namespace Text

/-- The code points of the blanks of ASCII: the tabulator, the line feed, the form feed, the
carriage return and the space. -/
def asciiBlanks : List Nat := [0x9, 0xA, 0xC, 0xD, 0x20]

/-- Whether the character is a blank of ASCII. -/
def isAsciiBlank (c : Char) : Bool := asciiBlanks.contains c.toNat

/-- That a text holds blank characters only, and not only blanks of ASCII. -/
def BlankBeyondAscii (text : List Char) : Prop :=
  allBlank text = true ∧ text.all isAsciiBlank = false

/-- The blanks of ASCII are blank. -/
theorem isBlank_of_isAsciiBlank {c : Char} (h : isAsciiBlank c = true) : isBlank c = true := by
  simp only [isAsciiBlank, asciiBlanks, List.contains_iff_mem, List.mem_cons, List.not_mem_nil,
    or_false] at h
  rcases h with h | h | h | h | h <;> simp [isBlank, blankRanges, h]

theorem allBlank_of_all_isAsciiBlank {text : List Char} (h : text.all isAsciiBlank = true) :
    allBlank text = true := by
  rw [allBlank, List.all_eq_true]
  intro c hc
  exact isBlank_of_isAsciiBlank (List.all_eq_true.1 h c hc)

end Text

namespace Source

/-! ### Bytes of a text -/

theorem isBlankByte_eq (byte : UInt8) :
    isBlankByte byte = Text.asciiBlanks.contains byte.toNat := by
  rw [Bool.eq_iff_iff]
  simp only [isBlankByte, Text.asciiBlanks, Bool.or_eq_true, beq_iff_eq, ← UInt8.toNat_inj,
    List.contains_iff_mem, List.mem_cons, List.not_mem_nil, or_false]
  simp only [UInt8.reduceToNat]
  omega

/-- A byte with a bit above those of ASCII is no blank. -/
theorem isBlankByte_or {byte mark : UInt8} (h : 0x80 ≤ mark.toNat) :
    isBlankByte (byte ||| mark) = false := by
  have hle : mark.toNat ≤ byte.toNat ||| mark.toNat := Nat.right_le_or
  rw [Bool.eq_false_iff, ne_eq, isBlankByte_eq, UInt8.toNat_or]
  simp only [Text.asciiBlanks, List.contains_iff_mem, List.mem_cons, List.not_mem_nil, or_false]
  omega

/-- The bytes of a character are blank when the character is a blank of ASCII. -/
theorem all_isBlankByte_utf8EncodeChar (c : Char) :
    (String.utf8EncodeChar c).all isBlankByte = Text.isAsciiBlank c := by
  have hval : c.val.toNat = c.toNat := rfl
  by_cases hsize : c.utf8Size = 1
  · have hle := UInt32.le_iff_toNat_le.1 (Char.utf8Size_eq_one_iff.1 hsize)
    have hle : c.toNat ≤ 127 := hle
    have hbyte : c.val.toUInt8.toNat = c.toNat := by
      rw [UInt32.toNat_toUInt8, hval]
      omega
    rw [String.utf8EncodeChar_eq_singleton hsize, List.all_cons, List.all_nil, Bool.and_true,
      isBlankByte_eq, hbyte, Text.isAsciiBlank]
  · -- a longer code starts with a byte above ASCII, and so does the character lie there
    have hlt : ¬c.toNat ≤ 127 := by
      intro hle
      exact hsize (Char.utf8Size_eq_one_iff.2 (UInt32.le_iff_toNat_le.2 hle))
    have hchar : Text.isAsciiBlank c = false := by
      rw [Bool.eq_false_iff]
      simp only [Text.isAsciiBlank, Text.asciiBlanks, ne_eq, List.contains_iff_mem, List.mem_cons,
        List.not_mem_nil, or_false]
      omega
    rw [hchar]
    rcases Char.utf8Size_eq c with h | h | h | h
    · exact absurd h hsize
    · rw [String.utf8EncodeChar_eq_cons_cons h, List.all_cons, isBlankByte_or (by decide)]
      rfl
    · rw [String.utf8EncodeChar_eq_cons_cons_cons h, List.all_cons, isBlankByte_or (by decide)]
      rfl
    · rw [String.utf8EncodeChar_eq_cons_cons_cons_cons h, List.all_cons,
        isBlankByte_or (by decide)]
      rfl

/-- What is read of a byte array from a place on is what stands there. -/
theorem toList_loop (bytes : ByteArray) (start : Nat) (read : List UInt8) :
    ByteArray.toList.loop bytes start read = read.reverse ++ bytes.data.toList.drop start := by
  rw [ByteArray.toList.loop]
  split
  · next hstart =>
      have hlength : start < bytes.data.toList.length := hstart
      have hget : bytes.get! start = bytes.data.toList[start] := by
        simp [ByteArray.get!, getElem!_pos bytes.data start hstart]
      rw [toList_loop bytes (start + 1), List.reverse_cons, List.append_assoc,
        List.singleton_append, hget, ← List.drop_eq_getElem_cons hlength]
  · next hstart =>
      have hlength : bytes.data.toList.length ≤ start := Nat.le_of_not_lt hstart
      rw [List.drop_eq_nil_of_le hlength, List.append_nil]
termination_by bytes.size - start

/-- The bytes of a text are those of its characters. -/
theorem toList_toUTF8 (text : String) :
    text.toUTF8.toList = text.toList.flatMap String.utf8EncodeChar := by
  have hloop := toList_loop text.toUTF8 0 []
  rw [List.reverse_nil, List.nil_append, List.drop_zero] at hloop
  rw [ByteArray.toList, hloop]
  have hbytes : text.toUTF8 = text.toList.utf8Encode := by
    rw [← String.toByteArray_ofList, String.ofList_toList, String.toUTF8]
  rw [hbytes, List.utf8Encode, List.toList_data_toByteArray]

/-- **The bytes of a text are blank when the text holds blanks of ASCII only.** -/
theorem all_isBlankByte_toUTF8 (text : String) :
    text.toUTF8.toList.all isBlankByte = text.toList.all Text.isAsciiBlank := by
  rw [toList_toUTF8, List.all_flatMap]
  simp only [all_isBlankByte_utf8EncodeChar]

/-- **The bytes of a text are decoded to the text.** -/
theorem parseBytes?_toUTF8 (text : String) :
    parseBytes? text.toUTF8 = Json.parse? Json.nestingLimit text.toList := by
  have hvalid : text.toUTF8.IsValidUTF8 := text.isValidUTF8
  have hdecode : String.fromUTF8? text.toUTF8 = some text := by
    rw [String.fromUTF8?, dif_pos hvalid]
    rfl
  rw [parseBytes?, hdecode, Option.bind_some]

end Source

/-! ### Texts of blanks -/

namespace Json

/-- Where the code point of a blank lies. -/
theorem toNat_of_isBlank {c : Char} (h : Text.isBlank c = true) :
    c.toNat ≤ 0x20 ∨ 0x85 ≤ c.toNat := by
  simp only [Text.isBlank, Text.blankRanges, List.any_cons, List.any_nil, Bool.or_eq_true,
    Bool.and_eq_true, decide_eq_true_eq, Bool.or_false] at h
  omega

/-- A blank starts no token. -/
theorem scan_of_isBlank {c : Char} (h : Text.isBlank c = true) (rest : List Char) :
    Token.scan c rest = none := by
  have hrange := toNat_of_isBlank h
  have hne {other : Char} (hother : 0x20 < other.toNat ∧ other.toNat < 0x85) : c ≠ other := by
    rintro rfl
    omega
  have hval : c.val.toNat = c.toNat := rfl
  have hletter : c.isAlphanum = false := by
    delta Char.isAlphanum Char.isAlpha Char.isUpper Char.isLower Char.isDigit
    simp only [ge_iff_le, UInt32.le_iff_toNat_le, hval, Bool.or_eq_false_iff,
      Bool.and_eq_false_iff, decide_eq_false_iff_not]
    simp only [Char.reduceVal, UInt32.reduceToNat]
    omega
  have hword : Token.isWordChar c = false := by simp [Token.isWordChar, hletter, hne]
  rw [Token.scan, if_neg (hne (by decide)), hword]
  simp [Token.punctuation?, hne]

/-- A text of blanks has no tokens, if it is made of tokens at all. -/
theorem tokens?_of_allBlank {text : List Char} (h : Text.allBlank text = true) :
    tokens? text = none ∨ tokens? text = some [] := by
  rw [Text.allBlank] at h
  fun_induction tokens? text with
  | case1 => exact .inr rfl
  | case2 c rest hspace ih =>
      rw [List.all_cons, Bool.and_eq_true] at h
      exact ih h.2
  | case3 => exact .inl rfl
  | case4 c rest hspace token behind hscan =>
      rw [List.all_cons, Bool.and_eq_true] at h
      rw [scan_of_isBlank h.1] at hscan
      cases hscan

/-- **Blanks are no JSON**, be they of ASCII or beyond. -/
theorem parse?_of_allBlank {text : List Char} (h : Text.allBlank text = true) (limit : Nat) :
    parse? limit text = none := by
  rw [parse?]
  rcases tokens?_of_allBlank h with htokens | htokens <;> rw [htokens] <;> rfl

end Json

/-! ### The forms of a document -/

namespace Source

variable {content : String}

theorem normalize_of_read_error {source : Source} {cause : CompileError}
    (h : source.read = .error cause) : source.normalize = .error cause := by
  rw [normalize, h]
  rfl

/-- **A text that is blank beyond ASCII is no document when it is given as text, and no JSON when it
is given as bytes.** -/
theorem normalize_of_blankBeyondAscii (h : Text.BlankBeyondAscii content.toList) :
    (text content).normalize = .error .missingSpec ∧
      (bytes content.toUTF8).normalize = .error .invalidJson := by
  have htext : (text content).read = .error .missingSpec := by
    rw [read, readText, if_pos h.1]
  have hbytes : (bytes content.toUTF8).read = .error .invalidJson := by
    rw [read, readBytes, all_isBlankByte_toUTF8, h.2, parseBytes?_toUTF8,
      Json.parse?_of_allBlank h.1]
    rfl
  exact ⟨normalize_of_read_error htext, normalize_of_read_error hbytes⟩

/-- Any other text is read alike as text and as bytes. -/
theorem read_bytes_eq (h : ¬Text.BlankBeyondAscii content.toList) :
    (bytes content.toUTF8).read = (text content).read := by
  change readBytes content.toUTF8 = readText content
  rw [readBytes, all_isBlankByte_toUTF8, parseBytes?_toUTF8, readText]
  cases hascii : content.toList.all Text.isAsciiBlank with
  | true => rw [Text.allBlank_of_all_isAsciiBlank hascii]
  | false =>
      have hblank : Text.allBlank content.toList = false := by
        rw [Bool.eq_false_iff]
        intro hblank
        exact h ⟨hblank, hascii⟩
      rw [hblank]

end Source

/-- Documents that are normalized alike compile alike. -/
theorem compile_congr {source source' : Source} (h : source.normalize = source'.normalize)
    (options : Options) : compile source options = compile source' options := by
  rw [compile, compile, h]

theorem compile_of_normalize_error {source : Source} {cause : CompileError}
    (h : source.normalize = .error cause) (options : Options) :
    compile source options = .error cause := by
  rw [compile, h]
  rfl

/-- **The forms of a document are treated alike exactly where its text is not blank beyond ASCII.**
A string value is normalized and compiled as its text is; so are the bytes of a text, unless the
text holds blanks only and not only those of ASCII.  Then there is no document when it is given as
text, and no JSON when it is given as bytes, and the exit status is another one. -/
theorem compile_forms_agree_iff (content : String) :
    (Source.parsed (.str content)).normalize = (Source.text content).normalize ∧
      ((Source.bytes content.toUTF8).normalize = (Source.text content).normalize ↔
        ¬Text.BlankBeyondAscii content.toList) ∧
      (∀ options,
        compile (.parsed (.str content)) options = compile (.text content) options ∧
        (compile (.bytes content.toUTF8) options = compile (.text content) options ↔
          ¬Text.BlankBeyondAscii content.toList)) ∧
      (Text.BlankBeyondAscii content.toList → ∀ options,
        compile (.text content) options = .error .missingSpec ∧
        compile (.bytes content.toUTF8) options = .error .invalidJson ∧
        CompileError.missingSpec.exitCode ≠ CompileError.invalidJson.exitCode) := by
  have hvalue : (Source.parsed (.str content)).normalize = (Source.text content).normalize := rfl
  have hbeyond (h : Text.BlankBeyondAscii content.toList) (options : Options) :
      compile (.text content) options = .error .missingSpec ∧
        compile (.bytes content.toUTF8) options = .error .invalidJson := by
    obtain ⟨htext, hbytes⟩ := Source.normalize_of_blankBeyondAscii h
    exact ⟨compile_of_normalize_error htext options, compile_of_normalize_error hbytes options⟩
  have halike (h : ¬Text.BlankBeyondAscii content.toList) :
      (Source.bytes content.toUTF8).normalize = (Source.text content).normalize := by
    rw [Source.normalize, Source.normalize, Source.read_bytes_eq h]
  refine ⟨hvalue, ⟨?_, halike⟩, ?_, ?_⟩
  · intro hsame h
    obtain ⟨htext, hbytes⟩ := Source.normalize_of_blankBeyondAscii h
    rw [htext, hbytes] at hsame
    cases hsame
  · intro options
    refine ⟨compile_congr hvalue options, ?_, fun h => compile_congr (halike h) options⟩
    intro hsame h
    obtain ⟨htext, hbytes⟩ := hbeyond h options
    rw [htext, hbytes] at hsame
    cases hsame
  · intro h options
    obtain ⟨htext, hbytes⟩ := hbeyond h options
    exact ⟨htext, hbytes, by decide⟩

/-- A no-break space is no document when it is given as text, and no JSON when it is given as
bytes. -/
theorem noBreakSpace_forms_differ :
    compile (.text "\u00a0") {} = .error .missingSpec ∧
      compile (.bytes "\u00a0".toUTF8) {} = .error .invalidJson ∧
      CompileError.missingSpec.exitCode = 3 ∧ CompileError.invalidJson.exitCode = 2 := by
  have hbeyond : Text.BlankBeyondAscii "\u00a0".toList := ⟨by decide, by decide⟩
  obtain ⟨htext, hbytes⟩ := Source.normalize_of_blankBeyondAscii hbeyond
  exact ⟨compile_of_normalize_error htext {}, compile_of_normalize_error hbytes {}, rfl, rfl⟩

end StoreSchema
