/-
**Values are found again in their text on lines.**

On indented lines a value has the same tokens as in compact print; what stands between them are the
blanks of the indentation and the blank behind a colon.  Blanks may stand between any two tokens,
and a line break ends a word.  So either print is read as the value, also with blanks around it.

Main definitions:

* `Json.Blank` — that a text holds blanks only, of those that may stand between tokens;
* `Json.WrittenAs` — **that a text is a print of a value**, compact or on lines, between blanks.

Main results:

* `Json.spells_layout` — **the text of a value on lines is made of its tokens**;
* `Json.WrittenAs.spells` — and so is every print of it;
* `Json.WrittenAs.parse?_eq` — **every print of a value is read as the value**.
-/

import StoreSchema.Proofs.Json.Readback

set_option relaxedAutoImplicit false
set_option autoImplicit false

namespace StoreSchema.Json

/-! ### Blanks -/

/-- That a text holds blanks only, of those that may stand between tokens. -/
def Blank (text : List Char) : Prop := ∀ c ∈ text, isSpace c = true

theorem blank_indentation (depth : Nat) : Blank (indentation depth).toList := by
  intro c hc
  rw [indentation, String.toList_ofList, List.mem_cons, List.mem_replicate] at hc
  rcases hc with rfl | ⟨_, rfl⟩ <;> decide

/-- No word goes on with a blank. -/
theorem endsWord_of_blank {blanks text : List Char} (h : Blank blanks) (htext : EndsWord text) :
    EndsWord (blanks ++ text) := by
  cases blanks with
  | nil => exact htext
  | cons c rest =>
      refine endsWord_cons ?_ _
      rw [Bool.eq_false_iff]
      intro hword
      have hspace := h c (List.mem_cons_self ..)
      rw [Token.isSpace_of_isWordChar hword] at hspace
      cases hspace

/-- Blanks may stand before every token, and at the end. -/
theorem Spells.blanks {tokens : List Token} {blanks text : List Char} (hblanks : Blank blanks)
    (h : Spells tokens text) : Spells tokens (blanks ++ text) := by
  induction blanks with
  | nil => exact h
  | cons c rest ih =>
      rw [Blank, List.forall_mem_cons] at hblanks
      exact .space hblanks.1 (ih hblanks.2)

/-! ### Lines -/

/-- A line starts with something that is no word. -/
theorem endsWord_indentation (depth : Nat) (text : List Char) :
    EndsWord ((indentation depth).toList ++ text) := by
  rw [indentation, String.toList_ofList]
  exact endsWord_cons (by decide) _

mutual

/-- **The text of a value on indented lines is made of its tokens**, when its numbers are found
again. -/
theorem spells_layout : ∀ {value : Json}, value.EveryNumber Number.ReadsBack → ∀ (depth : Nat)
    {tokens : List Token} {text : List Char}, EndsWord text → Spells tokens text →
      Spells (value.tokens ++ tokens) ((value.layout depth).toList ++ text)
  | .null, _, _, _, _, htext, h => by
      rw [Json.tokens, layout]
      exact .token (fun _ hnumber => nomatch hnumber) (fun _ => htext) h
  | .bool _, _, _, _, _, htext, h => by
      rw [Json.tokens, layout]
      exact .token (fun _ hnumber => nomatch hnumber) (fun _ => htext) h
  | .num number, hnumber, _, _, _, htext, h => by
      rw [EveryNumber] at hnumber
      rw [Json.tokens, layout]
      refine .token (fun other hother => ?_) (fun _ => htext) h
      cases hother
      exact hnumber
  | .str _, _, _, _, _, _, h => by
      rw [Json.tokens, layout]
      exact .token (fun _ hnumber => nomatch hnumber) (fun hword => nomatch hword) h
  | .arr [], _, _, _, _, _, h => by
      rw [Json.tokens, layout]
      exact (h.mark .closeArray rfl).mark .openArray rfl
  | .arr (item :: others), hnumbers, depth, tokens, text, _, h => by
      rw [EveryNumber, EveryNumberItems] at hnumbers
      have hclose := (h.mark .closeArray rfl).blanks (blank_indentation depth)
      have hitems := spells_layoutItems hnumbers.2 (depth + 1) (endsWord_indentation depth _) hclose
      have hitem := spells_layout hnumbers.1 (depth + 1) hitems.2 hitems.1
      have hopen := (hitem.blanks (blank_indentation (depth + 1))).mark .openArray rfl
      rw [Json.tokens, layout]
      simpa [spelled, Token.text] using hopen
  | .obj [], _, _, _, _, _, h => by
      rw [Json.tokens, layout]
      exact (h.mark .closeObject rfl).mark .openObject rfl
  | .obj ((name, value) :: others), hnumbers, depth, tokens, text, _, h => by
      rw [EveryNumber, EveryNumberMembers] at hnumbers
      have hclose := (h.mark .closeObject rfl).blanks (blank_indentation depth)
      have hmembers :=
        spells_layoutMembers hnumbers.2 (depth + 1) (endsWord_indentation depth _) hclose
      have hvalue := spells_layout hnumbers.1 (depth + 1) hmembers.2 hmembers.1
      have hspace := Spells.space (c := ' ') (by decide) hvalue
      have hname := (hspace.mark .colon rfl).mark (.str name) rfl
      have hopen := (hname.blanks (blank_indentation (depth + 1))).mark .openObject rfl
      rw [Json.tokens, layout]
      simpa [spelled, Token.text] using hopen

/-- So is the text of further items. -/
theorem spells_layoutItems : ∀ {others : List Json}, EveryNumberItems Number.ReadsBack others →
    ∀ (depth : Nat) {tokens : List Token} {text : List Char}, EndsWord text → Spells tokens text →
      Spells (itemTokens others ++ tokens) ((layoutItems depth others).toList ++ text) ∧
        EndsWord ((layoutItems depth others).toList ++ text)
  | [], _, _, _, _, htext, h => by
      rw [itemTokens, layoutItems]
      exact ⟨h, htext⟩
  | item :: others, hnumbers, depth, tokens, text, htext, h => by
      rw [EveryNumberItems] at hnumbers
      obtain ⟨hothers, hends⟩ := spells_layoutItems hnumbers.2 depth htext h
      have hitem := (spells_layout hnumbers.1 depth hends hothers).blanks (blank_indentation depth)
      have hcomma := hitem.mark .comma rfl
      rw [itemTokens, layoutItems]
      refine ⟨by simpa [spelled, Token.text] using hcomma, ?_⟩
      simpa using endsWord_cons (c := ',') (by decide) _

/-- So is the text of further members. -/
theorem spells_layoutMembers : ∀ {others : Members}, EveryNumberMembers Number.ReadsBack others →
    ∀ (depth : Nat) {tokens : List Token} {text : List Char}, EndsWord text → Spells tokens text →
      Spells (memberTokens others ++ tokens) ((layoutMembers depth others).toList ++ text) ∧
        EndsWord ((layoutMembers depth others).toList ++ text)
  | [], _, _, _, _, htext, h => by
      rw [memberTokens, layoutMembers]
      exact ⟨h, htext⟩
  | (name, value) :: others, hnumbers, depth, tokens, text, htext, h => by
      rw [EveryNumberMembers] at hnumbers
      obtain ⟨hothers, hends⟩ := spells_layoutMembers hnumbers.2 depth htext h
      have hvalue := spells_layout hnumbers.1 depth hends hothers
      have hspace := Spells.space (c := ' ') (by decide) hvalue
      have hname := (hspace.mark .colon rfl).mark (.str name) rfl
      have hcomma := (hname.blanks (blank_indentation depth)).mark .comma rfl
      rw [memberTokens, layoutMembers]
      refine ⟨by simpa [spelled, Token.text] using hcomma, ?_⟩
      simpa using endsWord_cons (c := ',') (by decide) _

end

/-! ### Prints of a value -/

/-- **That a text is a print of a value**, compact or on indented lines, with blanks around it. -/
def WrittenAs (value : Json) (text : List Char) : Prop :=
  ∃ before after, Blank before ∧ Blank after ∧
    (text = before ++ (value.compact.toList ++ after) ∨
      text = before ++ (value.pretty.toList ++ after))

namespace WrittenAs

variable {value : Json} {text : List Char}

/-- **Every print of a value is made of its tokens**, when its numbers are found again. -/
theorem spells (h : value.WrittenAs text) (hnumbers : value.EveryNumber Number.ReadsBack) :
    Spells value.tokens text := by
  obtain ⟨before, after, hbefore, hafter, h⟩ := h
  have hend : Spells [] after := by
    have hblanks := Spells.nil.blanks hafter
    rwa [List.append_nil] at hblanks
  have hends : EndsWord after := by
    have hblanks := endsWord_of_blank hafter endsWord_nil
    rwa [List.append_nil] at hblanks
  rcases h with rfl | rfl
  · have hvalue := spells_tokens hnumbers hends hend
    rw [List.append_nil, ← toList_compact] at hvalue
    exact hvalue.blanks hbefore
  · have hvalue := spells_layout hnumbers 0 hends hend
    rw [List.append_nil] at hvalue
    exact hvalue.blanks hbefore

/-- **Every print of a value is read as the value**, when the value repeats no name, its numbers are
found again and there is room for its nesting. -/
theorem parse?_eq {limit : Nat} (h : value.WrittenAs text)
    (hnumbers : value.EveryNumber Number.ReadsBack) (hdistinct : value.Distinct)
    (hroom : value.nesting ≤ limit) : parse? limit text = some value :=
  parse?_of_spells (h.spells hnumbers) hdistinct hroom

end WrittenAs

end StoreSchema.Json
