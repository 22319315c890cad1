/-
**Values are found again in their text.**

Reading the tokens of a value leads to the value, at whatever depth it stands, provided that there
is room for its nesting.  The one thing that print can say and reading does not keep is a name that
an object repeats: there the last value takes the place of the first.  So a value that repeats no
name is found again in its compact text, as long as its numbers are.

Main definitions:

* `Json.nesting` — the largest number of arrays and objects inside one another;
* `Json.EveryNumber` — what holds of all numbers in a value.

Main results:

* `Json.Stage.run_tokens` — **the tokens of a value lead to the value**;
* `Json.spells_tokens` — the compact text of a value is made of its tokens;
* `Json.parse?_of_spells` — **a text made of the tokens of a value is read as the value**, if the
  value repeats no name;
* `Json.parse?_compact` — so such a value is found again in its compact text.
-/

import StoreSchema.Json.Printer
import StoreSchema.Proofs.Json.Distinct
import StoreSchema.Proofs.Json.Lexing

set_option relaxedAutoImplicit false
set_option autoImplicit false

namespace StoreSchema

namespace Json

/-! ### Nesting and numbers -/

mutual

/-- The largest number of arrays and objects inside one another in a value. -/
def nesting : Json → Nat
  | .null => 0
  | .bool _ => 0
  | .num _ => 0
  | .str _ => 0
  | .arr items => nestingItems items + 1
  | .obj members => nestingMembers members + 1

/-- The same for the items of an array. -/
def nestingItems : List Json → Nat
  | [] => 0
  | item :: rest => max (nesting item) (nestingItems rest)

/-- The same for the values of members. -/
def nestingMembers : List (String × Json) → Nat
  | [] => 0
  | (_, value) :: rest => max (nesting value) (nestingMembers rest)

end

mutual

/-- That a property holds of all numbers in a value. -/
def EveryNumber (P : Number → Prop) : Json → Prop
  | .null => True
  | .bool _ => True
  | .num number => P number
  | .str _ => True
  | .arr items => EveryNumberItems P items
  | .obj members => EveryNumberMembers P members

/-- That it holds of all numbers in the items of an array. -/
def EveryNumberItems (P : Number → Prop) : List Json → Prop
  | [] => True
  | item :: rest => EveryNumber P item ∧ EveryNumberItems P rest

/-- That it holds of all numbers in the values of members. -/
def EveryNumberMembers (P : Number → Prop) : List (String × Json) → Prop
  | [] => True
  | (_, value) :: rest => EveryNumber P value ∧ EveryNumberMembers P rest

end

section

variable {P Q : Number → Prop}

mutual

/-- What follows from a property of numbers holds of all numbers in a value as well. -/
theorem EveryNumber.imp (h : ∀ number, P number → Q number) :
    ∀ {value : Json}, value.EveryNumber P → value.EveryNumber Q
  | .null, _ => trivial
  | .bool _, _ => trivial
  | .num number, hnumber => by
      rw [EveryNumber] at hnumber ⊢
      exact h number hnumber
  | .str _, _ => trivial
  | .arr _, hitems => by
      rw [EveryNumber] at hitems ⊢
      exact EveryNumberItems.imp h hitems
  | .obj _, hmembers => by
      rw [EveryNumber] at hmembers ⊢
      exact EveryNumberMembers.imp h hmembers

theorem EveryNumberItems.imp (h : ∀ number, P number → Q number) :
    ∀ {items : List Json}, EveryNumberItems P items → EveryNumberItems Q items
  | [], _ => trivial
  | _ :: _, hitems => by
      rw [EveryNumberItems] at hitems ⊢
      exact ⟨EveryNumber.imp h hitems.1, EveryNumberItems.imp h hitems.2⟩

theorem EveryNumberMembers.imp (h : ∀ number, P number → Q number) :
    ∀ {members : List (String × Json)}, EveryNumberMembers P members →
      EveryNumberMembers Q members
  | [], _ => trivial
  | (_, _) :: _, hmembers => by
      rw [EveryNumberMembers] at hmembers ⊢
      exact ⟨EveryNumber.imp h hmembers.1, EveryNumberMembers.imp h hmembers.2⟩

end

end

/-! ### From tokens to values -/

namespace Stage

variable {limit : Nat}

/-- The first token of a value does not close an array. -/
theorem exists_tokens_eq_cons (value : Json) :
    ∃ first rest, value.tokens = first :: rest ∧ first ≠ .closeArray := by
  cases value with
  | null => exact ⟨.null, [], by rw [tokens], nofun⟩
  | bool value => exact ⟨.bool value, [], by rw [tokens], nofun⟩
  | num number => exact ⟨.num number, [], by rw [tokens], nofun⟩
  | str text => exact ⟨.str text, [], by rw [tokens], nofun⟩
  | arr items => cases items <;> exact ⟨.openArray, _, by rw [tokens], nofun⟩
  | obj members => cases members <;> exact ⟨.openObject, _, by rw [tokens], nofun⟩

/-- The first item of an array is read as a value is. -/
theorem run_wantsItem (frames : List Frame) (value : Json) (rest : List Token) :
    (wantsItem frames).run limit (value.tokens ++ rest) =
      (wantsValue (.array [] :: frames)).run limit (value.tokens ++ rest) := by
  obtain ⟨first, others, htokens, hfirst⟩ := exists_tokens_eq_cons value
  rw [htokens, List.cons_append, run, run]
  congr 1
  cases first with
  | closeArray => exact absurd rfl hfirst
  | _ => rfl

theorem run_cons_of_step {stage next : Stage} {token : Token}
    (h : stage.step limit token = some next) (rest : List Token) :
    stage.run limit (token :: rest) = next.run limit rest := by
  rw [run, h, Option.bind_some]

mutual

/-- **The tokens of a value lead to the value**, when there is room for its nesting and it repeats
no name. -/
theorem run_tokens : ∀ {value : Json} {frames : List Frame}, Json.Distinct value →
    frames.length + value.nesting ≤ limit → ∀ rest,
      (wantsValue frames).run limit (value.tokens ++ rest) = (complete value frames).run limit rest
  | .null, _, _, _, rest => by rw [tokens]; exact run_cons_of_step rfl rest
  | .bool _, _, _, _, rest => by rw [tokens]; exact run_cons_of_step rfl rest
  | .num _, _, _, _, rest => by rw [tokens]; exact run_cons_of_step rfl rest
  | .str _, _, _, _, rest => by rw [tokens]; exact run_cons_of_step rfl rest
  | .arr items, frames, hdistinct, hroom, rest => by
      rw [nesting] at hroom
      have hopen : (wantsValue frames).step limit .openArray = some (wantsItem frames) :=
        if_pos (by omega)
      cases items with
      | nil =>
          rw [tokens]
          exact (run_cons_of_step hopen _).trans (run_cons_of_step rfl rest)
      | cons item others =>
          rw [Json.Distinct, DistinctItems] at hdistinct
          rw [nestingItems] at hroom
          rw [tokens, List.cons_append, run_cons_of_step hopen, List.append_assoc, List.append_assoc,
            run_wantsItem, run_tokens hdistinct.1 (by rw [List.length_cons]; omega)]
          exact run_itemTokens hdistinct.2 (by omega) rest
  | .obj members, frames, hdistinct, hroom, rest => by
      rw [nesting] at hroom
      have hopen : (wantsValue frames).step limit .openObject = some (wantsFirstName frames) :=
        if_pos (by omega)
      cases members with
      | nil =>
          rw [tokens]
          exact (run_cons_of_step hopen _).trans (run_cons_of_step rfl rest)
      | cons member others =>
          obtain ⟨name, value⟩ := member
          rw [Json.Distinct, DistinctMembers] at hdistinct
          rw [nestingMembers] at hroom
          rw [tokens, List.cons_append, run_cons_of_step hopen, List.cons_append,
            run_cons_of_step rfl, List.cons_append, run_cons_of_step rfl, List.append_assoc,
            List.append_assoc, run_tokens hdistinct.2.1 (by rw [List.length_cons]; omega)]
          exact run_memberTokens hdistinct.1 hdistinct.2.2 (by omega) rest

/-- The tokens of further items lead to the array with these items. -/
theorem run_itemTokens : ∀ {others read : List Json} {item : Json} {frames : List Frame},
    DistinctItems others → frames.length + (nestingItems others + 1) ≤ limit → ∀ rest,
      (complete item (.array read :: frames)).run limit
          (itemTokens others ++ ([.closeArray] ++ rest)) =
        (complete (.arr ((item :: read).reverse ++ others)) frames).run limit rest
  | [], _, _, _, _, _, rest => by
      rw [itemTokens, List.append_nil]
      exact run_cons_of_step rfl rest
  | next :: others, read, item, frames, hdistinct, hroom, rest => by
      rw [DistinctItems] at hdistinct
      rw [nestingItems] at hroom
      rw [itemTokens, List.cons_append, run_cons_of_step rfl, List.append_assoc,
        run_tokens hdistinct.1 (by rw [List.length_cons]; omega),
        run_itemTokens hdistinct.2 (by omega) rest, List.reverse_cons, List.append_assoc,
        List.singleton_append]

/-- The tokens of further members lead to the object with these members. -/
theorem run_memberTokens : ∀ {others read : Members} {name : String} {value : Json}
    {frames : List Frame}, (Entries.keys (read ++ (name, value) :: others)).Nodup →
      DistinctMembers others → frames.length + (nestingMembers others + 1) ≤ limit → ∀ rest,
      (complete value (.object read name :: frames)).run limit
          (memberTokens others ++ ([.closeObject] ++ rest)) =
        (complete (.obj (read ++ (name, value) :: others)) frames).run limit rest
  | [], read, name, value, _, hnames, _, _, rest => by
      have hread : Entries.insert read name value = read ++ [(name, value)] :=
        Entries.insert_of_nodup hnames
      rw [memberTokens, ← hread]
      exact run_cons_of_step rfl rest
  | (next, following) :: others, read, name, value, frames, hnames, hdistinct, hroom, rest => by
      rw [DistinctMembers] at hdistinct
      rw [nestingMembers] at hroom
      have hsplit : read ++ (name, value) :: (next, following) :: others =
          (read ++ [(name, value)]) ++ (next, following) :: others := by
        rw [List.append_assoc, List.singleton_append]
      have hread : Entries.insert read name value = read ++ [(name, value)] :=
        Entries.insert_of_nodup hnames
      rw [hsplit] at hnames ⊢
      rw [memberTokens, List.cons_append, run_cons_of_step rfl, List.cons_append,
        run_cons_of_step rfl, List.cons_append, run_cons_of_step rfl, List.append_assoc,
        run_tokens hdistinct.1 (by rw [List.length_cons]; omega), hread]
      exact run_memberTokens hnames hdistinct.2 (by omega) rest

end

end Stage

/-! ### From text to tokens -/

/-- Tokens in print, with nothing between them. -/
def spelled (tokens : List Token) : List Char := tokens.flatMap fun token => token.text.toList

theorem toList_compact (value : Json) : value.compact.toList = spelled value.tokens := by
  rw [compact, String.toList_join, List.flatMap_map, spelled]

/-- A mark of punctuation may be followed by anything. -/
theorem Spells.mark {tokens : List Token} {text : List Char} (h : Spells tokens text)
    (token : Token) (hmark : token.isWord = false) :
    Spells (token :: tokens) (spelled [token] ++ text) := by
  have hspelled : spelled [token] = token.text.toList := List.append_nil _
  rw [hspelled]
  refine .token ?_ (fun hword => ?_) h
  · rintro number rfl
    cases hmark
  · rw [hmark] at hword
    cases hword

/-- A word is followed by something else. -/
theorem Spells.word {tokens : List Token} {text : List Char} (h : Spells tokens text)
    (htext : EndsWord text) {token : Token} (htoken : token.ReadsBack) :
    Spells (token :: tokens) (spelled [token] ++ text) := by
  have hspelled : spelled [token] = token.text.toList := List.append_nil _
  rw [hspelled]
  exact .token htoken (fun _ => htext) h

mutual

/-- **The compact text of a value is made of its tokens**, when its numbers are found again. -/
theorem spells_tokens : ∀ {value : Json}, value.EveryNumber Number.ReadsBack →
    ∀ {tokens : List Token} {text : List Char}, EndsWord text → Spells tokens text →
      Spells (value.tokens ++ tokens) (spelled value.tokens ++ text)
  | .null, _, _, _, htext, h => by
      rw [Json.tokens]
      exact h.word htext fun _ hnumber => nomatch hnumber
  | .bool value, _, _, _, htext, h => by
      rw [Json.tokens]
      exact h.word htext fun _ hnumber => nomatch hnumber
  | .num number, hnumber, _, _, htext, h => by
      rw [EveryNumber] at hnumber
      rw [Json.tokens]
      refine h.word htext fun other hother => ?_
      cases hother
      exact hnumber
  | .str _, _, _, _, _, h => by
      rw [Json.tokens]
      exact h.mark _ rfl
  | .arr [], _, _, _, _, h => by
      rw [Json.tokens]
      exact (h.mark .closeArray rfl).mark .openArray rfl
  | .arr (item :: others), hnumbers, tokens, text, _, h => by
      rw [EveryNumber, EveryNumberItems] at hnumbers
      have hclose : EndsWord (spelled [.closeArray] ++ text) := endsWord_cons (c := ']') (by decide) _
      obtain ⟨hitems, hends⟩ := spells_itemTokens hnumbers.2 hclose (h.mark .closeArray rfl)
      have hopen := (spells_tokens hnumbers.1 hends hitems).mark .openArray rfl
      rw [Json.tokens]
      simpa [spelled] using hopen
  | .obj [], _, _, _, _, h => by
      rw [Json.tokens]
      exact (h.mark .closeObject rfl).mark .openObject rfl
  | .obj ((name, value) :: others), hnumbers, tokens, text, _, h => by
      rw [EveryNumber, EveryNumberMembers] at hnumbers
      have hclose : EndsWord (spelled [.closeObject] ++ text) :=
        endsWord_cons (c := '\x7d') (by decide) _
      obtain ⟨hmembers, hends⟩ := spells_memberTokens hnumbers.2 hclose (h.mark .closeObject rfl)
      have hvalue := spells_tokens hnumbers.1 hends hmembers
      have hopen := ((hvalue.mark .colon rfl).mark (.str name) rfl).mark .openObject rfl
      rw [Json.tokens]
      simpa [spelled] using hopen

/-- So is the text of further items. -/
theorem spells_itemTokens : ∀ {others : List Json}, EveryNumberItems Number.ReadsBack others →
    ∀ {tokens : List Token} {text : List Char}, EndsWord text → Spells tokens text →
      Spells (itemTokens others ++ tokens) (spelled (itemTokens others) ++ text) ∧
        EndsWord (spelled (itemTokens others) ++ text)
  | [], _, _, _, htext, h => by
      rw [itemTokens]
      exact ⟨h, htext⟩
  | item :: others, hnumbers, tokens, text, htext, h => by
      rw [EveryNumberItems] at hnumbers
      obtain ⟨hothers, hends⟩ := spells_itemTokens hnumbers.2 htext h
      have hcomma := (spells_tokens hnumbers.1 hends hothers).mark .comma rfl
      rw [itemTokens]
      exact ⟨by simpa [spelled] using hcomma, endsWord_cons (by decide) _⟩

/-- So is the text of further members. -/
theorem spells_memberTokens : ∀ {others : Members}, EveryNumberMembers Number.ReadsBack others →
    ∀ {tokens : List Token} {text : List Char}, EndsWord text → Spells tokens text →
      Spells (memberTokens others ++ tokens) (spelled (memberTokens others) ++ text) ∧
        EndsWord (spelled (memberTokens others) ++ text)
  | [], _, _, _, htext, h => by
      rw [memberTokens]
      exact ⟨h, htext⟩
  | (name, value) :: others, hnumbers, tokens, text, htext, h => by
      rw [EveryNumberMembers] at hnumbers
      obtain ⟨hothers, hends⟩ := spells_memberTokens hnumbers.2 htext h
      have hvalue := spells_tokens hnumbers.1 hends hothers
      have hcomma := ((hvalue.mark .colon rfl).mark (.str name) rfl).mark .comma rfl
      rw [memberTokens]
      exact ⟨by simpa [spelled] using hcomma, endsWord_cons (by decide) _⟩

end

theorem spells_compact {value : Json} (hnumbers : value.EveryNumber Number.ReadsBack) :
    Spells value.tokens value.compact.toList := by
  have hspells := spells_tokens hnumbers endsWord_nil .nil
  rwa [List.append_nil, List.append_nil, ← toList_compact] at hspells

/-- The text of a value is read as its tokens, when its numbers are found again. -/
theorem tokens?_compact {value : Json} (hnumbers : value.EveryNumber Number.ReadsBack) :
    tokens? value.compact.toList = some value.tokens :=
  tokens?_of_spells (spells_compact hnumbers)

/-- **A text that is made of the tokens of a value is read as the value**, when the value repeats no
name and there is room for its nesting. -/
theorem parse?_of_spells {value : Json} {text : List Char} {limit : Nat}
    (h : Spells value.tokens text) (hdistinct : value.Distinct) (hroom : value.nesting ≤ limit) :
    parse? limit text = some value := by
  have hrun : (Stage.wantsValue []).run limit (value.tokens ++ []) =
      (Stage.complete value []).run limit [] := Stage.run_tokens hdistinct (by simpa using hroom) []
  rw [List.append_nil] at hrun
  rw [parse?, tokens?_of_spells h, Option.bind_some, hrun]
  rfl

/-- **A value that repeats no name is found again in its text**, when its numbers are and there is
room for its nesting. -/
theorem parse?_compact {value : Json} {limit : Nat} (hdistinct : value.Distinct)
    (hnumbers : value.EveryNumber Number.ReadsBack) (hroom : value.nesting ≤ limit) :
    parse? limit value.compact.toList = some value :=
  parse?_of_spells (spells_compact hnumbers) hdistinct hroom

end Json

end StoreSchema
