/-
**The steps of a pointer.**

A pointer in the sense of the standard is empty, or starts with a slash; the texts between its
slashes are its steps, in which `~0` stands for a tilde and `~1` for a slash, and no other tilde may
stand.  This module reads pointers that way and shows that whatever is written with escapes is read
back, so that different names have different pointers.  A step that is written as it is, is read
back too, as long as it holds neither a tilde nor a slash.

Main definitions:

* `Pointer.Plain` — that a name holds neither;
* `Pointer.unescape?`, `Pointer.steps?` — the name that a step stands for, and the steps of a
  pointer;
* `Pointer.below`, `Pointer.ofSteps` — the place that steps lead to, written as they are, and the
  pointer to it.

Main results:

* `Pointer.unescape?_escape` — **a name is read back from its step**;
* `Pointer.escape_eq_self_iff` — the names that are written as they are;
* `Pointer.steps?_ofSteps` — **steps are read back from their pointer**;
* `Pointer.below_eq_ofSteps_iff` — a place below a definition is the pointer to what stands there
  exactly when all steps are plain.
-/

import StoreSchema.Pointer
import StoreSchema.Text.Segments

set_option relaxedAutoImplicit false
set_option autoImplicit false

namespace StoreSchema.Pointer

/-! ### Escapes -/

/-- That a name holds neither a tilde nor a slash. -/
def Plain (name : String) : Prop := '~' ∉ name.toList ∧ '/' ∉ name.toList

instance (name : String) : Decidable (Plain name) := inferInstanceAs (Decidable (_ ∧ _))

/-- The characters that a step stands for; nothing when one of its tildes starts no escape. -/
def unescapeChars? : List Char → Option (List Char)
  | [] => some []
  | c :: rest =>
      if c = '~' then
        match rest with
        | '0' :: rest => (unescapeChars? rest).map ('~' :: ·)
        | '1' :: rest => (unescapeChars? rest).map ('/' :: ·)
        | _ => none
      else (unescapeChars? rest).map (c :: ·)

/-- **The name that a step stands for.** -/
def unescape? (step : String) : Option String := (unescapeChars? step.toList).map String.ofList

theorem unescapeChars?_escapeChar (c : Char) (rest : List Char) :
    unescapeChars? (escapeChar c ++ rest) = (unescapeChars? rest).map (c :: ·) := by
  rw [escapeChar]
  split
  · next hc => simp [unescapeChars?, hc]
  · split
    · next hc => simp [unescapeChars?, hc]
    · next htilde _ =>
        rw [List.singleton_append, unescapeChars?.eq_def]
        exact if_neg htilde

/-- **A name is read back from its step.** -/
theorem unescape?_escape (name : String) : unescape? (escape name) = some name := by
  have hchars (text : List Char) : unescapeChars? (text.flatMap escapeChar) = some text := by
    induction text with
    | nil => rfl
    | cons c text ih => rw [List.flatMap_cons, unescapeChars?_escapeChar, ih, Option.map_some]
  rw [unescape?, escape, String.toList_ofList, hchars, Option.map_some, String.ofList_toList]

/-- There is no slash in a step. -/
theorem slash_not_mem_escape (name : String) : '/' ∉ (escape name).toList := by
  rw [escape, String.toList_ofList, List.mem_flatMap]
  rintro ⟨c, _, hc⟩
  rw [escapeChar] at hc
  split at hc
  · simp at hc
  · split at hc
    · simp at hc
    · next hslash => exact hslash (List.mem_singleton.1 hc).symm

theorem escape_ne_empty {name : String} (h : name ≠ "") : escape name ≠ "" := by
  intro hempty
  have hread := unescape?_escape name
  rw [hempty] at hread
  exact h (Option.some.inj hread).symm

/-- The number of characters of a name that an escape takes the place of. -/
def escapes (name : String) : Nat := name.toList.countP fun c => c = '~' ∨ c = '/'

theorem length_escapeChar (c : Char) :
    (escapeChar c).length = if c = '~' ∨ c = '/' then 2 else 1 := by
  rw [escapeChar]
  split
  · next htilde => simp [htilde]
  · next htilde =>
      split
      · next hslash => simp [hslash]
      · next hslash => simp [htilde, hslash]

/-- Each of them takes one character more in the step. -/
theorem length_escape (name : String) :
    (escape name).toList.length = name.toList.length + escapes name := by
  rw [escape, String.toList_ofList, escapes]
  induction name.toList with
  | nil => rfl
  | cons c text ih =>
      rw [List.flatMap_cons, List.length_append, ih, List.length_cons, List.countP_cons,
        length_escapeChar]
      simp only [decide_eq_true_eq]
      split <;> omega

theorem escapes_eq_zero_iff {name : String} : escapes name = 0 ↔ Plain name := by
  rw [escapes, List.countP_eq_zero, Plain]
  constructor
  · intro h
    exact ⟨fun htilde => h _ htilde (by decide), fun hslash => h _ hslash (by decide)⟩
  · rintro ⟨htilde, hslash⟩ c hc
    have hnottilde : c ≠ '~' := by
      rintro rfl
      exact htilde hc
    have hnotslash : c ≠ '/' := by
      rintro rfl
      exact hslash hc
    simp [hnottilde, hnotslash]

/-- **The names that are written as they are** are the plain ones. -/
theorem escape_eq_self_iff {name : String} : escape name = name ↔ Plain name := by
  constructor
  · intro h
    have hlength := length_escape name
    rw [h] at hlength
    exact escapes_eq_zero_iff.1 (by omega)
  · rintro ⟨htilde, hslash⟩
    have hchars : ∀ text : List Char, '~' ∉ text → '/' ∉ text →
        text.flatMap escapeChar = text := by
      intro text
      induction text with
      | nil => exact fun _ _ => rfl
      | cons c text ih =>
          intro htilde hslash
          rw [List.mem_cons, not_or] at htilde hslash
          rw [List.flatMap_cons, ih htilde.2 hslash.2, escapeChar, if_neg (Ne.symm htilde.1),
            if_neg (Ne.symm hslash.1), List.singleton_append]
    rw [escape, hchars _ htilde hslash, String.ofList_toList]

/-! ### Steps -/

/-- The place that steps lead to from another one, each written as it is. -/
def below (place : Pointer) (steps : List String) : Pointer := steps.foldl child place

/-- **The pointer to what steps lead to.** -/
def ofSteps (steps : List String) : Pointer := below "" (steps.map escape)

/-- **The steps of a pointer**; nothing when the text is no pointer. -/
def steps? (pointer : Pointer) : Option (List String) :=
  match Text.segments '/' pointer.toList with
  | [] :: written => written.mapM fun step => unescape? (String.ofList step)
  | _ => none

theorem toList_child (place : Pointer) (step : String) :
    (place.child step).toList = place.toList ++ '/' :: step.toList := by simp [child]

theorem below_cons (place : Pointer) (step : String) (steps : List String) :
    below place (step :: steps) = below (place.child step) steps := rfl

theorem below_append (place : Pointer) (first rest : List String) :
    below place (first ++ rest) = below (below place first) rest := List.foldl_append

theorem segments_below {steps : List String} (h : ∀ step ∈ steps, '/' ∉ step.toList)
    (place : Pointer) :
    Text.segments '/' (below place steps).toList =
      Text.segments '/' place.toList ++ steps.map String.toList := by
  induction steps generalizing place with
  | nil => simp [below]
  | cons step steps ih =>
      rw [List.forall_mem_cons] at h
      rw [below_cons, ih h.2, toList_child, Text.segments_append_cons, Text.segments_of_not_mem h.1,
        List.append_assoc, List.map_cons, List.singleton_append]

/-- **Steps are read back from their pointer.** -/
theorem steps?_ofSteps (steps : List String) : steps? (ofSteps steps) = some steps := by
  have hslash : ∀ step ∈ steps.map escape, '/' ∉ step.toList := by
    intro step hstep
    obtain ⟨name, _, rfl⟩ := List.mem_map.1 hstep
    exact slash_not_mem_escape name
  have hsegments : Text.segments '/' (ofSteps steps).toList =
      [] :: steps.map fun step => (escape step).toList := by
    rw [ofSteps, segments_below hslash, List.map_map]
    rfl
  have hread : (steps.map fun step => (escape step).toList).mapM
      (fun step => unescape? (String.ofList step)) = some steps := by
    clear hslash hsegments
    induction steps with
    | nil => rfl
    | cons step steps ih =>
        rw [List.map_cons, List.mapM_cons, ih, String.ofList_toList, unescape?_escape]
        rfl
  rw [steps?, hsegments]
  exact hread

theorem toList_below (place : Pointer) (steps : List String) :
    (below place steps).toList = place.toList ++ steps.flatMap fun step => '/' :: step.toList := by
  induction steps generalizing place with
  | nil => simp [below]
  | cons step steps ih =>
      rw [below_cons, ih, toList_child, List.flatMap_cons, List.append_assoc]

/-- Escapes make steps longer, unless all of them are plain. -/
theorem exists_length_flatMap_escape (steps : List String) :
    ∃ extra, ((steps.map escape).flatMap fun step => '/' :: step.toList).length =
        (steps.flatMap fun step => '/' :: step.toList).length + extra ∧
      (extra = 0 → ∀ step ∈ steps, Plain step) := by
  induction steps with
  | nil => exact ⟨0, rfl, by simp⟩
  | cons step steps ih =>
      obtain ⟨extra, hlength, hplain⟩ := ih
      refine ⟨escapes step + extra, ?_, fun hnone => ?_⟩
      · rw [List.map_cons, List.flatMap_cons, List.flatMap_cons, List.length_append,
          List.length_append, List.length_cons, List.length_cons, length_escape, hlength]
        omega
      · exact List.forall_mem_cons.2 ⟨escapes_eq_zero_iff.1 (by omega), hplain (by omega)⟩

/-- **A place is the pointer to what stands there** when all steps that are written as they are, are
plain, and not otherwise. -/
theorem below_eq_ofSteps_iff {outer steps : List String} :
    below (ofSteps outer) steps = ofSteps (outer ++ steps) ↔ ∀ step ∈ steps, Plain step := by
  rw [ofSteps, ofSteps, List.map_append, below_append]
  constructor
  · intro h
    have hlength := congrArg (fun pointer => pointer.toList.length) h
    simp only [toList_below _ steps, toList_below _ (steps.map escape), List.length_append]
      at hlength
    obtain ⟨extra, hextra, hplain⟩ := exists_length_flatMap_escape steps
    exact hplain (by omega)
  · intro h
    rw [List.map_congr_left fun step hstep => escape_eq_self_iff.2 (h step hstep), List.map_id']

end StoreSchema.Pointer
