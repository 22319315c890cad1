/-
**Texts cut at a separator, and texts filled into a template.**

Main definitions:

* `Text.segments` — the pieces between the occurrences of a separator; there is always at least one;
* `Text.dotted` — the segments of a string at its dots;
* `Text.fill` — a template with a value in place of every `{VALUE}`.

Main results:

* `Text.segments_ne_nil` — there is a first segment;
* `Text.intercalate_segments` — the segments with the separator between them are the text again;
* `Text.segments_append_cons` — what stands before and behind a separator is cut by itself;
* `Text.dotted_intercalate` — segments are found again when dots are put between them;
* `Text.dotted_injective` — texts with the same segments are the same.
-/

set_option relaxedAutoImplicit false
set_option autoImplicit false

namespace StoreSchema.Text

/-- The pieces of a text between the occurrences of `separator`. -/
def segments (separator : Char) : List Char → List (List Char)
  | [] => [[]]
  | c :: rest =>
      if c = separator then [] :: segments separator rest
      else
        match segments separator rest with
        | [] => [[c]]
        | first :: others => (c :: first) :: others

theorem segments_ne_nil (separator : Char) (text : List Char) : segments separator text ≠ [] := by
  cases text with
  | nil => simp [segments]
  | cons c rest =>
      rw [segments]
      split
      · simp
      · split <;> simp

/-- The segments with the separator between them are the text again. -/
theorem intercalate_segments (separator : Char) (text : List Char) :
    [separator].intercalate (segments separator text) = text := by
  induction text with
  | nil => rfl
  | cons c rest ih =>
      rw [segments]
      cases hrest : segments separator rest with
      | nil => exact absurd hrest (segments_ne_nil separator rest)
      | cons first others =>
          rw [hrest] at ih
          split
          · next hc =>
              rw [List.intercalate_cons_cons, ih]
              simp [hc]
          · cases others with
            | nil => simpa using ih
            | cons second others =>
                rw [List.intercalate_cons_cons] at ih ⊢
                simp [← ih]

/-- There is no separator in a segment. -/
theorem not_mem_of_mem_segments {separator : Char} {text segment : List Char}
    (h : segment ∈ segments separator text) : separator ∉ segment := by
  induction text generalizing segment with
  | nil =>
      rw [segments, List.mem_singleton] at h
      simp [h]
  | cons c rest ih =>
      rw [segments] at h
      split at h
      · rcases List.mem_cons.1 h with rfl | h
        · simp
        · exact ih h
      · next hc =>
          split at h
          · rw [List.mem_singleton] at h
            simp [h, Ne.symm hc]
          · next first others hsegments =>
              rcases List.mem_cons.1 h with rfl | h
              · have hfirst := ih (hsegments ▸ List.mem_cons_self ..)
                simp [hfirst, Ne.symm hc]
              · exact ih (hsegments ▸ List.mem_cons_of_mem _ h)

/-- The segments of a string at its dots. -/
def dotted (text : String) : List String := (segments '.' text.toList).map String.ofList

/-- A text without a separator is its only segment. -/
theorem segments_of_not_mem {separator : Char} {text : List Char} (h : separator ∉ text) :
    segments separator text = [text] := by
  induction text with
  | nil => rfl
  | cons c rest ih =>
      rw [List.mem_cons, not_or] at h
      rw [segments, if_neg (Ne.symm h.1), ih h.2]

/-- A text of two parts with a separator between them has the segments of both. -/
theorem segments_append_cons {separator : Char} (first rest : List Char) :
    segments separator (first ++ separator :: rest) =
      segments separator first ++ segments separator rest := by
  induction first with
  | nil => simp [segments]
  | cons c first ih =>
      rw [List.cons_append, segments, segments]
      split
      · rw [ih, List.cons_append]
      · cases hfirst : segments separator first with
        | nil => exact absurd hfirst (segments_ne_nil separator first)
        | cons segment others => simp [ih, hfirst]

theorem dotted_of_not_mem {text : String} (h : '.' ∉ text.toList) : dotted text = [text] := by
  rw [dotted, segments_of_not_mem h, List.map_singleton, String.ofList_toList]

/-- Names without dots are the segments of their texts with dots between them. -/
theorem dotted_intercalate {name : String} {names : List String}
    (h : ∀ segment ∈ name :: names, '.' ∉ segment.toList) :
    dotted (".".intercalate (name :: names)) = name :: names := by
  induction names generalizing name with
  | nil =>
      rw [String.intercalate_singleton]
      exact dotted_of_not_mem (h name (List.mem_cons_self ..))
  | cons second names ih =>
      rw [List.forall_mem_cons] at h
      have htext : (".".intercalate (name :: second :: names)).toList =
          name.toList ++ '.' :: (".".intercalate (second :: names)).toList := by
        simp [String.intercalate_cons_cons]
      rw [dotted, htext, segments_append_cons, List.map_append, segments_of_not_mem h.1,
        List.map_singleton, String.ofList_toList, List.singleton_append]
      exact congrArg (name :: ·) (ih h.2)

/-- Texts with the same segments are the same. -/
theorem dotted_injective {text text' : String} (h : dotted text = dotted text') : text = text' := by
  have hsegments : segments '.' text.toList = segments '.' text'.toList := by
    simpa [dotted, Function.comp_def] using congrArg (List.map String.toList) h
  rw [← String.toList_inj, ← intercalate_segments '.' text.toList, hsegments, intercalate_segments]

/-- The template with `value` in place of every `{VALUE}`, found from left to right. -/
def fill (value : List Char) : List Char → List Char
  | '{' :: 'V' :: 'A' :: 'L' :: 'U' :: 'E' :: '}' :: rest => value ++ fill value rest
  | c :: rest => c :: fill value rest
  | [] => []

end StoreSchema.Text
