/-
**Tables with the same names.**

Two tables that list the same names in the same order can be compared name by name.  When the names
are distinct, a write in both of them changes the comparison at one name only.

Main definitions:

* `Entries.Paired` — that two tables list the same names, with values that are related.

Main results:

* `Entries.Paired.get?` — what is read from both is related;
* `Entries.Paired.insert` — **a write in both tables leaves them paired**, by another relation if
  need be.
-/

import StoreSchema.Entries

set_option relaxedAutoImplicit false
set_option autoImplicit false

namespace StoreSchema.Entries

variable {α β : Type}

/-- **That two tables list the same names in the same order**, with values that are related. -/
inductive Paired (related : String → α → β → Prop) : Entries α → Entries β → Prop where
  | nil : Paired related [] []
  | cons {name : String} {value : α} {value' : β} {rest : Entries α} {rest' : Entries β}
      (hvalue : related name value value') (hrest : Paired related rest rest') :
      Paired related ((name, value) :: rest) ((name, value') :: rest')

namespace Paired

variable {related : String → α → β → Prop} {left : Entries α} {right : Entries β}

theorem keys_eq (h : Paired related left right) : keys left = keys right := by
  induction h with
  | nil => rfl
  | cons hvalue hrest ih => rw [keys_cons, keys_cons, ih]

/-- Every table is paired with itself by a relation that holds between its values and
themselves. -/
theorem refl {related : String → α → α → Prop} (h : ∀ name value, related name value value) :
    ∀ entries : Entries α, Paired related entries entries
  | [] => .nil
  | (name, value) :: rest => .cons (h name value) (refl h rest)

theorem mono {related' : String → α → β → Prop} (h : Paired related left right)
    (hmore : ∀ name value value', related name value value' → related' name value value') :
    Paired related' left right := by
  induction h with
  | nil => exact .nil
  | cons hvalue hrest ih => exact .cons (hmore _ _ _ hvalue) ih

/-- The values on the left are those that are listed there. -/
theorem with_mem (h : Paired related left right) :
    Paired (fun name value value' => (name, value) ∈ left ∧ related name value value')
      left right := by
  induction h with
  | nil => exact .nil
  | cons hvalue hrest ih =>
      refine .cons ⟨List.mem_cons_self .., hvalue⟩ (ih.mono ?_)
      exact fun name value value' hvalue => ⟨List.mem_cons_of_mem _ hvalue.1, hvalue.2⟩

/-- What is listed on the left is related to what is listed under the same name on the right. -/
theorem exists_of_mem (h : Paired related left right) {entry : String × α} (hentry : entry ∈ left) :
    ∃ value', (entry.1, value') ∈ right ∧ related entry.1 entry.2 value' := by
  induction h with
  | nil => cases hentry
  | @cons name value value' rest rest' hvalue hrest ih =>
      rcases List.mem_cons.1 hentry with rfl | hentry
      · exact ⟨value', List.mem_cons_self .., hvalue⟩
      · obtain ⟨found, hfound, hrelated⟩ := ih hentry
        exact ⟨found, List.mem_cons_of_mem _ hfound, hrelated⟩

/-- And what is listed on the right to what is listed under the same name on the left. -/
theorem exists_of_mem_right (h : Paired related left right) {entry : String × β}
    (hentry : entry ∈ right) :
    ∃ value, (entry.1, value) ∈ left ∧ related entry.1 value entry.2 := by
  induction h with
  | nil => cases hentry
  | @cons name value value' rest rest' hvalue hrest ih =>
      rcases List.mem_cons.1 hentry with rfl | hentry
      · exact ⟨value, List.mem_cons_self .., hvalue⟩
      · obtain ⟨found, hfound, hrelated⟩ := ih hentry
        exact ⟨found, List.mem_cons_of_mem _ hfound, hrelated⟩

theorem map_left {γ : Type} {related' : String → γ → β → Prop} (change : String → α → γ)
    (h : Paired related left right)
    (hchange : ∀ name value value', related name value value' →
      related' name (change name value) value') :
    Paired related' (left.map fun entry => (entry.1, change entry.1 entry.2)) right := by
  induction h with
  | nil => exact .nil
  | cons hvalue hrest ih => exact .cons (hchange _ _ _ hvalue) ih

theorem map_right {γ : Type} {related' : String → α → γ → Prop} (change : String → β → γ)
    (h : Paired related left right)
    (hchange : ∀ name value value', related name value value' →
      related' name value (change name value')) :
    Paired related' left (right.map fun entry => (entry.1, change entry.1 entry.2)) := by
  induction h with
  | nil => exact .nil
  | cons hvalue hrest ih => exact .cons (hchange _ _ _ hvalue) ih

/-- The table on the right is paired with what is made of it. -/
theorem map_self {γ : Type} {related' : String → γ → β → Prop} (change : String → β → γ)
    (h : Paired related left right)
    (hchange : ∀ name value value', related name value value' →
      related' name (change name value') value') :
    Paired related' (right.map fun entry => (entry.1, change entry.1 entry.2)) right := by
  induction h with
  | nil => exact .nil
  | cons hvalue hrest ih => exact .cons (hchange _ _ _ hvalue) ih

/-- What is made of two tables, value by value, is the same when the tables are paired by that. -/
theorem map_eq_map_iff {γ : Type} {change : String → α → γ} {change' : String → β → γ} :
    (left.map fun entry => (entry.1, change entry.1 entry.2)) =
        (right.map fun entry => (entry.1, change' entry.1 entry.2)) ↔
      Paired (fun name value value' => change name value = change' name value') left right := by
  constructor
  · intro h
    induction left generalizing right with
    | nil =>
        cases right with
        | nil => exact .nil
        | cons entry rest => simp at h
    | cons entry rest ih =>
        cases right with
        | nil => simp at h
        | cons entry' rest' =>
            obtain ⟨name, value⟩ := entry
            obtain ⟨name', value'⟩ := entry'
            simp only [List.map_cons, List.cons.injEq, Prod.mk.injEq] at h
            obtain ⟨⟨rfl, hvalue⟩, hrest⟩ := h
            exact .cons hvalue (ih hrest)
  · intro h
    induction h with
    | nil => rfl
    | cons hvalue hrest ih => rw [List.map_cons, List.map_cons, hvalue, ih]

/-- What is read from both tables is related. -/
theorem get? (h : Paired related left right) (key : String) :
    (Entries.get? left key = none ∧ Entries.get? right key = none) ∨
      ∃ value value', Entries.get? left key = some value ∧ Entries.get? right key = some value' ∧
        related key value value' := by
  induction h with
  | nil => exact .inl ⟨rfl, rfl⟩
  | @cons name value value' rest rest' hvalue hrest ih =>
      by_cases hname : name = key
      · subst hname
        exact .inr ⟨value, value', by simp [get?_cons], by simp [get?_cons], hvalue⟩
      · simpa [get?_cons, hname] using ih

/-- Where a name is not listed, the relation may change at that name. -/
theorem of_not_mem {related' : String → α → β → Prop} (h : Paired related left right) {key : String}
    (hkey : key ∉ keys left)
    (hothers : ∀ name value value', name ≠ key → related name value value' →
      related' name value value') : Paired related' left right := by
  induction h with
  | nil => exact .nil
  | cons hvalue hrest ih =>
      rw [keys_cons, List.mem_cons, not_or] at hkey
      exact .cons (hothers _ _ _ (Ne.symm hkey.1) hvalue) (ih hkey.2)

/-- A write of related values in both tables leaves them paired. -/
theorem insert_of_related (h : Paired related left right) {key : String} {new : α} {new' : β}
    (hnew : related key new new') :
    Paired related (Entries.insert left key new) (Entries.insert right key new') := by
  induction h with
  | nil => exact .cons hnew .nil
  | @cons name value value' rest rest' hvalue hrest ih =>
      rw [insert_cons, insert_cons]
      split
      · next hname =>
          subst hname
          exact .cons hnew hrest
      · exact .cons hvalue ih

/-- **A write in both tables leaves them paired**, by any relation that holds of what is written and
of the values under the other names. -/
theorem insert {related' : String → α → β → Prop} (h : Paired related left right)
    (hdistinct : (keys left).Nodup) {key : String} (hkey : key ∈ keys left) {new : α} {new' : β}
    (hnew : related' key new new')
    (hothers : ∀ name value value', name ≠ key → related name value value' →
      related' name value value') :
    Paired related' (Entries.insert left key new) (Entries.insert right key new') := by
  induction h with
  | nil => simp at hkey
  | @cons name value value' rest rest' hvalue hrest ih =>
      rw [keys_cons, List.nodup_cons] at hdistinct
      rw [insert_cons, insert_cons]
      by_cases hname : name = key
      · subst hname
        rw [if_pos rfl, if_pos rfl]
        exact .cons hnew (hrest.of_not_mem hdistinct.1 hothers)
      · have hmem : key ∈ keys rest := by
          rcases List.mem_cons.1 hkey with h | h
          · exact absurd h.symm hname
          · exact h
        rw [if_neg hname, if_neg hname]
        exact .cons (hothers _ _ _ hname hvalue) (ih hdistinct.2 hmem)

end Paired

end StoreSchema.Entries
