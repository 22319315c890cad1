/-
**The members of a value at every depth.**

Several statements about compilation speak of what occurs *anywhere* in a document: a key that is
used nowhere, or a reference that stands somewhere in a definition.  This module lists the members
of a value at every depth and shows that the list only shrinks when a part of the value is taken
out, and does not grow when members that stand somewhere in it are written in another place.

Main definitions:

* `Json.deepMembers`, `Json.deepEntries` — the members of a value at every depth;
* `Json.Mentions` — that a reference stands somewhere in a value;
* `Json.Carries` — that a block stands somewhere in a value;
* `Json.Lacks` — that a key is used nowhere in a value.

Main results:

* `Json.mem_deepEntries_iff` — a member at some depth is a member, or stands in the value of one;
* `Json.deepMembers_trans` — what stands in a member at some depth stands at some depth;
* `Json.deepMembers_subset_of_mem` — and so it stands in the object of that member;
* `Json.deepEntries_subset` — members that all stand somewhere in an object bring nothing new.
-/

import StoreSchema.Json.Basic

set_option relaxedAutoImplicit false
set_option autoImplicit false

namespace StoreSchema.Json

mutual

/-- The members of a value at every depth, each before those in its value. -/
def deepMembers : Json → List (String × Json)
  | .null => []
  | .bool _ => []
  | .num _ => []
  | .str _ => []
  | .arr items => deepItems items
  | .obj members => deepEntries members

/-- The members at every depth of the items of an array. -/
def deepItems : List Json → List (String × Json)
  | [] => []
  | item :: rest => deepMembers item ++ deepItems rest

/-- The members of an object at every depth. -/
def deepEntries : List (String × Json) → List (String × Json)
  | [] => []
  | (key, value) :: rest => (key, value) :: (deepMembers value ++ deepEntries rest)

end

@[simp] theorem deepMembers_obj (members : Members) :
    deepMembers (.obj members) = deepEntries members := by simp [deepMembers]

/-- That the reference stands somewhere in the value, under `$ref`. -/
def Mentions (value : Json) (reference : String) : Prop :=
  ("$ref", Json.str reference) ∈ value.deepMembers

/-- That the block stands somewhere in the value, under the key of blocks. -/
def Carries (value : Json) (key : String) (block : Members) : Prop :=
  (key, Json.obj block) ∈ value.deepMembers

/-- That the values stand somewhere in the value, under `enum`. -/
def Lists (value : Json) (values : List Json) : Prop :=
  ("enum", Json.arr values) ∈ value.deepMembers

/-- That the key is used nowhere in the value. -/
def Lacks (value : Json) (key : String) : Prop := key ∉ Entries.keys value.deepMembers

/-! ### Going down -/

/-- A member at some depth is a member, or stands in the value of one. -/
theorem mem_deepEntries_iff {members : Members} {entry : String × Json} :
    entry ∈ deepEntries members ↔
      entry ∈ members ∨ ∃ outer ∈ members, entry ∈ deepMembers outer.2 := by
  induction members with
  | nil => simp [deepEntries]
  | cons first rest ih =>
      obtain ⟨key, value⟩ := first
      simp only [deepEntries, List.mem_cons, List.mem_append, ih, exists_eq_or_imp]
      rw [or_assoc, or_left_comm (a := entry ∈ deepMembers value)]

theorem mem_deepEntries_of_mem {members : Members} {entry : String × Json} (h : entry ∈ members) :
    entry ∈ deepEntries members := mem_deepEntries_iff.2 (.inl h)

theorem mem_deepEntries_of_get? {members : Members} {key : String} {value : Json}
    (h : Entries.get? members key = some value) : (key, value) ∈ deepEntries members :=
  mem_deepEntries_of_mem (Entries.mem_of_get? h)

mutual

/-- **What stands in a member at some depth stands at some depth.** -/
theorem deepMembers_trans {entry inner : String × Json} : ∀ {value : Json},
    entry ∈ deepMembers value → inner ∈ deepMembers entry.2 → inner ∈ deepMembers value
  | .null, h, _ => by simp [deepMembers] at h
  | .bool _, h, _ => by simp [deepMembers] at h
  | .num _, h, _ => by simp [deepMembers] at h
  | .str _, h, _ => by simp [deepMembers] at h
  | .arr items, h, hinner => by
      simp only [deepMembers] at h ⊢
      exact deepItems_trans h hinner
  | .obj members, h, hinner => by
      simp only [deepMembers] at h ⊢
      exact deepEntries_trans h hinner

theorem deepItems_trans {entry inner : String × Json} : ∀ {items : List Json},
    entry ∈ deepItems items → inner ∈ deepMembers entry.2 → inner ∈ deepItems items
  | [], h, _ => by simp [deepItems] at h
  | item :: rest, h, hinner => by
      simp only [deepItems, List.mem_append] at h ⊢
      rcases h with h | h
      · exact .inl (deepMembers_trans h hinner)
      · exact .inr (deepItems_trans h hinner)

theorem deepEntries_trans {entry inner : String × Json} : ∀ {members : List (String × Json)},
    entry ∈ deepEntries members → inner ∈ deepMembers entry.2 → inner ∈ deepEntries members
  | [], h, _ => by simp [deepEntries] at h
  | (key, value) :: rest, h, hinner => by
      simp only [deepEntries, List.mem_cons, List.mem_append] at h ⊢
      rcases h with rfl | h | h
      · exact .inr (.inl hinner)
      · exact .inr (.inl (deepMembers_trans h hinner))
      · exact .inr (.inr (deepEntries_trans h hinner))

end

/-- What stands in a member at some depth stands in the object. -/
theorem deepMembers_subset_of_mem {members : Members} {entry : String × Json}
    (h : entry ∈ deepEntries members) : entry.2.deepMembers ⊆ (obj members).deepMembers := by
  intro inner hinner
  rw [deepMembers_obj]
  exact deepEntries_trans h hinner

/-- The members of an object under a key stand in the outer object. -/
theorem mem_deepEntries_of_listed {members listed : Members} {key : String}
    (h : Entries.get? members key = some (.obj listed)) {entry : String × Json}
    (hentry : entry ∈ listed) : entry ∈ deepEntries members := by
  have hlisted := deepMembers_subset_of_mem (mem_deepEntries_of_get? h)
  rw [deepMembers_obj, deepMembers_obj] at hlisted
  exact hlisted (mem_deepEntries_of_mem hentry)

/-! ### Putting together -/

/-- **Members that all stand somewhere in an object bring nothing new.** -/
theorem deepEntries_subset {source target : Members}
    (h : ∀ entry ∈ source, entry ∈ deepEntries target) :
    deepEntries source ⊆ deepEntries target := by
  intro inner hinner
  rcases mem_deepEntries_iff.1 hinner with hmem | ⟨outer, hmem, hinner⟩
  · exact h inner hmem
  · exact deepEntries_trans (h outer hmem) hinner

theorem deepMembers_erase_subset (members : Members) (key : String) :
    (obj (Entries.erase members key)).deepMembers ⊆ (obj members).deepMembers := by
  rw [deepMembers_obj, deepMembers_obj]
  exact deepEntries_subset fun _ hentry => mem_deepEntries_of_mem (List.mem_filter.1 hentry).1

/-! ### Mentions and lacking keys -/

theorem Mentions.mono {inner outer : Json} {reference : String} (h : inner.Mentions reference)
    (hsub : inner.deepMembers ⊆ outer.deepMembers) : outer.Mentions reference := hsub h

theorem Lacks.mono {inner outer : Json} {key : String} (h : outer.Lacks key)
    (hsub : inner.deepMembers ⊆ outer.deepMembers) : inner.Lacks key := by
  intro hkey
  obtain ⟨entry, hentry, rfl⟩ := List.mem_map.1 hkey
  exact h (List.mem_map_of_mem (hsub hentry))

/-- What is mentioned in a member at some depth is mentioned in the object. -/
theorem Mentions.of_mem {members : Members} {entry : String × Json} {reference : String}
    (h : entry.2.Mentions reference) (hentry : entry ∈ deepEntries members) :
    (obj members).Mentions reference := h.mono (deepMembers_subset_of_mem hentry)

/-- A key that is used nowhere in an object is used in none of its members at some depth. -/
theorem Lacks.of_mem {members : Members} {entry : String × Json} {key : String}
    (h : (obj members).Lacks key) (hentry : entry ∈ deepEntries members) : entry.2.Lacks key :=
  h.mono (deepMembers_subset_of_mem hentry)

/-- Where the key of blocks is used nowhere, no block is carried. -/
theorem Lacks.not_carries {value : Json} {key : String} (h : value.Lacks key) (block : Members) :
    ¬value.Carries key block := fun hblock => h (List.mem_map_of_mem hblock)

/-- A key that is used nowhere in an object is none of its keys. -/
theorem Lacks.get?_eq_none {members : Members} {key : String} (h : (Json.obj members).Lacks key) :
    Entries.get? members key = none := by
  rw [Entries.get?_eq_none_iff]
  intro hkey
  obtain ⟨entry, hentry, rfl⟩ := List.mem_map.1 hkey
  exact h (List.mem_map_of_mem (by simpa using mem_deepEntries_of_mem hentry))

end StoreSchema.Json
