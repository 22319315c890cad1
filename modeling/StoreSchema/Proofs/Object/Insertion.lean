/-
**Fields in the order of their insertion.**

A table of fields is filled by writing one field after another.  A name that is written again keeps
the place it has, so places are those of the first writes and fields those of the last ones.  Both
are said here of the writes alone: a table is known as soon as the writes are that filled it.

Main results:

* `Entries.get?_eq_some_iff_append` — what is read is the first that stands under the name;
* `Entries.keys_ofList` — **names stand in the order in which they were first written**;
* `Entries.get?_ofList` — **what is read is what was written last**;
* `Entries.map_keys_get?` — reading all names in turn lists the table;
* `FieldMap.insertion_ordered` — **what is known of a table of fields** from the writes.
-/

import Mathlib.Data.Finset.Card
import StoreSchema.Descriptor

set_option relaxedAutoImplicit false
set_option autoImplicit false

namespace StoreSchema

namespace Entries

variable {α : Type}

/-- What is read is the first that stands under the name. -/
theorem get?_eq_some_iff_append {entries : Entries α} {name : String} {value : α} :
    get? entries name = some value ↔
      ∃ before after, entries = before ++ (name, value) :: after ∧ name ∉ keys before := by
  induction entries with
  | nil => simp
  | cons entry rest ih =>
      obtain ⟨first, found⟩ := entry
      rw [get?_cons]
      by_cases hfirst : first = name
      · rw [if_pos hfirst]
        constructor
        · intro h
          cases h
          exact ⟨[], rest, by rw [hfirst]; rfl, by simp⟩
        · rintro ⟨before, after, heq, hbefore⟩
          cases before with
          | nil =>
              cases heq
              rfl
          | cons entry before =>
              cases heq
              exact absurd (by simp [hfirst]) hbefore
      · rw [if_neg hfirst, ih]
        constructor
        · rintro ⟨before, after, rfl, hbefore⟩
          exact ⟨(first, found) :: before, after, rfl, by simp [Ne.symm hfirst, hbefore]⟩
        · rintro ⟨before, after, heq, hbefore⟩
          cases before with
          | nil =>
              cases heq
              exact absurd rfl hfirst
          | cons entry before =>
              cases heq
              exact ⟨before, after, rfl, fun hname => hbefore (List.mem_cons_of_mem _ hname)⟩

/-! ### One write after another -/

/-- One more write is a write into the table of those before it. -/
theorem ofList_concat (writes : List (String × α)) (name : String) (value : α) :
    ofList (writes ++ [(name, value)]) = insert (ofList writes) name value := by
  simp [ofList, insertAll]

/-- **Names stand in the order in which they were first written**, each of them once. -/
theorem keys_ofList (writes : List (String × α)) :
    keys (ofList writes) = (keys writes).eraseDups := by
  induction writes using List.reverseRecOn with
  | nil => rfl
  | append_singleton writes entry ih =>
      obtain ⟨name, value⟩ := entry
      have hkeys : keys (writes ++ [(name, value)]) = keys writes ++ [name] := by simp [keys]
      rw [ofList_concat, keys_insert, ih, hkeys, List.eraseDups_append]
      by_cases hname : name ∈ keys writes
      · simp [List.removeAll, hname]
      · simp [List.removeAll, hname, List.eraseDups_cons]

/-- **What is read is what was written last.** -/
theorem get?_ofList (writes : List (String × α)) (name : String) :
    get? (ofList writes) name = get? writes.reverse name := by
  induction writes using List.reverseRecOn with
  | nil => rfl
  | append_singleton writes entry ih =>
      obtain ⟨last, value⟩ := entry
      rw [ofList_concat, get?_insert, ih, List.reverse_concat, get?_cons]

/-- After the last write under its name there is none. -/
theorem get?_ofList_eq_some_iff {writes : List (String × α)} {name : String} {value : α} :
    get? (ofList writes) name = some value ↔
      ∃ before after, writes = before ++ (name, value) :: after ∧ name ∉ keys after := by
  rw [get?_ofList, get?_eq_some_iff_append]
  constructor
  · rintro ⟨after, before, heq, hafter⟩
    refine ⟨before.reverse, after.reverse, ?_, by simpa [keys] using hafter⟩
    rw [← writes.reverse_reverse, heq]
    simp
  · rintro ⟨before, after, rfl, hafter⟩
    exact ⟨after.reverse, before.reverse, by simp, by simpa [keys] using hafter⟩

/-- Nothing is read under a name that was never written. -/
theorem get?_ofList_eq_none_iff {writes : List (String × α)} {name : String} :
    get? (ofList writes) name = none ↔ name ∉ keys writes := by
  rw [get?_eq_none_iff, keys_ofList, List.mem_eraseDups]

/-- Where names are distinct, reading all of them in turn lists the table. -/
theorem map_keys_get? {entries : Entries α} (h : (keys entries).Nodup) :
    ((keys entries).map fun name => (name, get? entries name)) =
      entries.map fun entry => (entry.1, some entry.2) := by
  rw [keys, List.map_map]
  refine List.map_congr_left ?_
  rintro ⟨name, value⟩ hentry
  simp [get?_of_mem h hentry]

/-- A write moves none of the names that are there. -/
theorem keys_isPrefix_insert (entries : Entries α) (name : String) (value : α) :
    keys entries <+: keys (insert entries name value) := by
  rw [keys_insert]
  split
  · exact List.prefix_rfl
  · exact List.prefix_append ..

end Entries

/-! ### Fields -/

/-- The object that fields are printed as lists them under their names, in order. -/
theorem Descriptor.map_fieldsToJson {fields : FieldMap} (h : (Entries.keys fields).Nodup) :
    ((fieldsToJson fields).map fun entry => (entry.1, some entry.2)) =
      (Entries.keys fields).map fun name => (name, (Entries.get? fields name).map toJson) := by
  have hkeys : Entries.keys (fieldsToJson fields) = Entries.keys fields := by
    simp [fieldsToJson_eq_map, Entries.keys]
  have hget (name : String) : Entries.get? (fieldsToJson fields) name =
      (Entries.get? fields name).map toJson := by
    rw [fieldsToJson_eq_map]
    exact Entries.get?_map (fun _ field => field.toJson) fields name
  rw [← Entries.map_keys_get? (hkeys ▸ h), hkeys]
  simp only [hget]

/-- **A table of fields keeps them in the order of their insertion.**  It lists every name that was
inserted once, in the order of the first insertions, and holds under it the field that was inserted
last; so do its entries and the object that is printed, in the same order.  Inserting one more field
changes what is held under its own name alone, and moves none. -/
theorem FieldMap.insertion_ordered (inserts : List (String × Descriptor)) :
    Entries.keys (Entries.ofList inserts) = (Entries.keys inserts).eraseDups ∧
      (Entries.ofList inserts).length = (Entries.keys inserts).toFinset.card ∧
      (∀ name field, Entries.get? (Entries.ofList inserts) name = some field ↔
        ∃ before after, inserts = before ++ (name, field) :: after ∧
          name ∉ Entries.keys after) ∧
      (∀ name, Entries.get? (Entries.ofList inserts) name = none ↔
        name ∉ Entries.keys inserts) ∧
      (∀ name, Entries.contains (Entries.ofList inserts) name = true ↔
        ∃ field, Entries.get? (Entries.ofList inserts) name = some field) ∧
      ((Entries.ofList inserts).map fun entry => (entry.1, some entry.2)) =
        (Entries.keys (Entries.ofList inserts)).map
          (fun name => (name, Entries.get? (Entries.ofList inserts) name)) ∧
      (∃ printed, (SchemaTree.fields (Entries.ofList inserts)).toJson = .obj printed ∧
        (printed.map fun entry => (entry.1, some entry.2)) =
          (Entries.keys (Entries.ofList inserts)).map fun name =>
            (name, (Entries.get? (Entries.ofList inserts) name).map Descriptor.toJson)) ∧
      ∀ name field,
        (∀ other, other ≠ name →
          Entries.get? (Entries.insert (Entries.ofList inserts) name field) other =
            Entries.get? (Entries.ofList inserts) other) ∧
        Entries.keys (Entries.ofList inserts) <+:
          Entries.keys (Entries.insert (Entries.ofList inserts) name field) := by
  have hdistinct : (Entries.keys (Entries.ofList inserts)).Nodup := Entries.nodup_keys_ofList inserts
  refine ⟨Entries.keys_ofList inserts, ?_, fun _ _ => Entries.get?_ofList_eq_some_iff,
    fun _ => Entries.get?_ofList_eq_none_iff, ?_, (Entries.map_keys_get? hdistinct).symm,
    ⟨_, rfl, Descriptor.map_fieldsToJson hdistinct⟩, ?_⟩
  · have hnames : (Entries.keys (Entries.ofList inserts)).toFinset =
        (Entries.keys inserts).toFinset := by
      ext name
      simp [Entries.keys_ofList]
    rw [← hnames, List.toFinset_card_of_nodup hdistinct, Entries.keys, List.length_map]
  · intro name
    rw [Entries.contains, Option.isSome_iff_exists]
  · intro name field
    refine ⟨fun other hother => ?_, Entries.keys_isPrefix_insert _ name field⟩
    rw [Entries.get?_insert, if_neg (Ne.symm hother)]

/-- A name that comes again keeps its place and takes the new field. -/
example :
    Entries.ofList [("name", Descriptor.reference {} none), ("age", .scalar {} .number none),
        ("name", .scalar {} .string none)] =
      [("name", .scalar {} .string none), ("age", .scalar {} .number none)] := rfl

end StoreSchema
