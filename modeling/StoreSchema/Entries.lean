/-
**Named entries in order of first appearance.**

Members of a JSON object, fields of a schema, definitions of a document and registered validators
are all the same thing: values under names, listed in the order in which the names first appeared.
A write under a name that is already there replaces the value and keeps the place; a write under a
new name goes to the end.  The list itself is the data, so that order is part of a value and two
tables are equal only when they list the same entries in the same order.

Main definitions:

* `Entries` — values under names, in order;
* `Entries.get?`, `Entries.contains`, `Entries.keys` — the first value under a name, whether there
  is one, and the names;
* `Entries.insert`, `Entries.erase` — writing and removing under a name;
* `Entries.insertAll`, `Entries.ofList` — writing a list of entries, one after another.

Main results:

* `Entries.get?_perm` — where names are distinct, the order of entries does not matter to a reader;
* `Entries.get?_insert` — a write is read back, and disturbs no other name;
* `Entries.keys_insert` — a write under a present name keeps the names as they are;
* `Entries.insert_insert_self`, `Entries.insert_comm` — two writes under one name, or under two;
* `Entries.nodup_keys_insert` — names stay pairwise distinct;
* `Entries.erase_insert_self`, `Entries.erase_insert_of_ne` — what is written under a name goes away
  with it, and with no other name;
* `Entries.get?_insertAll`, `Entries.keys_insertAll` — what is read after entries have been written,
  and under which names;
* `Entries.insertAll_insert`, `Entries.map_insert` — a write into a source, or into a table of which
  another is made, is a write.
-/

set_option relaxedAutoImplicit false
set_option autoImplicit false

namespace StoreSchema

/-- Values under names, in order of first appearance. -/
abbrev Entries (α : Type) := List (String × α)

namespace Entries

variable {α : Type}

/-! ### Reading -/

/-- The first value under `key`. -/
def get? : Entries α → String → Option α
  | [], _ => none
  | (name, value) :: rest, key => if name = key then some value else get? rest key

/-- Whether some value stands under `key`. -/
def contains (entries : Entries α) (key : String) : Bool := (get? entries key).isSome

/-- The names, in order. -/
def keys (entries : Entries α) : List String := entries.map Prod.fst

@[simp] theorem get?_nil (key : String) : get? ([] : Entries α) key = none := rfl

theorem get?_cons (name : String) (value : α) (rest : Entries α) (key : String) :
    get? ((name, value) :: rest) key = if name = key then some value else get? rest key := rfl

@[simp] theorem keys_nil : keys ([] : Entries α) = [] := rfl

@[simp] theorem keys_cons (name : String) (value : α) (rest : Entries α) :
    keys ((name, value) :: rest) = name :: keys rest := rfl

/-- A name is readable exactly when it is listed. -/
theorem isSome_get?_iff {entries : Entries α} {key : String} :
    (get? entries key).isSome ↔ key ∈ keys entries := by
  induction entries with
  | nil => simp
  | cons entry rest ih =>
      obtain ⟨name, value⟩ := entry
      by_cases h : name = key
      · simp [get?_cons, h]
      · simp [get?_cons, h, ih, Ne.symm h]

theorem contains_iff {entries : Entries α} {key : String} :
    contains entries key = true ↔ key ∈ keys entries := isSome_get?_iff

theorem mem_keys_of_get? {entries : Entries α} {key : String} {value : α}
    (h : get? entries key = some value) : key ∈ keys entries :=
  isSome_get?_iff.1 (by simp [h])

theorem get?_eq_none_iff {entries : Entries α} {key : String} :
    get? entries key = none ↔ key ∉ keys entries := by
  rw [← isSome_get?_iff, Option.not_isSome_iff_eq_none]

/-- Entries are looked through in order. -/
theorem get?_append_of_not_mem {entries : Entries α} {key : String} (h : key ∉ keys entries)
    (rest : Entries α) : get? (entries ++ rest) key = get? rest key := by
  induction entries with
  | nil => rfl
  | cons entry others ih =>
      obtain ⟨name, value⟩ := entry
      rw [keys_cons, List.mem_cons, not_or] at h
      rw [List.cons_append, get?_cons, if_neg (Ne.symm h.1), ih h.2]

/-- A value that is read is listed under the name it was read by. -/
theorem mem_of_get? {entries : Entries α} {key : String} {value : α}
    (h : get? entries key = some value) : (key, value) ∈ entries := by
  induction entries with
  | nil => simp at h
  | cons entry rest ih =>
      obtain ⟨name, first⟩ := entry
      rw [get?_cons] at h
      split at h
      · next hname =>
          simp only [Option.some.injEq] at h
          simp [hname, h]
      · exact List.mem_cons_of_mem _ (ih h)

/-- Where names are distinct, a value that is listed is read. -/
theorem get?_of_mem {entries : Entries α} (h : (keys entries).Nodup) {key : String} {value : α}
    (hmem : (key, value) ∈ entries) : get? entries key = some value := by
  induction entries with
  | nil => cases hmem
  | cons entry rest ih =>
      obtain ⟨name, first⟩ := entry
      rw [keys_cons, List.nodup_cons] at h
      rw [get?_cons]
      rcases List.mem_cons.1 hmem with heq | hmem
      · cases heq
        rw [if_pos rfl]
      · have hkey : key ∈ keys rest := List.mem_map_of_mem hmem
        have hne : name ≠ key := by
          rintro rfl
          exact h.1 hkey
        rw [if_neg hne, ih h.2 hmem]

/-- Where names are distinct, what is read does not depend on the order of entries. -/
theorem get?_perm {entries entries' : Entries α} (hperm : entries.Perm entries')
    (h : (keys entries).Nodup) (key : String) : get? entries key = get? entries' key := by
  cases hget : get? entries key with
  | none =>
      rw [get?_eq_none_iff] at hget
      have hkey : key ∉ keys entries' := fun hkey => hget ((hperm.map Prod.fst).mem_iff.2 hkey)
      rw [get?_eq_none_iff.2 hkey]
  | some value =>
      have h' : (keys entries').Nodup := (hperm.map Prod.fst).nodup_iff.1 h
      have hmem : (key, value) ∈ entries' := hperm.mem_iff.1 (mem_of_get? hget)
      rw [get?_of_mem h' hmem]

/-! ### Writing -/

/-- Writes `value` under `key`: in the place of the first value under that name, else at the
end. -/
def insert : Entries α → String → α → Entries α
  | [], key, value => [(key, value)]
  | (name, old) :: rest, key, value =>
      if name = key then (name, value) :: rest else (name, old) :: insert rest key value

/-- Removes what stands under `key` and keeps the order of the rest. -/
def erase (entries : Entries α) (key : String) : Entries α :=
  entries.filter fun entry => entry.1 != key

/-- Writes the entries of `source`, one after another. -/
def insertAll (entries source : Entries α) : Entries α :=
  source.foldl (fun written entry => insert written entry.1 entry.2) entries

/-- The table that writing the listed entries one after another leaves. -/
def ofList (listed : List (String × α)) : Entries α := insertAll [] listed

theorem insert_cons (name : String) (old : α) (rest : Entries α) (key : String) (value : α) :
    insert ((name, old) :: rest) key value =
      if name = key then (name, value) :: rest else (name, old) :: insert rest key value := rfl

@[simp] theorem insertAll_nil (entries : Entries α) : insertAll entries [] = entries := rfl

@[simp] theorem insertAll_cons (entries : Entries α) (key : String) (value : α)
    (source : Entries α) :
    insertAll entries ((key, value) :: source) = insertAll (insert entries key value) source := rfl

/-- A write is read back under its name and disturbs no other name. -/
theorem get?_insert (entries : Entries α) (key other : String) (value : α) :
    get? (insert entries key value) other =
      if key = other then some value else get? entries other := by
  induction entries with
  | nil => rfl
  | cons entry rest ih =>
      obtain ⟨name, old⟩ := entry
      by_cases h : name = key
      · subst h
        by_cases ho : name = other <;> simp [insert_cons, get?_cons, ho]
      · by_cases ho : name = other
        · subst ho
          simp [insert_cons, get?_cons, h, Ne.symm h]
        · simp [insert_cons, get?_cons, h, ho, ih]

@[simp] theorem get?_insert_self (entries : Entries α) (key : String) (value : α) :
    get? (insert entries key value) key = some value := by simp [get?_insert]

/-- Writing what stands there already changes nothing. -/
theorem insert_eq_self {entries : Entries α} {key : String} {value : α}
    (h : get? entries key = some value) : insert entries key value = entries := by
  induction entries with
  | nil => cases h
  | cons entry rest ih =>
      obtain ⟨name, old⟩ := entry
      rw [get?_cons] at h
      rw [insert_cons]
      split at h
      · next hname =>
          cases h
          rw [if_pos hname]
      · next hname => rw [if_neg hname, ih h]

/-- Of two writes under one name only the second one counts. -/
theorem insert_insert_self (entries : Entries α) (key : String) (first second : α) :
    insert (insert entries key first) key second = insert entries key second := by
  induction entries with
  | nil => simp [insert]
  | cons entry rest ih =>
      obtain ⟨name, old⟩ := entry
      by_cases hname : name = key
      · simp [insert_cons, hname]
      · simp [insert_cons, hname, ih]

/-- Writes under two names may be done in any order, when one of the names is already listed. -/
theorem insert_comm {entries : Entries α} {key other : String} (h : key ≠ other)
    (hkey : key ∈ keys entries) (value value' : α) :
    insert (insert entries key value) other value' =
      insert (insert entries other value') key value := by
  induction entries with
  | nil => simp at hkey
  | cons entry rest ih =>
      obtain ⟨name, old⟩ := entry
      by_cases hname : name = key
      · simp [insert_cons, hname, h]
      · by_cases hother : name = other
        · simp [insert_cons, hother, Ne.symm h]
        · have hrest : key ∈ keys rest := by
            rw [keys_cons, List.mem_cons] at hkey
            rcases hkey with hkey | hkey
            · exact absurd hkey.symm hname
            · exact hkey
          simp [insert_cons, hname, hother, ih hrest]

/-- A write adds its name at the end, unless the name is already listed. -/
theorem keys_insert (entries : Entries α) (key : String) (value : α) :
    keys (insert entries key value) =
      if key ∈ keys entries then keys entries else keys entries ++ [key] := by
  induction entries with
  | nil => rfl
  | cons entry rest ih =>
      obtain ⟨name, old⟩ := entry
      by_cases h : name = key
      · simp [insert_cons, h]
      · by_cases hk : key ∈ keys rest <;> simp [insert_cons, h, ih, hk, Ne.symm h]

/-- Names stay pairwise distinct under a write. -/
theorem nodup_keys_insert {entries : Entries α} (h : (keys entries).Nodup) (key : String)
    (value : α) : (keys (insert entries key value)).Nodup := by
  rw [keys_insert]
  split
  · exact h
  · next hk =>
      rw [List.nodup_append]
      exact ⟨h, by simp, fun a ha b hb hab => hk (by simp_all)⟩

/-- **A new name is written behind those that are there.** -/
theorem insert_of_nodup {entries rest : Entries α} {key : String} {value : α}
    (h : (keys (entries ++ (key, value) :: rest)).Nodup) :
    insert entries key value = entries ++ [(key, value)] := by
  induction entries with
  | nil => rfl
  | cons first entries ih =>
      obtain ⟨name, old⟩ := first
      rw [List.cons_append, keys_cons, List.nodup_cons] at h
      have hname : name ≠ key := by
        rintro rfl
        exact h.1 (List.mem_map.2 ⟨(name, value), by simp, rfl⟩)
      rw [insert_cons, if_neg hname, ih h.2, List.cons_append]

theorem mem_insert {entries : Entries α} {key : String} {value : α} {entry : String × α}
    (h : entry ∈ insert entries key value) : entry ∈ entries ∨ entry = (key, value) := by
  induction entries with
  | nil => exact .inr (by simpa [insert] using h)
  | cons first rest ih =>
      obtain ⟨name, old⟩ := first
      rw [insert_cons] at h
      split at h
      · next hname =>
          rcases List.mem_cons.1 h with h | h
          · exact .inr (by rw [h, hname])
          · exact .inl (List.mem_cons_of_mem _ h)
      · rcases List.mem_cons.1 h with h | h
        · exact .inl (by simp [h])
        · exact (ih h).imp (List.mem_cons_of_mem _) id

/-- Removing a name that is not there changes nothing. -/
theorem erase_eq_self {entries : Entries α} {key : String} (h : get? entries key = none) :
    erase entries key = entries := by
  refine List.filter_eq_self.2 fun entry hentry => ?_
  rw [get?_eq_none_iff] at h
  have hne : entry.1 ≠ key := by
    rintro rfl
    exact h (List.mem_map_of_mem hentry)
  simpa using hne

/-- A name that was removed is not there. -/
theorem get?_erase_self (entries : Entries α) (key : String) :
    get? (erase entries key) key = none := by
  rw [get?_eq_none_iff]
  intro h
  obtain ⟨entry, hentry, rfl⟩ := List.mem_map.1 h
  simp [erase] at hentry

/-- Removing a name disturbs no other name. -/
theorem get?_erase_of_ne {key other : String} (h : other ≠ key) (entries : Entries α) :
    get? (erase entries key) other = get? entries other := by
  induction entries with
  | nil => rfl
  | cons first rest ih =>
      obtain ⟨name, value⟩ := first
      rw [erase] at ih ⊢
      by_cases hname : name = key
      · subst hname
        simp [ih, get?_cons, Ne.symm h]
      · simp [get?_cons, hname, ih]

/-- What is written under a name goes away with it. -/
theorem erase_insert_self (entries : Entries α) (key : String) (value : α) :
    erase (insert entries key value) key = erase entries key := by
  induction entries with
  | nil => simp [insert, erase]
  | cons first rest ih =>
      obtain ⟨name, old⟩ := first
      rw [erase, erase] at ih
      by_cases hname : name = key
      · simp [insert_cons, erase, hname]
      · simp [insert_cons, erase, hname, ih]

/-- Writing under one name and removing another may be done in any order. -/
theorem erase_insert_of_ne {key other : String} (h : other ≠ key) (entries : Entries α)
    (value : α) :
    erase (insert entries other value) key = insert (erase entries key) other value := by
  induction entries with
  | nil => simp [insert, erase, h]
  | cons first rest ih =>
      obtain ⟨name, old⟩ := first
      rw [erase, erase] at ih
      by_cases hname : name = other
      · simp [insert_cons, erase, hname, h]
      · by_cases hkey : name = key
        · subst hkey
          simp [insert_cons, erase, hname, ih]
        · simp [insert_cons, erase, hname, hkey, ih]

/-- Names stay pairwise distinct while entries are written. -/
theorem nodup_keys_insertAll {entries : Entries α} (h : (keys entries).Nodup)
    (source : Entries α) : (keys (insertAll entries source)).Nodup := by
  induction source generalizing entries with
  | nil => exact h
  | cons first rest ih =>
      obtain ⟨key, value⟩ := first
      rw [insertAll_cons]
      exact ih (nodup_keys_insert h key value)

theorem nodup_keys_ofList (listed : List (String × α)) : (keys (ofList listed)).Nodup :=
  nodup_keys_insertAll (by simp) listed

theorem mem_insertAll {entries source : Entries α} {entry : String × α}
    (h : entry ∈ insertAll entries source) : entry ∈ entries ∨ entry ∈ source := by
  induction source generalizing entries with
  | nil => exact .inl h
  | cons first rest ih =>
      obtain ⟨key, value⟩ := first
      rcases ih h with h | h
      · rcases mem_insert h with h | rfl
        · exact .inl h
        · exact .inr (List.mem_cons_self ..)
      · exact .inr (List.mem_cons_of_mem _ h)

/-- What is left of entries that were written one after another was written. -/
theorem mem_of_mem_ofList {listed : List (String × α)} {entry : String × α}
    (h : entry ∈ ofList listed) : entry ∈ listed := by
  rcases mem_insertAll h with h | h
  · cases h
  · exact h

/-- New names are written behind those that are there, in their order. -/
theorem insertAll_of_nodup {entries source : Entries α} (h : (keys (entries ++ source)).Nodup) :
    insertAll entries source = entries ++ source := by
  induction source generalizing entries with
  | nil => simp
  | cons first rest ih =>
      obtain ⟨key, value⟩ := first
      rw [insertAll_cons, insert_of_nodup h, ih (by simpa using h), List.append_assoc]
      rfl

/-- Entries that are written after others are written over them. -/
theorem ofList_append {listed : Entries α} (h : (keys listed).Nodup)
    (others : List (String × α)) : ofList (listed ++ others) = insertAll listed others := by
  have hlisted : insertAll [] listed = listed := insertAll_of_nodup h
  rw [ofList, insertAll, List.foldl_append]
  exact congrArg (insertAll · others) hlisted

/-- **What is read after entries have been written** is what they say, and else what was there. -/
theorem get?_insertAll {source : Entries α} (hsource : (keys source).Nodup) (entries : Entries α)
    (key : String) :
    get? (insertAll entries source) key = (get? source key).or (get? entries key) := by
  induction source generalizing entries with
  | nil => rfl
  | cons first rest ih =>
      obtain ⟨name, value⟩ := first
      rw [keys_cons, List.nodup_cons] at hsource
      rw [insertAll_cons, ih hsource.2, get?_insert, get?_cons]
      by_cases hname : name = key
      · subst hname
        rw [if_pos rfl, if_pos rfl, get?_eq_none_iff.2 hsource.1, Option.none_or, Option.some_or]
      · rw [if_neg hname, if_neg hname]

/-- The names that were there come first, then those that are new. -/
theorem keys_insertAll {source : Entries α} (hsource : (keys source).Nodup) (entries : Entries α) :
    keys (insertAll entries source) =
      keys entries ++ (keys source).filter fun key => key ∉ keys entries := by
  induction source generalizing entries with
  | nil => simp
  | cons first rest ih =>
      obtain ⟨name, value⟩ := first
      rw [keys_cons, List.nodup_cons] at hsource
      rw [insertAll_cons, ih hsource.2, keys_insert, keys_cons, List.filter_cons]
      by_cases hname : name ∈ keys entries
      · simp [hname]
      · have hrest : (keys rest).filter (fun key => key ∉ keys entries ++ [name]) =
            (keys rest).filter fun key => key ∉ keys entries := by
          refine List.filter_congr fun key hkey => ?_
          have hne : key ≠ name := fun heq => hsource.1 (heq ▸ hkey)
          simp [hne]
        rw [if_neg hname, hrest]
        simp [hname]

/-- A name that is listed already may be written before or after other names. -/
theorem insert_insertAll {entries source : Entries α} {key : String} (hkey : key ∈ keys entries)
    (hsource : key ∉ keys source) (value : α) :
    insert (insertAll entries source) key value = insertAll (insert entries key value) source := by
  induction source generalizing entries with
  | nil => rfl
  | cons first rest ih =>
      obtain ⟨name, other⟩ := first
      rw [keys_cons, List.mem_cons, not_or] at hsource
      have hlisted : key ∈ keys (insert entries name other) := by
        rw [keys_insert]
        split
        · exact hkey
        · exact List.mem_append_left _ hkey
      rw [insertAll_cons, insertAll_cons, ih hlisted hsource.2,
        insert_comm hsource.1 hkey value other]

/-- Writing what was written into a source is a last write. -/
theorem insertAll_insert {source : Entries α} (hsource : (keys source).Nodup)
    (entries : Entries α) (key : String) (value : α) :
    insertAll entries (insert source key value) = insert (insertAll entries source) key value := by
  induction source generalizing entries with
  | nil => rfl
  | cons first rest ih =>
      obtain ⟨name, old⟩ := first
      rw [keys_cons, List.nodup_cons] at hsource
      rw [insert_cons]
      split
      · next hname =>
          subst hname
          have hlisted : name ∈ keys (insert entries name old) :=
            mem_keys_of_get? (get?_insert_self entries name old)
          rw [insertAll_cons, insertAll_cons, insert_insertAll hlisted hsource.1,
            insert_insert_self]
      · rw [insertAll_cons, insertAll_cons, ih hsource.2]

/-- The names that are kept are the names of what is kept. -/
theorem keys_filter (keep : String → Bool) (entries : Entries α) :
    keys (entries.filter fun entry => keep entry.1) = (keys entries).filter keep := by
  rw [keys, keys, List.filter_map]
  rfl

/-- What stands under a name that is kept is read as before. -/
theorem get?_filter (keep : String → Bool) {key : String} (h : keep key = true)
    (entries : Entries α) :
    get? (entries.filter fun entry => keep entry.1) key = get? entries key := by
  induction entries with
  | nil => rfl
  | cons first rest ih =>
      obtain ⟨name, value⟩ := first
      by_cases hname : name = key
      · subst hname
        simp [h, get?_cons]
      · rw [List.filter_cons, get?_cons, if_neg hname]
        split
        · rw [get?_cons, if_neg hname, ih]
        · exact ih

/-- Of a write nothing is left when its name is not kept. -/
theorem filter_insert (keep : String → Bool) (entries : Entries α) (key : String) (value : α) :
    (insert entries key value).filter (fun entry => keep entry.1) =
      if keep key then insert (entries.filter fun entry => keep entry.1) key value
      else entries.filter fun entry => keep entry.1 := by
  induction entries with
  | nil => by_cases hkey : keep key = true <;> simp [insert, hkey]
  | cons first rest ih =>
      obtain ⟨name, old⟩ := first
      rw [insert_cons]
      by_cases hname : name = key
      · subst hname
        by_cases hkey : keep name = true <;> simp [hkey, insert_cons]
      · by_cases hkey : keep key = true <;> by_cases hold : keep name = true <;>
          simp [hname, hkey, hold, ih, insert_cons]

/-! ### Tables made of tables -/

/-- What is made of a table after a write is a write in what is made of the table. -/
theorem map_insert {β : Type} (change : String → α → β) (entries : Entries α)
    (key : String) (value : α) :
    (insert entries key value).map (fun entry => (entry.1, change entry.1 entry.2)) =
      insert (entries.map fun entry => (entry.1, change entry.1 entry.2)) key
        (change key value) := by
  induction entries with
  | nil => rfl
  | cons entry rest ih =>
      obtain ⟨name, old⟩ := entry
      rw [insert_cons, List.map_cons, insert_cons]
      split
      · next hname => rw [List.map_cons, hname]
      · rw [List.map_cons, ih]

/-- Removing a name from what is made of a table is removing it from the table. -/
theorem map_erase {β : Type} (change : String → α → β) (entries : Entries α) (key : String) :
    (erase entries key).map (fun entry => (entry.1, change entry.1 entry.2)) =
      erase (entries.map fun entry => (entry.1, change entry.1 entry.2)) key := by
  rw [erase, erase, List.filter_map]
  rfl

/-- What is read in what is made of a table is made of what is read in the table. -/
theorem get?_map {β : Type} (change : String → α → β) (entries : Entries α)
    (key : String) :
    get? (entries.map fun entry => (entry.1, change entry.1 entry.2)) key =
      (get? entries key).map (change key) := by
  induction entries with
  | nil => rfl
  | cons entry rest ih =>
      obtain ⟨name, value⟩ := entry
      rw [List.map_cons, get?_cons, get?_cons]
      split
      · next hname => rw [Option.map_some, hname]
      · exact ih

end Entries

end StoreSchema
