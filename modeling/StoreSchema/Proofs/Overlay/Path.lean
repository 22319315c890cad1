/-
**Changes along a path of fields.**

A path of fields leads from an object through its `properties` to one of them, from there to one of
its own, and so on.  Each step of a change along such a path updates what stands under one name, and
updates under different names may be done in any order.  A change of the block of an object keeps
clear of its properties; hence changes of the blocks at two different paths do not get in each
other's way, even when one of the paths leads on from the other.

Main definitions:

* `Entries.update?` — a table with what stands under a name updated;
* `Json.update?` — an object with its members updated;
* `Overlay.KeepsProperties` — that a change of an object keeps clear of its properties.

Main results:

* `Entries.update?_bind_self`, `Entries.update?_comm` — updates under one name, and under two;
* `Overlay.updateProperty_cons` — one step along a path;
* `Overlay.keepsProperties_mergeBlock` — merging into a block keeps clear of the properties;
* `Overlay.updateProperty_comm` — **changes at different paths may be done in any order**.
-/

import StoreSchema.Overlay

set_option relaxedAutoImplicit false
set_option autoImplicit false

namespace StoreSchema

/-! ### Updates under a name -/

namespace Entries

variable {α : Type} {entries updated : Entries α} {key other : String}

/-- The table with what stands under `key` updated; nothing when there is nothing, or when it has no
update. -/
def update? (entries : Entries α) (key : String) (change : α → Option α) : Option (Entries α) :=
  (get? entries key).bind fun value => (change value).map (insert entries key)

theorem update?_eq_some_iff {change : α → Option α} :
    update? entries key change = some updated ↔
      ∃ value changed, get? entries key = some value ∧ change value = some changed ∧
        updated = insert entries key changed := by
  rw [update?, Option.bind_eq_some_iff]
  constructor
  · rintro ⟨value, hvalue, h⟩
    obtain ⟨changed, hchanged, rfl⟩ := Option.map_eq_some_iff.1 h
    exact ⟨value, changed, hvalue, hchanged, rfl⟩
  · rintro ⟨value, changed, hvalue, hchanged, rfl⟩
    exact ⟨value, hvalue, Option.map_eq_some_iff.2 ⟨changed, hchanged, rfl⟩⟩

/-- An update keeps the names. -/
theorem keys_of_update? {change : α → Option α} (h : update? entries key change = some updated) :
    keys updated = keys entries := by
  obtain ⟨value, changed, hvalue, _, rfl⟩ := update?_eq_some_iff.1 h
  rw [keys_insert, if_pos (mem_keys_of_get? hvalue)]

/-- Two updates under one name are a single one. -/
theorem update?_bind_self (entries : Entries α) (key : String) (first second : α → Option α) :
    (update? entries key first).bind (fun updated => update? updated key second) =
      update? entries key fun value => (first value).bind second := by
  rw [update?, update?]
  cases hget : get? entries key with
  | none => rfl
  | some value =>
      rw [Option.bind_some, Option.bind_some]
      cases first value with
      | none => rfl
      | some changed =>
          rw [Option.map_some, Option.bind_some, Option.bind_some, update?, get?_insert_self,
            Option.bind_some]
          congr 1
          funext again
          exact insert_insert_self entries key changed again

/-- Of two updates under different names, each finds the value that it finds without the other. -/
theorem update?_bind_of_ne (h : key ≠ other) (entries : Entries α) (first second : α → Option α) :
    (update? entries key first).bind (fun updated => update? updated other second) =
      ((get? entries key).bind first).bind fun changed =>
        ((get? entries other).bind second).map (insert (insert entries key changed) other) := by
  rw [update?]
  cases get? entries key with
  | none => rfl
  | some value =>
      rw [Option.bind_some, Option.bind_some]
      cases first value with
      | none => rfl
      | some changed =>
          rw [Option.map_some, Option.bind_some, Option.bind_some, update?, get?_insert, if_neg h]
          cases get? entries other <;> rfl

/-- **Updates under two names may be done in any order.** -/
theorem update?_comm (h : key ≠ other) (entries : Entries α) (first second : α → Option α) :
    (update? entries key first).bind (fun updated => update? updated other second) =
      (update? entries other second).bind fun updated => update? updated key first := by
  rw [update?_bind_of_ne h, update?_bind_of_ne (Ne.symm h)]
  cases hkey : get? entries key with
  | none => simp
  | some value =>
      have hmem : key ∈ keys entries := mem_keys_of_get? hkey
      rw [Option.bind_some]
      cases first value with
      | none => simp
      | some changed =>
          cases (get? entries other).bind second with
          | none => rfl
          | some changed' =>
              rw [Option.bind_some, Option.bind_some, Option.map_some, Option.map_some,
                insert_comm h hmem]

end Entries

/-- The object with its members updated; nothing for a value that is no object. -/
def Json.update? (change : Members → Option Members) : Json → Option Json
  | .obj members => (change members).map .obj
  | _ => none

theorem Json.update?_eq_some_iff {change : Members → Option Members} {value updated : Json} :
    value.update? change = some updated ↔
      ∃ members changed, value = .obj members ∧ change members = some changed ∧
        updated = .obj changed := by
  cases value with
  | obj members => simp [update?, eq_comm]
  | _ => simp [update?]

theorem Json.update?_bind (first second : Members → Option Members) (value : Json) :
    (value.update? first).bind (Json.update? second) =
      value.update? fun members => (first members).bind second := by
  cases value with
  | obj members =>
      rw [update?, update?]
      cases first members <;> rfl
  | _ => rfl

namespace Overlay

/-! ### Changes along a path -/

variable {change change' : Members → Members}

@[simp] theorem updateProperty_nil (change : Members → Members) (members : Members) :
    updateProperty change [] members = some (change members) := rfl

/-- **One step along a path** updates the properties of an object, there what stands under the
field, and that along the rest of the path. -/
theorem updateProperty_cons (change : Members → Members) (field : String) (rest : List String)
    (members : Members) :
    updateProperty change (field :: rest) members =
      Entries.update? members "properties" (Json.update? fun properties =>
        Entries.update? properties field (Json.update? (updateProperty change rest))) := by
  rw [updateProperty, Entries.update?]
  cases Entries.get? members "properties" with
  | none => rfl
  | some value =>
      cases value with
      | obj properties =>
          dsimp only [Option.bind_some, Json.update?]
          rw [Entries.update?, Option.map_map]
          cases Entries.get? properties field with
          | none => rfl
          | some property =>
              cases property with
              | obj members' =>
                  dsimp only [Option.bind_some, Json.update?]
                  rw [Option.map_map, Option.map_map]
                  rfl
              | _ => rfl
      | _ => rfl

/-- Changes below two fields of an object are both changes of its properties. -/
theorem updateProperty_bind_cons (field field' : String) (rest rest' : List String)
    (members : Members) :
    (updateProperty change (field :: rest) members).bind
        (updateProperty change' (field' :: rest')) =
      Entries.update? members "properties" (Json.update? fun properties =>
        (Entries.update? properties field (Json.update? (updateProperty change rest))).bind
          fun updated =>
            Entries.update? updated field' (Json.update? (updateProperty change' rest'))) := by
  have hsecond : updateProperty change' (field' :: rest') = fun updated =>
      Entries.update? updated "properties" (Json.update? fun properties =>
        Entries.update? properties field' (Json.update? (updateProperty change' rest'))) := by
    funext updated
    exact updateProperty_cons change' field' rest' updated
  rw [updateProperty_cons, hsecond, Entries.update?_bind_self]
  congr 1
  funext value
  exact Json.update?_bind _ _ value

/-- That a change of an object keeps clear of its properties: these may be updated before or
after. -/
def KeepsProperties (change : Members → Members) : Prop :=
  ∀ members update, Entries.update? (change members) "properties" update =
    (Entries.update? members "properties" update).map change

/-- Merging into a block keeps clear of the properties. -/
theorem keepsProperties_mergeBlock {key : String} (hkey : key ≠ "properties")
    (directive : Members) : KeepsProperties (mergeBlock key directive) := by
  intro members update
  have hget : Entries.get? (mergeBlock key directive members) "properties" =
      Entries.get? members "properties" := by
    rw [mergeBlock, Entries.get?_insert, if_neg hkey]
  rw [Entries.update?, Entries.update?, hget]
  cases hvalue : Entries.get? members "properties" with
  | none => rfl
  | some value =>
      rw [Option.bind_some, Option.bind_some, Option.map_map]
      congr 1
      funext changed
      -- the block is the same after the properties have been written
      have hblock : Entries.get? (Entries.insert members "properties" changed) key =
          Entries.get? members key := by
        rw [Entries.get?_insert, if_neg (Ne.symm hkey)]
      have hproperties := Entries.mem_keys_of_get? hvalue
      rw [Function.comp_apply, mergeBlock, mergeBlock, hblock,
        Entries.insert_comm (Ne.symm hkey) hproperties]

/-- A change of an object may be done before or after a change below it. -/
theorem KeepsProperties.updateProperty_cons_eq (h : KeepsProperties change) (field : String)
    (rest : List String) (members : Members) :
    updateProperty change' (field :: rest) (change members) =
      (updateProperty change' (field :: rest) members).map change := by
  rw [updateProperty_cons, updateProperty_cons, h]

/-- **Changes at different paths may be done in any order**, and one of them can be done after the
other exactly when it can be done before. -/
theorem updateProperty_comm (h : KeepsProperties change) (h' : KeepsProperties change')
    {fields fields' : List String} (hne : fields ≠ fields') (members : Members) :
    (updateProperty change fields members).bind (updateProperty change' fields') =
      (updateProperty change' fields' members).bind (updateProperty change fields) := by
  induction fields generalizing fields' members with
  | nil =>
      cases fields' with
      | nil => exact absurd rfl hne
      | cons field' rest' =>
          rw [updateProperty_nil, Option.bind_some, h.updateProperty_cons_eq]
          exact Option.map_eq_bind
  | cons field rest ih =>
      cases fields' with
      | nil =>
          rw [updateProperty_nil, Option.bind_some, h'.updateProperty_cons_eq]
          exact Option.map_eq_bind.symm
      | cons field' rest' =>
          rw [updateProperty_bind_cons, updateProperty_bind_cons]
          by_cases hfield : field = field'
          · subst hfield
            have hrest : rest ≠ rest' := by
              intro hrest
              exact hne (by rw [hrest])
            -- both changes lie below the same property
            have hbelow (value : Json) :
                (value.update? (updateProperty change rest)).bind
                    (Json.update? (updateProperty change' rest')) =
                  (value.update? (updateProperty change' rest')).bind
                    (Json.update? (updateProperty change rest)) := by
              rw [Json.update?_bind, Json.update?_bind]
              congr 1
              funext property
              exact ih hrest property
            simp only [Entries.update?_bind_self, hbelow]
          · simp only [Entries.update?_comm hfield]

end Overlay

end StoreSchema
