/-
**Which values describe an index.**

Reading an index names places only to report causes.  Whether a value describes an index, and which
one, can be told from the value alone: it is an object, it gives its fields their directions, under
`fields` or among its own members, and sets two options or leaves them out.  A directive describes
a list of indexes, item by item or member by member, and a value that describes an index by itself
describes that one as a directive.

Main definitions:

* `IndexSpec.HasFlag`, `IndexSpec.SetsFlags` — the option that members set, and both of an index;
* `IndexSpec.Directing`, `IndexSpec.Directs` — the members that give directions, and the fields that
  they give them to;
* `IndexSpec.Describes` — **that a value describes an index**;
* `IndexSpec.isNamed` — whether an object is taken for indexes under names.

Main results:

* `IndexSpec.parse_eq_ok_iff` — **a value is read as the index that it describes**;
* `IndexSpec.parseItems_eq_ok_iff`, `IndexSpec.parseMembers_eq_ok_iff` — items and members are read
  as the indexes that they describe one by one;
* `IndexSpec.parseAll_of_describes`, `IndexSpec.parseAll_of_forall₂` — a directive that is an index,
  and an object of indexes under names.
-/

import Mathlib.Data.List.Forall2
import StoreSchema.Index
import StoreSchema.Proofs.Paired

set_option relaxedAutoImplicit false
set_option autoImplicit false

namespace StoreSchema.IndexSpec

/-! ### One index -/

/-- That members set the option under `key` to a value; leaving it out, or setting it to null, sets
it to the default. -/
inductive HasFlag (members : Members) (key : String) (default : Bool) : Bool → Prop where
  | absent (h : Entries.get? members key = none) : HasFlag members key default default
  | null (h : Entries.get? members key = some .null) : HasFlag members key default default
  | given {value : Bool} (h : Entries.get? members key = some (.bool value)) :
      HasFlag members key default value

theorem HasFlag.congr {members other : Members} {key : String} {default value : Bool}
    (h : Entries.get? other key = Entries.get? members key)
    (hflag : HasFlag members key default value) : HasFlag other key default value := by
  cases hflag with
  | absent hget => exact .absent (h.trans hget)
  | null hget => exact .null (h.trans hget)
  | given hget => exact .given (h.trans hget)

/-- That members set the options of an index. -/
structure SetsFlags (members : Members) (spec : IndexSpec) : Prop where
  /-- They say whether it is unique; by default it is not. -/
  unique : HasFlag members "unique" false spec.unique
  /-- They say whether it is built beside other work; by default it is. -/
  background : HasFlag members "background" true spec.background

theorem SetsFlags.congr {members other : Members} {spec : IndexSpec}
    (h : ∀ key ∈ optionKeys, Entries.get? other key = Entries.get? members key)
    (hflags : SetsFlags members spec) : SetsFlags other spec where
  unique := hflags.unique.congr (h "unique" (by decide))
  background := hflags.background.congr (h "background" (by decide))

/-- **The members that give fields their directions**: those under `fields`, or all that are no
options. -/
inductive Directing (members : Members) : Members → Prop where
  | explicit {named : Members} (h : Entries.get? members "fields" = some (.obj named)) :
      Directing members named
  | flat (h : Entries.get? members "fields" = none) :
      Directing members (members.filter fun member => !optionKeys.contains member.1)

/-- That members give the fields their directions, in order. -/
def Directs (members : Members) (fields : List (String × IndexDirection)) : Prop :=
  Entries.Paired (fun _ value direction => IndexDirection.parse? value = some direction)
    members fields

/-- **That a value describes an index.** -/
structure Describes (value : Json) (spec : IndexSpec) : Prop where
  /-- The value is an object. -/
  isObject : value.isObject = true
  /-- It gives the fields their directions. -/
  directs : ∃ named, Directing value.members named ∧ Directs named spec.fields
  /-- There is a field. -/
  nonempty : spec.fields ≠ []
  /-- It sets the options. -/
  flags : SetsFlags value.members spec

theorem flag_eq_ok_iff {members : Members} {key : String} {default value : Bool}
    {place : Pointer} :
    flag members key default place = .ok value ↔ HasFlag members key default value := by
  constructor
  · intro h
    rw [flag] at h
    split at h
    · next hget =>
        cases h
        exact .absent hget
    · next hget =>
        cases h
        exact .null hget
    · next hget =>
        cases h
        exact .given hget
    · cases h
  · intro h
    rw [flag]
    cases h with
    | absent hget => rw [hget]
    | null hget => rw [hget]
    | given hget => rw [hget]

theorem fieldMembers_eq_ok_iff {members named : Members} {place : Pointer} :
    fieldMembers members place = .ok named ↔ Directing members named := by
  constructor
  · intro h
    rw [fieldMembers] at h
    split at h
    · next hget =>
        cases h
        exact .explicit hget
    · cases h
    · next hget =>
        cases h
        exact .flat hget
  · intro h
    rw [fieldMembers]
    cases h with
    | explicit hget => rw [hget]
    | flat hget => rw [hget]

theorem directions_eq_ok_iff {members : Members} {fields : List (String × IndexDirection)}
    {place : Pointer} : directions place members = .ok fields ↔ Directs members fields := by
  constructor
  · intro h
    induction members generalizing fields with
    | nil =>
        cases h
        exact .nil
    | cons member rest ih =>
        obtain ⟨field, value⟩ := member
        rw [directions] at h
        split at h
        · cases h
        · next direction hdirection =>
            obtain ⟨others, hothers, rfl⟩ := Outcome.map_eq_ok_iff.1 h
            exact .cons hdirection (ih hothers)
  · intro h
    induction h with
    | nil => rfl
    | cons hdirection hrest ih =>
        rw [directions, hdirection]
        exact Outcome.map_eq_ok_iff.2 ⟨_, ih, rfl⟩

/-- **A value is read as the index that it describes**, at any place. -/
theorem parse_eq_ok_iff {value : Json} {spec : IndexSpec} {place : Pointer} :
    parse value place = .ok spec ↔ Describes value spec := by
  constructor
  · intro h
    cases value with
    | obj members =>
        obtain ⟨named, hnamed, h⟩ := Outcome.bind_eq_ok_iff.1 h
        obtain ⟨unique, hunique, h⟩ := Outcome.bind_eq_ok_iff.1 h
        obtain ⟨background, hbackground, h⟩ := Outcome.bind_eq_ok_iff.1 h
        obtain ⟨fields, hfields, h⟩ := Outcome.bind_eq_ok_iff.1 h
        split at h
        · cases h
        · next hempty =>
            cases h
            exact {
              isObject := rfl
              directs := ⟨named, fieldMembers_eq_ok_iff.1 hnamed, directions_eq_ok_iff.1 hfields⟩
              nonempty := fun heq => hempty (List.isEmpty_iff.2 heq)
              flags := ⟨flag_eq_ok_iff.1 hunique, flag_eq_ok_iff.1 hbackground⟩ }
    | _ => cases h
  · intro h
    obtain ⟨named, hnamed, hfields⟩ := h.directs
    rw [Json.isObject_iff.1 h.isObject]
    refine Outcome.bind_eq_ok_iff.2 ⟨named, fieldMembers_eq_ok_iff.2 hnamed, ?_⟩
    refine Outcome.bind_eq_ok_iff.2 ⟨_, flag_eq_ok_iff.2 h.flags.unique, ?_⟩
    refine Outcome.bind_eq_ok_iff.2 ⟨_, flag_eq_ok_iff.2 h.flags.background, ?_⟩
    refine Outcome.bind_eq_ok_iff.2 ⟨_, directions_eq_ok_iff.2 hfields, ?_⟩
    rw [if_neg (fun hempty => h.nonempty (List.isEmpty_iff.1 hempty))]
    rfl

/-! ### All indexes of a directive -/

/-- Items are read as the indexes that they describe, one by one. -/
theorem parseItems_eq_ok_iff {items : List Json} {specs : List IndexSpec} {place : Pointer}
    {start : Nat} :
    parseItems place start items = .ok specs ↔ List.Forall₂ Describes items specs := by
  constructor
  · intro h
    induction items generalizing start specs with
    | nil =>
        cases h
        exact .nil
    | cons item rest ih =>
        obtain ⟨first, hfirst, h⟩ := Outcome.bind_eq_ok_iff.1 h
        obtain ⟨others, hothers, h⟩ := Outcome.bind_eq_ok_iff.1 h
        cases h
        exact .cons (parse_eq_ok_iff.1 hfirst) (ih hothers)
  · intro h
    induction h generalizing start with
    | nil => rfl
    | cons hfirst hrest ih =>
        refine Outcome.bind_eq_ok_iff.2 ⟨_, parse_eq_ok_iff.2 hfirst, ?_⟩
        exact Outcome.bind_eq_ok_iff.2 ⟨_, ih, rfl⟩

/-- Members are read as the indexes that their values describe, whatever their names are. -/
theorem parseMembers_eq_ok_iff {members : Members} {specs : List IndexSpec} {place : Pointer} :
    parseMembers place members = .ok specs ↔
      List.Forall₂ Describes (members.map Prod.snd) specs := by
  induction members generalizing specs with
  | nil =>
      rw [List.map_nil, List.forall₂_nil_left_iff]
      exact ⟨fun h => (Except.ok.inj h).symm, fun h => congrArg Except.ok h.symm⟩
  | cons member rest ih =>
      obtain ⟨name, value⟩ := member
      rw [List.map_cons, List.forall₂_cons_left_iff]
      constructor
      · intro h
        obtain ⟨first, hfirst, h⟩ := Outcome.bind_eq_ok_iff.1 h
        obtain ⟨others, hothers, h⟩ := Outcome.bind_eq_ok_iff.1 h
        cases h
        exact ⟨first, others, parse_eq_ok_iff.1 hfirst, ih.1 hothers, rfl⟩
      · rintro ⟨first, others, hfirst, hothers, rfl⟩
        refine Outcome.bind_eq_ok_iff.2 ⟨first, parse_eq_ok_iff.2 hfirst, ?_⟩
        exact Outcome.bind_eq_ok_iff.2 ⟨others, ih.2 hothers, rfl⟩

/-- An object is no direction. -/
theorem not_isObject_of_parse? {value : Json} {direction : IndexDirection}
    (h : IndexDirection.parse? value = some direction) : value.isObject = false := by
  cases value with
  | obj members => cases h
  | _ => rfl

/-- Members that give a direction are not all objects. -/
theorem Directs.exists_not_isObject {members : Members} {fields : List (String × IndexDirection)}
    (h : Directs members fields) (hfields : fields ≠ []) :
    ∃ member ∈ members, member.2.isObject = false := by
  cases h with
  | nil => exact absurd rfl hfields
  | cons hdirection hrest =>
      exact ⟨_, List.mem_cons_self .., not_isObject_of_parse? hdirection⟩

/-- Whether an object is taken for indexes under names. -/
def isNamed (members : Members) : Bool :=
  !Entries.contains members "fields" && members.all fun member => member.2.isObject

theorem parseAll_obj (members : Members) (place : Pointer) :
    parseAll (.obj members) place =
      if members.isEmpty then .ok []
      else if isNamed members then parseMembers place members
      else (parse (.obj members) place).map fun spec => [spec] := rfl

/-- An object that describes an index has `fields` or a member that is no object, so it is not
taken for indexes under names. -/
theorem Describes.isNamed_eq_false {members : Members} {spec : IndexSpec}
    (h : Describes (.obj members) spec) : isNamed members = false := by
  obtain ⟨named, hnamed, hfields⟩ := h.directs
  rw [isNamed, Bool.and_eq_false_iff]
  cases hnamed with
  | explicit hget =>
      rw [Json.members_obj] at hget
      exact .inl (by simp [Entries.contains, hget])
  | flat hget =>
      obtain ⟨member, hmember, hobject⟩ := hfields.exists_not_isObject h.nonempty
      refine .inr (List.all_eq_false.2 ⟨member, (List.mem_filter.1 hmember).1, ?_⟩)
      simp [hobject]

/-- **A directive that describes an index is that index.** -/
theorem parseAll_of_describes {value : Json} {spec : IndexSpec} (h : Describes value spec)
    (place : Pointer) : parseAll value place = .ok [spec] := by
  obtain ⟨members, rfl⟩ : ∃ members, value = .obj members := ⟨_, Json.isObject_iff.1 h.isObject⟩
  have hmembers : members ≠ [] := by
    -- an object without members has no member that is no object
    rintro rfl
    cases h.isNamed_eq_false
  rw [parseAll_obj, if_neg (by simpa using hmembers), h.isNamed_eq_false,
    if_neg Bool.false_ne_true, parse_eq_ok_iff.2 h]
  rfl

/-- A directive whose members are objects is read member by member, unless one of them is called
`fields`. -/
theorem parseAll_of_not_mem {members : Members} (hname : "fields" ∉ Entries.keys members)
    (hobjects : ∀ member ∈ members, member.2.isObject = true) (place : Pointer) :
    parseAll (.obj members) place = parseMembers place members := by
  have hcontains : Entries.contains members "fields" = false :=
    eq_false_of_ne_true fun h => hname (Entries.contains_iff.1 h)
  have hnamed : isNamed members = true := by
    rw [isNamed, hcontains, List.all_eq_true.2 hobjects]
    rfl
  rw [parseAll_obj, if_pos hnamed]
  split
  · next hempty =>
      rw [List.isEmpty_iff.1 hempty]
      rfl
  · rfl

/-- A directive with a member called `fields` is one index, if any. -/
theorem parseAll_of_mem {members : Members} (hname : "fields" ∈ Entries.keys members)
    (place : Pointer) :
    parseAll (.obj members) place = (parse (.obj members) place).map fun spec => [spec] := by
  have hmembers : members ≠ [] := by
    rintro rfl
    cases hname
  have hnamed : isNamed members = false := by
    rw [isNamed, Entries.contains_iff.2 hname]
    rfl
  rw [parseAll_obj, if_neg (by simpa using hmembers), hnamed, if_neg Bool.false_ne_true]

/-- An array is read as the indexes that its items describe. -/
theorem parseAll_arr_eq_ok_iff {items : List Json} {specs : List IndexSpec} {place : Pointer} :
    parseAll (.arr items) place = .ok specs ↔ List.Forall₂ Describes items specs :=
  parseItems_eq_ok_iff

/-- What describes an index is an object. -/
theorem isObject_of_forall₂ {items : List Json} {specs : List IndexSpec}
    (h : List.Forall₂ Describes items specs) : ∀ item ∈ items, item.isObject = true := by
  induction h with
  | nil => exact nofun
  | cons hfirst hrest ih => exact List.forall_mem_cons.2 ⟨hfirst.isObject, ih⟩

/-- **An object of indexes under names** is read as these indexes, unless one of them is called
`fields`. -/
theorem parseAll_of_forall₂ {members : Members} {specs : List IndexSpec}
    (hname : "fields" ∉ Entries.keys members)
    (h : List.Forall₂ Describes (members.map Prod.snd) specs) (place : Pointer) :
    parseAll (.obj members) place = .ok specs := by
  have hobjects : ∀ member ∈ members, member.2.isObject = true := fun member hmember =>
    isObject_of_forall₂ h member.2 (List.mem_map_of_mem hmember)
  rw [parseAll_of_not_mem hname hobjects]
  exact parseMembers_eq_ok_iff.2 h

/-- Every index that a directive describes is described by some value. -/
theorem exists_describes_of_forall₂ {items : List Json} {specs : List IndexSpec}
    (h : List.Forall₂ Describes items specs) {spec : IndexSpec} (hspec : spec ∈ specs) :
    ∃ item, Describes item spec := by
  induction h with
  | nil => cases hspec
  | cons hfirst hrest ih =>
      rcases List.mem_cons.1 hspec with rfl | hspec
      · exact ⟨_, hfirst⟩
      · exact ih hspec

theorem exists_describes_of_mem {value : Json} {specs : List IndexSpec} {place : Pointer}
    (h : parseAll value place = .ok specs) {spec : IndexSpec} (hspec : spec ∈ specs) :
    ∃ item, Describes item spec := by
  cases value with
  | null =>
      cases h
      cases hspec
  | arr items => exact exists_describes_of_forall₂ (parseItems_eq_ok_iff.1 h) hspec
  | obj members =>
      rw [parseAll_obj] at h
      split at h
      · cases h
        cases hspec
      · split at h
        · exact exists_describes_of_forall₂ (parseMembers_eq_ok_iff.1 h) hspec
        · obtain ⟨found, hfound, rfl⟩ := Outcome.map_eq_ok_iff.1 h
          rw [List.mem_singleton.1 hspec]
          exact ⟨_, parse_eq_ok_iff.1 hfound⟩
  | _ => cases h

end StoreSchema.IndexSpec
