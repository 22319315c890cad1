/-
**The notations of indexes.**

An index can be written with its fields apart, under `fields`, or flat, its options among its
fields; and several indexes as an array, or as an object under names.  The notations are told apart
by what stands in the object.  They agree wherever they can be told apart: a field of the flat
notation must not be called like an option, nor `fields`, and no index of an object may go by the
name `fields`.  An index of that name is taken for the fields of a single one, and the others are
lost.

Main definitions:

* `IndexSpec.Proper` — that an index has fields under distinct names;
* `IndexSpec.printedFields`, `IndexSpec.OptionsOf` — the fields of an index in print, and members
  that are its options;
* `IndexSpec.WrittenAs` — **the notations of an index**;
* `IndexSpec.explicit`, `IndexSpec.flat` — an index in either notation, with all options.

Main results:

* `IndexSpec.describes_of_writtenAs` — a notation of an index describes it;
* `IndexSpec.notations_agree` — **indexes are read back in all notations**, and what is read is
  proper;
* `IndexSpec.no_index_lost_iff` — **an object of indexes under names is read like the array of
  them exactly when none is called `fields`**.
-/

import StoreSchema.Proofs.Index.Described
import StoreSchema.Proofs.Overlay.Distinct

set_option relaxedAutoImplicit false
set_option autoImplicit false

namespace StoreSchema

/-- A direction in print is read back. -/
theorem IndexDirection.parse?_toJson (direction : IndexDirection) :
    parse? direction.toJson = some direction := by cases direction <;> rfl

namespace IndexSpec

variable {spec : IndexSpec}

/-! ### Writing -/

/-- That an index has fields, and no two of one name. -/
structure Proper (spec : IndexSpec) : Prop where
  /-- There is a field. -/
  nonempty : spec.fields ≠ []
  /-- The names of the fields are distinct. -/
  nodup : spec.fieldNames.Nodup

/-- The fields of an index in print. -/
def printedFields (spec : IndexSpec) : Members :=
  spec.fields.map fun field => (field.1, field.2.toJson)

/-- The options of an index in print: that it is not unique goes without saying. -/
def printedOptions (spec : IndexSpec) : Members :=
  (if spec.unique then [("unique", .bool true)] else []) ++
    [("background", .bool spec.background)]

theorem toJson_eq (spec : IndexSpec) :
    spec.toJson = .arr [.obj spec.printedFields, .obj spec.printedOptions] := rfl

theorem keys_printedFields (spec : IndexSpec) :
    Entries.keys spec.printedFields = spec.fieldNames := by
  rw [Entries.keys, printedFields, List.map_map, fieldNames]
  rfl

/-- Fields in print give themselves their directions. -/
theorem directs_printedFields (spec : IndexSpec) : Directs spec.printedFields spec.fields := by
  have hself : Entries.Paired (fun _ direction direction' => direction = direction')
      spec.fields spec.fields := .refl (fun _ _ => rfl) spec.fields
  refine hself.map_left (fun _ direction => direction.toJson) ?_
  rintro _ direction _ rfl
  exact direction.parse?_toJson

/-- That members are the options of an index, and nothing else. -/
structure OptionsOf (spec : IndexSpec) (members : Members) : Prop where
  /-- They are options. -/
  keys : ∀ member ∈ members, member.1 ∈ optionKeys
  /-- They are set as in the index. -/
  flags : SetsFlags members spec

/-- Both options of an index. -/
def options (spec : IndexSpec) : Members :=
  [("unique", .bool spec.unique), ("background", .bool spec.background)]

theorem optionsOf_options (spec : IndexSpec) : spec.OptionsOf spec.options where
  keys := by simp [options, optionKeys]
  flags := ⟨.given rfl, .given rfl⟩

theorem optionsOf_printedOptions (spec : IndexSpec) : spec.OptionsOf spec.printedOptions := by
  obtain ⟨fields, unique, background⟩ := spec
  cases unique with
  | true => exact ⟨by simp [printedOptions, optionKeys], .given rfl, .given rfl⟩
  | false => exact ⟨by simp [printedOptions, optionKeys], .absent rfl, .given rfl⟩

/-- **That a value is an index in some notation.**  Options may stand anywhere in it, and be left
out where they are the default. -/
inductive WrittenAs (spec : IndexSpec) : Json → Prop where
  /-- The fields stand apart. -/
  | explicit {members : Members}
      (hfields : Entries.get? members "fields" = some (.obj spec.printedFields))
      (hflags : SetsFlags members spec) : WrittenAs spec (.obj members)
  /-- The fields are all that is no option, and none of them is called `fields`. -/
  | flat {members : Members} (hname : "fields" ∉ spec.fieldNames)
      (hfields : (members.filter fun member => !optionKeys.contains member.1) = spec.printedFields)
      (hflags : SetsFlags members spec) : WrittenAs spec (.obj members)

/-- The options of an index behind its fields, which stand under `fields`. -/
theorem OptionsOf.writtenAs_explicit {members : Members} (h : spec.OptionsOf members) :
    spec.WrittenAs (.obj (("fields", .obj spec.printedFields) :: members)) := by
  refine .explicit rfl (h.flags.congr fun key hkey => ?_)
  have hne : "fields" ≠ key := by
    rintro rfl
    exact absurd hkey (by decide)
  rw [Entries.get?_cons, if_neg hne]

/-- The options of an index behind its fields, which have other names. -/
theorem OptionsOf.writtenAs_flat {members : Members} (h : spec.OptionsOf members)
    (hname : "fields" ∉ spec.fieldNames) (hoptions : ∀ key ∈ optionKeys, key ∉ spec.fieldNames) :
    spec.WrittenAs (.obj (spec.printedFields ++ members)) := by
  rw [← keys_printedFields] at hoptions
  have hkept : (spec.printedFields.filter fun member => !optionKeys.contains member.1) =
      spec.printedFields := by
    refine List.filter_eq_self.2 fun member hmember => ?_
    simpa using fun hkey => hoptions member.1 hkey (List.mem_map_of_mem hmember)
  have hdropped : (members.filter fun member => !optionKeys.contains member.1) = [] := by
    refine List.filter_eq_nil_iff.2 fun member hmember => ?_
    simpa using h.keys member hmember
  refine .flat hname ?_ (h.flags.congr fun key hkey => ?_)
  · rw [List.filter_append, hkept, hdropped, List.append_nil]
  · exact Entries.get?_append_of_not_mem (hoptions key hkey) members

/-- **An index in the notation with its fields apart**, with both options. -/
def explicit (spec : IndexSpec) : Json := .obj (("fields", .obj spec.printedFields) :: spec.options)

/-- **An index in the flat notation**, with both options. -/
def flat (spec : IndexSpec) : Json := .obj (spec.printedFields ++ spec.options)

/-- A direction in print repeats no name, having none. -/
theorem distinct_direction (direction : IndexDirection) : direction.toJson.Distinct := by
  cases direction <;> simp [IndexDirection.toJson, Json.Distinct]

/-- An index whose fields have distinct names repeats none when it is written. -/
theorem Proper.distinct_explicit (h : spec.Proper) : spec.explicit.Distinct := by
  have hfields : (Json.obj spec.printedFields).Distinct := by
    refine Json.distinct_obj_iff.2 ⟨by rw [keys_printedFields]; exact h.nodup, ?_⟩
    intro member hmember
    obtain ⟨field, _, rfl⟩ := List.mem_map.1 hmember
    exact distinct_direction field.2
  refine Json.distinct_obj_iff.2 ⟨by simp [options], ?_⟩
  simpa [options, Json.Distinct] using hfields

/-! ### Reading back -/

/-- **A notation of an index describes it.** -/
theorem describes_of_writtenAs {value : Json} (h : spec.WrittenAs value)
    (hfields : spec.fields ≠ []) : Describes value spec := by
  cases h with
  | explicit hget hflags =>
      exact ⟨rfl, ⟨_, .explicit hget, directs_printedFields spec⟩, hfields, hflags⟩
  | @flat members hname hkept hflags =>
      have hget : Entries.get? members "fields" = none := by
        -- a member of that name is no option, so it would be a field
        refine Entries.get?_eq_none_iff.2 fun hlisted => hname ?_
        obtain ⟨member, hmember, heq⟩ := List.mem_map.1 hlisted
        have hoption : (!optionKeys.contains member.1) = true := by
          rw [heq]
          decide
        have hmem : member ∈ spec.printedFields := by
          rw [← hkept]
          exact List.mem_filter.2 ⟨hmember, hoption⟩
        rw [← heq, ← keys_printedFields]
        exact List.mem_map_of_mem hmem
      have hdirects := directs_printedFields spec
      rw [← hkept] at hdirects
      exact ⟨rfl, ⟨_, .flat hget, hdirects⟩, hfields, hflags⟩

/-- What is read as an index has fields, and no two of one name unless the directive repeats one. -/
theorem proper_of_parseAll {value : Json} {specs : List IndexSpec} {place : Pointer}
    (hvalue : value.Distinct) (h : parseAll value place = .ok specs) :
    ∀ spec ∈ specs, spec.Proper := by
  intro spec hspec
  obtain ⟨item, hitem⟩ := exists_describes_of_mem h hspec
  exact ⟨hitem.nonempty, nodup_of_parseAll hvalue h spec hspec⟩

/-- Notations of indexes, one by one, describe them. -/
theorem describes_of_forall₂ {specs : List IndexSpec} {values : List Json}
    (h : List.Forall₂ WrittenAs specs values) (hspecs : ∀ spec ∈ specs, spec.Proper) :
    List.Forall₂ Describes values specs := by
  induction h with
  | nil => exact .nil
  | cons hfirst hrest ih =>
      rw [List.forall_mem_cons] at hspecs
      exact .cons (describes_of_writtenAs hfirst hspecs.1.nonempty) (ih hspecs.2)

/-- **Indexes are read back in all notations**: from an array, and from an object under names other
than `fields`, in whatever notation each of them is written; and an index alone as well.  What is
read from a directive that repeats no name is proper in turn, and proper indexes with their fields
apart are such a directive. -/
theorem notations_agree (place : Pointer) :
    (∀ specs : List IndexSpec, (∀ spec ∈ specs, spec.Proper) →
      (Json.arr (specs.map explicit)).Distinct ∧
      parseAll (.arr (specs.map explicit)) place = .ok specs ∧
      ∀ values, List.Forall₂ WrittenAs specs values →
        parseAll (.arr values) place = .ok specs ∧
        ∀ names : List String, names.length = values.length → "fields" ∉ names →
          parseAll (.obj (names.zip values)) place = .ok specs) ∧
    (∀ spec : IndexSpec, spec.Proper →
      (∀ value, spec.WrittenAs value → parseAll value place = .ok [spec]) ∧
      ("fields" ∉ spec.fieldNames → (∀ key ∈ optionKeys, key ∉ spec.fieldNames) →
        parseAll spec.flat place = .ok [spec] ∧ parseAll (.arr [spec.flat]) place = .ok [spec])) ∧
    ∀ value specs, value.Distinct → parseAll value place = .ok specs →
      ∀ spec ∈ specs, spec.Proper := by
  refine ⟨fun specs hspecs => ⟨?_, ?_, fun values hvalues => ⟨?_, ?_⟩⟩,
    fun spec hspec => ⟨?_, ?_⟩, fun value specs => proper_of_parseAll⟩
  · refine Json.distinct_arr_iff.2 fun item hitem => ?_
    obtain ⟨spec, hspec, rfl⟩ := List.mem_map.1 hitem
    exact (hspecs spec hspec).distinct_explicit
  · have hwritten : List.Forall₂ WrittenAs specs (specs.map explicit) := by
      rw [List.forall₂_map_right_iff]
      exact List.forall₂_same.2 fun spec _ => spec.optionsOf_options.writtenAs_explicit
    exact parseAll_arr_eq_ok_iff.2 (describes_of_forall₂ hwritten hspecs)
  · exact parseAll_arr_eq_ok_iff.2 (describes_of_forall₂ hvalues hspecs)
  · intro names hlength hname
    have hkeys : Entries.keys (names.zip values) = names := List.map_fst_zip (Nat.le_of_eq hlength)
    have hlisted : (names.zip values).map Prod.snd = values :=
      List.map_snd_zip (Nat.le_of_eq hlength.symm)
    refine parseAll_of_forall₂ (by rwa [hkeys]) ?_ place
    rw [hlisted]
    exact describes_of_forall₂ hvalues hspecs
  · intro value hvalue
    exact parseAll_of_describes (describes_of_writtenAs hvalue hspec.nonempty) place
  · intro hname hoptions
    have hflat := describes_of_writtenAs
      (spec.optionsOf_options.writtenAs_flat hname hoptions) hspec.nonempty
    exact ⟨parseAll_of_describes hflat place, parseAll_arr_eq_ok_iff.2 (.cons hflat .nil)⟩

/-- An index by the login. -/
def loginIndex : IndexSpec := ⟨[("login", .ascending)], true, true⟩

/-- An index by the phone and the place. -/
def phoneIndex : IndexSpec := ⟨[("phone", .descending), ("place", .geo2dSphere)], false, false⟩

theorem proper_contactIndexes : ∀ spec ∈ [loginIndex, phoneIndex], spec.Proper := by
  intro spec hspec
  rw [List.mem_pair] at hspec
  rcases hspec with rfl | rfl <;> exact ⟨by decide, by decide⟩

/-- Both indexes are read back from an array, from an object where one of them is flat and goes by
the name of an option, and the one by the phone alone, as it is printed. -/
theorem contactIndexes_agree :
    parseAll (.arr [loginIndex.explicit, phoneIndex.explicit]) "/index" =
        .ok [loginIndex, phoneIndex] ∧
      parseAll (.obj [("unique", loginIndex.flat), ("contact", phoneIndex.explicit)]) "/index" =
        .ok [loginIndex, phoneIndex] ∧
      parseAll (.obj (phoneIndex.printedFields ++ phoneIndex.printedOptions)) "/index" =
        .ok [phoneIndex] ∧
      loginIndex.Proper ∧ phoneIndex.Proper := by
  obtain ⟨hlist, hsingle, hproper⟩ := notations_agree "/index"
  obtain ⟨hdistinct, harray, hwritten⟩ := hlist [loginIndex, phoneIndex] proper_contactIndexes
  have hlogin : loginIndex.WrittenAs loginIndex.flat :=
    loginIndex.optionsOf_options.writtenAs_flat (by decide) (by decide)
  have hphone : phoneIndex.WrittenAs phoneIndex.explicit :=
    phoneIndex.optionsOf_options.writtenAs_explicit
  have hprinted := phoneIndex.optionsOf_printedOptions.writtenAs_flat (by decide) (by decide)
  have hread := hproper _ _ hdistinct harray
  refine ⟨harray, ?_, ?_, hread _ (by simp), hread _ (by simp)⟩
  · exact (hwritten _ (.cons hlogin (.cons hphone .nil))).2 ["unique", "contact"] rfl (by decide)
  · exact (hsingle phoneIndex (proper_contactIndexes _ (by simp))).1 _ hprinted

/-! ### Indexes under names -/

/-- **An object of two or more indexes under names is read like the array of them exactly when none
is called `fields`.**  An object with an index of that name is taken for a single one, so that all
the others are lost when it is read at all. -/
theorem no_index_lost_iff {block : Members} {specs : List IndexSpec} {other : Pointer}
    (htwo : 2 ≤ block.length)
    (haccepted : List.Forall₂ (fun entry spec => parseAll (.arr [entry.2]) other = .ok [spec])
      block specs) (place : Pointer) :
    parseAll (.arr (block.map Prod.snd)) place = .ok specs ∧
      specs.length = block.length ∧
      (parseAll (.obj block) place = .ok specs ↔ "fields" ∉ Entries.keys block) ∧
      ("fields" ∈ Entries.keys block → ∀ found, parseAll (.obj block) place = .ok found →
        found.length = 1) := by
  have hdescribed : List.Forall₂ Describes (block.map Prod.snd) specs := by
    rw [List.forall₂_map_left_iff]
    refine haccepted.imp fun entry spec hentry => ?_
    exact (List.forall₂_cons.1 (parseAll_arr_eq_ok_iff.1 hentry)).1
  have hsingle (hname : "fields" ∈ Entries.keys block) (found : List IndexSpec)
      (hfound : parseAll (.obj block) place = .ok found) : found.length = 1 := by
    rw [parseAll_of_mem hname] at hfound
    obtain ⟨spec, _, rfl⟩ := Outcome.map_eq_ok_iff.1 hfound
    rfl
  have hlength := haccepted.length_eq
  refine ⟨parseAll_arr_eq_ok_iff.2 hdescribed, hlength.symm,
    ⟨fun hread hname => ?_, fun hname => ?_⟩, hsingle⟩
  · have := hsingle hname specs hread
    omega
  · exact parseAll_of_forall₂ hname hdescribed place

/-- Indexes by the login and by the phone, one of them under a name that an option has. -/
theorem contactBlock_lost_none :
    parseAll (.obj [("unique", loginIndex.flat), ("contact", phoneIndex.explicit)]) "/index" =
      .ok [loginIndex, phoneIndex] := by
  have haccepted : List.Forall₂
      (fun (entry : String × Json) spec => parseAll (.arr [entry.2]) "/index" = .ok [spec])
      [("unique", loginIndex.flat), ("contact", phoneIndex.explicit)] [loginIndex, phoneIndex] :=
    .cons rfl (.cons rfl .nil)
  exact (no_index_lost_iff (by decide) haccepted "/index").2.2.1.2 (by decide)

/-- Indexes by the login and by the phone, the first of them under the name `fields`. -/
def fieldsBlock : Members :=
  [("fields", .obj [("login", .num (.integer 1))]), ("phone", .obj [("phone", .num (.integer 1))])]

/-- Each is accepted in an array, but in the object the index by the phone is lost. -/
theorem fieldsBlock_loses_phone :
    2 ≤ fieldsBlock.length ∧ (∀ entry ∈ fieldsBlock, entry.2.isObject = true) ∧
      parseAll (.arr (fieldsBlock.map Prod.snd)) "/index" =
        .ok [⟨[("login", .ascending)], false, true⟩, ⟨[("phone", .ascending)], false, true⟩] ∧
      parseAll (.obj fieldsBlock) "/index" = .ok [⟨[("login", .ascending)], false, true⟩] :=
  ⟨by decide, by decide, rfl, rfl⟩

end IndexSpec

end StoreSchema
