/-
**What is merged twice.**

Members are merged name by name, and what is merged in wins: names keep their places, two objects
are merged in turn, and everywhere else the value that is merged in stands there as it is.  So the
outcome can be told path by path.  What is merged in is found at its path unless it is an object,
and what was there is found as before unless something replaces it, or an object that it stands in.

All of this has been done when the same members are merged in a second time, so that nothing is left
to do, also where values of different kinds met.  An overlay is merged in at one place for every
entry.  What an entry did is not undone by the others, as entries commute; an overlay that has
taken effect therefore changes nothing when it is applied again.

Main definitions:

* `Json.ReplacedAt` — that what is merged in replaces what stands at a path;
* `Json.RightBiased` — **what merging does**, name by name and path by path.

Main results:

* `Json.merge_eq_insertAll` — merging writes values that are laid over what was there;
* `Json.walk?_merge_of_source`, `Json.walk?_merge_of_target` — **what is found at a path**;
* `Json.merge_merge_self` — merging the same members again changes nothing;
* `Overlay.change?_self`, `Overlay.settled_of_run` — nor does an entry that has taken effect, at
  once or later;
* `merge_right_biased_idempotent` — **what is merged in wins, and only once**.
-/

import StoreSchema.Proofs.Attributes.Merging
import StoreSchema.Proofs.Overlay.PartialEffect
import StoreSchema.Proofs.Pointers.UnknownTypes
import StoreSchema.Proofs.Precedence

set_option relaxedAutoImplicit false
set_option autoImplicit false

namespace StoreSchema

namespace Json

variable {target source : Members}

/-! ### Name by name -/

/-- **Merging writes values** that are laid over what was there. -/
theorem merge_eq_insertAll (hsource : (Entries.keys source).Nodup) (target : Members) :
    merge target source = Entries.insertAll target (laidOver target source) := by
  induction source generalizing target with
  | nil =>
      rw [merge]
      rfl
  | cons first rest ih =>
      obtain ⟨name, value⟩ := first
      rw [Entries.keys_cons, List.nodup_cons] at hsource
      rw [merge, ih hsource.2, laidOver_insert_of_not_mem hsource.1]
      rfl

/-- Names keep their places, and new names follow in their own order. -/
theorem keys_merge (hsource : (Entries.keys source).Nodup) (target : Members) :
    Entries.keys (merge target source) = Entries.keys target ++
      (Entries.keys source).filter fun name => name ∉ Entries.keys target := by
  have hlaid : (Entries.keys (laidOver target source)).Nodup := by rwa [keys_laidOver]
  rw [merge_eq_insertAll hsource, Entries.keys_insertAll hlaid, keys_laidOver]

/-- Over nothing a value is laid as it is. -/
theorem mergeValue_none (value : Json) : mergeValue none value = value := by
  cases value with
  | obj members => exact mergeValue_of_none (by simp) members
  | _ => exact mergeValue_of_not_isObject rfl none

/-- Unless both are objects, a value that is laid over another one replaces it. -/
theorem mergeValue_of_not_both {old incoming : Json}
    (h : ¬(old.isObject = true ∧ incoming.isObject = true)) :
    mergeValue (some old) incoming = incoming := by
  cases hincoming : incoming.isObject with
  | false => exact mergeValue_of_not_isObject hincoming _
  | true =>
      rw [isObject_iff.1 hincoming]
      refine mergeValue_of_none ?_ _
      rintro members hmembers
      cases hmembers
      exact h ⟨rfl, hincoming⟩

/-! ### Path by path -/

/-- **That what is merged in replaces what stands at a path**: both hold something there, and not
both an object. -/
def ReplacedAt (target source : Members) (steps : List String) : Prop :=
  ∃ old incoming, (obj target).walk? steps = some old ∧ (obj source).walk? steps = some incoming ∧
    ¬(old.isObject = true ∧ incoming.isObject = true)

/-- The first step into merged members. -/
theorem walk?_merge_cons (hsource : (Entries.keys source).Nodup) (target : Members) (step : String)
    (steps : List String) :
    (obj (merge target source)).walk? (step :: steps) =
      (((Entries.get? source step).map (mergeValue (Entries.get? target step))).or
        (Entries.get? target step)).bind fun inner => inner.walk? steps := by
  rw [walk?, child?, get?_merge hsource]

theorem walk?_cons (members : Members) (step : String) (steps : List String) :
    (obj members).walk? (step :: steps) =
      (Entries.get? members step).bind fun inner => inner.walk? steps := rfl

/-- **What is merged in is found at its path**, unless it is an object. -/
theorem walk?_merge_of_source {steps : List String} {value : Json}
    (hsource : (obj source).Distinct) (hwalk : (obj source).walk? steps = some value)
    (hvalue : value.isObject = false) (target : Members) :
    (obj (merge target source)).walk? steps = some value := by
  induction steps generalizing target source with
  | nil =>
      cases hwalk
      cases hvalue
  | cons step steps ih =>
      rw [walk?_cons] at hwalk
      obtain ⟨incoming, hincoming, hwalk⟩ := Option.bind_eq_some_iff.1 hwalk
      rw [walk?_merge_cons (distinct_obj_iff.1 hsource).1, hincoming, Option.map_some,
        Option.some_or, Option.bind_some]
      cases hold : Entries.get? target step with
      | none => rwa [mergeValue_none]
      | some old =>
          by_cases hboth : old.isObject = true ∧ incoming.isObject = true
          · -- two objects are merged, and the path goes on in both
            obtain ⟨hold, hnew⟩ := hboth
            rw [isObject_iff] at hold hnew
            rw [hnew] at hincoming hwalk
            rw [hold, hnew, mergeValue_of_objects]
            exact ih (hsource.of_get? hincoming) hwalk old.members
          · rwa [mergeValue_of_not_both hboth]

/-- **What was there is found at its path**, with what is merged in laid over it, unless something
on the way replaces it. -/
theorem walk?_merge_of_target {steps : List String} {value : Json}
    (hsource : (obj source).Distinct) (hwalk : (obj target).walk? steps = some value)
    (hkept : ∀ above, above <+: steps → ¬ReplacedAt target source above) :
    (obj (merge target source)).walk? steps =
      some (((obj source).walk? steps).elim value (mergeValue (some value))) := by
  induction steps generalizing target source with
  | nil =>
      cases hwalk
      exact congrArg some (mergeValue_of_objects target source).symm
  | cons step steps ih =>
      rw [walk?_cons] at hwalk
      obtain ⟨old, hold, hwalk⟩ := Option.bind_eq_some_iff.1 hwalk
      rw [walk?_merge_cons (distinct_obj_iff.1 hsource).1, walk?_cons, hold]
      cases hincoming : Entries.get? source step with
      | none => exact hwalk
      | some incoming =>
          have hhere : (obj target).walk? [step] = some old := by
            rw [walk?_of_get? hold]
            rfl
          have hnew : (obj source).walk? [step] = some incoming := by
            rw [walk?_of_get? hincoming]
            rfl
          have hboth : old.isObject = true ∧ incoming.isObject = true := by
            refine Decidable.byContradiction fun hboth => ?_
            exact hkept [step] ⟨steps, rfl⟩ ⟨old, incoming, hhere, hnew, hboth⟩
          rw [isObject_iff, isObject_iff] at hboth
          obtain ⟨hobject, hobject'⟩ := hboth
          rw [hobject] at hold hwalk
          rw [hobject'] at hincoming
          rw [hobject, hobject', Option.map_some, Option.some_or, Option.bind_some,
            Option.bind_some, mergeValue_of_objects]
          refine ih (hsource.of_get? hincoming) hwalk ?_
          rintro above habove ⟨value, value', hvalue, hvalue', hboth⟩
          refine hkept (step :: above) (List.cons_prefix_cons.2 ⟨rfl, habove⟩)
            ⟨value, value', ?_, ?_, hboth⟩
          · rw [walk?_of_get? hold, hvalue]
          · rw [walk?_of_get? hincoming, hvalue']

/-! ### A second time -/

/-- Merging changes nothing where all that is merged in is there already. -/
theorem merge_eq_self (h : ∀ entry ∈ source, ∃ old,
    Entries.get? target entry.1 = some old ∧ mergeValue (some old) entry.2 = old) :
    merge target source = target := by
  induction source with
  | nil => rw [merge]
  | cons first rest ih =>
      obtain ⟨name, value⟩ := first
      rw [List.forall_mem_cons] at h
      obtain ⟨⟨old, hold, hsame⟩, hrest⟩ := h
      rw [merge, hold, hsame, Entries.insert_eq_self hold]
      exact ih hrest

/-- Members that are laid over others are there already when laying their values over anything
twice is laying them once. -/
theorem merge_merge_of_values (hsource : (Entries.keys source).Nodup)
    (h : ∀ entry ∈ source, ∀ old, mergeValue (some (mergeValue old entry.2)) entry.2 =
      mergeValue old entry.2) (target : Members) :
    merge (merge target source) source = merge target source := by
  refine merge_eq_self fun entry hentry => ?_
  refine ⟨mergeValue (Entries.get? target entry.1) entry.2, ?_, h entry hentry _⟩
  rw [get?_merge hsource, Entries.get?_of_mem hsource hentry]
  rfl

mutual

/-- **A value that is laid over itself changes nothing.** -/
theorem mergeValue_mergeValue : ∀ (source : Json), source.Distinct → ∀ target : Option Json,
    mergeValue (some (mergeValue target source)) source = mergeValue target source
  | .obj source, h, target => by
      rw [Distinct] at h
      have hvalues := mergeValue_mergeValue_of_mem source h.2
      by_cases hold : ∃ members, target = some (obj members)
      · obtain ⟨members, rfl⟩ := hold
        rw [mergeValue_of_objects, mergeValue_of_objects,
          merge_merge_of_values h.1 hvalues members]
      · -- what replaced something else is an object now, and the same one
        have hself : merge [] source = source := merge_of_nodup h.1
        have hagain := merge_merge_of_values h.1 hvalues []
        rw [hself] at hagain
        rw [mergeValue_of_none (not_exists.1 hold), mergeValue_of_objects, hagain]
  | .null, _, _ => rfl
  | .bool _, _, _ => rfl
  | .num _, _, _ => rfl
  | .str _, _, _ => rfl
  | .arr _, _, _ => rfl

theorem mergeValue_mergeValue_of_mem : ∀ (source : List (String × Json)),
    DistinctMembers source → ∀ entry ∈ source, ∀ target : Option Json,
      mergeValue (some (mergeValue target entry.2)) entry.2 = mergeValue target entry.2
  | [], _ => nofun
  | (name, value) :: rest, h => by
      rw [DistinctMembers] at h
      rw [List.forall_mem_cons]
      exact ⟨mergeValue_mergeValue value h.1, mergeValue_mergeValue_of_mem rest h.2⟩

end

/-- **Merging the same members again changes nothing.** -/
theorem merge_merge_self (hsource : (obj source).Distinct) (target : Members) :
    merge (merge target source) source = merge target source := by
  rw [Distinct] at hsource
  exact merge_merge_of_values hsource.1 (mergeValue_mergeValue_of_mem source hsource.2) target

/-- **What merging does**, name by name and path by path: what is merged in wins. -/
structure RightBiased (target source merged : Members) : Prop where
  /-- Names keep their places, and new names follow in their own order. -/
  names : Entries.keys merged = Entries.keys target ++
    (Entries.keys source).filter fun name => name ∉ Entries.keys target
  /-- What stands under a name that is not merged in is the same. -/
  kept : ∀ name, name ∉ Entries.keys source →
    Entries.get? merged name = Entries.get? target name
  /-- Two objects under one name are merged in turn. -/
  objects : ∀ name old incoming, Entries.get? target name = some (.obj old) →
    Entries.get? source name = some (.obj incoming) →
      Entries.get? merged name = some (.obj (merge old incoming))
  /-- In every other case the value that is merged in stands there as it is. -/
  replaced : ∀ name incoming, Entries.get? source name = some incoming →
    (∀ old, Entries.get? target name = some old →
      ¬(old.isObject = true ∧ incoming.isObject = true)) →
        Entries.get? merged name = some incoming
  /-- What is merged in is found at its path, unless it is an object. -/
  atSource : ∀ steps value, (obj source).walk? steps = some value → value.isObject = false →
    (obj merged).walk? steps = some value
  /-- What was there is found at its path, with what is merged in laid over it, unless it or an
  object that it stands in is replaced. -/
  atTarget : ∀ steps value, (obj target).walk? steps = some value →
    (∀ above, above <+: steps → ¬ReplacedAt target source above) →
      (obj merged).walk? steps =
        some (((obj source).walk? steps).elim value (mergeValue (some value)))
  /-- Merging the same members again changes nothing. -/
  again : merge merged source = merged

theorem rightBiased_merge (hsource : (obj source).Distinct) (target : Members) :
    RightBiased target source (merge target source) := by
  have hnames := (distinct_obj_iff.1 hsource).1
  refine ⟨keys_merge hnames target, ?_, ?_, ?_, ?_, ?_, merge_merge_self hsource target⟩
  · intro name hname
    rw [get?_merge hnames, Entries.get?_eq_none_iff.2 hname]
    rfl
  · intro name old incoming hold hincoming
    rw [get?_merge hnames, hold, hincoming, Option.map_some, mergeValue_of_objects]
    rfl
  · intro name incoming hincoming hboth
    rw [get?_merge hnames, hincoming, Option.map_some, Option.some_or]
    cases hold : Entries.get? target name with
    | none => rw [mergeValue_none]
    | some old => rw [mergeValue_of_not_both (hboth old hold)]
  · exact fun steps value hwalk hvalue => walk?_merge_of_source hsource hwalk hvalue target
  · exact fun steps value => walk?_merge_of_target hsource

end Json

/-! ### Overlays -/

namespace Overlay

variable {registry changed merged : Registry} {directive : Members}

/-- A directive that is merged into a block again changes nothing. -/
theorem mergeBlock_mergeBlock_self (hdirective : (Json.obj directive).Distinct) (key : String)
    (members : Members) :
    mergeBlock key directive (mergeBlock key directive members) =
      mergeBlock key directive members := by
  have hblock : ownBlock key (mergeBlock key directive members) =
      Json.merge (ownBlock key members) directive := by
    rw [ownBlock, get?_mergeBlock_self]
    rfl
  rw [mergeBlock, ← ownBlock, hblock, Json.merge_merge_self hdirective]
  exact Entries.insert_insert_self _ _ _ _

namespace Target

variable (target : Target) (hdirective : (Json.obj directive).Distinct)
include hdirective

theorem defaults_defaults_self (defaults : Members) :
    target.defaults directive (target.defaults directive defaults) =
      target.defaults directive defaults := by
  cases target with
  | document => exact Json.merge_merge_self (distinct_defaultDirective hdirective) defaults
  | _ => rfl

theorem typeBlocks_typeBlocks_self (blocks : Entries Members) :
    target.typeBlocks directive (target.typeBlocks directive blocks) =
      target.typeBlocks directive blocks := by
  cases target with
  | type name =>
      rw [typeBlocks, typeBlocks, Entries.get?_insert_self, Option.getD_some,
        Json.merge_merge_self hdirective, Entries.insert_insert_self]
  | _ => rfl

theorem definitions?_bind_self (key : String) (definitions : Entries Members) :
    (target.definitions? key directive definitions).bind
        (fun changed => target.definitions? key directive changed) =
      target.definitions? key directive definitions := by
  cases target with
  | document => rfl
  | type name =>
      rw [definitions?]
      split
      · next hname => exact if_pos hname
      · rfl
  | field name first rest =>
      have hblock : mergeBlock key directive ∘ mergeBlock key directive =
          mergeBlock key directive :=
        funext (mergeBlock_mergeBlock_self hdirective key)
      simp only [definitions?, Entries.update?_bind_self, updateProperty_bind_self, hblock]

/-- **A directive that is merged in at a place again changes nothing.** -/
theorem mergeIn?_self (h : target.mergeIn? directive registry = some changed) :
    target.mergeIn? directive changed = some changed := by
  have hboth := @mergeIn?_bind target target directive directive registry
  rw [definitions?_bind_self target hdirective, defaults_defaults_self target hdirective,
    typeBlocks_typeBlocks_self target hdirective, ← mergeIn?, h] at hboth
  exact hboth

end Target

/-- **An entry that has just taken effect changes nothing.** -/
theorem change?_self {entry : String × Json} (hentry : entry.2.Distinct)
    (h : change? registry entry = some changed) : change? changed entry = some changed := by
  obtain ⟨directive, target, hdirective, htarget, hmerged⟩ := change?_eq_some_iff.1 h
  rw [hdirective] at hentry
  exact change?_eq_some_iff.2
    ⟨directive, target, hdirective, htarget, target.mergeIn?_self hentry hmerged⟩

/-- An entry that changes nothing but the order of blocks changes nothing at all: a block that is
there already keeps its place. -/
theorem eq_of_change? {entry : String × Json} (h : change? registry entry = some changed)
    (hsame : changed.SameButOrder registry) : changed = registry := by
  obtain ⟨directive, target, _, _, hmerged⟩ := change?_eq_some_iff.1 h
  obtain ⟨definitions, _, rfl⟩ := Option.map_eq_some_iff.1 hmerged
  obtain ⟨_, hdefinitions, hdefaults, hblocks⟩ := hsame
  dsimp only at hdefinitions hdefaults hblocks
  have htypeBlocks : target.typeBlocks directive registry.typeBlocks = registry.typeBlocks := by
    cases target with
    | type name =>
        have hname := hblocks name
        rw [Target.typeBlocks, Entries.get?_insert_self] at hname
        exact Entries.insert_eq_self hname.symm
    | _ => rfl
  rw [hdefinitions, hdefaults, htypeBlocks]

theorem exists_of_rel_some {α : Type} {related : α → α → Prop} {value : α} {other : Option α}
    (h : Option.Rel related (some value) other) : ∃ value', other = some value' ∧
      related value value' := by
  cases h with
  | some hvalue => exact ⟨_, rfl, hvalue⟩

/-- **What an entry did is not undone by the others**: each could as well have been the last. -/
theorem settled_of_run {entries : Members} (hdistinct : (Json.obj entries).Distinct)
    (h : entries.foldlM change? registry = some merged) {entry : String × Json}
    (hentry : entry ∈ entries) : change? merged entry = some merged := by
  obtain ⟨hnames, hvalues⟩ := Json.distinct_obj_iff.1 hdistinct
  have hvalue := hvalues entry hentry
  obtain ⟨front, back, rfl⟩ := List.append_of_mem hentry
  have hperm : (front ++ entry :: back).Perm (front ++ back ++ [entry]) :=
    List.perm_middle.trans (List.perm_append_singleton entry _).symm
  have hrun := run_perm hperm hnames registry
  rw [h] at hrun
  obtain ⟨last, hlast, hsame⟩ := exists_of_rel_some hrun
  rw [List.foldlM_append] at hlast
  obtain ⟨before, _, hlast⟩ := Option.bind_eq_some_iff.1 hlast
  have hchange : change? before entry = some last := by simpa using hlast
  -- the entry changes nothing where it came last, and here at most the order of blocks
  have hagain := change?_congr hsame.symm entry
  rw [change?_self hvalue hchange] at hagain
  obtain ⟨next, hnext, hsame'⟩ := exists_of_rel_some hagain
  rw [hnext, eq_of_change? hnext (hsame'.symm.trans hsame.symm)]

/-- **An overlay that has taken effect changes nothing when it is applied again.** -/
theorem merge_merge_self {overlay : Json} (hdistinct : overlay.Distinct)
    (h : merge registry overlay = (merged, none)) : merge merged overlay = (merged, none) := by
  cases overlay with
  | null => rfl
  | obj entries =>
      have hrun := mergeEntries_eq_iff.1 h
      refine mergeEntries_eq_iff.2 ?_
      have hsettled : ∀ entry ∈ entries, change? merged entry = some merged :=
        fun entry hentry => settled_of_run hdistinct hrun hentry
      clear h hrun hdistinct
      induction entries with
      | nil => rfl
      | cons entry rest ih =>
          rw [List.forall_mem_cons] at hsettled
          rw [List.foldlM_cons, hsettled.1]
          exact ih hsettled.2
  | _ => cases h

end Overlay

/-- **What is merged in wins, and only once.**  Merging members does what is expected of it, name by
name and path by path, and changes nothing when it is done again.  An overlay that has taken effect
leaves a registry in which it takes effect again and changes nothing, not even an order. -/
theorem merge_right_biased_idempotent :
    (∀ target source, (Json.obj source).Distinct →
      Json.RightBiased target source (Json.merge target source)) ∧
    ∀ registry overlay merged, overlay.Distinct →
      Overlay.merge registry overlay = (merged, none) →
        Overlay.merge merged overlay = (merged, none) := by
  constructor
  · intro target source hsource
    exact Json.rightBiased_merge hsource target
  · intro registry overlay merged hdistinct hmerged
    exact Overlay.merge_merge_self hdistinct hmerged

/-- Directives for a property. -/
def weightDirectives : Members :=
  [("index", .bool true), ("limits", .obj [("min", .num (.integer 0)), ("step", .null)]),
    ("unit", .obj [("name", .str "kg")])]

/-- Other directives, of which two are of another kind. -/
def revisedDirectives : Members :=
  [("limits", .obj [("max", .num (.integer 9)), ("min", .obj [("value", .num (.integer 1))])]),
    ("unit", .str "g"), ("trim", .bool false), ("index", .obj [("unique", .bool true)])]

/-- An index that is no object gives way to one that is, limits are merged, and a unit gives way
with all that stood in it.  A registry under directives for types and properties stays as it is when
these are applied again. -/
theorem revisedDirectives_merged :
    ((Json.obj revisedDirectives).Distinct ∧ (Json.obj Overlay.ownedOverlay).Distinct) ∧
      Entries.keys (Json.merge weightDirectives revisedDirectives) =
        ["index", "limits", "unit", "trim"] ∧
      (Json.obj (Json.merge weightDirectives revisedDirectives)).walk? ["limits", "min", "value"] =
        some (.num (.integer 1)) ∧
      (Json.obj (Json.merge weightDirectives revisedDirectives)).walk? ["limits", "step"] =
        some .null ∧
      Json.merge (Json.merge weightDirectives revisedDirectives) revisedDirectives =
        Json.merge weightDirectives revisedDirectives ∧
      ∃ registry merged, Overlay.registryOf (.parsed (.obj Overlay.ownedPets)) = .ok registry ∧
        Overlay.merge registry (.obj Overlay.ownedOverlay) = (merged, none) ∧
        merged.defaults = [("schema-options", .obj [("timestamps", .bool true)])] ∧
        Entries.keys merged.typeBlocks = ["Person", "Pet"] ∧
        Overlay.merge merged (.obj Overlay.ownedOverlay) = (merged, none) := by
  have hrevised : (Json.obj revisedDirectives).Distinct := by
    simp [revisedDirectives, Json.Distinct, Json.DistinctMembers]
  have howned : (Json.obj Overlay.ownedOverlay).Distinct := by
    simp [Overlay.ownedOverlay, Json.Distinct, Json.DistinctMembers]
  obtain ⟨hmerge, hoverlay⟩ := merge_right_biased_idempotent
  have hlaws := hmerge weightDirectives revisedDirectives hrevised
  have hnames : Entries.keys weightDirectives ++ (Entries.keys revisedDirectives).filter
      (fun name => name ∉ Entries.keys weightDirectives) = ["index", "limits", "unit", "trim"] := by
    decide
  have hmin : (Json.obj revisedDirectives).walk? ["limits", "min", "value"] =
      some (.num (.integer 1)) := rfl
  have hstep : (Json.obj weightDirectives).walk? ["limits", "step"] = some .null := rfl
  have hnew : (Json.obj revisedDirectives).walk? ["limits", "step"] = none := rfl
  have hkept : ∀ above, above <+: ["limits", "step"] →
      ¬Json.ReplacedAt weightDirectives revisedDirectives above := by
    rintro above habove ⟨old, incoming, hold, hincoming, hboth⟩
    -- the way leads through objects on both sides, and ends where nothing is merged in
    rcases List.prefix_cons_iff.1 habove with rfl | ⟨rest, rfl, hrest⟩
    · cases hold
      cases hincoming
      exact hboth ⟨rfl, rfl⟩
    · rcases List.prefix_cons_iff.1 hrest with rfl | ⟨last, rfl, hlast⟩
      · cases hold
        cases hincoming
        exact hboth ⟨rfl, rfl⟩
      · obtain rfl := List.prefix_nil.1 hlast
        cases hincoming
  have hstill := hlaws.atTarget _ _ hstep hkept
  rw [hnew] at hstill
  obtain ⟨registry, hregistry, hcause, hdefaults, hblocks⟩ :
      ∃ registry, Overlay.registryOf (.parsed (.obj Overlay.ownedPets)) = .ok registry ∧
        (Overlay.merge registry (.obj Overlay.ownedOverlay)).2 = none ∧
        (Overlay.merge registry (.obj Overlay.ownedOverlay)).1.defaults =
          [("schema-options", .obj [("timestamps", .bool true)])] ∧
        Entries.keys (Overlay.merge registry (.obj Overlay.ownedOverlay)).1.typeBlocks =
          ["Person", "Pet"] :=
    ⟨_, rfl, rfl, by decide +kernel, rfl⟩
  have hmerged : Overlay.merge registry (.obj Overlay.ownedOverlay) =
      ((Overlay.merge registry (.obj Overlay.ownedOverlay)).1, none) := Prod.ext rfl hcause
  exact ⟨⟨hrevised, howned⟩, hlaws.names.trans hnames, hlaws.atSource _ _ hmin rfl,
    hstill, hlaws.again, registry, _, hregistry, hmerged, hdefaults, hblocks,
    hoverlay registry _ _ howned hmerged⟩

end StoreSchema
