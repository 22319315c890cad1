/-
**What a refused overlay leaves behind.**

The entries of an overlay take effect one after another, and the first that is refused ends the
overlay.  Whether an entry is refused can be told from the registry as it was at first: merging into
blocks leaves the names of definitions and the properties below them in place, so that an entry
neither makes nor breaks the way of a later one.  What takes effect are therefore the entries before
the first that the original registry refuses, and the registry they leave is the one that they leave
as an overlay of their own.

In that registry nothing has changed outside the blocks of the properties that those entries lead
to, the directives of the types that they name, and the directives that apply to every type.

Main definitions:

* `propertyAt?` — the property that a path of fields leads to;
* `Overlay.leads`, `Overlay.refusal?` — whether a path leads anywhere, and the cause against an
  entry, both judged by one registry;
* `Overlay.accepted` — the entries before the first that is refused;
* `Overlay.withoutBlocksAt`, `Overlay.outsideBlocks` — a definition without the blocks at some
  paths, and the definitions of a registry without the blocks that entries lead to;
* `Overlay.Framed` — what entries leave in place.

Main results:

* `Overlay.applyEntry_eq` — an entry is refused for the cause that the registry has against it;
* `Overlay.refusal?_of_change` — **an entry that takes effect changes nothing for the others**;
* `Overlay.framed_of_change`, `Overlay.framed_of_run` — nothing changes outside the places that
  entries lead to;
* `Overlay.merge_stops_at_first_refusal` — **what an overlay leaves behind**, refused or not.
-/

import StoreSchema.Proofs.Overlay.Effect

set_option relaxedAutoImplicit false
set_option autoImplicit false

namespace StoreSchema

/-! ### Properties along a path -/

/-- The members of the property that a path of fields leads to, through nested `properties`. -/
def propertyAt? : List String → Members → Option Members
  | [], members => some members
  | field :: rest, members =>
      match Entries.get? members "properties" with
      | some (.obj properties) =>
          match Entries.get? properties field with
          | some (.obj property) => propertyAt? rest property
          | _ => none
      | _ => none

namespace Overlay

/-! ### Where paths lead -/

/-- One step along a path. -/
theorem propertyAt?_cons (field : String) (rest : List String) (members : Members) :
    propertyAt? (field :: rest) members =
      (Entries.get? members "properties").bind fun listed =>
        (Entries.get? listed.members field).bind fun property =>
          if property.isObject then propertyAt? rest property.members else none := by
  rw [propertyAt?]
  cases Entries.get? members "properties" with
  | none => rfl
  | some listed =>
      cases listed with
      | obj properties =>
          dsimp only [Option.bind_some, Json.members_obj]
          cases Entries.get? properties field with
          | none => rfl
          | some property => cases property <;> rfl
      | _ => rfl

/-- A property can be changed when the path leads to it. -/
theorem isSome_updateProperty (change : Members → Members) (fields : List String)
    (members : Members) :
    (updateProperty change fields members).isSome = (propertyAt? fields members).isSome := by
  induction fields generalizing members with
  | nil => rfl
  | cons field rest ih =>
      rw [propertyAt?_cons, updateProperty]
      cases Entries.get? members "properties" with
      | none => rfl
      | some listed =>
          cases listed with
          | obj properties =>
              dsimp only [Option.bind_some, Json.members_obj]
              cases Entries.get? properties field with
              | none => rfl
              | some property =>
                  cases property with
                  | obj below =>
                      dsimp only [Option.bind_some, Json.members_obj]
                      rw [Option.isSome_map, ih]
                      rfl
                  | _ => rfl
          | _ => rfl

/-- A change that keeps the properties of an object makes and breaks no path. -/
theorem isSome_propertyAt?_of_updateProperty {change : Members → Members}
    (hchange : ∀ members, Entries.get? (change members) "properties" =
      Entries.get? members "properties") {fields : List String} {members changed : Members}
    (h : updateProperty change fields members = some changed) (other : List String) :
    (propertyAt? other changed).isSome = (propertyAt? other members).isSome := by
  induction fields generalizing members changed other with
  | nil =>
      cases h
      cases other with
      | nil => rfl
      | cons field rest => rw [propertyAt?_cons, propertyAt?_cons, hchange]
  | cons field rest ih =>
      cases other with
      | nil => rfl
      | cons field' rest' =>
          rw [updateProperty_cons] at h
          obtain ⟨listed, listed', hlisted, hupdate, rfl⟩ := Entries.update?_eq_some_iff.1 h
          obtain ⟨properties, properties', rfl, hproperties, rfl⟩ :=
            Json.update?_eq_some_iff.1 hupdate
          obtain ⟨value, value', hvalue, hbelow, rfl⟩ := Entries.update?_eq_some_iff.1 hproperties
          obtain ⟨property, property', rfl, hproperty, rfl⟩ := Json.update?_eq_some_iff.1 hbelow
          rw [propertyAt?_cons, propertyAt?_cons, Entries.get?_insert_self, hlisted,
            Option.bind_some, Option.bind_some, Json.members_obj, Json.members_obj,
            Entries.get?_insert]
          by_cases hfield : field = field'
          · subst hfield
            rw [if_pos rfl, hvalue]
            exact ih hproperty rest'
          · rw [if_neg hfield]

/-- Whether a path leads to a definition, or from one to a property below it. -/
def leads (registry : Registry) (path : String) : Bool :=
  match Text.dotted path with
  | [] => false
  | name :: fields =>
      ((Entries.get? registry.definitions name).bind (propertyAt? fields)).isSome

/-- **The cause against an entry**, judged by a registry as it stands: the entry is no object, or it
is not the entry `default` and its path leads nowhere. -/
def refusal? (registry : Registry) (entry : String × Json) : Option CompileError :=
  if entry.2.isObject then
    if entry.1 = "default" || leads registry entry.1 then none else some (.badOverlayPath entry.1)
  else some (.wrongDirective entry.1 [.object] entry.2)

/-- A directive can be merged in where a path leads. -/
theorem isSome_mergeAt? (registry : Registry) (path : String) (directive : Members) :
    (mergeAt? registry path directive).isSome = leads registry path := by
  rw [mergeAt?, leads]
  cases Text.dotted path with
  | nil => rfl
  | cons name fields =>
      dsimp only
      rw [Entries.contains]
      cases hget : Entries.get? registry.definitions name with
      | none => rfl
      | some definition =>
          cases fields with
          | nil => rfl
          | cons first rest =>
              have hproperty := isSome_updateProperty
                (mergeBlock registry.dialect.directiveKey directive) (first :: rest) definition
              simpa [mergeField?, hget] using hproperty

/-- **An entry takes effect, or is refused for the cause that the registry has against it.** -/
theorem applyEntry_eq (registry : Registry) (entry : String × Json) :
    applyEntry registry entry.1 entry.2 =
      match refusal? registry entry with
      | some cause => .error cause
      | none => .ok ((change? registry entry).getD registry) := by
  obtain ⟨path, value⟩ := entry
  -- what takes effect is the change, so only the causes have to be compared
  suffices h : ∀ cause, applyEntry registry path value = .error cause ↔
      refusal? registry (path, value) = some cause by
    cases happly : applyEntry registry path value with
    | error cause => rw [(h cause).1 happly]
    | ok merged =>
        have hnone : refusal? registry (path, value) = none := by
          rw [Option.eq_none_iff_forall_ne_some]
          intro cause hcause
          rw [(h cause).2 hcause] at happly
          cases happly
        rw [hnone, applyEntry_eq_ok_iff.1 happly]
        rfl
  intro cause
  cases value with
  | obj directive =>
      have hsome := isSome_mergeAt? registry path directive
      rw [applyEntry, refusal?]
      by_cases hpath : path = "default"
      · simp [hpath, Json.isObject]
      · cases hmerged : mergeAt? registry path directive <;> rw [hmerged] at hsome <;>
          simp [hpath, Json.isObject, ← hsome]
  | _ => simp [applyEntry, refusal?, Json.isObject]

/-- An entry takes effect exactly when the registry has no cause against it. -/
theorem refusal?_eq_none_iff {registry : Registry} {entry : String × Json} :
    refusal? registry entry = none ↔ ∃ merged, change? registry entry = some merged := by
  have happly := applyEntry_eq registry entry
  constructor
  · intro h
    rw [h] at happly
    exact ⟨_, applyEntry_eq_ok_iff.1 happly⟩
  · rintro ⟨merged, h⟩
    rw [applyEntry_eq_ok_iff.2 h] at happly
    split at happly
    · cases happly
    · assumption

/-- **An entry that takes effect changes nothing for the others**: the registry has the same causes
against them before and after. -/
theorem refusal?_of_change {registry merged : Registry} {entry : String × Json}
    (h : change? registry entry = some merged) (other : String × Json) :
    refusal? merged other = refusal? registry other := by
  suffices hleads : ∀ path, leads merged path = leads registry path by
    rw [refusal?, refusal?, hleads]
  intro path
  obtain ⟨directive, target, _, _, hmerged⟩ := change?_eq_some_iff.1 h
  obtain ⟨definitions, hdefinitions, rfl⟩ := Option.map_eq_some_iff.1 hmerged
  rw [leads, leads]
  dsimp only
  cases Text.dotted path with
  | nil => rfl
  | cons name fields =>
      dsimp only
      cases target with
      | document =>
          cases hdefinitions
          rfl
      | type other =>
          rw [Target.definitions?] at hdefinitions
          split at hdefinitions
          · cases hdefinitions
            rfl
          · cases hdefinitions
      | field other first rest =>
          have hkey : registry.dialect.directiveKey ≠ "properties" :=
            Ne.symm (Dialect.ne_directiveKey (by decide) (by decide) _)
          obtain ⟨members, changed, hmembers, hchanged, rfl⟩ :=
            Entries.update?_eq_some_iff.1 hdefinitions
          rw [Entries.get?_insert]
          by_cases hname : other = name
          · subst hname
            rw [if_pos rfl, hmembers]
            refine isSome_propertyAt?_of_updateProperty (fun members => ?_) hchanged fields
            rw [mergeBlock, Entries.get?_insert, if_neg hkey]
          · rw [if_neg hname]

/-! ### What lies outside the blocks -/

/-- The members of a definition without the block of the property that a path of fields leads
to. -/
def withoutBlockAt (key : String) (fields : List String) (members : Members) : Members :=
  (updateProperty (fun property => Entries.erase property key) fields members).getD members

/-- The members of a definition without the blocks of the properties that any of the paths leads
to. -/
def withoutBlocksAt (key : String) (paths : List (List String)) (members : Members) : Members :=
  paths.foldr (withoutBlockAt key) members

/-- The paths of fields under which entries lead to properties of a definition. -/
def fieldPaths (name : String) (entries : Members) : List (List String) :=
  entries.filterMap fun entry =>
    match Text.dotted entry.1 with
    | other :: first :: rest => if other = name then some (first :: rest) else none
    | _ => none

/-- **The definitions of a registry without the blocks of the properties that entries lead to.** -/
def outsideBlocks (registry : Registry) (entries : Members) : Entries Members :=
  registry.definitions.map fun entry =>
    (entry.1, withoutBlocksAt registry.dialect.directiveKey (fieldPaths entry.1 entries) entry.2)

section Blocks

variable {key : String}

theorem keepsProperties_erase (hkey : key ≠ "properties") :
    KeepsProperties fun property => Entries.erase property key := by
  intro members update
  have hget : Entries.get? (Entries.erase members key) "properties" =
      Entries.get? members "properties" := Entries.get?_erase_of_ne (Ne.symm hkey) members
  rw [Entries.update?, Entries.update?, hget]
  cases Entries.get? members "properties" with
  | none => rfl
  | some value =>
      rw [Option.bind_some, Option.bind_some, Option.map_map]
      congr 1
      funext changed
      exact (Entries.erase_insert_of_ne (Ne.symm hkey) members changed).symm

/-- Blocks at two paths may be removed in any order. -/
theorem withoutBlockAt_comm (hkey : key ≠ "properties") (fields fields' : List String)
    (members : Members) :
    withoutBlockAt key fields (withoutBlockAt key fields' members) =
      withoutBlockAt key fields' (withoutBlockAt key fields members) := by
  by_cases hfields : fields = fields'
  · rw [hfields]
  · have hkeeps := keepsProperties_erase hkey
    have hcomm := updateProperty_comm hkeeps hkeeps hfields members
    rw [withoutBlockAt, withoutBlockAt, withoutBlockAt, withoutBlockAt]
    cases hfirst : updateProperty (fun property => Entries.erase property key) fields members with
    | none =>
        rw [hfirst, Option.bind_none] at hcomm
        cases hsecond :
            updateProperty (fun property => Entries.erase property key) fields' members with
        | none => rw [Option.getD_none, hfirst, hsecond]
        | some second =>
            rw [hsecond, Option.bind_some] at hcomm
            rw [Option.getD_some, Option.getD_none, ← hcomm, hsecond]
            rfl
    | some first =>
        rw [hfirst, Option.bind_some] at hcomm
        cases hsecond :
            updateProperty (fun property => Entries.erase property key) fields' members with
        | none =>
            rw [hsecond, Option.bind_none] at hcomm
            rw [Option.getD_some, Option.getD_none, hcomm, hfirst]
            rfl
        | some second =>
            rw [hsecond, Option.bind_some] at hcomm
            rw [Option.getD_some, Option.getD_some, ← hcomm]
            -- the way to the second block is still there when the first is gone
            have hway : (updateProperty (fun property => Entries.erase property key) fields'
                first).isSome := by
              rw [isSome_updateProperty, isSome_propertyAt?_of_updateProperty
                (fun property => Entries.get?_erase_of_ne (Ne.symm hkey) property) hfirst,
                ← isSome_updateProperty, hsecond]
              rfl
            obtain ⟨both, hboth⟩ := Option.isSome_iff_exists.1 hway
            rw [hboth]
            rfl

/-- Two changes at the end of a path are a single one. -/
theorem updateProperty_bind_self (first second : Members → Members) (fields : List String)
    (members : Members) :
    (updateProperty first fields members).bind (updateProperty second fields) =
      updateProperty (second ∘ first) fields members := by
  induction fields generalizing members with
  | nil => rfl
  | cons field rest ih =>
      have hbelow (value : Json) :
          (value.update? (updateProperty first rest)).bind
              (Json.update? (updateProperty second rest)) =
            value.update? (updateProperty (second ∘ first) rest) := by
        rw [Json.update?_bind]
        congr 1
        funext property
        exact ih property
      rw [updateProperty_bind_cons, updateProperty_cons]
      simp only [Entries.update?_bind_self, hbelow]

/-- What is merged into a block goes away with the block. -/
theorem withoutBlockAt_of_mergeBlock {directive members changed : Members} {fields : List String}
    (h : updateProperty (mergeBlock key directive) fields members = some changed) :
    withoutBlockAt key fields changed = withoutBlockAt key fields members := by
  have hboth := updateProperty_bind_self (mergeBlock key directive)
    (fun property => Entries.erase property key) fields members
  have herase : (fun property => Entries.erase property key) ∘ mergeBlock key directive =
      fun property => Entries.erase property key := by
    funext property
    exact Entries.erase_insert_self _ _ _
  rw [h, Option.bind_some, herase] at hboth
  -- the path leads somewhere, so that there is a block to remove before and after
  have hway : (updateProperty (fun property => Entries.erase property key) fields
      members).isSome := by
    rw [isSome_updateProperty, ← isSome_updateProperty (mergeBlock key directive), h]
    rfl
  obtain ⟨erased, herased⟩ := Option.isSome_iff_exists.1 hway
  rw [withoutBlockAt, withoutBlockAt, hboth, herased]
  rfl

/-- A change of the block at one of the paths leaves everything outside the blocks as it is. -/
theorem withoutBlocksAt_of_mergeBlock (hkey : key ≠ "properties")
    {directive members changed : Members} {fields : List String} {paths : List (List String)}
    (hfields : fields ∈ paths)
    (h : updateProperty (mergeBlock key directive) fields members = some changed) :
    withoutBlocksAt key paths changed = withoutBlocksAt key paths members := by
  have hlast (paths : List (List String)) (members : Members) :
      withoutBlockAt key fields (withoutBlocksAt key paths members) =
        withoutBlocksAt key paths (withoutBlockAt key fields members) := by
    induction paths with
    | nil => rfl
    | cons first rest ih =>
        rw [withoutBlocksAt, List.foldr_cons, withoutBlockAt_comm hkey, ← withoutBlocksAt, ih]
        rfl
  induction paths with
  | nil => cases hfields
  | cons first rest ih =>
      rw [withoutBlocksAt, List.foldr_cons, withoutBlocksAt, List.foldr_cons]
      rcases List.mem_cons.1 hfields with rfl | hfields
      · rw [← withoutBlocksAt, ← withoutBlocksAt, hlast, hlast, withoutBlockAt_of_mergeBlock h]
      · rw [← withoutBlocksAt, ← withoutBlocksAt, ih hfields]

end Blocks

/-- An entry that leads to a property has its path among those of the definition. -/
theorem mem_fieldPaths {name first : String} {rest : List String} {entries : Members}
    {entry : String × Json} (hentry : entry ∈ entries)
    (h : Target.read? entry.1 = some (.field name first rest)) :
    first :: rest ∈ fieldPaths name entries := by
  have hdefault : entry.1 ≠ "default" := by
    intro hdefault
    rw [hdefault] at h
    cases h
  have hsegments := Target.segments_of_read? h hdefault
  refine List.mem_filterMap.2 ⟨entry, hentry, ?_⟩
  rw [← hsegments, Target.segments]
  exact if_pos rfl

section Run

variable {registry merged : Registry} {entries : Members}

/-- **An entry that takes effect changes nothing outside the blocks that entries lead to.** -/
theorem outsideBlocks_of_change {entry : String × Json} (hentry : entry ∈ entries)
    (h : change? registry entry = some merged) :
    outsideBlocks merged entries = outsideBlocks registry entries := by
  obtain ⟨directive, target, _, htarget, hmerged⟩ := change?_eq_some_iff.1 h
  obtain ⟨definitions, hdefinitions, rfl⟩ := Option.map_eq_some_iff.1 hmerged
  rw [outsideBlocks, outsideBlocks]
  cases target with
  | document =>
      cases hdefinitions
      rfl
  | type name =>
      rw [Target.definitions?] at hdefinitions
      split at hdefinitions
      · cases hdefinitions
        rfl
      · cases hdefinitions
  | field name first rest =>
      have hkey : registry.dialect.directiveKey ≠ "properties" :=
        Ne.symm (Dialect.ne_directiveKey (by decide) (by decide) _)
      obtain ⟨members, changed, hmembers, hchanged, rfl⟩ :=
        Entries.update?_eq_some_iff.1 hdefinitions
      have hsame := withoutBlocksAt_of_mergeBlock hkey (mem_fieldPaths hentry htarget) hchanged
      dsimp only
      rw [Entries.map_insert fun name members =>
        withoutBlocksAt registry.dialect.directiveKey (fieldPaths name entries) members]
      refine Entries.insert_eq_self ?_
      rw [Entries.get?_map fun name members =>
        withoutBlocksAt registry.dialect.directiveKey (fieldPaths name entries) members, hmembers,
        hsame]
      rfl

/-- What entries leave in place, one after another. -/
structure Framed (entries : Members) (before after : Registry) : Prop where
  /-- The dialect is the same. -/
  dialect : after.dialect = before.dialect
  /-- The definitions have the same names, in the same order. -/
  names : Entries.keys after.definitions = Entries.keys before.definitions
  /-- The definitions are the same outside the blocks of the properties that entries lead to. -/
  definitions : outsideBlocks after entries = outsideBlocks before entries
  /-- A type that no entry leads to has the same directives. -/
  typeBlocks : ∀ name, (addressesType name = true → name ∉ Entries.keys entries) →
    Entries.get? after.typeBlocks name = Entries.get? before.typeBlocks name
  /-- Without an entry `default` every type gets the same directives. -/
  defaults : "default" ∉ Entries.keys entries → after.defaults = before.defaults

theorem Framed.refl (entries : Members) (registry : Registry) :
    Framed entries registry registry :=
  ⟨rfl, rfl, rfl, fun _ _ => rfl, fun _ => rfl⟩

theorem Framed.trans {first second third : Registry} (h : Framed entries first second)
    (h' : Framed entries second third) : Framed entries first third where
  dialect := h'.dialect.trans h.dialect
  names := h'.names.trans h.names
  definitions := h'.definitions.trans h.definitions
  typeBlocks name hname := (h'.typeBlocks name hname).trans (h.typeBlocks name hname)
  defaults hdefault := (h'.defaults hdefault).trans (h.defaults hdefault)

/-- **The frame of one entry.** -/
theorem framed_of_change {entry : String × Json} (hentry : entry ∈ entries)
    (h : change? registry entry = some merged) : Framed entries registry merged := by
  have houtside := outsideBlocks_of_change hentry h
  obtain ⟨directive, target, _, htarget, hmerged⟩ := change?_eq_some_iff.1 h
  obtain ⟨definitions, hdefinitions, rfl⟩ := Option.map_eq_some_iff.1 hmerged
  have hpath : entry.1 ∈ Entries.keys entries := List.mem_map_of_mem hentry
  refine ⟨rfl, Target.keys_of_definitions? hdefinitions, houtside, ?_, ?_⟩
  · intro name hname
    cases target with
    | type other =>
        obtain ⟨hother, haddresses⟩ := read?_eq_type_iff.1 htarget
        have hne : other ≠ name := by
          rintro rfl
          exact hname haddresses (hother ▸ hpath)
        exact (Entries.get?_insert _ _ _ _).trans (if_neg hne)
    | _ => rfl
  · intro hdefault
    cases target with
    | document =>
        rw [Target.eq_default_of_read? htarget] at hpath
        exact absurd hpath hdefault
    | _ => rfl

/-- **The frame of a run**, by the frames of its entries. -/
theorem framed_of_run {run : Members} (hrun : run ⊆ entries)
    (h : run.foldlM change? registry = some merged) : Framed entries registry merged := by
  induction run generalizing registry with
  | nil =>
      cases h
      exact .refl entries _
  | cons entry rest ih =>
      rw [List.foldlM_cons] at h
      obtain ⟨next, hnext, hrest⟩ := Option.bind_eq_some_iff.1 h
      rw [List.cons_subset] at hrun
      exact (framed_of_change hrun.1 hnext).trans (ih hrun.2 hrest)

/-- The entries before the first that is refused, as the registry stands. -/
def accepted (registry : Registry) (entries : Members) : Members :=
  entries.takeWhile fun entry => (refusal? registry entry).isNone

/-- **An overlay takes effect up to the first entry that the original registry refuses.** -/
theorem mergeEntries_accepted (registry : Registry) (entries : Members) :
    mergeEntries registry (accepted registry entries) = ((mergeEntries registry entries).1, none) ∧
      (mergeEntries registry entries).2 = entries.findSome? (refusal? registry) := by
  induction entries generalizing registry with
  | nil => exact ⟨rfl, rfl⟩
  | cons entry rest ih =>
      have happly := applyEntry_eq registry entry
      rw [accepted, List.takeWhile_cons, List.findSome?_cons, mergeEntries]
      cases hrefusal : refusal? registry entry with
      | some cause =>
          rw [hrefusal] at happly
          rw [happly]
          exact ⟨rfl, rfl⟩
      | none =>
          obtain ⟨merged, hmerged⟩ := refusal?_eq_none_iff.1 hrefusal
          have hok := applyEntry_eq_ok_iff.2 hmerged
          -- the rest is judged alike before and after the entry
          have hsame : refusal? merged = refusal? registry := by
            funext other
            exact refusal?_of_change hmerged other
          have hrest := ih merged
          rw [accepted, hsame] at hrest
          rw [Option.isNone_none, if_pos rfl, mergeEntries, hok]
          exact hrest

end Run

/-- **What an overlay leaves behind**, refused or not.  The cause is the one that the original
registry has against the first of the entries that it refuses; the registry is the one that the
entries before leave as an overlay of their own.  It has the dialect and the names of the original
one, and outside of the places that these entries lead to it has the same contents. -/
theorem merge_stops_at_first_refusal (registry : Registry) (overlay : Json) :
    (∀ entries, overlay = .obj entries →
      (merge registry overlay).2 = entries.findSome? (refusal? registry) ∧
        merge registry (.obj (accepted registry entries)) = ((merge registry overlay).1, none)) ∧
      (overlay.isObject = false → (merge registry overlay).1 = registry) ∧
      Framed (accepted registry overlay.members) registry (merge registry overlay).1 := by
  refine ⟨?_, ?_, ?_⟩
  · rintro entries rfl
    obtain ⟨haccepted, hcause⟩ := mergeEntries_accepted registry entries
    exact ⟨hcause, haccepted⟩
  · intro hobject
    cases overlay with
    | obj entries => cases hobject
    | _ => rfl
  · cases overlay with
    | obj entries =>
        have haccepted := (mergeEntries_accepted registry entries).1
        exact framed_of_run (List.Subset.refl _) (mergeEntries_eq_iff.1 haccepted)
    | _ => exact .refl _ registry

/-- The block of the property that a path of fields leads to. -/
def blockAt? (registry : Registry) (name : String) (fields : List String) : Option Json :=
  ((Entries.get? registry.definitions name).bind (propertyAt? fields)).bind fun property =>
    Entries.get? property registry.dialect.directiveKey

/-- Directives for a property, for one below it that is not there, and for all types. -/
def strayOverlay : Members :=
  [("Pet.owner", .obj [("sparse", .bool true)]),
    ("Pet.owner.age", .obj [("min", .bool true)]),
    ("default", .obj [("timestamps", .bool true)]),
    ("Person", .arr [])]

/-- The second entry leads nowhere: the first has taken effect, the others have not, and the one
that is no object is not what is complained about. -/
theorem strayOverlay_stops :
    ∃ registry, registryOf (.parsed (.obj ownedPets)) = .ok registry ∧
      accepted registry strayOverlay = strayOverlay.take 1 ∧
      (merge registry (.obj strayOverlay)).2 = some (.badOverlayPath "Pet.owner.age") ∧
      merge registry (.obj (strayOverlay.take 1)) =
        ((merge registry (.obj strayOverlay)).1, none) ∧
      blockAt? (merge registry (.obj strayOverlay)).1 "Pet" ["owner"] =
        some (.obj [("sparse", .bool true)]) ∧
      (merge registry (.obj strayOverlay)).1.defaults = registry.defaults ∧
      Entries.get? (merge registry (.obj strayOverlay)).1.typeBlocks "Person" =
        Entries.get? registry.typeBlocks "Person" := by
  obtain ⟨registry, hregistry, haccepted, hcause, hchanged⟩ :
      ∃ registry, registryOf (.parsed (.obj ownedPets)) = .ok registry ∧
        accepted registry strayOverlay = strayOverlay.take 1 ∧
        strayOverlay.findSome? (refusal? registry) = some (.badOverlayPath "Pet.owner.age") ∧
        blockAt? (merge registry (.obj strayOverlay)).1 "Pet" ["owner"] =
          some (.obj [("sparse", .bool true)]) :=
    ⟨_, rfl, rfl, rfl, rfl⟩
  obtain ⟨hstops, _, hframe⟩ := merge_stops_at_first_refusal registry (.obj strayOverlay)
  obtain ⟨hfirst, hbefore⟩ := hstops strayOverlay rfl
  rw [haccepted] at hbefore
  rw [Json.members_obj, haccepted] at hframe
  refine ⟨registry, hregistry, haccepted, hfirst.trans hcause, hbefore, hchanged,
    hframe.defaults (by decide), hframe.typeBlocks "Person" fun _ => by decide⟩

end Overlay

end StoreSchema
