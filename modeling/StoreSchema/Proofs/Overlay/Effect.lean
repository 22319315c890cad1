/-
**What an overlay says for a type.**

Of the entries of an overlay two have a part in the directives of a type: the entry `default`, which
is merged into those that apply to every type, and the entry that leads to the type.  A path leads
to a type when it is the name of the type.  But a dot in a path starts the name of a field, and
`default` is taken, so a type whose name has a dot in it or is `default` has no entry of its own.

Main definitions:

* `Overlay.valueAt?`, `Overlay.typeValue?` — the entry under a path, and the entry of a type;
* `Overlay.addressesType` — whether an entry under a name leads to the type of that name.

Main results:

* `Json.get?_merge` — what is read after a merge;
* `Overlay.read?_eq_type_iff` — **the paths that lead to a type**;
* `Overlay.view_of_apply` — what an overlay makes of a part of a registry that one of its entries
  changes;
* `Overlay.defaults_of_apply`, `Overlay.typeBlock_of_apply` — **the directives for all types, and
  those of one type, under an overlay**.
-/

import StoreSchema.Proofs.Overlay.Invariants

set_option relaxedAutoImplicit false
set_option autoImplicit false

namespace StoreSchema

/-! ### Merging -/

namespace Json

/-- **What is read after a merge** is what is merged in, laid over what was there. -/
theorem get?_merge {source : Members} (hsource : (Entries.keys source).Nodup) (target : Members)
    (key : String) :
    Entries.get? (merge target source) key =
      ((Entries.get? source key).map (mergeValue (Entries.get? target key))).or
        (Entries.get? target key) := by
  induction source generalizing target with
  | nil => rw [merge]; rfl
  | cons first rest ih =>
      obtain ⟨name, value⟩ := first
      rw [Entries.keys_cons, List.nodup_cons] at hsource
      rw [merge, ih hsource.2, Entries.get?_cons, Entries.get?_insert]
      by_cases hname : name = key
      · subst hname
        simp [Entries.get?_eq_none_iff.2 hsource.1]
      · simp [hname]

/-- Members with new names are merged in as they stand. -/
theorem merge_of_nodup {target source : Members}
    (h : (Entries.keys (target ++ source)).Nodup) : merge target source = target ++ source := by
  induction source generalizing target with
  | nil => rw [merge, List.append_nil]
  | cons first rest ih =>
      obtain ⟨name, value⟩ := first
      have hnew : Entries.get? target name = none := by
        rw [Entries.get?_eq_none_iff]
        intro hname
        rw [Entries.keys, List.map_append, List.nodup_append] at h
        exact h.2.2 name hname name (by simp) rfl
      have hvalue : mergeValue none value = value := by
        cases value with
        | obj members => exact mergeValue_of_none (by simp) members
        | _ => exact mergeValue_of_not_isObject rfl none
      rw [merge, hnew, hvalue, Entries.insert_of_nodup h, ih (by simpa using h),
        List.append_assoc]
      rfl

end Json

/-! ### Entries -/

namespace Overlay

/-- The entry of an overlay under a path. -/
def valueAt? (overlay : Option Json) (path : String) : Option Json :=
  overlay.bind fun value => Entries.get? value.members path

/-- Whether an entry under this name leads to the type of the name: the entry `default` is for all
types, and what follows a dot is a field. -/
def addressesType (name : String) : Bool := !name.toList.contains '.' && name != "default"

/-- The entry of a type. -/
def typeValue? (overlay : Option Json) (name : String) : Option Json :=
  if addressesType name then valueAt? overlay name else none

/-- **A path leads to a type** when it is the name of the type, and a name that leads to it. -/
theorem read?_eq_type_iff {path name : String} :
    Target.read? path = some (.type name) ↔ path = name ∧ addressesType name = true := by
  constructor
  · intro h
    have hdefault : path ≠ "default" := by
      rintro rfl
      cases h
    have hpath : [name] = Text.dotted path := Target.segments_of_read? h hdefault
    have hdot : '.' ∉ name.toList := by
      have hname : name ∈ Text.dotted path := by simp [← hpath]
      obtain ⟨segment, hsegment, rfl⟩ := List.mem_map.1 hname
      rw [String.toList_ofList]
      exact Text.not_mem_of_mem_segments hsegment
    obtain rfl : path = name :=
      Text.dotted_injective (by rw [← hpath, Text.dotted_of_not_mem hdot])
    exact ⟨rfl, by simp [addressesType, hdot, hdefault]⟩
  · rintro ⟨rfl, hname⟩
    rw [addressesType, Bool.and_eq_true, Bool.not_eq_true', bne_iff_ne] at hname
    have hdot : '.' ∉ path.toList := by simpa using hname.1
    rw [Target.read?, if_neg hname.2, Text.dotted_of_not_mem hdot]

variable {registry merged : Registry} {overlay : Option Json}

/-- **What an overlay makes of a part of a registry.**  When entries other than the one under `path`
leave a part as it is, the overlay makes of it what that entry does. -/
theorem view_of_apply {α : Type} (view : Registry → α) (path : String)
    (lay : Json → α → α)
    (hstep : ∀ entry registry merged, change? registry entry = some merged →
      view merged = if entry.1 = path then lay entry.2 (view registry) else view registry)
    (hdistinct : ∀ value, overlay = some value → (Entries.keys value.members).Nodup)
    (h : apply registry overlay = .ok merged) :
    view merged =
      ((valueAt? overlay path).map fun value => lay value (view registry)).getD
        (view registry) := by
  cases overlay with
  | none =>
      cases h
      rfl
  | some value =>
      rw [apply] at h
      split at h
      · next found hfound =>
          cases h
          cases value with
          | null =>
              cases hfound
              rfl
          | obj entries =>
              have hrun := mergeEntries_eq_iff.1 hfound
              have hnodup : (Entries.keys entries).Nodup := hdistinct _ rfl
              rw [valueAt?, Option.bind_some, Json.members_obj]
              clear hfound hdistinct
              -- the entry under the path is met once, and nothing else changes the part
              induction entries generalizing registry with
              | nil =>
                  cases hrun
                  rfl
              | cons entry rest ih =>
                  obtain ⟨name, value⟩ := entry
                  rw [Entries.keys_cons, List.nodup_cons] at hnodup
                  rw [List.foldlM_cons] at hrun
                  obtain ⟨next, hnext, hrun⟩ := Option.bind_eq_some_iff.1 hrun
                  rw [ih hrun hnodup.2, hstep _ _ _ hnext, Entries.get?_cons]
                  by_cases hname : name = path
                  · subst hname
                    simp [Entries.get?_eq_none_iff.2 hnodup.1]
                  · simp [hname]
          | _ => cases hfound
      · cases h

/-- The entry `default` is merged into the directives that apply to every type, and no other entry
is. -/
theorem defaults_of_apply
    (hdistinct : ∀ value, overlay = some value → (Entries.keys value.members).Nodup)
    (h : apply registry overlay = .ok merged) :
    merged.defaults = ((valueAt? overlay "default").map fun value =>
      Json.merge registry.defaults (defaultDirective value.members)).getD registry.defaults := by
  refine view_of_apply Registry.defaults "default"
    (fun value defaults => Json.merge defaults (defaultDirective value.members)) ?_ hdistinct h
  intro entry before after hchange
  obtain ⟨directive, target, hdirective, htarget, hmerged⟩ := change?_eq_some_iff.1 hchange
  obtain ⟨definitions, _, rfl⟩ := Option.map_eq_some_iff.1 hmerged
  rw [hdirective, Json.members_obj]
  cases target with
  | document => rw [if_pos (Target.eq_default_of_read? htarget), Target.defaults]
  | _ =>
      have hpath : entry.1 ≠ "default" := by
        intro hpath
        rw [hpath] at htarget
        cases htarget
      rw [if_neg hpath, Target.defaults]
      simp

/-- The entry of a type is merged into its directives, and no other entry is. -/
theorem typeBlock_of_apply (name : String)
    (hdistinct : ∀ value, overlay = some value → (Entries.keys value.members).Nodup)
    (h : apply registry overlay = .ok merged) :
    (Entries.get? merged.typeBlocks name).getD [] =
      ((typeValue? overlay name).map fun value =>
        Json.merge ((Entries.get? registry.typeBlocks name).getD []) value.members).getD
          ((Entries.get? registry.typeBlocks name).getD []) := by
  have hview := view_of_apply (fun registry => (Entries.get? registry.typeBlocks name).getD []) name
    (fun value own => if addressesType name then Json.merge own value.members else own)
    ?_ hdistinct h
  · rw [hview, typeValue?]
    cases addressesType name with
    | true => simp
    | false => cases valueAt? overlay name <;> simp
  · intro entry before after hchange
    obtain ⟨directive, target, hdirective, htarget, hmerged⟩ := change?_eq_some_iff.1 hchange
    obtain ⟨definitions, _, rfl⟩ := Option.map_eq_some_iff.1 hmerged
    rw [hdirective, Json.members_obj]
    by_cases htype : target = .type name
    · subst htype
      obtain ⟨hname, haddresses⟩ := read?_eq_type_iff.1 htarget
      rw [if_pos hname, if_pos haddresses]
      simp [Target.typeBlocks]
    · have hother : Entries.get? (target.typeBlocks directive before.typeBlocks) name =
          Entries.get? before.typeBlocks name := by
        cases target with
        | type other =>
            have hne : other ≠ name := fun heq => htype (heq ▸ rfl)
            rw [Target.typeBlocks, Entries.get?_insert, if_neg hne]
        | _ => simp [Target.typeBlocks]
      -- a path that is the name of the type leads there, if the name can be addressed at all
      have haddresses : entry.1 = name → addressesType name = false := by
        intro hname
        rw [← Bool.not_eq_true]
        intro haddresses
        have hread := read?_eq_type_iff.2 ⟨rfl, haddresses⟩
        rw [hname, hread] at htarget
        exact htype (Option.some.inj htarget).symm
      dsimp only
      rw [hother]
      by_cases hname : entry.1 = name
      · simp [haddresses hname]
      · rw [if_neg hname]

end Overlay

end StoreSchema
