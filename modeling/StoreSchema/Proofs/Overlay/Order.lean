/-
**The order of overlay entries.**

An overlay is an object, and the order in which its entries stand should mean nothing.  But entries
take effect one after another on the same registry, and one may lead to a property below the one
that another leads to.  What keeps them apart is that an entry reaches a single place, which is in
the directives of the document, or in those of a type, or in the block of a property; distinct
paths lead to distinct places, and writing at one of them neither makes nor breaks the way to
another.  So any two entries commute, and with them all permutations of an overlay.  What remains
of the order is the order in which the directive blocks of types are listed, and nothing reads that.

Main definitions:

* `Registry.SameButOrder` — that two registries are the same but for the order of those blocks;
* `Overlay.Target`, `Overlay.Target.mergeIn?` — the place an entry leads to, and a registry after a
  directive has been merged in there;
* `Overlay.change?` — the registry after one entry, if it takes effect.

Main results:

* `Overlay.applyEntry_eq_ok_iff`, `Overlay.mergeEntries_eq_iff` — an entry takes effect at the place
  it leads to, and an overlay by its entries in turn;
* `Overlay.change?_comm` — **two entries commute**;
* `Overlay.run_perm` — and so do all entries of an overlay;
* `Overlay.merge_perm` — **the order of the entries of an overlay does not matter**.
-/

import StoreSchema.Proofs.Overlay.Path
import StoreSchema.Proofs.TypeBlocks

set_option relaxedAutoImplicit false
set_option autoImplicit false

namespace StoreSchema

/-! ### Registries up to the order of blocks -/

/-- That two registries are the same but for the order in which the directive blocks of types are
listed. -/
structure Registry.SameButOrder (left right : Registry) : Prop where
  /-- The dialect is the same. -/
  dialect : left.dialect = right.dialect
  /-- The definitions are the same, in the same order. -/
  definitions : left.definitions = right.definitions
  /-- The directives that apply to every type are the same. -/
  defaults : left.defaults = right.defaults
  /-- Every type has the same directives. -/
  typeBlocks : ∀ name, Entries.get? left.typeBlocks name = Entries.get? right.typeBlocks name

namespace Registry.SameButOrder

variable {left middle right : Registry}

theorem refl (registry : Registry) : registry.SameButOrder registry :=
  ⟨rfl, rfl, rfl, fun _ => rfl⟩

theorem symm (h : left.SameButOrder right) : right.SameButOrder left where
  dialect := h.dialect.symm
  definitions := h.definitions.symm
  defaults := h.defaults.symm
  typeBlocks name := (h.typeBlocks name).symm

theorem trans (h : left.SameButOrder middle) (h' : middle.SameButOrder right) :
    left.SameButOrder right where
  dialect := h.dialect.trans h'.dialect
  definitions := h.definitions.trans h'.definitions
  defaults := h.defaults.trans h'.defaults
  typeBlocks name := (h.typeBlocks name).trans (h'.typeBlocks name)

/-- Registries that are the same but for the order of blocks are alike. -/
theorem alike (h : left.SameButOrder right) : left.Alike right where
  dialect := h.dialect
  defaults := h.defaults
  definitions := by
    rw [h.definitions]
    refine Entries.Paired.refl ?_ right.definitions
    intro name members
    rfl
  typeBlocks name _ := h.typeBlocks name

end Registry.SameButOrder

namespace Overlay

/-! ### The place an entry leads to -/

/-- The places that the entries of an overlay lead to. -/
inductive Target where
  /-- The directives that apply to every type. -/
  | document
  /-- The directives of a type. -/
  | type (name : String)
  /-- The block of a property, below one or more fields of a definition. -/
  | field (name first : String) (rest : List String)

namespace Target

/-- The place that a path leads to. -/
def read? (path : String) : Option Target :=
  if path = "default" then some .document
  else
    match Text.dotted path with
    | [] => none
    | [name] => some (.type name)
    | name :: first :: rest => some (.field name first rest)

/-- The segments of the path to a place; nothing for the directives that apply to every type. -/
def segments : Target → List String
  | .document => []
  | .type name => [name]
  | .field name first rest => name :: first :: rest

/-- A path that leads to a place of a definition consists of the segments to that place. -/
theorem segments_of_read? {path : String} {target : Target} (h : read? path = some target)
    (hpath : path ≠ "default") : target.segments = Text.dotted path := by
  rw [read?, if_neg hpath] at h
  split at h
  · cases h
  · next hsegments =>
      cases h
      rw [hsegments, segments]
  · next hsegments =>
      cases h
      rw [hsegments, segments]

theorem eq_default_of_read? {path : String} (h : read? path = some .document) :
    path = "default" := by
  rw [read?] at h
  split at h
  · assumption
  · split at h <;> cases h

/-- **Different paths lead to different places.** -/
theorem read?_injective {path path' : String} {target : Target} (h : read? path = some target)
    (h' : read? path' = some target) : path = path' := by
  by_cases hpath : path = "default"
  · subst hpath
    have htarget : target = .document := by
      rw [read?, if_pos rfl] at h
      exact (Option.some.inj h).symm
    rw [htarget] at h'
    exact (eq_default_of_read? h').symm
  · have hpath' : path' ≠ "default" := by
      intro hpath'
      rw [read?, if_pos hpath'] at h'
      cases h'
      exact hpath (eq_default_of_read? h)
    exact Text.dotted_injective
      ((segments_of_read? h hpath).symm.trans (segments_of_read? h' hpath'))

/-! ### What happens at a place -/

/-- The directives that apply to every type, after a directive has been merged in at a place. -/
def defaults (directive defaults : Members) : Target → Members
  | .document => Json.merge defaults (defaultDirective directive)
  | _ => defaults

/-- The directive blocks of types, after a directive has been merged in at a place. -/
def typeBlocks (directive : Members) (blocks : Entries Members) : Target → Entries Members
  | .type name =>
      Entries.insert blocks name (Json.merge ((Entries.get? blocks name).getD []) directive)
  | _ => blocks

/-- The definitions, after a directive has been merged in at a place; nothing when there is no such
place. -/
def definitions? (key : String) (directive : Members) (definitions : Entries Members) :
    Target → Option (Entries Members)
  | .document => some definitions
  | .type name => if Entries.contains definitions name then some definitions else none
  | .field name first rest =>
      Entries.update? definitions name (updateProperty (mergeBlock key directive) (first :: rest))

/-- **The registry after a directive has been merged in at a place**; nothing when there is no such
place. -/
def mergeIn? (target : Target) (directive : Members) (registry : Registry) : Option Registry :=
  (target.definitions? registry.dialect.directiveKey directive registry.definitions).map
    fun definitions =>
      { registry with
        definitions
        defaults := target.defaults directive registry.defaults
        typeBlocks := target.typeBlocks directive registry.typeBlocks }

end Target

/-- The place that an entry leads to, and the directive that it merges in there. -/
def placed? (entry : String × Json) : Option (Target × Members) :=
  match entry.2 with
  | .obj directive => (Target.read? entry.1).map fun target => (target, directive)
  | _ => none

/-- The registry after one entry, if it takes effect. -/
def change? (registry : Registry) (entry : String × Json) : Option Registry :=
  (placed? entry).bind fun placed => placed.1.mergeIn? placed.2 registry

theorem read?_of_placed? {entry : String × Json} {target : Target} {directive : Members}
    (h : placed? entry = some (target, directive)) : Target.read? entry.1 = some target := by
  rw [placed?] at h
  split at h
  · obtain ⟨found, hfound, heq⟩ := Option.map_eq_some_iff.1 h
    cases heq
    exact hfound
  · cases h

/-- A change of a type or a field is the change at the place that the path leads to. -/
theorem mergeAt?_eq {path : String} (hpath : path ≠ "default") (registry : Registry)
    (directive : Members) :
    mergeAt? registry path directive =
      (Target.read? path).bind fun target => target.mergeIn? directive registry := by
  rw [mergeAt?, Target.read?, if_neg hpath]
  cases Text.dotted path with
  | nil => rfl
  | cons name fields =>
      cases fields with
      | nil =>
          cases hcontains : Entries.contains registry.definitions name with
          | false => simp [Target.mergeIn?, Target.definitions?, hcontains]
          | true => simp [Target.mergeIn?, Target.definitions?, hcontains, mergeType,
              Target.defaults, Target.typeBlocks]
      | cons first rest =>
          have hfield : mergeField? registry name (first :: rest) directive =
              (Target.field name first rest).mergeIn? directive registry := by
            rw [mergeField?, Target.mergeIn?, Target.definitions?, Entries.update?, Option.map_bind]
            congr 1
            funext definition
            rw [Function.comp_apply, Option.map_map]
            rfl
          cases hget : Entries.get? registry.definitions name with
          | none =>
              have hcontains : Entries.contains registry.definitions name = false := by
                rw [Entries.contains, hget]
                rfl
              simp [Target.mergeIn?, Target.definitions?, Entries.update?, hcontains, hget]
          | some definition =>
              have hcontains : Entries.contains registry.definitions name = true := by
                rw [Entries.contains, hget]
                rfl
              simpa [hcontains] using hfield

/-- **An entry takes effect exactly when it is an object and its place is there.** -/
theorem applyEntry_eq_ok_iff {registry merged : Registry} {path : String} {value : Json} :
    applyEntry registry path value = .ok merged ↔ change? registry (path, value) = some merged := by
  cases value with
  | obj directive =>
      have hchange : change? registry (path, .obj directive) =
          (Target.read? path).bind fun target => target.mergeIn? directive registry := by
        rw [change?, placed?, Option.bind_map]
        rfl
      rw [applyEntry, hchange]
      by_cases hpath : path = "default"
      · simp [hpath, Target.read?, Target.mergeIn?, Target.definitions?, Target.defaults,
          Target.typeBlocks]
      · rw [if_neg hpath, mergeAt?_eq hpath]
        split
        · next found hfound => simp [hfound]
        · next hfound => simp [hfound]
  | _ => simp [applyEntry, change?, placed?]

/-- **An overlay takes effect exactly when its entries do, one after another.** -/
theorem mergeEntries_eq_iff {registry merged : Registry} {entries : Members} :
    mergeEntries registry entries = (merged, none) ↔
      entries.foldlM change? registry = some merged := by
  induction entries generalizing registry with
  | nil => simp [mergeEntries]
  | cons entry rest ih =>
      obtain ⟨path, value⟩ := entry
      rw [mergeEntries, List.foldlM_cons]
      cases happly : applyEntry registry path value with
      | ok next =>
          rw [applyEntry_eq_ok_iff.1 happly]
          exact ih
      | error cause =>
          have hnone : change? registry (path, value) = none := by
            cases hchange : change? registry (path, value) with
            | none => rfl
            | some next =>
                rw [applyEntry_eq_ok_iff.2 hchange] at happly
                cases happly
          simp [hnone]

/-! ### Two entries -/

namespace Target

variable {target target' : Target} {directive directive' : Members}

theorem defaults_comm (h : target ≠ target') (defaults : Members) :
    target'.defaults directive' (target.defaults directive defaults) =
      target.defaults directive (target'.defaults directive' defaults) := by
  cases target with
  | document =>
      cases target' with
      | document => exact absurd rfl h
      | _ => rfl
  | _ => cases target' <;> rfl

theorem get?_typeBlocks_comm (h : target ≠ target') (blocks : Entries Members) (name : String) :
    Entries.get? (target'.typeBlocks directive' (target.typeBlocks directive blocks)) name =
      Entries.get? (target.typeBlocks directive (target'.typeBlocks directive' blocks)) name := by
  cases target with
  | type first =>
      cases target' with
      | type second =>
          have hne : first ≠ second := by
            intro hname
            exact h (by rw [hname])
          -- each of the two blocks is what it is without the other
          simp only [typeBlocks, Entries.get?_insert, if_neg hne, if_neg (Ne.symm hne)]
          by_cases hfirst : first = name
          · subst hfirst
            simp [Ne.symm hne]
          · simp [hfirst]
      | _ => rfl
  | _ => cases target' <;> rfl

/-- Merging in a directive keeps the names of the definitions. -/
theorem keys_of_definitions? {key : String} {definitions changed : Entries Members}
    (h : target.definitions? key directive definitions = some changed) :
    Entries.keys changed = Entries.keys definitions := by
  cases target with
  | document =>
      cases h
      rfl
  | type name =>
      rw [definitions?] at h
      split at h
      · cases h
        rfl
      · cases h
  | field name first rest => exact Entries.keys_of_update? h

section Definitions

variable {key : String} (definitions : Entries Members)

theorem definitions?_document_comm :
    (Target.document.definitions? key directive definitions).bind
        (fun changed => target'.definitions? key directive' changed) =
      (target'.definitions? key directive' definitions).bind
        fun changed => Target.document.definitions? key directive changed := by
  simp [definitions?]

/-- Whether a type is there does not depend on what happens elsewhere. -/
theorem definitions?_type_comm (name : String) :
    ((Target.type name).definitions? key directive definitions).bind
        (fun changed => target'.definitions? key directive' changed) =
      (target'.definitions? key directive' definitions).bind
        fun changed => (Target.type name).definitions? key directive changed := by
  have hcontains {changed : Entries Members}
      (h : target'.definitions? key directive' definitions = some changed) :
      Entries.contains changed name = Entries.contains definitions name := by
    rw [Bool.eq_iff_iff, Entries.contains_iff, Entries.contains_iff, keys_of_definitions? h]
  cases hchanged : target'.definitions? key directive' definitions with
  | none =>
      rw [definitions?]
      split
      · exact hchanged
      · rfl
  | some changed =>
      simp only [definitions?, Option.bind_some, hcontains hchanged]
      split
      · exact hchanged
      · rfl

/-- Properties of two definitions, or two properties of one, are changed in any order. -/
theorem definitions?_field_comm (hkey : key ≠ "properties") {name name' first first' : String}
    {rest rest' : List String} (h : Target.field name first rest ≠ .field name' first' rest') :
    ((Target.field name first rest).definitions? key directive definitions).bind
        (fun changed => (Target.field name' first' rest').definitions? key directive' changed) =
      ((Target.field name' first' rest').definitions? key directive' definitions).bind
        fun changed => (Target.field name first rest).definitions? key directive changed := by
  simp only [definitions?]
  by_cases hname : name = name'
  · subst hname
    have hfields : first :: rest ≠ first' :: rest' := by
      intro hfields
      cases hfields
      exact h rfl
    have hcomm := updateProperty_comm (keepsProperties_mergeBlock hkey directive)
      (keepsProperties_mergeBlock hkey directive') hfields
    simp only [Entries.update?_bind_self, hcomm]
  · exact Entries.update?_comm hname definitions _ _

/-- **Definitions may be changed at two places in any order.** -/
theorem definitions?_comm (hkey : key ≠ "properties") (h : target ≠ target') :
    (target.definitions? key directive definitions).bind
        (fun changed => target'.definitions? key directive' changed) =
      (target'.definitions? key directive' definitions).bind
        fun changed => target.definitions? key directive changed := by
  cases target with
  | document => exact definitions?_document_comm definitions
  | type name => exact definitions?_type_comm definitions name
  | field name first rest =>
      cases target' with
      | document => exact (definitions?_document_comm definitions).symm
      | type name' => exact (definitions?_type_comm definitions name').symm
      | field name' first' rest' => exact definitions?_field_comm definitions hkey h

end Definitions

/-- The registry after directives have been merged in at two places. -/
theorem mergeIn?_bind (registry : Registry) :
    (target.mergeIn? directive registry).bind (target'.mergeIn? directive') =
      ((target.definitions? registry.dialect.directiveKey directive registry.definitions).bind
        fun changed => target'.definitions? registry.dialect.directiveKey directive' changed).map
          fun definitions =>
            { registry with
              definitions
              defaults := target'.defaults directive' (target.defaults directive registry.defaults)
              typeBlocks :=
                target'.typeBlocks directive' (target.typeBlocks directive registry.typeBlocks) } := by
  rw [mergeIn?]
  cases target.definitions? registry.dialect.directiveKey directive registry.definitions <;> rfl

/-- **Directives may be merged in at two places in any order.** -/
theorem mergeIn?_comm (h : target ≠ target') (registry : Registry) :
    Option.Rel Registry.SameButOrder
      ((target.mergeIn? directive registry).bind (target'.mergeIn? directive'))
      ((target'.mergeIn? directive' registry).bind (target.mergeIn? directive)) := by
  have hkey : registry.dialect.directiveKey ≠ "properties" :=
    Ne.symm (Dialect.ne_directiveKey (by decide) (by decide) _)
  rw [mergeIn?_bind, mergeIn?_bind, definitions?_comm registry.definitions hkey h]
  cases (target'.definitions? registry.dialect.directiveKey directive' registry.definitions).bind
    fun changed => target.definitions? registry.dialect.directiveKey directive changed with
  | none => exact .none
  | some definitions =>
      exact .some ⟨rfl, rfl, defaults_comm h registry.defaults,
        get?_typeBlocks_comm h registry.typeBlocks⟩

/-- What happens at a place does not depend on the order of blocks. -/
theorem mergeIn?_congr {left right : Registry} (h : left.SameButOrder right) :
    Option.Rel Registry.SameButOrder (target.mergeIn? directive left)
      (target.mergeIn? directive right) := by
  have hblocks (name : String) : Entries.get? (target.typeBlocks directive left.typeBlocks) name =
      Entries.get? (target.typeBlocks directive right.typeBlocks) name := by
    cases target with
    | type other => simp [typeBlocks, Entries.get?_insert, h.typeBlocks]
    | _ => exact h.typeBlocks name
  rw [mergeIn?, mergeIn?, h.dialect, h.definitions]
  cases target.definitions? right.dialect.directiveKey directive right.definitions with
  | none => exact .none
  | some definitions =>
      have hdefaults : target.defaults directive left.defaults =
          target.defaults directive right.defaults := by rw [h.defaults]
      exact .some ⟨rfl, rfl, hdefaults, hblocks⟩

end Target

/-! ### All entries -/

section Run

variable {left right registry : Registry}

theorem rel_bind {α : Type} {related : α → α → Prop} {first first' : Option α}
    {next next' : α → Option α} (h : Option.Rel related first first')
    (hnext : ∀ value value', related value value' → Option.Rel related (next value) (next' value')) :
    Option.Rel related (first.bind next) (first'.bind next') := by
  cases h with
  | none => exact .none
  | some hvalue => exact hnext _ _ hvalue

theorem rel_trans {first second third : Option Registry}
    (h : Option.Rel Registry.SameButOrder first second)
    (h' : Option.Rel Registry.SameButOrder second third) :
    Option.Rel Registry.SameButOrder first third := by
  cases h with
  | none => exact h'
  | some hvalue =>
      cases h' with
      | some hvalue' => exact .some (hvalue.trans hvalue')

theorem change?_congr (h : left.SameButOrder right) (entry : String × Json) :
    Option.Rel Registry.SameButOrder (change? left entry) (change? right entry) := by
  rw [change?, change?]
  cases placed? entry with
  | none => exact .none
  | some placed => exact Target.mergeIn?_congr h

/-- **Two entries commute.** -/
theorem change?_comm {entry entry' : String × Json} (h : entry.1 ≠ entry'.1)
    (registry : Registry) :
    Option.Rel Registry.SameButOrder
      ((change? registry entry).bind fun changed => change? changed entry')
      ((change? registry entry').bind fun changed => change? changed entry) := by
  cases hplaced : placed? entry with
  | none =>
      -- an entry that is refused is refused before and after the other
      have hnone (registry : Registry) : change? registry entry = none := by
        rw [change?, hplaced]
        rfl
      simp [hnone]
  | some placed =>
      cases hplaced' : placed? entry' with
      | none =>
          have hnone (registry : Registry) : change? registry entry' = none := by
            rw [change?, hplaced']
            rfl
          simp [hnone]
      | some placed' =>
          obtain ⟨target, directive⟩ := placed
          obtain ⟨target', directive'⟩ := placed'
          have htarget : target ≠ target' := by
            rintro rfl
            exact h (Target.read?_injective (read?_of_placed? hplaced) (read?_of_placed? hplaced'))
          have hchange (registry : Registry) :
              change? registry entry = target.mergeIn? directive registry := by
            rw [change?, hplaced]
            rfl
          have hchange' (registry : Registry) :
              change? registry entry' = target'.mergeIn? directive' registry := by
            rw [change?, hplaced']
            rfl
          simp only [hchange, hchange']
          exact Target.mergeIn?_comm htarget registry

/-- Overlays take effect alike on registries that are the same but for the order of blocks. -/
theorem run_congr (h : left.SameButOrder right) (entries : Members) :
    Option.Rel Registry.SameButOrder (entries.foldlM change? left)
      (entries.foldlM change? right) := by
  induction entries generalizing left right with
  | nil => exact .some h
  | cons entry rest ih =>
      rw [List.foldlM_cons, List.foldlM_cons]
      exact rel_bind (change?_congr h entry) fun changed changed' hchanged => ih hchanged

/-- **All entries of an overlay commute**, as long as no path is repeated. -/
theorem run_perm {entries entries' : Members} (hperm : entries.Perm entries')
    (hdistinct : (Entries.keys entries).Nodup) (registry : Registry) :
    Option.Rel Registry.SameButOrder (entries.foldlM change? registry)
      (entries'.foldlM change? registry) := by
  induction hperm generalizing registry with
  | nil => exact .some (.refl registry)
  | @cons entry rest rest' hrest ih =>
      rw [Entries.keys_cons, List.nodup_cons] at hdistinct
      rw [List.foldlM_cons, List.foldlM_cons]
      cases change? registry entry with
      | none => exact .none
      | some changed => exact ih hdistinct.2 changed
  | swap first second rest =>
      rw [Entries.keys_cons, List.nodup_cons, Entries.keys_cons, List.mem_cons] at hdistinct
      have hne : second.1 ≠ first.1 := fun heq => hdistinct.1 (.inl heq)
      simp only [List.foldlM_cons]
      rw [← bind_assoc, ← bind_assoc]
      exact rel_bind (change?_comm hne registry) fun changed changed' hchanged =>
        run_congr hchanged rest
  | trans hfirst hsecond ih ih' =>
      have hdistinct' := (hfirst.map Prod.fst).nodup_iff.1 hdistinct
      exact rel_trans (ih hdistinct registry) (ih' hdistinct' registry)

/-- In another order an overlay takes effect with the same result, or is refused as well. -/
theorem merge_cases {entries entries' : Members} (hperm : entries.Perm entries')
    (hdistinct : (Entries.keys entries).Nodup) (registry : Registry) :
    (∃ merged merged', merge registry (.obj entries) = (merged, none) ∧
        merge registry (.obj entries') = (merged', none) ∧ merged.SameButOrder merged') ∨
      ((merge registry (.obj entries)).2 ≠ none ∧ (merge registry (.obj entries')).2 ≠ none) := by
  have hnone {entries : Members} (h : entries.foldlM change? registry = none) :
      (merge registry (.obj entries)).2 ≠ none := by
    intro hmerged
    have hpair : mergeEntries registry entries = ((mergeEntries registry entries).1, none) :=
      Prod.ext rfl hmerged
    rw [mergeEntries_eq_iff.1 hpair] at h
    cases h
  have hrun := run_perm hperm hdistinct registry
  cases hfirst : entries.foldlM change? registry with
  | none =>
      cases hsecond : entries'.foldlM change? registry with
      | none => exact .inr ⟨hnone hfirst, hnone hsecond⟩
      | some merged' =>
          rw [hfirst, hsecond] at hrun
          cases hrun
  | some merged =>
      cases hsecond : entries'.foldlM change? registry with
      | none =>
          rw [hfirst, hsecond] at hrun
          cases hrun
      | some merged' =>
          rw [hfirst, hsecond] at hrun
          cases hrun with
          | some hsame =>
              exact .inl ⟨merged, merged', mergeEntries_eq_iff.2 hfirst,
                mergeEntries_eq_iff.2 hsecond, hsame⟩

end Run

/-! ### Compiling under an overlay -/

/-- The registry of the document that a source holds. -/
def registryOf (source : Source) : Outcome Registry := do
  let document ← source.normalize
  Registry.build document (Dialect.detect document)

/-- Compiling a document is compiling its registry under the overlay. -/
theorem compile_eq_bind (source : Source) (options : Options) :
    compile source options =
      registryOf source >>= fun registry =>
        apply registry options.overlay >>= fun overlaid =>
          overlaid.catalog >>= fun catalog => catalog.compile options.validators := by
  simp only [compile, catalogOf, registryOf, bind_assoc]

theorem compile_of_registryOf {source : Source} {registry : Registry}
    (h : registryOf source = .ok registry) (options : Options) :
    compile source options =
      apply registry options.overlay >>= fun overlaid =>
        overlaid.catalog >>= fun catalog => catalog.compile options.validators := by
  rw [compile_eq_bind, h]
  rfl

/-- An overlay that is refused lets nothing compile. -/
theorem not_succeeds_of_refused {registry : Registry} {overlay : Json}
    (h : (merge registry overlay).2 ≠ none) {α : Type} (next : Registry → Outcome α) :
    ¬Outcome.Succeeds (apply registry (some overlay) >>= next) := by
  rw [apply]
  split
  · next hmerged =>
      rw [hmerged] at h
      exact absurd rfl h
  · exact Outcome.not_succeeds_error _

/-- Overlays that take effect with the same result let the same compile. -/
theorem compile_eq_of_sameButOrder {registry merged merged' : Registry} {overlay overlay' : Json}
    (h : merge registry overlay = (merged, none)) (h' : merge registry overlay' = (merged', none))
    (hsame : merged.SameButOrder merged') (validators : Validators) :
    (apply registry (some overlay) >>= fun overlaid =>
        overlaid.catalog >>= fun catalog => catalog.compile validators) =
      apply registry (some overlay') >>= fun overlaid =>
        overlaid.catalog >>= fun catalog => catalog.compile validators := by
  rw [apply, apply, h, h']
  exact hsame.alike.compile_eq validators

/-- **The order of the entries of an overlay does not matter.**  An overlay takes effect exactly
when it does so in any other order, and then definitions, directives for all types and directives of
every type come out the same, and so do the schemas, or the cause against them.  An overlay that is
refused is refused in every order, though maybe for another of its entries. -/
theorem merge_perm {entries entries' : Members} (hperm : entries.Perm entries')
    (hdistinct : (Entries.keys entries).Nodup) :
    (∀ registry,
      ((merge registry (.obj entries)).2 = none ↔ (merge registry (.obj entries')).2 = none) ∧
      ((merge registry (.obj entries)).2 = none →
        (merge registry (.obj entries)).1.SameButOrder (merge registry (.obj entries')).1)) ∧
    ∀ source validators,
      (Outcome.Succeeds (compile source { overlay := some (.obj entries), validators }) ↔
        Outcome.Succeeds (compile source { overlay := some (.obj entries'), validators })) ∧
      ((∀ registry, registryOf source = .ok registry →
          (merge registry (.obj entries)).2 = none) →
        compile source { overlay := some (.obj entries), validators } =
          compile source { overlay := some (.obj entries'), validators }) := by
  have hcases := merge_cases hperm hdistinct
  constructor
  · intro registry
    rcases hcases registry with ⟨merged, merged', hmerged, hmerged', hsame⟩ | ⟨hrefused, hrefused'⟩
    · rw [hmerged, hmerged']
      exact ⟨Iff.rfl, fun _ => hsame⟩
    · exact ⟨iff_of_false hrefused hrefused', fun hmerged => absurd hmerged hrefused⟩
  · intro source validators
    cases hregistry : registryOf source with
    | error cause =>
        rw [compile_eq_bind, compile_eq_bind, hregistry]
        exact ⟨Iff.rfl, fun _ => rfl⟩
    | ok registry =>
        rw [compile_of_registryOf hregistry, compile_of_registryOf hregistry]
        rcases hcases registry with
          ⟨merged, merged', hmerged, hmerged', hsame⟩ | ⟨hrefused, hrefused'⟩
        · have hcompile := compile_eq_of_sameButOrder hmerged hmerged' hsame validators
          exact ⟨by rw [hcompile], fun _ => hcompile⟩
        · refine ⟨iff_of_false (not_succeeds_of_refused hrefused _)
            (not_succeeds_of_refused hrefused' _), ?_⟩
          intro hmerged
          exact absurd (hmerged registry rfl) hrefused

/-- Pets with an owner, and the owners themselves. -/
def ownedPets : Members :=
  [("swagger", .str "2.0"),
    ("definitions", .obj
      [("Pet", .obj
        [("properties", .obj
          [("owner", .obj [("type", .str "object"), ("properties", .obj
            [("name", .obj [("type", .str "string")])])])])]),
        ("Person", .obj [("properties", .obj [("email", .obj [("type", .str "string")])])])])]

/-- Directives for all types, for two of them, and for two properties one below the other. -/
def ownedOverlay : Members :=
  [("Pet.owner.name", .obj [("trim", .bool true)]),
    ("Person", .obj [("schema-options", .obj [("strict", .bool false)])]),
    ("default", .obj [("timestamps", .bool true)]),
    ("Pet.owner", .obj [("sparse", .bool true)]),
    ("Pet", .obj [("schema-options", .obj [("collection", .str "pets")])])]

/-- The order of entries decides in which order the blocks of types are listed, and nothing else. -/
theorem ownedOverlay_perm :
    (ownedOverlay.Perm ownedOverlay.reverse ∧ (Entries.keys ownedOverlay).Nodup) ∧
      ∃ registry, registryOf (.parsed (.obj ownedPets)) = .ok registry ∧
        (merge registry (.obj ownedOverlay)).2 = none ∧
        (merge registry (.obj ownedOverlay)).1.typeBlocks ≠
          (merge registry (.obj ownedOverlay.reverse)).1.typeBlocks ∧
        (merge registry (.obj ownedOverlay)).1.SameButOrder
          (merge registry (.obj ownedOverlay.reverse)).1 ∧
        compile (.parsed (.obj ownedPets))
            { overlay := some (.obj ownedOverlay), validators := [] } =
          compile (.parsed (.obj ownedPets))
            { overlay := some (.obj ownedOverlay.reverse), validators := [] } := by
  have hperm : ownedOverlay.Perm ownedOverlay.reverse := (List.reverse_perm ownedOverlay).symm
  have hdistinct : (Entries.keys ownedOverlay).Nodup := by decide
  obtain ⟨hmerge, hcompile⟩ := merge_perm hperm hdistinct
  obtain ⟨registry, hregistry, hmerged, hblocks⟩ :
      ∃ registry, registryOf (.parsed (.obj ownedPets)) = .ok registry ∧
        (merge registry (.obj ownedOverlay)).2 = none ∧
        (merge registry (.obj ownedOverlay)).1.typeBlocks ≠
          (merge registry (.obj ownedOverlay.reverse)).1.typeBlocks :=
    ⟨_, rfl, rfl, by decide⟩
  refine ⟨⟨hperm, hdistinct⟩, registry, hregistry, hmerged, hblocks,
    (hmerge registry).2 hmerged, ?_⟩
  refine (hcompile (.parsed (.obj ownedPets)) []).2 ?_
  intro other hother
  rw [hregistry] at hother
  cases hother
  exact hmerged

end Overlay

end StoreSchema
