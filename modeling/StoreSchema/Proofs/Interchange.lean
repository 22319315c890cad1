/-
**Definitions that stand for one another.**

Compilation meets a definition in three places: it compiles its body, it asks whether the definition
is a scalar under another name, and if so it resolves it as a property without its block.  Two
definitions with which the same comes out in all three, whatever the scope, stand for one another:
in catalogs that differ in nothing else every reference yields the same, and so does compilation.

What stands in a registry is laid over by an overlay before it comes to that, and an overlay changes
definitions only by merging directives into the blocks of their properties.  A relation between
definitions that such a change respects is therefore kept by every overlay, and an overlay is
refused on both sides for the same cause or on none.

Main definitions:

* `Outcome.Matched` — that two outcomes are related values, or the same cause;
* `Interchangeable` — **that two definitions stand for one another**;
* `Catalog.Matched`, `Registry.Matched` — that the definitions of two catalogs, or of two
  registries, are related one by one, under the same directives;
* `Overlay.Respects` — that merging into the blocks of properties respects a relation;
* `MatchedDocuments` — that the definitions of two documents are related one by one, under the same
  blocks.

Main results:

* `Catalog.Matched.follow_eq`, `Catalog.Matched.compile_eq` — **catalogs of interchangeable
  definitions follow references alike and compile alike**;
* `Overlay.matched_applyEntry`, `Overlay.matched_apply` — an entry, and with it an overlay, keeps
  registries matched;
* `Registry.Matched.compile_eq`, `MatchedDocuments.compile_eq` — **registries, and documents, of
  interchangeable definitions compile alike**.
-/

import StoreSchema.Compile
import StoreSchema.Proofs.Paired

set_option relaxedAutoImplicit false
set_option autoImplicit false

namespace StoreSchema

/-! ### Outcomes side by side -/

/-- That two outcomes are values that are related, or one and the same cause. -/
inductive Outcome.Matched {α β : Type} (related : α → β → Prop) : Outcome α → Outcome β → Prop where
  | error (cause : CompileError) : Matched related (.error cause) (.error cause)
  | ok {value : α} {value' : β} (h : related value value') :
      Matched related (.ok value) (.ok value')

namespace Outcome.Matched

variable {α β γ δ : Type} {related : α → β → Prop} {related' : γ → δ → Prop}
  {first : Outcome α} {first' : Outcome β}

theorem bind {next : α → Outcome γ} {next' : β → Outcome δ} (h : Matched related first first')
    (hnext : ∀ value value', related value value' → Matched related' (next value) (next' value')) :
    Matched related' (first >>= next) (first' >>= next') := by
  cases h with
  | error cause => exact .error cause
  | ok hvalue => exact hnext _ _ hvalue

theorem map {change : α → γ} {change' : β → δ} (h : Matched related first first')
    (hchange : ∀ value value', related value value' → related' (change value) (change' value')) :
    Matched related' (first.map change) (first'.map change') := by
  cases h with
  | error cause => exact .error cause
  | ok hvalue => exact .ok (hchange _ _ hvalue)

/-- What follows on matched outcomes is the same when it is on related values. -/
theorem bind_eq {next : α → Outcome γ} {next' : β → Outcome γ} (h : Matched related first first')
    (hnext : ∀ value value', related value value' → next value = next' value') :
    first >>= next = first' >>= next' := by
  cases h with
  | error cause => rfl
  | ok hvalue => exact hnext _ _ hvalue

end Outcome.Matched

/-! ### Catalogs -/

/-- **That two definitions stand for one another**: in every scope the same comes out with them. -/
structure Interchangeable (dialect : Dialect) (left right : Members) : Prop where
  /-- Either both are a scalar under another name, or neither is. -/
  isAlias : isAlias left = isAlias right
  /-- Without their blocks they are resolved alike. -/
  whole : ∀ scope : Scope, scope.dialect = dialect → ∀ place,
    resolveField scope (.obj (Entries.erase left dialect.directiveKey)) place =
      resolveField scope (.obj (Entries.erase right dialect.directiveKey)) place
  /-- They have the same body, under the same directives. -/
  tree : ∀ scope : Scope, scope.dialect = dialect → ∀ name directives,
    scope.tree name ⟨left, directives⟩ = scope.tree name ⟨right, directives⟩

namespace Interchangeable

variable {dialect : Dialect} {left middle right : Members}

theorem symm (h : Interchangeable dialect left right) : Interchangeable dialect right left where
  isAlias := h.isAlias.symm
  whole scope hscope place := (h.whole scope hscope place).symm
  tree scope hscope name directives := (h.tree scope hscope name directives).symm

theorem trans (h : Interchangeable dialect left middle)
    (h' : Interchangeable dialect middle right) : Interchangeable dialect left right where
  isAlias := h.isAlias.trans h'.isAlias
  whole scope hscope place := (h.whole scope hscope place).trans (h'.whole scope hscope place)
  tree scope hscope name directives :=
    (h.tree scope hscope name directives).trans (h'.tree scope hscope name directives)

end Interchangeable

/-- That the definitions of two catalogs in a dialect are related one by one, under the same
directives. -/
structure Catalog.Matched (dialect : Dialect) (related : Members → Members → Prop)
    (left right : Catalog) : Prop where
  /-- The first catalog is in the dialect. -/
  dialect_left : left.dialect = dialect
  /-- So is the second. -/
  dialect_right : right.dialect = dialect
  /-- The definitions are related, and their directives are the same. -/
  types : Entries.Paired (fun _ type type' => related type.body type'.body ∧
    type.directives = type'.directives) left.types right.types

namespace Catalog.Matched

variable {dialect : Dialect} {related : Members → Members → Prop} {left right : Catalog}

/-- A reference leads nowhere in both, or in both to definitions that are related. -/
theorem find? (h : left.Matched dialect related right) (reference : String) :
    (left.find? reference = none ∧ right.find? reference = none) ∨
      ∃ name body body' directives, left.find? reference = some (name, ⟨body, directives⟩) ∧
        right.find? reference = some (name, ⟨body', directives⟩) ∧ related body body' := by
  cases htarget : Pointer.target? reference with
  | none => exact .inl ⟨by simp [Catalog.find?, htarget], by simp [Catalog.find?, htarget]⟩
  | some name =>
      rcases h.types.get? name with ⟨hleft, hright⟩ | ⟨type, type', hleft, hright, hbody, heq⟩
      · exact .inl ⟨by simp [Catalog.find?, htarget, hleft],
          by simp [Catalog.find?, htarget, hright]⟩
      · refine .inr ⟨name, type.body, type'.body, type.directives, ?_, ?_, hbody⟩
        · simp [Catalog.find?, htarget, hleft]
        · simp [Catalog.find?, htarget, hright, heq]

theorem target?_eq (h : left.Matched dialect related right) : left.target? = right.target? := by
  funext reference
  rw [target?, target?]
  rcases h.find? reference with ⟨hleft, hright⟩ | ⟨_, _, _, _, hleft, hright, _⟩
  · rw [hleft, hright]
  · rw [hleft, hright]
    rfl

/-- Scopes are the same as far as references are followed alike. -/
theorem scope_eq_of_follow (h : left.Matched dialect related right) {stack : List String}
    (hfollow : ∀ reference place, left.follow stack reference place =
      right.follow stack reference place) : left.scope stack = right.scope stack := by
  have hfollow : left.follow stack = right.follow stack := funext fun _ => funext (hfollow _)
  rw [scope, scope, h.dialect_left, h.dialect_right, h.target?_eq, hfollow]

section Interchangeable

variable (hrelated : ∀ body body', related body body' → Interchangeable dialect body body')
include hrelated

/-- **References are followed alike.** -/
theorem follow_eq (h : left.Matched dialect related right) (stack : List String)
    (reference : String) (place : Pointer) :
    left.follow stack reference place = right.follow stack reference place := by
  induction stack, reference, place using follow_induction left with
  | unresolved stack reference place hfind =>
      rcases h.find? reference with ⟨_, hright⟩ | ⟨_, _, _, _, hleft, _⟩
      · rw [follow_of_find?_eq_none hright]
      · simp [hfind] at hleft
  | cyclic stack reference place name type hfind hstack =>
      rcases h.find? reference with ⟨hleft, _⟩ | ⟨_, _, _, _, hleft, hright, _⟩
      · simp [hfind] at hleft
      · rw [hfind] at hleft
        cases hleft
        rw [follow_of_mem hright hstack]
  | entered stack reference place name type hfind hstack ih =>
      rcases h.find? reference with ⟨hleft, _⟩ | ⟨_, body, body', directives, hleft, hright, hbody⟩
      · simp [hfind] at hleft
      · rw [hfind] at hleft
        cases hleft
        have hscope := h.scope_eq_of_follow ih
        have hsame := hrelated body body' hbody
        have hinner : (left.scope (name :: stack)).dialect = dialect := h.dialect_left
        -- the definition is entered in the same scope on both sides
        rw [follow_of_not_mem hright hstack, enter, enter, ← hscope, hsame.isAlias,
          hsame.tree _ hinner, h.dialect_left, h.dialect_right]
        dsimp only
        rw [hsame.whole _ hinner]

/-- Properties are resolved in the same scope. -/
theorem scope_eq (h : left.Matched dialect related right) (stack : List String) :
    left.scope stack = right.scope stack :=
  h.scope_eq_of_follow fun reference place => h.follow_eq hrelated stack reference place

/-- Definitions that are related have the same body. -/
theorem compileDefinition_eq (h : left.Matched dialect related right) (stack : List String)
    (name : String) {body body' : Members} (hbody : related body body')
    (directives : TypeDirectives) :
    left.compileDefinition stack name ⟨body, directives⟩ =
      right.compileDefinition stack name ⟨body', directives⟩ := by
  rw [compileDefinition, compileDefinition, ← h.scope_eq hrelated]
  exact (hrelated body body' hbody).tree _ h.dialect_left name directives

/-- **Catalogs of interchangeable definitions compile alike.** -/
theorem compile_eq (h : left.Matched dialect related right) (validators : Validators) :
    left.compile validators = right.compile validators := by
  rw [compile, compile]
  have htypes := h.types
  generalize left.types = types, right.types = types' at htypes
  induction htypes with
  | nil => rfl
  | @cons name type type' rest rest' hvalue hrest ih =>
      obtain ⟨body, directives⟩ := type
      obtain ⟨body', directives'⟩ := type'
      obtain ⟨hbody, rfl⟩ := hvalue
      rw [compileTypes, compileTypes, ih, h.compileDefinition_eq hrelated [] name hbody]

end Interchangeable

end Catalog.Matched

/-! ### Registries -/

/-- **That the definitions of two registries in a dialect are related one by one**, under the same
directives. -/
structure Registry.Matched (dialect : Dialect) (related : Members → Members → Prop)
    (left right : Registry) : Prop where
  /-- The first registry is in the dialect. -/
  dialect_left : left.dialect = dialect
  /-- So is the second. -/
  dialect_right : right.dialect = dialect
  /-- The definitions are related. -/
  definitions : Entries.Paired (fun _ => related) left.definitions right.definitions
  /-- The directives that apply to every type are the same. -/
  defaults : left.defaults = right.defaults
  /-- The directives of each definition are the same. -/
  typeBlocks : ∀ name ∈ Entries.keys left.definitions,
    Entries.get? left.typeBlocks name = Entries.get? right.typeBlocks name

namespace Registry.Matched

variable {dialect : Dialect} {related : Members → Members → Prop} {left right : Registry}

theorem directives_eq (h : left.Matched dialect related right) {name : String}
    (hname : name ∈ Entries.keys left.definitions) :
    left.directives name = right.directives name := by
  rw [directives, directives, h.dialect_left, h.dialect_right, h.defaults, h.typeBlocks name hname]

/-- The directives of the definitions are read, or refused, alike. -/
theorem typeDefinitions (h : left.Matched dialect related right) {listed listed' : Entries Members}
    (hlisted : Entries.Paired (fun _ => related) listed listed')
    (hnames : ∀ name ∈ Entries.keys listed, name ∈ Entries.keys left.definitions) :
    Outcome.Matched (Entries.Paired fun _ type type' => related type.body type'.body ∧
        type.directives = type'.directives)
      (left.typeDefinitions listed) (right.typeDefinitions listed') := by
  induction hlisted with
  | nil => exact .ok .nil
  | @cons name body body' rest rest' hbody hrest ih =>
      rw [Entries.keys_cons, List.forall_mem_cons] at hnames
      rw [Registry.typeDefinitions, Registry.typeDefinitions, ← h.directives_eq hnames.1]
      cases left.directives name with
      | error cause => exact .error cause
      | ok directives =>
          refine (ih hnames.2).bind fun types types' htypes => ?_
          exact .ok (.cons ⟨hbody, rfl⟩ htypes)

/-- The catalogs of the registries are matched, unless one cause is against both. -/
theorem catalog (h : left.Matched dialect related right) :
    Outcome.Matched (Catalog.Matched dialect related) left.catalog right.catalog := by
  refine (h.typeDefinitions h.definitions fun _ hname => hname).map fun types types' htypes => ?_
  exact ⟨h.dialect_left, h.dialect_right, htypes⟩

/-- **Registries of interchangeable definitions compile alike.** -/
theorem compile_eq (h : left.Matched dialect related right)
    (hrelated : ∀ body body', related body body' → Interchangeable dialect body body')
    (validators : Validators) :
    (left.catalog >>= fun catalog => catalog.compile validators) =
      right.catalog >>= fun catalog => catalog.compile validators :=
  h.catalog.bind_eq fun _ _ hcatalogs => hcatalogs.compile_eq hrelated validators

end Registry.Matched

/-! ### Overlays -/

namespace Overlay

/-- **That merging into the blocks of properties respects a relation** between objects: wherever a
path leads in one of them it leads in the other, and the relation holds again afterwards. -/
def Respects (key : String) (related : Members → Members → Prop) : Prop :=
  ∀ directive fields left right, related left right →
    Option.Rel related (updateProperty (mergeBlock key directive) fields left)
      (updateProperty (mergeBlock key directive) fields right)

theorem rel_map {α β γ δ : Type} {related : α → β → Prop} {related' : γ → δ → Prop}
    {first : Option α} {first' : Option β} (h : Option.Rel related first first') {change : α → γ}
    {change' : β → δ}
    (hchange : ∀ value value', related value value' → related' (change value) (change' value')) :
    Option.Rel related' (first.map change) (first'.map change') := by
  cases h with
  | none => exact .none
  | some hvalue => exact .some (hchange _ _ hvalue)

variable {dialect : Dialect} {related : Members → Members → Prop} {left right : Registry}

/-- A type is there in both registries or in neither. -/
theorem contains_eq_of_matched (h : left.Matched dialect related right) (name : String) :
    Entries.contains left.definitions name = Entries.contains right.definitions name := by
  rw [Bool.eq_iff_iff, Entries.contains_iff, Entries.contains_iff, h.definitions.keys_eq]

theorem matched_mergeType (h : left.Matched dialect related right) {name : String}
    (hname : name ∈ Entries.keys left.definitions) (directive : Members) :
    (mergeType left name directive).Matched dialect related (mergeType right name directive) where
  dialect_left := h.dialect_left
  dialect_right := h.dialect_right
  definitions := h.definitions
  defaults := h.defaults
  typeBlocks other hother := by
    rw [mergeType, mergeType, Entries.get?_insert, Entries.get?_insert, h.typeBlocks name hname,
      h.typeBlocks other hother]

theorem matched_mergeField (hrespects : Respects dialect.directiveKey related)
    (h : left.Matched dialect related right) (name : String) (fields : List String)
    (directive : Members) :
    Option.Rel (Registry.Matched dialect related) (mergeField? left name fields directive)
      (mergeField? right name fields directive) := by
  rw [mergeField?, mergeField?, h.dialect_left, h.dialect_right]
  rcases h.definitions.get? name with ⟨hleft, hright⟩ | ⟨body, body', hleft, hright, hbody⟩
  · rw [hleft, hright]
    exact .none
  · rw [hleft, hright, Option.bind_some, Option.bind_some]
    refine rel_map (hrespects directive fields body body' hbody) fun changed changed' hchanged => ?_
    refine ⟨rfl, rfl, h.definitions.insert_of_related hchanged, h.defaults, fun other hother => ?_⟩
    rw [Entries.keys_insert, if_pos (Entries.mem_keys_of_get? hleft)] at hother
    exact h.typeBlocks other hother

/-- **An entry takes effect on matched registries alike**, or is refused for the same cause. -/
theorem matched_applyEntry (hrespects : Respects dialect.directiveKey related)
    (h : left.Matched dialect related right) (path : String) (value : Json) :
    Outcome.Matched (Registry.Matched dialect related) (applyEntry left path value)
      (applyEntry right path value) := by
  have hmergeAt (directive : Members) : Option.Rel (Registry.Matched dialect related)
      (mergeAt? left path directive) (mergeAt? right path directive) := by
    rw [mergeAt?, mergeAt?]
    cases Text.dotted path with
    | nil => exact .none
    | cons name fields =>
        dsimp only
        rw [← contains_eq_of_matched h]
        cases hname : Entries.contains left.definitions name with
        | false => exact .none
        | true =>
            cases fields with
            | nil => exact .some (matched_mergeType h (Entries.contains_iff.1 hname) directive)
            | cons first rest => exact matched_mergeField hrespects h name (first :: rest) directive
  cases value with
  | obj directive =>
      rw [applyEntry, applyEntry]
      split
      · refine .ok ⟨h.dialect_left, h.dialect_right, h.definitions, ?_, h.typeBlocks⟩
        rw [h.defaults]
      · have hmerged := hmergeAt directive
        generalize mergeAt? left path directive = merged, mergeAt? right path directive = merged'
          at hmerged
        cases hmerged with
        | none => exact .error _
        | some hmerged => exact .ok hmerged
  | _ => exact .error _

/-- So do the entries of an overlay, one after another. -/
theorem matched_mergeEntries (hrespects : Respects dialect.directiveKey related)
    (h : left.Matched dialect related right) (entries : Members) :
    (mergeEntries left entries).2 = (mergeEntries right entries).2 ∧
      (mergeEntries left entries).1.Matched dialect related (mergeEntries right entries).1 := by
  induction entries generalizing left right with
  | nil => exact ⟨rfl, h⟩
  | cons entry rest ih =>
      obtain ⟨path, value⟩ := entry
      rw [mergeEntries, mergeEntries]
      have hnext := matched_applyEntry hrespects h path value
      generalize applyEntry left path value = next, applyEntry right path value = next' at hnext
      cases hnext with
      | error cause => exact ⟨rfl, h⟩
      | ok hmerged => exact ih hmerged

/-- **An overlay takes effect on matched registries alike**, or is refused for the same cause. -/
theorem matched_apply (hrespects : Respects dialect.directiveKey related)
    (h : left.Matched dialect related right) (overlay : Option Json) :
    Outcome.Matched (Registry.Matched dialect related) (apply left overlay)
      (apply right overlay) := by
  cases overlay with
  | none => exact .ok h
  | some value =>
      obtain ⟨hcause, hmerged⟩ : (merge left value).2 = (merge right value).2 ∧
          (merge left value).1.Matched dialect related (merge right value).1 := by
        cases value with
        | obj entries => exact matched_mergeEntries hrespects h entries
        | _ => exact ⟨rfl, h⟩
      rw [apply, apply]
      generalize merge left value = first, merge right value = second at hcause hmerged
      obtain ⟨merged, cause⟩ := first
      obtain ⟨merged', cause'⟩ := second
      obtain rfl : cause = cause' := hcause
      cases cause with
      | none => exact .ok hmerged
      | some cause => exact .error cause

end Overlay

/-! ### Documents -/

/-- That two values are listed as definitions that are related and carry the same block, or are one
and the same value that is no definition. -/
inductive MatchedDefinition (dialect : Dialect) (related : Members → Members → Prop) :
    Json → Json → Prop where
  | definition {body body' : Members} (hbody : related body body')
      (hblock : ∀ place, Registry.typeBlock? dialect body place =
        Registry.typeBlock? dialect body' place) :
      MatchedDefinition dialect related (.obj body) (.obj body')
  | other (value : Json) (h : value.isObject = false) :
      MatchedDefinition dialect related value value

/-- **That the definitions of two documents in a dialect are related one by one**, under the same
blocks. -/
structure MatchedDocuments (dialect : Dialect) (related : Members → Members → Prop)
    (left right : Members) : Prop where
  /-- The first document is in the dialect. -/
  detect_left : Dialect.detect left = dialect
  /-- So is the second. -/
  detect_right : Dialect.detect right = dialect
  /-- The definitions are related. -/
  listed : Outcome.Matched (Entries.Paired fun _ => MatchedDefinition dialect related)
    (Registry.definitionList left) (Registry.definitionList right)
  /-- The block of the document is the same. -/
  block : Registry.typeBlock? dialect left "" = Registry.typeBlock? dialect right ""

section Documents

variable {dialect : Dialect} {related : Members → Members → Prop} {left right : Members}

/-- The definitions and their blocks are read, or refused, alike. -/
theorem Registry.matched_readDefinitions {listed listed' : Members}
    (h : Entries.Paired (fun _ => MatchedDefinition dialect related) listed listed') :
    Outcome.Matched (Entries.Paired fun _ found found' => related found.1 found'.1 ∧
        found.2 = found'.2)
      (readDefinitions dialect listed) (readDefinitions dialect listed') := by
  induction h with
  | nil => exact .ok .nil
  | @cons name value value' rest rest' hvalue hrest ih =>
      cases hvalue with
      | @definition body body' hbody hblock =>
          rw [readDefinitions, readDefinitions, ← hblock]
          cases typeBlock? dialect body (Pointer.definition name) with
          | error cause => exact .error cause
          | ok block => exact ih.bind fun read read' hread => .ok (.cons ⟨hbody, rfl⟩ hread)
      | other value h =>
          cases value with
          | obj members => cases h
          | _ => exact .error _

/-- The registries of the documents are matched, unless one cause is against both. -/
theorem MatchedDocuments.build (h : MatchedDocuments dialect related left right) :
    Outcome.Matched (Registry.Matched dialect related) (Registry.build left dialect)
      (Registry.build right dialect) := by
  rw [Registry.build, Registry.build, ← h.block]
  refine h.listed.bind fun listed listed' hlisted => ?_
  refine (Registry.matched_readDefinitions hlisted).bind fun read read' hread => ?_
  have hblocks : (read.filterMap fun found => found.2.2.map fun block => (found.1, block)) =
      read'.filterMap fun found => found.2.2.map fun block => (found.1, block) := by
    induction hread with
    | nil => rfl
    | cons hfound hrest ih => simp only [List.filterMap_cons, hfound.2, ih]
  cases Registry.typeBlock? dialect left "" with
  | error cause => exact .error cause
  | ok block =>
      refine .ok ⟨rfl, rfl, ?_, rfl, fun name _ => congrArg (Entries.get? · name) hblocks⟩
      clear hblocks
      induction hread with
      | nil => exact .nil
      | cons hfound hrest ih => exact .cons hfound.1 ih

/-- Compiling a document is compiling its registry under the overlay. -/
theorem compile_of_normalize {source : Source} {document : Members}
    (hsource : source.normalize = .ok document) (hdetect : Dialect.detect document = dialect)
    (options : Options) :
    compile source options =
      (Registry.build document dialect >>= fun registry =>
        Overlay.apply registry options.overlay) >>= fun overlaid =>
          overlaid.catalog >>= fun catalog => catalog.compile options.validators := by
  subst hdetect
  rw [compile, hsource]
  change (catalogOf document options.overlay >>= _) = _
  simp only [catalogOf, bind_assoc]

/-- **Documents of interchangeable definitions compile alike**, whatever the overlay and the
validators. -/
theorem MatchedDocuments.compile_eq (h : MatchedDocuments dialect related left right)
    (hrelated : ∀ body body', related body body' → Interchangeable dialect body body')
    (hrespects : Overlay.Respects dialect.directiveKey related) {source source' : Source}
    (hsource : source.normalize = .ok left) (hsource' : source'.normalize = .ok right)
    (options : Options) : compile source options = compile source' options := by
  rw [compile_of_normalize hsource h.detect_left, compile_of_normalize hsource' h.detect_right]
  have hoverlaid := h.build.bind fun _ _ hbuilt =>
    Overlay.matched_apply hrespects hbuilt options.overlay
  exact hoverlaid.bind_eq fun _ _ hregistries => hregistries.compile_eq hrelated options.validators

end Documents

end StoreSchema
