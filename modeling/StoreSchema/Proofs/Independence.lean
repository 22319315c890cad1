/-
**Definitions that do not matter.**

A definition compiles to the same body, or is refused for the same cause, in any two catalogs that
agree on a set of names which holds the definition and is closed under references.  The least such
set is what the definition depends on: itself, and every name that is met on the way along
references, be there a definition of that name or not.  So the order of definitions means nothing,
and nor do definitions that were added, deleted or edited, as long as nothing led to them.

Main definitions:

* `Catalog.content?` — what compiling looks at under a name;
* `Catalog.bodyOf?` — what the definition of a name compiles to;
* `Catalog.Names`, `Catalog.Depends` — that a definition has a name in a reference, or comes to it
  along references.

Main results:

* `Catalog.AgreeOn.bodyOf?_eq` — on a set of names closed under references, bodies are the same;
* `Catalog.agreeOn_depends`, `Catalog.content?_perm` — what a definition depends on is closed, and
  the order of definitions changes no content;
* `Catalog.compilation_local` — **a body depends on nothing else**.
-/

import StoreSchema.Proofs.Embedding

set_option relaxedAutoImplicit false
set_option autoImplicit false

namespace StoreSchema

namespace Catalog

/-! ### Bodies under names -/

/-- What compiling looks at under a name: the members of the definition and the properties added to
it. -/
def content? (catalog : Catalog) (name : String) : Option (Members × Members) :=
  (Entries.get? catalog.types name).map TypeDefinition.content

/-- What the definition called `name` compiles to, if there is one, while the definitions on the
stack are being compiled. -/
def bodyOf? (catalog : Catalog) (stack : List String) (name : String) :
    Option (Outcome SchemaTree) :=
  (Entries.get? catalog.types name).map (catalog.compileDefinition stack name)

variable {left right : Catalog} {names : String → Prop}

/-- **On a set of names closed under references, bodies are the same.** -/
theorem AgreeOn.bodyOf?_eq (h : left.AgreeOn right names) {name : String} (hname : names name)
    (stack : List String) : left.bodyOf? stack name = right.bodyOf? stack name := by
  have hcontent := h.content name hname
  rw [bodyOf?, bodyOf?]
  cases hleft : Entries.get? left.types name with
  | none =>
      rw [hleft, Option.map_none, eq_comm, Option.map_eq_none_iff] at hcontent
      rw [hcontent]
      rfl
  | some type =>
      rw [hleft, Option.map_some, eq_comm, Option.map_eq_some_iff] at hcontent
      obtain ⟨type', hright, hcontent⟩ := hcontent
      have hstack : ∀ other, names other → (other ∈ name :: stack ↔ other ∈ name :: stack) :=
        fun _ _ => Iff.rfl
      have hbody := compileDefinition_congr h hname hleft hcontent.symm hstack
      rw [hright, Option.map_some, Option.map_some, hbody]

/-! ### Dependence -/

/-- That a reference in the definition called `name`, or in what is added to it, is made of the name
`target`, whether or not there is such a definition. -/
def Names (catalog : Catalog) (name target : String) : Prop :=
  ∃ type reference, Entries.get? catalog.types name = some type ∧ type.Mentions reference ∧
    Pointer.target? reference = some target

/-- That a definition is the other one, or comes to its name along references. -/
def Depends (catalog : Catalog) : String → String → Prop := Relation.ReflTransGen catalog.Names

/-- What a definition depends on is closed under references. -/
theorem agreeOn_depends (hdialect : left.dialect = right.dialect) {name : String}
    (hcontent : ∀ other, left.Depends name other → left.content? other = right.content? other) :
    left.AgreeOn right (left.Depends name) where
  dialect := hdialect
  content := hcontent
  closed := by
    intro source type reference hsource htype hmentions target htarget
    have hnames : left.Names source target := ⟨type, reference, htype, hmentions, htarget⟩
    exact .inl (hsource.tail hnames)

/-- The order of definitions changes no content. -/
theorem content?_perm (hperm : left.types.Perm right.types)
    (hdistinct : (Entries.keys left.types).Nodup) (name : String) :
    left.content? name = right.content? name := by
  rw [content?, content?, Entries.get?_perm hperm hdistinct]

/-- **A body depends on nothing but the definition and what its references lead to.**  Two catalogs
in the same dialect give a definition the same body, or refuse it for the same cause, when they
agree on a set of names that holds it and is closed under references; so they do when everything
that was added, deleted or edited is something the definition does not depend on, and when they list
the same definitions in another order. -/
theorem compilation_local (hdialect : left.dialect = right.dialect) :
    (∀ names : String → Prop, left.AgreeOn right names → ∀ stack name, names name →
        left.bodyOf? stack name = right.bodyOf? stack name) ∧
      (∀ name, (∀ other, left.content? other ≠ right.content? other → ¬left.Depends name other) →
        ∀ stack, left.bodyOf? stack name = right.bodyOf? stack name) ∧
      (left.types.Perm right.types → (Entries.keys left.types).Nodup →
        ∀ stack name, left.bodyOf? stack name = right.bodyOf? stack name) := by
  have hsame (name : String) (hcontent : ∀ other, left.Depends name other →
      left.content? other = right.content? other) (stack : List String) :
      left.bodyOf? stack name = right.bodyOf? stack name :=
    (agreeOn_depends hdialect hcontent).bodyOf?_eq .refl stack
  refine ⟨?_, ?_, ?_⟩
  · intro names hagree stack name hname
    exact hagree.bodyOf?_eq hname stack
  · intro name hchanged
    refine hsame name fun other hdepends => ?_
    by_cases hcontent : left.content? other = right.content? other
    · exact hcontent
    · exact absurd hdepends (hchanged other hcontent)
  · intro hperm hdistinct stack name
    exact hsame name (fun other _ => content?_perm hperm hdistinct other) stack

/-- The pets of `petCatalog` among other definitions, in another order. -/
def shopCatalog : Catalog where
  dialect := .extended
  types :=
    [("Order", ⟨[("properties", .obj [("pet", .obj [("$ref", .str "#/definitions/Pet")])])], {}⟩),
      ("Tag", ⟨[("type", .str "string")], {}⟩),
      ("Pet", ⟨[("properties", .obj [("tag", .obj [("$ref", .str "#/definitions/Tag")])])], {}⟩)]

/-- A pet names nothing but a tag, and a tag nothing at all. -/
theorem eq_tag_of_petCatalog_names {name target : String} (h : petCatalog.Names name target) :
    target = "Tag" := by
  obtain ⟨type, reference, htype, hmentions, htarget⟩ := h
  have hmem := Entries.mem_of_get? htype
  rcases List.mem_cons.1 hmem with hpet | hmem
  · cases hpet
    have hreference : reference = "#/definitions/Tag" := by
      simpa [TypeDefinition.Mentions, Json.Mentions, Json.deepMembers, Json.deepEntries]
        using hmentions
    subst hreference
    cases htarget
    rfl
  · cases List.mem_singleton.1 hmem
    simp [TypeDefinition.Mentions, Json.Mentions, Json.deepMembers, Json.deepEntries] at hmentions

/-- A pet has the same body in a shop that also takes orders. -/
theorem compilation_local_of_pet_in_shop :
    petCatalog.dialect = shopCatalog.dialect ∧
      (∀ other, petCatalog.content? other ≠ shopCatalog.content? other →
        ¬petCatalog.Depends "Pet" other) ∧
      petCatalog.content? "Order" ≠ shopCatalog.content? "Order" ∧
      ∀ stack, petCatalog.bodyOf? stack "Pet" = shopCatalog.bodyOf? stack "Pet" := by
  have hdialect : petCatalog.dialect = shopCatalog.dialect := rfl
  have hchanged : ∀ other, petCatalog.content? other ≠ shopCatalog.content? other →
      ¬petCatalog.Depends "Pet" other := by
    intro other hcontent hdepends
    -- a pet depends on itself and on tags, which are the same in both
    rcases Relation.ReflTransGen.cases_tail hdepends with hpet | ⟨_, _, hnames⟩
    · subst hpet
      exact hcontent rfl
    · have htag := eq_tag_of_petCatalog_names hnames
      subst htag
      exact hcontent rfl
  refine ⟨hdialect, hchanged, ?_, (compilation_local hdialect).2.1 "Pet" hchanged⟩
  exact nofun

end Catalog

end StoreSchema
