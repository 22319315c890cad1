/-
**Descriptors without validators.**

Validators are bound by blocks only.  All other ways of building descriptors keep them from naming
a validator, at any depth; so a definition names none where there is no block, neither on its
properties nor on what its references lead to.

Main definitions:

* `Descriptor.Unbound` — that a descriptor names no validator, at any depth.

Main results:

* `Descriptor.invariant_unbound` — **the ways in which descriptors are built, blocks apart, keep
  them unbound**;
* `SchemaTree.bindings_root` — a body names the validators that it names as one descriptor.
-/

import StoreSchema.Proofs.Everywhere

set_option relaxedAutoImplicit false
set_option autoImplicit false

namespace StoreSchema

namespace Descriptor

/-- That a descriptor names no validator, at any depth. -/
def Unbound (descriptor : Descriptor) : Prop := ∀ place, descriptor.bindings place = []

theorem fieldBindings_eq_nil {fields : List (String × Descriptor)}
    (h : ∀ entry ∈ fields, entry.2.Unbound) (place : Pointer) :
    fieldBindings place fields = [] := by
  induction fields with
  | nil => rw [fieldBindings]
  | cons first rest ih =>
      obtain ⟨name, field⟩ := first
      rw [fieldBindings, h (name, field) (List.mem_cons_self ..),
        ih fun entry hentry => h entry (List.mem_cons_of_mem _ hentry), List.append_nil]

theorem unbound_scalar (type : Primitive) (values : Option (List Json)) :
    (scalar {} type values).Unbound := by
  intro place
  simp [bindings, ownBinding, modifiers]

theorem unbound_reference (target : Option String) : (reference {} target).Unbound := by
  intro place
  simp [bindings, ownBinding, modifiers]

theorem unbound_array {item : Descriptor} (h : item.Unbound) : (array {} item).Unbound := by
  intro place
  simp [bindings, ownBinding, modifiers, h (place.child "items")]

theorem unbound_embedded {fields : FieldMap} (h : ∀ entry ∈ fields, entry.2.Unbound) :
    (embedded {} fields).Unbound := by
  intro place
  simp [bindings, ownBinding, modifiers, fieldBindings_eq_nil h]

theorem Unbound.setRequired {descriptor : Descriptor} (h : descriptor.Unbound) (required : Bool) :
    (descriptor.setRequired required).Unbound := by
  intro place
  rw [← h place]
  cases descriptor <;> rfl

/-- **The ways in which descriptors are built, blocks apart, keep them unbound.** -/
theorem invariant_unbound : Invariant Unbound where
  array _ h _ := unbound_array h
  embedded _ h _ _ := unbound_embedded h
  setRequired _ required h := h.setRequired required

end Descriptor

/-- A body names the validators that it names as one descriptor. -/
theorem SchemaTree.bindings_root (tree : SchemaTree) (place : Pointer) :
    tree.root.bindings place = tree.bindings place := by
  cases tree with
  | fields named => simp [root, bindings, Descriptor.bindings, Descriptor.ownBinding,
      Descriptor.modifiers]
  | simple descriptor => rfl

end StoreSchema
