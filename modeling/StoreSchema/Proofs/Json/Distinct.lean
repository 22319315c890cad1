/-
**Values that repeat no name.**

The members of an object are a list, so nothing in their form keeps a name from standing there
twice.  A document that is read from text never holds such an object: whenever a name comes again
the reader writes the new value in the place of the old one.  The invariant is about everything that
the reader holds while containers are still open.

Main definitions:

* `Json.Distinct` — that no object in a value repeats a name;
* `Json.Stage.Distinct` — that no object that has been read, or is being read, repeats a name.

Main results:

* `Json.Stage.Distinct.step`, `Json.Stage.Distinct.run` — tokens keep names distinct;
* `Json.distinct_of_parse?` — **the value of a text repeats no name**;
* `Source.distinct_of_normalize_text`, `Source.distinct_of_normalize_bytes` — nor does a document
  that is given as text or bytes.
-/

import StoreSchema.Source

set_option relaxedAutoImplicit false
set_option autoImplicit false

namespace StoreSchema

namespace Json

mutual

/-- That no object in the value repeats a name. -/
def Distinct : Json → Prop
  | .null => True
  | .bool _ => True
  | .num _ => True
  | .str _ => True
  | .arr items => DistinctItems items
  | .obj members => (Entries.keys members).Nodup ∧ DistinctMembers members

/-- That no object in the items of an array repeats a name. -/
def DistinctItems : List Json → Prop
  | [] => True
  | item :: rest => Distinct item ∧ DistinctItems rest

/-- That no object in the values of members repeats a name. -/
def DistinctMembers : List (String × Json) → Prop
  | [] => True
  | (_, value) :: rest => Distinct value ∧ DistinctMembers rest

end

theorem distinct_arr_iff {items : List Json} :
    (Json.arr items).Distinct ↔ ∀ item ∈ items, item.Distinct := by
  rw [Distinct]
  induction items with
  | nil => simp [DistinctItems]
  | cons item rest ih => rw [DistinctItems, List.forall_mem_cons, ih]

theorem distinct_obj_iff {members : Members} :
    (Json.obj members).Distinct ↔
      (Entries.keys members).Nodup ∧ ∀ entry ∈ members, entry.2.Distinct := by
  have hvalues : DistinctMembers members ↔ ∀ entry ∈ members, entry.2.Distinct := by
    induction members with
    | nil => simp [DistinctMembers]
    | cons entry rest ih =>
        obtain ⟨name, value⟩ := entry
        rw [DistinctMembers, List.forall_mem_cons, ih]
  rw [Distinct, hvalues]

/-- Writing a member repeats no name. -/
theorem Distinct.insert {members : Members} {value : Json} (h : (Json.obj members).Distinct)
    (hvalue : value.Distinct) (name : String) :
    (Json.obj (Entries.insert members name value)).Distinct := by
  rw [distinct_obj_iff] at h ⊢
  refine ⟨Entries.nodup_keys_insert h.1 name value, fun entry hentry => ?_⟩
  rcases Entries.mem_insert hentry with hold | rfl
  · exact h.2 entry hold
  · exact hvalue

/-! ### Reading -/

/-- That what a container holds so far repeats no name. -/
def Frame.Distinct : Frame → Prop
  | .array items => ∀ item ∈ items, item.Distinct
  | .object members _ => (Json.obj members).Distinct

/-- **That no object that has been read, or is being read, repeats a name.** -/
def Stage.Distinct : Stage → Prop
  | .wantsValue frames => ∀ frame ∈ frames, frame.Distinct
  | .wantsItem frames => ∀ frame ∈ frames, frame.Distinct
  | .wantsFirstName frames => ∀ frame ∈ frames, frame.Distinct
  | .wantsName members frames => (Json.obj members).Distinct ∧ ∀ frame ∈ frames, frame.Distinct
  | .wantsColon members _ frames => (Json.obj members).Distinct ∧ ∀ frame ∈ frames, frame.Distinct
  | .complete value frames => value.Distinct ∧ ∀ frame ∈ frames, frame.Distinct

theorem distinct_empty_object : (Json.obj []).Distinct := by simp [distinct_obj_iff]

namespace Stage.Distinct

variable {limit : Nat} {stage next : Stage} {token : Token}

/-- The token that starts a value repeats no name. -/
theorem start {frames : List Frame} (h : ∀ frame ∈ frames, frame.Distinct)
    (hnext : Stage.start limit frames token = some next) : next.Distinct := by
  cases token with
  | openArray =>
      rw [Stage.start] at hnext
      split at hnext
      · cases hnext
        exact h
      · cases hnext
  | openObject =>
      rw [Stage.start] at hnext
      split at hnext
      · cases hnext
        exact h
      · cases hnext
  | _ =>
      cases hnext
      all_goals exact ⟨by simp [Json.Distinct], h⟩

/-- **One token keeps names distinct.** -/
theorem step (h : stage.Distinct) (hnext : stage.step limit token = some next) : next.Distinct := by
  rw [Stage.step.eq_def] at hnext
  split at hnext
  next => exact start h hnext
  next =>
    cases hnext
    exact ⟨by simp [distinct_arr_iff], h⟩
  next =>
    refine start (List.forall_mem_cons.2 ⟨?_, h⟩) hnext
    simp [Frame.Distinct]
  next =>
    cases hnext
    exact ⟨distinct_empty_object, h⟩
  next =>
    cases hnext
    exact ⟨distinct_empty_object, h⟩
  next =>
    cases hnext
    exact h
  next =>
    cases hnext
    exact List.forall_mem_cons.2 h
  next =>
    cases hnext
    obtain ⟨hvalue, hframes⟩ := h
    obtain ⟨hitems, hframes⟩ := List.forall_mem_cons.1 hframes
    exact List.forall_mem_cons.2 ⟨List.forall_mem_cons.2 ⟨hvalue, hitems⟩, hframes⟩
  next =>
    cases hnext
    obtain ⟨hvalue, hframes⟩ := h
    obtain ⟨hitems, hframes⟩ := List.forall_mem_cons.1 hframes
    refine ⟨distinct_arr_iff.2 fun item hitem => ?_, hframes⟩
    exact List.forall_mem_cons.2 ⟨hvalue, hitems⟩ item (List.mem_reverse.1 hitem)
  next =>
    -- the value of the last name is written among the members
    cases hnext
    obtain ⟨hvalue, hframes⟩ := h
    obtain ⟨hmembers, hframes⟩ := List.forall_mem_cons.1 hframes
    exact ⟨Json.Distinct.insert hmembers hvalue _, hframes⟩
  next =>
    cases hnext
    obtain ⟨hvalue, hframes⟩ := h
    obtain ⟨hmembers, hframes⟩ := List.forall_mem_cons.1 hframes
    exact ⟨Json.Distinct.insert hmembers hvalue _, hframes⟩
  next => cases hnext

/-- Any number of tokens keeps names distinct. -/
theorem run {tokens : List Token} (h : stage.Distinct)
    (hnext : stage.run limit tokens = some next) : next.Distinct := by
  induction tokens generalizing stage with
  | nil =>
      cases hnext
      exact h
  | cons token rest ih =>
      obtain ⟨between, hstep, hrest⟩ := Option.bind_eq_some_iff.1 hnext
      exact ih (h.step hstep) hrest

end Stage.Distinct

/-- **The value of a text repeats no name.** -/
theorem distinct_of_parse? {limit : Nat} {text : List Char} {value : Json}
    (h : parse? limit text = some value) : value.Distinct := by
  obtain ⟨tokens, _, h⟩ := Option.bind_eq_some_iff.1 h
  obtain ⟨stage, hrun, h⟩ := Option.bind_eq_some_iff.1 h
  have hstart : (Stage.wantsValue []).Distinct := by simp [Stage.Distinct]
  have hstage : stage.Distinct := hstart.run hrun
  cases stage with
  | complete read frames =>
      cases frames with
      | nil =>
          cases h
          exact hstage.1
      | cons => cases h
  | _ => cases h

end Json

/-! ### Documents -/

namespace Source

/-- The document of a source is the object that the source holds. -/
theorem read_of_normalize {source : Source} {document : Members}
    (h : source.normalize = .ok document) : source.read = .ok (.obj document) := by
  obtain ⟨value, hread, h⟩ := Outcome.bind_eq_ok_iff.1 h
  cases value with
  | obj members =>
      cases h
      exact hread
  | _ => cases h

/-- A document that is given as text repeats no name. -/
theorem distinct_of_normalize_text {text : String} {document : Members}
    (h : (Source.text text).normalize = .ok document) : (Json.obj document).Distinct := by
  have hread : readText text = .ok (.obj document) := read_of_normalize h
  rw [readText] at hread
  split at hread
  next => cases hread
  next =>
    split at hread
    next value hparse =>
      cases hread
      exact Json.distinct_of_parse? hparse
    next => cases hread

/-- A document that is given as bytes repeats no name. -/
theorem distinct_of_normalize_bytes {bytes : ByteArray} {document : Members}
    (h : (Source.bytes bytes).normalize = .ok document) : (Json.obj document).Distinct := by
  have hread : readBytes bytes = .ok (.obj document) := read_of_normalize h
  rw [readBytes] at hread
  split at hread
  next => cases hread
  next =>
    split at hread
    next value hparse =>
      cases hread
      obtain ⟨text, _, hparse⟩ := Option.bind_eq_some_iff.1 hparse
      exact Json.distinct_of_parse? hparse
    next => cases hread

end Source

end StoreSchema
