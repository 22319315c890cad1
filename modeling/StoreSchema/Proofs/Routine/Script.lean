/-
**Scripts: what a routine does, step by step.**

Compilation is given as functions that take the definitions being compiled as an argument.  It can
also be read as a set of routines that call one another and share one stack of names, which a
routine pushes a name on before a call and pops after it.  A script is the text of such a routine:
it calls, pushes, pops and looks at the stack, and in the end yields an outcome.  Nothing in a
script makes it come to an end: a routine may call itself, and may leave names on the stack.

Main definitions:

* `Call`, `Call.Result` — the calls of the routines, and what they return;
* `Script` — **the text of a routine**;
* `Script.under` — a call with one more name on the stack, which is popped whatever the call
  returns;
* `Script.Runs` — **that a script runs to its end**, with the calls that are made on the way;
* `Script.Issues` — that a script makes a call;
* `Script.Yields` — what a script yields when every call returns its answer, and leaves the stack as
  it was.

Main results:

* `Script.Runs.unique` — a script has one run;
* `Script.runs_of_yields` — **when the calls of every script are below the call of the script, all
  scripts run to their ends**, and every call returns its answer;
* `Script.issued_of_issues` — the calls that a script makes are those that it makes when every call
  returns its answer.
-/

import StoreSchema.Compile

set_option relaxedAutoImplicit false
set_option autoImplicit false

namespace StoreSchema

/-- A call of one of the routines, with its arguments. -/
inductive Call where
  /-- Compile the definition called `name`. -/
  | definition (name : String) (type : TypeDefinition)
  /-- Compile the body of the definition called `name`. -/
  | tree (name : String) (type : TypeDefinition)
  /-- Compile the fields of an object. -/
  | object (members additional : Members) (place : Pointer)
  /-- Resolve a listed property, and say whether it is required. -/
  | property (rule : Required) (name : String) (property : Json) (place : Pointer)
  /-- Resolve a property. -/
  | field (property : Json) (place : Pointer)
  /-- Follow the reference of a property. -/
  | reference (members : Members) (reference : String) (place : Pointer)
  /-- Resolve a property by its declared type. -/
  | typed (members : Members) (place : Pointer)
  /-- Work a block into its property and resolve that. -/
  | override (block members : Members) (place : Pointer)

/-- What a call returns, unless it fails. -/
abbrev Call.Result : Call → Type
  | .definition _ _ => SchemaTree
  | .tree _ _ => SchemaTree
  | .object _ _ _ => FieldMap
  | .property _ _ _ _ => Option Descriptor
  | .field _ _ => Descriptor
  | .reference _ _ _ => Descriptor
  | .typed _ _ => Descriptor
  | .override _ _ _ => Descriptor

/-- Whether a call compiles a definition. -/
def Call.isDefinition : Call → Bool
  | .definition _ _ => true
  | _ => false

/-- **The text of a routine.** -/
inductive Script (α : Type) : Type where
  /-- Yield an outcome. -/
  | done (outcome : Outcome α)
  /-- Call, and go on with what is returned. -/
  | call (c : Call) (next : Outcome c.Result → Script α)
  /-- Push a name. -/
  | push (name : String) (next : Script α)
  /-- Pop the last name. -/
  | pop (next : Script α)
  /-- Look at the stack. -/
  | inspect (next : List String → Script α)

namespace Script

variable {α β : Type}

/-- One script after another; a cause ends both. -/
protected def bind (first : Script α) (next : α → Script β) : Script β :=
  match first with
  | .done (.ok value) => next value
  | .done (.error cause) => .done (.error cause)
  | .call c rest => .call c fun returned => (rest returned).bind next
  | .push name rest => .push name (rest.bind next)
  | .pop rest => .pop (rest.bind next)
  | .inspect rest => .inspect fun stack => (rest stack).bind next

instance : Monad Script where
  pure value := .done (.ok value)
  bind := Script.bind

/-- The script of a single call. -/
def perform (c : Call) : Script c.Result := .call c .done

/-- An outcome that takes no call. -/
def lift (outcome : Outcome α) : Script α := .done outcome

/-- A call with one more name on the stack, which is popped whatever the call returns. -/
def under (name : String) (c : Call) : Script c.Result :=
  .push name (.call c fun returned => .pop (.done returned))

/-! ### Runs -/

/-- A call and the stack that it is made with. -/
abbrev Step := Call × List String

/-- **That a script runs to its end**, when a call means the script that `routine` gives it: from
a stack, making calls, to an outcome and a stack. -/
inductive Runs (routine : (c : Call) → Script c.Result) :
    {α : Type} → Script α → List String → List Step → Outcome α → List String → Prop where
  | done {α : Type} (outcome : Outcome α) (stack : List String) :
      Runs routine (.done outcome) stack [] outcome stack
  | call {α : Type} {c : Call} {next : Outcome c.Result → Script α}
      {stack between final : List String} {inner rest : List Step}
      {returned : Outcome c.Result} {outcome : Outcome α}
      (hcall : Runs routine (routine c) stack inner returned between)
      (hnext : Runs routine (next returned) between rest outcome final) :
      Runs routine (.call c next) stack ((c, stack) :: (inner ++ rest)) outcome final
  | push {α : Type} {name : String} {next : Script α} {stack final : List String}
      {steps : List Step} {outcome : Outcome α}
      (hnext : Runs routine next (name :: stack) steps outcome final) :
      Runs routine (.push name next) stack steps outcome final
  | pop {α : Type} {next : Script α} {stack final : List String} {steps : List Step}
      {outcome : Outcome α} (hnext : Runs routine next stack.tail steps outcome final) :
      Runs routine (.pop next) stack steps outcome final
  | inspect {α : Type} {next : List String → Script α} {stack final : List String}
      {steps : List Step} {outcome : Outcome α}
      (hnext : Runs routine (next stack) stack steps outcome final) :
      Runs routine (.inspect next) stack steps outcome final

/-- That a script makes a call itself, all calls before it having returned. -/
inductive Issues (routine : (c : Call) → Script c.Result) :
    {α : Type} → Script α → List String → Step → Prop where
  | now {α : Type} {c : Call} {next : Outcome c.Result → Script α} {stack : List String} :
      Issues routine (.call c next) stack (c, stack)
  | later {α : Type} {c : Call} {next : Outcome c.Result → Script α}
      {stack between : List String} {inner : List Step} {returned : Outcome c.Result}
      {step : Step} (hcall : Runs routine (routine c) stack inner returned between)
      (hnext : Issues routine (next returned) between step) :
      Issues routine (.call c next) stack step
  | push {α : Type} {name : String} {next : Script α} {stack : List String} {step : Step}
      (hnext : Issues routine next (name :: stack) step) :
      Issues routine (.push name next) stack step
  | pop {α : Type} {next : Script α} {stack : List String} {step : Step}
      (hnext : Issues routine next stack.tail step) : Issues routine (.pop next) stack step
  | inspect {α : Type} {next : List String → Script α} {stack : List String} {step : Step}
      (hnext : Issues routine (next stack) stack step) : Issues routine (.inspect next) stack step

/-- **A script has one run.** -/
theorem Runs.unique {routine : (c : Call) → Script c.Result} {script : Script α}
    {stack final final' : List String} {steps steps' : List Step} {outcome outcome' : Outcome α}
    (h : Runs routine script stack steps outcome final)
    (h' : Runs routine script stack steps' outcome' final') :
    steps = steps' ∧ outcome = outcome' ∧ final = final' := by
  induction h generalizing steps' final' with
  | done outcome stack =>
      cases h'
      exact ⟨rfl, rfl, rfl⟩
  | call hcall hnext ihcall ihnext =>
      cases h' with
      | call hcall' hnext' =>
          obtain ⟨rfl, rfl, rfl⟩ := ihcall hcall'
          obtain ⟨rfl, rfl, rfl⟩ := ihnext hnext'
          exact ⟨rfl, rfl, rfl⟩
  | push hnext ih =>
      cases h' with
      | push hnext' => exact ih hnext'
  | pop hnext ih =>
      cases h' with
      | pop hnext' => exact ih hnext'
  | inspect hnext ih =>
      cases h' with
      | inspect hnext' => exact ih hnext'

/-! ### Calls that return their answers -/

/-- What a script yields when every call returns its answer, and leaves the stack as it was; and
that all its calls are `issued` ones. -/
def Yields (answer : (c : Call) → List String → Outcome c.Result)
    (issued : Call → List String → Prop) : Script α → List String → Outcome α → List String → Prop
  | .done given, stack, outcome, final => given = outcome ∧ stack = final
  | .call c next, stack, outcome, final =>
      issued c stack ∧ (next (answer c stack)).Yields answer issued stack outcome final
  | .push name next, stack, outcome, final =>
      next.Yields answer issued (name :: stack) outcome final
  | .pop next, stack, outcome, final => next.Yields answer issued stack.tail outcome final
  | .inspect next, stack, outcome, final =>
      (next stack).Yields answer issued stack outcome final

section Yields

variable {routine : (c : Call) → Script c.Result}
  {answer : (c : Call) → List String → Outcome c.Result}
  {issued : Call → List String → Prop} {script : Script α} {stack final : List String}
  {outcome : Outcome α}

theorem Yields.mono {more : Call → List String → Prop}
    (hmore : ∀ c stack, issued c stack → more c stack)
    (h : script.Yields answer issued stack outcome final) :
    script.Yields answer more stack outcome final := by
  induction script generalizing stack with
  | done given => exact h
  | call c next ih => exact ⟨hmore _ _ h.1, ih _ h.2⟩
  | push name next ih => exact ih h
  | pop next ih => exact ih h
  | inspect next ih => exact ih _ h

/-- A cause ends both of two scripts. -/
theorem Yields.bind_error {cause : CompileError} {next : α → Script β}
    (h : script.Yields answer issued stack (.error cause) final) :
    (script.bind next).Yields answer issued stack (.error cause) final := by
  induction script generalizing stack with
  | done given =>
      obtain ⟨rfl, rfl⟩ := h
      exact ⟨rfl, rfl⟩
  | call c rest ih => exact ⟨h.1, ih _ h.2⟩
  | push name rest ih => exact ih h
  | pop rest ih => exact ih h
  | inspect rest ih => exact ih _ h

/-- The second of two scripts starts with the stack that the first one leaves. -/
theorem Yields.bind_ok {value : α} {between : List String} {next : α → Script β}
    {result : Outcome β} (h : script.Yields answer issued stack (.ok value) between)
    (hnext : (next value).Yields answer issued between result final) :
    (script.bind next).Yields answer issued stack result final := by
  induction script generalizing stack with
  | done given =>
      obtain ⟨rfl, rfl⟩ := h
      exact hnext
  | call c rest ih => exact ⟨h.1, ih _ h.2⟩
  | push name rest ih => exact ih h
  | pop rest ih => exact ih h
  | inspect rest ih => exact ih _ h

/-- Scripts that leave the stack as it was are put together as their outcomes are. -/
theorem Yields.bind {next : α → Script β} {after : α → Outcome β}
    (h : script.Yields answer issued stack outcome stack)
    (hnext : ∀ value, outcome = .ok value →
      (next value).Yields answer issued stack (after value) stack) :
    (script >>= next).Yields answer issued stack (outcome >>= after) stack := by
  cases outcome with
  | error cause => exact h.bind_error
  | ok value => exact h.bind_ok (hnext value rfl)

theorem Yields.map (h : script.Yields answer issued stack outcome stack) (change : α → β) :
    (script >>= fun value => pure (change value)).Yields answer issued stack (outcome.map change)
      stack := by
  cases outcome with
  | error cause => exact h.bind_error
  | ok value => exact h.bind_ok ⟨rfl, rfl⟩

theorem yields_lift (outcome : Outcome α) (stack : List String) :
    (lift outcome).Yields answer issued stack outcome stack := ⟨rfl, rfl⟩

theorem yields_perform {c : Call} (h : issued c stack) :
    (perform c).Yields answer issued stack (answer c stack) stack := ⟨h, rfl, rfl⟩

theorem yields_under {name : String} {c : Call} (h : issued c (name :: stack)) :
    (under name c).Yields answer issued stack (answer c (name :: stack)) stack := ⟨h, rfl, rfl⟩

/-- What a script yields is where it runs to, when its calls run to their answers; the calls on the
way are those of the script and those on the way of these. -/
theorem Yields.runs {sound : Call → List String → Prop}
    (h : script.Yields answer (fun c stack => sound c stack ∧
      ∃ steps, Runs routine (routine c) stack steps (answer c stack) stack ∧
        ∀ step ∈ steps, sound step.1 step.2) stack outcome final) :
    ∃ steps, Runs routine script stack steps outcome final ∧
      ∀ step ∈ steps, sound step.1 step.2 := by
  induction script generalizing stack with
  | done given =>
      obtain ⟨rfl, rfl⟩ := h
      exact ⟨[], .done given stack, by simp⟩
  | call c next ih =>
      obtain ⟨⟨hsound, inner, hinner, hinnerSound⟩, hnext⟩ := h
      obtain ⟨rest, hrest, hrestSound⟩ := ih _ hnext
      refine ⟨_, .call hinner hrest, ?_⟩
      intro step hstep
      rcases List.mem_cons.1 hstep with rfl | hstep
      · exact hsound
      · rcases List.mem_append.1 hstep with hstep | hstep
        · exact hinnerSound step hstep
        · exact hrestSound step hstep
  | push name next ih =>
      obtain ⟨steps, hsteps, hsound⟩ := ih h
      exact ⟨steps, .push hsteps, hsound⟩
  | pop next ih =>
      obtain ⟨steps, hsteps, hsound⟩ := ih h
      exact ⟨steps, .pop hsteps, hsound⟩
  | inspect next ih =>
      obtain ⟨steps, hsteps, hsound⟩ := ih _ h
      exact ⟨steps, .inspect hsteps, hsound⟩

/-- **When the calls of every script are below the call of the script, all scripts run to their
ends**; every call returns its answer and leaves the stack as it was. -/
theorem runs_of_yields {sound : Call → List String → Prop} {below : Step → Step → Prop}
    (hbelow : WellFounded below)
    (hyields : ∀ c stack, sound c stack →
      (routine c).Yields answer (fun inner stack' => sound inner stack' ∧
        below (inner, stack') (c, stack)) stack (answer c stack) stack)
    {c : Call} (hsound : sound c stack) :
    ∃ steps, Runs routine (routine c) stack steps (answer c stack) stack ∧
      ∀ step ∈ steps, sound step.1 step.2 := by
  -- the induction is on the call, with its stack
  generalize hstep : (c, stack) = step
  induction step using hbelow.induction generalizing c stack with
  | _ step ih =>
      subst hstep
      refine ((hyields c stack hsound).mono ?_).runs
      rintro inner stack' ⟨hinner, hlt⟩
      exact ⟨hinner, ih (inner, stack') hlt hinner rfl⟩

/-- The calls that a script makes are those that it makes when every call returns its answer, if
that is what calls do. -/
theorem issued_of_issues (hreturns : ∀ c stack steps returned final,
      Runs routine (routine c) stack steps returned final →
        returned = answer c stack ∧ final = stack) {step : Step}
    (h : Issues routine script stack step)
    (hyields : script.Yields answer issued stack outcome final) : issued step.1 step.2 := by
  induction h with
  | now => exact hyields.1
  | later hcall hnext ih =>
      obtain ⟨rfl, rfl⟩ := hreturns _ _ _ _ _ hcall
      exact ih hyields.2
  | push hnext ih => exact ih hyields
  | pop hnext ih => exact ih hyields
  | inspect hnext ih => exact ih hyields

end Yields

end Script

end StoreSchema
