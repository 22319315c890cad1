/-
**What a command shows, saves and leaves alone.**

A command reads its files first, then compiles, then picks out what is asked for, and gives it out
last.  Whatever fails before that has shown nothing and written nothing, and where the output would
have gone does not matter to it.  So the two commands and all options of `compile` differ only in
what comes after compiling: `types` lists the names of the object that `compile` prints, a type
alone is printed as its member is printed in that object, and a file gets the text that the terminal
would have got.

Nothing here depends on how files are kept.  A file system is given by what can be read in each of
its states and what a write makes of them; a directory of plain files is one.

Main definitions:

* `FileSystem`, `FileSystem.perform` — a file system, and a command carried out in it;
* `Directory.system` — a directory of plain files as a file system;
* `Command.arguments` — arguments that ask for a command;
* `FileSystem.Coherent` — **what holds between the commands with the same input**.

Main results:

* `Json.compact_obj` — the print of an object is made of the prints of its members;
* `FileSystem.perform_saved`, `FileSystem.saved_cases` — saving is showing into a file, and how that
  ends;
* `FileSystem.coherent` — every file system is coherent;
* `Directory.execute_of_run`, `Invocation.ofArguments_arguments` — command lines carry out commands,
  and every command is asked for by one;
* `command_line_coherent` — **a command line is coherent and fails cleanly**.
-/

import StoreSchema.Command.Directory
import StoreSchema.Proofs.Exclusion
import StoreSchema.Proofs.Json.Distinct
import StoreSchema.Proofs.Identifiers

set_option relaxedAutoImplicit false
set_option autoImplicit false

namespace StoreSchema

/-! ### Objects in print -/

namespace Json

/-- A member in compact print. -/
def memberText (member : String × Json) : String := quote member.1 ++ ":" ++ member.2.compact

theorem text_memberTokens (members : Members) :
    String.join ((memberTokens members).map Token.text) =
      String.join (members.map fun member => "," ++ memberText member) := by
  induction members with
  | nil => rfl
  | cons first rest ih =>
      obtain ⟨name, value⟩ := first
      rw [memberTokens]
      simp only [List.map_cons, List.map_append, String.join_cons, String.join_append, ih,
        memberText, compact, Token.text, String.append_assoc]

/-- **The print of an object is made of the prints of its members**, with commas between them. -/
theorem compact_obj (members : Members) :
    (obj members).compact =
      "\x7b" ++ String.intercalate "," (members.map memberText) ++ "\x7d" := by
  have hjoin (first : String × Json) (rest : Members) :
      String.intercalate "," ((first :: rest).map memberText) =
        memberText first ++ String.join (rest.map fun member => "," ++ memberText member) := by
    induction rest generalizing first with
    | nil => simp
    | cons second rest ih =>
        rw [List.map_cons, List.map_cons, String.intercalate_cons_cons, ← List.map_cons, ih,
          List.map_cons, String.join_cons]
        simp only [String.append_assoc]
  cases members with
  | nil => rfl
  | cons first rest =>
      rw [hjoin]
      obtain ⟨name, value⟩ := first
      rw [compact, tokens]
      simp only [List.map_cons, List.map_append, List.map_nil, String.join_cons,
        String.join_append, String.join_nil, text_memberTokens, memberText, compact, Token.text,
        String.append_assoc, String.append_empty]

end Json

/-! ### Schemas in print -/

namespace Schemas

variable {schemas : Schemas}

/-- The names of the object that schemas are printed as. -/
theorem keys_members (schemas : Schemas) :
    Entries.keys (schemas.map fun schema => (schema.name, schema.toJson)) = schemas.names := by
  rw [Entries.keys, List.map_map]
  rfl

/-- What stands under a name in that object is the schema of that name. -/
theorem get?_members (schemas : Schemas) (name : String) :
    Entries.get? (schemas.map fun schema => (schema.name, schema.toJson)) name =
      (schemas.get? name).map CompiledSchema.toJson := by
  induction schemas with
  | nil => rfl
  | cons first rest ih =>
      rw [List.map_cons, Entries.get?_cons, ih, get?, get?, List.find?_cons]
      by_cases hname : first.name = name
      · simp [hname]
      · simp [hname, beq_eq_false_iff_ne.2 hname]

end Schemas

/-- The schemas of an input are those of the document that its file holds. -/
theorem Input.compile_of_schemas {files : Files} {input : Input} {schemas : Schemas}
    (h : input.schemas files = .ok schemas) :
    ∃ content options compilation, compile (.bytes content) options = .ok compilation ∧
      compilation.schemas = schemas := by
  rw [Input.schemas] at h
  cases hcontent : readFile files input.spec with
  | error failure =>
      rw [hcontent] at h
      cases h
  | ok content =>
      cases hoptions : input.options files with
      | error failure =>
          rw [hcontent, hoptions] at h
          cases h
      | ok options =>
          rw [hcontent, hoptions] at h
          dsimp only [bind, Except.bind] at h
          split at h
          · next compilation hcompile =>
              cases h
              exact ⟨content, options, compilation, hcompile, rfl⟩
          · cases h

/-- The schemas of an input have distinct names. -/
theorem Input.nodup_names {files : Files} {input : Input} {schemas : Schemas}
    (h : input.schemas files = .ok schemas) : schemas.names.Nodup := by
  obtain ⟨content, options, compilation, hcompile, rfl⟩ := Input.compile_of_schemas h
  obtain ⟨document, catalog, hnormalize, hcatalog, htypes⟩ := compile_eq_ok_iff.1 hcompile
  rw [Catalog.names_of_compileTypes htypes]
  exact (List.filter_sublist.map Prod.fst).nodup
    (nodup_keys_of_catalogOf hcatalog (Source.distinct_of_normalize_bytes hnormalize))

theorem Failure.exitCode_ne_zero (failure : Failure) : failure.exitCode ≠ 0 := by
  cases failure with
  | rejected cause => cases cause <;> exact nofun
  | _ => exact nofun

/-! ### File systems -/

/-- A file system: what the files hold in each of its states, and the state after the content of a
file has been written, with whether the write succeeded. -/
structure FileSystem (σ : Type) where
  /-- What the files hold. -/
  read : σ → Files
  /-- The state after a write, and whether it succeeded. -/
  write : σ → String → ByteArray → σ × Bool

namespace FileSystem

variable {σ : Type} (system : FileSystem σ) (state : σ)

/-- The report of what a command yields, and the state after it has been given out. -/
def deliver : Except Failure Yield → Report × σ
  | .error failure => (.failure failure, state)
  | .ok (.shown text) => (.success text, state)
  | .ok (.saved path text) =>
      match system.write state path text.toUTF8 with
      | (after, true) => (.success "", after)
      | (after, false) => (.failure (.unwritable path), after)

/-- **The report of a command that is carried out in a state, and the state after it.** -/
def perform (command : Command) : Report × σ :=
  system.deliver state (command.run (system.read state))

/-- The text that `compile` gives out: the schemas in print, or the schema of a type. -/
def print? (input : Input) (type : Option String) (pretty : Bool) : Except Failure String :=
  (input.schemas (system.read state) >>= fun schemas => selected schemas type).map
    (rendered pretty)

variable {system state}

/-- What `compile` shows. -/
theorem perform_shown (input : Input) (type : Option String) (pretty : Bool) :
    system.perform state (.compile input type none pretty) =
      match system.print? state input type pretty with
      | .ok text => (.success (text ++ "\n"), state)
      | .error failure => (.failure failure, state) := by
  rw [perform, Command.run, print?]
  cases input.schemas (system.read state) with
  | error failure => rfl
  | ok schemas =>
      dsimp only [bind, Except.bind]
      cases selected schemas type <;> rfl

/-- **Saving is showing into a file**: what fails before the write fails in the same way, and the
text is the same. -/
theorem perform_saved (input : Input) (type : Option String) (path : String) (pretty : Bool) :
    system.perform state (.compile input type (some path) pretty) =
      match system.print? state input type pretty with
      | .ok text => system.deliver state (.ok (.saved path text))
      | .error failure => (.failure failure, state) := by
  rw [perform, Command.run, print?]
  cases input.schemas (system.read state) with
  | error failure => rfl
  | ok schemas =>
      dsimp only [bind, Except.bind]
      cases selected schemas type <;> rfl

/-- What `types` shows. -/
theorem perform_types (input : Input) :
    system.perform state (.types input) =
      match input.schemas (system.read state) with
      | .ok schemas =>
          (.success (String.join (schemas.names.map fun name => name ++ "\n")), state)
      | .error failure => (.failure failure, state) := by
  rw [perform, Command.run]
  cases input.schemas (system.read state) <;> rfl

/-- **What holds between the commands with the same input**, carried out in the same state. -/
structure Coherent (system : FileSystem σ) (state : σ) (input : Input) : Prop where
  /-- What is shown leaves every file as it is. -/
  shown : (system.perform state (.types input)).2 = state ∧
    ∀ type pretty, (system.perform state (.compile input type none pretty)).2 = state
  /-- `types` ends as `compile` does. -/
  agree : ∀ pretty,
    (system.perform state (.types input)).1.exitCode =
        (system.perform state (.compile input none none pretty)).1.exitCode ∧
      (system.perform state (.types input)).1.error =
        (system.perform state (.compile input none none pretty)).1.error
  /-- `types` lists the names of the object that `compile` prints. -/
  listed : ∀ pretty, (system.perform state (.types input)).1.exitCode = 0 →
    ∃ members : Members, (Entries.keys members).Nodup ∧
      (system.perform state (.compile input none none pretty)).1.output =
        rendered pretty (.obj members) ++ "\n" ∧
      (system.perform state (.types input)).1.output =
        String.join ((Entries.keys members).map fun name => name ++ "\n")
  /-- A failure shows nothing and writes nothing, unless it is the write that failed. -/
  failed : ∀ type output pretty,
    (system.perform state (.compile input type output pretty)).1.exitCode ≠ 0 →
      (system.perform state (.compile input type output pretty)).1.output = "" ∧
        ((system.perform state (.compile input type output pretty)).2 = state ∨
          ∃ path text after, output = some path ∧
            (system.perform state (.compile input type none pretty)).1 =
              .success (text ++ "\n") ∧
            system.write state path text.toUTF8 = (after, false) ∧
            system.perform state (.compile input type output pretty) =
              (.failure (.unwritable path), after))
  /-- What fails without a file to write fails with it, in the same way. -/
  unsaved : ∀ type path pretty,
    (system.perform state (.compile input type none pretty)).1.exitCode ≠ 0 →
      system.perform state (.compile input type (some path) pretty) =
        system.perform state (.compile input type none pretty)
  /-- A file that is written gets what the terminal would have got, and that gets nothing. -/
  saved : ∀ type path pretty,
    (system.perform state (.compile input type (some path) pretty)).1.exitCode = 0 →
      (system.perform state (.compile input type (some path) pretty)).1.output = "" ∧
        ∃ text,
          (system.perform state (.compile input type none pretty)).1.output = text ++ "\n" ∧
          system.write state path text.toUTF8 =
            ((system.perform state (.compile input type (some path) pretty)).2, true)
  /-- A type alone is printed as its member is in the object of all; a name that is no member is
  refused. -/
  member : (system.perform state (.compile input none none false)).1.exitCode = 0 →
    ∃ members : Members, (Entries.keys members).Nodup ∧
      (system.perform state (.compile input none none false)).1.output =
        "\x7b" ++ String.intercalate "," (members.map Json.memberText) ++ "\x7d" ++ "\n" ∧
      ∀ name, (system.perform state (.compile input (some name) none false)).1 =
        match Entries.get? members name with
        | some value => .success (value.compact ++ "\n")
        | none => .failure (.unknownType name)
  /-- Where not all types can be printed, none can. -/
  memberless : (system.perform state (.compile input none none false)).1.exitCode ≠ 0 →
    ∀ name, system.perform state (.compile input (some name) none false) =
      system.perform state (.compile input none none false)

/-- The object that all schemas are printed as. -/
theorem print?_none (input : Input) (pretty : Bool) :
    system.print? state input none pretty =
      (input.schemas (system.read state)).map fun schemas => rendered pretty schemas.toJson := by
  rw [print?]
  cases input.schemas (system.read state) <;> rfl

/-- The value that a single type is printed as. -/
theorem print?_some (input : Input) (name : String) (pretty : Bool) :
    system.print? state input (some name) pretty =
      match input.schemas (system.read state) with
      | .ok schemas =>
          match schemas.get? name with
          | some schema => .ok (rendered pretty schema.toJson)
          | none => .error (.unknownType name)
      | .error failure => .error failure := by
  rw [print?]
  cases input.schemas (system.read state) with
  | error failure => rfl
  | ok schemas =>
      dsimp only [bind, Except.bind, selected]
      cases schemas.get? name <;> rfl

section Cases

variable {input : Input} {type : Option String} {pretty : Bool}

/-- What succeeds without a file to write has a text to show, -/
theorem exists_print?
    (h : (system.perform state (.compile input type none pretty)).1.exitCode = 0) :
    ∃ text, system.print? state input type pretty = .ok text := by
  rw [perform_shown] at h
  cases hprint : system.print? state input type pretty with
  | ok text => exact ⟨text, rfl⟩
  | error failure =>
      rw [hprint] at h
      exact absurd h failure.exitCode_ne_zero

/-- and what fails has none. -/
theorem exists_failure
    (h : (system.perform state (.compile input type none pretty)).1.exitCode ≠ 0) :
    ∃ failure, system.print? state input type pretty = .error failure := by
  rw [perform_shown] at h
  cases hprint : system.print? state input type pretty with
  | error failure => exact ⟨failure, rfl⟩
  | ok text =>
      rw [hprint] at h
      exact absurd rfl h

/-- When all types are shown the input has schemas, -/
theorem exists_schemas
    (h : (system.perform state (.compile input none none pretty)).1.exitCode = 0) :
    ∃ schemas, input.schemas (system.read state) = .ok schemas := by
  obtain ⟨text, hprint⟩ := exists_print? h
  rw [print?_none] at hprint
  cases hschemas : input.schemas (system.read state) with
  | ok schemas => exact ⟨schemas, rfl⟩
  | error failure =>
      rw [hschemas] at hprint
      cases hprint

/-- and when that fails it has none. -/
theorem exists_schemas_failure
    (h : (system.perform state (.compile input none none pretty)).1.exitCode ≠ 0) :
    ∃ failure, input.schemas (system.read state) = .error failure := by
  obtain ⟨failure, hprint⟩ := exists_failure h
  rw [print?_none] at hprint
  cases hschemas : input.schemas (system.read state) with
  | error failure => exact ⟨failure, rfl⟩
  | ok schemas =>
      rw [hschemas] at hprint
      cases hprint

/-- **How saving ends**: something fails and no file is written, or the text is written, or it is the
write that fails. -/
theorem saved_cases (input : Input) (type : Option String) (path : String) (pretty : Bool) :
    (∃ failure, system.print? state input type pretty = .error failure ∧
        system.perform state (.compile input type (some path) pretty) =
          (.failure failure, state)) ∨
      ∃ text after, system.print? state input type pretty = .ok text ∧
        (system.write state path text.toUTF8 = (after, true) ∧
            system.perform state (.compile input type (some path) pretty) =
              (.success "", after) ∨
          system.write state path text.toUTF8 = (after, false) ∧
            system.perform state (.compile input type (some path) pretty) =
              (.failure (.unwritable path), after)) := by
  rw [perform_saved]
  cases system.print? state input type pretty with
  | error failure => exact .inl ⟨failure, rfl, rfl⟩
  | ok text =>
      dsimp only [deliver]
      split
      · next after hwrite => exact .inr ⟨text, after, rfl, .inl ⟨hwrite, rfl⟩⟩
      · next after hwrite => exact .inr ⟨text, after, rfl, .inr ⟨hwrite, rfl⟩⟩

end Cases

/-- **Every file system is coherent.** -/
theorem coherent (system : FileSystem σ) (state : σ) (input : Input) :
    Coherent system state input where
  shown := by
    constructor
    · rw [perform_types]
      cases input.schemas (system.read state) <;> rfl
    · intro type pretty
      rw [perform_shown]
      cases system.print? state input type pretty <;> rfl
  agree := by
    intro pretty
    rw [perform_types, perform_shown, print?_none]
    cases input.schemas (system.read state) <;> exact ⟨rfl, rfl⟩
  listed := by
    intro pretty hzero
    rw [perform_types] at hzero ⊢
    cases hschemas : input.schemas (system.read state) with
    | error failure =>
        rw [hschemas] at hzero
        exact absurd hzero failure.exitCode_ne_zero
    | ok schemas =>
        have hnames := Schemas.keys_members schemas
        rw [perform_shown, print?_none, hschemas]
        refine ⟨_, ?_, rfl, ?_⟩
        · rw [hnames]
          exact Input.nodup_names hschemas
        · rw [hnames]
          rfl
  failed := by
    intro type output pretty hfailed
    cases output with
    | none =>
        obtain ⟨failure, hprint⟩ := exists_failure hfailed
        rw [perform_shown, hprint]
        exact ⟨rfl, .inl rfl⟩
    | some path =>
        rcases saved_cases input type path pretty with
          ⟨failure, _, hsaved⟩ | ⟨text, after, hprint, ⟨_, hsaved⟩ | ⟨hwrite, hsaved⟩⟩
        · rw [hsaved]
          exact ⟨rfl, .inl rfl⟩
        · rw [hsaved] at hfailed
          exact absurd rfl hfailed
        · rw [hsaved]
          refine ⟨rfl, .inr ⟨path, text, after, rfl, ?_, hwrite, rfl⟩⟩
          rw [perform_shown, hprint]
  unsaved := by
    intro type path pretty hfailed
    obtain ⟨failure, hprint⟩ := exists_failure hfailed
    rw [perform_shown, perform_saved, hprint]
  saved := by
    intro type path pretty hzero
    rcases saved_cases input type path pretty with
      ⟨failure, _, hsaved⟩ | ⟨text, after, hprint, ⟨hwrite, hsaved⟩ | ⟨_, hsaved⟩⟩
    · rw [hsaved] at hzero
      exact absurd hzero failure.exitCode_ne_zero
    · rw [hsaved, perform_shown, hprint]
      exact ⟨rfl, text, rfl, hwrite⟩
    · rw [hsaved] at hzero
      exact absurd hzero (Failure.unwritable path).exitCode_ne_zero
  member := by
    intro hzero
    obtain ⟨schemas, hschemas⟩ := exists_schemas hzero
    refine ⟨schemas.map fun schema => (schema.name, schema.toJson), ?_, ?_, fun name => ?_⟩
    · rw [Schemas.keys_members]
      exact Input.nodup_names hschemas
    · rw [perform_shown, print?_none, hschemas, ← Json.compact_obj]
      rfl
    · rw [perform_shown, print?_some, hschemas, Schemas.get?_members]
      dsimp only
      cases schemas.get? name <;> rfl
  memberless := by
    intro hfailed name
    obtain ⟨failure, hschemas⟩ := exists_schemas_failure hfailed
    rw [perform_shown, print?_some, perform_shown, print?_none, hschemas]
    rfl

end FileSystem

/-! ### Directories -/

namespace Directory

/-- A directory of plain files as a file system; a write that fails changes nothing. -/
def system : FileSystem Directory where
  read := read
  write directory path content :=
    match directory.write? path content with
    | some written => (written, true)
    | none => (directory, false)

/-- What a command yields is given out in the directory as in its file system. -/
theorem deliver_eq (directory : Directory) (yielded : Except Failure Yield) :
    directory.deliver yielded = system.deliver directory yielded := by
  cases yielded with
  | error failure => rfl
  | ok yielded =>
      cases yielded with
      | shown text => rfl
      | saved path text =>
          dsimp only [deliver, FileSystem.deliver, system]
          cases directory.write? path text.toUTF8 <;> rfl

/-- **A command line that asks for a command carries it out.** -/
theorem execute_of_run {arguments : List String} {command : Command}
    (h : Invocation.ofArguments arguments = .run command) (directory : Directory) :
    directory.execute arguments = system.perform directory command := by
  rw [execute, h]
  exact deliver_eq directory _

/-- A path that leads to a file, or to a name that is free, leads to that file once it has been
written. -/
theorem locate_insert {directory : Directory} {path name : String}
    (h : directory.locate path = .free name ∨ ∃ old, directory.locate path = .file name old)
    (content : ByteArray) :
    (Directory.mk (Entries.insert directory.files name content)).locate path =
      .file name content := by
  rw [locate] at h ⊢
  split
  · next hlong => simp [hlong] at h
  · next hlong =>
      rw [if_neg hlong] at h
      split
      · next hsteps => simp [hsteps] at h
      · next found rest hsteps =>
          rw [hsteps] at h
          dsimp only at h ⊢
          split
          · next hname => simp [hname] at h
          · next hname =>
              rw [if_neg hname] at h
              split
              · next houtside => simp [houtside] at h
              · next houtside =>
                  rw [if_neg houtside] at h
                  -- only the last step leads to a file or to a free name
                  have hlast : (rest.isEmpty && !Path.endsInDirectory path) = true ∧
                      found = name := by
                    cases hget : Entries.get? directory.files found <;>
                      cases hisLast : rest.isEmpty && !Path.endsInDirectory path <;>
                      simp [hget, hisLast] at h <;> exact ⟨rfl, h⟩
                  rw [hlast.2, Entries.get?_insert_self]
                  exact if_pos hlast.1

/-- A write that fails changes nothing. -/
theorem eq_of_write_failed {directory after : Directory} {path : String} {content : ByteArray}
    (h : system.write directory path content = (after, false)) : after = directory := by
  dsimp only [system] at h
  cases hwrite : directory.write? path content with
  | none =>
      rw [hwrite] at h
      cases h
      rfl
  | some written =>
      rw [hwrite] at h
      cases h

/-- **A write that succeeds changes the file at its path**, and no other. -/
theorem write_spec {directory after : Directory} {path : String} {content : ByteArray}
    (h : system.write directory path content = (after, true)) :
    after.read path = .ok content ∧
      ∃ name, ∀ other, other ≠ name →
        Entries.get? after.files other = Entries.get? directory.files other := by
  dsimp only [system] at h
  cases hwrite : directory.write? path content with
  | none =>
      rw [hwrite] at h
      cases h
  | some written =>
      rw [hwrite] at h
      cases h
      rw [write?] at hwrite
      obtain ⟨name, hname, rfl⟩ : ∃ name,
          (directory.locate path = .free name ∨ ∃ old, directory.locate path = .file name old) ∧
            after = ⟨Entries.insert directory.files name content⟩ := by
        split at hwrite
        · next name old hlocate =>
            cases hwrite
            exact ⟨name, .inr ⟨old, hlocate⟩, rfl⟩
        · next name hlocate =>
            cases hwrite
            exact ⟨name, .inl hlocate, rfl⟩
        · cases hwrite
      refine ⟨?_, name, fun other hother => ?_⟩
      · rw [read, locate_insert hname]
      · exact (Entries.get?_insert _ _ _ _).trans (if_neg (Ne.symm hother))

end Directory

/-! ### Arguments -/

/-- The argument that gives a long option its value. -/
def Argument.long (name value : String) : String := "--" ++ name ++ "=" ++ value

/-- Arguments for an input, ahead of the path of the document. -/
def Input.arguments (input : Input) : List String :=
  input.overlay.toList.map (Argument.long "overlay") ++
    input.validators.map (Argument.long "validator")

namespace Command

/-- Arguments that ask for a command. -/
def arguments : Command → List String
  | .compile input type output pretty =>
      "compile" :: (input.arguments ++ (type.toList.map (Argument.long "type") ++
        (output.toList.map (Argument.long "output") ++
          ((if pretty then ["--pretty"] else []) ++ ["--", input.spec]))))
  | .types input => "types" :: (input.arguments ++ ["--", input.spec])

/-- That no path of a command is empty. -/
def HasPaths : Command → Prop
  | .compile input _ output _ => input.spec ≠ "" ∧ input.overlay ≠ some "" ∧ output ≠ some ""
  | .types input => input.spec ≠ "" ∧ input.overlay ≠ some ""

end Command

/-- A long option is known by what stands ahead of the equals sign. -/
theorem Argument.classify_long {verb : Verb} {name : String} {option : ValueOption}
    (hname : '=' ∉ name.toList) (h : (longOptions verb).lookup name = some option)
    (value : String) : classify verb (long name value) = .valued option value := by
  have htext : (long name value).toList = '-' :: '-' :: (name.toList ++ '=' :: value.toList) := by
    simp [long]
  have hplain : ∀ c ∈ name.toList, (decide (c ≠ '=')) = true := by
    intro c hc
    rw [decide_eq_true_iff]
    rintro rfl
    exact hname hc
  have hlong : classify verb (long name value) =
      classifyLong verb (name.toList ++ '=' :: value.toList) := by
    rw [classify, htext]
    cases name.toList <;> rfl
  have htake : (name.toList ++ '=' :: value.toList).takeWhile (fun c => decide (c ≠ '=')) =
      name.toList := by
    rw [List.takeWhile_append_of_pos hplain, List.takeWhile_cons_of_neg (by simp),
      List.append_nil]
  have hdrop : (name.toList ++ '=' :: value.toList).dropWhile (fun c => decide (c ≠ '=')) =
      '=' :: value.toList := by
    rw [List.dropWhile_append_of_pos hplain, List.dropWhile_cons_of_neg (by simp)]
  rw [hlong, classifyLong, htake, hdrop, String.ofList_toList, h]
  dsimp only
  rw [String.ofList_toList]

namespace Settings

variable {verb : Verb} {settings changed : Settings} {rest : List String}

theorem read_long {name value : String} {option : ValueOption} (hname : '=' ∉ name.toList)
    (h : (Argument.longOptions verb).lookup name = some option)
    (hadd : settings.addOption? option value = some changed) :
    settings.read verb (Argument.long name value :: rest) = changed.read verb rest := by
  rw [read, Argument.classify_long hname h]
  dsimp only
  rw [hadd]

/-- Validators are collected in their order. -/
theorem read_validators (settings : Settings) (validators : List String) :
    settings.read verb (validators.map (Argument.long "validator") ++ rest) =
      { settings with validators := settings.validators ++ validators }.read verb rest := by
  have hoption : (Argument.longOptions verb).lookup "validator" = some .validator := by
    cases verb <;> rfl
  induction validators generalizing settings with
  | nil => simp
  | cons first others ih =>
      rw [List.map_cons, List.cons_append, read_long (by decide) hoption rfl, ih,
        List.append_assoc, List.singleton_append]

theorem read_input {input : Input} (hoverlay : input.overlay ≠ some "") :
    read verb {} (input.arguments ++ rest) =
      read verb { overlay := input.overlay, validators := input.validators } rest := by
  rw [Input.arguments, List.append_assoc]
  cases hpath : input.overlay with
  | none => exact read_validators {} input.validators
  | some path =>
      have hoption : (Argument.longOptions verb).lookup "overlay" = some .overlay := by
        cases verb <;> rfl
      have hne : path ≠ "" := fun heq => hoverlay (by rw [hpath, heq])
      have hadd : addOption? {} .overlay path = some { overlay := some path } := by
        simp [addOption?, hne]
      rw [Option.toList_some, List.map_singleton, List.singleton_append,
        read_long (by decide) hoption hadd]
      exact read_validators { overlay := some path } input.validators

theorem read_type (type : Option String) (hnone : settings.type = none) :
    settings.read .compile (type.toList.map (Argument.long "type") ++ rest) =
      { settings with type := type }.read .compile rest := by
  cases type with
  | none =>
      have hsame : { settings with type := none } = settings := by rw [← hnone]
      rw [hsame]
      rfl
  | some name =>
      have hadd : settings.addOption? .type name = some { settings with type := some name } := by
        simp [addOption?, hnone]
      exact read_long (by decide) rfl hadd

theorem read_output {output : Option String} (houtput : output ≠ some "")
    (hnone : settings.output = none) :
    settings.read .compile (output.toList.map (Argument.long "output") ++ rest) =
      { settings with output := output }.read .compile rest := by
  cases output with
  | none =>
      have hsame : { settings with output := none } = settings := by rw [← hnone]
      rw [hsame]
      rfl
  | some path =>
      have hne : path ≠ "" := fun heq => houtput (by rw [heq])
      have hadd : settings.addOption? .output path =
          some { settings with output := some path } := by
        simp [addOption?, hnone, hne]
      exact read_long (by decide) rfl hadd

theorem read_pretty (pretty : Bool) (hfalse : settings.pretty = false) :
    settings.read .compile ((if pretty then ["--pretty"] else []) ++ rest) =
      { settings with pretty := pretty }.read .compile rest := by
  cases pretty with
  | false =>
      have hsame : { settings with pretty := false } = settings := by rw [← hfalse]
      rw [hsame]
      rfl
  | true =>
      have hclassify : Argument.classify .compile "--pretty" = .pretty := by decide
      have hadd : settings.addPretty? = some { settings with pretty := true } := by
        simp [addPretty?, hfalse]
      rw [if_pos rfl, List.singleton_append, read, hclassify]
      dsimp only
      rw [hadd]

theorem read_spec {spec : String} (hspec : spec ≠ "") (hnone : settings.spec = none) :
    settings.read verb ["--", spec] = .run { settings with spec := some spec } := by
  have hclassify : Argument.classify verb "--" = .endOfOptions := rfl
  have hadd : settings.addPath? spec = some { settings with spec := some spec } := by
    simp [addPath?, hspec, hnone]
  rw [read, hclassify]
  dsimp only
  rw [readPaths, hadd]
  rfl

end Settings

/-- **Every command without empty paths is asked for by a command line.** -/
theorem Invocation.ofArguments_arguments {command : Command} (h : command.HasPaths) :
    ofArguments command.arguments = .run command := by
  cases command with
  | types input =>
      obtain ⟨hspec, hoverlay⟩ := h
      rw [Command.arguments, ofArguments, if_neg (by decide), if_pos rfl, ofVerb,
        Settings.read_input hoverlay, Settings.read_spec hspec rfl]
      rfl
  | compile input type output pretty =>
      obtain ⟨hspec, hoverlay, houtput⟩ := h
      rw [Command.arguments, ofArguments, if_pos rfl, ofVerb, Settings.read_input hoverlay,
        Settings.read_type type rfl, Settings.read_output houtput rfl,
        Settings.read_pretty pretty rfl, Settings.read_spec hspec rfl]
      rfl

/-! ### The command line -/

/-- **A command line is coherent and fails cleanly.**  In every file system and for every input,
`types` and `compile` end alike and name the same types; a failure shows nothing and leaves the
files alone, unless the write has failed; what is saved is what would have been shown; and a type
alone is printed as in the object of all types.  A directory is such a file system, in which a write
that succeeds changes a single file; a command line that asks for a command carries it out there,
and every command without empty paths is asked for by a command line. -/
theorem command_line_coherent :
    (∀ {σ : Type} (system : FileSystem σ) (state : σ) (input : Input),
      system.Coherent state input) ∧
    (∀ (directory : Directory) (arguments : List String) (command : Command),
      Invocation.ofArguments arguments = .run command →
        directory.execute arguments = Directory.system.perform directory command) ∧
    (∀ command : Command, command.HasPaths →
      Invocation.ofArguments command.arguments = .run command) ∧
    ∀ (directory after : Directory) (path : String) (content : ByteArray),
      (Directory.system.write directory path content = (after, false) → after = directory) ∧
        (Directory.system.write directory path content = (after, true) →
          after.read path = .ok content ∧
            ∃ name, ∀ other, other ≠ name →
              Entries.get? after.files other = Entries.get? directory.files other) :=
  ⟨FileSystem.coherent, fun directory _ _ h => Directory.execute_of_run h directory,
    fun _ => Invocation.ofArguments_arguments,
    fun _ _ _ _ => ⟨Directory.eq_of_write_failed, Directory.write_spec⟩⟩

/-- A directory with a document of two types. -/
def shopDirectory : Directory where
  files :=
    [("shop.json", String.toUTF8 <| Json.compact <| .obj
      [("swagger", .str "2.0"),
        ("definitions", .obj
          [("Tag", .obj [("type", .str "string")]),
            ("Weight", .obj [("type", .str "number")])])])]

/-- The schema of a tag is saved as it would have been shown; a type that is not there is refused
before anything is written. -/
theorem shopDirectory_coherent :
    (∃ text,
      (shopDirectory.execute ["compile", "--type=Tag", "shop.json"]).1.output = text ++ "\n" ∧
      (shopDirectory.execute
        ["compile", "--type=Tag", "--output=tag.json", "shop.json"]).1 = .success "" ∧
      (shopDirectory.execute
        ["compile", "--type=Tag", "--output=tag.json", "shop.json"]).2.read "tag.json" =
          .ok text.toUTF8) ∧
    (shopDirectory.execute
      ["compile", "--type=Cat", "--output=tag.json", "shop.json"]).1.exitCode = 2 ∧
    (shopDirectory.execute
      ["compile", "--type=Cat", "--output=tag.json", "shop.json"]).2 = shopDirectory := by
  obtain ⟨hcoherent, hexecute, _, hwrite⟩ := command_line_coherent
  let input : Input := ⟨"shop.json", none, []⟩
  have hshop := hcoherent Directory.system shopDirectory input
  constructor
  · have hsaved : (Directory.system.perform shopDirectory
        (.compile input (some "Tag") (some "tag.json") false)).1 = .success "" := by
      decide +kernel
    have hzero : (Directory.system.perform shopDirectory
        (.compile input (some "Tag") (some "tag.json") false)).1.exitCode = 0 := by
      rw [hsaved]
      rfl
    obtain ⟨_, text, hshown, hwritten⟩ := hshop.saved (some "Tag") "tag.json" false hzero
    rw [hexecute shopDirectory _ (.compile input (some "Tag") none false) (by decide),
      hexecute shopDirectory _ (.compile input (some "Tag") (some "tag.json") false) (by decide)]
    exact ⟨text, hshown, hsaved, ((hwrite _ _ _ _).2 hwritten).1⟩
  · have hrefused : (Directory.system.perform shopDirectory
        (.compile input (some "Cat") none false)).1.exitCode = 2 := by
      decide +kernel
    have hunsaved := hshop.unsaved (some "Cat") "tag.json" false (by rw [hrefused]; decide)
    rw [hexecute shopDirectory _ (.compile input (some "Cat") (some "tag.json") false) (by decide),
      hunsaved]
    exact ⟨hrefused, hshop.shown.2 (some "Cat") false⟩

end StoreSchema
