/-
**The arguments of the command line.**

The first argument names a command or asks for help or for the version; the rest are options and
the path of a document, in any order.  An option takes its value from the same argument, after an
equals sign or right behind its letter, or from the next one, which then may not look like an
option.  After `--` every argument is a path.  An option that is given once too often, an unknown
one, a missing value and an empty path are misuse, and so is more than one name behind `help`.

Main definitions:

* `Input`, `Command` — the files and validators a command works on, and commands;
* `Settings`, `Argument`, `Argument.classify` — what has been given so far, and what an argument
  means;
* `Settings.read` — the settings after all arguments;
* `Invocation.ofArguments` — **what a command line asks for**.
-/

set_option relaxedAutoImplicit false
set_option autoImplicit false

namespace StoreSchema

/-- The files and validators that a command works on. -/
structure Input where
  /-- The path of the document. -/
  spec : String
  /-- The path of an overlay. -/
  overlay : Option String
  /-- The names of validators that are taken to accept every value. -/
  validators : List String
deriving DecidableEq, Repr

/-- A command. -/
inductive Command where
  /-- Compile a document and give out its schemas, or that of one type; on indented lines when
  `pretty` asks for it, and into a file when `output` names one. -/
  | compile (input : Input) (type : Option String) (output : Option String) (pretty : Bool)
  /-- List the names of the types that a document compiles to. -/
  | types (input : Input)
deriving DecidableEq, Repr

/-- The names of commands. -/
inductive Verb where
  | compile
  | types
deriving DecidableEq, Repr

/-! ### Single arguments -/

/-- The options that take a value. -/
inductive ValueOption where
  | overlay
  | type
  | validator
  | output
deriving DecidableEq, Repr

/-- What an argument behind a command means. -/
inductive Argument where
  /-- A path. -/
  | path (text : String)
  /-- An option with its value. -/
  | valued (option : ValueOption) (value : String)
  /-- An option whose value is the next argument. -/
  | pending (option : ValueOption)
  /-- The option `--pretty`. -/
  | pretty
  /-- The mark behind which all arguments are paths. -/
  | endOfOptions
  /-- A request for help. -/
  | help
  /-- Nothing that the command knows. -/
  | unknown
deriving DecidableEq, Repr

namespace Argument

/-- The long options of a command that take a value. -/
def longOptions : Verb → List (String × ValueOption)
  | .compile =>
      [("overlay", .overlay), ("type", .type), ("validator", .validator), ("output", .output)]
  | .types => [("overlay", .overlay), ("validator", .validator)]

/-- Whether an argument looks like an option. -/
def isDashed (text : String) : Bool :=
  match text.toList with
  | ['-'] => false
  | '-' :: _ => true
  | _ => false

/-- The meaning of a long option, given what stands behind the two dashes. -/
def classifyLong (verb : Verb) (text : List Char) : Argument :=
  let name := String.ofList (text.takeWhile (· ≠ '='))
  match text.dropWhile (· ≠ '=') with
  | _ :: value =>
      match (longOptions verb).lookup name with
      | some option => .valued option (String.ofList value)
      | none => .unknown
  | [] =>
      match (longOptions verb).lookup name with
      | some option => .pending option
      | none =>
          if name = "help" then .help
          else if name = "pretty" ∧ verb = .compile then .pretty
          else .unknown

/-- The meaning of a short option, given its letter and what stands behind it. -/
def classifyShort (verb : Verb) (letter : Char) (text : List Char) : Argument :=
  if letter = 'h' then .help
  else if letter = 't' ∧ verb = .compile then
    match text with
    | [] => .pending .type
    | '=' :: value => .valued .type (String.ofList value)
    | value => .valued .type (String.ofList value)
  else .unknown

/-- The meaning of an argument that may be an option. -/
def classify (verb : Verb) (text : String) : Argument :=
  match text.toList with
  | ['-', '-'] => .endOfOptions
  | '-' :: '-' :: rest => classifyLong verb rest
  | '-' :: letter :: rest => classifyShort verb letter rest
  | _ => .path text

end Argument

/-! ### All arguments -/

/-- What the arguments of a command have given so far. -/
structure Settings where
  /-- The path of the document. -/
  spec : Option String := none
  /-- The path of an overlay. -/
  overlay : Option String := none
  /-- The name of a type. -/
  type : Option String := none
  /-- The names of validators. -/
  validators : List String := []
  /-- The path of an output file. -/
  output : Option String := none
  /-- Whether output goes on indented lines. -/
  pretty : Bool := false
deriving DecidableEq, Repr

/-- What a command line asks for. -/
inductive Invocation (α : Type) where
  /-- To go on. -/
  | run (what : α)
  /-- To show help. -/
  | help
  /-- To show the version. -/
  | version
  /-- Nothing that makes sense. -/
  | misuse
deriving DecidableEq, Repr

namespace Settings

/-- The settings with the path of the document; there is only one, and it is not empty. -/
def addPath? (settings : Settings) (path : String) : Option Settings :=
  if path.isEmpty || settings.spec.isSome then none else some { settings with spec := some path }

/-- The settings with an option; all but validators are given once at most, and a path is not
empty. -/
def addOption? (settings : Settings) (option : ValueOption) (value : String) : Option Settings :=
  match option with
  | .overlay =>
      if value.isEmpty || settings.overlay.isSome then none
      else some { settings with overlay := some value }
  | .type => if settings.type.isSome then none else some { settings with type := some value }
  | .validator => some { settings with validators := settings.validators ++ [value] }
  | .output =>
      if value.isEmpty || settings.output.isSome then none
      else some { settings with output := some value }

/-- The settings with indented lines, asked for once at most. -/
def addPretty? (settings : Settings) : Option Settings :=
  if settings.pretty then none else some { settings with pretty := true }

/-- The settings after arguments that are all paths. -/
def readPaths (settings : Settings) : List String → Invocation Settings
  | [] => .run settings
  | path :: rest =>
      match settings.addPath? path with
      | some settings => settings.readPaths rest
      | none => .misuse

/-- The settings after further arguments. -/
def read (verb : Verb) (settings : Settings) : List String → Invocation Settings
  | [] => .run settings
  | text :: rest =>
      match Argument.classify verb text with
      | .path path =>
          match settings.addPath? path with
          | some settings => settings.read verb rest
          | none => .misuse
      | .valued option value =>
          match settings.addOption? option value with
          | some settings => settings.read verb rest
          | none => .misuse
      | .pending option =>
          match rest with
          | [] => .misuse
          | value :: rest =>
              if Argument.isDashed value then .misuse
              else
                match settings.addOption? option value with
                | some settings => settings.read verb rest
                | none => .misuse
      | .pretty =>
          match settings.addPretty? with
          | some settings => settings.read verb rest
          | none => .misuse
      | .endOfOptions => settings.readPaths rest
      | .help => .help
      | .unknown => .misuse

/-- The command with the given settings; there has to be a document. -/
def command (verb : Verb) (settings : Settings) : Invocation Command :=
  match settings.spec with
  | none => .misuse
  | some spec =>
      let input : Input := ⟨spec, settings.overlay, settings.validators⟩
      match verb with
      | .compile => .run (.compile input settings.type settings.output settings.pretty)
      | .types => .run (.types input)

end Settings

namespace Invocation

/-- The request of the arguments behind a command. -/
def ofVerb (verb : Verb) (arguments : List String) : Invocation Command :=
  match Settings.read verb {} arguments with
  | .run settings => settings.command verb
  | .help => .help
  | .version => .version
  | .misuse => .misuse

/-- The request of the arguments behind `help`: at most one, the name of a command. -/
def ofHelp : List String → Invocation Command
  | [] => .help
  | [name] => if ["compile", "types", "help"].contains name then .help else .misuse
  | _ => .misuse

/-- Whether an argument is a short option with the given letter. -/
def isShort (letter : Char) (text : String) : Bool :=
  match text.toList with
  | '-' :: first :: _ => first == letter
  | _ => false

/-- **What a command line asks for.** -/
def ofArguments : List String → Invocation Command
  | [] => .misuse
  | first :: rest =>
      if first = "compile" then ofVerb .compile rest
      else if first = "types" then ofVerb .types rest
      else if first = "help" then ofHelp rest
      else if first = "--version" || isShort 'V' first then .version
      else if first = "--help" || isShort 'h' first then .help
      else .misuse

end Invocation

end StoreSchema
