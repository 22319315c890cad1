/-
**Running a command.**

A command reads its files, compiles, and yields a text for the terminal or for a file.  What the
files hold is a function that is given to it, so that running a command is a function as well; the
first thing that fails ends it and leaves no output.

Main definitions:

* `ReadFailure`, `Failure` — why a file cannot be read, and why a command fails;
* `Failure.message`, `Failure.exitCode` — the wording of a failure, and its exit status;
* `Yield` — what a command gives out;
* `Command.run` — **what a command yields**.
-/

import StoreSchema.Command.Arguments
import StoreSchema.Compile

set_option relaxedAutoImplicit false
set_option autoImplicit false

namespace StoreSchema

/-- Why a file cannot be read. -/
inductive ReadFailure where
  /-- There is none. -/
  | notFound
  /-- There is something, but it cannot be read as a file. -/
  | unreadable
deriving DecidableEq, Repr

/-- What the files under all paths hold. -/
abbrev Files := String → Except ReadFailure ByteArray

/-- Why a command fails. -/
inductive Failure where
  /-- A file does not exist. -/
  | notFound (path : String)
  /-- A file cannot be read. -/
  | unreadable (path : String)
  /-- An overlay file holds no JSON. -/
  | invalidOverlay (path : String)
  /-- The document does not compile. -/
  | rejected (cause : CompileError)
  /-- The document has no schema of that name. -/
  | unknownType (name : String)
  /-- A file cannot be written. -/
  | unwritable (path : String)
deriving DecidableEq

namespace Failure

/-- The wording of a failure. -/
def message : Failure → String
  | .notFound path => "Error: file not found: " ++ path
  | .unreadable path => "Error: cannot read " ++ path
  | .invalidOverlay path => "Error: invalid overlay " ++ path
  | .rejected cause => "Error: " ++ cause.message
  | .unknownType name => "Error: type \"" ++ name ++ "\" not found in compiled schemas"
  | .unwritable path => "Error writing to " ++ path

/-- The exit status of a failure: `3` when a file or the document is missing, else `2`. -/
def exitCode : Failure → Nat
  | .notFound _ => 3
  | .unreadable _ => 3
  | .invalidOverlay _ => 2
  | .rejected cause => cause.exitCode
  | .unknownType _ => 2
  | .unwritable _ => 3

end Failure

/-- What a command gives out. -/
inductive Yield where
  /-- A text for the terminal. -/
  | shown (text : String)
  /-- A text for the file at a path. -/
  | saved (path text : String)
deriving DecidableEq, Repr

/-- The content of the file at a path. -/
def readFile (files : Files) (path : String) : Except Failure ByteArray :=
  match files path with
  | .ok content => .ok content
  | .error .notFound => .error (.notFound path)
  | .error .unreadable => .error (.unreadable path)

/-- The overlay in the file at a path. -/
def readOverlay (files : Files) (path : String) : Except Failure Json := do
  let content ← readFile files path
  match Source.parseBytes? content with
  | some overlay => return overlay
  | none => throw (.invalidOverlay path)

namespace Input

/-- The options that an input asks for. -/
def options (files : Files) (input : Input) : Except Failure Options := do
  let validators := Validators.permissive input.validators
  match input.overlay with
  | none => return { validators }
  | some path => return { overlay := some (← readOverlay files path), validators }

/-- The schemas of the document that an input names. -/
def schemas (files : Files) (input : Input) : Except Failure Schemas := do
  let content ← readFile files input.spec
  let options ← input.options files
  match compile (.bytes content) options with
  | .ok compilation => return compilation.schemas
  | .error cause => throw (.rejected cause)

end Input

/-- A value in print, on indented lines when `pretty` asks for it. -/
def rendered (pretty : Bool) (value : Json) : String :=
  if pretty then value.pretty else value.compact

/-- The value that is given out: all schemas, or that of the named type. -/
def selected (schemas : Schemas) : Option String → Except Failure Json
  | none => .ok schemas.toJson
  | some name =>
      match schemas.get? name with
      | some schema => .ok schema.toJson
      | none => .error (.unknownType name)

/-- **What a command yields.** -/
def Command.run (files : Files) : Command → Except Failure Yield
  | .compile input type output pretty => do
      let schemas ← input.schemas files
      let value ← selected schemas type
      match output with
      | some path => return .saved path (rendered pretty value)
      | none => return .shown (rendered pretty value ++ "\n")
  | .types input => do
      let schemas ← input.schemas files
      return .shown (String.join (schemas.names.map fun name => name ++ "\n"))

/-! ### Reports -/

/-- What is seen of a command that has ended. -/
structure Report where
  /-- The exit status. -/
  exitCode : Nat
  /-- What was written to the terminal. -/
  output : String
  /-- The wording of the failure. -/
  error : Option String
deriving DecidableEq, Repr

namespace Report

/-- The report of a command that succeeded. -/
def success (output : String) : Report := ⟨0, output, none⟩

/-- The report of a command that failed. -/
def failure (failure : Failure) : Report := ⟨failure.exitCode, "", some failure.message⟩

/-- The report of a command line that makes no sense. -/
def misuse : Report := ⟨2, "", none⟩

end Report

/-- The version of the command. -/
def versionText : String := "docschema 0.3.0\n"

/-- How the command is used. -/
def usageText : String :=
  "Compile Swagger/OpenAPI definitions into document-store schemas\n\n" ++
  "Usage: docschema compile [OPTIONS] <SPEC>\n" ++
  "       docschema types [OPTIONS] <SPEC>\n\n" ++
  "Options:\n" ++
  "      --overlay <FILE>    Overlay with directives for types and fields\n" ++
  "      --validator <NAME>  Accept a validator name (repeatable)\n" ++
  "  -t, --type <NAME>       Only give out the schema of this type (compile)\n" ++
  "      --output <FILE>     Write to a file (compile)\n" ++
  "      --pretty            Print on indented lines (compile)\n" ++
  "  -h, --help              Show this text\n" ++
  "  -V, --version           Show the version\n"

end StoreSchema
