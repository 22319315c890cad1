/-
**A working directory of plain files, and commands run in it.**

The directory holds files by name and no directory of its own; it lies in other directories, of
which nothing is known but that they are there.  A path leads to a directory, to a file, to a name
that is still free, through a file as if that were a directory, or out of what there is; and a path
may be too long to lead anywhere, as a whole or in one of its names.  Only a file can be read, and
only a file or a free name can be written.

Main definitions:

* `Path.steps`, `Path.isTooLong` — the steps of a path, and the bound on its size;
* `Directory`, `Directory.locate` — a directory, and where a path leads;
* `Directory.read`, `Directory.write?` — reading and writing;
* `Directory.execute` — **the report of a command line, and the directory after it**.
-/

import StoreSchema.Command.Run
import StoreSchema.Entries

set_option relaxedAutoImplicit false
set_option autoImplicit false

namespace StoreSchema

/-! ### Paths -/

namespace Path

/-- The steps of a path that lead on. -/
def steps (path : String) : List String :=
  ((Text.segments '/' path.toList).map String.ofList).filter fun step => step ≠ "" && step ≠ "."

/-- Whether a path asks for a directory by its end. -/
def endsInDirectory (path : String) : Bool :=
  match (Text.segments '/' path.toList).getLast? with
  | some last => last = [] || last = ['.']
  | none => false

/-- Whether a path starts at the root or above the working directory. -/
def startsOutside (path : String) : Bool :=
  path.toList.head? = some '/' || (steps path).head? = some ".."

/-- Whether a path has more than `4095` bytes. -/
def isTooLong (path : String) : Bool := decide (4095 < path.utf8ByteSize)

/-- Whether a single name has more than `255` bytes. -/
def isLongName (name : String) : Bool := decide (255 < name.utf8ByteSize)

end Path

/-! ### Directories -/

/-- Files by name. -/
structure Directory where
  /-- The files and what they hold. -/
  files : Entries ByteArray

/-- Where a path leads. -/
inductive Location where
  /-- To a directory. -/
  | directory
  /-- To a file. -/
  | file (name : String) (content : ByteArray)
  /-- To a name that is still free. -/
  | free (name : String)
  /-- Through a file, or to a file as if it were a directory. -/
  | beyondFile
  /-- Nowhere, for it is too long or has too long a name in it. -/
  | tooLong
  /-- To a place that does not exist and cannot be made. -/
  | nowhere

namespace Directory

/-- Where a path leads.  A step up from the working directory or from above it leads to a
directory; the first step that is a name decides. -/
def locate (directory : Directory) (path : String) : Location :=
  if Path.isTooLong path then .tooLong
  else
    match (Path.steps path).dropWhile (· = "..") with
    | [] => .directory
    | name :: rest =>
        let isLast := rest.isEmpty && !Path.endsInDirectory path
        if Path.isLongName name then .tooLong
        else if Path.startsOutside path then .nowhere
        else
          match Entries.get? directory.files name with
          | some content => if isLast then .file name content else .beyondFile
          | none => if isLast then .free name else .nowhere

/-- What the file at a path holds. -/
def read (directory : Directory) : Files := fun path =>
  match directory.locate path with
  | .file _ content => .ok content
  | .directory => .error .unreadable
  | .beyondFile => .error .unreadable
  | .tooLong => .error .unreadable
  | .free _ => .error .notFound
  | .nowhere => .error .notFound

/-- The directory after writing the file at a path. -/
def write? (directory : Directory) (path : String) (content : ByteArray) : Option Directory :=
  match directory.locate path with
  | .file name _ => some ⟨Entries.insert directory.files name content⟩
  | .free name => some ⟨Entries.insert directory.files name content⟩
  | _ => none

/-- The report of what a command yields, and the directory after it. -/
def deliver (directory : Directory) : Except Failure Yield → Report × Directory
  | .error failure => (.failure failure, directory)
  | .ok (.shown text) => (.success text, directory)
  | .ok (.saved path text) =>
      match directory.write? path text.toUTF8 with
      | some written => (.success "", written)
      | none => (.failure (.unwritable path), directory)

/-- **The report of a command line, and the directory after it.** -/
def execute (directory : Directory) (arguments : List String) : Report × Directory :=
  match Invocation.ofArguments arguments with
  | .run command => directory.deliver (command.run directory.read)
  | .help => (.success usageText, directory)
  | .version => (.success versionText, directory)
  | .misuse => (.misuse, directory)

end Directory

end StoreSchema
