/-
**The command line.**

The outer layer of the program: it reads the files that a command names, runs the command, and
writes its text to the terminal or to a file.
-/

import StoreSchema.Command.Run

set_option relaxedAutoImplicit false
set_option autoImplicit false

namespace StoreSchema

/-- The paths of the files that a command reads. -/
def Command.inputPaths : Command → List String
  | .compile input _ _ _ => input.spec :: input.overlay.toList
  | .types input => input.spec :: input.overlay.toList

/-- The content of a file on disk. -/
def loadFile (path : String) : IO (Except ReadFailure ByteArray) := do
  try
    return .ok (← IO.FS.readBinFile path)
  catch failure =>
    match failure with
    | .noFileOrDirectory .. => return .error .notFound
    | _ => return .error .unreadable

/-- What the files at the given paths hold. -/
def loadFiles (paths : List String) : IO Files := do
  let loaded ← paths.mapM fun path => return (path, ← loadFile path)
  return fun path => (loaded.lookup path).getD (.error .notFound)

/-- Shows a report on the terminal and gives its exit status. -/
def showReport (report : Report) : IO UInt32 := do
  IO.print report.output
  if let some message := report.error then IO.eprintln message
  return report.exitCode.toUInt32

/-- Shows or saves what a command yields. -/
def deliver : Except Failure Yield → IO UInt32
  | .error failure => showReport (.failure failure)
  | .ok (.shown text) => showReport (.success text)
  | .ok (.saved path text) => do
      let written ← try
          IO.FS.writeFile path text
          pure true
        catch _ => pure false
      showReport (if written then .success "" else .failure (.unwritable path))

end StoreSchema

open StoreSchema in
/-- Runs the command line. -/
def main (arguments : List String) : IO UInt32 := do
  match Invocation.ofArguments arguments with
  | .run command => deliver (command.run (← loadFiles command.inputPaths))
  | .help => showReport (.success usageText)
  | .version => showReport (.success versionText)
  | .misuse => do
      IO.eprint usageText
      showReport .misuse
