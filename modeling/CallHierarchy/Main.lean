import CallHierarchy.Command.Tools
import CallHierarchy.Snapshot

/-!
# The command line

The standard input holds a snapshot of the project. Everything else is decided
by `Command.Tools.run`; here its outcome is printed, and changed files are written.
-/

namespace CallHierarchy.Command

/-- The rest of a stream. -/
def readAll (stream : IO.FS.Stream) : IO String := do
  let mut text := ""
  repeat
    let line ← stream.getLine
    if line.isEmpty then break
    text := text ++ line
  return text

/-- Prints what a run says, and writes the files that it changed. -/
def Outcome.carryOut (outcome : Outcome) (before : FileSystem) : IO UInt32 := do
  for (path, bytes) in outcome.fileSystem.changedSince before do
    IO.FS.writeBinFile path.text bytes
  IO.print outcome.standardOutput
  IO.eprint outcome.standardError
  return outcome.exitCode.toUInt32

end CallHierarchy.Command

open CallHierarchy in
/-- Runs the program on a snapshot of a project. -/
def main (arguments : List String) : IO UInt32 := do
  match Snapshot.parse? (← Command.readAll (← IO.getStdin)) with
  | none =>
    IO.eprintln "The standard input holds no snapshot of a project."
    return 2
  | some snapshot =>
    let names := [Command.Setting.glob, .config].filterMap Command.Setting.variableName?
    let values ← names.mapM fun name => return (name, ← IO.getEnv name)
    let environment (name : String) : Option String := (values.lookup name).join
    let tools := Command.Tools.standard snapshot.parser
    (tools.run environment snapshot.fileSystem arguments).carryOut snapshot.fileSystem
