import CallHierarchy.CallGraph.Format
import CallHierarchy.Project

/-!
# Running a command line

A run of the program turns a file system and a command line into what is
printed, an exit code and a file system. The output file is made before the
analysis starts, so it is there, and empty, after an analysis that fails.

How a command line is read, how the paths for a pattern are found and how an error is
put on lines does not matter here: a run is given the tools for that.
-/

namespace CallHierarchy.Command

/-- What a command line asks for. -/
structure Arguments where
  files : List Path
  globs : List String
  config : Path
  output : Option Path
  format : Format
  /-- How many workers may share the work; the result does not depend on it. -/
  jobs : Option Nat
  deriving DecidableEq, Repr

/-- The answer to a command line that asks for no analysis. -/
structure Answer where
  exitCode : Nat
  standardOutput : String
  standardError : String
  deriving DecidableEq, Repr

/-- An error with the errors that led to it, the outermost first. -/
structure Report where
  outermost : String
  causes : List String

/-- What a run makes use of. -/
structure Tools where
  parser : Parser
  glob : Globber
  /-- Reads a command line, given the variables of the environment, or answers it. -/
  readArguments : (String → Option String) → List String → Except Answer Arguments
  /-- What the program does and how it is used. -/
  help : String
  /-- An error on lines. -/
  reportText : Report → String

/-- What a run leaves behind. -/
structure Outcome where
  exitCode : Nat
  standardOutput : String
  standardError : String
  fileSystem : FileSystem

/-- The report of a failed analysis. -/
def analysisReport (error : ProjectError) : Report :=
  ⟨"Call graph analysis failed", error.message :: (error.cause?.map FileError.message).toList⟩

/-- The text that an analysis of some sources gives. -/
def analyze (parser : Parser) (arguments : Arguments) (fileSystem : FileSystem)
    (sources : List Path) : Except ProjectError String := do
  let project ← Project.load fileSystem parser sources arguments.config
  return arguments.format.write (project.callGraph fileSystem.workingDirectory)

namespace Tools

variable (tools : Tools)

/-- A run that fails with a report. -/
def failed (fileSystem : FileSystem) (report : Report) : Outcome :=
  ⟨1, "", tools.reportText report, fileSystem⟩

/-- Analyses some sources and prints the result. -/
def runToOutput (arguments : Arguments) (fileSystem : FileSystem) (sources : List Path) :
    Outcome :=
  match analyze tools.parser arguments fileSystem sources with
  | .error error => tools.failed fileSystem (analysisReport error)
  | .ok text => ⟨0, text, "", fileSystem⟩

/-- Analyses some sources and writes the result to a file. -/
def runToFile (arguments : Arguments) (fileSystem : FileSystem) (sources : List Path)
    (output : Path) : Outcome :=
  match fileSystem.placeToWrite output with
  | .error error => tools.failed fileSystem ⟨"Failed to create " ++ output.text, [error.message]⟩
  | .ok names =>
    let emptied := fileSystem.put names ByteArray.empty
    match analyze tools.parser arguments emptied sources with
    | .error error => tools.failed emptied (analysisReport error)
    | .ok text => ⟨0, "", "", emptied.put names text.toUTF8⟩

/-- Runs a command line. -/
def run (environment : String → Option String) (fileSystem : FileSystem)
    (arguments : List String) : Outcome :=
  match tools.readArguments environment arguments with
  | .error answer =>
    ⟨answer.exitCode, answer.standardOutput, answer.standardError, fileSystem⟩
  | .ok arguments =>
    match Project.discover tools.glob fileSystem arguments.files arguments.globs with
    | .error error => tools.failed fileSystem ⟨error.message, [error.cause]⟩
    | .ok [] =>
      ⟨2, tools.help, "\nNo TypeScript or JavaScript source files given.\n", fileSystem⟩
    | .ok sources =>
      match arguments.output with
      | none => tools.runToOutput arguments fileSystem sources
      | some output => tools.runToFile arguments fileSystem sources output

end Tools

end CallHierarchy.Command
