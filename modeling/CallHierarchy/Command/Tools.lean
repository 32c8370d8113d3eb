import CallHierarchy.Command.Arguments
import CallHierarchy.Glob.Search

/-!
# The tools of the program

The tools that the program runs with: the options of its command line, glob patterns over
the names in directories, and errors with their causes on lines of their own.
-/

namespace CallHierarchy.Command

namespace Report

/-- The lines of a text, indented, with a mark before the first. -/
def indented (mark blanks text : String) : List String :=
  match text.toList.splitOn '\n' with
  | [] => []
  | first :: rest =>
    (mark ++ String.ofList first) :: rest.map fun line => blanks ++ String.ofList line

/-- The lines for the causes of an error. Several causes are numbered. -/
def causeLines : List String → List String
  | [] => []
  | [cause] => indented "    " "    " cause
  | causes =>
    causes.zipIdx.flatMap fun (cause, number) =>
      indented ("    " ++ toString number ++ ": ") "       " cause

/-- The text of a report. -/
def text (report : Report) : String :=
  let causes := match report.causes with
    | [] => []
    | causes => ["", "Caused by:"] ++ causeLines causes
  "\n".intercalate (("Error: " ++ report.outermost) :: causes) ++ "\n"

end Report

namespace Tools

/-- The tools of the program, given a parser. -/
def standard (parser : Parser) : Tools where
  parser := parser
  glob fileSystem pattern :=
    match Glob.search fileSystem pattern with
    | .error error => .error error.message
    | .ok paths => .ok (paths.map .ok)
  readArguments environment arguments :=
    (Arguments.parse environment arguments).mapError answer
  help := Command.help
  reportText := Report.text

end Tools

end CallHierarchy.Command
