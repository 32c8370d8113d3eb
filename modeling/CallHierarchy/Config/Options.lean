import CallHierarchy.Json.Comment
import CallHierarchy.Json.Reader

/-!
# The options of a configuration file

A configuration file is JSON with comments. Of all its options only those are
read that decide where imports lead: `extends`, `baseUrl` and `paths`.
-/

namespace CallHierarchy

/-- The options that one configuration file sets. -/
structure Options where
  /-- The configurations that this one builds on. -/
  parents : List String
  baseUrl : Option String
  paths : Option (List (String × List String))
  deriving DecidableEq, Repr, Inhabited

namespace Options

/-- The fields of a configuration file. An array may leave the second one out. -/
def shape : Json.RecordShape :=
  ⟨["extends", "compilerOptions"], 1⟩

/-- The fields of the compiler options. -/
def compilerShape : Json.RecordShape :=
  ⟨["baseUrl", "paths"], 2⟩

/-- The configurations to build on: none, one, or a list. -/
def readParents? (depth : Nat) : Json → Option (List String)
  | .null => some []
  | .string content => ((Json.string content).text?).map fun parent => [parent]
  | json => json.texts? depth

/-- The path patterns, or nothing for null. -/
def readPaths? (depth : Nat) : Json → Option (Option (List (String × List String)))
  | .null => some none
  | json => (json.dictionary? depth Json.texts?).map some

/-- Reads the compiler options. -/
def readCompiler? (depth : Nat) (json : Json) :
    Option (Option String × Option (List (String × List String))) := do
  match ← json.record? compilerShape depth with
  | (inside, [baseUrl, paths]) =>
    return (← (baseUrl.getD .null).optionalText?, ← readPaths? inside (paths.getD .null))
  | _ => none

/-- Reads the options of a configuration file. Compiler options that are missing set nothing. -/
def ofJson? (depth : Nat) (json : Json) : Option Options := do
  match ← json.record? shape depth with
  | (inside, [parents, compiler]) =>
    let parents ← readParents? inside (parents.getD .null)
    let (baseUrl, paths) ← readCompiler? inside (compiler.getD (.object []))
    return ⟨parents, baseUrl, paths⟩
  | _ => none

/-- How deep the values of a configuration file may nest where they are read. -/
def maxDepth : Nat := 127

/-- Reads the options of a configuration file from its text. -/
def parse? (text : String) : Option Options :=
  (Json.parse? (Json.withoutComments text)).bind (ofJson? maxDepth)

end Options

end CallHierarchy
