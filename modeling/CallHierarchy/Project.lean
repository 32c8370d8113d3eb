import CallHierarchy.Config.Load
import CallHierarchy.Run.Calls
import CallHierarchy.Symbol.Lookup

/-!
# Projects

A project is a list of parsed source files under a configuration. Files are
given as paths; what lies in a `node_modules` directory is left out, and a file
that is given in several spellings counts once, in its first place.

Syntax trees come from outside: loading takes a parser as a parameter. So do the paths
that fit a glob pattern.
-/

namespace CallHierarchy

/-- Makes a syntax tree of a text. -/
abbrev Parser := Language → String → SyntaxTree

/-- Parsed files, in order, and the configuration that they are analysed under. -/
structure Project where
  config : Config
  files : List SourceFile

/--
Finds the paths that fit a pattern, one after the other. The pattern may be refused, and a
directory on the way to a path may be unreadable; either error comes in words.
-/
abbrev Globber := FileSystem → String → Except String (List (Except String Path))

/-- Why a glob pattern cannot be used. -/
inductive DiscoveryError where
  | invalidPattern (pattern cause : String)
  | unreadableMatch (pattern cause : String)
  deriving DecidableEq, Repr

namespace DiscoveryError

/-- The words for a pattern that cannot be used. -/
def message : DiscoveryError → String
  | .invalidPattern pattern _ => "Invalid glob pattern " ++ pattern
  | .unreadableMatch pattern _ => "Failed to read glob match for " ++ pattern

/-- The words for what has led to the error. -/
def cause : DiscoveryError → String
  | .invalidPattern _ cause => cause
  | .unreadableMatch _ cause => cause

end DiscoveryError

namespace Project

/-- Whether a path leads through a directory of dependencies. -/
def isDependency (path : Path) : Bool :=
  path.hasName "node_modules"

/-- The files to analyse: absolute paths, each once, and no dependencies. -/
def inputPaths (workingDirectory : Path) (paths : List Path) : List Path :=
  ((paths.map (·.normalize workingDirectory)).filter (!isDependency ·)).eraseDups

/-- The project of some texts. Their paths are taken as given. -/
def ofSources (parser : Parser) (config : Config) (sources : List (Path × String)) : Project where
  config := config
  files := sources.zipIdx.map fun ((path, text), id) =>
    { id := id, path := path, text := text, root := parser (Language.ofPath path) text }

/-- Reads a source file. -/
def readSource (fileSystem : FileSystem) (path : Path) : Except ProjectError (Path × String) :=
  match fileSystem.read path with
  | .error error => .error (.unreadableSource path error)
  | .ok text => .ok (path, text)

/-- Loads the files of a project under a given configuration. -/
def loadWith (fileSystem : FileSystem) (parser : Parser) (config : Config) (paths : List Path) :
    Except ProjectError Project := do
  let sources ← (inputPaths fileSystem.workingDirectory paths).mapM (readSource fileSystem)
  return ofSources parser config sources

/-- Loads a project: its configuration first, then its files. -/
def load (fileSystem : FileSystem) (parser : Parser) (paths : List Path) (config : Path) :
    Except ProjectError Project := do
  loadWith fileSystem parser (← Config.load fileSystem config) paths

/-- The files that a pattern stands for: source files outside of dependencies. -/
def globbedFiles (glob : Globber) (fileSystem : FileSystem) (pattern : String) :
    Except DiscoveryError (List Path) :=
  match glob fileSystem pattern with
  | .error cause => .error (.invalidPattern pattern cause)
  | .ok entries => do
    let paths ← entries.mapM fun entry => entry.mapError (.unreadableMatch pattern)
    return paths.filter fun path =>
      fileSystem.isFile path && Language.isSupported path && !isDependency path

/-- The source files among some paths, followed by those that some patterns stand for. -/
def discover (glob : Globber) (fileSystem : FileSystem) (files : List Path)
    (patterns : List String) : Except DiscoveryError (List Path) := do
  let globbed ← patterns.mapM (globbedFiles glob fileSystem)
  return files.filter Language.isSupported ++ globbed.flatten

/-- The symbol table of a project. -/
def symbolTable (project : Project) (workingDirectory : Path) : SymbolTable :=
  SymbolTable.ofFiles workingDirectory project.config project.files

/-- The call graph of a project. -/
def callGraph (project : Project) (workingDirectory : Path) : CallGraph :=
  let table := project.symbolTable workingDirectory
  Run.analyze table.declarations project.files

end Project

end CallHierarchy
