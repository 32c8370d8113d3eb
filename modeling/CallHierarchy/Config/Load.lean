import CallHierarchy.Config.Basic
import CallHierarchy.Config.Options
import CallHierarchy.FileSystem

/-!
# Loading configurations

A configuration file can build on others. What it sets itself wins over what
they set, and of several a later one wins over an earlier one. A file that has
been met before is passed over, so files that build on each other in a circle do
no harm.

The steps are the same in every monad in which the options of a file can be read.
The program reads them from a file system and stops at the first error.
-/

namespace CallHierarchy

/-- Why a project cannot be analysed. -/
inductive ProjectError where
  | unreadableConfig (path : Path) (error : FileError)
  | malformedConfig (path : Path)
  | unreadableSource (path : Path) (error : FileError)
  deriving DecidableEq, Repr, Inhabited

namespace ProjectError

/-- The words for an error. -/
def message : ProjectError → String
  | .unreadableConfig path error =>
    "cannot read project configuration " ++ path.text ++ ": " ++ error.message
  | .malformedConfig path => "cannot parse project configuration " ++ path.text
  | .unreadableSource path error => "cannot read source file " ++ path.text ++ ": " ++ error.message

/-- The error of the file system behind an error. -/
def cause? : ProjectError → Option FileError
  | .unreadableConfig _ error | .unreadableSource _ error => some error
  | .malformedConfig _ => none

end ProjectError

namespace Config

/-- A configuration that is being put together, and the files that have been met. -/
structure Loading where
  config : Config
  seen : List Path

/-- Whether a configuration is built on by path. Others belong to packages and are passed over. -/
def isParentPath (parent : String) : Bool :=
  ["./", "../", "/"].any fun start => start.toList.isPrefixOf parent.toList

/-- The directory of a configuration file. -/
def directoryOf (path : Path) : Path :=
  path.parent?.getD ⟨"/"⟩

/-- The files that a configuration file builds on. -/
def parentPaths (workingDirectory path : Path) (options : Options) : List Path :=
  (options.parents.filter isParentPath).map fun parent =>
    ((directoryOf path).join ⟨parent⟩ |>.normalize workingDirectory).withDefaultExtension "json"

/-- Lets the options of a file win over what has been set so far. -/
def override (workingDirectory path : Path) (options : Options) (config : Config) : Config :=
  let directory := directoryOf path
  let config := match options.baseUrl with
    | some baseUrl =>
      { config with baseUrl := some ((directory.join ⟨baseUrl⟩).normalize workingDirectory) }
    | none => config
  match options.paths with
  | some paths => { config with paths := paths, pathsBase := some directory }
  | none => config

/-- Reads the options of a file. -/
def readOptions (fileSystem : FileSystem) (path : Path) : Except ProjectError Options :=
  match fileSystem.read path with
  | .error error => .error (.unreadableConfig path error)
  | .ok text =>
    match Options.parse? text with
    | none => .error (.malformedConfig path)
    | some options => .ok options

/--
Adds a configuration file: first the files that it builds on, then its own
options. The number bounds the length of a chain of files that build on each other.
-/
def mergeVia {m : Type → Type} [Monad m] (workingDirectory : Path) (read : Path → m Options) :
    Nat → Loading → Path → m Loading
  | 0, loading, _ => return loading
  | bound + 1, loading, path =>
    if loading.seen.contains path then return loading
    else do
      let options ← read path
      let loading ← (parentPaths workingDirectory path options).foldlM
        (mergeVia workingDirectory read bound) { loading with seen := path :: loading.seen }
      return { loading with config := override workingDirectory path options loading.config }

/-- Adds a configuration file of a file system. -/
def merge (fileSystem : FileSystem) : Nat → Loading → Path → Except ProjectError Loading :=
  mergeVia fileSystem.workingDirectory (readOptions fileSystem)

/-- Path patterns are seen from the base directory, if there is one. -/
def settle (config : Config) : Config :=
  if config.baseUrl.isSome && config.pathsBase.isSome then
    { config with pathsBase := config.baseUrl }
  else config

/--
Loads a configuration, given how the options of a file are read. A chain of files that build
on each other has no more members than there are files, plus one that cannot be read.
-/
def loadVia {m : Type → Type} [Monad m] (fileSystem : FileSystem) (read : Path → m Options)
    (path : Path) : m Config := do
  let path := path.normalize fileSystem.workingDirectory
  let loading ← mergeVia fileSystem.workingDirectory read (fileSystem.entries.length + 1)
    ⟨{ empty with path := path }, []⟩ path
  return loading.config.settle

/-- Loads a configuration. -/
def load (fileSystem : FileSystem) (path : Path) : Except ProjectError Config :=
  loadVia fileSystem (readOptions fileSystem) path

end Config

end CallHierarchy
