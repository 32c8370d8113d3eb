/-!
# Slash-separated paths

A path is kept as it was written, because paths are printed as they were given.
Everything else is decided by its *components*: the root, the current and the
parent directory, and ordinary names. Repeated slashes, a trailing slash and a
`.` that is not the first component of a relative path leave no component.

`Path.normalize` makes a path absolute and folds `.` and `..` away, without
looking at a file system.
-/

namespace CallHierarchy

/-- A path as it was written. -/
structure Path where
  text : String
  deriving DecidableEq, Repr, Inhabited

/-- One step of a path. -/
inductive Component where
  | root
  | current
  | parent
  | name (text : String)
  deriving DecidableEq, Repr

namespace Path

/-- The texts between the slashes of a path, empty ones included. -/
def segments (path : Path) : List String :=
  (path.text.toList.splitOn '/').map String.ofList

/-- An absolute path starts at the root. -/
def isAbsolute (path : Path) : Bool :=
  path.text.toList.head? == some '/'

/-- The component that a segment stands for; empty segments and `.` stand for none. -/
def componentOf? (segment : String) : Option Component :=
  if segment = "" ∨ segment = "." then none
  else if segment = ".." then some .parent
  else some (.name segment)

/-- The components of a path. A relative path that starts with `.` keeps that one. -/
def components (path : Path) : List Component :=
  let steps := path.segments.filterMap componentOf?
  if path.isAbsolute then .root :: steps
  else if path.segments.head? = some "." then .current :: steps
  else steps

/-- How a component is written. -/
def writeComponent : Component → String
  | .root => ""
  | .current => "."
  | .parent => ".."
  | .name text => text

/-- The path with the given components. -/
def ofComponents (components : List Component) : Path :=
  if components = [.root] then ⟨"/"⟩
  else ⟨"/".intercalate (components.map writeComponent)⟩

/-- The absolute path through the given names. -/
def ofNames (names : List String) : Path :=
  ⟨"/" ++ "/".intercalate names⟩

/-- The path without its last component; the root and the empty path have none to drop. -/
def parent? (path : Path) : Option Path :=
  match path.components.getLast? with
  | none | some .root => none
  | some _ => some (ofComponents path.components.dropLast)

/-- The second path, seen from the first; an absolute one stands for itself. -/
def join (directory path : Path) : Path :=
  if path.isAbsolute then path
  else if directory.text = "" then path
  else if directory.text.toList.getLast? = some '/' then ⟨directory.text ++ path.text⟩
  else ⟨directory.text ++ "/" ++ path.text⟩

/-- The last component, if it is a name. -/
def fileName? (path : Path) : Option String :=
  match path.components.getLast? with
  | some (.name text) => some text
  | _ => none

/-- What follows the last dot of a name. A name whose only dot is its first character has none. -/
def extensionOf? (name : String) : Option String :=
  let characters := name.toList.reverse
  match characters.dropWhile (· ≠ '.') with
  | _ :: _ :: _ => some (String.ofList (characters.takeWhile (· ≠ '.')).reverse)
  | _ => none

/-- The extension of the last component, if that is a name with one. -/
def extension? (path : Path) : Option String :=
  path.fileName?.bind extensionOf?

/-- Adds an extension to a path that ends in a name without one. -/
def withDefaultExtension (extension : String) (path : Path) : Path :=
  if path.fileName?.isSome && path.extension?.isNone then ⟨path.text ++ "." ++ extension⟩
  else path

/-- Whether one of the components is the given name. -/
def hasName (name : String) (path : Path) : Bool :=
  path.components.contains (.name name)

/-- One step along a component, from a directory given by its names, innermost first. -/
def walk (names : List String) : Component → List String
  | .root => []
  | .current => names
  | .parent => names.tail
  | .name text => text :: names

/-- The names that lead from the root to the end of a list of components. -/
def resolve (components : List Component) : List String :=
  (components.foldl walk []).reverse

/--
The absolute path without `.` and `..` that a path denotes, seen from a working
directory. `..` at the root stays at the root. The empty path denotes nothing
and is left alone.
-/
def normalize (path workingDirectory : Path) : Path :=
  if path.text = "" then path
  else if path.isAbsolute then ofNames (resolve path.components)
  else ofNames (resolve (workingDirectory.components ++ path.components))

end Path

end CallHierarchy
