import CallHierarchy.Path

/-!
# File systems

A file system is a finite table of files and directories by the names that lead
to them from the root. The directories around an entry exist, and so does the
working directory.

Paths are followed component by component: what a further component follows must
be a directory, and `..` leads to the directory around the one reached so far.
Names have at most 255 bytes, paths fewer than 4096, and neither holds a NUL.
-/

namespace CallHierarchy

/-- Why a file cannot be used. -/
inductive FileError where
  | notFound
  | notDirectory
  | isDirectory
  | nameTooLong
  | nulInName
  | invalidText
  deriving DecidableEq, Repr, Inhabited

/-- The words for an error. -/
def FileError.message : FileError → String
  | .notFound => "No such file or directory (os error 2)"
  | .notDirectory => "Not a directory (os error 20)"
  | .isDirectory => "Is a directory (os error 21)"
  | .nameTooLong => "File name too long (os error 36)"
  | .nulInName => "file name contained an unexpected NUL byte"
  | .invalidText => "stream did not contain valid UTF-8"

/-- What an entry of a file system is. -/
inductive Content where
  | file (bytes : ByteArray)
  | directory
  deriving Inhabited

instance : DecidableEq Content
  | .directory, .directory => isTrue rfl
  | .directory, .file _ => isFalse nofun
  | .file _, .directory => isFalse nofun
  | .file first, .file second =>
    if equal : first.data = second.data then
      isTrue (by cases first; cases second; cases equal; rfl)
    else isFalse fun same => equal (by cases same; rfl)

/-- A finite file system and the directory that relative paths are seen from. -/
structure FileSystem where
  workingDirectory : Path
  /-- The entries, by the names that lead to them from the root. -/
  entries : List (List String × Content)
  deriving Inhabited

namespace FileSystem

/-- The names that lead from the root to the working directory. -/
def workingNames (fileSystem : FileSystem) : List String :=
  Path.resolve fileSystem.workingDirectory.components

/-- What stands at the end of some names. -/
def content? (fileSystem : FileSystem) (names : List String) : Option Content :=
  match fileSystem.entries.find? (·.1 == names) with
  | some (_, content) => some content
  | none =>
    if names.isPrefixOf fileSystem.workingNames ||
        fileSystem.entries.any (fun (path, _) => names.isPrefixOf path)
    then some .directory
    else none

/-- Follows the segments of a path. The place they lead to need not exist. -/
def follow (fileSystem : FileSystem) (names : List String) :
    List String → Except FileError (List String)
  | [] => .ok names
  | segment :: rest =>
    match fileSystem.content? names with
    | none => .error .notFound
    | some (.file _) => .error .notDirectory
    | some .directory =>
      if segment = "" ∨ segment = "." then follow fileSystem names rest
      else if segment = ".." then follow fileSystem names.dropLast rest
      else if segment.utf8ByteSize > 255 then .error .nameTooLong
      else follow fileSystem (names ++ [segment]) rest

/-- The names that a path is followed from. -/
def origin (fileSystem : FileSystem) (path : Path) : List String :=
  if path.isAbsolute then [] else fileSystem.workingNames

/-- What keeps a path from being followed at all. The empty path leads nowhere. -/
def refusal? (path : Path) : Option FileError :=
  if path.text.toList.contains '\x00' then some .nulInName
  else if path.text = "" then some .notFound
  else if path.text.utf8ByteSize ≥ 4096 then some .nameTooLong
  else none

/-- The place that a path leads to. -/
def place (fileSystem : FileSystem) (path : Path) : Except FileError (List String) :=
  match refusal? path with
  | some error => .error error
  | none => fileSystem.follow (fileSystem.origin path) path.segments

/-- What a path leads to. -/
def find (fileSystem : FileSystem) (path : Path) : Except FileError Content :=
  match fileSystem.place path with
  | .error error => .error error
  | .ok names =>
    match fileSystem.content? names with
    | none => .error .notFound
    | some content => .ok content

/-- Whether a path leads to something. -/
def contains (fileSystem : FileSystem) (path : Path) : Bool :=
  match fileSystem.find path with
  | .ok _ => true
  | .error _ => false

/-- Whether a path leads to a file. -/
def isFile (fileSystem : FileSystem) (path : Path) : Bool :=
  match fileSystem.find path with
  | .ok (.file _) => true
  | _ => false

/-- Whether a path leads to a directory. -/
def isDirectory (fileSystem : FileSystem) (path : Path) : Bool :=
  match fileSystem.find path with
  | .ok .directory => true
  | _ => false

/-- The text of a file. -/
def read (fileSystem : FileSystem) (path : Path) : Except FileError String :=
  match fileSystem.find path with
  | .error error => .error error
  | .ok .directory => .error .isDirectory
  | .ok (.file bytes) =>
    match String.fromUTF8? bytes with
    | none => .error .invalidText
    | some text => .ok text

/-- The name that follows some names in a longer list of names. -/
def nextName? : List String → List String → Option String
  | [], name :: _ => some name
  | first :: rest, name :: names => if first = name then nextName? rest names else none
  | _, [] => none

/-- The names in a directory, in the order of their bytes. -/
def namesIn (fileSystem : FileSystem) (path : Path) : List String :=
  match fileSystem.place path with
  | .error _ => []
  | .ok names =>
    (((fileSystem.workingNames :: fileSystem.entries.map (·.1)).filterMap
      (nextName? names)).eraseDups).mergeSort (fun first second => decide (first ≤ second))

/-- No chain of nested directories has more names than this. -/
def depth (fileSystem : FileSystem) : Nat :=
  ((fileSystem.workingNames :: fileSystem.entries.map (·.1)).map List.length).foldl max 0

/--
The place of a file that is to be written. Its directory must be there, and the
path must end in a name that is not the name of a directory. A slash at the end
asks for a directory, whatever the name before it is.
-/
def placeToWrite (fileSystem : FileSystem) (path : Path) : Except FileError (List String) := do
  let segments := path.segments
  let named := (segments.reverse.dropWhile (· = "")).reverse
  if let some error := refusal? path then throw error
  let directory ← fileSystem.follow (fileSystem.origin path) (named.dropLast ++ ["."])
  if named.length ≠ segments.length then throw .isDirectory
  let names ← fileSystem.follow directory named.getLast?.toList
  if fileSystem.content? names = some .directory then throw .isDirectory
  return names

/-- Puts bytes at a place. -/
def put (fileSystem : FileSystem) (names : List String) (bytes : ByteArray) : FileSystem :=
  { fileSystem with
    entries := (names, .file bytes) :: fileSystem.entries.filter (·.1 != names) }

/-- The files of a file system that are not the same in an earlier one. -/
def changedSince (fileSystem earlier : FileSystem) : List (Path × ByteArray) :=
  fileSystem.entries.filterMap fun (names, content) =>
    match content with
    | .file bytes =>
      if earlier.content? names = some content then none else some (Path.ofNames names, bytes)
    | .directory => none

end FileSystem

end CallHierarchy
