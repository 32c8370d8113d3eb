import CallHierarchy.FileSystem
import CallHierarchy.Glob.Pattern

/-!
# Paths that fit a glob pattern

A pattern is cut at its slashes, and its parts are followed through the file
system from the root or the working directory on. A part without wildcards is
followed directly; any other part is compared with the names in a directory, in
their order. What is found is listed depth first.
-/

namespace CallHierarchy

namespace FileSystem

/-- A path one name further. A name in the working directory stands by itself. -/
def extend (directory : Path) (name : String) : Path :=
  if directory.components = [.current] then ⟨name⟩ else directory.join ⟨name⟩

/-- The names in a directory with their paths. -/
def children (fileSystem : FileSystem) (directory : Path) : List (String × Path) :=
  (fileSystem.namesIn directory).map fun name => (name, extend directory name)

/-- What is found for all names below a directory, for each before those below it. -/
def below (fileSystem : FileSystem) (visit : String → Path → List Path) : Nat → Path → List Path
  | 0, _ => []
  | depth + 1, directory =>
    (fileSystem.children directory).flatMap fun (name, path) =>
      visit name path ++
        (if fileSystem.isDirectory path then below fileSystem visit depth path else [])

end FileSystem

namespace Glob

/-- A pattern that is ready to be followed. -/
structure Query where
  /-- The directory where the search starts. -/
  start : Path
  parts : List Pattern
  /-- Whether only directories are asked for. -/
  directoriesOnly : Bool

/-- Cuts a text at its slashes. A slash at the end cuts nothing off. -/
def cut (text : List Char) : List (List Char) :=
  let parts := text.splitOn '/'
  if parts.getLast? = some [] then parts.dropLast else parts

/-- Several parts in a row that stand for any number of directories are one. -/
def mergeRecursive : List Pattern → List Pattern
  | [] => []
  | pattern :: rest =>
    match mergeRecursive rest with
    | next :: others =>
      if pattern.isRecursive && next.isRecursive then next :: others else pattern :: next :: others
    | [] => [pattern]

/-- Reads a pattern, first as a whole and then part by part. -/
def Query.parse (pattern : String) : Except PatternError Query := do
  let text := pattern.toList
  let _ ← Pattern.parse text
  let isAbsolute := text.head? = some '/'
  let relative := if isAbsolute then text.tail else text
  let texts := if relative.isEmpty then [[]] else cut relative
  let parts ← texts.mapM Pattern.parse
  return { start := if isAbsolute then ⟨"/"⟩ else ⟨"."⟩
           parts := mergeRecursive parts
           directoriesOnly := text.getLast? = some '/' }

/-- Follows the parts of a pattern from a path on. -/
def follow (fileSystem : FileSystem) (directoriesOnly : Bool) : List Pattern → Path → List Path
  | [], path => if directoriesOnly && !fileSystem.isDirectory path then [] else [path]
  | pattern :: rest, directory =>
    match pattern.literal? with
    | some name =>
      let path := FileSystem.extend directory name
      let isThere :=
        if name = "." ∨ name = ".." then fileSystem.isDirectory directory
        else fileSystem.contains path
      if isThere then follow fileSystem directoriesOnly rest path else []
    | none =>
      if !fileSystem.isDirectory directory then []
      else if pattern.isRecursive then
        match rest with
        | [] =>
          fileSystem.below (fun _ path => if fileSystem.isDirectory path then [path] else [])
            (fileSystem.depth + 1) directory
        | next :: others =>
          fileSystem.below
            (fun name path =>
              if next.fits name then follow fileSystem directoriesOnly others path else [])
            (fileSystem.depth + 1) directory
      else
        let special := if pattern.startsWithDot then ["..", "."].filter pattern.fits else []
        special.flatMap (fun name =>
            follow fileSystem directoriesOnly rest (directory.join ⟨name⟩)) ++
          (fileSystem.children directory).flatMap fun (name, path) =>
            if pattern.fits name then follow fileSystem directoriesOnly rest path else []

/-- The paths that fit a pattern. -/
def search (fileSystem : FileSystem) (pattern : String) : Except PatternError (List Path) := do
  let query ← Query.parse pattern
  return follow fileSystem query.directoriesOnly query.parts query.start

end Glob

end CallHierarchy
