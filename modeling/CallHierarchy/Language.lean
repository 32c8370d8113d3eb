import CallHierarchy.Path

/-!
# Source languages

The dialects whose syntax trees are analysed. A file's dialect is read off its
extension; letter case does not matter there.
-/

namespace CallHierarchy

/-- A dialect of the analysed language. -/
inductive Language where
  | typeScript
  | tsx
  | javaScript
  deriving DecidableEq, Repr, Inhabited

namespace Language

/-- The name under which a dialect is reported. -/
def name : Language → String
  | .typeScript => "TypeScript"
  | .tsx => "TSX"
  | .javaScript => "JavaScript"

/--
The dialect of an extension. No letter outside the Latin alphabet has one of the
letters of these extensions as its lower case, so lowering those is enough.
-/
def ofExtension? (extension : String) : Option Language :=
  match String.ofList (extension.toList.map Char.toLower) with
  | "ts" | "mts" | "cts" => some .typeScript
  | "tsx" => some .tsx
  | "js" | "jsx" | "mjs" | "cjs" => some .javaScript
  | _ => none

/-- The dialect of a file, by the extension of its path. -/
def ofPath? (path : Path) : Option Language :=
  path.extension?.bind ofExtension?

/-- The dialect that a file is read in; a file of no known extension is read as TypeScript. -/
def ofPath (path : Path) : Language :=
  (ofPath? path).getD .typeScript

/-- Whether a path names a source file. -/
def isSupported (path : Path) : Bool :=
  (ofPath? path).isSome

end Language

end CallHierarchy
