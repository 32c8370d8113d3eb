import CallHierarchy.Json.Reader
import CallHierarchy.Project
import CallHierarchy.Source.Flat
import CallHierarchy.Text.Decimal

/-!
# Snapshots

A snapshot holds everything that a run of the program can read: files, and the
syntax trees that a parser made of their texts.

It is written as a JSON object with two members:

* `workingDirectory`, the path that relative paths are seen from;
* `files`, a list of objects with a `path`, a `text` and, for source files, a
  `tree`, which in turn has its `kinds`, `fields` and `nodes`.
-/

namespace CallHierarchy

/-- The syntax tree of an empty text. -/
def SyntaxTree.empty : SyntaxTree :=
  .node ⟨⟨"program", true⟩, 0, 0, none⟩ []

/-- Files, and the syntax trees of texts in some dialect. -/
structure Snapshot where
  fileSystem : FileSystem
  trees : List (Language × String × SyntaxTree)

namespace Snapshot

/-- A file or directory of a snapshot. -/
structure Entry where
  path : Path
  content : Content
  tree : Option SyntaxTree

/-- The syntax tree of an entry, with the dialect and the text that it belongs to. -/
def Entry.parsed? (entry : Entry) : Option (Language × String × SyntaxTree) :=
  match entry.content, entry.tree with
  | .file bytes, some tree =>
    (String.fromUTF8? bytes).map fun text => (Language.ofPath entry.path, text, tree)
  | _, _ => none

/-- The snapshot with some entries. -/
def ofEntries (workingDirectory : Path) (entries : List Entry) : Snapshot where
  fileSystem :=
    { workingDirectory := workingDirectory
      entries := entries.map fun entry => (Path.resolve entry.path.components, entry.content) }
  trees := entries.filterMap Entry.parsed?

/-- The parser that knows the texts of a snapshot; of any other text it sees nothing. -/
def parser (snapshot : Snapshot) : Parser := fun language text =>
  match snapshot.trees.find? fun (other, source, _) => other == language && source == text with
  | some (_, _, tree) => tree
  | none => SyntaxTree.empty

/-- A snapshot nests no deeper than this: files, a file, its tree and the lists of that. -/
def maxDepth : Nat := 5

/-- The number that is written with digits only. -/
def natural? : Json → Option Nat
  | .number text => Text.decimal? text
  | _ => none

/-- The value of a member that may be missing. -/
def member? (name : String) (json : Json) : Option Json :=
  (json.members? maxDepth).bind fun (_, members) => List.lookup name members

/-- The items of a member that is a list. -/
def list? (name : String) (json : Json) : Option (List Json) :=
  ((member? name json).bind (Json.items? maxDepth)).map (·.2)

/-- The text of a member. -/
def text? (name : String) (json : Json) : Option String :=
  (member? name json).bind Json.text?

/-- Reads a syntax tree. -/
def tree? (json : Json) : Option SyntaxTree := do
  let kinds ← (← list? "kinds" json).mapM Json.text?
  let fields ← (← list? "fields" json).mapM Json.text?
  let numbers ← (← list? "nodes" json).mapM natural?
  SyntaxTree.ofNumbers? (kinds.map Kind.read).toArray fields.toArray numbers

/-- Reads a file and, where it has one, its tree. -/
def entry? (json : Json) : Option Entry := do
  let path ← text? "path" json
  let text ← text? "text" json
  let tree ← match member? "tree" json with
    | none => some none
    | some tree => (tree? tree).map some
  return ⟨⟨path⟩, .file text.toUTF8, tree⟩

/-- Reads a snapshot. -/
def parse? (source : String) : Option Snapshot := do
  let json ← Json.parse? source
  let entries ← (← list? "files" json).mapM entry?
  return ofEntries ⟨← text? "workingDirectory" json⟩ entries

end Snapshot

end CallHierarchy
