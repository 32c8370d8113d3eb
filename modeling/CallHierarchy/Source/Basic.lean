import CallHierarchy.Language
import CallHierarchy.Tree

/-!
# Source files and their syntax trees

A source file comes with its text and the syntax tree that a parser made of it.
Every node of the tree is labelled with its grammar kind, its range of bytes in
the text and the field of its parent under which it stands. Named nodes are the
constructs of the grammar; the others are its tokens, so the construct `class`
and the keyword `class` differ in kind.

A *node key* names a node by value: its file, range and kind. Two lookups that
meet the same construct thus agree without sharing the tree.
-/

namespace CallHierarchy

/-- A file's position in the list of files of a project. -/
abbrev FileId := Nat

/-- A grammar kind: its name, and whether it is a construct or a token of the grammar. -/
structure Kind where
  name : String
  named : Bool
  deriving DecidableEq, Repr, Inhabited

/-- What is known of a syntax node apart from its surroundings. -/
structure Label where
  kind : Kind
  /-- The offset of the node's first byte. -/
  start : Nat
  /-- The offset after the node's last byte. -/
  stop : Nat
  /-- The field of the parent under which the node stands. -/
  field : Option String
  deriving DecidableEq, Repr, Inhabited

/-- A syntax tree. -/
abbrev SyntaxTree := Tree Label

/-- A file, its text and its syntax tree. -/
structure SourceFile where
  id : FileId
  path : Path
  text : String
  root : SyntaxTree

/-- The dialect that the file is read in. -/
def SourceFile.language (file : SourceFile) : Language :=
  Language.ofPath file.path

/-- The text of a range of bytes, empty if the range does not hold whole characters. -/
def SourceFile.slice (file : SourceFile) (start stop : Nat) : String :=
  (String.fromUTF8? (file.text.toUTF8.extract start stop)).getD ""

/-- The line on which an offset lies, counted from one. -/
def SourceFile.lineAt (file : SourceFile) (offset : Nat) : Nat :=
  (file.text.toUTF8.extract 0 offset).data.toList.count 10 + 1

/-- A node by value. -/
structure NodeKey where
  file : FileId
  start : Nat
  stop : Nat
  kind : Kind
  deriving DecidableEq, Repr, Inhabited

end CallHierarchy
