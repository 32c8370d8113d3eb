import CallHierarchy.Source.Node
import CallHierarchy.Text.Quoted

/-!
# Scopes, bindings and exports

A scope is named by the key of the node that opens it. A *binding* says what a
name stands for in a scope: a declaration in the same file, or something that
another file exports. An *export* says what another file gets when it asks for a
name.
-/

namespace CallHierarchy

/-- What an import brings in from another file. -/
inductive Imported where
  /-- One exported name; a default import brings in the name `default`. -/
  | item (name : String)
  /-- All exports of the file, under one name. -/
  | everything
  deriving DecidableEq, Repr, Inhabited

/-- Where the meaning of a bound name comes from. -/
inductive Origin where
  /-- The declaration itself. -/
  | here
  /-- The file that a specifier leads to. -/
  | elsewhere (specifier : String) (imported : Imported)
  deriving DecidableEq, Repr, Inhabited

/-- What a name stands for. -/
structure Binding where
  /-- The construct that introduces the name. -/
  declaration : NodeKey
  origin : Origin
  deriving DecidableEq, Repr, Inhabited

/-- A name that a construct introduces into a scope. -/
structure Introduction where
  scope : NodeKey
  name : String
  binding : Binding
  deriving DecidableEq, Repr, Inhabited

/-- What a file offers under a name. -/
inductive Export where
  /-- Whatever a name of the file's top scope stands for. -/
  | topLevel (name : String)
  /-- A declaration that is exported where it stands. -/
  | declaration (key : NodeKey)
  /-- What another file offers under a name. -/
  | forwarded (specifier : String) (name : String)
  /-- All exports of another file, under one name. -/
  | everything (specifier : String)
  deriving DecidableEq, Repr, Inhabited

namespace Scope

/-- The kinds of nodes that receive functions and `var` variables. -/
def functionKinds : List String :=
  ["program", "function_declaration", "generator_function_declaration", "function_expression",
    "generator_function", "arrow_function", "method_definition", "class_static_block"]

/-- The kinds of nodes that receive all other declarations. -/
def blockKinds : List String :=
  functionKinds ++ ["statement_block", "for_statement", "for_in_statement", "catch_clause"]

end Scope

/-- The introduction of a name, given by a node, for a declaration of the same file. -/
def Introduction.ofDeclaration (scope name declaration : Node) : Introduction :=
  ⟨scope.key, name.text, ⟨declaration.key, .here⟩⟩

end CallHierarchy
