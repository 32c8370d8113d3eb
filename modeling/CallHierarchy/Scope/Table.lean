import CallHierarchy.Scope.Export
import CallHierarchy.Scope.Introduction

/-!
# The scope table of a file

The table lists what all constructs of a file introduce and export, in source
order. A name is looked up from the inside out: the nearest scope that binds it
decides.
-/

namespace CallHierarchy

/-- What the constructs of a file introduce and export. -/
structure ScopeTable where
  /-- The root of the file, which is its top scope. -/
  top : NodeKey
  introductions : List Introduction
  exports : List (String × Export)
  /-- The files whose exports are offered as a whole. -/
  stars : List String
  deriving Repr, Inhabited

namespace ScopeTable

/-- The scope table of a file. Tokens and what stands below them do not count. -/
def ofFile (file : SourceFile) : ScopeTable :=
  let nodes := file.rootNode.namedPreorder
  { top := file.rootNode.key
    introductions := nodes.flatMap Scope.introductions
    exports := nodes.flatMap Scope.exports
    stars := nodes.filterMap Scope.starExport? }

/-- What a name stands for in a scope, every way in which it was introduced there. -/
def bindings (table : ScopeTable) (scope : NodeKey) (name : String) : List Binding :=
  (table.introductions.filter fun introduction =>
    introduction.scope == scope && introduction.name == name).map (·.binding)

/-- What a name stands for in the top scope. -/
def topBindings (table : ScopeTable) (name : String) : List Binding :=
  table.bindings table.top name

/-- The part of the table that concerns a name. -/
def restrict (table : ScopeTable) (name : String) : ScopeTable :=
  { table with introductions := table.introductions.filter (·.name == name) }

/-- What a name stands for at a node: its bindings in the nearest scope that has some. -/
def visible (table : ScopeTable) (node : Node) (name : String) : List Binding :=
  let part := table.restrict name
  match node.ancestors.find? fun scope => !(part.bindings scope.key name).isEmpty with
  | some scope => part.bindings scope.key name
  | none => []

/-- What the file offers under a name. -/
def offers (table : ScopeTable) (name : String) : List Export :=
  (table.exports.filter (·.1 == name)).map (·.2)

end ScopeTable

end CallHierarchy
