import CallHierarchy.Unit.Entity

/-!
# The outline of a file

The outline of a file is the tree of its entities: an entity stands below the
nearest entity around it, and the root of the file is at the top whatever its
kind is. Numbering the outline in preorder gives each entity the number of its
unit and the numbers of the units directly inside it.
-/

namespace CallHierarchy

/-- Entities, each with the entities directly inside it. -/
abbrev Outline := Tree Entity

namespace Outline

mutual

/-- The outermost entities of a tree, each with its outline. -/
def ofTree (file : SourceFile) (around : List SyntaxTree) : SyntaxTree → List Outline
  | .node label children =>
    let inside := ofTrees file (.node label children :: around) children
    match Entity.ofNode? ⟨file, .node label children, around⟩ with
    | some entity => [.node entity inside]
    | none => inside

/-- The outermost entities of a list of sibling trees. -/
def ofTrees (file : SourceFile) (around : List SyntaxTree) : List SyntaxTree → List Outline
  | [] => []
  | tree :: rest => ofTree file around tree ++ ofTrees file around rest

end

/-- The outline of a file. Its root is a file even where the parser found no program. -/
def ofFile (file : SourceFile) : Outline :=
  .node ⟨file.rootNode, .file, none⟩ (ofTrees file [file.root] file.root.children)

/-- The numbers of sibling units, when the first of them has the given number. -/
def rootNumbers (first : UnitId) : List Outline → List UnitId
  | [] => []
  | outline :: rest => first :: rootNumbers (first + outline.size) rest

mutual

/-- The entities of an outline in preorder, with the numbers of the units directly inside. -/
def numbered (first : UnitId) : Outline → List (Entity × List UnitId)
  | .node entity inside =>
    (entity, rootNumbers (first + 1) inside) :: numberedList (first + 1) inside

/-- The entities of sibling outlines in preorder, with the numbers of the units directly inside. -/
def numberedList (first : UnitId) : List Outline → List (Entity × List UnitId)
  | [] => []
  | outline :: rest => numbered first outline ++ numberedList (first + outline.size) rest

end

end Outline

end CallHierarchy
