import CallHierarchy.Scope.Basic

/-!
# Names in patterns

A destructuring pattern introduces every identifier in binding position, and
each of them is its own declaration. Keys and default values introduce nothing.
-/

namespace CallHierarchy.Scope

mutual

/-- The identifiers that a pattern introduces, in source order. -/
def patternNames (file : SourceFile) (around : List SyntaxTree) : SyntaxTree → List Node
  | .node label children =>
    let inside := Tree.node label children :: around
    match label.kind.name with
    | "identifier" | "shorthand_property_identifier_pattern" =>
      [⟨file, .node label children, around⟩]
    | "pair_pattern" => patternNamesAt file inside "value" children
    | "assignment_pattern" | "object_assignment_pattern" =>
      patternNamesAt file inside "left" children
    | "object_pattern" | "array_pattern" | "rest_pattern" => patternNamesList file inside children
    | _ => []

/-- The identifiers that the child under a field introduces. -/
def patternNamesAt (file : SourceFile) (around : List SyntaxTree) (field : String) :
    List SyntaxTree → List Node
  | [] => []
  | tree :: rest =>
    if tree.value.field == some field then patternNames file around tree
    else patternNamesAt file around field rest

/-- The identifiers that the constructs among some sibling trees introduce. -/
def patternNamesList (file : SourceFile) (around : List SyntaxTree) : List SyntaxTree → List Node
  | [] => []
  | tree :: rest =>
    (if tree.value.kind.named then patternNames file around tree else []) ++
      patternNamesList file around rest

end

/-- What a pattern introduces into a scope. -/
def ofPattern (scope pattern : Node) : List Introduction :=
  (patternNames pattern.file pattern.around pattern.tree).map fun name =>
    .ofDeclaration scope name name

end CallHierarchy.Scope
