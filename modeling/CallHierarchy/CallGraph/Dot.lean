import CallHierarchy.CallGraph.Nesting

/-!
# Call graphs in the DOT language

A unit with other units inside it becomes a cluster, in which an invisible node
stands for the unit itself; any other unit is a plain node. All edges follow the
clusters.
-/

namespace CallHierarchy.CallGraph

/-- How a character of a label is written inside quotes. -/
def dotCharacter (character : Char) : List Char :=
  match character with
  | '\\' => ['\\', '\\']
  | '"' => ['\\', '"']
  | '\n' => ['\\', 'n']
  | _ => [character]

/-- How a label is written inside quotes. -/
def dotLabel (label : String) : String :=
  String.ofList (label.toList.flatMap dotCharacter)

/-- The node that stands for a unit. -/
def dotNode (unit : CodeUnit) : String :=
  if unit.children.isEmpty then toString unit.id else toString unit.id ++ "_invisible"

/-- The blanks before a line at a depth. -/
def dotIndent (depth : Nat) : String :=
  String.ofList (List.replicate (4 * depth) ' ')

/-- The label of a unit; an anonymous unit has an empty one. -/
def dotUnitLabel (unit : CodeUnit) : String :=
  "label=\"" ++ dotLabel (unit.name.getD "") ++ "\""

/-- The line of a unit with nothing inside it. -/
def dotLeaf (depth : Nat) (unit : CodeUnit) : String :=
  dotIndent depth ++ "\"" ++ dotNode unit ++ "\" [" ++ dotUnitLabel unit ++
    ", shape=circle, fillcolor=lightblue, fontname=\"Arial\", fontsize=12];"

/-- The lines that open the cluster of a unit. -/
def dotOpening (depth : Nat) (unit : CodeUnit) : List String :=
  [dotIndent depth ++ "subgraph cluster_" ++ toString unit.id ++ " \x7b",
    dotIndent (depth + 1) ++ dotUnitLabel unit ++ ";",
    dotIndent (depth + 1) ++ "color=blue;"]

/-- The lines that close the cluster of the unit of a number. -/
def dotClosing (depth : Nat) (id : UnitId) : List String :=
  [dotIndent (depth + 1) ++ "\"" ++ toString id ++ "_invisible\" [style=invis, label=\"\"];",
    dotIndent depth ++ "\x7d"]

mutual

/-- The lines of a unit and of the units inside it. -/
def dotLines (depth : Nat) : Tree (UnitId × CodeUnit) → List String
  | .node (id, unit) inside =>
    if unit.children.isEmpty then [dotLeaf depth unit]
    else dotOpening depth unit ++ dotLinesOfList (depth + 1) inside ++ dotClosing depth id

/-- The lines of sibling units. -/
def dotLinesOfList (depth : Nat) : List (Tree (UnitId × CodeUnit)) → List String
  | [] => []
  | tree :: rest => dotLines depth tree ++ dotLinesOfList depth rest

end

/-- The lines of a unit's calls. -/
def dotEdges (graph : CallGraph) (unit : CodeUnit) : List String :=
  (graph.called unit).map fun callee =>
    "    \"" ++ dotNode unit ++ "\" -> \"" ++ dotNode callee ++ "\";"

/-- The lines of the graph in the DOT language. -/
def dotDocument (graph : CallGraph) : List String :=
  ["digraph G \x7b", "    rankdir=LR;", "    node [style=filled, color=white];"] ++
    dotLinesOfList 1 graph.nesting ++
    (Tree.preorderList graph.nesting).flatMap (graph.dotEdges ·.2) ++ ["\x7d"]

/-- The graph in the DOT language. -/
def dot (graph : CallGraph) : String :=
  "\n".intercalate graph.dotDocument ++ "\n"

end CallHierarchy.CallGraph
