import CallHierarchy.CallGraph.Nesting

/-!
# Call graphs as indented text

Every unit has a line, indented by its depth, followed by a line for each of its
calls and by the units inside it.
-/

namespace CallHierarchy.CallGraph

/-- A unit in words. -/
def describe (graph : CallGraph) (unit : CodeUnit) : String :=
  unit.kind.word ++ " " ++ unit.label ++ " (" ++ graph.location unit ++ ")"

/-- The blanks before a line at a depth. -/
def listingIndent (depth : Nat) : String :=
  String.ofList (List.replicate (2 * depth) ' ')

/-- The line of a unit and the lines of its calls. -/
def unitLines (graph : CallGraph) (depth : Nat) (unit : CodeUnit) : List String :=
  (listingIndent depth ++ graph.describe unit) ::
    (graph.called unit).map fun callee => listingIndent depth ++ "  -> " ++ graph.describe callee

mutual

/-- The lines of a unit and of the units inside it. -/
def listingLines (graph : CallGraph) (depth : Nat) : Tree (UnitId × CodeUnit) → List String
  | .node (_, unit) inside =>
    graph.unitLines depth unit ++ listingLinesOfList graph (depth + 1) inside

/-- The lines of sibling units. -/
def listingLinesOfList (graph : CallGraph) (depth : Nat) :
    List (Tree (UnitId × CodeUnit)) → List String
  | [] => []
  | tree :: rest => listingLines graph depth tree ++ listingLinesOfList graph depth rest

end

/-- The graph as indented text. -/
def listing (graph : CallGraph) : String :=
  String.join ((graph.listingLinesOfList 0 graph.nesting).map (· ++ "\n"))

end CallHierarchy.CallGraph
