import CallHierarchy.CallGraph.Basic
import CallHierarchy.Tree

/-!
# The nesting of a call graph

The units of a graph with their numbers, as trees from the outermost units down. A unit
that is listed in several places stands in each of them, and numbers without a unit are
left out. Where no unit lies inside itself, a chain of nested units is no longer
than the list of units, so going that deep reaches everything.
-/

namespace CallHierarchy.CallGraph

/-- A unit with the units inside it, down to the given depth. -/
def nested? (graph : CallGraph) : Nat → UnitId → Option (Tree (UnitId × CodeUnit))
  | 0, _ => none
  | depth + 1, id =>
    (graph.unit? id).map fun unit =>
      .node (id, unit) (unit.children.filterMap (nested? graph depth))

/-- The outermost units with the units inside them. -/
def nesting (graph : CallGraph) : List (Tree (UnitId × CodeUnit)) :=
  graph.roots.filterMap (graph.nested? graph.size)

/-- The numbers listed below a unit, down to the given depth, each before those below it. -/
def descendantsWithin (graph : CallGraph) : Nat → UnitId → List UnitId
  | 0, _ => []
  | depth + 1, id =>
    match graph.unit? id with
    | none => []
    | some unit => unit.children.flatMap fun child => child :: descendantsWithin graph depth child

/-- The numbers listed below a unit, each before those below it. -/
def descendants (graph : CallGraph) (id : UnitId) : List UnitId :=
  graph.descendantsWithin graph.size id

end CallHierarchy.CallGraph
