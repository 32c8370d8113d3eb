import CallHierarchy.Table
import CallHierarchy.Unit.Basic

/-!
# Call graphs

A call graph is a table of units by number, and answers questions about nesting and
calls. The numbers under which units stand in the table are those by which they refer
to each other; in the graph of an analysis, they are the units' own numbers. Numbers
that belong to no unit of the table are allowed everywhere; such references are skipped
wherever units are asked for.
-/

namespace CallHierarchy

/-- The units of some files. -/
structure CallGraph where
  /-- The numbers of the outermost units. -/
  roots : List UnitId
  /-- The units by number, in order. -/
  table : List (UnitId × CodeUnit)
  /-- The paths of the files; a span refers to a file by its position here. -/
  files : List Path
  deriving Repr, Inhabited

namespace CallGraph

/-- The units in order. -/
def units (graph : CallGraph) : List CodeUnit :=
  graph.table.map (·.2)

/-- The unit of a number. -/
def unit? (graph : CallGraph) (id : UnitId) : Option CodeUnit :=
  Table.get? graph.table id

/-- Adds a unit under its own number, in the place of the unit of that number or else last. -/
def insert (graph : CallGraph) (unit : CodeUnit) : CallGraph :=
  { graph with table := Table.set graph.table unit.id unit }

/-- The outermost units. -/
def rootUnits (graph : CallGraph) : List CodeUnit :=
  graph.roots.filterMap graph.unit?

/-- The units directly inside a unit. -/
def children (graph : CallGraph) (unit : CodeUnit) : List CodeUnit :=
  unit.children.filterMap graph.unit?

/-- The units that a unit calls, once for every call. -/
def called (graph : CallGraph) (unit : CodeUnit) : List CodeUnit :=
  unit.calls.filterMap graph.unit?

/-- The number of units. -/
def size (graph : CallGraph) : Nat :=
  graph.table.length

/-- The number of calls. -/
def edgeCount (graph : CallGraph) : Nat :=
  (graph.units.flatMap (·.calls)).length

/-- The units of a name. -/
def named (graph : CallGraph) (name : String) : List CodeUnit :=
  graph.units.filter (·.name == some name)

/-- The units that call a given unit. -/
def callers (graph : CallGraph) (id : UnitId) : List CodeUnit :=
  graph.units.filter (·.calls.contains id)

/-- The path of a file. -/
def file? (graph : CallGraph) (file : FileId) : Option Path :=
  graph.files[file]?

/-- Where a unit stands, for display. -/
def location (graph : CallGraph) (unit : CodeUnit) : String :=
  let path := match graph.file? unit.span.file with
    | some path => path.text
    | none => "?"
  path ++ ":" ++ toString unit.span.line

end CallGraph

end CallHierarchy
