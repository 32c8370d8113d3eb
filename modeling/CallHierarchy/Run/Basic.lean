import CallHierarchy.CallGraph.Basic
import CallHierarchy.Unit.Outline

/-!
# Runs of an analysis

A run collects the units of files and, later, their calls. Files can be entered
in any order and more than once; where two units claim the same node or the same
declaration, the newer one wins. The units are therefore kept newest first, and
every look-up takes the first unit that fits.
-/

namespace CallHierarchy

/-- A unit of a run, and what it is found by. -/
structure Entry where
  unit : CodeUnit
  /-- The node that defines the unit. -/
  node : NodeKey
  /-- The construct that names the unit. -/
  declaration : Option NodeKey
  /-- For a constructor, the unit of its class. -/
  constructs : Option UnitId
  deriving DecidableEq, Repr, Inhabited

/-- The state of an analysis. -/
structure Run where
  /-- The units so far, the newest first. -/
  entries : List Entry
  /-- The units of whole files, in the order in which they were entered. -/
  roots : List UnitId
  deriving DecidableEq, Repr, Inhabited

namespace Run

/-- A run that has seen no file. -/
def empty : Run := ⟨[], []⟩

/-- The number of units. -/
def size (run : Run) : Nat :=
  run.entries.length

/-- The number of the next unit. Units are numbered from one. -/
def nextId (run : Run) : UnitId :=
  run.size + 1

/-- The newest unit that a node defines. -/
def unitOfNode? (run : Run) (key : NodeKey) : Option UnitId :=
  (run.entries.find? (·.node == key)).map (·.unit.id)

/-- The newest unit that a declaration names. -/
def unitOfDeclaration? (run : Run) (key : NodeKey) : Option UnitId :=
  (run.entries.find? (·.declaration == some key)).map (·.unit.id)

/-- The newest constructor of a class. -/
def constructorOf? (run : Run) (id : UnitId) : Option UnitId :=
  (run.entries.find? (·.constructs == some id)).map (·.unit.id)

/-- The kind of a unit. -/
def kindOf? (run : Run) (id : UnitId) : Option UnitKind :=
  (run.entries.find? (·.unit.id == id)).map (·.unit.kind)

/-- The unit of the class that a constructor belongs to, if that class has been entered. -/
def constructedUnit? (run : Run) (entity : Entity) : Option UnitId :=
  (entity.constructedClass?.bind (run.unitOfNode? ·.key)).filter
    (run.kindOf? · == some .classDefinition)

/-- Adds the unit of an entity, given the numbers of the units directly inside it. -/
def add (run : Run) (entity : Entity) (children : List UnitId) : Run :=
  let entry : Entry :=
    { unit := entity.unit run.nextId children
      node := entity.node.key
      declaration := entity.declaration.map Node.key
      constructs := run.constructedUnit? entity }
  { run with entries := entry :: run.entries }

/-- Enters a file: adds a unit for the file and one for every entity in it, in source order. -/
def classify (run : Run) (file : SourceFile) : Run :=
  let entered := (Outline.numbered run.nextId (Outline.ofFile file)).foldl
    (fun run (entity, children) => run.add entity children) run
  { entered with roots := run.roots ++ [run.nextId] }

/-- Replaces the calls of a unit. -/
def setCalls (run : Run) (id : UnitId) (calls : List UnitId) : Run :=
  { run with
    entries := run.entries.map fun entry =>
      if entry.unit.id = id then { entry with unit := { entry.unit with calls := calls } }
      else entry }

/-- The units so far, the oldest first. -/
def units (run : Run) : List CodeUnit :=
  (run.entries.map (·.unit)).reverse

/-- The call graph of the units so far. -/
def finish (run : Run) (files : List Path) : CallGraph where
  roots := run.roots
  table := run.units.map fun unit => (unit.id, unit)
  files := files

end Run

end CallHierarchy
