import CallHierarchy.CallGraph.Nesting
import CallHierarchy.Json.Printer
import CallHierarchy.Json.Reader

/-!
# Call graphs as JSON documents

A document holds the units of a graph twice: as trees, from the outermost units
down, and as a table by number in which units refer to the units inside them by
number. `GraphDocument.json` writes a document and `GraphDocument.ofJson?` reads
one.
-/

namespace CallHierarchy

/-- What both parts of a document say of a unit. -/
structure UnitSummary where
  id : String
  kind : UnitKind
  name : Option String
  calls : List String
  location : String
  deriving DecidableEq, Repr, Inhabited

/-- A unit in the table of a document. -/
structure UnitRecord where
  summary : UnitSummary
  children : List String
  deriving DecidableEq, Repr, Inhabited

/-- The units of a call graph, as trees and as a table. -/
structure GraphDocument where
  roots : List (Tree UnitSummary)
  units : List (String × UnitRecord)

namespace CallGraph

/-- What a document says of a unit. -/
def summary (graph : CallGraph) (unit : CodeUnit) : UnitSummary where
  id := toString unit.id
  kind := unit.kind
  name := unit.name
  calls := unit.calls.map toString
  location := graph.location unit

/-- The document of a graph. Its table has the units by their own numbers. -/
def document (graph : CallGraph) : GraphDocument where
  roots := graph.nesting.map (Tree.map (graph.summary ·.2))
  units := Table.ofEntries (graph.units.map fun unit =>
    (toString unit.id, ⟨graph.summary unit, unit.children.map toString⟩))

end CallGraph

namespace UnitSummary

/-- A list of texts in JSON. -/
def textsJson (texts : List String) : Json :=
  .array (texts.map Json.ofText)

/-- A member of an object. -/
def memberJson (name : String) (value : Json) : List Char × Json :=
  (Json.escape name.toList, value)

/-- A unit in JSON, given what stands for the units inside it. A missing name is left out. -/
def json (summary : UnitSummary) (children : Json) : Json :=
  .object (
    [memberJson "id" (.ofText summary.id), memberJson "type" (.ofText summary.kind.word)] ++
    (summary.name.map fun name => memberJson "name" (.ofText name)).toList ++
    [memberJson "children" children, memberJson "calledModules" (textsJson summary.calls),
      memberJson "location" (.ofText summary.location)])

/-- The fields of a unit. -/
def shape : Json.RecordShape :=
  ⟨["id", "type", "name", "children", "calledModules", "location"], 6⟩

/-- A kind of unit: its word, or an object that has the word as its only key and holds null. -/
def readKind? (depth : Nat) (json : Json) : Option UnitKind :=
  match json with
  | .object _ =>
    match json.members? depth with
    | some (_, [(word, .null)]) => UnitKind.ofWord? word
    | _ => none
  | _ => json.text?.bind UnitKind.ofWord?

/-- Reads a unit: what is said of it, what stands for the units inside it, and the levels left. -/
def read? (depth : Nat) (json : Json) : Option (Nat × UnitSummary × Json) := do
  match ← json.record? shape depth with
  | (inside, [some id, some kind, name, some children, some calls, some location]) =>
    let summary : UnitSummary :=
      { id := ← id.text?
        kind := ← readKind? inside kind
        name := ← (name.getD .null).optionalText?
        calls := ← calls.texts? inside
        location := ← location.text? }
    return (inside, summary, children)
  | _ => none

mutual

/-- A tree of units in JSON. -/
def treeJson : Tree UnitSummary → Json
  | .node summary children => summary.json (.array (treeJsonList children))

/-- Trees of units in JSON. -/
def treeJsonList : List (Tree UnitSummary) → List Json
  | [] => []
  | tree :: rest => treeJson tree :: treeJsonList rest

end

/-- Reads a tree of units. A unit takes one level, the list of units inside it another. -/
def readTree? : Nat → Json → Option (Tree UnitSummary)
  | depth + 2, json => do
    let (inside, summary, children) ← read? (depth + 2) json
    let (_, items) ← children.items? inside
    return .node summary (← items.mapM (readTree? depth))
  | _, _ => none

end UnitSummary

namespace UnitRecord

/-- A unit of the table in JSON. -/
def json (unit : UnitRecord) : Json :=
  unit.summary.json (UnitSummary.textsJson unit.children)

/-- Reads a unit of the table. -/
def read? (depth : Nat) (json : Json) : Option UnitRecord := do
  let (inside, summary, children) ← UnitSummary.read? depth json
  return ⟨summary, ← children.texts? inside⟩

end UnitRecord

namespace GraphDocument

/-- A document in JSON. -/
def json (document : GraphDocument) : Json :=
  .object
    [UnitSummary.memberJson "rootModules" (.array (UnitSummary.treeJsonList document.roots)),
      UnitSummary.memberJson "moduleMap"
        (.object (document.units.map fun (id, unit) => UnitSummary.memberJson id unit.json))]

/-- The fields of a document. -/
def shape : Json.RecordShape :=
  ⟨["rootModules", "moduleMap"], 2⟩

/-- Reads a document whose values nest no deeper than the given number of levels. -/
def ofJson? (depth : Nat) (json : Json) : Option GraphDocument := do
  match ← json.record? shape depth with
  | (inside, [some roots, some units]) =>
    let (below, items) ← roots.items? inside
    return ⟨← items.mapM (UnitSummary.readTree? below), ← units.dictionary? inside UnitRecord.read?⟩
  | _ => none

/-- How deep the values of a document that is read may nest. -/
def maxDepth : Nat := 127

/-- Reads a document from a text. -/
def parse? (text : String) : Option GraphDocument :=
  (Json.parse? text).bind (ofJson? maxDepth)

/-- A document without white space. -/
def compact (document : GraphDocument) : String :=
  String.ofList document.json.compact

/-- A document with every part on its own line. -/
def pretty (document : GraphDocument) : String :=
  String.ofList (document.json.pretty 0 ++ ['\n'])

end GraphDocument

end CallHierarchy
