import CallHierarchy.CallGraph.Document
import CallHierarchy.CallGraph.Dot
import CallHierarchy.CallGraph.Listing

/-!
# Output formats
-/

namespace CallHierarchy

/-- The forms in which a call graph can be written. -/
inductive Format where
  | json
  | dot
  | text
  deriving DecidableEq, Repr, Inhabited

namespace Format

/-- The name of a format. -/
def name : Format → String
  | .json => "json"
  | .dot => "dot"
  | .text => "text"

/-- The format of a name. -/
def ofName? (name : String) : Option Format :=
  [json, dot, text].find? (·.name = name)

/-- A call graph in a format. -/
def write (format : Format) (graph : CallGraph) : String :=
  match format with
  | .json => graph.document.pretty
  | .dot => graph.dot
  | .text => graph.listing

end Format

end CallHierarchy
