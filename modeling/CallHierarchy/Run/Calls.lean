import CallHierarchy.Run.Basic

/-!
# The calls of a file

Every call, construction and property access is an edge from the place where it
is written to the unit that it invokes. The edge belongs to the nearest unit
around that place: edges move up through nodes that define no unit until a unit
claims them, so a unit has just the calls written directly in it.

What a name refers to is not decided here. It is a parameter: any function from
nodes to the declarations that a node may refer to.
-/

namespace CallHierarchy

/-- The declarations that a node may refer to, the most likely first. -/
abbrev Declarations := Node → List NodeKey

namespace Run

/--
The unit that a node invokes by itself. A call takes the first declaration with
a unit; a construction takes the constructor of the first declaration with a
unit; a property access takes the first setter, if it is written to, or else the
first getter.
-/
def edge? (run : Run) (declarations : Declarations) (node : Node) : Option UnitId :=
  match node.kindName with
  | "call_expression" =>
    (node.childAt? "function").bind fun callee =>
      (declarations callee).findSome? run.unitOfDeclaration?
  | "new_expression" =>
    (node.childAt? "constructor").bind fun constructed =>
      ((declarations constructed).findSome? run.unitOfDeclaration?).bind run.constructorOf?
  | "member_expression" =>
    (node.childAt? "property").bind fun property =>
      let accessor := if node.isAssignmentTarget then UnitKind.setter else UnitKind.getter
      ((declarations property).filterMap run.unitOfDeclaration?).find?
        (run.kindOf? · == some accessor)
  | _ => none

/-- How the edges of a piece of source are shared out. -/
structure Attribution where
  /-- The edges that no unit inside the piece has claimed, in source order. -/
  unclaimed : List UnitId
  /-- The units inside the piece with the edges that they claim, inner units before outer ones. -/
  claimed : List (UnitId × List UnitId)
  deriving DecidableEq, Repr

mutual

/-- Shares out the edges of a tree. -/
def shareOut (run : Run) (declarations : Declarations) (file : SourceFile)
    (around : List SyntaxTree) : SyntaxTree → Attribution
  | .node label children =>
    let node : Node := ⟨file, .node label children, around⟩
    let inside := shareOutList run declarations file (.node label children :: around) children
    let edges := (run.edge? declarations node).toList ++ inside.unclaimed
    match run.unitOfNode? node.key with
    | some id => ⟨[], inside.claimed ++ [(id, edges)]⟩
    | none => ⟨edges, inside.claimed⟩

/-- Shares out the edges of a list of sibling trees. -/
def shareOutList (run : Run) (declarations : Declarations) (file : SourceFile)
    (around : List SyntaxTree) : List SyntaxTree → Attribution
  | [] => ⟨[], []⟩
  | tree :: rest =>
    let first := shareOut run declarations file around tree
    let others := shareOutList run declarations file around rest
    ⟨first.unclaimed ++ others.unclaimed, first.claimed ++ others.claimed⟩

end

/-- Finds the calls of a file. Edges outside all units of the run are dropped. -/
def resolve (run : Run) (declarations : Declarations) (file : SourceFile) : Run :=
  (run.shareOut declarations file [] file.root).claimed.foldl
    (fun run (id, calls) => run.setCalls id calls) run

/-- The call graph of some files: all files are entered before any calls are looked for. -/
def analyze (declarations : Declarations) (files : List SourceFile) : CallGraph :=
  let entered := files.foldl classify empty
  let resolved := files.foldl (fun run file => run.resolve declarations file) entered
  resolved.finish (files.map (·.path))

end Run

end CallHierarchy
