import CallHierarchy.Source.Node

/-!
# Finding the node of a key

A key is looked up by its range first: the search goes down the tree as long as
some child can hold the whole range. The node where it stops may share its range
with nodes above it, so the search then climbs until the kind fits too.
-/

namespace CallHierarchy

namespace Label

/-- Whether a node ends too early to hold a range. An empty node holds its own end. -/
def endsBefore (label : Label) (start stop : Nat) : Bool :=
  label.stop < stop || (if label.start = label.stop then label.stop < start else label.stop ≤ start)

end Label

namespace Node

mutual

/-- The lowest node, found from above, that holds a range. -/
def descend (file : SourceFile) (start stop : Nat) (around : List SyntaxTree) :
    SyntaxTree → Node
  | .node label children =>
    descendList file start stop ⟨file, .node label children, around⟩ children

/-- Goes on below the first child that does not end before the range, unless it starts inside. -/
def descendList (file : SourceFile) (start stop : Nat) (node : Node) : List SyntaxTree → Node
  | [] => node
  | tree :: rest =>
    if tree.value.endsBefore start stop then descendList file start stop node rest
    else if start < tree.value.start then node
    else descend file start stop (node.tree :: node.around) tree

end

/-- Whether a node has the range of a key. -/
def hasRange (node : Node) (key : NodeKey) : Bool :=
  node.start == key.start && node.stop == key.stop

end Node

/-- The node that a key names, if the file has it. -/
def SourceFile.nodeAt? (file : SourceFile) (key : NodeKey) : Option Node :=
  if key.file ≠ file.id ∨ key.stop < key.start then none
  else
    let lowest := Node.descend file key.start key.stop [] file.root
    (lowest :: lowest.ancestors.takeWhile (·.hasRange key)).find? (·.key = key)

end CallHierarchy
