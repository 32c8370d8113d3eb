import CallHierarchy.Source.Basic

/-!
# Nodes in their surroundings

A `Node` is a subtree together with the file it belongs to and the trees around
it, from its parent up to the root of the file. Moving down puts the current
tree on the list of surrounding trees, moving up takes one off it, so every
neighbour of a node is found without searching.
-/

namespace CallHierarchy

/-- A subtree of a file's syntax tree, seen from where it stands. -/
structure Node where
  file : SourceFile
  tree : SyntaxTree
  /-- The trees around this one, the parent first and the root of the file last. -/
  around : List SyntaxTree

/-- The root of a file. -/
def SourceFile.rootNode (file : SourceFile) : Node :=
  ⟨file, file.root, []⟩

namespace Node

/-- The grammar kind of a node. -/
def kind (node : Node) : Kind :=
  node.tree.value.kind

/-- The name of a node's grammar kind. -/
def kindName (node : Node) : String :=
  node.kind.name

/-- Whether a node is a construct of the grammar, and not a token. -/
def isNamed (node : Node) : Bool :=
  node.kind.named

/-- The offset of a node's first byte. -/
def start (node : Node) : Nat :=
  node.tree.value.start

/-- The offset after a node's last byte. -/
def stop (node : Node) : Nat :=
  node.tree.value.stop

/-- Whether a node is one of those that stand under the given field of the parent. -/
def isField (node : Node) (field : String) : Bool :=
  node.tree.value.field == some field

/-- The node by value. -/
def key (node : Node) : NodeKey :=
  ⟨node.file.id, node.start, node.stop, node.kind⟩

/-- The source text of a node. -/
def text (node : Node) : String :=
  node.file.slice node.start node.stop

/-- The line on which a node starts, counted from one. -/
def line (node : Node) : Nat :=
  node.file.lineAt node.start

/-- The node directly above. -/
def parent? (node : Node) : Option Node :=
  match node.around with
  | [] => none
  | tree :: around => some ⟨node.file, tree, around⟩

/-- The nodes above, the nearest first. -/
def ancestors (node : Node) : List Node :=
  go node.around
where
  go : List SyntaxTree → List Node
    | [] => []
    | tree :: around => ⟨node.file, tree, around⟩ :: go around

/-- The nodes directly below, in source order. -/
def children (node : Node) : List Node :=
  node.tree.children.map fun tree => ⟨node.file, tree, node.tree :: node.around⟩

/-- The constructs directly below. Comments are among them. -/
def namedChildren (node : Node) : List Node :=
  node.children.filter isNamed

/-- The first child under a field. -/
def childAt? (node : Node) (field : String) : Option Node :=
  node.children.find? (·.isField field)

/--
Whether a node is the child that its parent finds under a field. A grammar may put several
children under one field, of which the first is found.
-/
def isChildAt (node : Node) (field : String) : Bool :=
  node.parent?.any fun parent => (parent.childAt? field).any (·.tree = node.tree)

theorem isChildAt_iff {node : Node} {field : String} :
    node.isChildAt field ↔
      ∃ parent, node.parent? = some parent ∧ parent.childAt? field = some node := by
  rcases node with ⟨file, tree, _ | ⟨parent, around⟩⟩
  · simp [isChildAt, parent?]
  · simp only [isChildAt, parent?, Option.any_some, Option.any_eq_true, decide_eq_true_eq,
      Option.some.injEq, exists_eq_left']
    constructor
    · rintro ⟨child, isFound, rfl⟩
      rcases List.mem_map.1 (List.mem_of_find?_eq_some isFound) with ⟨tree, _, rfl⟩
      exact isFound
    · intro isFound
      exact ⟨_, isFound, rfl⟩

/-- The first construct directly below that is not a comment. -/
def firstNamedChild? (node : Node) : Option Node :=
  node.namedChildren.find? (·.kindName ≠ "comment")

/-- Whether a keyword such as `static` or `get` stands directly below. -/
def hasToken (node : Node) (token : String) : Bool :=
  node.children.any fun child => !child.isNamed && child.kindName == token

/-- The nearest node above whose kind is one of those given. -/
def enclosing? (node : Node) (kinds : List String) : Option Node :=
  node.ancestors.find? (kinds.contains ·.kindName)

/-- The outermost node that is reached by going up while the parent is of one of the given kinds. -/
def climb (node : Node) (kinds : List String) : Node :=
  go node.tree node.around
where
  go (tree : SyntaxTree) : List SyntaxTree → Node
    | [] => ⟨node.file, tree, []⟩
    | parent :: around =>
      if kinds.contains parent.value.kind.name then go parent around
      else ⟨node.file, tree, parent :: around⟩

mutual

/-- The nodes of a tree in source order, each before those below it. -/
def preorderOf (file : SourceFile) (around : List SyntaxTree) : SyntaxTree → List Node
  | .node label children =>
    ⟨file, .node label children, around⟩ ::
      preorderOfList file (.node label children :: around) children

/-- The nodes of a list of sibling trees in source order. -/
def preorderOfList (file : SourceFile) (around : List SyntaxTree) : List SyntaxTree → List Node
  | [] => []
  | tree :: rest => preorderOf file around tree ++ preorderOfList file around rest

end

/-- A node and all nodes below it in source order. -/
def preorder (node : Node) : List Node :=
  preorderOf node.file node.around node.tree

mutual

/-- The nodes of a tree that are reached through constructs only, in source order. -/
def namedPreorderOf (file : SourceFile) (around : List SyntaxTree) : SyntaxTree → List Node
  | .node label children =>
    ⟨file, .node label children, around⟩ ::
      namedPreorderOfList file (.node label children :: around) children

/-- The nodes of those sibling trees that are constructs, reached through constructs only. -/
def namedPreorderOfList (file : SourceFile) (around : List SyntaxTree) :
    List SyntaxTree → List Node
  | [] => []
  | tree :: rest =>
    (if tree.value.kind.named then namedPreorderOf file around tree else []) ++
      namedPreorderOfList file around rest

end

/-- A node and all nodes below it that are reached through constructs only, in source order. -/
def namedPreorder (node : Node) : List Node :=
  namedPreorderOf node.file node.around node.tree

end Node

end CallHierarchy
