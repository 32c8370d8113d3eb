import CallHierarchy.Proofs.Alike.Node
import CallHierarchy.Proofs.Run.Invariant

/-!
# The units of alike files

Alike nodes define alike entities, and an inserted comment defines none. So alike files
have outlines of the same shape, and their units are numbered alike: the numbers in the
second file are those in the first, moved up by a constant.
-/

namespace CallHierarchy

variable {pairing : Pairing}

/-- Whether two entities are those of alike nodes. -/
structure Entity.Alike (pairing : Pairing) (entity other : Entity) : Prop where
  node : entity.node.Alike pairing other.node
  kind : other.kind = entity.kind
  declaration : Option.Rel (Node.Alike pairing) entity.declaration other.declaration

namespace Node.Alike

variable {node otherNode : Node} (alike : node.Alike pairing otherNode)

include alike

theorem methodKind : Entity.methodKind otherNode = Entity.methodKind node := by
  rw [Entity.methodKind, Entity.methodKind, alike.isConstructor, alike.hasToken, alike.hasToken]

theorem ofConstruct? : Option.Rel (Entity.Alike pairing) (Entity.ofConstruct? node)
    (Entity.ofConstruct? otherNode) := by
  simp only [Entity.ofConstruct?, alike.kindName, alike.methodKind, alike.isClassMember]
  split
  case h_1 | h_5 => exact .some ⟨alike, rfl, .none⟩
  case h_2 | h_3 => exact .some ⟨alike, rfl, .some alike⟩
  case h_4 =>
    split
    · exact .some ⟨alike, rfl, .some alike⟩
    · exact .none
  case h_6 | h_7 | h_8 | h_12 | h_13 => exact .some ⟨alike, rfl, .some alike⟩
  case h_9 | h_10 | h_11 | h_14 => exact .some ⟨alike, rfl, alike.namingContext?⟩
  case h_15 => exact .none

theorem ofNode? :
    Option.Rel (Entity.Alike pairing) (Entity.ofNode? node) (Entity.ofNode? otherNode) := by
  rw [Entity.ofNode?, Entity.ofNode?, alike.isNamed]
  split
  · exact alike.ofConstruct?
  · exact .none

theorem around_isEmpty : otherNode.around.isEmpty = node.around.isEmpty := by
  cases alike <;> rfl

end Node.Alike

theorem Entity.ofNode?_comment {node : Node} (isComment : node.kind = ⟨"comment", true⟩) :
    ofNode? node = none := by
  have kindName : node.kindName = "comment" := congrArg Kind.name isComment
  rw [ofNode?, ofConstruct?, kindName]
  split <;> rfl

/-- The unit with other numbers of files and of units. -/
def CodeUnit.rename (files : FileId → FileId) (units : UnitId → UnitId) (unit : CodeUnit) :
    CodeUnit where
  id := units unit.id
  kind := unit.kind
  name := unit.name
  children := unit.children.map units
  calls := unit.calls.map units
  span := { unit.span with file := files unit.span.file }

namespace Entity.Alike

variable {entity other : Entity} (alike : entity.Alike pairing other)

include alike

theorem name : other.name = entity.name :=
  (alike.declaration.bind fun _ _ same => same.declaredName?).map_eq fun _ _ same => same.text

theorem unit (units : UnitId → UnitId) (id : UnitId) (children : List UnitId) :
    other.unit (units id) (children.map units) =
      (entity.unit id children).rename pairing.numbers units := by
  have sameNode := alike.node
  have isRoot : other.isRoot = entity.isRoot := sameNode.around_isEmpty
  simp only [Entity.unit, CodeUnit.rename, isRoot, alike.name, alike.kind, sameNode.start,
    sameNode.stop, sameNode.line, sameNode.files.number, sameNode.files.path, List.map_nil]

theorem constructedClass? :
    Option.Rel (Node.Alike pairing) entity.constructedClass? other.constructedClass? := by
  rw [Entity.constructedClass?, Entity.constructedClass?, alike.kind]
  split
  · exact alike.node.parent?.bind fun _ _ same => same.parent?
  · exact .none

end Entity.Alike

/-- Whether two numbered entities are alike and have the same units inside, under other numbers. -/
def NumberedAlike (pairing : Pairing) (units : UnitId → UnitId)
    (item other : Entity × List UnitId) : Prop :=
  item.1.Alike pairing other.1 ∧ other.2 = item.2.map units

/-- Whether two lists of outlines differ by alike entities only. -/
structure OutlinesAlike (pairing : Pairing) (outlines others : List Outline) : Prop where
  size : Tree.sizeList others = Tree.sizeList outlines
  rootNumbers : ∀ first shift, Outline.rootNumbers (first + shift) others =
    (Outline.rootNumbers first outlines).map (· + shift)
  numbered : ∀ first shift, List.Forall₂ (NumberedAlike pairing (· + shift))
    (Outline.numberedList first outlines) (Outline.numberedList (first + shift) others)

namespace OutlinesAlike

theorem nil : OutlinesAlike pairing [] [] :=
  ⟨rfl, fun _ _ => rfl, fun _ _ => .nil⟩

theorem append {outlines others moreOutlines moreOthers : List Outline}
    (first : OutlinesAlike pairing outlines others)
    (second : OutlinesAlike pairing moreOutlines moreOthers) :
    OutlinesAlike pairing (outlines ++ moreOutlines) (others ++ moreOthers) where
  size := by rw [Outline.sizeList_append, Outline.sizeList_append, first.size, second.size]
  rootNumbers number shift := by
    rw [Outline.rootNumbers_append, Outline.rootNumbers_append, first.rootNumbers, first.size,
      Nat.add_right_comm, second.rootNumbers, List.map_append]
  numbered number shift := by
    rw [Outline.numberedList_append, Outline.numberedList_append, first.size,
      Nat.add_right_comm number shift]
    exact List.rel_append (first.numbered number shift) (second.numbered _ shift)

theorem node {entity other : Entity} (entities : entity.Alike pairing other)
    {inside otherInside : List Outline} (alike : OutlinesAlike pairing inside otherInside) :
    OutlinesAlike pairing [.node entity inside] [.node other otherInside] where
  size := by simp only [Tree.sizeList, Tree.size, alike.size]
  rootNumbers number shift := rfl
  numbered number shift := by
    simp only [Outline.numberedList, Outline.numbered, List.append_nil,
      Nat.add_right_comm number shift]
    exact .cons ⟨entities, alike.rootNumbers _ shift⟩ (alike.numbered (number + 1) shift)

theorem flatMap {outlines : Node → List Outline} {nodes others : List Node}
    (related : Interspersed (Node.Alike pairing) (Node.IsInserted pairing) nodes others)
    (agree : ∀ node ∈ nodes, ∀ other, node.Alike pairing other →
      OutlinesAlike pairing (outlines node) (outlines other))
    (ignores : ∀ comment : Node, comment.IsInserted pairing → outlines comment = []) :
    OutlinesAlike pairing (nodes.flatMap outlines) (others.flatMap outlines) := by
  induction related with
  | nil => exact nil
  | @keep node other _ _ same _ ih =>
      rw [List.forall_mem_cons] at agree
      exact (agree.1 other same).append (ih agree.2)
  | @insert comment _ _ inserted _ ih =>
      rw [List.flatMap_cons, ignores comment inserted]
      exact ih agree

end OutlinesAlike

namespace Node

/-- The outermost entities at and below a node, each with its outline. -/
def outlines (node : Node) : List Outline :=
  Outline.ofTree node.file node.around node.tree

theorem ofTrees_eq_flatMap (node : Node) (trees : List SyntaxTree) :
    Outline.ofTrees node.file (node.tree :: node.around) trees =
      (trees.map node.child).flatMap outlines := by
  induction trees with
  | nil => rfl
  | cons tree rest ih =>
      rw [Outline.ofTrees, ih, List.map_cons, List.flatMap_cons]
      rfl

theorem outlines_eq (node : Node) :
    node.outlines = match Entity.ofNode? node with
      | some entity => [.node entity (node.children.flatMap outlines)]
      | none => node.children.flatMap outlines := by
  rw [children_eq, ← ofTrees_eq_flatMap]
  rcases node with ⟨file, ⟨label, children⟩, around⟩
  rfl

theorem IsInserted.outlines {comment : Node} (inserted : comment.IsInserted pairing) :
    comment.outlines = [] := by
  rw [outlines_eq, Entity.ofNode?_comment inserted.kind, inserted.children]
  rfl

theorem Alike.outlines {node otherNode : Node} (alike : node.Alike pairing otherNode) :
    OutlinesAlike pairing node.outlines otherNode.outlines := by
  induction node using Node.induction generalizing otherNode with
  | step node ih =>
      have inside : OutlinesAlike pairing (node.children.flatMap Node.outlines)
          (otherNode.children.flatMap Node.outlines) :=
        .flatMap alike.children (fun child childMem _ => ih child childMem)
          fun _ inserted => inserted.outlines
      rw [outlines_eq node, outlines_eq otherNode]
      rcases alike.ofNode?.eq_none_or_exists with
        ⟨isNone, otherIsNone⟩ | ⟨entity, otherEntity, isEntity, otherIsEntity, entities⟩
      · rw [isNone, otherIsNone]
        exact inside
      · rw [isEntity, otherIsEntity]
        exact .node entities inside

end Node

theorem Outline.ofFile_eq (file : SourceFile) :
    ofFile file =
      .node ⟨file.rootNode, .file, none⟩ (file.rootNode.children.flatMap Node.outlines) := by
  rw [ofFile, Node.children_eq, ← Node.ofTrees_eq_flatMap]
  rfl

/-- Alike files define alike units, under numbers that are moved up by a constant. -/
theorem SourceFile.Alike.numbered {file other : SourceFile} (isPair : pairing.pairs file other)
    (files : file.Alike pairing.numbers other) (first shift : Nat) :
    List.Forall₂ (NumberedAlike pairing (· + shift))
      (Outline.numbered first (Outline.ofFile file))
      (Outline.numbered (first + shift) (Outline.ofFile other)) := by
  have roots : Node.Alike pairing file.rootNode other.rootNode := .root isPair files
  have root : Entity.Alike pairing ⟨file.rootNode, .file, none⟩ ⟨other.rootNode, .file, none⟩ :=
    ⟨roots, rfl, .none⟩
  have inside : OutlinesAlike pairing (file.rootNode.children.flatMap Node.outlines)
      (other.rootNode.children.flatMap Node.outlines) :=
    .flatMap roots.children (fun _ _ _ same => same.outlines) fun _ inserted => inserted.outlines
  have numbered := (OutlinesAlike.node root inside).numbered first shift
  simpa only [Outline.numberedList, List.append_nil, ← Outline.ofFile_eq] using numbered

end CallHierarchy
