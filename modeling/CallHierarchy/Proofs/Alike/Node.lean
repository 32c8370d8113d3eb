import CallHierarchy.Proofs.Alike.Tree
import CallHierarchy.Unit.Entity
import Mathlib.Logic.Function.Basic
import Mathlib.Tactic.SplitIfs

/-!
# Nodes that differ by comments and by the number of their file

The number of a file says where the file stands in a list and nothing about its
text. Two files are alike when the second is the first under another number, with
or without comments inserted into its tree. Nodes of alike files that stand in the
same place are alike, too: they have the same label, and one moves from alike nodes
to alike nodes. The nodes of the second file without a counterpart are the inserted
comments, and nothing that is read off a node notices them.
-/

namespace CallHierarchy

/-- The key under another number of the file. -/
def NodeKey.renumber (numbers : FileId → FileId) (key : NodeKey) : NodeKey :=
  { key with file := numbers key.file }

theorem NodeKey.renumber_injective {numbers : FileId → FileId}
    (injective : Function.Injective numbers) : Function.Injective (NodeKey.renumber numbers) := by
  rintro ⟨file, start, stop, kind⟩ ⟨otherFile, otherStart, otherStop, otherKind⟩ same
  simp only [renumber, NodeKey.mk.injEq] at same ⊢
  exact ⟨injective same.1, same.2⟩

/-- Whether the second file is the first under another number, perhaps with comments inserted. -/
structure SourceFile.Alike (numbers : FileId → FileId) (file other : SourceFile) : Prop where
  number : other.id = numbers file.id
  path : other.path = file.path
  text : other.text = file.text
  root : Commented [] file.root other.root
  ordered : other.root = file.root ∨ other.root.Ordered

theorem SourceFile.Alike.refl (file : SourceFile) : file.Alike (fun number => number) file :=
  ⟨rfl, rfl, rfl, Commented.refl [] file.root, .inl rfl⟩

/-- Which files of two projects stand for each other, and under which numbers. -/
structure Pairing where
  /-- The number in the second project of a file of the first. -/
  numbers : FileId → FileId
  injective : Function.Injective numbers
  pairs : SourceFile → SourceFile → Prop

/-- Every file stands for itself. -/
def Pairing.self : Pairing :=
  ⟨fun number => number, Function.injective_id, Eq⟩

namespace Node

/-- The node of a tree directly below. -/
def child (node : Node) (tree : SyntaxTree) : Node :=
  ⟨node.file, tree, node.tree :: node.around⟩

/-- The labels of the nodes above, the nearest first. -/
def labelsAround (node : Node) : List Label :=
  node.around.map Tree.value

/-- Whether a node is a comment that was inserted into the second of two paired files. -/
structure IsInserted (pairing : Pairing) (node : Node) : Prop
    extends FreshComment node.labelsAround node.tree where
  isPaired : ∃ file, pairing.pairs file node.file
  belowRoot : node.file.root.value ∈ node.labelsAround

theorem children_eq (node : Node) : node.children = node.tree.children.map node.child :=
  rfl

theorem mem_children {node below : Node} :
    below ∈ node.children ↔ ∃ tree ∈ node.tree.children, node.child tree = below :=
  List.mem_map

/-- To prove a property of every node, prove it of a node whose children have it. -/
theorem induction {motive : Node → Prop}
    (step : ∀ node : Node, (∀ child ∈ node.children, motive child) → motive node) (node : Node) :
    motive node := by
  rcases node with ⟨file, tree, around⟩
  induction tree using Tree.induction generalizing around with
  | step label children ih =>
      apply step
      intro child childMem
      rcases mem_children.1 childMem with ⟨tree, treeMem, rfl⟩
      exact ih tree treeMem _

theorem ancestors_child (node : Node) (tree : SyntaxTree) :
    (node.child tree).ancestors = node :: node.ancestors := by
  have sameFile : ∀ around, ancestors.go (node.child tree) around = ancestors.go node around := by
    intro around
    induction around with
    | nil => rfl
    | cons parent around ih => exact congrArg (⟨node.file, parent, around⟩ :: ·) ih
  exact congrArg (node :: ·) (sameFile node.around)

theorem climb_child (node : Node) (tree : SyntaxTree) (kinds : List String) :
    (node.child tree).climb kinds =
      if kinds.contains node.kindName then node.climb kinds else node.child tree := by
  have sameFile : ∀ around lower,
      climb.go (node.child tree) kinds lower around = climb.go node kinds lower around := by
    intro around
    induction around with
    | nil => exact fun lower => rfl
    | cons parent around ih =>
        intro lower
        simp only [climb.go, ih parent]
        rfl
  change climb.go (node.child tree) kinds tree (node.tree :: node.around) = _
  rw [climb.go, sameFile]
  rfl

theorem preorderOfList_eq_flatMap (file : SourceFile) (around trees : List SyntaxTree) :
    preorderOfList file around trees = trees.flatMap (preorderOf file around) := by
  induction trees with
  | nil => rfl
  | cons tree rest ih => rw [preorderOfList, ih, List.flatMap_cons]

theorem preorder_eq (node : Node) :
    node.preorder = node :: node.children.flatMap preorder := by
  rcases node with ⟨file, ⟨label, children⟩, around⟩
  rw [preorder, preorderOf, preorderOfList_eq_flatMap, children_eq, List.flatMap_map]
  rfl

theorem namedPreorderOfList_eq_flatMap (file : SourceFile) (around trees : List SyntaxTree) :
    namedPreorderOfList file around trees =
      (trees.filter (·.value.kind.named)).flatMap (namedPreorderOf file around) := by
  induction trees with
  | nil => rfl
  | cons tree rest ih =>
      rw [namedPreorderOfList, ih, List.filter_cons]
      split <;> rfl

theorem namedChildren_eq (node : Node) :
    node.namedChildren = (node.tree.children.filter (·.value.kind.named)).map node.child := by
  rw [namedChildren, children_eq, List.filter_map]
  rfl

theorem namedPreorder_eq (node : Node) :
    node.namedPreorder = node :: node.namedChildren.flatMap namedPreorder := by
  rw [namedChildren_eq, List.flatMap_map]
  rcases node with ⟨file, ⟨label, children⟩, around⟩
  rw [namedPreorder, namedPreorderOf, namedPreorderOfList_eq_flatMap]
  rfl

namespace IsInserted

variable {pairing : Pairing} {node : Node}
  (inserted : node.IsInserted pairing)

include inserted

theorem kindName : node.kindName = "comment" :=
  congrArg Kind.name inserted.kind

theorem isNamed : node.isNamed = true :=
  congrArg Kind.named inserted.kind

theorem isField (field : String) : node.isField field = false := by
  simp [Node.isField, inserted.field]

theorem children : node.children = [] := by
  rw [children_eq, inserted.leaf, List.map_nil]

theorem namedChildren : node.namedChildren = [] := by
  rw [Node.namedChildren, inserted.children, List.filter_nil]

theorem preorder : node.preorder = [node] := by
  rw [preorder_eq, inserted.children, List.flatMap_nil]

theorem namedPreorder : node.namedPreorder = [node] := by
  rw [namedPreorder_eq, inserted.namedChildren, List.flatMap_nil]

end IsInserted

/-- Whether two nodes stand in the same place of two alike files, which are paired up. -/
inductive Alike (pairing : Pairing) : Node → Node → Prop
  | root {file other : SourceFile} (isPair : pairing.pairs file other)
      (files : file.Alike pairing.numbers other) :
      Alike pairing file.rootNode other.rootNode
  | child {node otherNode : Node} {tree otherTree : SyntaxTree}
      (parents : Alike pairing node otherNode) (isChild : tree ∈ node.tree.children)
      (isOtherChild : otherTree ∈ otherNode.tree.children)
      (commented : Commented (node.child tree).labelsAround tree otherTree)
      (unchanged : otherNode.tree = node.tree → otherTree = tree) :
      Alike pairing (node.child tree) (otherNode.child otherTree)

namespace Alike

variable {pairing : Pairing} {node otherNode : Node}

section

variable (alike : Alike pairing node otherNode)

include alike

theorem isPair : pairing.pairs node.file otherNode.file := by
  induction alike with
  | root isPair => exact isPair
  | child _ _ _ _ _ ih => exact ih

theorem files : node.file.Alike pairing.numbers otherNode.file := by
  induction alike with
  | root _ files => exact files
  | child _ _ _ _ _ ih => exact ih

theorem rootNode : Alike pairing node.file.rootNode otherNode.file.rootNode :=
  .root alike.isPair alike.files

theorem commented : Commented node.labelsAround node.tree otherNode.tree := by
  cases alike with
  | root _ files => exact files.root
  | child _ _ _ commented => exact commented

theorem label : otherNode.tree.value = node.tree.value :=
  alike.commented.value

theorem labelsAround : otherNode.labelsAround = node.labelsAround := by
  induction alike with
  | root => rfl
  | child parents _ _ _ _ ih => exact congrArg₂ List.cons parents.label ih

theorem rootLabel_mem :
    otherNode.file.root.value ∈ otherNode.tree.value :: otherNode.labelsAround := by
  induction alike with
  | root => exact List.mem_cons_self
  | child _ _ _ _ _ ih => exact List.mem_cons_of_mem _ ih

theorem tree_eq_or_ordered : otherNode.tree = node.tree ∨ otherNode.tree.Ordered := by
  induction alike with
  | root _ files => exact files.ordered
  | child _ _ isOtherChild _ unchanged ih =>
      rcases ih with same | ordered
      · exact .inl (unchanged same)
      · exact .inr (ordered.of_mem_children isOtherChild).2.2

theorem tree_eq_of_parent? {parent otherParent : Node} (isParent : node.parent? = some parent)
    (isOtherParent : otherNode.parent? = some otherParent)
    (same : otherParent.tree = parent.tree) : otherNode.tree = node.tree := by
  cases alike with
  | root => simp [SourceFile.rootNode, Node.parent?] at isParent
  | child _ _ _ _ unchanged =>
      cases isParent
      cases isOtherParent
      exact unchanged same

theorem kindName : otherNode.kindName = node.kindName :=
  congrArg (·.kind.name) alike.label

theorem isNamed : otherNode.isNamed = node.isNamed :=
  congrArg (·.kind.named) alike.label

theorem start : otherNode.start = node.start :=
  congrArg Label.start alike.label

theorem stop : otherNode.stop = node.stop :=
  congrArg Label.stop alike.label

theorem isField (field : String) : otherNode.isField field = node.isField field :=
  congrArg (·.field == some field) alike.label

theorem key : otherNode.key = node.key.renumber pairing.numbers := by
  simp only [Node.key, NodeKey.renumber, alike.start, alike.stop, Node.kind, alike.label,
    alike.files.number]

theorem text : otherNode.text = node.text := by
  simp only [Node.text, SourceFile.slice, alike.start, alike.stop, alike.files.text]

theorem line : otherNode.line = node.line := by
  simp only [Node.line, SourceFile.lineAt, alike.start, alike.files.text]

theorem children_of_tree_eq (same : otherNode.tree = node.tree) :
    Interspersed (fun child otherChild => Alike pairing child otherChild ∧
      otherChild.tree = child.tree) (fun _ => False) node.children otherNode.children := by
  rw [children_eq, children_eq, same]
  apply (Interspersed.of_eq node.tree.children).map_of_mem
  · rintro tree isChild _ _ rfl
    exact ⟨.child alike isChild (same ▸ isChild) (.refl _ tree) fun _ => rfl, rfl⟩
  · exact fun _ => False.elim

theorem children :
    Interspersed (Alike pairing) (IsInserted pairing) node.children otherNode.children := by
  by_cases same : otherNode.tree = node.tree
  · exact (alike.children_of_tree_eq same).imp (fun _ _ => And.left) fun _ => False.elim
  · rw [children_eq, children_eq]
    apply alike.commented.children.interspersed.map_of_mem
    · intro tree isChild otherTree isOtherChild commented
      exact .child alike isChild isOtherChild commented fun unchanged => absurd unchanged same
    · intro comment isComment
      rw [← alike.label, ← alike.labelsAround] at isComment
      exact ⟨isComment, ⟨node.file, alike.isPair⟩, alike.rootLabel_mem⟩

theorem namedChildren :
    Interspersed (Alike pairing) (IsInserted pairing) node.namedChildren otherNode.namedChildren :=
  alike.children.filter fun _ _ same => same.isNamed

theorem childAt? (field : String) :
    Option.Rel (Alike pairing) (node.childAt? field) (otherNode.childAt? field) :=
  alike.children.find? (fun _ _ same => same.isField field)
    fun _ inserted => inserted.isField field

theorem firstNamedChild? :
    Option.Rel (Alike pairing) node.firstNamedChild? otherNode.firstNamedChild? := by
  apply alike.namedChildren.find?
  · intro child otherChild same
    rw [same.kindName]
  · intro comment inserted
    simp [inserted.kindName]

theorem hasToken (token : String) : otherNode.hasToken token = node.hasToken token := by
  apply alike.children.any_eq
  · intro child otherChild same
    rw [same.kindName, same.isNamed]
  · intro comment inserted
    simp [inserted.isNamed]

/-- The first construct directly below: no comment is inserted before it. -/
theorem head?_namedChildren : Option.Rel (Alike pairing) node.namedChildren.head?
    otherNode.namedChildren.head? := by
  rw [namedChildren_eq, namedChildren_eq, List.head?_map, List.head?_map, List.head?_filter,
    List.head?_filter]
  refine (alike.commented.children.find?_named.imp_of_mem ?_).map fun _ _ same => same
  intro tree isFirst otherTree isOtherFirst commented
  refine .child alike (List.mem_of_find?_eq_some isFirst)
    (List.mem_of_find?_eq_some isOtherFirst) commented fun same => ?_
  rw [same] at isOtherFirst
  exact Option.some_inj.1 (isOtherFirst.symm.trans isFirst)

/-- The last construct directly below: no comment is inserted after it. -/
theorem getLast?_namedChildren : Option.Rel (Alike pairing) node.namedChildren.getLast?
    otherNode.namedChildren.getLast? := by
  rw [namedChildren_eq, namedChildren_eq, List.getLast?_map, List.getLast?_map]
  refine (alike.commented.children.getLast?_named.imp_of_mem ?_).map fun _ _ same => same
  intro tree isLast otherTree isOtherLast commented
  refine .child alike (List.mem_of_mem_filter (List.mem_of_getLast? isLast))
    (List.mem_of_mem_filter (List.mem_of_getLast? isOtherLast)) commented fun same => ?_
  rw [same] at isOtherLast
  exact Option.some_inj.1 (isOtherLast.symm.trans isLast)

/-- Constructs of a kind other than comments are the same ones directly below alike nodes. -/
theorem filter_namedChildren {kind : String} (notComment : kind ≠ "comment") :
    List.Forall₂ (Alike pairing) (node.namedChildren.filter (·.kindName == kind))
      (otherNode.namedChildren.filter (·.kindName == kind)) := by
  apply alike.namedChildren.forall₂_filter
  · intro child otherChild same
    rw [same.kindName]
  · intro comment inserted
    simp [inserted.kindName, notComment.symm]

theorem find?_namedChildren {kind : String} (notComment : kind ≠ "comment") :
    Option.Rel (Alike pairing) (node.namedChildren.find? (·.kindName == kind))
      (otherNode.namedChildren.find? (·.kindName == kind)) := by
  apply alike.namedChildren.find?
  · intro child otherChild same
    rw [same.kindName]
  · intro comment inserted
    simp [inserted.kindName, notComment.symm]

theorem parent? : Option.Rel (Alike pairing) node.parent? otherNode.parent? := by
  cases alike with
  | root => exact .none
  | child parents => exact .some parents

theorem ancestors : List.Forall₂ (Alike pairing) node.ancestors otherNode.ancestors := by
  induction alike with
  | root => exact .nil
  | child parents _ _ _ _ ih =>
      rw [ancestors_child, ancestors_child]
      exact .cons parents ih

theorem enclosing? (kinds : List String) :
    Option.Rel (Alike pairing) (node.enclosing? kinds) (otherNode.enclosing? kinds) :=
  find?_of_forall₂ alike.ancestors fun _ _ same => congrArg kinds.contains same.kindName

theorem climb (kinds : List String) :
    Alike pairing (node.climb kinds) (otherNode.climb kinds) := by
  induction alike with
  | root isPair files => exact .root isPair files
  | child parents isChild isOtherChild commented unchanged ih =>
      rw [climb_child, climb_child, parents.kindName]
      split
      · exact ih
      · exact .child parents isChild isOtherChild commented unchanged

end

theorem preorder (alike : Alike pairing node otherNode) :
    Interspersed (Alike pairing) (IsInserted pairing) node.preorder otherNode.preorder := by
  induction node using Node.induction generalizing otherNode with
  | step node ih =>
      rw [preorder_eq, preorder_eq]
      refine .keep alike (alike.children.flatMap (fun child childMem _ => ih child childMem) ?_)
      intro comment inserted more moreMem
      rw [inserted.preorder, List.mem_singleton] at moreMem
      exact moreMem ▸ inserted

theorem namedPreorder (alike : Alike pairing node otherNode) :
    Interspersed (Alike pairing) (IsInserted pairing) node.namedPreorder
      otherNode.namedPreorder := by
  induction node using Node.induction generalizing otherNode with
  | step node ih =>
      rw [namedPreorder_eq, namedPreorder_eq]
      refine .keep alike (alike.namedChildren.flatMap ?_ ?_)
      · exact fun child childMem _ => ih child (List.mem_of_mem_filter childMem)
      · intro comment inserted more moreMem
        rw [inserted.namedPreorder, List.mem_singleton] at moreMem
        exact moreMem ▸ inserted

/-- Alike siblings are told apart by their trees on both sides or on neither. -/
theorem tree_eq_iff_of_siblings {parent otherParent first otherFirst : Node}
    (parents : Alike pairing parent otherParent) (alike : Alike pairing node otherNode)
    (isChild : node ∈ parent.children) (isOtherChild : otherNode ∈ otherParent.children)
    (sibling : Alike pairing first otherFirst) (isSibling : first ∈ parent.children)
    (isOtherSibling : otherFirst ∈ otherParent.children) :
    otherFirst.tree = otherNode.tree ↔ first.tree = node.tree := by
  rcases mem_children.1 isChild with ⟨tree, treeMem, rfl⟩
  rcases mem_children.1 isOtherChild with ⟨otherTree, otherMem, rfl⟩
  rcases mem_children.1 isSibling with ⟨firstTree, firstMem, rfl⟩
  rcases mem_children.1 isOtherSibling with ⟨otherFirstTree, otherFirstMem, rfl⟩
  rcases parents.tree_eq_or_ordered with same | ordered
  · rw [alike.tree_eq_of_parent? rfl rfl same, sibling.tree_eq_of_parent? rfl rfl same]
  have empty_eq : ∀ {tree otherTree : SyntaxTree}, otherTree ∈ otherParent.tree.children →
      Alike pairing (parent.child tree) (otherParent.child otherTree) →
      tree.value.stop ≤ tree.value.start → otherTree = tree :=
    fun isOther alike => alike.commented.eq_of_empty (ordered.of_mem_children isOther).2.2
  constructor
  · intro same
    have labels : firstTree.value = tree.value :=
      sibling.label.symm.trans ((congrArg Tree.value same).trans alike.label)
    have parentOrdered := parents.commented.ordered ordered
    rcases parentOrdered.orderedBetween_children.eq_or_empty firstMem treeMem labels with
      same | empty
    · exact same
    · exact (empty_eq otherFirstMem sibling empty).symm.trans
        (same.trans (empty_eq otherMem alike (labels ▸ empty)))
  · intro same
    have labels : otherFirstTree.value = otherTree.value :=
      sibling.label.trans ((congrArg Tree.value same).trans alike.label.symm)
    rcases ordered.orderedBetween_children.eq_or_empty otherFirstMem otherMem labels with
      same | empty
    · exact same
    · have firstEmpty : firstTree.value.stop ≤ firstTree.value.start := sibling.label ▸ empty
      have nodeEmpty : tree.value.stop ≤ tree.value.start := congrArg Tree.value same ▸ firstEmpty
      exact (empty_eq otherFirstMem sibling firstEmpty).trans
        (same.trans (empty_eq otherMem alike nodeEmpty).symm)

section

variable (alike : Alike pairing node otherNode)

include alike

theorem isChildAt (field : String) : otherNode.isChildAt field = node.isChildAt field := by
  cases alike with
  | root => rfl
  | @child node otherNode tree otherTree parents isChild isOtherChild commented unchanged =>
      have alike := child parents isChild isOtherChild commented unchanged
      change (otherNode.childAt? field).any (·.tree = otherTree) =
        (node.childAt? field).any (·.tree = tree)
      rcases (parents.childAt? field).eq_none_or_exists with
        ⟨isNone, otherIsNone⟩ | ⟨first, otherFirst, isFirst, isOtherFirst, sibling⟩
      · rw [isNone, otherIsNone]
        rfl
      · rw [isFirst, isOtherFirst, Option.any_some, Option.any_some, decide_eq_decide]
        exact parents.tree_eq_iff_of_siblings alike (mem_children.2 ⟨tree, isChild, rfl⟩)
          (mem_children.2 ⟨otherTree, isOtherChild, rfl⟩) sibling
          (List.mem_of_find?_eq_some isFirst) (List.mem_of_find?_eq_some isOtherFirst)

theorem isClassMember : otherNode.isClassMember = node.isClassMember :=
  alike.parent?.any_eq fun _ _ same => congrArg (· == "class_body") same.kindName

theorem isConstructor : otherNode.isConstructor = node.isConstructor := by
  have name : (otherNode.childAt? "name").any (fun name =>
        name.kindName == "property_identifier" && name.text == "constructor") =
      (node.childAt? "name").any fun name =>
        name.kindName == "property_identifier" && name.text == "constructor" := by
    apply (alike.childAt? "name").any_eq
    intro name otherName same
    rw [same.kindName, same.text]
  rw [Node.isConstructor, Node.isConstructor, isMethodLike, isMethodLike, alike.kindName,
    alike.isClassMember, name]

theorem isStaticMember : otherNode.isStaticMember = node.isStaticMember := by
  rw [Node.isStaticMember, Node.isStaticMember, alike.kindName, alike.hasToken]

theorem namingContext? :
    Option.Rel (Alike pairing) node.namingContext? otherNode.namingContext? := by
  have value := alike.climb ["parenthesized_expression"]
  rcases value.parent?.eq_none_or_exists with
    ⟨isNone, otherIsNone⟩ | ⟨context, otherContext, isParent, otherIsParent, same⟩
  · simp only [Node.namingContext?, isNone, otherIsNone]
    exact .none
  · have name : (otherContext.childAt? "name").any (·.kindName == "identifier") =
        (context.childAt? "name").any (·.kindName == "identifier") :=
      (same.childAt? "name").any_eq fun _ _ same => congrArg (· == "identifier") same.kindName
    simp only [Node.namingContext?, isParent, otherIsParent, value.isChildAt, same.kindName, name]
    split_ifs
    · exact .none
    all_goals split <;> first | exact .some same | exact .none

theorem declaredName? : Option.Rel (Alike pairing) node.declaredName? otherNode.declaredName? := by
  simp only [Node.declaredName?, alike.kindName]
  split
  all_goals exact alike.childAt? _

theorem isAssignmentTarget : otherNode.isAssignmentTarget = node.isAssignmentTarget := by
  have target := alike.climb ["array", "array_pattern"]
  rw [Node.isAssignmentTarget, Node.isAssignmentTarget, target.isChildAt,
    target.parent?.any_eq fun _ _ same => congrArg (· == "assignment_expression") same.kindName]

end

end Alike
end Node
end CallHierarchy
