import CallHierarchy.Proofs.Alike.Node
import CallHierarchy.Source.Locate

/-!
# Finding nodes among inserted comments

A key is looked up by going down to the lowest node that holds its range. In a
tree where children stand one after the other, an inserted comment can catch this
descent only in the last step: the range lies in a gap between the children of
the node where the descent ended before. The comment itself never has the key of
an older node, because such a node would be around it. So the climb from there
goes on as before, and every key of the first file finds alike nodes in both.
-/

namespace CallHierarchy

namespace Node

/-- The lowest node, found from a node downwards, that holds a range. -/
def lowest (node : Node) (start stop : Nat) : Node :=
  descend node.file start stop node.around node.tree

/-- Whether a node can hold a range, as far as its end is concerned. -/
def reaches (node : Node) (start stop : Nat) : Bool :=
  !node.tree.value.endsBefore start stop

/-- The node of a key, climbing from a node as long as the range stays the same. -/
def climbTo? (node : Node) (key : NodeKey) : Option Node :=
  (node :: node.ancestors.takeWhile (·.hasRange key)).find? (·.key = key)

theorem nodeAt?_eq (file : SourceFile) (key : NodeKey) :
    file.nodeAt? key = if key.file ≠ file.id ∨ key.stop < key.start then none
      else (file.rootNode.lowest key.start key.stop).climbTo? key :=
  rfl

theorem descendList_eq (start stop : Nat) (node : Node) (trees : List SyntaxTree) :
    descendList node.file start stop node trees =
      match (trees.map node.child).find? (·.reaches start stop) with
      | none => node
      | some child => if start < child.start then node else child.lowest start stop := by
  induction trees with
  | nil => rfl
  | cons tree rest ih =>
      rw [descendList, ih, List.map_cons, List.find?_cons]
      cases ends : tree.value.endsBefore start stop with
      | true => simp [reaches, child, ends]
      | false =>
          simp only [reaches, child, ends, Bool.not_false, Bool.false_eq_true, ↓reduceIte]
          rfl

theorem lowest_eq (node : Node) (start stop : Nat) :
    node.lowest start stop =
      match node.children.find? (·.reaches start stop) with
      | none => node
      | some child => if start < child.start then node else child.lowest start stop := by
  rw [children_eq, ← descendList_eq]
  rcases node with ⟨file, ⟨label, children⟩, around⟩
  rw [lowest, descend]
  rfl

theorem lowest_of_find?_eq_none {node : Node} {start stop : Nat}
    (isNone : node.children.find? (·.reaches start stop) = none) :
    node.lowest start stop = node := by
  rw [lowest_eq, isNone]

theorem lowest_of_find?_eq_some {node below : Node} {start stop : Nat}
    (isFound : node.children.find? (·.reaches start stop) = some below) :
    node.lowest start stop = if start < below.start then node else below.lowest start stop := by
  rw [lowest_eq, isFound]

theorem reaches_iff {start stop : Nat} {node : Node} (nonempty : start < stop) :
    node.reaches start stop ↔ stop ≤ node.stop := by
  simp only [reaches, Label.endsBefore, Node.stop]
  split <;> simp <;> omega

theorem lt_stop_of_reaches {start stop : Nat} {node : Node} (nonempty : node.start < node.stop)
    (isReached : node.reaches start stop) : stop ≤ node.stop ∧ start < node.stop := by
  simp only [reaches, Label.endsBefore, Node.stop, Node.start] at *
  rw [if_neg (by omega)] at isReached
  simpa using isReached

/-- The descent from a node only goes further down. -/
theorem suffix_lowest (node : Node) (start stop : Nat) :
    (node :: node.ancestors) <:+
      (node.lowest start stop :: (node.lowest start stop).ancestors) := by
  induction node using Node.induction with
  | step node ih =>
      cases isFound : node.children.find? (·.reaches start stop) with
      | none =>
          simp only [lowest_of_find?_eq_none isFound, List.suffix_rfl]
      | some below =>
          have belowMem := List.mem_of_find?_eq_some isFound
          rw [lowest_of_find?_eq_some isFound]
          split
          · exact List.suffix_rfl
          · rcases mem_children.1 belowMem with ⟨tree, treeMem, rfl⟩
            have further := ih _ belowMem
            rw [ancestors_child] at further
            exact (List.suffix_cons _ _).trans further

theorem labelsAround_eq (node : Node) : node.labelsAround = node.ancestors.map (·.tree.value) := by
  have go : ∀ around, around.map Tree.value = (ancestors.go node around).map (·.tree.value) := by
    intro around
    induction around with
    | nil => rfl
    | cons tree around ih => exact congrArg (tree.value :: ·) ih
  exact go node.around

namespace Alike

variable {pairing : Pairing} {node otherNode : Node}

theorem ordered (alike : Alike pairing node otherNode) (ordered : otherNode.file.root.Ordered) :
    otherNode.tree.Ordered := by
  induction alike with
  | root => exact ordered
  | child _ _ isOtherChild _ _ ih => exact ((ih ordered).of_mem_children isOtherChild).2.2

theorem reaches (alike : Alike pairing node otherNode) (start stop : Nat) :
    otherNode.reaches start stop = node.reaches start stop := by
  rw [Node.reaches, Node.reaches, alike.label]

/--
The descents from alike nodes end in alike nodes, unless the second is caught by
an inserted comment that holds the range; then it ends right below where it would
have ended.
-/
theorem lowest_or_inserted (alike : Alike pairing node otherNode)
    (ordered : otherNode.file.root.Ordered) (start stop : Nat) :
    Alike pairing (node.lowest start stop) (otherNode.lowest start stop) ∨
    ∃ inner tree, inner.file = otherNode.file ∧ Alike pairing (node.lowest start stop) inner ∧
      otherNode.lowest start stop = inner.child tree ∧ tree ∈ inner.tree.children ∧
      (inner.child tree).IsInserted pairing ∧
      tree.value.start ≤ start ∧ stop ≤ tree.value.stop := by
  induction node using Node.induction generalizing otherNode with
  | step node ih =>
      have apart : otherNode.children.Pairwise fun child later => child.stop ≤ later.start :=
        List.pairwise_map.2 (alike.ordered ordered).orderedBetween_children.pairwise
      have agree : ∀ child otherChild, Alike pairing child otherChild →
          otherChild.reaches start stop = child.reaches start stop :=
        fun _ _ same => same.reaches start stop
      rcases alike.children.find?_or_extra agree apart with
        same | ⟨comment, isFound, inserted, later⟩
      · rcases same.eq_none_or_exists with
          ⟨isNone, otherIsNone⟩ | ⟨child, otherChild, isFound, otherIsFound, same⟩
        · rw [lowest_of_find?_eq_none isNone, lowest_of_find?_eq_none otherIsNone]
          exact .inl alike
        · rw [lowest_of_find?_eq_some isFound, lowest_of_find?_eq_some otherIsFound, same.start]
          by_cases isLater : start < child.start
          · rw [if_pos isLater, if_pos isLater]
            exact .inl alike
          · rw [if_neg isLater, if_neg isLater]
            rcases mem_children.1 (List.mem_of_find?_eq_some otherIsFound) with ⟨tree, -, rfl⟩
            exact ih child (List.mem_of_find?_eq_some isFound) same ordered
      · have isReached := List.find?_some isFound
        rcases lt_stop_of_reaches inserted.nonempty isReached with ⟨before, after⟩
        have stays : node.lowest start stop = node := by
          cases isChild : node.children.find? (·.reaches start stop) with
          | none => exact lowest_of_find?_eq_none isChild
          | some child =>
              rcases later child isChild with ⟨otherChild, same, isLater⟩
              rw [same.start] at isLater
              rw [lowest_of_find?_eq_some isChild, if_pos (by omega)]
        rw [stays, lowest_of_find?_eq_some isFound]
        by_cases isLater : start < comment.start
        · rw [if_pos isLater]
          exact .inl alike
        · rw [if_neg isLater, lowest_of_find?_eq_none (by rw [inserted.children]; rfl)]
          rcases mem_children.1 (List.mem_of_find?_eq_some isFound) with ⟨tree, treeMem, rfl⟩
          exact .inr ⟨otherNode, tree, rfl, alike, rfl, treeMem, inserted, Nat.le_of_not_lt isLater,
            before⟩

/-- The descent for a range inside a node passes through the node. -/
theorem lowest_rootNode (alike : Alike pairing node otherNode)
    (ordered : otherNode.file.root.Ordered) {start stop : Nat} (nonempty : start < stop)
    (inside : node.start ≤ start ∧ stop ≤ node.stop) :
    node.file.rootNode.lowest start stop = node.lowest start stop := by
  induction alike with
  | root => rfl
  | @child node _ tree _ parents isChild _ _ _ ih =>
      have isOrdered := parents.commented.ordered (parents.ordered ordered)
      rcases isOrdered.of_mem_children isChild with ⟨after, before, -⟩
      rcases inside with ⟨startInside, stopInside⟩
      rcases List.append_of_mem isChild with ⟨earlier, later, parts⟩
      have apart := isOrdered.orderedBetween_children.pairwise
      rw [parts, List.pairwise_append] at apart
      have isFound : node.children.find? (·.reaches start stop) = some (node.child tree) := by
        have reached : (node.child tree).reaches start stop := (reaches_iff nonempty).2 stopInside
        rw [children_eq, parts, List.map_append, List.map_cons, List.find?_append,
          List.find?_cons, reached, List.find?_eq_none.2, Option.none_or]
        intro sibling siblingMem
        rcases List.mem_map.1 siblingMem with ⟨siblingTree, treeMem, rfl⟩
        have ended : siblingTree.value.stop ≤ start :=
          Nat.le_trans (apart.2.2 siblingTree treeMem tree List.mem_cons_self) startInside
        rw [reaches_iff nonempty]
        exact Nat.not_le.2 (Nat.lt_of_le_of_lt ended nonempty)
      refine (ih ordered ⟨Nat.le_trans after startInside, Nat.le_trans stopInside before⟩).trans ?_
      rw [lowest_of_find?_eq_some isFound, if_neg (Nat.not_lt.2 startInside)]

/-- A comment inserted where the descent for the range of a node ends is no such node. -/
theorem key_ne_of_isInserted (alike : Alike pairing node otherNode)
    (ordered : otherNode.file.root.Ordered) {inner : Node} {tree : SyntaxTree}
    (isLowest : Alike pairing (node.file.rootNode.lowest node.start node.stop) inner)
    (inserted : (inner.child tree).IsInserted pairing) :
    (inner.child tree).key ≠ node.key.renumber pairing.numbers := by
  intro sameKey
  have sameStart : tree.value.start = node.start := congrArg NodeKey.start sameKey
  have sameStop : tree.value.stop = node.stop := congrArg NodeKey.stop sameKey
  have nonempty : node.start < node.stop := sameStart ▸ sameStop ▸ inserted.nonempty
  have passes := suffix_lowest node node.start node.stop
  rw [← alike.lowest_rootNode ordered nonempty ⟨Nat.le_refl _, Nat.le_refl _⟩] at passes
  have around : node.tree.value ∈ (inner.child tree).labelsAround := by
    have nodeMem := List.mem_map_of_mem (f := (·.tree.value)) (passes.mem List.mem_cons_self)
    rw [List.map_cons, ← labelsAround_eq, ← isLowest.label, ← isLowest.labelsAround] at nodeMem
    exact nodeMem
  exact inserted.fresh node.tree.value around
    (congrArg (fun key : NodeKey => (key.start, key.stop, key.kind)) sameKey).symm

theorem hasRange (alike : Alike pairing node otherNode) (key : NodeKey) :
    otherNode.hasRange (key.renumber pairing.numbers) = node.hasRange key := by
  rw [Node.hasRange, Node.hasRange, alike.start, alike.stop]
  rfl

theorem takeWhile_hasRange (key : NodeKey) {nodes others : List Node}
    (related : List.Forall₂ (Alike pairing) nodes others) :
    List.Forall₂ (Alike pairing) (nodes.takeWhile (·.hasRange key))
      (others.takeWhile (·.hasRange (key.renumber pairing.numbers))) := by
  induction related with
  | nil => exact .nil
  | @cons node otherNode _ _ same _ ih =>
      simp only [List.takeWhile_cons, same.hasRange]
      split
      · exact .cons same ih
      · exact .nil

theorem climbTo? (alike : Alike pairing node otherNode) (key : NodeKey) :
    Option.Rel (Alike pairing) (node.climbTo? key)
      (otherNode.climbTo? (key.renumber pairing.numbers)) := by
  apply find?_of_forall₂ (.cons alike (takeWhile_hasRange key alike.ancestors))
  intro node otherNode same
  rw [same.key, decide_eq_decide]
  exact (NodeKey.renumber_injective pairing.injective).eq_iff

/-- Nothing above a node that holds more than a range has the range. -/
theorem takeWhile_ancestors_eq_nil (alike : Alike pairing node otherNode)
    (ordered : otherNode.file.root.Ordered) {key : NodeKey}
    (holds : node.start ≤ key.start ∧ key.stop ≤ node.stop) (lacks : ¬node.hasRange key) :
    node.ancestors.takeWhile (·.hasRange key) = [] := by
  cases alike with
  | root => rfl
  | @child node _ tree _ parents isChild _ _ _ =>
      have isOrdered := parents.commented.ordered (parents.ordered ordered)
      have inside := isOrdered.of_mem_children isChild
      rw [ancestors_child, List.takeWhile_cons, if_neg]
      intro hasRange
      apply lacks
      simp only [Node.hasRange, Bool.and_eq_true, beq_iff_eq] at hasRange ⊢
      simp only [Node.start, Node.stop, Node.child] at *
      omega

/-- Climbing from an inserted comment is climbing from the node around it. -/
theorem climbTo?_of_isInserted (alike : Alike pairing node otherNode)
    (ordered : otherNode.file.root.Ordered) (key : NodeKey)
    (holds : node.start ≤ key.start ∧ key.stop ≤ node.stop) {tree : SyntaxTree}
    (differs : (otherNode.child tree).key ≠ key.renumber pairing.numbers) :
    Option.Rel (Alike pairing) (node.climbTo? key)
      ((otherNode.child tree).climbTo? (key.renumber pairing.numbers)) := by
  rw [Node.climbTo?.eq_def (otherNode.child tree), ancestors_child, List.takeWhile_cons,
    alike.hasRange, List.find?_cons, decide_eq_false differs]
  by_cases hasRange : node.hasRange key
  · rw [if_pos hasRange]
    exact alike.climbTo? key
  · have notHere : node.key ≠ key := by
      rintro rfl
      simp [Node.hasRange, Node.key] at hasRange
    rw [if_neg hasRange, Node.climbTo?, alike.takeWhile_ancestors_eq_nil ordered holds hasRange,
      List.find?_cons, decide_eq_false notHere]
    exact .none

theorem lowest_of_tree_eq (alike : Alike pairing node otherNode)
    (same : otherNode.tree = node.tree) (start stop : Nat) :
    Alike pairing (node.lowest start stop) (otherNode.lowest start stop) := by
  induction node using Node.induction generalizing otherNode with
  | step node ih =>
      have found := (alike.children_of_tree_eq same).find?
        (fun _ _ same => same.1.reaches start stop) fun _ => False.elim
      rcases found.eq_none_or_exists with
        ⟨isNone, otherIsNone⟩ | ⟨child, otherChild, isFound, otherIsFound, childAlike, sameTree⟩
      · rwa [lowest_of_find?_eq_none isNone, lowest_of_find?_eq_none otherIsNone]
      · rw [lowest_of_find?_eq_some isFound, lowest_of_find?_eq_some otherIsFound,
          childAlike.start]
        split
        · exact alike
        · exact ih child (List.mem_of_find?_eq_some isFound) childAlike sameTree

/-- The keys of alike nodes find alike nodes in alike files. -/
theorem nodeAt? (alike : Alike pairing node otherNode) :
    Option.Rel (Alike pairing) (node.file.nodeAt? node.key)
      (otherNode.file.nodeAt? otherNode.key) := by
  have sameFile : ∀ node : Node,
      (node.key.file ≠ node.file.id ∨ node.key.stop < node.key.start) =
        (node.stop < node.start) := by
    simp [Node.key]
  simp only [nodeAt?_eq, sameFile, alike.start, alike.stop]
  split
  · exact .none
  · rw [alike.key]
    rcases alike.files.ordered with sameRoot | ordered
    · exact (alike.rootNode.lowest_of_tree_eq sameRoot _ _).climbTo? _
    · rcases alike.rootNode.lowest_or_inserted ordered node.start node.stop with
        same | ⟨inner, tree, sameFile, same, isLowest, treeMem, inserted, after, before⟩
      · exact same.climbTo? node.key
      · have innerOrdered : inner.file.root.Ordered := sameFile ▸ ordered
        have inside := (same.ordered innerOrdered).of_mem_children treeMem
        have holds := And.intro (Nat.le_trans inside.1 after) (Nat.le_trans before inside.2.1)
        rw [same.label] at holds
        change Option.Rel _ _ ((otherNode.file.rootNode.lowest node.start node.stop).climbTo? _)
        rw [isLowest]
        exact same.climbTo?_of_isInserted innerOrdered node.key holds
          (alike.key_ne_of_isInserted ordered same inserted)

end Alike
end Node
end CallHierarchy
