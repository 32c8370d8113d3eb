import CallHierarchy.Proofs.Alike.Locate

/-!
# What keys find

In a tree whose children stand inside their parent, one after the other, the
nodes that share a nonempty range lie above one another: the descent for the
range passes through all of them, and no other node lies between them. The node
that a key finds is therefore the deepest of its range and kind. Where a node has
nothing of its own range and kind below it, its key finds the node itself.

Empty ranges are left out. Two empty siblings can share a range, and then neither
is above the other.
-/

namespace CallHierarchy

namespace Node

/-- A property that is passed down to children holds of a node and all nodes below it. -/
theorem forall_mem_preorder (property : Node → Prop)
    (passesDown : ∀ node tree, tree ∈ node.tree.children → property node →
      property (node.child tree))
    {top : Node} (holds : property top) : ∀ node ∈ top.preorder, property node := by
  induction top using Node.induction with
  | step top ih =>
      intro node nodeMem
      simp only [preorder_eq top, List.mem_cons, List.mem_flatMap] at nodeMem
      rcases nodeMem with rfl | ⟨child, childMem, nodeMem⟩
      · exact holds
      · rcases mem_children.1 childMem with ⟨tree, treeMem, rfl⟩
        exact ih _ childMem (passesDown top tree treeMem holds) node nodeMem

theorem mem_preorder_self (node : Node) : node ∈ node.preorder := by
  simp [preorder_eq node]

theorem child_mem_preorder {top node : Node} {tree : SyntaxTree} (nodeMem : node ∈ top.preorder)
    (treeMem : tree ∈ node.tree.children) : node.child tree ∈ top.preorder := by
  induction top using Node.induction with
  | step top ih =>
      simp only [preorder_eq top, List.mem_cons, List.mem_flatMap] at nodeMem ⊢
      rcases nodeMem with rfl | ⟨child, childMem, nodeMem⟩
      · exact .inr ⟨_, mem_children.2 ⟨tree, treeMem, rfl⟩, mem_preorder_self _⟩
      · exact .inr ⟨child, childMem, ih child childMem nodeMem⟩

theorem lowest_mem_preorder (node : Node) (start stop : Nat) :
    node.lowest start stop ∈ node.preorder := by
  induction node using Node.induction with
  | step node ih =>
      cases isFound : node.children.find? (·.reaches start stop) with
      | none => simp [lowest_of_find?_eq_none isFound, mem_preorder_self]
      | some child =>
          have childMem := List.mem_of_find?_eq_some isFound
          rw [lowest_of_find?_eq_some isFound]
          split
          · exact mem_preorder_self node
          · simp only [preorder_eq node, List.mem_cons, List.mem_flatMap]
            exact .inr ⟨child, childMem, ih child childMem⟩

/-- Whether a range lies inside a node. -/
def Holds (node : Node) (start stop : Nat) : Prop :=
  node.start ≤ start ∧ stop ≤ node.stop

theorem Holds.lowest {node : Node} {start stop : Nat} (holds : node.Holds start stop)
    (nonempty : start < stop) : (node.lowest start stop).Holds start stop := by
  induction node using Node.induction with
  | step node ih =>
      cases isFound : node.children.find? (·.reaches start stop) with
      | none => simpa [lowest_of_find?_eq_none isFound] using holds
      | some child =>
          have reached : child.reaches start stop := by simpa using List.find?_some isFound
          rw [reaches_iff nonempty] at reached
          rw [lowest_of_find?_eq_some isFound]
          split
          · exact holds
          · apply ih child (List.mem_of_find?_eq_some isFound)
            exact ⟨by omega, reached⟩

theorem pairwise_mem_ancestors (node : Node) :
    (node :: node.ancestors).Pairwise fun below above => above ∈ below.ancestors := by
  rcases node with ⟨file, tree, around⟩
  induction around generalizing tree with
  | nil => exact List.pairwise_singleton _ _
  | cons parent around ih =>
      have split := ancestors_child ⟨file, parent, around⟩ tree
      simp only [child] at split
      rw [List.pairwise_cons, split]
      exact ⟨fun _ above => above, ih parent⟩

end Node

namespace SourceFile

/-- The nodes among which a key is looked for, from where the descent for its range ends. -/
def climb (file : SourceFile) (key : NodeKey) : List Node :=
  let lowest := file.rootNode.lowest key.start key.stop
  lowest :: lowest.ancestors.takeWhile (·.hasRange key)

theorem nodeAt?_eq_find?_climb (file : SourceFile) (key : NodeKey) :
    file.nodeAt? key = if key.file ≠ file.id ∨ key.stop < key.start then none
      else (file.climb key).find? (·.key = key) :=
  rfl

theorem climb_sublist (file : SourceFile) (key : NodeKey) :
    (file.climb key).Sublist (file.rootNode.lowest key.start key.stop ::
      (file.rootNode.lowest key.start key.stop).ancestors) :=
  (List.takeWhile_sublist _).cons_cons _

theorem pairwise_climb (file : SourceFile) (key : NodeKey) :
    (file.climb key).Pairwise fun below above => above ∈ below.ancestors :=
  (Node.pairwise_mem_ancestors _).sublist (file.climb_sublist key)

variable {file : SourceFile} {node : Node}

theorem alike_of_mem_preorder (nodeMem : node ∈ file.rootNode.preorder) :
    Node.Alike .self node node := by
  apply Node.forall_mem_preorder (fun node => Node.Alike .self node node) _
    (.root rfl (Alike.refl file)) node nodeMem
  intro node tree treeMem alike
  exact .child alike treeMem treeMem (Commented.refl _ tree) fun _ => rfl

theorem file_of_mem_preorder (nodeMem : node ∈ file.rootNode.preorder) : node.file = file := by
  apply Node.forall_mem_preorder (·.file = file) _ rfl node nodeMem
  intro node tree _ same
  exact same

/-- What stands above a node of a file is a node of the file, and the node is below it. -/
theorem mem_preorder_of_mem_ancestors {above : Node} (nodeMem : node ∈ file.rootNode.preorder)
    (aboveMem : above ∈ node.ancestors) :
    above ∈ file.rootNode.preorder ∧ node ∈ above.preorder.tail := by
  apply (Node.forall_mem_preorder (fun node => node ∈ file.rootNode.preorder ∧
    ∀ above ∈ node.ancestors, above ∈ file.rootNode.preorder ∧ node ∈ above.preorder.tail) _ _
    node nodeMem).2 above aboveMem
  · rintro parent tree treeMem ⟨parentMem, ih⟩
    refine ⟨Node.child_mem_preorder parentMem treeMem, fun above aboveMem => ?_⟩
    rw [Node.ancestors_child, List.mem_cons] at aboveMem
    rcases aboveMem with rfl | aboveMem
    · refine ⟨parentMem, ?_⟩
      rw [Node.preorder_eq, List.tail_cons, List.mem_flatMap]
      exact ⟨_, Node.mem_children.2 ⟨tree, treeMem, rfl⟩, Node.mem_preorder_self _⟩
    · rcases ih above aboveMem with ⟨inFile, below⟩
      refine ⟨inFile, ?_⟩
      rw [Node.preorder_eq, List.tail_cons, List.mem_flatMap] at below ⊢
      rcases below with ⟨child, childMem, parentMem⟩
      exact ⟨child, childMem, Node.child_mem_preorder parentMem treeMem⟩
  · exact ⟨Node.mem_preorder_self _, by simp [Node.ancestors, Node.ancestors.go, rootNode]⟩

section Ordered

variable (ordered : file.root.Ordered)

include ordered

/-- Every node lies inside the nodes above it. -/
theorem pairwise_ancestors (nodeMem : node ∈ file.rootNode.preorder) :
    (node :: node.ancestors).Pairwise fun below above => above.Holds below.start below.stop := by
  refine (Node.forall_mem_preorder (fun node => node.tree.Ordered ∧
    (node :: node.ancestors).Pairwise fun below above => above.Holds below.start below.stop) ?_
    ⟨ordered, List.pairwise_singleton _ _⟩ node nodeMem).2
  rintro parent tree treeMem ⟨isOrdered, nested⟩
  rcases isOrdered.of_mem_children treeMem with ⟨after, before, inside⟩
  refine ⟨inside, ?_⟩
  rw [Node.ancestors_child]
  refine List.pairwise_cons.2 ⟨?_, nested⟩
  intro above aboveMem
  rcases List.mem_cons.1 aboveMem with rfl | aboveMem
  · exact ⟨after, before⟩
  · rcases (List.pairwise_cons.1 nested).1 above aboveMem with ⟨earlier, later⟩
    exact ⟨Nat.le_trans earlier after, Nat.le_trans before later⟩

/-- The descent for the range of a node passes through the node. -/
theorem lowest_rootNode (nodeMem : node ∈ file.rootNode.preorder)
    (nonempty : node.start < node.stop) :
    file.rootNode.lowest node.start node.stop = node.lowest node.start node.stop := by
  have sameFile := file_of_mem_preorder nodeMem
  subst sameFile
  exact (alike_of_mem_preorder nodeMem).lowest_rootNode ordered nonempty
    ⟨Nat.le_refl _, Nat.le_refl _⟩

/-- From where the descent for the range of a node ends, all up to the node has the range. -/
theorem hasRange_of_split (nodeMem : node ∈ file.rootNode.preorder)
    (nonempty : node.start < node.stop) {lower : List Node}
    (split : lower ++ node :: node.ancestors = node.lowest node.start node.stop ::
      (node.lowest node.start node.stop).ancestors) :
    ∀ between ∈ lower, between.hasRange node.key := by
  intro between betweenMem
  have lowestHolds : (node.lowest node.start node.stop).Holds node.start node.stop :=
    Node.Holds.lowest ⟨Nat.le_refl _, Nat.le_refl _⟩ nonempty
  have nested := pairwise_ancestors ordered
    (Node.lowest_mem_preorder file.rootNode node.start node.stop)
  rw [lowest_rootNode ordered nodeMem nonempty] at nested
  have holds : between.Holds node.start node.stop := by
    have betweenMem : between ∈ lower ++ node :: node.ancestors := by simp [betweenMem]
    rw [split, List.mem_cons] at betweenMem
    rcases betweenMem with rfl | above
    · exact lowestHolds
    · rcases (List.pairwise_cons.1 nested).1 between above with ⟨before, after⟩
      exact ⟨Nat.le_trans before lowestHolds.1, Nat.le_trans lowestHolds.2 after⟩
  have inside : node.Holds between.start between.stop := by
    rw [← split, List.pairwise_append] at nested
    exact nested.2.2 between betweenMem node List.mem_cons_self
  simp only [Node.hasRange, Node.key, Bool.and_eq_true, beq_iff_eq]
  rcases holds with ⟨before, after⟩
  rcases inside with ⟨notBefore, notAfter⟩
  omega

theorem mem_climb (nodeMem : node ∈ file.rootNode.preorder) (nonempty : node.start < node.stop) :
    node ∈ file.climb node.key := by
  rcases Node.suffix_lowest node node.start node.stop with ⟨lower, split⟩
  have hasRange := hasRange_of_split ordered nodeMem nonempty split
  have isClimb : file.climb node.key = node.lowest node.start node.stop ::
      (node.lowest node.start node.stop).ancestors.takeWhile (·.hasRange node.key) := by
    rw [← lowest_rootNode ordered nodeMem nonempty]
    rfl
  rw [isClimb]
  cases lower with
  | nil => simp [← (List.cons.inj split).1]
  | cons lowest lower =>
      simp only [List.cons_append, List.cons.injEq] at split
      rw [← split.2, List.takeWhile_append_of_pos fun between betweenMem =>
        hasRange between (List.mem_cons_of_mem _ betweenMem), List.takeWhile_cons_of_pos]
      · simp
      · simp [Node.hasRange, Node.key]

end Ordered

theorem mem_preorder_of_mem_climb {key : NodeKey} (nodeMem : node ∈ file.climb key) :
    node ∈ file.rootNode.preorder := by
  have lowestMem := Node.lowest_mem_preorder file.rootNode key.start key.stop
  rcases List.mem_cons.1 ((file.climb_sublist key).mem nodeMem) with rfl | above
  · exact lowestMem
  · exact (mem_preorder_of_mem_ancestors lowestMem above).1

/-- What a key finds is a node of the file that has the key. -/
theorem key_of_nodeAt? {key : NodeKey} (isFound : file.nodeAt? key = some node) :
    node ∈ file.rootNode.preorder ∧ node.key = key := by
  rw [nodeAt?_eq_find?_climb] at isFound
  split at isFound
  · cases isFound
  · exact ⟨mem_preorder_of_mem_climb (List.mem_of_find?_eq_some isFound),
      by simpa using List.find?_some isFound⟩

/-- The nodes that share the key of a node stand around the one that the key finds. -/
theorem exists_nodeAt? (ordered : file.root.Ordered) (nodeMem : node ∈ file.rootNode.preorder)
    (nonempty : node.start < node.stop) :
    ∃ found, file.nodeAt? node.key = some found ∧
      ∀ other ∈ file.rootNode.preorder, other.key = node.key →
        other = found ∨ other ∈ found.ancestors := by
  have possible : ¬(node.key.file ≠ file.id ∨ node.key.stop < node.key.start) := by
    simp only [Node.key, file_of_mem_preorder nodeMem, ne_eq, not_true_eq_false, false_or]
    omega
  have inClimb := mem_climb ordered nodeMem nonempty
  have isSome : ((file.climb node.key).find? (·.key = node.key)).isSome :=
    List.find?_isSome.2 ⟨node, inClimb, by simp⟩
  rcases Option.isSome_iff_exists.1 isSome with ⟨found, isFound⟩
  refine ⟨found, by rw [nodeAt?_eq_find?_climb, if_neg possible, isFound], ?_⟩
  rcases List.find?_eq_some_iff_append.1 isFound with ⟨-, lower, upper, split, lacks⟩
  intro other otherMem sameKey
  have otherInClimb : other ∈ file.climb node.key := by
    rw [← sameKey]
    apply mem_climb ordered otherMem
    have sameStart : other.start = node.start := congrArg NodeKey.start sameKey
    have sameStop : other.stop = node.stop := congrArg NodeKey.stop sameKey
    omega
  have chain := file.pairwise_climb node.key
  rw [split, List.pairwise_append, List.pairwise_cons] at chain
  rw [split, List.mem_append, List.mem_cons] at otherInClimb
  rcases otherInClimb with below | same | above
  · simpa [sameKey] using lacks other below
  · exact .inl same
  · exact .inr (chain.2.1.1 other above)

/--
A key finds only nodes of its own range and kind. In a well-formed tree the key
of a node with a nonempty range finds the deepest node of this range and kind,
and so the node itself unless another one is below it.
-/
theorem nodeAt?_deepest (file : SourceFile) (ordered : file.root.Ordered) :
    (∀ key found, file.nodeAt? key = some found →
      found ∈ file.rootNode.preorder ∧ found.key = key) ∧
    (∀ node ∈ file.rootNode.preorder, node.start < node.stop →
      ∃ found, file.nodeAt? node.key = some found ∧ found.key = node.key ∧
        (∀ other ∈ file.rootNode.preorder, other.key = node.key →
          other = found ∨ other ∈ found.ancestors) ∧
        ((∀ below ∈ node.preorder.tail, below.key ≠ node.key) → found = node)) := by
  refine ⟨fun key found isFound => key_of_nodeAt? isFound, ?_⟩
  intro node nodeMem nonempty
  rcases exists_nodeAt? ordered nodeMem nonempty with ⟨found, isFound, around⟩
  rcases key_of_nodeAt? isFound with ⟨foundMem, sameKey⟩
  refine ⟨found, isFound, sameKey, around, fun alone => ?_⟩
  rcases around node nodeMem rfl with same | above
  · exact same.symm
  · have below := (mem_preorder_of_mem_ancestors foundMem above).2
    exact absurd sameKey (alone found below)

/-- A program of one statement, whose wrappers share a range, with a token that is missing. -/
def wrapped : SourceFile where
  id := 0
  path := ⟨"/wrapped.ts"⟩
  text := "x"
  root := .node ⟨⟨"program", true⟩, 0, 1, none⟩
    [.node ⟨⟨"expression_statement", true⟩, 0, 1, none⟩
      [.node ⟨⟨"identifier", true⟩, 0, 1, none⟩ [], .node ⟨⟨";", false⟩, 1, 1, none⟩ []]]

/-- The statement of `wrapped`. -/
def wrappedStatement : Node :=
  wrapped.rootNode.children.headD wrapped.rootNode

theorem nodeAt?_deepest_wrapped :
    wrapped.root.Ordered ∧ wrappedStatement ∈ wrapped.rootNode.preorder ∧
      wrappedStatement.start < wrappedStatement.stop ∧
      (∀ below ∈ wrappedStatement.preorder.tail, below.key ≠ wrappedStatement.key) ∧
      wrapped.nodeAt? wrappedStatement.key = some wrappedStatement := by
  have ordered : wrapped.root.Ordered := by
    simp [wrapped, Tree.Ordered, Tree.OrderedBetween, Tree.value]
  have statementMem : wrappedStatement ∈ wrapped.rootNode.preorder := .tail _ (.head _)
  have nonempty : wrappedStatement.start < wrappedStatement.stop := by decide
  have alone : ∀ below ∈ wrappedStatement.preorder.tail, below.key ≠ wrappedStatement.key := by
    decide
  rcases (nodeAt?_deepest wrapped ordered).2 wrappedStatement statementMem nonempty with
    ⟨found, isFound, -, -, isStatement⟩
  exact ⟨ordered, statementMem, nonempty, alone, isStatement alone ▸ isFound⟩

end SourceFile

end CallHierarchy
