/-!
# Ordered trees

Finitely branching trees with a value at every node. Syntax trees, the nesting
of units in a file and the nesting of units in a call graph are all of this
shape, so the orders in which they are walked are defined once, here.

A function on trees comes with its companion on lists of trees; the two are
mutually structural, so both evaluate by reduction.
-/

namespace CallHierarchy

/-- A value with an ordered list of subtrees below it. -/
inductive Tree (α : Type) where
  | node (value : α) (children : List (Tree α))

namespace Tree

variable {α β : Type}

/-- The value at the root. -/
def value : Tree α → α
  | .node value _ => value

/-- The subtrees directly below the root, in order. -/
def children : Tree α → List (Tree α)
  | .node _ children => children

mutual

/-- The values of a tree, each before the values below it. -/
def preorder : Tree α → List α
  | .node value children => value :: preorderList children

/-- The values of a list of trees, tree after tree. -/
def preorderList : List (Tree α) → List α
  | [] => []
  | tree :: rest => tree.preorder ++ preorderList rest

end

mutual

/-- The number of nodes of a tree. -/
def size : Tree α → Nat
  | .node _ children => sizeList children + 1

/-- The number of nodes of a list of trees. -/
def sizeList : List (Tree α) → Nat
  | [] => 0
  | tree :: rest => tree.size + sizeList rest

end

mutual

/-- The tree of the same shape with every value replaced by its image. -/
def map (f : α → β) : Tree α → Tree β
  | .node value children => .node (f value) (mapList f children)

/-- The images of a list of trees. -/
def mapList (f : α → β) : List (Tree α) → List (Tree β)
  | [] => []
  | tree :: rest => tree.map f :: mapList f rest

end

mutual

/-- Decides whether two trees are equal. -/
def decEq [DecidableEq α] : (tree other : Tree α) → Decidable (tree = other)
  | .node value children, .node otherValue others =>
    if same : value = otherValue then
      match decEqList children others with
      | .isTrue sameChildren => .isTrue (by rw [same, sameChildren])
      | .isFalse different => .isFalse (by simp [different])
    else .isFalse (by simp [same])

/-- Decides whether two lists of trees are equal. -/
def decEqList [DecidableEq α] : (trees others : List (Tree α)) → Decidable (trees = others)
  | [], [] => .isTrue rfl
  | [], _ :: _ => .isFalse (by simp)
  | _ :: _, [] => .isFalse (by simp)
  | tree :: rest, other :: others =>
    match decEq tree other with
    | .isTrue same =>
      match decEqList rest others with
      | .isTrue sameRest => .isTrue (by rw [same, sameRest])
      | .isFalse different => .isFalse (by simp [different])
    | .isFalse different => .isFalse (by simp [different])

end

instance [DecidableEq α] : DecidableEq (Tree α) :=
  decEq

/-- To prove a property of every tree, prove it of a node whose children have it. -/
theorem induction {motive : Tree α → Prop}
    (step : ∀ value children, (∀ child ∈ children, motive child) → motive (.node value children)) :
    ∀ tree, motive tree
  | .node value children => step value children (inductionList children)
where
  inductionList : ∀ children : List (Tree α), ∀ child ∈ children, motive child
    | tree :: rest, child, member => by
      cases member with
      | head => exact induction step tree
      | tail _ member => exact inductionList rest child member

theorem length_preorder (tree : Tree α) : tree.preorder.length = tree.size := by
  induction tree using induction with
  | step value children ih =>
    have list : (preorderList children).length = sizeList children := by
      clear value
      induction children with
      | nil => rfl
      | cons child rest ihRest =>
        simp only [preorderList, sizeList, List.length_append]
        rw [ih child (by simp), ihRest fun other member => ih other (by simp [member])]
    simp [preorder, size, list]

end Tree

end CallHierarchy
