import CallHierarchy.Proofs.Run.Classification
import CallHierarchy.Proofs.Source.Order

/-!
# What names an entity

Most entities are named by themselves. A function or class expression is named by
the construct whose value it is, and parentheses between the two do not count. So
one goes up from the expression through any number of parentheses, and what is
found there is the *context* of the expression.

Going up loses nothing: the value of a context is the one node that it finds under
that field, and as long as parentheses hold a single expression, there is one way
further down, so a construct names at most one expression.
-/

namespace CallHierarchy

namespace Node

/-- Whether one node is the parent of another and of one of the given kinds. -/
def DirectlyIn (kinds : List String) (node outer : Node) : Prop :=
  node.parent? = some outer ∧ outer.kindName ∈ kinds

/-- Whether one goes up from one node to another through nodes of the given kinds only. -/
def WrappedIn (kinds : List String) : Node → Node → Prop :=
  Relation.ReflTransGen (DirectlyIn kinds)

theorem climb_of_parent? {node outer : Node} (isParent : node.parent? = some outer)
    (kinds : List String) :
    node.climb kinds = if outer.kindName ∈ kinds then outer.climb kinds else node := by
  rcases node with ⟨file, tree, _ | ⟨parent, around⟩⟩
  · cases isParent
  · cases isParent
    have climbed := climb_child ⟨file, parent, around⟩ tree kinds
    simp only [List.contains_iff_mem] at climbed
    exact climbed

/-- To climb is to go up through nodes of the given kinds. -/
theorem wrappedIn_climb (kinds : List String) (node : Node) :
    node.WrappedIn kinds (node.climb kinds) := by
  rcases node with ⟨file, tree, around⟩
  induction around generalizing tree with
  | nil => exact .refl
  | cons parent around ih =>
      rw [climb_of_parent? rfl kinds]
      split
      next isKind => exact .head ⟨rfl, isKind⟩ (ih parent)
      · exact .refl

/-- Where the parent is of another kind, the climb ends. -/
theorem WrappedIn.climb_eq {kinds : List String} {node top outer : Node}
    (wrapped : node.WrappedIn kinds top) (isParent : top.parent? = some outer)
    (ends : outer.kindName ∉ kinds) : node.climb kinds = top := by
  induction wrapped using Relation.ReflTransGen.head_induction_on with
  | refl => rw [climb_of_parent? isParent, if_neg ends]
  | head step _ ih => rw [climb_of_parent? step.1, if_pos step.2, ih]

/-- The kinds of expressions that are named by their context. -/
def expressionKinds : List String :=
  ["function_expression", "generator_function", "arrow_function", "class"]

/-- The kinds of constructs that name the expression that is their value. -/
def contextKinds : List String :=
  ["variable_declarator", "pair", "public_field_definition", "field_definition"]

/-- Whether a node is a function or class expression. -/
def isExpression (node : Node) : Bool :=
  node.isNamed && expressionKinds.contains node.kindName

/-- Whether a node is a function or class expression, or may have one in its parentheses. -/
def mayHoldExpression (node : Node) : Bool :=
  node.isExpression || node.kindName == "parenthesized_expression"

theorem kindName_of_isExpression {node : Node} (isExpression : node.isExpression) :
    node.kindName ≠ "parenthesized_expression" := by
  intro isKind
  simp [Node.isExpression, expressionKinds, isKind] at isExpression

theorem namingContext?_spec {node context : Node} (isContext : node.namingContext? = some context) :
    ∃ value, node.WrappedIn ["parenthesized_expression"] value ∧ value.parent? = some context ∧
      context.childAt? "value" = some value ∧ context.kindName ∈ contextKinds := by
  refine ⟨_, wrappedIn_climb _ node, ?_⟩
  simp only [namingContext?] at isContext
  split at isContext
  · simp at isContext
  next other isParent =>
    split at isContext
    · simp at isContext
    next isValue =>
      rw [Bool.not_eq_true', Bool.not_eq_false, isChildAt_iff] at isValue
      rcases isValue with ⟨_, isSame, isValue⟩
      cases isSame.symm.trans isParent
      split at isContext <;> grind [contextKinds]

end Node

namespace Entity

/-- What names an entity: the entity itself or, if it is an expression, its context. -/
theorem declaration_cases {node declaration : Node} {entity : Entity}
    (isEntity : ofNode? node = some entity) (isDeclared : entity.declaration = some declaration) :
    declaration = node ∧ node.kindName ∉ Node.contextKinds ∨
      node.isExpression ∧ node.namingContext? = some declaration := by
  unfold ofNode? at isEntity
  split at isEntity
  next named =>
    unfold ofConstruct? at isEntity
    split at isEntity <;> grind [Node.contextKinds, Node.expressionKinds, Node.isExpression]
  · simp at isEntity

end Entity

namespace Place

variable {place other outer context : Place}

theorem entity?_cases {entity : Entity} (isEntity : place.entity? = some entity) :
    entity = ⟨place.node, .file, none⟩ ∨ Entity.ofNode? place.node = some entity := by
  unfold entity? at isEntity
  split at isEntity
  · exact Or.inl (Option.some.inj isEntity).symm
  · exact Or.inr isEntity

theorem parent?_of_mem_children (placeMem : place ∈ outer.children) :
    place.node.parent? = some outer.node := by
  rcases mem_children.1 placeMem with ⟨position, tree, -, rfl⟩
  rfl

theorem eq_or_exists_parent {top : Place} (placeMem : place ∈ top.subtree) :
    place = top ∨ ∃ parent ∈ top.subtree, place ∈ parent.children := by
  induction top using induction with
  | step top ih =>
      rcases mem_subtree.1 placeMem with rfl | ⟨child, childMem, placeMem⟩
      · exact Or.inl rfl
      · rcases ih child childMem placeMem with rfl | ⟨parent, parentMem, placeMem⟩
        · exact Or.inr ⟨top, mem_subtree_self top, childMem⟩
        · exact Or.inr ⟨parent, mem_subtree.2 (Or.inr ⟨child, childMem, parentMem⟩), placeMem⟩

theorem node_mem_children (placeMem : place ∈ outer.children) :
    place.node ∈ outer.node.children := by
  rcases mem_children.1 placeMem with ⟨position, tree, isTree, rfl⟩
  exact List.mem_map_of_mem (List.mem_of_getElem? isTree)

/-- Whether one goes up from one place to another through parentheses only. -/
def Parenthesized : Place → Place → Prop :=
  Relation.ReflTransGen fun place outer =>
    place ∈ outer.children ∧ outer.node.kindName = "parenthesized_expression"

/-- Whether a construct names the expression at a place: it is its value, in parentheses or not. -/
def NamedBy (place context : Place) : Prop :=
  ∃ value, place.Parenthesized value ∧ value ∈ context.children ∧
    context.node.childAt? "value" = some value.node ∧ context.node.kindName ∈ Node.contextKinds

/-- Inside parentheses that hold an expression, there is the expression or more parentheses. -/
theorem Parenthesized.mayHold (parenthesized : place.Parenthesized outer)
    (isExpression : place.node.isExpression) : outer.node.mayHoldExpression := by
  rcases Relation.ReflTransGen.cases_tail parenthesized with rfl | ⟨_, -, -, isKind⟩
  · simp [Node.mayHoldExpression, isExpression]
  · simp [Node.mayHoldExpression, isKind]

end Place

namespace SourceFile

variable {file : SourceFile} {place other outer : Place}

theorem exists_parent_of_mem_places (placeMem : place ∈ file.places) {parent : Node}
    (isParent : place.node.parent? = some parent) :
    ∃ outer ∈ file.places, outer.node = parent ∧ place ∈ outer.children := by
  rcases Place.eq_or_exists_parent placeMem with rfl | ⟨outer, outerMem, placeMem⟩
  · cases isParent
  · rw [Place.parent?_of_mem_children placeMem, Option.some.injEq] at isParent
    exact ⟨outer, outerMem, isParent, placeMem⟩

theorem exists_parenthesized {node value : Node}
    (wrapped : node.WrappedIn ["parenthesized_expression"] value)
    (placeMem : place ∈ file.places) (isNode : place.node = node) :
    ∃ outer ∈ file.places, outer.node = value ∧ place.Parenthesized outer := by
  induction wrapped using Relation.ReflTransGen.head_induction_on generalizing place with
  | refl => exact ⟨place, placeMem, isNode, .refl⟩
  | head step _ ih =>
      subst isNode
      rcases exists_parent_of_mem_places placeMem step.1 with ⟨parent, parentMem, isParent, inside⟩
      rcases ih parentMem isParent with ⟨outer, outerMem, isValue, parenthesized⟩
      refine ⟨outer, outerMem, isValue, .head ⟨inside, ?_⟩ parenthesized⟩
      rw [isParent]
      exact List.mem_singleton.1 step.2

theorem exists_namedBy {context : Node} (placeMem : place ∈ file.places)
    (isContext : place.node.namingContext? = some context) :
    ∃ naming ∈ file.places, naming.node = context ∧ place.NamedBy naming := by
  rcases Node.namingContext?_spec isContext with ⟨value, wrapped, isParent, isValue, isKind⟩
  rcases exists_parenthesized wrapped placeMem rfl with ⟨outer, outerMem, rfl, parenthesized⟩
  rcases exists_parent_of_mem_places outerMem isParent with ⟨naming, namingMem, rfl, inside⟩
  exact ⟨naming, namingMem, rfl, outer, parenthesized, inside, isValue, isKind⟩

/-- Whether no parentheses hold two expressions that could be named through them. -/
def HasSingleParenthesized (file : SourceFile) : Prop :=
  ∀ outer ∈ file.rootNode.preorder, outer.kindName = "parenthesized_expression" →
    (outer.children.filter Node.mayHoldExpression).length ≤ 1

instance : Decidable file.HasSingleParenthesized :=
  inferInstanceAs (Decidable (∀ outer ∈ _, _ → _))

theorem node_mem_preorder (placeMem : place ∈ file.places) :
    place.node ∈ file.rootNode.preorder := by
  rw [← file.map_node_places]
  exact List.mem_map_of_mem placeMem

theorem HasSingleParenthesized.eq_of_mayHold (single : file.HasSingleParenthesized)
    {outer node other : Node} (outerMem : outer ∈ file.rootNode.preorder)
    (isKind : outer.kindName = "parenthesized_expression") (nodeMem : node ∈ outer.children)
    (otherMem : other ∈ outer.children) (mayHold : node.mayHoldExpression)
    (otherMayHold : other.mayHoldExpression) : node = other := by
  have nodeKept : node ∈ outer.children.filter Node.mayHoldExpression :=
    List.mem_filter.2 ⟨nodeMem, mayHold⟩
  have otherKept : other ∈ outer.children.filter Node.mayHoldExpression :=
    List.mem_filter.2 ⟨otherMem, otherMayHold⟩
  have one := Nat.le_antisymm (single outer outerMem isKind) (List.length_pos_of_mem nodeKept)
  rcases List.length_eq_one_iff.1 one with ⟨only, isOnly⟩
  rw [isOnly, List.mem_singleton] at nodeKept otherKept
  rw [nodeKept, otherKept]

/-- Through parentheses, one expression at most is reached on the way down from a node. -/
theorem HasSingleParenthesized.node_eq (single : file.HasSingleParenthesized)
    {otherOuter : Place} (outerMem : outer ∈ file.places) (sameOuter : outer.node = otherOuter.node)
    (isExpression : place.node.isExpression) (otherIsExpression : other.node.isExpression)
    (parenthesized : place.Parenthesized outer)
    (otherParenthesized : other.Parenthesized otherOuter) : place.node = other.node := by
  induction parenthesized generalizing otherOuter with
  | refl =>
      rcases Relation.ReflTransGen.cases_tail otherParenthesized with rfl | ⟨_, -, -, isKind⟩
      · exact sameOuter
      · rw [← sameOuter] at isKind
        exact absurd isKind (Node.kindName_of_isExpression isExpression)
  | tail before step ih =>
      rcases Relation.ReflTransGen.cases_tail otherParenthesized with
        rfl | ⟨next, otherBefore, otherStep, -⟩
      · rw [sameOuter] at step
        exact absurd step.2 (Node.kindName_of_isExpression otherIsExpression)
      · have otherChild := Place.node_mem_children otherStep
        rw [← sameOuter] at otherChild
        exact ih (Place.mem_subtree_of_mem_children outerMem step.1)
          (single.eq_of_mayHold (node_mem_preorder outerMem) step.2 (Place.node_mem_children step.1)
            otherChild (Place.Parenthesized.mayHold before isExpression)
            (Place.Parenthesized.mayHold otherBefore otherIsExpression)) otherBefore

end SourceFile

namespace Place

variable {file : SourceFile} {place other naming : Place}

/-- Whether the entity at a place is named at another place, or is an expression named there. -/
def DeclaredAt (place naming : Place) : Prop :=
  naming = place ∧ place.node.kindName ∉ Node.contextKinds ∨
    place.node.isExpression ∧ place.NamedBy naming

theorem exists_declaredAt {entity : Entity} {declaration : Node} (placeMem : place ∈ file.places)
    (isEntity : place.entity? = some entity) (isDeclared : entity.declaration = some declaration) :
    ∃ naming ∈ file.places, naming.node = declaration ∧ place.DeclaredAt naming := by
  rcases entity?_cases isEntity with rfl | isEntity
  · cases isDeclared
  rcases Entity.declaration_cases isEntity isDeclared with
    ⟨rfl, isKind⟩ | ⟨isExpression, isContext⟩
  · exact ⟨place, placeMem, rfl, Or.inl ⟨rfl, isKind⟩⟩
  · rcases SourceFile.exists_namedBy placeMem isContext with ⟨naming, namingMem, isNaming, named⟩
    exact ⟨naming, namingMem, isNaming, Or.inr ⟨isExpression, named⟩⟩

theorem NamedBy.node_eq (parentheses : file.HasSingleParenthesized)
    (namingMem : naming ∈ file.places) (isExpression : place.node.isExpression)
    (otherIsExpression : other.node.isExpression) (named : place.NamedBy naming)
    (otherNamed : other.NamedBy naming) : place.node = other.node := by
  rcases named with ⟨value, parenthesized, valueMem, isValue, -⟩
  rcases otherNamed with ⟨otherValue, otherParenthesized, -, otherIsValue, -⟩
  rw [isValue, Option.some.injEq] at otherIsValue
  exact parentheses.node_eq (mem_subtree_of_mem_children namingMem valueMem) otherIsValue
    isExpression otherIsExpression parenthesized otherParenthesized

/-- No two entities are named at one place, as far as nodes can be told apart. -/
theorem DeclaredAt.node_eq (parentheses : file.HasSingleParenthesized)
    (namingMem : naming ∈ file.places) (declared : place.DeclaredAt naming)
    (otherDeclared : other.DeclaredAt naming) : place.node = other.node := by
  rcases declared with ⟨rfl, isKind⟩ | ⟨isExpression, named⟩ <;>
    rcases otherDeclared with ⟨same, otherIsKind⟩ | ⟨otherIsExpression, otherNamed⟩
  · rw [same]
  · rcases otherNamed with ⟨_, -, -, -, isContext⟩
    exact absurd isContext isKind
  · rcases named with ⟨_, -, -, -, isContext⟩
    rw [same] at isContext
    exact absurd isContext otherIsKind
  · exact named.node_eq parentheses namingMem isExpression otherIsExpression otherNamed

end Place

end CallHierarchy
