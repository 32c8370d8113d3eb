import CallHierarchy.Source.Node
import CallHierarchy.Unit.Basic

/-!
# Entities: the nodes that define units

An entity is a syntax node that defines a unit. Most entities are named by the
construct that declares them. A function or class expression is named by its
context: the variable it initialises, or the property or field whose value it
is; parentheses around it make no difference. An expression in any other place
stays anonymous, and nothing can refer to it.
-/

namespace CallHierarchy

namespace Node

/-- Whether a node stands directly inside the body of a class. -/
def isClassMember (node : Node) : Bool :=
  node.parent?.any (·.kindName == "class_body")

/-- Whether a node is a method, with or without a body. -/
def isMethodLike (node : Node) : Bool :=
  ["method_definition", "method_signature", "abstract_method_signature"].contains node.kindName

/-- Whether a node is the constructor of a class, or a signature of it. -/
def isConstructor (node : Node) : Bool :=
  node.isMethodLike && node.isClassMember &&
    (node.childAt? "name").any fun name =>
      name.kindName == "property_identifier" && name.text == "constructor"

/-- Whether a class member belongs to the class itself and not to its instances. -/
def isStaticMember (node : Node) : Bool :=
  node.kindName == "class_static_block" || node.hasToken "static"

/-- The construct whose value an expression is, if that construct gives the value a name. -/
def namingContext? (node : Node) : Option Node :=
  let value := node.climb ["parenthesized_expression"]
  match value.parent? with
  | none => none
  | some context =>
    if !value.isChildAt "value" then none
    else match context.kindName with
      | "variable_declarator" =>
        if (context.childAt? "name").any (·.kindName == "identifier") then some context else none
      | "pair" | "public_field_definition" | "field_definition" => some context
      | _ => none

/-- The node that holds the name of a declaration. -/
def declaredName? (declaration : Node) : Option Node :=
  match declaration.kindName with
  | "pair" => declaration.childAt? "key"
  | "field_definition" => declaration.childAt? "property"
  | _ => declaration.childAt? "name"

/--
Whether an expression is written to: it is the left side of a plain assignment,
directly or through array patterns.
-/
def isAssignmentTarget (node : Node) : Bool :=
  let target := node.climb ["array", "array_pattern"]
  target.isChildAt "left" && target.parent?.any (·.kindName == "assignment_expression")

end Node

/-- A node that defines a unit, and the construct that names the unit. -/
structure Entity where
  node : Node
  kind : UnitKind
  declaration : Option Node

namespace Entity

/-- What a method of a class or an object is. -/
def methodKind (method : Node) : UnitKind :=
  if method.isConstructor then .constructor
  else if method.hasToken "get" then .getter
  else if method.hasToken "set" then .setter
  else .method

/-- The entity that a construct of the grammar defines, if it defines one. -/
def ofConstruct? (node : Node) : Option Entity :=
  match node.kindName with
  | "program" => some ⟨node, .file, none⟩
  | "method_definition" | "abstract_method_signature" => some ⟨node, methodKind node, some node⟩
  | "method_signature" =>
    if node.isClassMember then some ⟨node, methodKind node, some node⟩ else none
  | "class_static_block" => some ⟨node, .staticBlock, none⟩
  | "function_declaration" | "generator_function_declaration" | "function_signature" =>
    some ⟨node, .function, some node⟩
  | "function_expression" | "generator_function" | "arrow_function" =>
    some ⟨node, .function, node.namingContext?⟩
  | "class_declaration" | "abstract_class_declaration" => some ⟨node, .classDefinition, some node⟩
  | "class" => some ⟨node, .classDefinition, node.namingContext?⟩
  | _ => none

/-- The entity that a node defines. Tokens define none. -/
def ofNode? (node : Node) : Option Entity :=
  if node.isNamed then ofConstruct? node else none

/-- The name that the declaration gives to the unit. -/
def name (entity : Entity) : Option String :=
  (entity.declaration.bind Node.declaredName?).map Node.text

/-- Whether the entity is a whole file. -/
def isRoot (entity : Entity) : Bool :=
  entity.node.around.isEmpty

/-- The unit that an entity defines. A whole file bears its path and stands on the first line. -/
def unit (entity : Entity) (id : UnitId) (children : List UnitId) : CodeUnit where
  id := id
  kind := entity.kind
  name := if entity.isRoot then some entity.node.file.path.text else entity.name
  children := children
  calls := []
  span :=
    { file := entity.node.file.id
      start := entity.node.start
      stop := entity.node.stop
      line := if entity.isRoot then 1 else entity.node.line }

/-- The class that a constructor belongs to: the node around the body that it stands in. -/
def constructedClass? (entity : Entity) : Option Node :=
  if entity.kind = .constructor then entity.node.parent?.bind Node.parent? else none

end Entity

end CallHierarchy
