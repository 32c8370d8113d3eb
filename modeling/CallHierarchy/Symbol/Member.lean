import CallHierarchy.Symbol.Basic

/-!
# Members, functions and `this`

What look-ups read off the nodes around a declaration: the members that a class or
an object literal declares, the function that a declaration makes callable, the
class that a class extends, and what `this` is at a node.
-/

namespace CallHierarchy

namespace Node

/-- The name of a member of a class or an object, without quotes. -/
def memberName? (member : Node) : Option String :=
  member.declaredName?.map (Text.unquote ·.text)

/-- The function that a declaration makes callable. -/
def callable? (declaration : Node) : Option Node :=
  match declaration.kindName with
  | "function_declaration" | "generator_function_declaration" | "function_signature"
  | "method_definition" | "method_signature" | "abstract_method_signature"
  | "arrow_function" | "function_expression" | "generator_function" => some declaration
  | "variable_declarator" | "pair" | "public_field_definition" | "field_definition" =>
    (declaration.childAt? "value").filter fun value =>
      ["arrow_function", "function_expression", "generator_function"].contains value.kindName
  | _ => none

/-- The expression that a class extends. The clause around it is missing in plain scripts. -/
def superclassExpression? (definition : Node) : Option Node :=
  (definition.namedChildren.find? (·.kindName == "class_heritage")).bind fun heritage =>
    match heritage.namedChildren.find? (·.kindName == "extends_clause") with
    | some clause => clause.childAt? "value"
    | none => heritage.firstNamedChild?

/-- The kinds of nodes that decide what `this` is inside them. Arrow functions do not. -/
def thisKinds : List String :=
  ["method_definition", "public_field_definition", "field_definition", "class_static_block",
    "function_expression", "generator_function", "function_declaration",
    "generator_function_declaration", "program"]

/-- What `this` is inside a member: an instance, the class itself, or the object around it. -/
def thisInMember? (member : Node) : Option ValueType :=
  member.parent?.bind fun container =>
    match container.kindName with
    | "class_body" => container.parent?.map fun definition =>
      if member.isStaticMember then .classItself definition.key else .instanceOf definition.key
    | "object" => some (.object container.key)
    | _ => none

/-- What `this` is inside a function expression: the object whose property it is. -/
def thisInFunction? (function : Node) : Option ValueType :=
  ((function.parent?.filter (·.kindName == "pair")).bind fun pair =>
    pair.parent?.filter (·.kindName == "object")).map fun object => .object object.key

/-- What `this` is at a node. -/
def thisType? (node : Node) : Option ValueType :=
  (node.enclosing? thisKinds).bind fun owner =>
    match owner.kindName with
    | "method_definition" | "public_field_definition" | "field_definition" | "class_static_block" =>
      owner.thisInMember?
    | "function_expression" | "generator_function" => owner.thisInFunction?
    | _ => none

/-- The parameters of a constructor that are properties of the given name. -/
def parameterProperties (constructor : Node) (name : String) : List Node :=
  match constructor.childAt? "parameters" with
  | none => []
  | some parameters =>
    parameters.namedChildren.filter fun parameter =>
      (parameter.children.any fun child =>
        child.kindName == "accessibility_modifier" || child.kindName == "readonly") &&
      (parameter.childAt? "pattern").any (·.text == name)

/-- The kinds of nodes that are members of classes. -/
def classMemberKinds : List String :=
  ["method_definition", "method_signature", "abstract_method_signature", "public_field_definition",
    "field_definition"]

/-- The declarations of a name that one member of a class makes, on the given side of the class. -/
def memberDeclarations (member : Node) (name : String) (isStatic : Bool) : List Node :=
  if member.isConstructor then
    if isStatic then [] else member.parameterProperties name
  else if classMemberKinds.contains member.kindName && member.isStaticMember == isStatic &&
      member.memberName? == some name then [member]
  else []

/-- The declarations of a name in the body of a class, on the given side of the class. -/
def ownMembers (definition : Node) (name : String) (isStatic : Bool) : List Node :=
  match definition.childAt? "body" with
  | none => []
  | some body => body.namedChildren.flatMap (·.memberDeclarations name isStatic)

/-- The parts of an object literal that give it a member of a name. -/
def entries (object : Node) (name : String) : List Node :=
  object.namedChildren.filter fun entry =>
    match entry.kindName with
    | "pair" | "method_definition" => entry.memberName? == some name
    | "shorthand_property_identifier" => entry.text == name
    | _ => false

end Node

end CallHierarchy
