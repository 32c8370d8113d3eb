import CallHierarchy.Scope.Pattern
import CallHierarchy.Unit.Entity

/-!
# The names that a node introduces

Each rule looks at one node and its surroundings: which names it introduces,
into which scope, and what they stand for. Functions and `var` variables go to
the nearest function around them, other declarations to the nearest block.
Parameters belong to their function, imports to the file.
-/

namespace CallHierarchy.Scope

/-- A declaration's own name goes to the nearest scope of the given kinds. -/
def ofNamed (node : Node) (kinds : List String) : List Introduction :=
  match node.childAt? "name", node.enclosing? kinds with
  | some name, some scope => [.ofDeclaration scope name node]
  | _, _ => []

/-- A named function or class expression knows its own name, and nothing outside it does. -/
def ofNamedExpression (node : Node) : List Introduction :=
  match node.childAt? "name" with
  | some name => [.ofDeclaration node name (node.namingContext?.getD node)]
  | none => []

/-- A variable is declared by its declarator, the names of a pattern by themselves. -/
def ofDeclarator (declarator : Node) : List Introduction :=
  let isVar := declarator.parent?.any (·.kindName == "variable_declaration")
  match declarator.childAt? "name",
      declarator.enclosing? (if isVar then functionKinds else blockKinds) with
  | some name, some scope =>
    if name.kindName == "identifier" then [.ofDeclaration scope name declarator]
    else ofPattern scope name
  | _, _ => []

/-- A parameter with a plain name is declared by the whole parameter, where its type stands. -/
def ofParameter (owner parameter : Node) : List Introduction :=
  match parameter.kindName with
  | "required_parameter" | "optional_parameter" =>
    match parameter.childAt? "pattern" with
    | some pattern =>
      if pattern.kindName == "identifier" then [.ofDeclaration owner pattern parameter]
      else ofPattern owner pattern
    | none => []
  | _ => ofPattern owner parameter

/-- A list of parameters belongs to the node around it. -/
def ofParameters (parameters : Node) : List Introduction :=
  match parameters.parent? with
  | some owner => parameters.namedChildren.flatMap (ofParameter owner)
  | none => []

/-- The name that an import gives to something of another file. -/
def importedName (program declaration name : Node) (specifier : String) (imported : Imported) :
    Introduction :=
  ⟨program.key, name.text, ⟨declaration.key, .elsewhere specifier imported⟩⟩

/-- What one specifier of an import list introduces. -/
def ofImportSpecifier (program : Node) (specifier : String) (node : Node) : List Introduction :=
  match node.childAt? "name" with
  | some name =>
    [importedName program node ((node.childAt? "alias").getD name) specifier
      (.item (Text.unquote name.text))]
  | none => []

/-- What one part of an import clause introduces. -/
def ofImportPart (program : Node) (specifier : String) (part : Node) : List Introduction :=
  match part.kindName with
  | "identifier" => [importedName program part part specifier (.item "default")]
  | "namespace_import" =>
    match part.firstNamedChild? with
    | some name => [importedName program part name specifier .everything]
    | none => []
  | "named_imports" =>
    (part.namedChildren.filter (·.kindName == "import_specifier")).flatMap
      (ofImportSpecifier program specifier)
  | _ => []

/-- An import introduces its names into the whole file. -/
def ofImport (statement : Node) : List Introduction :=
  match statement.childAt? "source", statement.enclosing? ["program"] with
  | some source, some program =>
    let parts := (statement.namedChildren.filter (·.kindName == "import_clause")).flatMap
      Node.namedChildren
    parts.flatMap (ofImportPart program (Text.unquote source.text))
  | _, _ => []

/-- The names that a node introduces by itself. -/
def introductions (node : Node) : List Introduction :=
  match node.kindName with
  | "function_declaration" | "generator_function_declaration" | "function_signature" =>
    ofNamed node functionKinds
  | "class_declaration" | "abstract_class_declaration" | "enum_declaration" =>
    ofNamed node blockKinds
  | "function_expression" | "generator_function" | "class" => ofNamedExpression node
  | "variable_declarator" => ofDeclarator node
  | "formal_parameters" => ofParameters node
  | "arrow_function" => (node.childAt? "parameter").elim [] (ofParameter node)
  | "catch_clause" => (node.childAt? "parameter").elim [] (ofPattern node)
  | "for_in_statement" =>
    if (node.childAt? "kind").isSome then (node.childAt? "left").elim [] (ofPattern node) else []
  | "import_statement" => ofImport node
  | _ => []

end CallHierarchy.Scope
