import CallHierarchy.Scope.Basic

/-!
# What export statements offer

An export statement offers a declaration, a default value, a list of names or,
with a source and nothing else, all names that another file offers.
-/

namespace CallHierarchy.Scope

mutual

/-- The expression inside any parentheses around it. -/
def withoutParentheses (file : SourceFile) (around : List SyntaxTree) : SyntaxTree → Node
  | .node label children =>
    let node : Node := ⟨file, .node label children, around⟩
    if label.kind.name == "parenthesized_expression" then
      (firstWithoutParentheses file (.node label children :: around) children).getD node
    else node

/-- The first construct among some sibling trees that is not a comment, without its parentheses. -/
def firstWithoutParentheses (file : SourceFile) (around : List SyntaxTree) :
    List SyntaxTree → Option Node
  | [] => none
  | tree :: rest =>
    if tree.value.kind.named && tree.value.kind.name != "comment" then
      some (withoutParentheses file around tree)
    else firstWithoutParentheses file around rest

end

/-- The variables of a declaration that have a plain name, or else the declared thing itself. -/
def declaredNames (declaration : Node) : List (String × Node) :=
  match declaration.kindName with
  | "lexical_declaration" | "variable_declaration" =>
    (declaration.namedChildren.filter (·.kindName == "variable_declarator")).filterMap
      fun declarator =>
        ((declarator.childAt? "name").filter (·.kindName == "identifier")).map
          fun name => (name.text, declarator)
  | _ => ((declaration.childAt? "name").map fun name => (name.text, declaration)).toList

/-- What an exported declaration offers. -/
def ofDeclaration (statement declaration : Node) : List (String × Export) :=
  if statement.hasToken "default" then [("default", .declaration declaration.key)]
  else (declaredNames declaration).map fun (name, node) => (name, .declaration node.key)

/-- A default value offers something only if it is a name. -/
def ofDefaultValue (value : Node) : List (String × Export) :=
  let expression := withoutParentheses value.file value.around value.tree
  if expression.kindName == "identifier" then [("default", .topLevel expression.text)] else []

/-- What one specifier of an export list offers. -/
def ofExportSpecifier (source : Option String) (node : Node) : Option (String × Export) :=
  (node.childAt? "name").map fun nameNode =>
    let name := Text.unquote nameNode.text
    let offered := ((node.childAt? "alias").map (Text.unquote ·.text)).getD name
    match source with
    | some specifier => (offered, .forwarded specifier name)
    | none => (offered, .topLevel name)

/-- What one part of an export statement offers. -/
def ofExportPart (source : Option String) (part : Node) : List (String × Export) :=
  match part.kindName with
  | "export_clause" =>
    (part.namedChildren.filter (·.kindName == "export_specifier")).filterMap
      (ofExportSpecifier source)
  | "namespace_export" =>
    match source, part.firstNamedChild? with
    | some specifier, some name => [(Text.unquote name.text, .everything specifier)]
    | _, _ => []
  | _ => []

/-- The specifier of the file that an export statement draws on. -/
def exportSource (statement : Node) : Option String :=
  (statement.childAt? "source").map (Text.unquote ·.text)

/-- The names that an export statement offers. -/
def ofExport (statement : Node) : List (String × Export) :=
  match statement.childAt? "declaration", statement.childAt? "value" with
  | some declaration, _ => ofDeclaration statement declaration
  | none, some value => ofDefaultValue value
  | none, none => statement.namedChildren.flatMap (ofExportPart (exportSource statement))

/-- The file whose exports an export statement offers as a whole. -/
def ofStarExport (statement : Node) : Option String :=
  let hasClause := statement.namedChildren.any fun part =>
    part.kindName == "export_clause" || part.kindName == "namespace_export"
  if (statement.childAt? "declaration").isSome || (statement.childAt? "value").isSome || hasClause
  then none
  else exportSource statement

/-- The names that a node offers to other files. -/
def exports (node : Node) : List (String × Export) :=
  if node.kindName == "export_statement" then ofExport node else []

/-- The file whose exports a node offers as a whole. -/
def starExport? (node : Node) : Option String :=
  if node.kindName == "export_statement" then ofStarExport node else none

end CallHierarchy.Scope
