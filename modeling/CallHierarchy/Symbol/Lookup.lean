import CallHierarchy.Symbol.Export
import CallHierarchy.Symbol.Member

/-!
# Names, members and the types of expressions

A member access refers to what the type of its receiver offers under the
property's name. Types are found from declarations, initial values, annotations
and `this`; only what names a class, an object literal or a file's exports is
understood, and everything else has no type.

Types depend on names and names on types, so the look-ups call each other. A call
goes one deeper or stays at its depth, and beyond a limit some of the look-ups give
nothing. Each look-up is written with the look-ups that it calls, those of its own
depth and those one deeper, and `lookups` ties them together.
-/

namespace CallHierarchy

/-- The look-ups at one depth. -/
structure Lookups (effect : Effect) where
  /-- What an identifier refers to, by the nearest scope that binds it. -/
  identifierSymbols : Node → effect.Many
  /-- What the bindings of a name in a file refer to. -/
  followBindings : SourceFile → List Binding → Visited → effect.Searched
  /-- What a file offers under a name. -/
  followExport : Search effect
  /-- What a member access refers to. -/
  memberSymbols : Node → effect.Many
  /-- What a receiver offers under a name. -/
  receiverMembers : ValueType → String → effect.Many
  /-- The members of an object literal under a name. -/
  objectMembers : NodeKey → String → effect.Many
  /-- The members of a class under a name, on the given side of the class. -/
  classMembers : NodeKey → String → Bool → effect.Many
  /-- The definition of the class that a class extends. -/
  superclass : Node → effect.One NodeKey
  /-- The type of an expression. -/
  type : Node → effect.One ValueType
  /-- The type of a symbol. -/
  symbolType : Symbol → effect.One ValueType
  /-- The type of what a declaration declares. -/
  declarationType : NodeKey → effect.One ValueType
  /-- The type that an annotation gives: an instance of the class that it names. -/
  annotatedType : Node → effect.One ValueType

namespace Lookups

variable {effect : Effect}

/-- Look-ups that give nothing. -/
def nothing (effect : Effect) : Lookups effect where
  identifierSymbols _ := effect.noSymbols
  followBindings _ _ := effect.noSearch
  followExport _ _ := effect.noSearch
  memberSymbols _ := effect.noSymbols
  receiverMembers _ _ := effect.noSymbols
  objectMembers _ _ := effect.noSymbols
  classMembers _ _ _ := effect.noSymbols
  superclass _ := effect.noThing
  type _ := effect.noThing
  symbolType _ := effect.noThing
  declarationType _ := effect.noThing
  annotatedType _ := effect.noThing

section Steps

variable (table : SymbolTable) (beyond : Bool) (level deeper : Lookups effect)

/-- An identifier is looked up in the scopes of its file. -/
def identifierSymbolsStep (node : Node) : effect.Many :=
  match table.file? node.file.id with
  | none => effect.ofList []
  | some (_, scopes) =>
    effect.symbols (level.followBindings node.file (scopes.visible node node.text) [])

/-- Bindings are followed one after the other, through the files that they import from. -/
def followBindingsStep (file : SourceFile) : List Binding → Visited → effect.Searched :=
  effect.gather (table.findBinding effect deeper.followExport file)

/-- A name is looked for in a file once in a search. -/
def followExportStep (id : FileId) (name : String) (visited : Visited) : effect.Searched :=
  if beyond then effect.noSearch visited
  else if visited.contains (id, name) then effect.ended [] visited
  else match table.file? id with
    | none => effect.ended [] ((id, name) :: visited)
    | some (file, scopes) =>
      table.findOffered effect deeper.followExport file (deeper.followBindings file) scopes name
        ((id, name) :: visited)

/--
A member access takes the type of its receiver, and then what that offers under the property's
name.
-/
def memberSymbolsStep (access : Node) : effect.Many :=
  match access.childAt? "object", access.childAt? "property" with
  | some object, some property =>
    effect.after (deeper.type object) (deeper.receiverMembers · property.text)
  | _, _ => effect.ofList []

/-- What a receiver offers depends on what its type is given by. -/
def receiverMembersStep (receiver : ValueType) (name : String) : effect.Many :=
  if beyond then effect.noSymbols
  else match receiver with
    | .exportsOf file => effect.symbols (deeper.followExport file name [])
    | .object literal => level.objectMembers literal name
    | .instanceOf definition => level.classMembers definition name false
    | .classItself definition => level.classMembers definition name true

/-- What an entry of an object literal refers to. A shorthand stands for the variable it names. -/
def entrySymbols (entry : Node) : effect.Many :=
  if entry.kindName == "shorthand_property_identifier" then deeper.identifierSymbols entry
  else effect.ofList [.declaration entry.key]

/-- The members of an object literal are those of all its entries of the name. -/
def objectMembersStep (literal : NodeKey) (name : String) : effect.Many :=
  match table.node? literal with
  | none => effect.ofList []
  | some object => effect.collect deeper.entrySymbols (object.entries name)

/-- The members of a class are its own, or else those of the class that it extends. -/
def classMembersStep (key : NodeKey) (name : String) (isStatic : Bool) : effect.Many :=
  match table.node? key with
  | none => effect.ofList []
  | some definition =>
    match definition.ownMembers name isStatic with
    | [] => effect.after (deeper.superclass definition) (deeper.classMembers · name isStatic)
    | own => effect.ofList (own.map (.declaration ·.key))

/-- A class extends what the expression after `extends` has the type of, if that is a class. -/
def superclassStep (definition : Node) : effect.One NodeKey :=
  if beyond then effect.noThing
  else effect.bind (effect.bind (effect.ofOption definition.superclassExpression?) deeper.type)
    fun type => effect.ofOption type.class?

/-- The type of the first of some symbols. -/
def headType (symbols : effect.Many) : effect.One ValueType :=
  effect.bind (effect.first symbols) deeper.symbolType

/-- What is called by a call of the given callee. -/
def calleeSymbols (callee : Node) : effect.Many :=
  match callee.kindName with
  | "identifier" => deeper.identifierSymbols callee
  | "member_expression" => deeper.memberSymbols callee
  | _ => effect.ofList []

/-- The type that a call has when it calls the first of some symbols. -/
def returnType (symbols : effect.Many) : effect.One ValueType :=
  effect.bind (effect.bind (effect.first symbols) fun symbol =>
    effect.ofOption symbol.declaration?) fun key =>
      effect.bind (effect.ofOption (((table.node? key).bind Node.callable?).bind
        (·.childAt? "return_type"))) deeper.annotatedType

/-- The class that the given class extends. -/
def superclassOf (definition : NodeKey) : effect.One NodeKey :=
  effect.bind (effect.ofOption (table.node? definition)) deeper.superclass

/-- The type of an expression follows from its kind and from the types of its parts. -/
def typeStep (expression : Node) : effect.One ValueType :=
  if beyond then effect.noThing
  else match expression.kindName with
    | "parenthesized_expression" | "non_null_expression" | "await_expression" =>
      effect.bind (effect.ofOption expression.firstNamedChild?) deeper.type
    | "as_expression" | "satisfies_expression" =>
      effect.orElse
        (effect.bind (effect.ofOption expression.namedChildren.getLast?) deeper.annotatedType)
        fun _ => effect.bind (effect.ofOption expression.namedChildren.head?) deeper.type
    | "new_expression" =>
      effect.bind (effect.bind (effect.ofOption (expression.childAt? "constructor")) deeper.type)
        fun type => effect.ofOption type.constructed?
    | "this" => effect.ofOption expression.thisType?
    | "super" =>
      match expression.thisType? with
      | some (.instanceOf definition) =>
        effect.bind (deeper.superclassOf table definition)
          fun base => effect.ofOption (some (.instanceOf base))
      | some (.classItself definition) =>
        effect.bind (deeper.superclassOf table definition)
          fun base => effect.ofOption (some (.classItself base))
      | _ => effect.ofOption none
    | "identifier" => deeper.headType (deeper.identifierSymbols expression)
    | "member_expression" => deeper.headType (deeper.memberSymbols expression)
    | "call_expression" =>
      match expression.childAt? "function" with
      | none => effect.ofOption none
      | some callee => deeper.returnType table (deeper.calleeSymbols callee)
    | "object" => effect.ofOption (some (.object expression.key))
    | "class" => effect.ofOption (some (.classItself expression.key))
    | _ => effect.ofOption none

/-- A declaration has the type of what it declares, and a whole file is its exports. -/
def symbolTypeStep : Symbol → effect.One ValueType
  | .declaration key => level.declarationType key
  | .exportsOf file => effect.ofOption (some (.exportsOf file))

/-- An annotation that is understood decides on the type of what is declared. -/
def declarationTypeStep (key : NodeKey) : effect.One ValueType :=
  if beyond then effect.noThing
  else effect.bind (effect.ofOption (table.node? key)) fun node =>
    match node.kindName with
    | "class_declaration" | "abstract_class_declaration" | "class" =>
      effect.ofOption (some (.classItself key))
    | "object" => effect.ofOption (some (.object key))
    | "variable_declarator" | "public_field_definition" | "field_definition"
    | "required_parameter" | "optional_parameter" =>
      effect.orElse (effect.bind (effect.ofOption (node.childAt? "type")) deeper.annotatedType)
        fun _ => effect.bind (effect.ofOption (node.childAt? "value")) deeper.type
    | "pair" => effect.bind (effect.ofOption (node.childAt? "value")) deeper.type
    | "method_definition" | "abstract_method_signature" =>
      if node.hasToken "get" then
        effect.bind (effect.ofOption (node.childAt? "return_type")) deeper.annotatedType
      else effect.ofOption none
    | _ => effect.ofOption none

/-- The type of what the first of some symbols constructs. -/
def instanceType (symbols : effect.Many) : effect.One ValueType :=
  effect.bind (deeper.headType symbols) fun type => effect.ofOption type.constructed?

/-- An annotation is understood if it names a class, directly or as an export of a file. -/
def annotatedTypeStep (node : Node) : effect.One ValueType :=
  if beyond then effect.noThing
  else match node.kindName with
    | "type_annotation" | "parenthesized_type" =>
      effect.bind (effect.ofOption node.firstNamedChild?) deeper.annotatedType
    | "generic_type" => effect.bind (effect.ofOption (node.childAt? "name")) deeper.annotatedType
    | "type_identifier" => deeper.instanceType (deeper.identifierSymbols node)
    | "nested_type_identifier" =>
      match node.childAt? "module", node.childAt? "name" with
      | some namespaceNode, some name =>
        effect.bind (deeper.type namespaceNode) fun type =>
          match type with
          | .exportsOf file =>
            deeper.instanceType (effect.symbols (deeper.followExport file name.text []))
          | _ => effect.ofOption none
      | _, _ => effect.ofOption none
    | _ => effect.ofOption none

/-- The look-ups at a depth, given those that they call at this depth and one deeper. -/
def step : Lookups effect where
  identifierSymbols := level.identifierSymbolsStep table
  followBindings := deeper.followBindingsStep table
  followExport := deeper.followExportStep table beyond
  memberSymbols := deeper.memberSymbolsStep
  receiverMembers := receiverMembersStep beyond level deeper
  objectMembers := deeper.objectMembersStep table
  classMembers := deeper.classMembersStep table
  superclass := deeper.superclassStep beyond
  type := deeper.typeStep table beyond
  symbolType := level.symbolTypeStep
  declarationType := deeper.declarationTypeStep table beyond
  annotatedType := deeper.annotatedTypeStep beyond

/--
The look-ups at a depth, given those one deeper. What a look-up calls at its own
depth calls only what is deeper, so no look-up of the second round misses anything.
-/
def above : Lookups effect :=
  step table beyond (step table beyond (nothing effect) deeper) deeper

end Steps

/-- What a node refers to. The property of a member access refers to the same as the access. -/
def symbols (lookups : Lookups effect) (node : Node) : effect.Many :=
  match node.kindName with
  | "identifier" => lookups.identifierSymbols node
  | "member_expression" => lookups.memberSymbols node
  | "property_identifier" | "private_property_identifier" =>
    match node.parent? with
    | some access =>
      if access.kindName == "member_expression" then lookups.memberSymbols access
      else effect.ofList []
    | none => effect.ofList []
  | _ => effect.ofList []

end Lookups

namespace SymbolTable

/--
The look-ups with a budget: what they call at the next depth has one less. Without a
budget, the look-ups are beyond the limit.
-/
def lookups (effect : Effect) (table : SymbolTable) : Nat → Lookups effect
  | 0 => .above table true (.nothing effect)
  | budget + 1 => .above table false (lookups effect table budget)

section Plain

variable (table : SymbolTable) (budget : Nat)

/-- What a file offers under a name, and the files and names that the search has entered. -/
def followExport : Search .plain :=
  (table.lookups .plain budget).followExport

/-- What an exported name refers to. -/
def exportedSymbols (id : FileId) (name : String) : List Symbol :=
  (table.followExport budget id name []).1

/-- What an identifier refers to. -/
def identifierSymbols : Node → List Symbol :=
  (table.lookups .plain budget).identifierSymbols

/-- What a member access refers to. -/
def memberSymbols : Node → List Symbol :=
  (table.lookups .plain budget).memberSymbols

/-- The members of a class under a name, on the given side of the class. -/
def classMembers : NodeKey → String → Bool → List Symbol :=
  (table.lookups .plain budget).classMembers

/-- The definition of the class that a class extends. -/
def superclass? : Node → Option NodeKey :=
  (table.lookups .plain budget).superclass

/-- The type of an expression. -/
def typeOf? : Node → Option ValueType :=
  (table.lookups .plain budget).type

/-- The type that an annotation gives. -/
def annotatedType? : Node → Option ValueType :=
  (table.lookups .plain budget).annotatedType

end Plain

/-- How many steps a look-up may take. -/
def defaultLimit : Nat := 32

/-- The declarations that a node refers to, when a look-up may go so many steps below its start. -/
def declarationsWithin (table : SymbolTable) (limit : Nat) (node : Node) : List NodeKey :=
  ((table.lookups .plain (limit + 1)).symbols node).filterMap Symbol.declaration?

/-- The declarations that a node refers to. -/
def declarations (table : SymbolTable) (node : Node) : List NodeKey :=
  table.declarationsWithin defaultLimit node

end SymbolTable

end CallHierarchy
