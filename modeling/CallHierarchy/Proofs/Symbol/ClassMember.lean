import CallHierarchy.Proofs.Source.Keys
import CallHierarchy.Proofs.Source.Order
import CallHierarchy.Proofs.Symbol.ExportSearch
import CallHierarchy.Symbol.Lookup

/-!
# The members of a class and of those it extends

A class *declares* a name on one of its two sides by the methods and fields of its
body, and on the side of its instances also by the parameters of its constructors
that are properties. Its constructors themselves are not members.

A look-up goes from class to class. Where each class of a chain extends the next
one by a name for it, the look-up finds what the first class of the chain declares
that declares anything: a chain of classes is a list, and the look-up follows it
as long as its budget lasts. A chain that leads in a circle is followed until the
budget is spent, which does no harm if there is nothing to find.
-/

namespace CallHierarchy

namespace Text

/-- Whether a text says a name, in quotes or without. -/
inductive Spells (name : String) : String → Prop
  | quoted {quote : Char} (isQuote : quote = '"' ∨ quote = '\'' ∨ quote = '`') :
      Spells name (String.ofList (quote :: name.toList ++ [quote]))
  | plain (notQuoted : ∀ quote inner, quote = '"' ∨ quote = '\'' ∨ quote = '`' →
      name.toList ≠ quote :: inner ++ [quote]) : Spells name name

theorem isQuote_iff {character : Char} :
    isQuote character ↔ character = '"' ∨ character = '\'' ∨ character = '`' := by
  simp only [isQuote, Bool.or_eq_true, beq_iff_eq, or_assoc]

theorem unquote_quoted {quote : Char} (isQuote : isQuote quote) (inner : List Char) :
    unquote (String.ofList (quote :: inner ++ [quote])) = String.ofList inner := by
  have isLast : (inner ++ [quote]).getLast? = some quote := List.getLast?_concat ..
  have isInner : (inner ++ [quote]).dropLast = inner := List.dropLast_concat
  rw [unquote, String.toList_ofList, List.cons_append]
  split
  next isEmpty => cases isEmpty
  next isSingle => simp at isSingle
  next isText =>
    obtain ⟨rfl, rfl⟩ := List.cons.inj isText
    simp [isQuote, isLast, isInner]

theorem unquote_of_not_quoted {text : String}
    (notQuoted : ∀ quote inner, isQuote quote → text.toList ≠ quote :: inner ++ [quote]) :
    unquote text = text := by
  unfold unquote
  split
  · rfl
  · rfl
  next first rest notSingle isText =>
    split
    next isQuoted =>
      simp only [Bool.and_eq_true, beq_iff_eq] at isQuoted
      rcases List.getLast?_eq_some_iff.1 isQuoted.2 with ⟨inner, rfl⟩
      exact absurd isText (notQuoted first inner isQuoted.1)
    · rfl

/-- A text says what is left without the quotes around it. -/
theorem unquote_eq_iff {text name : String} : unquote text = name ↔ Spells name text := by
  constructor
  · rintro rfl
    by_cases quoted : ∃ quote inner, isQuote quote ∧ text.toList = quote :: inner ++ [quote]
    · rcases quoted with ⟨quote, inner, isQuote, isText⟩
      obtain rfl : text = String.ofList (quote :: inner ++ [quote]) := by
        rw [← isText, String.ofList_toList]
      rw [unquote_quoted isQuote]
      simpa using @Spells.quoted (String.ofList inner) quote (isQuote_iff.1 isQuote)
    · have notQuoted : ∀ quote inner, isQuote quote → text.toList ≠ quote :: inner ++ [quote] :=
        fun quote inner isQuote isText => quoted ⟨quote, inner, isQuote, isText⟩
      rw [unquote_of_not_quoted notQuoted]
      exact .plain fun quote inner isQuote => notQuoted quote inner (isQuote_iff.2 isQuote)
  · rintro (isQuote | notQuoted)
    · rw [unquote_quoted (isQuote_iff.2 isQuote), String.ofList_toList]
    · exact unquote_of_not_quoted fun quote inner isQuote => notQuoted quote inner
        (isQuote_iff.1 isQuote)

end Text

namespace Node

/-- The kinds of nodes that define classes. -/
def classKinds : List String :=
  ["class_declaration", "abstract_class_declaration", "class"]

/-- Whether a node defines a class. The keyword has the name of a kind, but is only a token. -/
def isClass (node : Node) : Bool :=
  node.isNamed && classKinds.contains node.kindName

theorem isClass_of_kind_eq {node other : Node} (isClass : node.isClass)
    (sameKind : other.kind = node.kind) : other.isClass := by
  simpa [Node.isClass, isNamed, kindName, sameKind] using isClass

/-- Whether a node is a method of the name `constructor`, or a signature of it, in a class body. -/
structure Constructs (node : Node) : Prop where
  isMethod : node.kindName ∈ ["method_definition", "method_signature", "abstract_method_signature"]
  inBody : ∃ body, node.parent? = some body ∧ body.kindName = "class_body"
  isNamed : ∃ name, node.childAt? "name" = some name ∧
    name.kindName = "property_identifier" ∧ name.text = "constructor"

theorem isConstructor_iff {node : Node} : node.isConstructor ↔ node.Constructs := by
  simp only [isConstructor, isMethodLike, isClassMember, Bool.and_eq_true, List.contains_iff_mem,
    Option.any_eq_true, beq_iff_eq]
  constructor
  · rintro ⟨⟨isMethod, inBody⟩, isNamed⟩
    exact ⟨isMethod, inBody, isNamed⟩
  · rintro ⟨isMethod, inBody, isNamed⟩
    exact ⟨⟨isMethod, inBody⟩, isNamed⟩

theorem Constructs.not_isClass {node : Node} (constructs : node.Constructs) : ¬node.isClass := by
  have isMethod := constructs.isMethod
  simp only [List.mem_cons, List.not_mem_nil, or_false] at isMethod
  rcases isMethod with isKind | isKind | isKind <;> simp [isClass, classKinds, isKind]

/--
Whether a node is a method or a field of the given name, on a side of its class. The
keyword `static` puts it on the side of the class itself. Its name stands below it as
`name`, in plain scripts that of a field as `property`, and may be in quotes.
-/
structure IsMember (node : Node) (name : String) (isStatic : Bool) : Prop where
  isKind : node.kindName ∈ ["method_definition", "method_signature", "abstract_method_signature",
    "public_field_definition", "field_definition"]
  onSide : isStatic ↔ ∃ token ∈ node.children, ¬token.isNamed ∧ token.kindName = "static"
  isNamed : ∃ child,
    node.childAt? (if node.kindName = "field_definition" then "property" else "name") =
      some child ∧ Text.Spells name child.text

theorem isMember_iff {node : Node} {name : String} {isStatic : Bool} :
    node.IsMember name isStatic ↔ classMemberKinds.contains node.kindName ∧
      node.isStaticMember = isStatic ∧ node.memberName? = some name := by
  have onSide (notBlock : node.kindName ≠ "class_static_block") :
      (isStatic ↔ ∃ token ∈ node.children, ¬token.isNamed ∧ token.kindName = "static") ↔
        node.isStaticMember = isStatic := by
    have isToken : node.isStaticMember ↔
        ∃ token ∈ node.children, ¬token.isNamed ∧ token.kindName = "static" := by
      simp [isStaticMember, hasToken, notBlock]
    rw [← isToken, ← Bool.eq_iff_iff, eq_comm]
  have isNamed (notPair : node.kindName ≠ "pair") :
      (∃ child, node.childAt? (if node.kindName = "field_definition" then "property" else "name") =
        some child ∧ Text.Spells name child.text) ↔ node.memberName? = some name := by
    have isName : node.declaredName? =
        node.childAt? (if node.kindName = "field_definition" then "property" else "name") := by
      unfold declaredName?
      split <;> simp_all
    simp only [memberName?, isName, Option.map_eq_some_iff, Text.unquote_eq_iff]
  rw [List.contains_iff_mem]
  constructor
  · rintro ⟨isKind, side, named⟩
    have known := isKind
    simp only [List.mem_cons, List.not_mem_nil, or_false] at known
    exact ⟨isKind, (onSide (by grind)).1 side, (isNamed (by grind)).1 named⟩
  · rintro ⟨isKind, side, named⟩
    have known := isKind
    simp only [classMemberKinds, List.mem_cons, List.not_mem_nil, or_false] at known
    exact ⟨isKind, (onSide (by grind)).2 side, (isNamed (by grind)).2 named⟩

/-- Whether a parameter of a constructor is a property of the given name. -/
def isProperty (name : String) (parameter : Node) : Bool :=
  (parameter.children.any fun child =>
    child.kindName == "accessibility_modifier" || child.kindName == "readonly") &&
  (parameter.childAt? "pattern").any (·.text == name)

theorem isProperty_iff {name : String} {parameter : Node} :
    parameter.isProperty name ↔
      (∃ modifier ∈ parameter.children,
        modifier.kindName = "accessibility_modifier" ∨ modifier.kindName = "readonly") ∧
      ∃ pattern, parameter.childAt? "pattern" = some pattern ∧ pattern.text = name := by
  simp only [isProperty, Bool.and_eq_true, List.any_eq_true, Bool.or_eq_true, beq_iff_eq,
    Option.any_eq_true]

end Node

namespace Place

/-- Whether a construct in the body of a class declares a name on a side, and where. -/
inductive Makes (name : String) : Bool → Place → Place → Prop
  | member {isStatic : Bool} {construct : Place}
      (isMember : construct.node.IsMember name isStatic)
      (notConstructor : ¬construct.node.Constructs) :
      Makes name isStatic construct construct
  | property {constructor parameters parameter : Place}
      (constructs : constructor.node.Constructs)
      (areParameters : constructor.childAt? "parameters" = some parameters)
      (isParameter : parameters.ConstructIn parameter)
      (isProperty : ∃ modifier ∈ parameter.node.children,
        modifier.kindName = "accessibility_modifier" ∨ modifier.kindName = "readonly")
      (isNamed : ∃ pattern, parameter.node.childAt? "pattern" = some pattern ∧
        pattern.text = name) :
      Makes name false constructor parameter

/-- Whether a class declares a name on a side at a place in its body. -/
def Declares (definition : Place) (name : String) (isStatic : Bool) (member : Place) : Prop :=
  ∃ body, definition.childAt? "body" = some body ∧
    ∃ construct, body.ConstructIn construct ∧ Makes name isStatic construct member

/-- Whether a place is a constructor in the body of a class. -/
def IsConstructor (place : Place) : Prop :=
  place.node.Constructs ∧
    ∃ definition body : Place, definition.node.isClass ∧ body ∈ definition.children ∧
      place ∈ body.children

variable {definition construct member : Place} {name : String} {isStatic : Bool}

theorem Makes.suffix (makes : Makes name isStatic construct member) :
    construct.address <:+ member.address := by
  cases makes with
  | member => exact List.suffix_rfl
  | property _ areParameters isParameter =>
      exact (suffix_of_mem_children (childAt?_mem areParameters)).trans
        (suffix_of_mem_children isParameter.1)

theorem Makes.not_isConstructor (makes : Makes name isStatic construct member) :
    ¬member.IsConstructor := by
  rintro ⟨isConstructor, definition, body, isClass, bodyMem, inBody⟩
  cases makes with
  | member _ notConstructor => exact notConstructor isConstructor
  | property constructs areParameters isParameter =>
      have around := ancestors_of_mem_children isParameter.1
      rw [ancestors_of_mem_children inBody, ancestors_of_mem_children bodyMem,
        ancestors_of_mem_children (childAt?_mem areParameters)] at around
      obtain rfl : definition = construct := by
        simp only [List.cons.injEq] at around
        exact around.2.1
      exact constructs.not_isClass isClass

theorem Declares.not_isConstructor (declares : definition.Declares name isStatic member) :
    ¬member.IsConstructor := by
  rcases declares with ⟨-, -, construct, -, makes⟩
  exact makes.not_isConstructor

theorem enumerates_constructs (place : Place) :
    Enumerates node Precedes place.ConstructIn place.node.namedChildren := by
  refine ⟨_, place.filter_children Node.isNamed, ?_, fun other => List.mem_filter⟩
  refine (place.pairwise_children.filter _).imp ?_
  intro first second apart
  exact apart first second List.suffix_rfl List.suffix_rfl

theorem enumerates_parameterProperties (constructs : construct.node.Constructs)
    (name : String) : Enumerates node Precedes (Makes name false construct)
      (construct.node.parameterProperties name) := by
  have same : construct.node.parameterProperties name =
      (construct.node.childAt? "parameters").elim [] fun parameters =>
        parameters.namedChildren.filter (Node.isProperty name) := by
    unfold Node.parameterProperties
    cases construct.node.childAt? "parameters" <;> rfl
  have each : ∀ parameters, construct.childAt? "parameters" = some parameters →
      Enumerates node Precedes
        (fun parameter => parameters.ConstructIn parameter ∧ parameter.node.isProperty name)
        (parameters.node.namedChildren.filter (Node.isProperty name)) :=
    fun parameters _ => parameters.enumerates_constructs.filter (Node.isProperty name)
  rw [same]
  apply (enumerates_childAt? "parameters" each).congr
  intro parameter
  simp only [Node.isProperty_iff]
  constructor
  · rintro ⟨parameters, areParameters, isParameter, isProperty, isNamed⟩
    exact .property constructs areParameters isParameter isProperty isNamed
  · intro makes
    cases makes with
    | member _ notConstructor => exact absurd constructs notConstructor
    | property _ areParameters isParameter isProperty isNamed =>
        exact ⟨_, areParameters, isParameter, isProperty, isNamed⟩

theorem enumerates_memberDeclarations (construct : Place) (name : String) (isStatic : Bool) :
    Enumerates node Precedes (Makes name isStatic construct)
      (construct.node.memberDeclarations name isStatic) := by
  unfold Node.memberDeclarations
  split
  next constructs =>
    rw [Node.isConstructor_iff] at constructs
    cases isStatic with
    | false => exact enumerates_parameterProperties constructs name
    | true =>
        apply Enumerates.nil
        intro member makes
        cases makes with
        | member _ notConstructor => exact notConstructor constructs
  next notConstructor =>
    rw [Node.isConstructor_iff] at notConstructor
    split
    next isMember =>
      simp only [Bool.and_eq_true, beq_iff_eq, and_assoc] at isMember
      apply Enumerates.singleton construct
      intro member
      constructor
      · intro makes
        cases makes with
        | member => rfl
        | property constructs => exact absurd constructs notConstructor
      · rintro rfl
        exact .member (Node.isMember_iff.2 isMember) notConstructor
    next notMember =>
      simp only [Bool.and_eq_true, beq_iff_eq, and_assoc] at notMember
      apply Enumerates.nil
      intro member makes
      cases makes with
      | member isMember => exact notMember (Node.isMember_iff.1 isMember)
      | property constructs => exact notConstructor constructs

theorem enumerates_ownMembers (definition : Place) (name : String) (isStatic : Bool) :
    Enumerates node Precedes (definition.Declares name isStatic)
      (definition.node.ownMembers name isStatic) := by
  have same : definition.node.ownMembers name isStatic =
      (definition.node.childAt? "body").elim [] fun body =>
        (body.children.filter Node.isNamed).flatMap (·.memberDeclarations name isStatic) := by
    unfold Node.ownMembers
    cases definition.node.childAt? "body" <;> rfl
  have each : ∀ body, definition.childAt? "body" = some body → Enumerates node Precedes
      (fun member => ∃ construct ∈ body.children, construct.node.isNamed ∧
        Makes name isStatic construct member)
      ((body.node.children.filter Node.isNamed).flatMap (·.memberDeclarations name isStatic)) :=
    fun body _ => enumerates_children id Node.isNamed
      (fun construct _ _ => construct.enumerates_memberDeclarations name isStatic)
      fun _ _ makes => makes.suffix
  rw [same]
  apply (enumerates_childAt? "body" each).congr
  intro member
  simp only [Declares, ConstructIn, and_assoc]

theorem ownMembers_eq_nil_iff :
    definition.node.ownMembers name isStatic = [] ↔
      ∀ member, ¬definition.Declares name isStatic member := by
  have mem_iff := (definition.enumerates_ownMembers name isStatic).mem_iff
  constructor
  · intro none member declares
    have memberMem := (mem_iff member.node).2 ⟨member, declares, rfl⟩
    simp [none] at memberMem
  · intro never
    apply List.eq_nil_iff_forall_not_mem.2
    intro node nodeMem
    rcases (mem_iff node).1 nodeMem with ⟨member, declares, -⟩
    exact never member declares

/-- The symbol of what is declared at a place. -/
def symbol (place : Place) : Symbol :=
  .declaration place.node.key

theorem enumerates_ownSymbols (definition : Place) (name : String) (isStatic : Bool) :
    Enumerates symbol Precedes (definition.Declares name isStatic)
      ((definition.node.ownMembers name isStatic).map (.declaration ·.key)) := by
  refine ((definition.enumerates_ownMembers name isStatic).map id _ (fun _ => rfl)
    fun _ _ precedes => precedes).congr ?_
  simp

/-- Whether a class extends no other. In some files a clause of interfaces stands in its place. -/
def ExtendsNothing (definition : Place) : Prop :=
  ∀ expression, definition.node.superclassExpression? = some expression →
    expression.kindName = "implements_clause"

/-- Whether the first class of a chain that declares a name declares it at a place. -/
inductive Nearest (name : String) (isStatic : Bool) : List Place → Place → Prop
  | own {definition member : Place} {rest : List Place}
      (declares : definition.Declares name isStatic member) :
      Nearest name isStatic (definition :: rest) member
  | inherited {definition member : Place} {rest : List Place}
      (nothing : ∀ other, ¬definition.Declares name isStatic other)
      (above : Nearest name isStatic rest member) :
      Nearest name isStatic (definition :: rest) member

theorem nearest_cons_iff_of_none {rest : List Place}
    (none : definition.node.ownMembers name isStatic = []) :
    Nearest name isStatic (definition :: rest) member ↔ Nearest name isStatic rest member := by
  have nothing := ownMembers_eq_nil_iff.1 none
  constructor
  · rintro (declares | ⟨-, above⟩)
    · exact absurd declares (nothing member)
    · exact above
  · exact .inherited nothing

theorem nearest_cons_iff_of_own {rest : List Place}
    (own : definition.node.ownMembers name isStatic ≠ []) :
    Nearest name isStatic (definition :: rest) member ↔
      definition.Declares name isStatic member := by
  constructor
  · rintro (declares | ⟨nothing, -⟩)
    · exact declares
    · exact absurd (ownMembers_eq_nil_iff.2 nothing) own
  · exact .own

end Place

namespace SourceFile

/-- Whether the key of each class of a file stands for this class only. -/
structure ClassesApart (file : SourceFile) : Prop where
  ordered : file.root.Ordered
  nonempty : ∀ place ∈ file.places, place.node.isClass → place.node.start < place.node.stop
  keys : ∀ place ∈ file.places, ∀ other ∈ file.places, place.node.isClass → other.node.isClass →
    place.node.key = other.node.key → place = other

theorem exists_place_of_mem_preorder {file : SourceFile} {node : Node}
    (nodeMem : node ∈ file.rootNode.preorder) : ∃ place ∈ file.places, place.node = node := by
  rwa [← file.map_node_places, List.mem_map] at nodeMem

/-- A node that does not share its key is found by it. -/
theorem nodeAt?_of_unique {file : SourceFile} {place : Place} (ordered : file.root.Ordered)
    (placeMem : place ∈ file.places) (nonempty : place.node.start < place.node.stop)
    (unique : ∀ other ∈ file.places, other.node.key = place.node.key → other = place) :
    file.nodeAt? place.node.key = some place.node := by
  have nodeMem : place.node ∈ file.rootNode.preorder := by
    rw [← file.map_node_places]
    exact List.mem_map_of_mem placeMem
  rcases exists_nodeAt? ordered nodeMem nonempty with ⟨found, isFound, -⟩
  rcases key_of_nodeAt? isFound with ⟨foundMem, sameKey⟩
  rcases exists_place_of_mem_preorder foundMem with ⟨other, otherMem, rfl⟩
  rw [isFound, unique other otherMem sameKey]

theorem ClassesApart.nodeAt?_key {file : SourceFile} {place : Place} (apart : file.ClassesApart)
    (placeMem : place ∈ file.places) (isClass : place.node.isClass) :
    file.nodeAt? place.node.key = some place.node := by
  refine nodeAt?_of_unique apart.ordered placeMem (apart.nonempty place placeMem isClass) ?_
  intro other otherMem sameKey
  have otherIsClass := Node.isClass_of_kind_eq isClass (congrArg NodeKey.kind sameKey)
  exact apart.keys other otherMem place placeMem otherIsClass isClass sameKey

end SourceFile

namespace SymbolTable

/-- Whether a place is a class in a file of the table. -/
structure HasClass (table : SymbolTable) (place : Place) : Prop where
  isClass : place.node.isClass
  isKnown : ∃ scopes, table.file? place.node.file.id = some (place.node.file, scopes)
  placeMem : place ∈ place.node.file.places

/-- Whether a class extends another one by a name that, where it stands, is that of the other. -/
inductive Extends (table : SymbolTable) (definition base : Place) : Prop
  | byName {name : Node} {file : SourceFile} {scopes : ScopeTable} {others : List Binding}
      (hasBase : table.HasClass base)
      (isExtended : definition.node.superclassExpression? = some name)
      (isIdentifier : name.kindName = "identifier")
      (isKnown : table.file? name.file.id = some (file, scopes))
      (isBound : scopes.visible name name.text = ⟨base.node.key, .here⟩ :: others)

theorem Extends.hasBase {table : SymbolTable} {definition base : Place}
    (extending : table.Extends definition base) : table.HasClass base := by
  cases extending
  assumption

/-- Whether the classes of all files of a table have keys of their own. -/
def ClassesApart (table : SymbolTable) : Prop :=
  ∀ id file scopes, table.file? id = some (file, scopes) → file.ClassesApart

variable {table : SymbolTable} {definition base : Place} {name : String} {isStatic : Bool}

theorem node?_key (apart : table.ClassesApart) (hasClass : table.HasClass definition) :
    table.node? definition.node.key = some definition.node := by
  rcases hasClass with ⟨isClass, ⟨scopes, isKnown⟩, placeMem⟩
  have isKnown : table.file? definition.node.key.file = some (definition.node.file, scopes) :=
    isKnown
  rw [node?, isKnown, Option.bind_some]
  exact (apart _ _ _ isKnown).nodeAt?_key placeMem isClass

theorem declarationType_of_hasClass (apart : table.ClassesApart)
    (hasClass : table.HasClass definition) (budget : Nat) :
    (table.lookups .plain (budget + 1)).declarationType definition.node.key =
      some (.classItself definition.node.key) := by
  have step : (table.lookups .plain (budget + 1)).declarationType definition.node.key =
      (table.lookups .plain budget).declarationTypeStep table false definition.node.key := rfl
  have isClass := hasClass.isClass
  simp only [Node.isClass, Node.classKinds, Bool.and_eq_true, List.contains_iff_mem, List.mem_cons,
    List.not_mem_nil, or_false] at isClass
  rw [step, Lookups.declarationTypeStep, node?_key apart hasClass]
  rcases isClass.2 with isKind | isKind | isKind <;>
    simp only [Bool.false_eq_true, if_false, Option.bind_some, isKind]

theorem superclass?_succ (table : SymbolTable) (budget : Nat) (definition : Node) :
    table.superclass? (budget + 1) definition =
      (definition.superclassExpression?.bind (table.typeOf? budget)).bind ValueType.class? :=
  rfl

/-- An identifier has the type of the first declaration that it refers to. -/
theorem typeOf?_identifier {node : Node} {key : NodeKey} (isKind : node.kindName = "identifier")
    (budget : Nat)
    (isFirst : (table.identifierSymbols budget node).head? = some (.declaration key)) :
    table.typeOf? (budget + 1) node = (table.lookups .plain budget).declarationType key := by
  have step : table.typeOf? (budget + 1) node =
      (table.lookups .plain budget).typeStep table false node := rfl
  have isFirst : ((table.lookups .plain budget).identifierSymbols node).head? =
      some (.declaration key) := isFirst
  rw [step, Lookups.typeStep, isKind]
  simp only [Bool.false_eq_true, if_false, Lookups.headType, isFirst, Option.bind_some]
  cases budget <;> rfl

/-- The class that a class extends is found in three steps. -/
theorem superclass?_of_extends (apart : table.ClassesApart)
    (extending : table.Extends definition base) (budget : Nat) :
    table.superclass? budget definition.node =
      if 3 ≤ budget then some base.node.key else none := by
  cases extending with
  | @byName name _ _ _ hasBase isExtended isIdentifier isKnown isBound =>
      have symbols (budget : Nat) : (table.identifierSymbols budget name).head? =
          some (.declaration base.node.key) := by
        rw [identifierSymbols_eq table budget isKnown, isBound]
        rfl
      have type (budget : Nat) := typeOf?_identifier isIdentifier budget (symbols budget)
      rcases budget with _ | _ | _ | budget
      · rfl
      · rw [superclass?_succ, isExtended]
        rfl
      · rw [superclass?_succ, isExtended, Option.bind_some, type]
        rfl
      · rw [superclass?_succ, isExtended, Option.bind_some, type,
          declarationType_of_hasClass apart hasBase, if_pos (by omega)]
        rfl

theorem superclass?_of_extendsNothing (ends : definition.ExtendsNothing) (budget : Nat) :
    table.superclass? budget definition.node = none := by
  cases budget with
  | zero => rfl
  | succ budget =>
      rw [superclass?_succ]
      cases isExtended : definition.node.superclassExpression? with
      | none => rfl
      | some expression =>
          have noType : table.typeOf? budget expression = none := by
            cases budget with
            | zero => rfl
            | succ budget =>
                have step : table.typeOf? (budget + 1) expression =
                    (table.lookups .plain budget).typeStep table false expression := rfl
                rw [step, Lookups.typeStep, ends expression isExtended]
                rfl
          rw [Option.bind_some, noType, Option.bind_none]

theorem exists_classMembersStep (table : SymbolTable) (budget : Nat) (key : NodeKey)
    (name : String) (isStatic : Bool) :
    ∃ deeper : Lookups .plain, table.classMembers budget key name isStatic =
      deeper.classMembersStep table key name isStatic := by
  cases budget <;> exact ⟨_, rfl⟩

section Step

variable {key : NodeKey} {found : Node} (isFound : table.node? key = some found)
include isFound

theorem classMembers_of_own (own : found.ownMembers name isStatic ≠ []) (budget : Nat) :
    table.classMembers budget key name isStatic =
      (found.ownMembers name isStatic).map (.declaration ·.key) := by
  rcases table.exists_classMembersStep budget key name isStatic with ⟨deeper, step⟩
  rw [step, Lookups.classMembersStep, isFound]
  simp only

theorem classMembers_zero_of_not_own (none : found.ownMembers name isStatic = []) :
    table.classMembers 0 key name isStatic = [] := by
  have step : table.classMembers 0 key name isStatic =
      (Lookups.nothing .plain).classMembersStep table key name isStatic := rfl
  rw [step, Lookups.classMembersStep, isFound]
  simp only [none]
  rfl

theorem classMembers_succ_of_not_own (none : found.ownMembers name isStatic = [])
    (budget : Nat) :
    table.classMembers (budget + 1) key name isStatic =
      (table.superclass? budget found).elim [] (table.classMembers budget · name isStatic) := by
  have step : table.classMembers (budget + 1) key name isStatic =
      (table.lookups .plain budget).classMembersStep table key name isStatic := rfl
  rw [step, Lookups.classMembersStep, isFound]
  simp only [none]
  rfl

end Step

theorem enumerates_classMembers_succ (apart : table.ClassesApart) {rest : List Place} {budget : Nat}
    (hasClass : table.HasClass definition)
    (above : Enumerates Place.symbol Place.Precedes (Place.Nearest name isStatic rest)
      ((table.superclass? budget definition.node).elim []
        (table.classMembers budget · name isStatic))) :
    Enumerates Place.symbol Place.Precedes (Place.Nearest name isStatic (definition :: rest))
      (table.classMembers (budget + 1) definition.node.key name isStatic) := by
  have isFound := node?_key apart hasClass
  by_cases none : definition.node.ownMembers name isStatic = []
  · rw [classMembers_succ_of_not_own isFound none]
    exact above.congr fun member => (Place.nearest_cons_iff_of_none none).symm
  · rw [classMembers_of_own isFound none]
    exact (definition.enumerates_ownSymbols name isStatic).congr fun member =>
      (Place.nearest_cons_iff_of_own none).symm

/-- A chain of classes that fits into the budget is followed to the first one with the name. -/
theorem enumerates_classMembers (apart : table.ClassesApart) {rest : List Place} {budget : Nat}
    (hasClass : table.HasClass definition) (chain : (definition :: rest).IsChain table.Extends)
    (ends : ∀ last ∈ (definition :: rest).getLast?, last.ExtendsNothing)
    (enough : rest.length + 4 ≤ budget + 1) :
    Enumerates Place.symbol Place.Precedes (Place.Nearest name isStatic (definition :: rest))
      (table.classMembers (budget + 1) definition.node.key name isStatic) := by
  induction rest generalizing definition budget with
  | nil =>
      apply enumerates_classMembers_succ apart hasClass
      rw [superclass?_of_extendsNothing (ends definition rfl), Option.elim_none]
      apply Enumerates.nil
      intro member nearest
      cases nearest
  | cons base rest ih =>
      simp only [List.length_cons] at enough
      rcases List.isChain_cons_cons.1 chain with ⟨extending, chain⟩
      obtain ⟨budget, rfl⟩ : ∃ less, budget = less + 1 := ⟨budget - 1, by omega⟩
      apply enumerates_classMembers_succ apart hasClass
      rw [superclass?_of_extends apart extending, if_pos (by omega), Option.elim_some]
      exact ih extending.hasBase chain (by simpa using ends) (by omega)

/-- Where no class has the name and each extends another one of them or nothing, none is found. -/
theorem classMembers_eq_nil_of_closed (apart : table.ClassesApart) {classes : List Place}
    (hasClass : ∀ definition ∈ classes, table.HasClass definition)
    (closed : ∀ definition ∈ classes, definition.ExtendsNothing ∨
      ∃ base ∈ classes, table.Extends definition base)
    (nothing : ∀ definition ∈ classes, ∀ member, ¬definition.Declares name isStatic member)
    (budget : Nat) (definitionMem : definition ∈ classes) :
    table.classMembers budget definition.node.key name isStatic = [] := by
  induction budget generalizing definition with
  | zero =>
      exact classMembers_zero_of_not_own (node?_key apart (hasClass definition definitionMem))
        (Place.ownMembers_eq_nil_iff.2 (nothing definition definitionMem))
  | succ budget ih =>
      rw [classMembers_succ_of_not_own (node?_key apart (hasClass definition definitionMem))
        (Place.ownMembers_eq_nil_iff.2 (nothing definition definitionMem))]
      rcases closed definition definitionMem with ends | ⟨base, baseMem, extending⟩
      · rw [superclass?_of_extendsNothing ends, Option.elim_none]
      · rw [superclass?_of_extends apart extending]
        split
        · exact ih baseMem
        · rfl

/-- Whether a place is in a file of the table. -/
def HasPlace (table : SymbolTable) (place : Place) : Prop :=
  ∃ id file scopes, table.file? id = some (file, scopes) ∧ place ∈ file.places

theorem hasClass_and_extends_of_isChain {rest : List Place}
    (hasClass : table.HasClass definition) (chain : (definition :: rest).IsChain table.Extends) :
    ∀ item ∈ definition :: rest, table.HasClass item ∧
      (item ∈ (definition :: rest).getLast? ∨
        ∃ base ∈ definition :: rest, table.Extends item base) := by
  induction rest generalizing definition with
  | nil => simpa using hasClass
  | cons base rest ih =>
      rcases List.isChain_cons_cons.1 chain with ⟨extending, chain⟩
      intro item itemMem
      rcases List.mem_cons.1 itemMem with rfl | itemMem
      · exact ⟨hasClass, .inr ⟨base, by simp, extending⟩⟩
      · rcases ih extending.hasBase chain item itemMem with ⟨itemIsClass, isLast | next⟩
        · exact ⟨itemIsClass, .inl (by simpa using isLast)⟩
        · rcases next with ⟨above, aboveMem, extending⟩
          exact ⟨itemIsClass, .inr ⟨above, List.mem_cons_of_mem _ aboveMem, extending⟩⟩

theorem exists_place_of_node? {key : NodeKey} {found : Node}
    (isFound : table.node? key = some found) :
    ∃ place, table.HasPlace place ∧ place.node = found := by
  rcases Option.bind_eq_some_iff.1 isFound with ⟨⟨file, scopes⟩, isKnown, isFound⟩
  rcases SourceFile.exists_place_of_mem_preorder (SourceFile.key_of_nodeAt? isFound).1 with
    ⟨place, placeMem, isNode⟩
  exact ⟨place, ⟨_, file, scopes, isKnown, placeMem⟩, isNode⟩

theorem exists_declares_of_mem_ownMembers {key : NodeKey} {found : Node} {symbol : Symbol}
    (isFound : table.node? key = some found)
    (symbolMem : symbol ∈ (found.ownMembers name isStatic).map (.declaration ·.key)) :
    ∃ definition member, table.HasPlace definition ∧ definition.Declares name isStatic member ∧
      member.symbol = symbol ∧ ¬member.IsConstructor := by
  rcases exists_place_of_node? isFound with ⟨definition, hasPlace, rfl⟩
  rcases ((definition.enumerates_ownSymbols name isStatic).mem_iff symbol).1 symbolMem with
    ⟨member, declares, isSymbol⟩
  exact ⟨definition, member, hasPlace, declares, isSymbol, declares.not_isConstructor⟩

/-- What is found in a class is its own, or it is found with less in the class that it extends. -/
theorem cases_of_mem_classMembers {budget : Nat} {key : NodeKey} {symbol : Symbol}
    (symbolMem : symbol ∈ table.classMembers budget key name isStatic) :
    ∃ found, table.node? key = some found ∧
      (symbol ∈ (found.ownMembers name isStatic).map (.declaration ·.key) ∨
        ∃ less base, budget = less + 1 ∧ table.superclass? less found = some base ∧
          symbol ∈ table.classMembers less base name isStatic) := by
  cases isFound : table.node? key with
  | none =>
      rcases table.exists_classMembersStep budget key name isStatic with ⟨deeper, step⟩
      rw [step, Lookups.classMembersStep, isFound] at symbolMem
      cases symbolMem
  | some found =>
      refine ⟨found, rfl, ?_⟩
      by_cases none : found.ownMembers name isStatic = []
      · cases budget with
        | zero => simp [classMembers_zero_of_not_own isFound none] at symbolMem
        | succ budget =>
            rw [classMembers_succ_of_not_own isFound none] at symbolMem
            cases isSuperclass : table.superclass? budget found with
            | none => simp [isSuperclass] at symbolMem
            | some base =>
                rw [isSuperclass, Option.elim_some] at symbolMem
                exact .inr ⟨budget, base, rfl, isSuperclass, symbolMem⟩
      · rw [classMembers_of_own isFound none] at symbolMem
        exact .inl symbolMem

theorem exists_declares_of_mem_classMembers {budget : Nat} {key : NodeKey} {symbol : Symbol}
    (symbolMem : symbol ∈ table.classMembers budget key name isStatic) :
    ∃ definition member, table.HasPlace definition ∧ definition.Declares name isStatic member ∧
      member.symbol = symbol ∧ ¬member.IsConstructor := by
  induction budget generalizing key with
  | zero =>
      rcases cases_of_mem_classMembers symbolMem with ⟨found, isFound, own | ⟨less, -, noLess, -⟩⟩
      · exact exists_declares_of_mem_ownMembers isFound own
      · omega
  | succ budget ih =>
      rcases cases_of_mem_classMembers symbolMem with
        ⟨found, isFound, own | ⟨less, base, isLess, -, above⟩⟩
      · exact exists_declares_of_mem_ownMembers isFound own
      · obtain rfl : budget = less := by omega
        exact ih above

/--
The members of a class under a name, looked up one step below the start. If each
class of a chain extends the next one and the last extends nothing, they are those
that the first class with the name declares, in source order, for up to twenty-five
classes. Nothing is found if no class of the chain has the name, even if its last
one extends an earlier one. A constructor is never found, whatever a class extends.
-/
theorem classMembers_nearest (table : SymbolTable) (apart : table.ClassesApart) {first : Place}
    {rest : List Place} (hasClass : table.HasClass first)
    (chain : (first :: rest).IsChain table.Extends) (name : String) (isStatic : Bool) :
    ((first :: rest).length ≤ 25 →
      (∀ last ∈ (first :: rest).getLast?, last.ExtendsNothing) →
      Enumerates Place.symbol Place.Precedes (Place.Nearest name isStatic (first :: rest))
        (table.classMembers defaultLimit first.node.key name isStatic)) ∧
    ((∀ last ∈ (first :: rest).getLast?, last.ExtendsNothing ∨
        ∃ base ∈ first :: rest, table.Extends last base) →
      (∀ definition ∈ first :: rest, ∀ member, ¬definition.Declares name isStatic member) →
      table.classMembers defaultLimit first.node.key name isStatic = []) ∧
    ∀ budget key, ∀ symbol ∈ table.classMembers budget key name isStatic,
      ∃ definition member, table.HasPlace definition ∧
        definition.Declares name isStatic member ∧ member.symbol = symbol ∧
        ¬member.IsConstructor := by
  refine ⟨?_, ?_, ?_⟩
  · intro short ends
    apply enumerates_classMembers apart hasClass chain ends
    simp only [List.length_cons] at short
    omega
  · intro ends nothing
    have linked := hasClass_and_extends_of_isChain hasClass chain
    refine classMembers_eq_nil_of_closed apart (fun item itemMem => (linked item itemMem).1) ?_
      nothing defaultLimit List.mem_cons_self
    intro item itemMem
    rcases (linked item itemMem).2 with isLast | next
    · exact ends item isLast
    · exact .inr next
  · intro budget key symbol symbolMem
    exact exists_declares_of_mem_classMembers symbolMem

/--
Three classes, of which the second has a property where the first has a method. The
first also has a field, whose name is in quotes, and another method.
-/
def shadowing : SourceFile where
  id := 0
  path := ⟨"/shadowing.ts"⟩
  text := "class A\x7bx()\x7b\x7d'y'=0;z()\x7b\x7d\x7d" ++
    "class B extends A\x7bconstructor(private x)\x7b\x7d\x7d" ++ "class C extends B\x7b\x7d"
  root :=
    .node ⟨⟨"program", true⟩, 0, 87, none⟩
      [.node ⟨⟨"class_declaration", true⟩, 0, 25, none⟩
        [.node ⟨⟨"type_identifier", true⟩, 6, 7, some "name"⟩ [],
          .node ⟨⟨"class_body", true⟩, 7, 25, some "body"⟩
            [.node ⟨⟨"method_definition", true⟩, 8, 13, none⟩
              [.node ⟨⟨"property_identifier", true⟩, 8, 9, some "name"⟩ []],
              .node ⟨⟨"public_field_definition", true⟩, 13, 18, none⟩
                [.node ⟨⟨"string", true⟩, 13, 16, some "name"⟩
                  [.node ⟨⟨"string_fragment", true⟩, 14, 15, none⟩ []],
                  .node ⟨⟨"number", true⟩, 17, 18, some "value"⟩ []],
              .node ⟨⟨"method_definition", true⟩, 19, 24, none⟩
                [.node ⟨⟨"property_identifier", true⟩, 19, 20, some "name"⟩ []]]],
        .node ⟨⟨"class_declaration", true⟩, 25, 68, none⟩
          [.node ⟨⟨"type_identifier", true⟩, 31, 32, some "name"⟩ [],
            .node ⟨⟨"class_heritage", true⟩, 33, 42, none⟩
              [.node ⟨⟨"extends_clause", true⟩, 33, 42, none⟩
                [.node ⟨⟨"identifier", true⟩, 41, 42, some "value"⟩ []]],
            .node ⟨⟨"class_body", true⟩, 42, 68, some "body"⟩
              [.node ⟨⟨"method_definition", true⟩, 43, 67, none⟩
                [.node ⟨⟨"property_identifier", true⟩, 43, 54, some "name"⟩ [],
                  .node ⟨⟨"formal_parameters", true⟩, 54, 65, some "parameters"⟩
                    [.node ⟨⟨"required_parameter", true⟩, 55, 64, none⟩
                      [.node ⟨⟨"accessibility_modifier", true⟩, 55, 62, none⟩ [],
                        .node ⟨⟨"identifier", true⟩, 63, 64, some "pattern"⟩ []]]]]],
        .node ⟨⟨"class_declaration", true⟩, 68, 87, none⟩
          [.node ⟨⟨"type_identifier", true⟩, 74, 75, some "name"⟩ [],
            .node ⟨⟨"class_heritage", true⟩, 76, 85, none⟩
              [.node ⟨⟨"extends_clause", true⟩, 76, 85, none⟩
                [.node ⟨⟨"identifier", true⟩, 84, 85, some "value"⟩ []]],
            .node ⟨⟨"class_body", true⟩, 85, 87, some "body"⟩ []]]

/-- The place at the given position in the file. -/
def shadowingPlace (index : Nat) : Place :=
  shadowing.places.getD index shadowing.rootPlace

theorem shadowingPlace_mem (index : Nat) : shadowingPlace index ∈ shadowing.places :=
  shadowing.getD_mem_places index

theorem classesApart_shadowing : shadowing.ClassesApart where
  ordered := by simp [shadowing, Tree.Ordered, Tree.OrderedBetween, Tree.value]
  nonempty := by decide +kernel
  keys := by
    have addresses : ∀ place ∈ shadowing.places, ∀ other ∈ shadowing.places,
        place.node.isClass → other.node.isClass → place.node.key = other.node.key →
          place.address = other.address := by decide +kernel
    intro place placeMem other otherMem isClass otherIsClass sameKey
    exact List.inj_on_of_nodup_map shadowing.nodup_places placeMem otherMem
      (addresses place placeMem other otherMem isClass otherIsClass sameKey)

theorem classMembers_nearest_shadowing :
    let table := ofFiles ⟨"/"⟩ .empty [shadowing]
    let classes := [shadowingPlace 24, shadowingPlace 12, shadowingPlace 1]
    let members := [("x", 21), ("y", 6), ("z", 10)]
    table.ClassesApart ∧ (∀ definition ∈ classes, table.HasClass definition) ∧
    classes.IsChain table.Extends ∧ (shadowingPlace 1).ExtendsNothing ∧
    members.map (fun member => (shadowingPlace member.2).node.kindName) =
      ["required_parameter", "public_field_definition", "method_definition"] ∧
    ∀ member ∈ members,
      table.classMembers defaultLimit (shadowingPlace 24).node.key member.1 false =
        [(shadowingPlace member.2).symbol] ∧
      Enumerates Place.symbol Place.Precedes (Place.Nearest member.1 false classes)
        (table.classMembers defaultLimit (shadowingPlace 24).node.key member.1 false) := by
  intro table classes members
  have apart : table.ClassesApart := by
    rintro (_ | id) file scopes isKnown
    · cases isKnown
      exact classesApart_shadowing
    · simp [table, file?, ofFiles] at isKnown
  have hasClass : ∀ definition ∈ classes, table.HasClass definition := by
    simp only [classes, List.mem_cons, List.not_mem_nil, or_false]
    rintro definition (rfl | rfl | rfl)
    all_goals exact ⟨by decide +kernel, ⟨_, rfl⟩, shadowingPlace_mem _⟩
  have chain : classes.IsChain table.Extends :=
    .cons_cons
      (@Extends.byName table _ _ (shadowingPlace 28).node shadowing (.ofFile shadowing) []
        (hasClass _ (by simp [classes])) rfl (by decide) rfl (by decide +kernel)) <|
    .cons_cons
      (@Extends.byName table _ _ (shadowingPlace 16).node shadowing (.ofFile shadowing) []
        (hasClass _ (by simp [classes])) rfl (by decide) rfl (by decide +kernel)) <|
    .singleton _
  have ends : (shadowingPlace 1).ExtendsNothing := by
    intro expression isExtended
    cases isExtended
  have found : ∀ member ∈ members,
      table.classMembers defaultLimit (shadowingPlace 24).node.key member.1 false =
        [(shadowingPlace member.2).symbol] := by decide +kernel
  refine ⟨apart, hasClass, chain, ends, by decide +kernel, fun member memberMem => ?_⟩
  have nearest := classMembers_nearest table apart (hasClass _ List.mem_cons_self) chain
    member.1 false
  exact ⟨found member memberMem, nearest.1 (by decide) (by simpa using ends)⟩

end SymbolTable

end CallHierarchy
