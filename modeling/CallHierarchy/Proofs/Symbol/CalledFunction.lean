import CallHierarchy.Proofs.Run.DeclarationIndex
import CallHierarchy.Proofs.Symbol.ClassMember
import CallHierarchy.Proofs.Symbol.NamespaceAccess

/-!
# Which function a call calls

A function expression is named by the construct whose value it is. From the
function to the construct one goes up, through any number of parentheses; from the
construct to the function one goes down, to the value itself. The first way decides
which unit a call invokes, the second one what the call returns.

The two ways agree on every function that is itself the value of its construct.
Around a function in parentheses they do not: the call invokes the function, and
nothing is known of what it returns.
-/

namespace CallHierarchy

namespace Node

/-- The kinds of functions that are named by their context. -/
def functionKinds : List String :=
  ["arrow_function", "function_expression", "generator_function"]

/-- Whether a node stands directly in parentheses. -/
def isParenthesized (node : Node) : Bool :=
  node.parent?.any (·.kindName == "parenthesized_expression")

/-- Whether a construct gives its value a name, as all do but those that take the value apart. -/
def namesValue (context : Node) : Bool :=
  contextKinds.contains context.kindName && (context.kindName != "variable_declarator" ||
    (context.childAt? "name").any (·.kindName == "identifier"))

variable {node value context : Node}

theorem callable?_of_mem_contextKinds (isKind : context.kindName ∈ contextKinds) :
    context.callable? = (context.childAt? "value").filter (functionKinds.contains ·.kindName) := by
  simp only [contextKinds, List.mem_cons, List.not_mem_nil, or_false] at isKind
  rcases isKind with isKind | isKind | isKind | isKind <;>
    · simp only [callable?, isKind]
      rfl

theorem not_parenthesized_of_mem_contextKinds (isKind : context.kindName ∈ contextKinds) :
    context.kindName ≠ "parenthesized_expression" := by
  rintro isParentheses
  simp [contextKinds, isParentheses] at isKind

theorem not_isParenthesized (isParent : node.parent? = some context)
    (isKind : context.kindName ∈ contextKinds) : ¬node.isParenthesized := by
  simpa [isParenthesized, isParent] using not_parenthesized_of_mem_contextKinds isKind

/-- One goes up through no parentheses at all, or ends at some. -/
theorem WrappedIn.eq_or_parenthesized
    (wrapped : node.WrappedIn ["parenthesized_expression"] value) :
    value = node ∨ node.isParenthesized ∧ value.kindName = "parenthesized_expression" := by
  rcases Relation.ReflTransGen.cases_head wrapped with same | ⟨outer, ⟨isParent, isKind⟩, -⟩
  · exact .inl same.symm
  rcases Relation.ReflTransGen.cases_tail wrapped with same | ⟨_, -, -, isValueKind⟩
  · exact .inl same
  · rw [List.mem_singleton] at isKind isValueKind
    exact .inr ⟨by simp [isParenthesized, isParent, isKind], isValueKind⟩

theorem namingContext?_of_childAt? (isValue : context.childAt? "value" = some node)
    (names : context.namesValue) : node.namingContext? = some context := by
  simp only [namesValue, Bool.and_eq_true, List.contains_iff_mem] at names
  have isParent := parent?_of_childAt? isValue
  have stays : node.climb ["parenthesized_expression"] = node := by
    rw [climb_of_parent? isParent, if_neg]
    simpa using not_parenthesized_of_mem_contextKinds names.1
  have isChild : node.isChildAt "value" := isChildAt_iff.2 ⟨context, isParent, isValue⟩
  simp only [namingContext?, stays, isParent, isChild]
  split <;> grind [contextKinds]

/-- Down and up again: what a construct makes callable is named by it. -/
theorem namingContext?_of_callable? (names : context.namesValue)
    (isCallable : context.callable? = some node) :
    node.kindName ∈ functionKinds ∧ node.namingContext? = some context ∧
      ¬node.isParenthesized := by
  have isContext : context.kindName ∈ contextKinds := by
    simp only [namesValue, Bool.and_eq_true, List.contains_iff_mem] at names
    exact names.1
  rw [callable?_of_mem_contextKinds isContext, Option.filter_eq_some_iff] at isCallable
  rcases isCallable with ⟨isChild, isKind⟩
  exact ⟨by simpa using isKind, namingContext?_of_childAt? isChild names,
    not_isParenthesized (parent?_of_childAt? isChild) isContext⟩

/-- Up and down again: what names a function makes it callable, unless it is in parentheses. -/
theorem callable?_of_namingContext? (isKind : node.kindName ∈ functionKinds)
    (isContext : node.namingContext? = some context) :
    context.callable? = if node.isParenthesized then none else some node := by
  rcases namingContext?_spec isContext with ⟨value, wrapped, isParent, isValue, isContextKind⟩
  rw [callable?_of_mem_contextKinds isContextKind, isValue]
  rcases wrapped.eq_or_parenthesized with rfl | ⟨inParentheses, isParentheses⟩
  · rw [if_neg (not_isParenthesized isParent isContextKind)]
    simp [isKind]
  · rw [if_pos inParentheses]
    simp [isParentheses, functionKinds]

end Node

/-- What has a context is not the whole file. -/
theorem Place.entity?_of_namingContext? {place : Place} {context : Node}
    (isContext : place.node.namingContext? = some context) :
    place.entity? = Entity.ofNode? place.node := by
  rcases place with ⟨⟨file, tree, _ | ⟨parent, around⟩⟩, address⟩
  · cases isContext
  · rfl

namespace SourceFile

variable {file : SourceFile} {place : Place}

/-- Whether the constructs of a file that name their values are found by their keys. -/
structure ContextsApart (file : SourceFile) : Prop where
  ordered : file.root.Ordered
  nonempty : ∀ place ∈ file.places, place.node.kindName ∈ Node.contextKinds →
    place.node.start < place.node.stop
  keys : ∀ place ∈ file.places, place.node.kindName ∈ Node.contextKinds →
    ∀ other ∈ file.places, other.node.key = place.node.key → other = place

theorem ContextsApart.nodeAt?_eq (apart : file.ContextsApart) (placeMem : place ∈ file.places)
    (isContext : place.node.kindName ∈ Node.contextKinds) :
    file.nodeAt? place.node.key = some place.node :=
  nodeAt?_of_unique apart.ordered placeMem (apart.nonempty place placeMem isContext)
    (apart.keys place placeMem isContext)

/-- A function expression that has a name is an entity, declared by what names it. -/
theorem mem_entities_of_namingContext? (placeMem : place ∈ file.places)
    (isNamed : place.node.isNamed) (isKind : place.node.kindName ∈ Node.functionKinds)
    {declaration : Node} (isContext : place.node.namingContext? = some declaration) :
    (place, ⟨place.node, .function, some declaration⟩) ∈ file.entities := by
  have isEntity : Entity.ofNode? place.node = some ⟨place.node, .function, some declaration⟩ := by
    simp only [Node.functionKinds, List.mem_cons, List.not_mem_nil, or_false] at isKind
    rcases isKind with isKind | isKind | isKind <;>
      simp [Entity.ofNode?, Entity.ofConstruct?, isNamed, isKind, isContext]
  rw [← Place.entity?_of_namingContext? isContext] at isEntity
  exact Place.mem_entities.2 ⟨placeMem, isEntity⟩

end SourceFile

namespace SymbolTable

variable {table : SymbolTable} {budget limit : Nat} {call callee : Node} {key : NodeKey}

/-- What the callee of a call refers to, if it is a name or a member access. -/
def calledSymbols (table : SymbolTable) (budget : Nat) (callee : Node) : List Symbol :=
  (table.lookups .plain budget).calleeSymbols callee

/-- What a call returns is what the function that the callee stands for first says it returns. -/
theorem typeOf?_call (isCall : call.kindName = "call_expression")
    (isCallee : call.childAt? "function" = some callee)
    (isFirst : (table.calledSymbols budget callee).head? = some (.declaration key)) :
    table.typeOf? (budget + 1) call =
      (((table.node? key).bind Node.callable?).bind (·.childAt? "return_type")).bind
        (table.annotatedType? budget) := by
  have step : table.typeOf? (budget + 1) call =
      (table.lookups .plain budget).typeStep table false call := rfl
  have isFirst : ((table.lookups .plain budget).calleeSymbols callee).head? =
      some (.declaration key) := isFirst
  rw [step, Lookups.typeStep, isCall]
  simp only [Bool.false_eq_true, if_false, isCallee, Lookups.returnType, isFirst]
  rfl

theorem declarationsWithin_of_calledSymbols
    (isFirst : (table.calledSymbols (limit + 1) callee).head? = some (.declaration key)) :
    ∃ others, table.declarationsWithin limit callee = key :: others := by
  have isCalled : table.declarationsWithin limit callee =
      (table.calledSymbols (limit + 1) callee).filterMap Symbol.declaration? := by
    unfold calledSymbols Lookups.calleeSymbols at isFirst ⊢
    split at isFirst
    next isKind => exact table.declarationsWithin_identifier isKind limit
    next isKind => exact table.declarationsWithin_access isKind limit
    · cases isFirst
  rcases List.head?_eq_some_iff.1 isFirst with ⟨others, isCons⟩
  exact ⟨others.filterMap Symbol.declaration?, by rw [isCalled, isCons]; rfl⟩

/-- What names an expression is found by its key. -/
theorem node?_of_namingContext? (table : SymbolTable) {file : SourceFile}
    (isKnown : ∃ scopes, table.file? file.id = some (file, scopes)) (apart : file.ContextsApart)
    {place : Place} (placeMem : place ∈ file.places) {declaration : Node}
    (isContext : place.node.namingContext? = some declaration) :
    table.node? declaration.key = some declaration := by
  rcases SourceFile.exists_namedBy placeMem isContext with ⟨naming, namingMem, rfl, named⟩
  rcases named with ⟨_, -, -, -, isKind⟩
  rcases isKnown with ⟨scopes, isKnown⟩
  have sameFile : naming.node.key.file = file.id :=
    congrArg SourceFile.id (SourceFile.file_of_mem_places namingMem)
  rw [node?, sameFile, isKnown, Option.bind_some]
  exact apart.nodeAt?_eq namingMem isKind

end SymbolTable

namespace Run

section

variable {files : List SourceFile} {place : Place} {entity : Entity} {id : UnitId}
  (distinctIds : (files.map (·.id)).Nodup) (apart : ∀ file ∈ files, file.NamesApart)
  (itemMem : ((place, entity), id) ∈ (files.flatMap SourceFile.entities).zipIdx 1)

include distinctIds apart itemMem

theorem unitOfNode?_of_namesApart (isNode : entity.node = place.node) :
    (files.foldl classify empty).unitOfNode? place.node.key = some id := by
  rw [unitOfNode?_foldl_classify, ← isNode]
  exact lastFor?_zipIdx (·.2.node.key) (nodup_flatMap_entities distinctIds) itemMem
    fun other otherMem =>
      eq_of_node_key distinctIds apart (List.fst_mem_of_mem_zipIdx itemMem) otherMem

/-- What has a name is found by the key of what names it, and by no other key. -/
theorem unitOfDeclaration?_eq_iff {declaration : Node}
    (isDeclared : entity.declaration = some declaration) (key : NodeKey) :
    (files.foldl classify empty).unitOfDeclaration? key = some id ↔ key = declaration.key := by
  rw [unitOfDeclaration?_foldl_classify]
  constructor
  · intro isUnit
    rcases List.mem_map.1 (mem_of_lastFor? isUnit) with ⟨⟨other, otherId⟩, otherMem, isPair⟩
    rcases Prod.mk.inj isPair with ⟨isKey, rfl⟩
    have same : other = (place, entity) := by
      rw [List.mem_zipIdx_iff_le_and_getElem?_sub] at itemMem otherMem
      exact Option.some.inj (otherMem.2.symm.trans itemMem.2)
    rw [same, isDeclared] at isKey
    exact (Option.some.inj isKey).symm
  · rintro rfl
    have isKey : entity.declaration.map Node.key = some declaration.key := by rw [isDeclared]; rfl
    rw [← isKey]
    exact lastFor?_zipIdx (·.2.declaration.map Node.key) (nodup_flatMap_entities distinctIds)
      itemMem fun other otherMem sameKey =>
        eq_of_declaration_key distinctIds apart (List.fst_mem_of_mem_zipIdx itemMem) otherMem
          isKey (sameKey.trans isKey)

end

theorem edge?_of_calledSymbols {run : Run} {table : SymbolTable} {limit : Nat}
    {call callee : Node} {key : NodeKey} {id : UnitId}
    (isCall : call.kindName = "call_expression")
    (isCallee : call.childAt? "function" = some callee)
    (isFirst : (table.calledSymbols (limit + 1) callee).head? = some (.declaration key))
    (isUnit : run.unitOfDeclaration? key = some id) :
    run.edge? (table.declarationsWithin limit) call = some id := by
  rcases SymbolTable.declarationsWithin_of_calledSymbols isFirst with ⟨others, isCons⟩
  simp only [edge?, isCall, isCallee, Option.bind_some, isCons, List.findSome?_cons, isUnit]

/--
Naming and calling agree up to parentheses. What a construct makes callable is named
by it. What names a function makes the function callable, or nothing if the function
stands in parentheses. A call whose callee refers to that declaration first invokes
the function in both cases, but the type that the function returns is the type of
the call in the first case only.
-/
theorem call_of_named_function (table : SymbolTable) (files : List SourceFile) :
    (∀ declaration function : Node, declaration.namesValue →
      declaration.callable? = some function →
        function.kindName ∈ Node.functionKinds ∧ function.namingContext? = some declaration ∧
          ¬function.isParenthesized) ∧
    (∀ function declaration : Node, function.kindName ∈ Node.functionKinds →
      function.namingContext? = some declaration →
        declaration.callable? = if function.isParenthesized then none else some function) ∧
    ((files.map (·.id)).Nodup →
      (∀ file ∈ files, ∃ scopes, table.file? file.id = some (file, scopes)) →
      (∀ file ∈ files, file.NamesApart) → (∀ file ∈ files, file.ContextsApart) →
      let run := files.foldl classify empty
      ∀ file ∈ files, ∀ function ∈ file.rootNode.preorder, function.isNamed →
        function.kindName ∈ Node.functionKinds →
        ∀ declaration, function.namingContext? = some declaration →
          ∃ id, run.unitOfNode? function.key = some id ∧
            (∀ key, run.unitOfDeclaration? key = some id ↔ key = declaration.key) ∧
            ∀ limit call callee, call.kindName = "call_expression" →
              call.childAt? "function" = some callee →
              (table.calledSymbols (limit + 1) callee).head? =
                some (.declaration declaration.key) →
              run.edge? (table.declarationsWithin limit) call = some id ∧
              table.typeOf? (limit + 2) call =
                if function.isParenthesized then none
                else (function.childAt? "return_type").bind
                  (table.annotatedType? (limit + 1))) := by
  refine ⟨fun _ _ => Node.namingContext?_of_callable?,
    fun _ _ => Node.callable?_of_namingContext?, ?_⟩
  intro distinctIds known namesApart contextsApart run file fileMem function
    functionMem isNamed isKind declaration isContext
  rcases SourceFile.exists_place_of_mem_preorder functionMem with ⟨place, placeMem, rfl⟩
  have isFound : table.node? declaration.key = some declaration :=
    table.node?_of_namingContext? (known file fileMem) (contextsApart file fileMem) placeMem
      isContext
  have entityMem := SourceFile.mem_entities_of_namingContext? placeMem isNamed isKind isContext
  have itemMem := List.mem_flatMap.2 ⟨file, fileMem, entityMem⟩
  rw [← List.zipIdx_map_fst 1 (files.flatMap SourceFile.entities)] at itemMem
  rcases List.mem_map.1 itemMem with ⟨⟨item, id⟩, itemMem, rfl⟩
  have units := unitOfDeclaration?_eq_iff distinctIds namesApart itemMem rfl
  refine ⟨id, unitOfNode?_of_namesApart distinctIds namesApart itemMem rfl, units, ?_⟩
  intro limit call callee isCall isCallee isFirst
  refine ⟨edge?_of_calledSymbols isCall isCallee isFirst ((units _).2 rfl), ?_⟩
  rw [SymbolTable.typeOf?_call isCall isCallee isFirst, isFound, Option.bind_some,
    Node.callable?_of_namingContext? isKind isContext]
  split <;> rfl

/-- The tree of `() : A => null`. -/
def returningTree (start : Nat) (field : Option String) : SyntaxTree :=
  .node ⟨⟨"arrow_function", true⟩, start, start + 14, field⟩
    [.node ⟨⟨"type_annotation", true⟩, start + 3, start + 6, some "return_type"⟩
      [.node ⟨⟨"type_identifier", true⟩, start + 5, start + 6, none⟩ []]]

/-- The tree of `f().m();`. -/
def memberOfCallTree (start : Nat) : SyntaxTree :=
  .node ⟨⟨"expression_statement", true⟩, start, start + 8, none⟩
    [.node ⟨⟨"call_expression", true⟩, start, start + 7, none⟩
      [.node ⟨⟨"member_expression", true⟩, start, start + 5, some "function"⟩
        [.node ⟨⟨"call_expression", true⟩, start, start + 3, some "object"⟩
          [.node ⟨⟨"identifier", true⟩, start, start + 1, some "function"⟩ []],
          .node ⟨⟨"property_identifier", true⟩, start + 4, start + 5, some "property"⟩ []]]]

/-- Two functions that return instances of a class, the first one in parentheses. -/
def returningFunctions : SourceFile where
  id := 0
  path := ⟨"/p/a.ts"⟩
  text := "class A \x7b m() \x7b\x7d \x7d\n" ++
    "const f = (() : A => null), g = () : A => null;\nf().m(); g().m();"
  root :=
    .node ⟨⟨"program", true⟩, 0, 84, none⟩
      [.node ⟨⟨"class_declaration", true⟩, 0, 18, none⟩
        [.node ⟨⟨"type_identifier", true⟩, 6, 7, some "name"⟩ [],
          .node ⟨⟨"class_body", true⟩, 8, 18, some "body"⟩
            [.node ⟨⟨"method_definition", true⟩, 10, 16, none⟩
              [.node ⟨⟨"property_identifier", true⟩, 10, 11, some "name"⟩ []]]],
        .node ⟨⟨"lexical_declaration", true⟩, 19, 66, none⟩
          [.node ⟨⟨"variable_declarator", true⟩, 25, 45, none⟩
            [.node ⟨⟨"identifier", true⟩, 25, 26, some "name"⟩ [],
              .node ⟨⟨"parenthesized_expression", true⟩, 29, 45, some "value"⟩
                [returningTree 30 none]],
            .node ⟨⟨"variable_declarator", true⟩, 47, 65, none⟩
              [.node ⟨⟨"identifier", true⟩, 47, 48, some "name"⟩ [],
                returningTree 51 (some "value")]],
        memberOfCallTree 67, memberOfCallTree 76]

/-- The node at the given position in the file. -/
def returningNode (index : Nat) : Node :=
  (returningFunctions.places.getD index returningFunctions.rootPlace).node

theorem returningNode_mem (index : Nat) :
    returningNode index ∈ returningFunctions.rootNode.preorder :=
  SourceFile.node_mem_preorder (returningFunctions.getD_mem_places index)

theorem contextsApart_returningFunctions : returningFunctions.ContextsApart where
  ordered := by
    simp [returningFunctions, returningTree, memberOfCallTree, Tree.Ordered, Tree.OrderedBetween,
      Tree.value]
  nonempty := by decide +kernel
  keys := by
    have distinct : (returningFunctions.places.map (·.node.key)).Nodup := by decide +kernel
    intro place placeMem _ other otherMem sameKey
    exact List.inj_on_of_nodup_map distinct otherMem placeMem sameKey

theorem call_of_named_function_returning :
    let table := SymbolTable.ofFiles ⟨"/"⟩ .empty [returningFunctions]
    let run := [returningFunctions].foldl classify empty
    ([returningFunctions].map (·.id)).Nodup ∧
    (∀ file ∈ [returningFunctions], ∃ scopes, table.file? file.id = some (file, scopes)) ∧
    (∀ file ∈ [returningFunctions], file.NamesApart) ∧
    (∀ file ∈ [returningFunctions], file.ContextsApart) ∧
    (returningNode 13).callable? = some (returningNode 15) ∧
    run.edge? table.declarations (returningNode 27) = run.unitOfNode? (returningNode 15).key ∧
    table.typeOf? 32 (returningNode 27) = some (.instanceOf (returningNode 1).key) := by
  intro table run
  have distinctIds : ([returningFunctions].map (·.id)).Nodup := by decide
  have known : ∀ file ∈ [returningFunctions],
      ∃ scopes, table.file? file.id = some (file, scopes) := by
    simp only [List.mem_singleton, forall_eq]
    exact ⟨_, rfl⟩
  have namesApart : ∀ file ∈ [returningFunctions], file.NamesApart := by
    simp only [List.mem_singleton, forall_eq]
    exact .of_nodup (by decide +kernel) (by decide +kernel)
  have contextsApart : ∀ file ∈ [returningFunctions], file.ContextsApart := by
    simp only [List.mem_singleton, forall_eq]
    exact contextsApart_returningFunctions
  have isKind : (returningNode 15).kindName ∈ Node.functionKinds := by decide +kernel
  rcases call_of_named_function table [returningFunctions] with ⟨-, callable, called⟩
  have isCallable := callable (returningNode 15) (returningNode 13) isKind rfl
  have named := called distinctIds known namesApart contextsApart returningFunctions
    List.mem_cons_self (returningNode 15) (returningNode_mem 15) (by decide +kernel) isKind
    (returningNode 13) rfl
  rcases named with ⟨id, isUnit, -, called⟩
  have isCall : (returningNode 27).kindName = "call_expression" := by decide +kernel
  have isCallee : (returningNode 27).childAt? "function" = some (returningNode 28) := rfl
  have invokes := (called 32 _ _ isCall isCallee (by decide +kernel)).1
  have returns := (called 30 _ _ isCall isCallee (by decide +kernel)).2
  refine ⟨distinctIds, known, namesApart, contextsApart, isCallable, invokes.trans isUnit.symm,
    returns.trans ?_⟩
  decide +kernel

/--
The function in parentheses is named by its declaration and invoked through it, but
the declaration makes nothing callable. What its call returns is not known, although
the function says that it is an instance of the class.
-/
theorem callable?_misses_parenthesized_function :
    let table := SymbolTable.ofFiles ⟨"/"⟩ .empty [returningFunctions]
    let run := [returningFunctions].foldl classify empty
    (returningNode 10).kindName = "arrow_function" ∧
    (returningNode 10).namingContext? = some (returningNode 7) ∧
    (returningNode 7).callable? = none ∧
    run.unitOfNode? (returningNode 10).key = some 4 ∧
    run.edge? table.declarations (returningNode 21) = some 4 ∧
    ((returningNode 10).childAt? "return_type").bind (table.annotatedType? 31) =
      some (.instanceOf (returningNode 1).key) ∧
    table.typeOf? 32 (returningNode 21) = none ∧
    table.declarations (returningNode 20) = [] ∧
    table.declarations (returningNode 26) = [(returningNode 4).key] := by
  intro table run
  refine ⟨by decide +kernel, rfl, rfl, by decide +kernel, by decide +kernel, by decide +kernel,
    by decide +kernel, by decide +kernel, by decide +kernel⟩

end Run

end CallHierarchy
