import CallHierarchy.Proofs.Alike.Locate
import CallHierarchy.Proofs.Alike.Scope
import CallHierarchy.Proofs.Import.Search
import CallHierarchy.Proofs.Symbol.Simulation

/-!
# Look-ups in alike projects

Two symbol tables are alike when the second has files like those of the first, under
other numbers, and the imports of the first lead to these files in both. The second may
have more files. Then a look-up that starts at a node of the first table stays among its
files, and finds the same from the node like it in the second, up to the numbers of the
files. What is found is found by key, so along with every result goes the fact that its
keys are those of alike nodes and its files are files of the first table: the next step
of the look-up needs it.

Alike tables correspond in the sense of `SymbolTable.Like`, so no look-up is opened here.
-/

namespace CallHierarchy

/-- Keys of alike nodes, and numbers of files that stand for each other. -/
def Pairing.counterparts (pairing : Pairing) (known : FileId → Prop) : Counterparts where
  node := Node.Alike pairing
  key := Mapped (NodeKey.renumber pairing.numbers) (NodeKey.Shared pairing)
  file := Mapped pairing.numbers known

namespace Node.Alike

variable {pairing : Pairing} {known : FileId → Prop} {node otherNode : Node}
  (alike : node.Alike pairing otherNode)

include alike

theorem mapped_key : (pairing.counterparts known).key node.key otherNode.key :=
  ⟨alike.key, alike.shared⟩

theorem memberName? : otherNode.memberName? = node.memberName? :=
  alike.declaredName?.map_eq fun _ _ same => congrArg Text.unquote same.text

theorem callable? : Option.Rel (Alike pairing) node.callable? otherNode.callable? := by
  have value := (alike.childAt? "value").filter fun _ _ same =>
    congrArg ["arrow_function", "function_expression", "generator_function"].contains same.kindName
  simp only [Node.callable?, alike.kindName]
  split
  all_goals first | exact .some alike | exact value | exact .none

theorem superclassExpression? :
    Option.Rel (Alike pairing) node.superclassExpression? otherNode.superclassExpression? := by
  apply (alike.find?_namedChildren (by decide)).bind
  intro heritage otherHeritage heritages
  rcases (heritages.find?_namedChildren
      (by decide : "extends_clause" ≠ "comment")).eq_none_or_exists with
    ⟨isNone, otherIsNone⟩ | ⟨clause, otherClause, isClause, otherIsClause, clauses⟩
  · simp only [isNone, otherIsNone]
    exact heritages.firstNamedChild?
  · simp only [isClause, otherIsClause]
    exact clauses.childAt? "value"

theorem thisInMember? : Option.Rel (pairing.counterparts known).TypeLike node.thisInMember?
    otherNode.thisInMember? := by
  apply alike.parent?.bind
  intro container otherContainer containers
  rw [containers.kindName, alike.isStaticMember]
  split
  · apply containers.parent?.map
    intro definition otherDefinition definitions
    split
    · exact .classItself definitions.mapped_key
    · exact .instanceOf definitions.mapped_key
  · exact .some (.object containers.mapped_key)
  · exact .none

theorem filter_parent? (kind : String) : Option.Rel (Alike pairing)
    (node.parent?.filter (·.kindName == kind)) (otherNode.parent?.filter (·.kindName == kind)) :=
  alike.parent?.filter fun _ _ same => congrArg (· == kind) same.kindName

theorem thisInFunction? : Option.Rel (pairing.counterparts known).TypeLike node.thisInFunction?
    otherNode.thisInFunction? := by
  have objects := (alike.filter_parent? "pair").bind fun _ _ pairs => pairs.filter_parent? "object"
  apply objects.map
  intro object otherObject same
  exact .object same.mapped_key

theorem thisType? : Option.Rel (pairing.counterparts known).TypeLike node.thisType?
    otherNode.thisType? := by
  apply (alike.enclosing? thisKinds).bind
  intro owner otherOwner owners
  rw [owners.kindName]
  split
  all_goals first | exact owners.thisInMember? | exact owners.thisInFunction? | exact .none

theorem parameterProperties (name : String) :
    List.Forall₂ (Alike pairing) (node.parameterProperties name)
      (otherNode.parameterProperties name) := by
  rcases (alike.childAt? "parameters").eq_none_or_exists with
    ⟨isNone, otherIsNone⟩ | ⟨parameters, otherParameters, isList, otherIsList, lists⟩
  · simp only [Node.parameterProperties, isNone, otherIsNone, List.Forall₂.nil]
  · simp only [Node.parameterProperties, isList, otherIsList]
    apply lists.namedChildren.forall₂_filter
    · intro parameter otherParameter parameters
      congr 1
      · apply parameters.children.any_eq
        · intro child otherChild same
          rw [same.kindName]
        · intro comment inserted
          rw [inserted.kindName]
          rfl
      · apply (parameters.childAt? "pattern").any_eq
        intro pattern otherPattern same
        rw [same.text]
    · intro comment inserted
      rw [inserted.children]
      rfl

theorem memberDeclarations (name : String) (isStatic : Bool) :
    List.Forall₂ (Alike pairing) (node.memberDeclarations name isStatic)
      (otherNode.memberDeclarations name isStatic) := by
  simp only [Node.memberDeclarations, alike.isConstructor, alike.kindName, alike.isStaticMember,
    alike.memberName?]
  split
  · split
    · exact .nil
    · exact alike.parameterProperties name
  · split
    · exact .cons alike .nil
    · exact .nil

theorem ownMembers (name : String) (isStatic : Bool) :
    List.Forall₂ (Alike pairing) (node.ownMembers name isStatic)
      (otherNode.ownMembers name isStatic) := by
  rcases (alike.childAt? "body").eq_none_or_exists with
    ⟨isNone, otherIsNone⟩ | ⟨body, otherBody, isBody, otherIsBody, bodies⟩
  · simp only [Node.ownMembers, isNone, otherIsNone, List.Forall₂.nil]
  · simp only [Node.ownMembers, isBody, otherIsBody]
    apply bodies.namedChildren.forall₂_flatMap
    · exact fun _ _ _ same => same.memberDeclarations name isStatic
    · intro comment inserted
      simp [Node.memberDeclarations, Node.isConstructor, isMethodLike, classMemberKinds,
        inserted.kindName]

theorem entries (name : String) :
    List.Forall₂ (Alike pairing) (node.entries name) (otherNode.entries name) := by
  apply alike.namedChildren.forall₂_filter
  · intro entry otherEntry same
    rw [same.kindName, same.memberName?, same.text]
  · intro comment inserted
    rw [inserted.kindName]
    rfl

end Node.Alike

theorem Pairing.readAlike (pairing : Pairing) (known : FileId → Prop) :
    (pairing.counterparts known).ReadAlike where
  key alike := alike.mapped_key
  kindName alike := alike.kindName
  text alike := alike.text
  hasToken alike := alike.hasToken
  parent? alike := alike.parent?
  childAt? alike := alike.childAt?
  firstNamedChild? alike := alike.firstNamedChild?
  head? alike := alike.head?_namedChildren
  getLast? alike := alike.getLast?_namedChildren
  thisType? alike := alike.thisType?
  callable? alike := alike.callable?
  superclassExpression? alike := alike.superclassExpression?
  ownMembers alike := alike.ownMembers
  entries alike := alike.entries

/-- Plain results correspond when what they hold does, item by item. -/
def Effect.plainSimulation : Effect.plain.Simulation Effect.plain where
  one := Option.Rel
  many := List.Forall₂
  searched alike entered search other :=
    List.Forall₂ alike search.1 other.1 ∧ entered search.2 other.2
  ofOption related := related
  bind related _ _ agree := related.bind fun _ _ same => agree same
  orElse first second := by
    cases first with
    | none => exact second
    | some same => exact .some same
  ofList related := related
  append first _ _ second := List.rel_append first second
  after related _ _ agree := related.forall₂_elim fun _ _ same => agree same
  first related := by
    cases related with
    | nil => exact .none
    | cons same _ => exact .some same
  ended related _ _ start := ⟨related, start⟩
  andThen first _ _ agree := ⟨List.rel_append first.1 (agree first.2).1, (agree first.2).2⟩
  orThen := by
    rintro alike entered ⟨symbols, visited⟩ ⟨others, otherVisited⟩ ⟨related, start⟩ _ _ agree
    cases related with
    | nil => exact agree start
    | cons same rest => exact ⟨.cons same rest, start⟩
  symbols related := related.1
  noThing := .none
  noSymbols := .nil
  noSearch start := ⟨.nil, start⟩

namespace SymbolTable

/-- Whether a table has a file of the given number. -/
def HasFile (table : SymbolTable) (id : FileId) : Prop :=
  (table.file? id).isSome

/--
Whether the second table has a file like each file of the first, under its other
number, and the imports of these files lead to the same files in both.
-/
structure Alike (pairing : Pairing) (table other : SymbolTable) : Prop where
  pairs : ∀ file otherFile, pairing.pairs file otherFile →
    table.file? file.id = some (file, ScopeTable.ofFile file) ∧
      other.file? (pairing.numbers file.id) = some (otherFile, ScopeTable.ofFile otherFile)
  file : ∀ id found, table.file? id = some found → found.1.id = id ∧
    ∃ otherFile, pairing.pairs found.1 otherFile ∧ found.1.Alike pairing.numbers otherFile
  target : ∀ file otherFile, pairing.pairs file otherFile → ∀ specifier ∈ file.specifiers,
    other.target? otherFile specifier = (table.target? file specifier).map pairing.numbers
  hasTarget : ∀ file specifier target, table.target? file specifier = some target →
    table.HasFile target

namespace Alike

variable {pairing : Pairing} {table other : SymbolTable} (related : Alike pairing table other)

include related

/-- The key of a shared node finds alike nodes. -/
theorem node? {key : NodeKey} (shared : key.Shared pairing) :
    Option.Rel (Node.Alike pairing) (table.node? key)
      (other.node? (key.renumber pairing.numbers)) := by
  rcases shared with ⟨node, otherNode, alike, rfl⟩
  rcases related.pairs _ _ alike.isPair with ⟨isFile, otherIsFile⟩
  have found : table.file? node.key.file = _ := isFile
  have otherFound : other.file? (node.key.renumber pairing.numbers).file = _ := otherIsFile
  rw [SymbolTable.node?, SymbolTable.node?, found, otherFound, ← alike.key]
  exact alike.nodeAt?

section

variable {file otherFile : SourceFile} (isPair : pairing.pairs file otherFile)

include isPair

theorem targetLike {specifier : String} (specifierMem : specifier ∈ file.specifiers) :
    (pairing.counterparts table.HasFile).TargetLike table other file otherFile specifier
      specifier := by
  rw [Counterparts.TargetLike, related.target file otherFile isPair specifier specifierMem]
  cases isTarget : table.target? file specifier with
  | none => exact .none
  | some target => exact .some ⟨rfl, related.hasTarget file specifier target isTarget⟩

theorem bindingLike {binding : Binding} (grounded : binding.Grounded pairing file.specifiers) :
    (pairing.counterparts table.HasFile).BindingLike table other file otherFile binding
      (binding.renumber pairing.numbers) := by
  rcases binding with ⟨declaration, _ | ⟨specifier, imported⟩⟩
  · exact .here ⟨rfl, grounded.declaration⟩
  · exact .elsewhere (related.targetLike isPair (grounded.specifier specifier imported rfl))

theorem forall₂_bindingLike {bindings : List Binding}
    (grounded : ∀ binding ∈ bindings, binding.Grounded pairing file.specifiers) :
    List.Forall₂ ((pairing.counterparts table.HasFile).BindingLike table other file otherFile)
      bindings (bindings.map (Binding.renumber pairing.numbers)) :=
  List.forall₂_map_right_iff.2 <| List.forall₂_same.2 fun binding bindingMem =>
    related.bindingLike isPair (grounded binding bindingMem)

theorem exportLike {scopes : ScopeTable} (grounded : scopes.Grounded pairing file.specifiers)
    {offer : Export} (offerGrounded : offer.Grounded pairing file.specifiers) :
    (pairing.counterparts table.HasFile).ExportLike table other file otherFile scopes
      (scopes.renumber pairing.numbers) offer (offer.renumber pairing.numbers) := by
  cases offer with
  | topLevel name =>
      apply Counterparts.ExportLike.topLevel
      rw [scopes.topBindings_renumber pairing.injective]
      exact related.forall₂_bindingLike isPair (grounded.bindings scopes.top name)
  | declaration key => exact .declaration ⟨rfl, offerGrounded⟩
  | forwarded specifier name => exact .forwarded (related.targetLike isPair offerGrounded)
  | everything specifier => exact .everything (related.targetLike isPair offerGrounded)

theorem scopesLike {scopes : ScopeTable} (grounded : scopes.Grounded pairing file.specifiers) :
    (pairing.counterparts table.HasFile).ScopesLike table other file otherFile scopes
      (scopes.renumber pairing.numbers) where
  offers name := by
    rw [ScopeTable.offers_renumber]
    exact List.forall₂_map_right_iff.2 <| List.forall₂_same.2 fun offer offerMem =>
      related.exportLike isPair grounded (grounded.offers name offer offerMem)
  stars := List.forall₂_same.2 fun specifier specifierMem =>
    related.targetLike isPair (grounded.stars specifier specifierMem)

end

/-- Alike tables lead from counterparts to counterparts. -/
theorem like : table.Like (pairing.counterparts table.HasFile) other where
  reads := pairing.readAlike table.HasFile
  file_eq_iff := by
    rintro id _ entered _ ⟨rfl, -⟩ ⟨rfl, -⟩
    exact pairing.injective.eq_iff
  scopes := by
    rintro id _ ⟨rfl, hasFile⟩
    rcases Option.isSome_iff_exists.1 hasFile with ⟨⟨file, scopes⟩, isFound⟩
    rcases related.file id _ isFound with ⟨rfl, otherFile, isPair, files⟩
    rcases related.pairs file otherFile isPair with ⟨isFile, otherIsFile⟩
    rcases ScopeTable.ofFile_of_alike isPair files with ⟨sameScopes, grounded⟩
    rw [isFile, otherIsFile, sameScopes]
    exact .some (related.scopesLike isPair grounded)
  visible := by
    intro node otherNode alike
    rcases related.pairs _ _ alike.isPair with ⟨isFile, otherIsFile⟩
    rcases ScopeTable.ofFile_of_alike alike.isPair alike.files with ⟨sameScopes, grounded⟩
    rw [isFile, alike.files.number, otherIsFile, sameScopes]
    refine .some ?_
    rw [alike.text, ScopeTable.visible_of_alike _ alike]
    exact related.forall₂_bindingLike alike.isPair (grounded.visible node node.text)
  find := by
    rintro key _ ⟨rfl, shared⟩
    exact related.node? shared

/-- Alike nodes refer to the same declarations, up to file numbers, all of them shared. -/
theorem declarations {node otherNode : Node} (alike : node.Alike pairing otherNode) :
    Mapped (List.map (NodeKey.renumber pairing.numbers))
      (fun keys => ∀ key ∈ keys, key.Shared pairing) (table.declarations node)
      (other.declarations otherNode) := by
  have lookups : Lookups.Related Effect.plainSimulation _ table other _ _ :=
    Lookups.related_lookups related.like (defaultLimit + 1)
  have symbols := lookups.symbols related.like alike
  exact forall₂_mapped.1 (List.rel_filterMap (fun _ _ same => same.declaration?) symbols)

end Alike

/-- With files that are numbered by their position, imports lead to files of the table. -/
theorem hasFile_of_target? {workingDirectory : Path} {config : Config} {files : List SourceFile}
    (numbered : ∀ (position : Nat) (file : SourceFile), files[position]? = some file →
      file.id = position)
    {file : SourceFile} {specifier : String} {target : FileId}
    (isTarget : (ofFiles workingDirectory config files).target? file specifier = some target) :
    (ofFiles workingDirectory config files).HasFile target := by
  have isFound := (ModuleIndex.resolve?_ofFiles files file.path specifier).symm.trans isTarget
  rcases List.exists_of_findSome?_eq_some isFound with ⟨path, -, isPath⟩
  rw [ModuleIndex.file?_eq_lastFor?] at isPath
  rcases List.mem_map.1 (mem_of_lastFor? isPath) with ⟨found, foundMem, isFound⟩
  rcases List.mem_iff_getElem?.1 foundMem with ⟨position, isFile⟩
  rw [← (Prod.mk.inj isFound).2, numbered position found isFile, HasFile, file?, ofFiles,
    List.getElem?_map, isFile]
  rfl

/-- The tables of alike files are alike, if the files are numbered by their position. -/
theorem alike_ofFiles {pairing : Pairing} {workingDirectory : Path} {config otherConfig : Config}
    {files others : List SourceFile}
    (numbered : ∀ (position : Nat) (file : SourceFile), files[position]? = some file →
      file.id = position)
    (matched : ∀ file ∈ files, ∃ otherFile, pairing.pairs file otherFile ∧
      file.Alike pairing.numbers otherFile)
    (stands : ∀ file otherFile, pairing.pairs file otherFile → file ∈ files ∧
      others[pairing.numbers file.id]? = some otherFile)
    (target : ∀ file otherFile, pairing.pairs file otherFile → ∀ specifier ∈ file.specifiers,
      (ofFiles workingDirectory otherConfig others).target? otherFile specifier =
        ((ofFiles workingDirectory config files).target? file specifier).map pairing.numbers) :
    Alike pairing (ofFiles workingDirectory config files)
      (ofFiles workingDirectory otherConfig others) where
  pairs file otherFile isPair := by
    rcases stands file otherFile isPair with ⟨fileMem, isOther⟩
    rcases List.mem_iff_getElem?.1 fileMem with ⟨position, isFile⟩
    rw [← numbered position file isFile] at isFile
    simp only [file?, ofFiles, List.getElem?_map, isFile, isOther, Option.map_some, and_self]
  file id found isFound := by
    simp only [file?, ofFiles, List.getElem?_map, Option.map_eq_some_iff] at isFound
    rcases isFound with ⟨file, isFile, rfl⟩
    exact ⟨numbered id file isFile, matched file (List.mem_of_getElem? isFile)⟩
  target := target
  hasTarget _ _ _ isTarget := hasFile_of_target? numbered isTarget

end SymbolTable
end CallHierarchy
