import CallHierarchy.Proofs.Alike.Node
import CallHierarchy.Scope.Table

/-!
# Scope tables of alike files

Alike files have the same scope table, up to the number of the file: each construct
introduces and exports the same, and comments introduce and export nothing. The
table says more than what it lists. Every declaration in it is a node of the file
with an alike node in the other file, and every specifier in it is written in a
statement that imports or exports.

A name then stands for the same bindings, because different files keep different
numbers: scopes are found by comparing keys.
-/

namespace CallHierarchy

/-- The binding of a declaration under another number of its file. -/
def Binding.renumber (numbers : FileId → FileId) (binding : Binding) : Binding :=
  { binding with declaration := binding.declaration.renumber numbers }

/-- The introduction in a scope under another number of its file. -/
def Introduction.renumber (numbers : FileId → FileId) (introduction : Introduction) :
    Introduction where
  scope := introduction.scope.renumber numbers
  name := introduction.name
  binding := introduction.binding.renumber numbers

/-- The export of a declaration under another number of its file. -/
def Export.renumber (numbers : FileId → FileId) : Export → Export
  | .declaration key => .declaration (key.renumber numbers)
  | .topLevel name => .topLevel name
  | .forwarded specifier name => .forwarded specifier name
  | .everything specifier => .everything specifier

/-- The export under its name, with the declaration under another number of its file. -/
def Export.renumberOffer (numbers : FileId → FileId) (offer : String × Export) :
    String × Export :=
  (offer.1, offer.2.renumber numbers)

/-- The scope table of a file under another number. -/
def ScopeTable.renumber (numbers : FileId → FileId) (table : ScopeTable) : ScopeTable where
  top := table.top.renumber numbers
  introductions := table.introductions.map (Introduction.renumber numbers)
  exports := table.exports.map (Export.renumberOffer numbers)
  stars := table.stars

/-- The specifier of the file that an import or export statement draws on. -/
def Node.specifier? (node : Node) : Option String :=
  if node.kindName == "import_statement" || node.kindName == "export_statement" then
    (node.childAt? "source").map (Text.unquote ·.text)
  else none

/-- The specifiers in the import and export statements of a file. -/
def SourceFile.specifiers (file : SourceFile) : List String :=
  file.rootNode.namedPreorder.filterMap Node.specifier?

/-- Whether a key is that of a node with an alike node in another file. -/
def NodeKey.Shared (pairing : Pairing) (key : NodeKey) : Prop :=
  ∃ node otherNode, Node.Alike pairing node otherNode ∧ node.key = key

theorem Node.Alike.shared {pairing : Pairing} {node otherNode : Node}
    (alike : Alike pairing node otherNode) : node.key.Shared pairing :=
  ⟨node, otherNode, alike, rfl⟩

/-- Whether a binding goes back to a shared declaration or to one of the given specifiers. -/
structure Binding.Grounded (pairing : Pairing) (specifiers : List String)
    (binding : Binding) : Prop where
  declaration : binding.declaration.Shared pairing
  specifier : ∀ specifier imported, binding.origin = .elsewhere specifier imported →
    specifier ∈ specifiers

/-- Whether the binding of an introduced name is grounded. -/
def Introduction.Grounded (pairing : Pairing) (specifiers : List String)
    (introduction : Introduction) : Prop :=
  introduction.binding.Grounded pairing specifiers

/-- Whether an export goes back to a shared declaration or to one of the given specifiers. -/
def Export.Grounded (pairing : Pairing) (specifiers : List String) :
    Export → Prop
  | .topLevel _ => True
  | .declaration key => key.Shared pairing
  | .forwarded specifier _ => specifier ∈ specifiers
  | .everything specifier => specifier ∈ specifiers

namespace Scope

variable {pairing : Pairing} {specifiers : List String}

/-- Whether two lists of introductions are the same up to file numbers, and what they introduce
is grounded. -/
abbrev SameIntroductions (pairing : Pairing) (specifiers : List String) :
    List Introduction → List Introduction → Prop :=
  List.Forall₂ (Mapped (Introduction.renumber pairing.numbers)
    (Introduction.Grounded pairing specifiers))

/-- Whether two lists of exports are the same up to file numbers, and what they offer is
grounded. -/
abbrev SameExports (pairing : Pairing) (specifiers : List String) :
    List (String × Export) → List (String × Export) → Prop :=
  List.Forall₂ (Mapped (Export.renumberOffer pairing.numbers)
    fun offer => offer.2.Grounded pairing specifiers)

section

variable {scope otherScope name otherName declaration otherDeclaration : Node}
  (scopes : scope.Alike pairing otherScope) (names : name.Alike pairing otherName)
  (declarations : declaration.Alike pairing otherDeclaration)

include scopes names declarations

theorem ofDeclaration_of_alike :
    Mapped (Introduction.renumber pairing.numbers) (Introduction.Grounded pairing specifiers)
      (Introduction.ofDeclaration scope name declaration)
      (Introduction.ofDeclaration otherScope otherName otherDeclaration) := by
  refine ⟨?_, declarations.shared, by simp [Introduction.ofDeclaration]⟩
  simp only [Introduction.ofDeclaration, Introduction.renumber, Binding.renumber, scopes.key,
    names.text, declarations.key]

theorem importedName_of_alike {specifier : String} (specifierMem : specifier ∈ specifiers)
    (imported : Imported) :
    Mapped (Introduction.renumber pairing.numbers) (Introduction.Grounded pairing specifiers)
      (importedName scope declaration name specifier imported)
      (importedName otherScope otherDeclaration otherName specifier imported) := by
  refine ⟨?_, declarations.shared, ?_⟩
  · simp only [importedName, Introduction.renumber, Binding.renumber, scopes.key, names.text,
      declarations.key]
  · intro other _ isOrigin
    simp only [importedName, Origin.elsewhere.injEq] at isOrigin
    exact isOrigin.1 ▸ specifierMem

end

/-- The identifiers that a pattern introduces. -/
def namesIn (pattern : Node) : List Node :=
  patternNames pattern.file pattern.around pattern.tree

theorem patternNamesAt_eq (field : String) (node : Node) (trees : List SyntaxTree) :
    patternNamesAt node.file (node.tree :: node.around) field trees =
      ((trees.map node.child).find? (·.isField field)).elim [] namesIn := by
  induction trees with
  | nil => rfl
  | cons tree rest ih =>
      rw [patternNamesAt, ih, List.map_cons, List.find?_cons]
      change (if (node.child tree).isField field then namesIn (node.child tree) else _) = _
      cases (node.child tree).isField field <;> rfl

theorem patternNamesList_eq (node : Node) (trees : List SyntaxTree) :
    patternNamesList node.file (node.tree :: node.around) trees =
      ((trees.map node.child).filter (·.isNamed)).flatMap namesIn := by
  induction trees with
  | nil => rfl
  | cons tree rest ih =>
      rw [patternNamesList, ih, List.map_cons, List.filter_cons]
      change (if (node.child tree).isNamed then namesIn (node.child tree) else _) ++ _ = _
      cases (node.child tree).isNamed <;> rfl

theorem namesIn_eq (pattern : Node) :
    namesIn pattern = match pattern.kindName with
      | "identifier" | "shorthand_property_identifier_pattern" => [pattern]
      | "pair_pattern" => (pattern.childAt? "value").elim [] namesIn
      | "assignment_pattern" | "object_assignment_pattern" =>
        (pattern.childAt? "left").elim [] namesIn
      | "object_pattern" | "array_pattern" | "rest_pattern" => pattern.namedChildren.flatMap namesIn
      | _ => [] := by
  have value := patternNamesAt_eq "value" pattern pattern.tree.children
  have left := patternNamesAt_eq "left" pattern pattern.tree.children
  have named := patternNamesList_eq pattern pattern.tree.children
  rcases pattern with ⟨file, ⟨label, children⟩, around⟩
  simp only [Tree.children] at value left named
  rw [namesIn, patternNames]
  simp only [value, left, named]
  rfl

theorem namesIn_of_isInserted {comment : Node} (inserted : comment.IsInserted pairing) :
    namesIn comment = [] := by
  rw [namesIn_eq, inserted.kindName]
  rfl

/-- Alike patterns introduce alike names. -/
theorem namesIn_of_alike {pattern otherPattern : Node}
    (patterns : pattern.Alike pairing otherPattern) :
    List.Forall₂ (Node.Alike pairing) (namesIn pattern) (namesIn otherPattern) := by
  induction pattern using Node.induction generalizing otherPattern with
  | step pattern ih =>
      have field : ∀ field, List.Forall₂ (Node.Alike pairing)
          ((pattern.childAt? field).elim [] namesIn)
          ((otherPattern.childAt? field).elim [] namesIn) := by
        intro field
        rcases (patterns.childAt? field).eq_none_or_exists with
          ⟨isNone, otherIsNone⟩ | ⟨part, otherPart, isPart, otherIsPart, same⟩
        · rw [isNone, otherIsNone]
          exact .nil
        · rw [isPart, otherIsPart]
          exact ih part (List.mem_of_find?_eq_some isPart) same
      have named : List.Forall₂ (Node.Alike pairing) (pattern.namedChildren.flatMap namesIn)
          (otherPattern.namedChildren.flatMap namesIn) := by
        apply patterns.namedChildren.forall₂_flatMap
        · exact fun part partMem _ => ih part (List.mem_of_mem_filter partMem)
        · exact fun comment inserted => namesIn_of_isInserted inserted
      rw [namesIn_eq pattern, namesIn_eq otherPattern, patterns.kindName]
      split
      · exact .cons patterns .nil
      · exact .cons patterns .nil
      · exact field "value"
      · exact field "left"
      · exact field "left"
      · exact named
      · exact named
      · exact named
      · exact .nil

section

variable {node otherNode scope otherScope : Node} (alike : node.Alike pairing otherNode)
  (scopes : scope.Alike pairing otherScope)

include alike

theorem ofPattern_of_alike (scopes : scope.Alike pairing otherScope) :
    SameIntroductions pairing specifiers (ofPattern scope node) (ofPattern otherScope otherNode) :=
  List.forall₂_map_left_iff.2 (List.forall₂_map_right_iff.2
    ((namesIn_of_alike alike).imp fun _ _ same => ofDeclaration_of_alike scopes same same))

theorem ofNamed_of_alike (kinds : List String) :
    SameIntroductions pairing specifiers (ofNamed node kinds) (ofNamed otherNode kinds) := by
  rcases (alike.childAt? "name").eq_none_or_exists with
    ⟨isNone, otherIsNone⟩ | ⟨name, otherName, isName, otherIsName, names⟩
  · simp only [ofNamed, isNone, otherIsNone, List.Forall₂.nil]
  · rcases (alike.enclosing? kinds).eq_none_or_exists with
      ⟨isNone, otherIsNone⟩ | ⟨scope, otherScope, isScope, otherIsScope, scopes⟩
    · simp only [ofNamed, isName, otherIsName, isNone, otherIsNone, List.Forall₂.nil]
    · simp only [ofNamed, isName, otherIsName, isScope, otherIsScope]
      exact .cons (ofDeclaration_of_alike scopes names alike) .nil

theorem ofNamedExpression_of_alike :
    SameIntroductions pairing specifiers (ofNamedExpression node)
      (ofNamedExpression otherNode) := by
  rcases (alike.childAt? "name").eq_none_or_exists with
    ⟨isNone, otherIsNone⟩ | ⟨name, otherName, isName, otherIsName, names⟩
  · simp only [ofNamedExpression, isNone, otherIsNone, List.Forall₂.nil]
  · simp only [ofNamedExpression, isName, otherIsName]
    exact .cons (ofDeclaration_of_alike alike names (alike.namingContext?.getD alike)) .nil

theorem ofDeclarator_of_alike :
    SameIntroductions pairing specifiers (ofDeclarator node) (ofDeclarator otherNode) := by
  have isVar : otherNode.parent?.any (·.kindName == "variable_declaration") =
      node.parent?.any (·.kindName == "variable_declaration") :=
    alike.parent?.any_eq fun _ _ same => congrArg (· == "variable_declaration") same.kindName
  simp only [ofDeclarator, isVar]
  generalize (if node.parent?.any (·.kindName == "variable_declaration") then functionKinds
    else blockKinds) = kinds
  rcases (alike.childAt? "name").eq_none_or_exists with
    ⟨isNone, otherIsNone⟩ | ⟨name, otherName, isName, otherIsName, names⟩
  · simp only [isNone, otherIsNone, List.Forall₂.nil]
  · rcases (alike.enclosing? kinds).eq_none_or_exists with
      ⟨isNone, otherIsNone⟩ | ⟨scope, otherScope, isScope, otherIsScope, scopes⟩
    · simp only [isName, otherIsName, isNone, otherIsNone, List.Forall₂.nil]
    · simp only [isName, otherIsName, isScope, otherIsScope, names.kindName]
      split
      · exact .cons (ofDeclaration_of_alike scopes names alike) .nil
      · exact ofPattern_of_alike names scopes

theorem ofParameter_of_alike (owners : scope.Alike pairing otherScope) :
    SameIntroductions pairing specifiers (ofParameter scope node)
      (ofParameter otherScope otherNode) := by
  have pattern := (alike.childAt? "pattern").eq_none_or_exists
  simp only [ofParameter, alike.kindName]
  split
  case h_3 => exact ofPattern_of_alike alike owners
  all_goals
    rcases pattern with
      ⟨isNone, otherIsNone⟩ | ⟨pattern, otherPattern, isPattern, otherIsPattern, same⟩
    · simp only [isNone, otherIsNone, List.Forall₂.nil]
    · simp only [isPattern, otherIsPattern, same.kindName]
      split
      · exact .cons (ofDeclaration_of_alike owners same alike) .nil
      · exact ofPattern_of_alike same owners

theorem ofParameters_of_alike :
    SameIntroductions pairing specifiers (ofParameters node) (ofParameters otherNode) := by
  rcases alike.parent?.eq_none_or_exists with
    ⟨isNone, otherIsNone⟩ | ⟨owner, otherOwner, isOwner, otherIsOwner, owners⟩
  · simp only [ofParameters, isNone, otherIsNone, List.Forall₂.nil]
  · simp only [ofParameters, isOwner, otherIsOwner]
    apply alike.namedChildren.forall₂_flatMap
    · exact fun _ _ _ same => ofParameter_of_alike same owners
    · intro comment inserted
      rw [ofParameter, inserted.kindName]
      exact congrArg (List.map _) (namesIn_of_isInserted inserted)

theorem ofImportSpecifier_of_alike (programs : scope.Alike pairing otherScope) {specifier : String}
    (specifierMem : specifier ∈ specifiers) :
    SameIntroductions pairing specifiers (ofImportSpecifier scope specifier node)
      (ofImportSpecifier otherScope specifier otherNode) := by
  rcases (alike.childAt? "name").eq_none_or_exists with
    ⟨isNone, otherIsNone⟩ | ⟨name, otherName, isName, otherIsName, names⟩
  · simp only [ofImportSpecifier, isNone, otherIsNone, List.Forall₂.nil]
  · simp only [ofImportSpecifier, isName, otherIsName, names.text]
    exact .cons (importedName_of_alike programs ((alike.childAt? "alias").getD names) alike
      specifierMem _) .nil

theorem ofImportPart_of_alike (programs : scope.Alike pairing otherScope) {specifier : String}
    (specifierMem : specifier ∈ specifiers) :
    SameIntroductions pairing specifiers (ofImportPart scope specifier node)
      (ofImportPart otherScope specifier otherNode) := by
  have name := alike.firstNamedChild?.eq_none_or_exists
  simp only [ofImportPart, alike.kindName]
  split
  · exact .cons (importedName_of_alike programs alike alike specifierMem _) .nil
  · rcases name with ⟨isNone, otherIsNone⟩ | ⟨name, otherName, isName, otherIsName, names⟩
    · simp only [isNone, otherIsNone, List.Forall₂.nil]
    · simp only [isName, otherIsName]
      exact .cons (importedName_of_alike programs names alike specifierMem _) .nil
  · exact List.rel_flatMap (alike.filter_namedChildren (by decide)) fun _ _ same =>
      ofImportSpecifier_of_alike same programs specifierMem
  · exact .nil

theorem ofImport_of_alike
    (mentioned : ∀ source ∈ node.childAt? "source", Text.unquote source.text ∈ specifiers) :
    SameIntroductions pairing specifiers (ofImport node) (ofImport otherNode) := by
  rcases (alike.childAt? "source").eq_none_or_exists with
    ⟨isNone, otherIsNone⟩ | ⟨source, otherSource, isSource, otherIsSource, sources⟩
  · simp only [ofImport, isNone, otherIsNone, List.Forall₂.nil]
  · rcases (alike.enclosing? ["program"]).eq_none_or_exists with
      ⟨isNone, otherIsNone⟩ | ⟨program, otherProgram, isProgram, otherIsProgram, programs⟩
    · simp only [ofImport, isSource, otherIsSource, isNone, otherIsNone, List.Forall₂.nil]
    · simp only [ofImport, isSource, otherIsSource, isProgram, otherIsProgram, sources.text,
        List.flatMap_assoc]
      refine List.rel_flatMap (alike.filter_namedChildren (by decide)) fun _ _ clauses => ?_
      apply clauses.namedChildren.forall₂_flatMap
      · exact fun _ _ _ same => ofImportPart_of_alike same programs (mentioned source isSource)
      · intro comment inserted
        rw [ofImportPart, inserted.kindName]
        rfl

/-- Alike constructs introduce the same names. -/
theorem introductions_of_alike
    (mentioned : ∀ specifier ∈ node.specifier?, specifier ∈ specifiers) :
    SameIntroductions pairing specifiers (introductions node) (introductions otherNode) := by
  simp only [introductions, alike.kindName, (alike.childAt? "kind").isSome_eq]
  split
  case h_1 | h_2 | h_3 => exact ofNamed_of_alike alike functionKinds
  case h_4 | h_5 | h_6 => exact ofNamed_of_alike alike blockKinds
  case h_7 | h_8 | h_9 => exact ofNamedExpression_of_alike alike
  case h_10 => exact ofDeclarator_of_alike alike
  case h_11 => exact ofParameters_of_alike alike
  case h_12 => exact (alike.childAt? "parameter").forall₂_elim fun _ _ same =>
    ofParameter_of_alike same alike
  case h_13 => exact (alike.childAt? "parameter").forall₂_elim fun _ _ same =>
    ofPattern_of_alike same alike
  case h_14 =>
    split
    · exact (alike.childAt? "left").forall₂_elim fun _ _ same => ofPattern_of_alike same alike
    · exact .nil
  case h_15 isImport =>
    apply ofImport_of_alike alike
    intro source isSource
    apply mentioned
    simp [Node.specifier?, isImport, Option.mem_def.1 isSource]
  case h_16 => exact .nil

end

theorem introductions_of_isInserted {comment : Node} (inserted : comment.IsInserted pairing) :
    introductions comment = [] := by
  rw [introductions, inserted.kindName]
  rfl

/-- The expression inside any parentheses around it. -/
def expressionIn (node : Node) : Node :=
  withoutParentheses node.file node.around node.tree

theorem firstWithoutParentheses_eq (node : Node) (trees : List SyntaxTree) :
    firstWithoutParentheses node.file (node.tree :: node.around) trees =
      ((trees.map node.child).find? fun part =>
        part.isNamed && part.kindName != "comment").map expressionIn := by
  induction trees with
  | nil => rfl
  | cons tree rest ih =>
      rw [firstWithoutParentheses, ih, List.map_cons, List.find?_cons]
      change (if (node.child tree).isNamed && (node.child tree).kindName != "comment" then
        some (expressionIn (node.child tree)) else _) = _
      cases (node.child tree).isNamed && (node.child tree).kindName != "comment" <;> rfl

theorem expressionIn_eq (node : Node) :
    expressionIn node = if node.kindName == "parenthesized_expression" then
      (node.firstNamedChild?.map expressionIn).getD node else node := by
  have first := firstWithoutParentheses_eq node node.tree.children
  have inside : node.firstNamedChild? = (node.tree.children.map node.child).find? fun part =>
      part.isNamed && part.kindName != "comment" := by
    rw [Node.firstNamedChild?, Node.namedChildren, List.find?_filter]
    congr 1
    funext part
    simp [bne, beq_eq_decide]
  rw [inside, ← first]
  rcases node with ⟨file, ⟨label, children⟩, around⟩
  rfl

theorem ofDefaultValue_eq (value : Node) :
    ofDefaultValue value = if (expressionIn value).kindName == "identifier" then
      [("default", .topLevel (expressionIn value).text)] else [] :=
  rfl

theorem expressionIn_of_alike {node otherNode : Node} (alike : node.Alike pairing otherNode) :
    (expressionIn node).Alike pairing (expressionIn otherNode) := by
  induction node using Node.induction generalizing otherNode with
  | step node ih =>
      rw [expressionIn_eq node, expressionIn_eq otherNode, alike.kindName]
      split
      · rcases alike.firstNamedChild?.eq_none_or_exists with
          ⟨isNone, otherIsNone⟩ | ⟨part, otherPart, isPart, otherIsPart, same⟩
        · rw [isNone, otherIsNone]
          exact alike
        · have partMem := List.mem_of_mem_filter (List.mem_of_find?_eq_some isPart)
          rw [isPart, otherIsPart]
          exact ih part partMem same
      · exact alike

section

variable {node otherNode : Node} (alike : node.Alike pairing otherNode)

include alike

theorem declaredNames_of_alike :
    List.Forall₂ (fun named other => other.1 = named.1 ∧ Node.Alike pairing named.2 other.2)
      (declaredNames node) (declaredNames otherNode) := by
  have declarator : ∀ declarator other : Node, declarator.Alike pairing other →
      Option.Rel (fun named other => other.1 = named.1 ∧ Node.Alike pairing named.2 other.2)
        (((declarator.childAt? "name").filter (·.kindName == "identifier")).map
          fun name => (name.text, declarator))
        (((other.childAt? "name").filter (·.kindName == "identifier")).map
          fun name => (name.text, other)) := by
    intro declarator other declarators
    refine Option.Rel.map ((declarators.childAt? "name").filter ?_) ?_
    · intro name otherName names
      rw [names.kindName]
    · intro name otherName names
      rw [names.text]
      exact ⟨rfl, declarators⟩
  have declared := List.rel_filterMap declarator
    (alike.filter_namedChildren (by decide : "variable_declarator" ≠ "comment"))
  simp only [declaredNames, alike.kindName]
  split
  · exact declared
  · exact declared
  · rcases (alike.childAt? "name").eq_none_or_exists with
      ⟨isNone, otherIsNone⟩ | ⟨name, otherName, isName, otherIsName, names⟩
    · simp only [isNone, otherIsNone, Option.map_none, Option.toList_none, List.Forall₂.nil]
    · simp only [isName, otherIsName, Option.map_some, Option.toList_some, names.text]
      exact .cons ⟨rfl, alike⟩ .nil

theorem ofDeclaration_export_of_alike {declaration otherDeclaration : Node}
    (declarations : declaration.Alike pairing otherDeclaration) :
    SameExports pairing specifiers (ofDeclaration node declaration)
      (ofDeclaration otherNode otherDeclaration) := by
  simp only [ofDeclaration, alike.hasToken]
  split
  · exact .cons ⟨by rw [declarations.key]; rfl, declarations.shared⟩ .nil
  · refine List.forall₂_map_left_iff.2 (List.forall₂_map_right_iff.2
      ((declaredNames_of_alike declarations).imp ?_))
    rintro ⟨name, named⟩ ⟨otherName, otherNamed⟩ ⟨rfl, same⟩
    exact ⟨by rw [same.key]; rfl, same.shared⟩

theorem ofDefaultValue_of_alike :
    SameExports pairing specifiers (ofDefaultValue node) (ofDefaultValue otherNode) := by
  have expressions := expressionIn_of_alike alike
  rw [ofDefaultValue_eq, ofDefaultValue_eq, expressions.kindName, expressions.text]
  split
  · exact .cons ⟨rfl, trivial⟩ .nil
  · exact .nil

theorem exportSource_of_alike : exportSource otherNode = exportSource node :=
  (alike.childAt? "source").map_eq fun _ _ same => congrArg Text.unquote same.text

variable {source : Option String} (mentioned : ∀ specifier ∈ source, specifier ∈ specifiers)

include mentioned

theorem ofExportSpecifier_of_alike :
    Option.Rel (Mapped (Export.renumberOffer pairing.numbers)
        fun offer => offer.2.Grounded pairing specifiers)
      (ofExportSpecifier source node) (ofExportSpecifier source otherNode) := by
  have renamed := (alike.childAt? "alias").map_eq fun _ _ same => congrArg Text.unquote same.text
  refine (alike.childAt? "name").map fun name otherName names => ?_
  rw [renamed, names.text]
  cases source with
  | none => exact ⟨rfl, trivial⟩
  | some specifier => exact ⟨rfl, mentioned specifier rfl⟩

theorem ofExportPart_of_alike :
    SameExports pairing specifiers (ofExportPart source node) (ofExportPart source otherNode) := by
  have name := alike.firstNamedChild?.eq_none_or_exists
  have specified : ∀ part otherPart : Node, part.Alike pairing otherPart →
      Option.Rel (Mapped (Export.renumberOffer pairing.numbers)
        fun offer => offer.2.Grounded pairing specifiers)
        (ofExportSpecifier source part) (ofExportSpecifier source otherPart) :=
    fun _ _ same => ofExportSpecifier_of_alike same mentioned
  simp only [ofExportPart, alike.kindName]
  split
  · exact List.rel_filterMap specified (alike.filter_namedChildren (by decide))
  · rcases name with ⟨isNone, otherIsNone⟩ | ⟨name, otherName, isName, otherIsName, names⟩
    · simp only [isNone, otherIsNone, List.Forall₂.nil]
    · cases source with
      | none => exact .nil
      | some specifier =>
          simp only [isName, otherIsName, names.text]
          exact .cons ⟨by simp only [Export.renumberOffer, Export.renumber],
            mentioned specifier rfl⟩ .nil
  · exact .nil

end

theorem exportSource_eq_specifier? {node : Node} (isExport : node.kindName = "export_statement") :
    exportSource node = node.specifier? := by
  simp [exportSource, Node.specifier?, isExport]

section

variable {node otherNode : Node} (alike : node.Alike pairing otherNode)
  (mentioned : ∀ specifier ∈ node.specifier?, specifier ∈ specifiers)

include alike mentioned

theorem ofExport_of_alike (isExport : node.kindName = "export_statement") :
    SameExports pairing specifiers (ofExport node) (ofExport otherNode) := by
  rw [← exportSource_eq_specifier? isExport] at mentioned
  rcases (alike.childAt? "declaration").eq_none_or_exists with
    ⟨isNone, otherIsNone⟩ | ⟨declaration, otherDeclaration, isDeclaration, otherIsDeclaration, same⟩
  · rcases (alike.childAt? "value").eq_none_or_exists with
      ⟨noValue, otherNoValue⟩ | ⟨value, otherValue, isValue, otherIsValue, values⟩
    · simp only [ofExport, isNone, otherIsNone, noValue, otherNoValue, exportSource_of_alike alike]
      apply alike.namedChildren.forall₂_flatMap
      · exact fun _ _ _ same => ofExportPart_of_alike same mentioned
      · intro comment inserted
        rw [ofExportPart.eq_def, inserted.kindName]
        rfl
    · simp only [ofExport, isNone, otherIsNone, isValue, otherIsValue]
      exact ofDefaultValue_of_alike values
  · simp only [ofExport, isDeclaration, otherIsDeclaration]
    exact ofDeclaration_export_of_alike alike same

/-- Alike constructs export the same. -/
theorem exports_of_alike : SameExports pairing specifiers (exports node) (exports otherNode) := by
  simp only [exports, alike.kindName, beq_iff_eq]
  split
  next isExport => exact ofExport_of_alike alike mentioned isExport
  · exact .nil

theorem starExport?_of_alike :
    Option.Rel (Mapped id (· ∈ specifiers)) (starExport? node) (starExport? otherNode) := by
  have clauses : (otherNode.namedChildren.any fun part =>
        part.kindName == "export_clause" || part.kindName == "namespace_export") =
      node.namedChildren.any fun part =>
        part.kindName == "export_clause" || part.kindName == "namespace_export" := by
    apply alike.namedChildren.any_eq
    · intro part otherPart same
      rw [same.kindName]
    · intro comment inserted
      rw [inserted.kindName]
      rfl
  simp only [starExport?, ofStarExport, alike.kindName, beq_iff_eq, clauses,
    (alike.childAt? "declaration").isSome_eq, (alike.childAt? "value").isSome_eq,
    exportSource_of_alike alike]
  split
  next isExport =>
    rw [exportSource_eq_specifier? isExport]
    split
    · exact .none
    · cases isSpecifier : node.specifier? with
      | none => exact .none
      | some specifier => exact .some ⟨rfl, mentioned specifier isSpecifier⟩
  · exact .none

end

theorem exports_of_isInserted {comment : Node} (inserted : comment.IsInserted pairing) :
    exports comment = [] := by
  rw [exports, inserted.kindName]
  rfl

theorem starExport?_of_isInserted {comment : Node} (inserted : comment.IsInserted pairing) :
    starExport? comment = none := by
  rw [starExport?, inserted.kindName]
  rfl

end Scope

namespace ScopeTable

variable {pairing : Pairing}

/-- Whether all that a table lists goes back to shared declarations or to given specifiers. -/
structure Grounded (pairing : Pairing) (specifiers : List String)
    (table : ScopeTable) : Prop where
  introductions : ∀ introduction ∈ table.introductions, introduction.Grounded pairing specifiers
  exports : ∀ offer ∈ table.exports, offer.2.Grounded pairing specifiers
  stars : ∀ specifier ∈ table.stars, specifier ∈ specifiers

theorem mem_specifiers {file : SourceFile} {node : Node}
    (nodeMem : node ∈ file.rootNode.namedPreorder) :
    ∀ specifier ∈ node.specifier?, specifier ∈ file.specifiers :=
  fun _ isSpecifier => List.mem_filterMap.2 ⟨node, nodeMem, isSpecifier⟩

/-- Alike files have the same scope table, up to the number of the file. -/
theorem ofFile_of_alike {file other : SourceFile} (isPair : pairing.pairs file other)
    (files : file.Alike pairing.numbers other) :
    ofFile other = (ofFile file).renumber pairing.numbers ∧
      (ofFile file).Grounded pairing file.specifiers := by
  have roots : Node.Alike pairing file.rootNode other.rootNode := .root isPair files
  have introduced := forall₂_mapped.1 <| roots.namedPreorder.forall₂_flatMap
    (fun _ nodeMem _ same => Scope.introductions_of_alike same (mem_specifiers nodeMem))
    fun _ inserted => Scope.introductions_of_isInserted inserted
  have exported := forall₂_mapped.1 <| roots.namedPreorder.forall₂_flatMap
    (fun _ nodeMem _ same => Scope.exports_of_alike same (mem_specifiers nodeMem))
    fun _ inserted => Scope.exports_of_isInserted inserted
  have passedOn := forall₂_mapped.1 <| roots.namedPreorder.forall₂_filterMap
    (fun _ nodeMem _ same => Scope.starExport?_of_alike same (mem_specifiers nodeMem))
    fun _ inserted => Scope.starExport?_of_isInserted inserted
  refine ⟨?_, introduced.2, exported.2, passedOn.2⟩
  simp only [ofFile, introduced.1, exported.1, passedOn.1, List.map_id, roots.key]
  rfl

section

variable {table : ScopeTable} {specifiers : List String}
  (grounded : table.Grounded pairing specifiers)

include grounded

theorem Grounded.bindings (scope : NodeKey) (name : String) :
    ∀ binding ∈ table.bindings scope name, binding.Grounded pairing specifiers := by
  intro binding bindingMem
  rcases List.mem_map.1 bindingMem with ⟨introduction, introductionMem, rfl⟩
  exact grounded.introductions introduction (List.mem_of_mem_filter introductionMem)

theorem Grounded.offers (name : String) :
    ∀ offer ∈ table.offers name, offer.Grounded pairing specifiers := by
  intro offer offerMem
  rcases List.mem_map.1 offerMem with ⟨named, namedMem, rfl⟩
  exact grounded.exports named (List.mem_of_mem_filter namedMem)

theorem Grounded.restrict (name : String) : (table.restrict name).Grounded pairing specifiers :=
  { grounded with
    introductions := fun introduction introductionMem =>
      grounded.introductions introduction (List.mem_of_mem_filter introductionMem) }

theorem Grounded.visible (node : Node) (name : String) :
    ∀ binding ∈ table.visible node name, binding.Grounded pairing specifiers := by
  simp only [ScopeTable.visible]
  split
  · exact (grounded.restrict name).bindings _ name
  · simp

end

section

variable {numbers : FileId → FileId} (table : ScopeTable)

theorem bindings_renumber (injective : Function.Injective numbers) (scope : NodeKey)
    (name : String) :
    (table.renumber numbers).bindings (scope.renumber numbers) name =
      (table.bindings scope name).map (Binding.renumber numbers) := by
  have sameScope : ∀ introduction : Introduction,
      ((introduction.renumber numbers).scope == scope.renumber numbers) =
        (introduction.scope == scope) := fun introduction =>
    (NodeKey.renumber_injective injective).beq_eq
  simp only [bindings, renumber, List.filter_map, List.map_map, Function.comp_def, sameScope]
  rfl

theorem topBindings_renumber (injective : Function.Injective numbers) (name : String) :
    (table.renumber numbers).topBindings name =
      (table.topBindings name).map (Binding.renumber numbers) :=
  table.bindings_renumber injective table.top name

theorem offers_renumber (name : String) :
    (table.renumber numbers).offers name = (table.offers name).map (Export.renumber numbers) := by
  simp only [offers, renumber, List.filter_map, List.map_map]
  rfl

theorem restrict_renumber (name : String) :
    (table.renumber numbers).restrict name = (table.restrict name).renumber numbers := by
  simp only [restrict, renumber, List.filter_map]
  rfl

end

/-- At alike nodes a name stands for the same, up to file numbers. -/
theorem visible_of_alike (table : ScopeTable) {node otherNode : Node}
    (alike : node.Alike pairing otherNode) (name : String) :
    (table.renumber pairing.numbers).visible otherNode name =
      (table.visible node name).map (Binding.renumber pairing.numbers) := by
  have bindings := (table.restrict name).bindings_renumber pairing.injective
  have nearest : Option.Rel (Node.Alike pairing)
      (node.ancestors.find? fun scope => !((table.restrict name).bindings scope.key name).isEmpty)
      (otherNode.ancestors.find? fun scope =>
        !(((table.restrict name).renumber pairing.numbers).bindings scope.key name).isEmpty) := by
    apply find?_of_forall₂ alike.ancestors
    intro scope otherScope same
    rw [same.key, bindings, List.isEmpty_map]
  simp only [visible, restrict_renumber]
  rcases nearest.eq_none_or_exists with
    ⟨isNone, otherIsNone⟩ | ⟨scope, otherScope, isScope, otherIsScope, same⟩
  · simp only [isNone, otherIsNone, List.map_nil]
  · simp only [isScope, otherIsScope, same.key, bindings]

end ScopeTable
end CallHierarchy
