import CallHierarchy.Proofs.Alike.Scope
import CallHierarchy.Proofs.Source.Order
import Mathlib.Tactic.MkIffOfInductiveProp

/-!
# The rules of lexical scope

Which names a construct introduces, into which scope, and what they stand for:
the rules are stated as relations between places, one constructor for each way to
introduce a name. The list that the program computes for a construct shows what
the rules give, each name once and in source order (`shownBy_introductions`).
-/

namespace CallHierarchy.Scope

/-- A name that a construct introduces: where it stands, where it is known, what it stands for. -/
structure Declared where
  name : Place
  scope : Place
  binding : Binding

namespace Declared

/-- What a scope table keeps of it. -/
def introduction (declared : Declared) : Introduction :=
  ⟨declared.scope.node.key, declared.name.node.text, declared.binding⟩

/-- Whether one name stands before another in the source. -/
def Precedes (declared other : Declared) : Prop :=
  declared.name.Precedes other.name

/-- A name for a declaration of the same file. -/
def here (name scope declaration : Place) : Declared :=
  ⟨name, scope, ⟨declaration.node.key, .here⟩⟩

end Declared

/-- The names in binding position in a pattern. Keys and default values are none. -/
@[mk_iff]
inductive PatternName : Place → Place → Prop where
  | plain {name : Place}
      (kind : name.node.kindName ∈ ["identifier", "shorthand_property_identifier_pattern"]) :
      PatternName name name
  | value {pattern part name : Place} (kind : pattern.node.kindName = "pair_pattern")
      (isPart : pattern.childAt? "value" = some part) (inPart : PatternName part name) :
      PatternName pattern name
  | target {pattern part name : Place}
      (kind : pattern.node.kindName ∈ ["assignment_pattern", "object_assignment_pattern"])
      (isPart : pattern.childAt? "left" = some part) (inPart : PatternName part name) :
      PatternName pattern name
  | element {pattern part name : Place}
      (kind : pattern.node.kindName ∈ ["object_pattern", "array_pattern", "rest_pattern"])
      (isPart : pattern.ConstructIn part) (inPart : PatternName part name) :
      PatternName pattern name

/-- A plain name is declared by the whole construct, the names of a pattern by themselves. -/
@[mk_iff]
inductive TargetName (whole target scope : Place) : Declared → Prop where
  | plain (kind : target.node.kindName = "identifier") :
      TargetName whole target scope (.here target scope whole)
  | inPattern {name : Place} (kind : target.node.kindName ≠ "identifier")
      (isName : PatternName target name) :
      TargetName whole target scope (.here name scope name)

/-- The names of a parameter, which belong to the function that has the parameter. -/
@[mk_iff]
inductive ParameterName (owner parameter : Place) : Declared → Prop where
  | typed {target : Place} {declared : Declared}
      (kind : parameter.node.kindName ∈ ["required_parameter", "optional_parameter"])
      (isTarget : parameter.childAt? "pattern" = some target)
      (isName : TargetName parameter target owner declared) : ParameterName owner parameter declared
  | bare {name : Place}
      (kind : parameter.node.kindName ∉ ["required_parameter", "optional_parameter"])
      (isName : PatternName parameter name) : ParameterName owner parameter (.here name owner name)

/-- What an entry of an import list introduces: another name for the imported one, or that name. -/
def listedName (program listed name : Place) (specifier : String) : Declared :=
  ⟨(listed.childAt? "alias").getD name, program,
    ⟨listed.node.key, .elsewhere specifier (.item (Text.unquote name.node.text))⟩⟩

/-- The names that one part of an import clause gives to what another file exports. -/
@[mk_iff]
inductive ImportedName (program : Place) (specifier : String) (part : Place) :
    Declared → Prop where
  | byDefault (kind : part.node.kindName = "identifier") :
      ImportedName program specifier part
        ⟨part, program, ⟨part.node.key, .elsewhere specifier (.item "default")⟩⟩
  | everything {name : Place} (kind : part.node.kindName = "namespace_import")
      (isName : part.firstConstruct? = some name) :
      ImportedName program specifier part
        ⟨name, program, ⟨part.node.key, .elsewhere specifier .everything⟩⟩
  | item {listed name : Place} (kind : part.node.kindName = "named_imports")
      (isListed : part.ConstructIn listed) (listedKind : listed.node.kindName = "import_specifier")
      (isName : listed.childAt? "name" = some name) :
      ImportedName program specifier part (listedName program listed name specifier)

/-- Whether a variable is declared by `var`. -/
def IsVar (declarator : Place) : Prop :=
  ∃ parent, declarator.parent? = some parent ∧ parent.node.kindName = "variable_declaration"

/-- The rules of lexical scope: what a construct introduces by itself. -/
@[mk_iff]
inductive Introduces (visit : Place) : Declared → Prop where
  /-- A function is known in the nearest function around it. -/
  | function {name scope : Place}
      (kind : visit.node.kindName ∈
        ["function_declaration", "generator_function_declaration", "function_signature"])
      (isName : visit.childAt? "name" = some name)
      (isScope : visit.nearest? functionKinds = some scope) :
      Introduces visit (.here name scope visit)
  /-- A class or an enumeration is known in the nearest block around it. -/
  | classOrEnum {name scope : Place}
      (kind : visit.node.kindName ∈
        ["class_declaration", "abstract_class_declaration", "enum_declaration"])
      (isName : visit.childAt? "name" = some name)
      (isScope : visit.nearest? blockKinds = some scope) :
      Introduces visit (.here name scope visit)
  /-- A named function or class expression is known inside itself. -/
  | expression {name : Place}
      (kind : visit.node.kindName ∈ ["function_expression", "generator_function", "class"])
      (isName : visit.childAt? "name" = some name) :
      Introduces visit
        ⟨name, visit, ⟨(visit.node.namingContext?.getD visit.node).key, .here⟩⟩
  /-- A variable declared by `var` is known in the nearest function around it. -/
  | functionVariable {target scope : Place} {declared : Declared}
      (kind : visit.node.kindName = "variable_declarator") (isVar : IsVar visit)
      (isTarget : visit.childAt? "name" = some target)
      (isScope : visit.nearest? functionKinds = some scope)
      (isName : TargetName visit target scope declared) : Introduces visit declared
  /-- Any other variable is known in the nearest block around it. -/
  | blockVariable {target scope : Place} {declared : Declared}
      (kind : visit.node.kindName = "variable_declarator") (notVar : ¬IsVar visit)
      (isTarget : visit.childAt? "name" = some target)
      (isScope : visit.nearest? blockKinds = some scope)
      (isName : TargetName visit target scope declared) : Introduces visit declared
  /-- The parameters in a list belong to what stands around the list. -/
  | parameter {owner parameter : Place} {declared : Declared}
      (kind : visit.node.kindName = "formal_parameters")
      (isOwner : visit.parent? = some owner) (isParameter : visit.ConstructIn parameter)
      (isName : ParameterName owner parameter declared) : Introduces visit declared
  /-- The parameter of an arrow function can do without a list. -/
  | arrow {parameter : Place} {declared : Declared}
      (kind : visit.node.kindName = "arrow_function")
      (isParameter : visit.childAt? "parameter" = some parameter)
      (isName : ParameterName visit parameter declared) : Introduces visit declared
  | caught {parameter name : Place} (kind : visit.node.kindName = "catch_clause")
      (isParameter : visit.childAt? "parameter" = some parameter)
      (isName : PatternName parameter name) : Introduces visit (.here name visit name)
  /-- A loop over a collection introduces names if its head declares them. -/
  | loop {keyword target name : Place} (kind : visit.node.kindName = "for_in_statement")
      (declares : visit.childAt? "kind" = some keyword)
      (isTarget : visit.childAt? "left" = some target) (isName : PatternName target name) :
      Introduces visit (.here name visit name)
  /-- Imported names are known in the whole file. -/
  | imported {source program clause part : Place} {declared : Declared}
      (kind : visit.node.kindName = "import_statement")
      (isSource : visit.childAt? "source" = some source)
      (isProgram : visit.nearest? ["program"] = some program)
      (isClause : visit.ConstructIn clause) (clauseKind : clause.node.kindName = "import_clause")
      (isPart : clause.ConstructIn part)
      (isName : ImportedName program (Text.unquote source.node.text) part declared) :
      Introduces visit declared

theorem PatternName.suffix {pattern name : Place} (isName : PatternName pattern name) :
    pattern.address <:+ name.address := by
  induction isName with
  | plain => exact List.suffix_rfl
  | value _ isPart _ ih => exact (Place.suffix_of_mem_children (Place.childAt?_mem isPart)).trans ih
  | target _ isPart _ ih =>
      exact (Place.suffix_of_mem_children (Place.childAt?_mem isPart)).trans ih
  | element _ isPart _ ih => exact (Place.suffix_of_mem_children isPart.1).trans ih

theorem TargetName.suffix {whole target scope : Place} {declared : Declared}
    (isName : TargetName whole target scope declared) :
    target.address <:+ declared.name.address := by
  cases isName with
  | plain => exact List.suffix_rfl
  | inPattern _ isName => exact isName.suffix

theorem ParameterName.suffix {owner parameter : Place} {declared : Declared}
    (isName : ParameterName owner parameter declared) :
    parameter.address <:+ declared.name.address := by
  cases isName with
  | typed _ isTarget isName =>
      exact (Place.suffix_of_mem_children (Place.childAt?_mem isTarget)).trans isName.suffix
  | bare _ isName => exact isName.suffix

/-- The names that a pattern is taken apart into are listed in source order. -/
theorem enumerates_namesIn (pattern : Place) :
    Enumerates Place.node Place.Precedes (PatternName pattern) (namesIn pattern.node) := by
  induction pattern using Place.induction with
  | step pattern ih =>
      have under : ∀ field, Enumerates Place.node Place.Precedes
          (fun name => ∃ part, pattern.childAt? field = some part ∧ PatternName part name)
          ((pattern.node.childAt? field).elim [] namesIn) := by
        intro field
        apply Place.enumerates_childAt?
        intro part isPart
        exact ih part (Place.childAt?_mem isPart)
      have elements : Enumerates Place.node Place.Precedes
          (fun name => ∃ part ∈ pattern.children, part.node.isNamed ∧ PatternName part name)
          (pattern.node.namedChildren.flatMap namesIn) :=
        Place.enumerates_children id Node.isNamed (fun part partMem _ => ih part partMem)
          (fun _ _ isName => isName.suffix)
      rw [namesIn_eq]
      split
      case h_1 | h_2 =>
        rename_i kind
        exact Enumerates.singleton pattern (by simp [patternName_iff pattern, kind, eq_comm])
      case h_3 =>
        rename_i kind
        exact (under "value").congr (by simp [patternName_iff pattern, kind])
      case h_4 | h_5 =>
        rename_i kind
        exact (under "left").congr (by simp [patternName_iff pattern, kind])
      case h_6 | h_7 | h_8 =>
        rename_i kind
        exact elements.congr
          (by simp [patternName_iff pattern, kind, Place.ConstructIn, and_assoc])
      case h_9 =>
        apply Enumerates.nil
        intro name isName
        cases isName
        all_goals simp_all

/-- Whether a list of introductions shows what a rule gives, in source order. -/
def ShownBy (rule : Declared → Prop) (shown : List Introduction) : Prop :=
  Enumerates Declared.introduction Declared.Precedes rule shown

theorem shownBy_ofPattern (scope pattern : Place) :
    ShownBy (fun declared => ∃ name, PatternName pattern name ∧
      declared = Declared.here name scope name)
      (ofPattern scope.node pattern.node) := by
  apply (enumerates_namesIn pattern).map fun name => Declared.here name scope name
  · exact fun name => rfl
  · exact fun name other isBefore => isBefore

theorem shownBy_target (whole target scope : Place) :
    ShownBy (TargetName whole target scope)
      (if target.node.kindName == "identifier" then
        [.ofDeclaration scope.node target.node whole.node]
      else ofPattern scope.node target.node) := by
  by_cases kind : target.node.kindName = "identifier"
  · rw [if_pos (by simp [kind])]
    exact Enumerates.singleton (Declared.here target scope whole) (by simp [targetName_iff, kind])
  · rw [if_neg (by simp [kind])]
    exact (shownBy_ofPattern scope target).congr (by simp [targetName_iff, kind])

theorem shownBy_ofParameter (owner parameter : Place) :
    ShownBy (ParameterName owner parameter) (ofParameter owner.node parameter.node) := by
  have typed : ShownBy (fun declared => ∃ target, parameter.childAt? "pattern" = some target ∧
      TargetName parameter target owner declared)
      ((parameter.node.childAt? "pattern").elim [] fun target =>
        if target.kindName == "identifier" then
          [.ofDeclaration owner.node target parameter.node]
        else ofPattern owner.node target) := by
    apply Place.enumerates_childAt?
    intro target _
    exact shownBy_target parameter target owner
  rw [ofParameter]
  split
  case h_1 | h_2 =>
    rename_i kind
    have same : ∀ declared, (∃ target, parameter.childAt? "pattern" = some target ∧
        TargetName parameter target owner declared) ↔ ParameterName owner parameter declared := by
      simp [parameterName_iff, kind]
    generalize parameter.node.childAt? "pattern" = target? at typed
    cases target?
    all_goals exact typed.congr same
  case h_3 =>
    exact (shownBy_ofPattern owner parameter).congr (by grind [parameterName_iff])

theorem suffix_listedName {listed name : Place} (program : Place) (specifier : String)
    (isName : listed.childAt? "name" = some name) :
    listed.address <:+ (listedName program listed name specifier).name.address := by
  simp only [listedName]
  rcases isAlias : listed.childAt? "alias" with _ | other
  · exact Place.suffix_of_mem_children (Place.childAt?_mem isName)
  · exact Place.suffix_of_mem_children (Place.childAt?_mem isAlias)

theorem ImportedName.suffix {program part : Place} {specifier : String} {declared : Declared}
    (isName : ImportedName program specifier part declared) :
    part.address <:+ declared.name.address := by
  cases isName with
  | byDefault => exact List.suffix_rfl
  | everything _ isName => exact Place.suffix_of_mem_children (Place.firstConstruct?_mem isName)
  | item _ isListed _ isName =>
      exact (Place.suffix_of_mem_children isListed.1).trans (suffix_listedName _ _ isName)

theorem shownBy_ofImportSpecifier (program listed : Place) (specifier : String) :
    ShownBy (fun declared => ∃ name, listed.childAt? "name" = some name ∧
      declared = listedName program listed name specifier)
      (ofImportSpecifier program.node specifier listed.node) := by
  have sameAlias : ∀ name : Place, ((listed.childAt? "alias").getD name).node =
      (listed.node.childAt? "alias").getD name.node := by
    intro name
    rw [← Place.map_node_childAt?]
    cases listed.childAt? "alias" <;> rfl
  rw [ofImportSpecifier, ← Place.map_node_childAt?]
  rcases listed.childAt? "name" with _ | name
  · exact Enumerates.nil (by simp)
  · have shown : ShownBy (fun declared => declared = listedName program listed name specifier)
        [(listedName program listed name specifier).introduction] :=
      Enumerates.singleton _ fun declared => Iff.rfl
    simp only [Declared.introduction, listedName, sameAlias] at shown
    exact shown.congr (by simp [listedName])

theorem shownBy_ofImportPart (program part : Place) (specifier : String) :
    ShownBy (ImportedName program specifier part)
      (ofImportPart program.node specifier part.node) := by
  rw [ofImportPart]
  split
  case h_1 =>
    rename_i kind
    exact Enumerates.singleton (⟨part, program, _⟩ : Declared) (by simp [importedName_iff, kind])
  case h_2 =>
    rename_i kind
    rw [← Place.map_node_firstConstruct?]
    rcases isFirst : part.firstConstruct? with _ | name
    · exact Enumerates.nil (by simp [importedName_iff, kind, isFirst])
    · exact Enumerates.singleton (⟨name, program, _⟩ : Declared)
        (by simp [importedName_iff, kind, isFirst])
  case h_3 =>
    rename_i kind
    rw [Node.namedChildren, List.filter_filter]
    refine Enumerates.congr (Place.enumerates_children Declared.name _
      (fun listed _ _ => shownBy_ofImportSpecifier program listed specifier) ?_) ?_
    · rintro listed declared ⟨name, isName, rfl⟩
      exact suffix_listedName program specifier isName
    · intro declared
      simp only [importedName_iff, kind, Place.ConstructIn]
      grind
  case h_4 =>
    apply Enumerates.nil
    intro declared isName
    cases isName
    all_goals simp_all

section Visit

variable {visit : Place}

theorem shownBy_ofNamed (balanced : visit.Balanced) (kinds : List String) :
    ShownBy (fun declared => ∃ name scope, visit.childAt? "name" = some name ∧
      visit.nearest? kinds = some scope ∧ declared = Declared.here name scope visit)
      (ofNamed visit.node kinds) := by
  rw [ofNamed, ← Place.map_node_childAt?, ← balanced.map_node_nearest?]
  rcases visit.childAt? "name" with _ | name
  · exact Enumerates.nil (by simp)
  rcases visit.nearest? kinds with _ | scope
  · exact Enumerates.nil (by simp)
  · exact Enumerates.singleton (Declared.here name scope visit) (by simp)

theorem shownBy_ofNamedExpression (visit : Place) :
    ShownBy (fun declared => ∃ name, visit.childAt? "name" = some name ∧
      declared = ⟨name, visit, ⟨(visit.node.namingContext?.getD visit.node).key, .here⟩⟩)
      (ofNamedExpression visit.node) := by
  rw [ofNamedExpression, ← Place.map_node_childAt?]
  rcases visit.childAt? "name" with _ | name
  · exact Enumerates.nil (by simp)
  · exact Enumerates.singleton (⟨name, visit, _⟩ : Declared) (by simp)

theorem isVar_iff (balanced : visit.Balanced) :
    visit.node.parent?.any (·.kindName == "variable_declaration") = true ↔ IsVar visit := by
  rw [← balanced.map_node_parent?, IsVar]
  cases visit.parent? <;> simp

open Classical in
theorem shownBy_ofDeclarator (balanced : visit.Balanced) :
    ShownBy (fun declared => ∃ target scope, visit.childAt? "name" = some target ∧
      visit.nearest? (if IsVar visit then functionKinds else blockKinds) = some scope ∧
      TargetName visit target scope declared)
      (ofDeclarator visit.node) := by
  simp only [ofDeclarator, isVar_iff balanced, ← Place.map_node_childAt?,
    ← balanced.map_node_nearest?]
  generalize (if IsVar visit then functionKinds else blockKinds) = kinds
  rcases visit.childAt? "name" with _ | target
  · exact Enumerates.nil (by simp)
  rcases visit.nearest? kinds with _ | scope
  · exact Enumerates.nil (by simp)
  · exact (shownBy_target visit target scope).congr (by simp)

theorem shownBy_ofParameters (balanced : visit.Balanced) :
    ShownBy (fun declared => ∃ owner parameter, visit.parent? = some owner ∧
      visit.ConstructIn parameter ∧ ParameterName owner parameter declared)
      (ofParameters visit.node) := by
  rw [ofParameters, ← balanced.map_node_parent?]
  rcases visit.parent? with _ | owner
  · exact Enumerates.nil (by simp)
  · refine Enumerates.congr (Place.enumerates_children Declared.name Node.isNamed
      (fun parameter _ _ => shownBy_ofParameter owner parameter) ?_) ?_
    · exact fun parameter declared isName => isName.suffix
    · simp [Place.ConstructIn, and_assoc]

theorem shownBy_ofImport (balanced : visit.Balanced) :
    ShownBy (fun declared => ∃ source program clause part, visit.childAt? "source" = some source ∧
      visit.nearest? ["program"] = some program ∧
      visit.ConstructIn clause ∧ clause.node.kindName = "import_clause" ∧
      clause.ConstructIn part ∧
      ImportedName program (Text.unquote source.node.text) part declared)
      (ofImport visit.node) := by
  rw [ofImport, ← Place.map_node_childAt?, ← balanced.map_node_nearest?]
  rcases visit.childAt? "source" with _ | source
  · exact Enumerates.nil (by simp)
  rcases visit.nearest? ["program"] with _ | program
  · exact Enumerates.nil (by simp)
  simp only [Option.map_some, List.flatMap_assoc]
  have parts : ∀ clause : Place, ShownBy (fun declared => ∃ part ∈ clause.children,
      part.node.isNamed ∧ ImportedName program (Text.unquote source.node.text) part declared)
      (clause.node.namedChildren.flatMap
        (ofImportPart program.node (Text.unquote source.node.text))) := by
    intro clause
    apply Place.enumerates_children Declared.name Node.isNamed
    · exact fun part _ _ => shownBy_ofImportPart program part _
    · exact fun part declared isName => isName.suffix
  rw [Node.namedChildren, List.filter_filter]
  refine Enumerates.congr (Place.enumerates_children Declared.name _
    (fun clause _ _ => parts clause) ?_) ?_
  · rintro clause declared ⟨part, partMem, -, isName⟩
    exact (Place.suffix_of_mem_children partMem).trans isName.suffix
  · intro declared
    simp only [Bool.and_eq_true, beq_iff_eq]
    constructor
    · rintro ⟨clause, clauseMem, ⟨clauseKind, clauseNamed⟩, part, partMem, partNamed, isName⟩
      exact ⟨source, program, clause, part, rfl, rfl, ⟨clauseMem, clauseNamed⟩, clauseKind,
        ⟨partMem, partNamed⟩, isName⟩
    · rintro ⟨_, _, clause, part, ⟨⟩, ⟨⟩, isClause, clauseKind, isPart, isName⟩
      exact ⟨clause, isClause.1, ⟨clauseKind, isClause.2⟩, part, isPart.1, isPart.2, isName⟩

open Classical in
/-- What is computed for a construct is what the rules give, each name once, in source order. -/
theorem shownBy_introductions (balanced : visit.Balanced) :
    ShownBy (Introduces visit) (introductions visit.node) := by
  rw [introductions]
  split
  case h_1 | h_2 | h_3 =>
    rename_i kind
    exact (shownBy_ofNamed balanced functionKinds).congr (by simp [introduces_iff, kind])
  case h_4 | h_5 | h_6 =>
    rename_i kind
    exact (shownBy_ofNamed balanced blockKinds).congr (by simp [introduces_iff, kind])
  case h_7 | h_8 | h_9 =>
    rename_i kind
    exact (shownBy_ofNamedExpression visit).congr (by simp [introduces_iff, kind])
  case h_10 =>
    rename_i kind
    refine (shownBy_ofDeclarator balanced).congr ?_
    by_cases isVar : IsVar visit
    · simp [introduces_iff, kind, isVar]
    · simp [introduces_iff, kind, isVar]
  case h_11 =>
    rename_i kind
    exact (shownBy_ofParameters balanced).congr (by simp [introduces_iff, kind])
  case h_12 =>
    rename_i kind
    exact Enumerates.congr (Place.enumerates_childAt? "parameter"
      fun parameter _ => shownBy_ofParameter visit parameter) (by simp [introduces_iff, kind])
  case h_13 =>
    rename_i kind
    exact Enumerates.congr (Place.enumerates_childAt? "parameter"
      fun parameter _ => shownBy_ofPattern visit parameter) (by simp [introduces_iff, kind])
  case h_14 =>
    rename_i kind
    rw [← Place.map_node_childAt? visit "kind"]
    rcases isDeclaring : visit.childAt? "kind" with _ | keyword
    · exact Enumerates.nil (by simp [introduces_iff, kind, isDeclaring])
    · exact Enumerates.congr (Place.enumerates_childAt? "left"
        fun target _ => shownBy_ofPattern visit target)
        (by simp [introduces_iff, kind, isDeclaring])
  case h_15 =>
    rename_i kind
    exact (shownBy_ofImport balanced).congr (by simp [introduces_iff, kind])
  case h_16 =>
    apply Enumerates.nil
    intro declared introduced
    cases introduced
    all_goals simp_all

end Visit

end CallHierarchy.Scope
