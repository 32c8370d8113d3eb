import CallHierarchy.Proofs.Symbol.ExportSearch
import CallHierarchy.Symbol.Lookup

/-!
# Two ways to name what another file exports

What a file exports can be imported by its name, or with all its exports under one
name and then be accessed as a member of that. The two ways come down to the same
request, but to two searches for it: a member access has to find the type of its
receiver first and has one step less left for the search.

Where few requests can be reached, this makes no difference. A search enters no
request twice, so as long as the budget has two steps for each request that it has
not entered yet, it makes all the steps that there are, and any other budget that
is large enough leads to the same search (`sameBeyond_followExport`).
-/

namespace CallHierarchy

namespace Node

variable {node child : Node} {field : String}

theorem parent?_of_childAt? (isChild : node.childAt? field = some child) :
    child.parent? = some node := by
  rcases List.mem_map.1 (List.mem_of_find?_eq_some isChild) with ⟨tree, -, rfl⟩
  rfl

theorem file_of_childAt? (isChild : node.childAt? field = some child) : child.file = node.file := by
  rcases List.mem_map.1 (List.mem_of_find?_eq_some isChild) with ⟨tree, -, rfl⟩
  rfl

end Node

namespace SymbolTable

/-- Whether two parts of a search do the same once some requests have been entered, and enter
more. -/
def SameBeyond (visited : Visited) (find other : Visited → List Symbol × Visited) : Prop :=
  ∀ later, visited ⊆ later → find later = other later ∧ later ⊆ (find later).2

namespace SameBeyond

variable {table : SymbolTable} {visited : Visited} {budget larger : Nat} {moves : List Move}

/-- Searches that do the same for each request that some moves ask for do the same by the moves. -/
theorem performAll (stops : Bool)
    (each : ∀ cost next, .ask cost next ∈ moves →
      SameBeyond visited (table.followExport (budget - cost) next.1 next.2)
        (table.followExport (larger - cost) next.1 next.2)) :
    SameBeyond visited (table.performAll budget stops moves)
      (table.performAll larger stops moves) := by
  intro later beyond
  induction moves generalizing later with
  | nil => exact ⟨rfl, List.Subset.refl later⟩
  | cons move rest ih =>
      have first : table.perform budget move later = table.perform larger move later ∧
          later ⊆ (table.perform budget move later).2 := by
        cases move with
        | found symbol => exact ⟨rfl, List.Subset.refl later⟩
        | ask cost next => exact each cost next List.mem_cons_self later beyond
      have others := ih (fun cost next moveMem => each cost next (List.mem_cons_of_mem _ moveMem))
        _ (List.Subset.trans beyond first.2)
      simp only [SymbolTable.performAll, inTurn, ← first.1, ← others.1]
      split
      · exact ⟨trivial, first.2⟩
      · exact ⟨trivial, List.Subset.trans first.2 others.2⟩

end SameBeyond

/-- How many of some requests a search has not entered. -/
def unmet (requests : Finset Request) (visited : Visited) : Nat :=
  (requests.filter (· ∉ visited)).card

theorem unmet_le_of_subset (requests : Finset Request) {visited later : Visited}
    (grown : visited ⊆ later) : unmet requests later ≤ unmet requests visited := by
  apply Finset.card_le_card
  intro request
  simp only [Finset.mem_filter]
  exact fun isUnmet => ⟨isUnmet.1, fun old => isUnmet.2 (grown old)⟩

theorem unmet_cons_lt {requests : Finset Request} {request : Request} {visited : Visited}
    (requestMem : request ∈ requests) (isNew : request ∉ visited) :
    unmet requests (request :: visited) < unmet requests visited := by
  apply Finset.card_lt_card
  rw [Finset.ssubset_iff_of_subset]
  · exact ⟨request, by simp [requestMem, isNew], by simp⟩
  · intro other
    simp only [Finset.mem_filter, List.mem_cons, not_or]
    exact fun isUnmet => ⟨isUnmet.1, isUnmet.2.2⟩

variable {table : SymbolTable}

/--
Two budgets lead to the same search if both have two steps for each request that
can be reached and has not been entered, but for the last, which needs only one.
-/
theorem sameBeyond_followExport {requests : Finset Request}
    (closed : ∀ request ∈ requests, ∀ cost next, table.ExportStep request cost next →
      next ∈ requests) (budget larger : Nat) {id : FileId} {name : String} {visited : Visited}
    (requestMem : (id, name) ∈ requests) (enough : 2 * unmet requests visited ≤ budget + 1)
    (enoughLarger : 2 * unmet requests visited ≤ larger + 1) :
    SameBeyond visited (table.followExport budget id name)
      (table.followExport larger id name) := by
  induction budget using Nat.strong_induction_on generalizing larger id name visited with
  | h budget ih =>
      intro later beyond
      refine ⟨?_, (table.explored_followExport budget id name later).grown.subset⟩
      have fewer := unmet_le_of_subset requests beyond
      by_cases isOld : (id, name) ∈ later
      · rw [followExport_of_mem isOld, followExport_of_mem isOld]
      have left := unmet_cons_lt requestMem isOld
      obtain ⟨budget, rfl⟩ : ∃ less, budget = less + 1 := ⟨budget - 1, by omega⟩
      obtain ⟨larger, rfl⟩ : ∃ less, larger = less + 1 := ⟨larger - 1, by omega⟩
      rw [followExport_succ, followExport_succ, if_neg isOld, if_neg isOld]
      refine (SameBeyond.performAll _ fun cost next moveMem => ?_) _ (List.Subset.refl _) |>.1
      have step := ask_mem_moves.1 moveMem
      have positive := step.cost_pos
      have atMost := step.cost_le
      exact ih (budget + 1 - cost) (by omega) (larger + 1 - cost) (closed _ requestMem _ _ step)
        (by omega) (by omega)

/-- If few requests can be reached, then all budgets that are large enough find the same. -/
theorem exportedSymbols_eq_of_few {budget larger bound : Nat} {id : FileId} {name : String}
    (few : {request | table.Leads (id, name) request}.encard ≤ bound)
    (enough : 2 * bound ≤ budget + 1) (enoughLarger : 2 * bound ≤ larger + 1) :
    table.exportedSymbols budget id name = table.exportedSymbols larger id name := by
  have finite := Set.finite_of_encard_le_coe few
  have card : finite.toFinset.card ≤ bound := by
    rwa [finite.encard_eq_coe_toFinset_card, Nat.cast_le] at few
  have unmetFew : unmet finite.toFinset [] ≤ bound := (Finset.card_filter_le _ _).trans card
  have closed : ∀ request ∈ finite.toFinset, ∀ cost next, table.ExportStep request cost next →
      next ∈ finite.toFinset := by
    simp only [Set.Finite.mem_toFinset, Set.mem_ofPred_eq]
    exact fun request leads cost next step => leads.tail ⟨cost, step⟩
  have startMem : (id, name) ∈ finite.toFinset := by
    rw [Set.Finite.mem_toFinset]
    exact .refl
  have same := sameBeyond_followExport closed budget larger startMem
    (show 2 * unmet finite.toFinset [] ≤ budget + 1 by omega) (by omega) [] (List.Subset.refl _)
  exact congrArg Prod.fst same.1

/-- Whether an identifier stands for one thing only, and that is imported. -/
structure StandsForImport (scopes : ScopeTable) (node : Node) (specifier : String)
    (imported : Imported) : Prop where
  isIdentifier : node.kindName = "identifier"
  isBound : ∃ key, scopes.visible node node.text = [⟨key, .elsewhere specifier imported⟩]

section

variable {file : SourceFile} {scopes : ScopeTable} {node : Node} {specifier : String}
  {target : FileId} (isKnown : table.file? node.file.id = some (file, scopes))
  (leads : table.target? node.file specifier = some target)
include isKnown leads

theorem identifierSymbols_of_wholeFile
    (standsFor : StandsForImport scopes node specifier .everything) (budget : Nat) :
    table.identifierSymbols budget node = [.exportsOf target] := by
  rcases standsFor.isBound with ⟨key, isBound⟩
  rw [identifierSymbols_eq table budget isKnown, isBound]
  simp [bindingMove?, leads, performAll_singleton, perform]

/-- The type of a name for a whole file takes two steps, and after them the file is searched. -/
theorem memberSymbols_of_wholeFile {access property : Node}
    (standsFor : StandsForImport scopes node specifier .everything)
    (isReceiver : access.childAt? "object" = some node)
    (isProperty : access.childAt? "property" = some property) (budget : Nat) :
    table.memberSymbols (budget + 2) access =
      table.exportedSymbols budget target property.text := by
  have type : table.typeOf? (budget + 1) node = some (.exportsOf target) := by
    have step : table.typeOf? (budget + 1) node =
        (table.lookups .plain budget).typeStep table false node := rfl
    have symbols : (table.lookups .plain budget).identifierSymbols node = [.exportsOf target] :=
      identifierSymbols_of_wholeFile isKnown leads standsFor budget
    rw [step, Lookups.typeStep, standsFor.isIdentifier]
    simp only [Bool.false_eq_true, if_false, Lookups.headType, symbols]
    cases budget <;> rfl
  have step : table.memberSymbols (budget + 2) access =
      (table.lookups .plain (budget + 1)).memberSymbolsStep access := rfl
  rw [step, Lookups.memberSymbolsStep, isReceiver, isProperty]
  simp only
  rw [show (table.lookups .plain (budget + 1)).type node = some (.exportsOf target) from type]
  rfl

end

/-- The name of a member refers to what an access to the member refers to. -/
theorem declarationsWithin_property (table : SymbolTable) {access property : Node}
    (isKind : property.kindName ∈ ["property_identifier", "private_property_identifier"])
    (isParent : property.parent? = some access) (isAccess : access.kindName = "member_expression")
    (limit : Nat) :
    table.declarationsWithin limit property = table.declarationsWithin limit access := by
  simp only [List.mem_cons, List.not_mem_nil, or_false] at isKind
  rw [declarationsWithin_access table isAccess, declarationsWithin]
  rcases isKind with isKind | isKind
  all_goals
    rw [Lookups.symbols, isKind, isParent]
    simp only [isAccess]
    rfl

/--
An access to a member of all exports of a file refers to what an import of that
member refers to, and so does the name of the member in it.
-/
theorem declarations_namespace_access (table : SymbolTable) {file : SourceFile}
    {scopes : ScopeTable} {access receiver property named : Node} {specifier : String}
    {target : FileId} (isKnown : table.file? file.id = some (file, scopes))
    (accessFile : access.file = file) (namedFile : named.file = file)
    (isAccess : access.kindName = "member_expression")
    (isReceiver : access.childAt? "object" = some receiver)
    (isProperty : access.childAt? "property" = some property)
    (propertyKind : property.kindName ∈ ["property_identifier", "private_property_identifier"])
    (receiverStandsFor : StandsForImport scopes receiver specifier .everything)
    (namedStandsFor : StandsForImport scopes named specifier (.item property.text))
    (leads : table.target? file specifier = some target)
    (few : {request | table.Leads (target, property.text) request}.encard ≤ 16) :
    table.declarations access = table.declarations named ∧
    table.declarations property = table.declarations named := by
  have isParent := Node.parent?_of_childAt? isProperty
  have receiverFile := Node.file_of_childAt? isReceiver
  subst accessFile
  rw [← receiverFile] at isKnown leads
  have members : table.memberSymbols (defaultLimit + 1) access =
      table.exportedSymbols (defaultLimit - 1) target property.text :=
    memberSymbols_of_wholeFile isKnown leads receiverStandsFor isReceiver isProperty _
  rw [receiverFile, ← namedFile] at isKnown leads
  have items : table.identifierSymbols (defaultLimit + 1) named =
      table.exportedSymbols defaultLimit target property.text := by
    rcases namedStandsFor.isBound with ⟨key, isBound⟩
    exact table.identifierSymbols_of_imported _ isKnown isBound leads
  have same : table.exportedSymbols (defaultLimit - 1) target property.text =
      table.exportedSymbols defaultLimit target property.text :=
    exportedSymbols_eq_of_few few (by decide) (by decide)
  have accessFound : table.declarations access = table.declarations named := by
    rw [declarations, declarations, declarationsWithin_access table isAccess,
      declarationsWithin_identifier table namedStandsFor.isIdentifier, members, items, same]
  refine ⟨accessFound, Eq.trans ?_ accessFound⟩
  exact declarationsWithin_property table propertyKind isParent isAccess defaultLimit

/-- A file that imports `x` from another file in two ways, and uses both. -/
def importingFile (id : FileId) (path : String) : SourceFile :=
  ⟨id, ⟨path⟩, "import * as n from \"./a\";import \x7bx as g\x7d from \"./a\";n.x;g",
    .node ⟨⟨"program", true⟩, 0, 57, none⟩
      [.node ⟨⟨"import_statement", true⟩, 0, 25, none⟩
        [.node ⟨⟨"import_clause", true⟩, 7, 13, none⟩
          [.node ⟨⟨"namespace_import", true⟩, 7, 13, none⟩
            [.node ⟨⟨"identifier", true⟩, 12, 13, none⟩ []]],
          .node ⟨⟨"string", true⟩, 19, 24, some "source"⟩ []],
        .node ⟨⟨"import_statement", true⟩, 25, 52, none⟩
          [.node ⟨⟨"import_clause", true⟩, 32, 40, none⟩
            [.node ⟨⟨"named_imports", true⟩, 32, 40, none⟩
              [.node ⟨⟨"import_specifier", true⟩, 33, 39, none⟩
                [.node ⟨⟨"identifier", true⟩, 33, 34, some "name"⟩ [],
                  .node ⟨⟨"identifier", true⟩, 38, 39, some "alias"⟩ []]]],
            .node ⟨⟨"string", true⟩, 46, 51, some "source"⟩ []],
        .node ⟨⟨"expression_statement", true⟩, 52, 56, none⟩
          [.node ⟨⟨"member_expression", true⟩, 52, 55, none⟩
            [.node ⟨⟨"identifier", true⟩, 52, 53, some "object"⟩ [],
              .node ⟨⟨"property_identifier", true⟩, 54, 55, some "property"⟩ []]],
        .node ⟨⟨"expression_statement", true⟩, 56, 57, none⟩
          [.node ⟨⟨"identifier", true⟩, 56, 57, none⟩ []]]⟩

/-- A node of the importing file, by its number in source order. -/
def importingNode (index : Nat) : Node :=
  let root := (importingFile 3 "/d.ts").rootNode
  root.preorder.getD index root

/-- Two files that offer all exports of each other, one with a function, and one that uses it. -/
def importedCircle : SymbolTable :=
  .ofFiles ⟨"/"⟩ .empty
    [starFile 0 "/a.ts" ["./b", "./c"], starFile 1 "/b.ts" ["./a"], functionFile 2 "/c.ts",
      importingFile 3 "/d.ts"]

theorem declarations_namespace_access_circle :
    let scopes := ScopeTable.ofFile (importingFile 3 "/d.ts")
    StandsForImport scopes (importingNode 15) "./a" .everything ∧
    StandsForImport scopes (importingNode 18) "./a" (.item "x") ∧
    {request | importedCircle.Leads (0, "x") request}.encard ≤ 16 ∧
    importedCircle.declarations (importingNode 18) =
      [⟨2, 7, 22, ⟨"function_declaration", true⟩⟩] ∧
    importedCircle.declarations (importingNode 14) =
      importedCircle.declarations (importingNode 18) ∧
    importedCircle.declarations (importingNode 16) =
      importedCircle.declarations (importingNode 18) := by
  intro scopes
  have receiver : StandsForImport scopes (importingNode 15) "./a" .everything :=
    ⟨by decide, ⟨3, 7, 13, ⟨"namespace_import", true⟩⟩, by decide +kernel⟩
  have named : StandsForImport scopes (importingNode 18) "./a" (.item "x") :=
    ⟨by decide, ⟨3, 33, 39, ⟨"import_specifier", true⟩⟩, by decide +kernel⟩
  have few : {request | importedCircle.Leads (0, "x") request}.encard ≤ 16 :=
    encard_leads_le [(0, "x"), (1, "x"), (2, "x")] (by decide) (by decide +kernel) (by decide)
  have found : importedCircle.declarations (importingNode 18) =
      [⟨2, 7, 22, ⟨"function_declaration", true⟩⟩] := by decide +kernel
  have isKnown : importedCircle.file? (importingFile 3 "/d.ts").id =
      some (importingFile 3 "/d.ts", scopes) := rfl
  exact ⟨receiver, named, few, found, declarations_namespace_access importedCircle isKnown rfl rfl
    rfl rfl rfl List.mem_cons_self receiver named (by decide +kernel) few⟩

end SymbolTable
end CallHierarchy
