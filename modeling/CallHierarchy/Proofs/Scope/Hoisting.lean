import CallHierarchy.Proofs.Scope.Lexical
import CallHierarchy.Proofs.Symbol.ExportSearch

/-!
# Where variables declared by `var` are known

A name is declared by `var` in a declarator or in the head of a loop over a
collection. What a declarator declares is known in the whole function around it,
whatever blocks and loops lie between. What the head of a loop declares is known in
the loop only: a name after the loop is looked up outside, as if the loop were not
there.
-/

namespace CallHierarchy

namespace Scope

/-- The names that a construct declares by `var`, each with what is its declaration. -/
inductive VarName (visit : Place) : Place → Place → Prop where
  | plain {target : Place} (kind : visit.node.kindName = "variable_declarator")
      (isVar : IsVar visit) (isTarget : visit.childAt? "name" = some target)
      (isPlain : target.node.kindName = "identifier") : VarName visit target visit
  | inPattern {target name : Place} (kind : visit.node.kindName = "variable_declarator")
      (isVar : IsVar visit) (isTarget : visit.childAt? "name" = some target)
      (isPattern : target.node.kindName ≠ "identifier") (isName : PatternName target name) :
      VarName visit name name
  | loopHead {keyword target name : Place} (kind : visit.node.kindName = "for_in_statement")
      (declares : visit.childAt? "kind" = some keyword) (isVar : keyword.node.kindName = "var")
      (isTarget : visit.childAt? "left" = some target) (isName : PatternName target name) :
      VarName visit name name

/-- The scope of what a construct declares by `var`: a loop itself, or the nearest function. -/
def varScope? (visit : Place) : Option Place :=
  if visit.node.kindName = "for_in_statement" then some visit else visit.nearest? functionKinds

variable {file : SourceFile} {visit scope name declaration : Place} {declared : Declared}

theorem VarName.introduces (isVarName : VarName visit name declaration)
    (isScope : varScope? visit = some scope) :
    Introduces visit (.here name scope declaration) := by
  cases isVarName with
  | plain kind isVar isTarget isPlain =>
      rw [varScope?, if_neg (by simp [kind])] at isScope
      exact .functionVariable kind isVar isTarget isScope (.plain isPlain)
  | inPattern kind isVar isTarget isPattern isName =>
      rw [varScope?, if_neg (by simp [kind])] at isScope
      exact .functionVariable kind isVar isTarget isScope (.inPattern isPattern isName)
  | loopHead kind declares _ isTarget isName =>
      rw [varScope?, if_pos kind, Option.some.injEq] at isScope
      exact isScope ▸ .loop kind declares isTarget isName

/-- A construct that declares names by `var` introduces names into one scope only. -/
theorem VarName.scope_eq (isVarName : VarName visit name declaration)
    (isScope : varScope? visit = some scope) (introduced : Introduces visit declared) :
    declared.scope = scope := by
  have loop_or_declarator : visit.node.kindName = "for_in_statement" ∨
      visit.node.kindName = "variable_declarator" ∧ IsVar visit := by
    cases isVarName with
    | plain kind isVar => exact .inr ⟨kind, isVar⟩
    | inPattern kind isVar => exact .inr ⟨kind, isVar⟩
    | loopHead kind => exact .inl kind
  rcases loop_or_declarator with kind | ⟨kind, isVar⟩
  · rw [varScope?, if_pos kind, Option.some.injEq] at isScope
    cases introduced with
    | loop => exact isScope
    | _ => simp_all
  · rw [varScope?, if_neg (by simp [kind])] at isScope
    cases introduced with
    | functionVariable _ _ _ isOther isName =>
        rw [isScope, Option.some.injEq] at isOther
        rw [isName.scope_eq, isOther]
    | blockVariable _ notVar => exact absurd isVar notVar
    | _ => simp_all

theorem TargetName.origin_eq {whole target : Place}
    (isName : TargetName whole target scope declared) : declared.binding.origin = .here := by
  cases isName <;> rfl

theorem ParameterName.origin_eq {owner parameter : Place}
    (isName : ParameterName owner parameter declared) : declared.binding.origin = .here := by
  cases isName with
  | typed _ _ isName => exact isName.origin_eq
  | bare => rfl

/-- Only a whole file knows names of other files. -/
theorem Introduces.origin_eq (introduced : Introduces visit declared)
    (inFile : declared.scope.node.kindName ≠ "program") : declared.binding.origin = .here := by
  cases introduced with
  | functionVariable _ _ _ _ isName => exact isName.origin_eq
  | blockVariable _ _ _ _ isName => exact isName.origin_eq
  | parameter _ _ _ isName => exact isName.origin_eq
  | arrow _ _ isName => exact isName.origin_eq
  | imported _ _ isProgram _ _ _ isName =>
      have kind := (Place.mem_ancestors_of_nearest? isProgram).2
      rw [isName.scope_eq] at inFile
      exact absurd (List.mem_singleton.1 kind) inFile
  | _ => rfl

end Scope

namespace SymbolTable

variable {table : SymbolTable} {node : Node} {file : SourceFile} {scopes : ScopeTable}
  (isKnown : table.file? node.file.id = some (file, scopes))

include isKnown

theorem mem_identifierSymbols_of_here {binding : Binding}
    (bindingMem : binding ∈ scopes.visible node node.text) (isHere : binding.origin = .here)
    (budget : Nat) : .declaration binding.declaration ∈ table.identifierSymbols budget node := by
  rw [identifierSymbols_eq table budget isKnown]
  apply found_mem_performAll
  refine List.mem_filterMap.2 ⟨binding, bindingMem, ?_⟩
  rw [bindingMove?, isHere]

theorem identifierSymbols_of_here
    (areHere : ∀ binding ∈ scopes.visible node node.text, binding.origin = .here)
    (budget : Nat) :
    table.identifierSymbols budget node =
      (scopes.visible node node.text).map (.declaration ·.declaration) := by
  rw [identifierSymbols_eq table budget isKnown]
  generalize scopes.visible node node.text = bindings at areHere
  have moves : bindings.filterMap (table.bindingMove? node.file) =
      (bindings.map (Symbol.declaration ·.declaration)).map .found := by
    rw [List.map_map, ← List.filterMap_eq_map]
    refine List.filterMap_congr fun binding bindingMem => ?_
    rw [bindingMove?, areHere binding bindingMem]
    rfl
  rw [moves, performAll_found]

end SymbolTable

namespace Scope

open SymbolTable

/--
What is declared by `var` in a declarator is recorded in the nearest function around
it, and what is declared in the head of a loop in the loop itself, in both cases in no
other scope. An identifier of that name anywhere in this scope that no nearer scope
binds refers to the variable; and unless the scope is the whole file, all that it
refers to is declared by names that this scope knows.
-/
theorem var_known_in_scope (file : SourceFile) (distinct : file.DistinctScopes)
    (table : SymbolTable) (known : table.file? file.id = some (file, .ofFile file)) :
    ∀ visit name declaration, file.rootPlace.Reaches visit → VarName visit name declaration →
      ∀ scope, varScope? visit = some scope →
        ⟨declaration.node.key, .here⟩ ∈
          (ScopeTable.ofFile file).bindings scope.node.key name.node.text ∧
        (∀ declared, Introduces visit declared → declared.scope = scope) ∧
        ∀ place ∈ file.places, place.node.kindName = "identifier" →
          place.node.text = name.node.text →
          ∀ nearer further, place.ancestors = nearer ++ scope :: further →
            (∀ other ∈ nearer, ¬file.Binds other place.node.text) →
            ∀ limit, declaration.node.key ∈ table.declarationsWithin limit place.node ∧
              (scope.node.kindName ≠ "program" →
                ∀ key ∈ table.declarationsWithin limit place.node,
                  ∃ other declared, file.Recorded other declared ∧ declared.scope = scope ∧
                    declared.name.node.text = place.node.text ∧
                    declared.binding = ⟨key, .here⟩) := by
  intro visit name declaration reached isVarName scope isScope
  have introduced := isVarName.introduces isScope
  have scopeMem := (introduced.opensScope reached.mem_subtree).1
  have recorded : file.Recorded visit (.here name scope declaration) := ⟨reached, introduced⟩
  have mem_iff : ∀ binding,
      binding ∈ (ScopeTable.ofFile file).bindings scope.node.key name.node.text ↔ _ :=
    (enumerates_bindings distinct scopeMem name.node.text).mem_iff
  have bindingMem := (mem_iff ⟨declaration.node.key, .here⟩).2
    ⟨(visit, _), ⟨recorded, rfl, rfl⟩, rfl⟩
  refine ⟨bindingMem, fun declared => isVarName.scope_eq isScope, ?_⟩
  intro place placeMem isKind sameName nearer further around unbound limit
  rw [← sameName] at mem_iff bindingMem
  have binds : file.Binds scope place.node.text :=
    ⟨visit, _, recorded, rfl, sameName.symm⟩
  have isKnown : table.file? place.node.file.id = some (file, .ofFile file) := by
    rw [SourceFile.file_of_mem_places placeMem, known]
  have visible := visible_of_binds distinct placeMem around binds unbound
  rw [declarationsWithin_identifier table isKind]
  constructor
  · rw [← visible] at bindingMem
    exact List.mem_filterMap.2 ⟨_, mem_identifierSymbols_of_here isKnown bindingMem rfl _, rfl⟩
  · intro inFile key keyMem
    have areHere : ∀ binding ∈ (ScopeTable.ofFile file).visible place.node place.node.text,
        binding.origin = .here := by
      intro binding otherMem
      rw [visible] at otherMem
      rcases (mem_iff binding).1 otherMem with ⟨⟨other, declared⟩, ⟨recorded, sameScope, -⟩, rfl⟩
      exact recorded.introduced.origin_eq (sameScope ▸ inFile)
    rw [identifierSymbols_of_here isKnown areHere, visible] at keyMem
    rcases List.mem_filterMap.1 keyMem with ⟨symbol, symbolMem, isKey⟩
    rcases List.mem_map.1 symbolMem with ⟨binding, otherMem, rfl⟩
    rcases (mem_iff binding).1 otherMem with
      ⟨⟨other, declared⟩, ⟨recorded, sameScope, isName⟩, rfl⟩
    refine ⟨other, declared, recorded, sameScope, isName, ?_⟩
    rw [← Option.some.inj isKey, ← recorded.introduced.origin_eq (sameScope ▸ inFile)]

/-- The tree of `f();`. -/
def callTree (start : Nat) : SyntaxTree :=
  .node ⟨⟨"expression_statement", true⟩, start, start + 4, none⟩
    [.node ⟨⟨"call_expression", true⟩, start, start + 3, none⟩
      [.node ⟨⟨"identifier", true⟩, start, start + 1, some "function"⟩ []]]

/-- A function and, in another one, a loop with a variable of the same name, and a block. -/
def loopAndBlock : SourceFile where
  id := 0
  path := ⟨"/p/a.ts"⟩
  text := "function f() \x7b\x7d\nfunction g() \x7b for (var f of []) \x7b f(); \x7d f(); " ++
    "\x7b var h; \x7d h(); \x7d"
  root :=
    .node ⟨⟨"program", true⟩, 0, 80, none⟩
      [.node ⟨⟨"function_declaration", true⟩, 0, 15, none⟩
        [.node ⟨⟨"identifier", true⟩, 9, 10, some "name"⟩ []],
        .node ⟨⟨"function_declaration", true⟩, 16, 80, none⟩
          [.node ⟨⟨"identifier", true⟩, 25, 26, some "name"⟩ [],
            .node ⟨⟨"statement_block", true⟩, 29, 80, some "body"⟩
              [.node ⟨⟨"for_in_statement", true⟩, 31, 57, none⟩
                [.node ⟨⟨"var", false⟩, 36, 39, some "kind"⟩ [],
                  .node ⟨⟨"identifier", true⟩, 40, 41, some "left"⟩ [],
                  .node ⟨⟨"statement_block", true⟩, 49, 57, some "body"⟩ [callTree 51]],
                callTree 58,
                .node ⟨⟨"statement_block", true⟩, 63, 73, none⟩
                  [.node ⟨⟨"variable_declaration", true⟩, 65, 71, none⟩
                    [.node ⟨⟨"variable_declarator", true⟩, 69, 70, none⟩
                      [.node ⟨⟨"identifier", true⟩, 69, 70, some "name"⟩ []]]],
                callTree 74]]]

/-- A place of that file, by its number in source order. -/
def loopPlace (index : Nat) : Place :=
  loopAndBlock.places.getD index loopAndBlock.rootPlace

theorem loopPlace_mem (index : Nat) : loopPlace index ∈ loopAndBlock.places :=
  loopAndBlock.getD_mem_places index

theorem distinctScopes_loopAndBlock : loopAndBlock.DistinctScopes :=
  .of_nodup (by decide +kernel)

theorem varName_loopAndBlock :
    VarName (loopPlace 6) (loopPlace 8) (loopPlace 8) ∧
      VarName (loopPlace 18) (loopPlace 19) (loopPlace 18) :=
  ⟨@VarName.loopHead _ (loopPlace 7) (loopPlace 8) _ rfl rfl rfl rfl
      (.plain (by decide +kernel)),
    .plain rfl ⟨loopPlace 17, rfl, rfl⟩ rfl rfl⟩

/-- Inside the loop and after the block, the two variables are known. -/
theorem var_known_in_scope_loopAndBlock :
    let table := SymbolTable.ofFiles ⟨"/"⟩ .empty [loopAndBlock]
    loopAndBlock.DistinctScopes ∧
    table.file? loopAndBlock.id = some (loopAndBlock, .ofFile loopAndBlock) ∧
    loopAndBlock.rootPlace.Reaches (loopPlace 6) ∧
    loopAndBlock.rootPlace.Reaches (loopPlace 18) ∧
    varScope? (loopPlace 6) = some (loopPlace 6) ∧
    varScope? (loopPlace 18) = some (loopPlace 3) ∧
    (loopPlace 8).node.key ∈ table.declarations (loopPlace 12).node ∧
    (loopPlace 18).node.key ∈ table.declarations (loopPlace 22).node := by
  intro table
  have below : ∀ parent child, (loopPlace child) ∈ (loopPlace parent).children →
      (loopPlace child).node.isNamed → loopAndBlock.rootPlace.Reaches (loopPlace parent) →
      loopAndBlock.rootPlace.Reaches (loopPlace child) :=
    fun _ _ inside isNamed reached => .tail reached ⟨inside, isNamed⟩
  have body : loopAndBlock.rootPlace.Reaches (loopPlace 5) :=
    below 3 5 (Place.mem_children.2 ⟨1, _, rfl, rfl⟩) rfl <|
      below 0 3 (Place.mem_children.2 ⟨1, _, rfl, rfl⟩) rfl .refl
  have loop := below 5 6 (Place.mem_children.2 ⟨0, _, rfl, rfl⟩) rfl body
  have declarator := below 17 18 (Place.mem_children.2 ⟨0, _, rfl, rfl⟩) rfl <|
    below 16 17 (Place.mem_children.2 ⟨0, _, rfl, rfl⟩) rfl <|
      below 5 16 (Place.mem_children.2 ⟨2, _, rfl, rfl⟩) rfl body
  have unbound : ∀ index name, (ScopeTable.ofFile loopAndBlock).bindings
      (loopPlace index).node.key name = [] → ¬loopAndBlock.Binds (loopPlace index) name := by
    intro index name nothing
    rw [← bindings_ne_nil_iff distinctScopes_loopAndBlock (loopPlace_mem index), not_not]
    exact nothing
  have inLoop := (var_known_in_scope loopAndBlock distinctScopes_loopAndBlock table rfl _ _ _ loop
    varName_loopAndBlock.1 _ rfl).2.2 _ (loopPlace_mem 12) rfl (by decide +kernel)
    [loopPlace 11, loopPlace 10, loopPlace 9] _ rfl (by
      simp only [List.mem_cons, List.not_mem_nil, or_false]
      rintro other (rfl | rfl | rfl) <;> exact unbound _ _ (by decide +kernel)) 32
  have afterBlock := (var_known_in_scope loopAndBlock distinctScopes_loopAndBlock table rfl _ _ _
    declarator varName_loopAndBlock.2 _ rfl).2.2 _ (loopPlace_mem 22) rfl (by decide +kernel)
    [loopPlace 21, loopPlace 20, loopPlace 5] _ rfl (by
      simp only [List.mem_cons, List.not_mem_nil, or_false]
      rintro other (rfl | rfl | rfl) <;> exact unbound _ _ (by decide +kernel)) 32
  exact ⟨distinctScopes_loopAndBlock, rfl, loop, declarator, rfl, rfl, inLoop.1, afterBlock.1⟩

/-- After the loop, its variable is not known, and the name is that of the outer function. -/
theorem loop_variable_unknown_after_loop :
    let table := SymbolTable.ofFiles ⟨"/"⟩ .empty [loopAndBlock]
    VarName (loopPlace 6) (loopPlace 8) (loopPlace 8) ∧
    (loopPlace 6).nearest? functionKinds = some (loopPlace 3) ∧
    (loopPlace 15).nearest? functionKinds = some (loopPlace 3) ∧
    (loopPlace 15).node.text = (loopPlace 8).node.text ∧
    (ScopeTable.ofFile loopAndBlock).bindings (loopPlace 3).node.key "f" = [] ∧
    (ScopeTable.ofFile loopAndBlock).bindings (loopPlace 6).node.key "f" =
      [⟨(loopPlace 8).node.key, .here⟩] ∧
    table.declarations (loopPlace 15).node = [(loopPlace 1).node.key] :=
  ⟨varName_loopAndBlock.1, rfl, rfl, by decide +kernel, by decide +kernel, by decide +kernel,
    by decide +kernel⟩

end Scope

end CallHierarchy
