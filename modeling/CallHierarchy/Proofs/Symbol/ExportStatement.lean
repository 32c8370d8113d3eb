import CallHierarchy.Proofs.Scope.Hoisting

/-!
# Which statements make the exports of a file

The exports of a file are made by its export statements, and the table of a file
lists them in source order. It does not matter where a statement stands: one that is
nested in a namespace counts like one of the file itself. What an import finds comes
from some export statement of the file; it comes from a statement at the top if
there are no others that export the name or all names of another file.
-/

namespace CallHierarchy

theorem Enumerates.of_getElem? {β : Type} (shown : List β) :
    Enumerates (fun item : β × Nat => item.1) (fun item other => item.2 < other.2)
      (fun item => shown[item.2]? = some item.1) shown := by
  refine ⟨shown.zipIdx, List.zipIdx_map_fst 0 shown, ?_, ?_⟩
  · rw [← List.pairwise_map (R := (· < ·)), List.zipIdx_map_snd]
    exact List.pairwise_lt_range'
  · intro item
    rw [List.mem_zipIdx_iff_getElem?]

namespace Scope

/-- An export with the statement that makes it, and its position among those of the statement. -/
structure StatedExport where
  statement : Place
  position : Nat
  offer : Export

namespace StatedExport

/-- The order of the source. -/
def Earlier (stated other : StatedExport) : Prop :=
  stated.statement.Precedes other.statement ∨
    stated.statement = other.statement ∧ stated.position < other.position

/-- Whether the statement makes the export, and for a given name. -/
def IsFor (stated : StatedExport) (name : String) : Prop :=
  stated.statement.node.kindName = "export_statement" ∧
    (ofExport stated.statement.node)[stated.position]? = some (name, stated.offer)

end StatedExport

/-- Whether a statement offers all exports of another file. -/
def IsStar (statement : Place) (specifier : String) : Prop :=
  statement.node.kindName = "export_statement" ∧ ofStarExport statement.node = some specifier

theorem enumerates_exports (statement : Place) (name : String) :
    Enumerates StatedExport.offer StatedExport.Earlier
      (fun stated => stated.statement = statement ∧ stated.IsFor name)
      (((exports statement.node).filter (·.1 == name)).map (·.2)) := by
  unfold exports
  by_cases isKind : statement.node.kindName = "export_statement"
  · rw [if_pos (by simp [isKind])]
    refine Enumerates.congr (((Enumerates.of_getElem? (ofExport statement.node)).filter
      (·.1 == name)).map (fun item => StatedExport.mk statement item.2 item.1.2) Prod.snd ?_ ?_) ?_
    · exact fun item => rfl
    · exact fun item other isBefore => .inr ⟨rfl, isBefore⟩
    rintro ⟨other, position, offer⟩
    constructor
    · rintro ⟨⟨⟨found, offer⟩, position⟩, ⟨isFound, isName⟩, ⟨⟩⟩
      rw [beq_iff_eq] at isName
      exact ⟨rfl, isKind, isName ▸ isFound⟩
    · rintro ⟨rfl, -, isFound⟩
      exact ⟨⟨(name, offer), position⟩, ⟨isFound, beq_self_eq_true name⟩, rfl⟩
  · rw [if_neg (by simp [isKind])]
    refine Enumerates.nil ?_
    rintro stated ⟨rfl, isOther, -⟩
    exact isKind isOther

theorem enumerates_starExport? (statement : Place) :
    Enumerates (fun star : Place × String => star.2) (fun star other => star.1.Precedes other.1)
      (fun star => star.1 = statement ∧ IsStar star.1 star.2)
      (starExport? statement.node).toList := by
  have isStar : ∀ specifier, starExport? statement.node = some specifier ↔
      IsStar statement specifier := by
    intro specifier
    simp only [starExport?, IsStar]
    split <;> simp_all
  cases isFound : starExport? statement.node with
  | none =>
      refine Enumerates.nil ?_
      rintro ⟨other, specifier⟩ ⟨rfl, isOther⟩
      simp [(isStar specifier).2 isOther] at isFound
  | some specifier =>
      refine Enumerates.singleton (statement, specifier) ?_
      rintro ⟨other, otherSpecifier⟩
      simp only [Prod.mk.injEq]
      constructor
      · rintro ⟨rfl, isOther⟩
        rw [(isStar _).2 isOther, Option.some.injEq] at isFound
        exact ⟨rfl, isFound⟩
      · rintro ⟨rfl, rfl⟩
        exact ⟨rfl, (isStar _).1 isFound⟩

/-- What a file offers under a name is what its export statements make, in source order. -/
theorem enumerates_offers (file : SourceFile) (name : String) :
    Enumerates StatedExport.offer StatedExport.Earlier
      (fun stated => file.rootPlace.Reaches stated.statement ∧ stated.IsFor name)
      ((ScopeTable.ofFile file).offers name) := by
  rcases file.rootPlace.enumerates_namedPreorder with ⟨visits, areShown, ordered, mem_iff⟩
  have isShown : (ScopeTable.ofFile file).offers name = visits.flatMap fun visit =>
      ((exports visit.node).filter (·.1 == name)).map (·.2) := by
    have isTable : (ScopeTable.ofFile file).exports =
        visits.flatMap fun visit => exports visit.node := by
      rw [← List.flatMap_map, areShown]
      rfl
    rw [ScopeTable.offers, isTable, List.filter_flatMap, List.map_flatMap]
  rw [isShown]
  refine (Enumerates.flatMap _ (fun visit _ => enumerates_exports visit name) ?_).congr ?_
  · refine ordered.imp ?_
    rintro first second isBefore _ _ ⟨rfl, -⟩ ⟨rfl, -⟩
    exact .inl isBefore
  · intro stated
    constructor
    · rintro ⟨visit, visitMem, rfl, isFor⟩
      exact ⟨(mem_iff _).1 visitMem, isFor⟩
    · rintro ⟨reached, isFor⟩
      exact ⟨_, (mem_iff _).2 reached, rfl, isFor⟩

theorem enumerates_stars (file : SourceFile) :
    Enumerates (fun star : Place × String => star.2) (fun star other => star.1.Precedes other.1)
      (fun star => file.rootPlace.Reaches star.1 ∧ IsStar star.1 star.2)
      (ScopeTable.ofFile file).stars := by
  rcases file.rootPlace.enumerates_namedPreorder with ⟨visits, areShown, ordered, mem_iff⟩
  have isShown : (ScopeTable.ofFile file).stars =
      visits.flatMap fun visit => (starExport? visit.node).toList := by
    rw [← List.filterMap_eq_flatMap_toList]
    change file.rootPlace.node.namedPreorder.filterMap starExport? = _
    rw [← areShown, List.filterMap_map]
    rfl
  rw [isShown]
  refine (Enumerates.flatMap _ (fun visit _ => enumerates_starExport? visit) ?_).congr ?_
  · refine ordered.imp ?_
    rintro first second isBefore _ _ ⟨rfl, -⟩ ⟨rfl, -⟩
    exact isBefore
  · intro star
    constructor
    · rintro ⟨visit, visitMem, rfl, isStar⟩
      exact ⟨(mem_iff _).1 visitMem, isStar⟩
    · rintro ⟨reached, isStar⟩
      exact ⟨_, (mem_iff _).2 reached, rfl, isStar⟩

end Scope

namespace SourceFile

open Scope

/-- Whether all statements that export a name stand directly in the file. -/
def OffersAtTop (file : SourceFile) (name : String) : Prop :=
  ∀ statement offer, file.rootPlace.Reaches statement →
    statement.node.kindName = "export_statement" → (name, offer) ∈ ofExport statement.node →
    file.rootPlace.ConstructIn statement

/-- Whether all statements that export all names of another file stand directly in the file. -/
def StarsAtTop (file : SourceFile) : Prop :=
  ∀ statement specifier, file.rootPlace.Reaches statement → IsStar statement specifier →
    file.rootPlace.ConstructIn statement

theorem constructIn_rootPlace {file : SourceFile} {statement : Place}
    (reached : file.rootPlace.Reaches statement) (atTop : statement.address.length = 1) :
    file.rootPlace.ConstructIn statement := by
  rcases Relation.ReflTransGen.cases_tail reached with rfl | ⟨parent, reachedParent, inside⟩
  · cases atTop
  · rcases Place.mem_children.1 inside.1 with ⟨position, tree, -, rfl⟩
    have parentAddress : parent.address = [] := by
      simpa [Place.child] using atTop
    have isRoot : parent = file.rootPlace :=
      List.inj_on_of_nodup_map file.nodup_places (Place.Reaches.mem_subtree reachedParent)
        (Place.mem_subtree_self _) parentAddress
    exact isRoot ▸ inside

end SourceFile

namespace SymbolTable

open Scope

variable {table : SymbolTable} {file : SourceFile} {statement : Place} {id : FileId}
  {name : String} {symbol : Symbol} {budget : Nat}

/--
What an export statement of a file gives for a name: on the spot, or in another file
that the export leads to, or in a file all of whose exports are offered.
-/
inductive GivenBy (table : SymbolTable) (file : SourceFile) (name : String) (statement : Place)
    (symbol : Symbol) : Prop where
  | direct {offer : Export} (isOffered : (name, offer) ∈ ofExport statement.node)
      (direct : table.OfferSymbol file (.ofFile file) offer symbol)
  | further {offer : Export} {cost : Nat} {next last : Request}
      (isOffered : (name, offer) ∈ ofExport statement.node)
      (step : table.OfferStep file (.ofFile file) offer cost next) (leads : table.Leads next last)
      (direct : table.DirectSymbol last symbol)
  | passedOn {specifier : String} {target : FileId} {last : Request}
      (isStar : ofStarExport statement.node = some specifier)
      (isTarget : table.target? file specifier = some target)
      (leads : table.Leads (target, name) last) (direct : table.DirectSymbol last symbol)

theorem GivenBy.constructIn (given : table.GivenBy file name statement symbol)
    (reached : file.rootPlace.Reaches statement)
    (isKind : statement.node.kindName = "export_statement") (offersAtTop : file.OffersAtTop name)
    (starsAtTop : file.StarsAtTop) : file.rootPlace.ConstructIn statement := by
  cases given with
  | direct isOffered => exact offersAtTop statement _ reached isKind isOffered
  | further isOffered => exact offersAtTop statement _ reached isKind isOffered
  | passedOn isStar => exact starsAtTop statement _ reached ⟨isKind, isStar⟩

theorem exists_statement_of_mem_offers {offer : Export}
    (offerMem : offer ∈ (ScopeTable.ofFile file).offers name) :
    ∃ statement, file.rootPlace.Reaches statement ∧
      statement.node.kindName = "export_statement" ∧ (name, offer) ∈ ofExport statement.node := by
  rcases ((enumerates_offers file name).mem_iff offer).1 offerMem with
    ⟨stated, ⟨reached, isKind, isAt⟩, rfl⟩
  exact ⟨stated.statement, reached, isKind, List.mem_of_getElem? isAt⟩

/-- Whatever is found under an exported name is given by an export statement of the file. -/
theorem exists_givenBy_of_mem_exportedSymbols (known : table.file? id = some (file, .ofFile file))
    (symbolMem : symbol ∈ table.exportedSymbols budget id name) :
    ∃ statement, file.rootPlace.Reaches statement ∧
      statement.node.kindName = "export_statement" ∧ table.GivenBy file name statement symbol := by
  rcases directSymbol_of_mem_exportedSymbols symbolMem with ⟨last, leads, direct⟩
  rcases Relation.ReflTransGen.cases_head leads with rfl | ⟨next, ⟨cost, step⟩, leads⟩
  · rcases (directSymbol_iff known).1 direct with ⟨offer, offerMem, direct⟩
    rcases exists_statement_of_mem_offers offerMem with ⟨statement, reached, isKind, isOffered⟩
    exact ⟨statement, reached, isKind, .direct isOffered direct⟩
  · rcases (exportStep_iff known).1 step with
      ⟨offer, offerMem, step⟩ | ⟨-, -, specifier, specifierMem, target, isTarget, -, rfl⟩
    · rcases exists_statement_of_mem_offers offerMem with ⟨statement, reached, isKind, isOffered⟩
      exact ⟨statement, reached, isKind, .further isOffered step leads direct⟩
    · rcases ((enumerates_stars file).mem_iff specifier).1 specifierMem with
        ⟨⟨statement, _⟩, ⟨reached, isKind, isStar⟩, rfl⟩
      exact ⟨statement, reached, isKind, .passedOn isStar isTarget leads direct⟩

/-- A declaration that is exported where it stands is found, at whatever depth that is. -/
theorem mem_exportedSymbols_of_declaration (known : table.file? id = some (file, .ofFile file))
    (reached : file.rootPlace.Reaches statement)
    (isKind : statement.node.kindName = "export_statement") {key : NodeKey}
    (isOffered : (name, .declaration key) ∈ ofExport statement.node) (budget : Nat) :
    .declaration key ∈ table.exportedSymbols (budget + 1) id name := by
  have offerMem : .declaration key ∈ (ScopeTable.ofFile file).offers name := by
    rcases List.mem_iff_getElem?.1 isOffered with ⟨position, isAt⟩
    exact ((enumerates_offers file name).mem_iff _).2
      ⟨⟨statement, position, .declaration key⟩, ⟨reached, isKind, isAt⟩, rfl⟩
  have moveMem : .found (.declaration key) ∈ table.moves (id, name) :=
    found_mem_moves.2 (.offered known offerMem .declaration)
  have offered : table.passesOn (id, name) = false := by
    simpa [passesOn, known] using List.ne_nil_of_mem offerMem
  rw [exportedSymbols, followExport_succ, if_neg List.not_mem_nil, offered]
  exact found_mem_performAll _ moveMem

/-- Whether what stands at a node is bound by an import of a name from a file, and nothing else. -/
inductive Imports (table : SymbolTable) (node : Node) (id : FileId) (name : String) : Prop where
  | only {importer : SourceFile} {scopes : ScopeTable} {key : NodeKey} {specifier : String}
      (isKnown : table.file? node.file.id = some (importer, scopes))
      (isBound : scopes.visible node node.text = [⟨key, .elsewhere specifier (.item name)⟩])
      (isTarget : table.target? node.file specifier = some id)

theorem Imports.identifierSymbols_eq {node : Node} (imports : table.Imports node id name)
    (budget : Nat) :
    table.identifierSymbols budget node = table.exportedSymbols (budget - 1) id name := by
  rcases imports with ⟨isKnown, isBound, isTarget⟩
  exact table.identifierSymbols_of_imported budget isKnown isBound isTarget

/--
The exports of a file are made by its export statements, wherever they stand: its
table lists, in source order, just what they offer under a name and the files of
which they offer everything. If no nested statement offers the name, or everything
of some file, these are the statements directly in the file. An import finds all
declarations that are exported under the name where they stand, and whatever it
finds is given by an export statement, which is one directly in the file if no
nested one offers the name or everything of some file.
-/
theorem exports_made_by_statements (file : SourceFile) (name : String) :
    Enumerates StatedExport.offer StatedExport.Earlier
      (fun stated => file.rootPlace.Reaches stated.statement ∧ stated.IsFor name)
      ((ScopeTable.ofFile file).offers name) ∧
    Enumerates (fun star : Place × String => star.2) (fun star other => star.1.Precedes other.1)
      (fun star => file.rootPlace.Reaches star.1 ∧ IsStar star.1 star.2)
      (ScopeTable.ofFile file).stars ∧
    (file.OffersAtTop name →
      Enumerates StatedExport.offer StatedExport.Earlier
        (fun stated => file.rootPlace.ConstructIn stated.statement ∧ stated.IsFor name)
        ((ScopeTable.ofFile file).offers name)) ∧
    (file.StarsAtTop →
      Enumerates (fun star : Place × String => star.2) (fun star other => star.1.Precedes other.1)
        (fun star => file.rootPlace.ConstructIn star.1 ∧ IsStar star.1 star.2)
        (ScopeTable.ofFile file).stars) ∧
    ∀ (table : SymbolTable) (id : FileId) (node : Node),
      table.file? id = some (file, .ofFile file) → table.Imports node id name →
        (∀ statement key, file.rootPlace.Reaches statement →
          statement.node.kindName = "export_statement" →
          (name, .declaration key) ∈ ofExport statement.node →
          ∀ budget, .declaration key ∈ table.identifierSymbols (budget + 2) node) ∧
        ∀ budget, ∀ symbol ∈ table.identifierSymbols budget node,
          ∃ statement, file.rootPlace.Reaches statement ∧
            statement.node.kindName = "export_statement" ∧
            table.GivenBy file name statement symbol ∧
            (file.OffersAtTop name → file.StarsAtTop →
              file.rootPlace.ConstructIn statement) := by
  refine ⟨enumerates_offers file name, enumerates_stars file, ?_, ?_, ?_⟩
  · intro offersAtTop
    refine (enumerates_offers file name).congr ?_
    intro stated
    refine and_congr_left fun isFor => ⟨fun reached => ?_, .single⟩
    exact offersAtTop stated.statement _ reached isFor.1 (List.mem_of_getElem? isFor.2)
  · intro starsAtTop
    refine (enumerates_stars file).congr ?_
    intro star
    refine and_congr_left fun isStar => ⟨fun reached => ?_, .single⟩
    exact starsAtTop star.1 star.2 reached isStar
  · intro table id node known imports
    simp only [imports.identifierSymbols_eq]
    constructor
    · intro statement key reached isKind isOffered budget
      exact mem_exportedSymbols_of_declaration known reached isKind isOffered budget
    · intro budget symbol symbolMem
      rcases exists_givenBy_of_mem_exportedSymbols known symbolMem with
        ⟨statement, reached, isKind, given⟩
      exact ⟨statement, reached, isKind, given, given.constructIn reached isKind⟩

/-- The tree of `export function x() {}`. -/
def exportedFunction (start : Nat) : SyntaxTree :=
  .node ⟨⟨"export_statement", true⟩, start, start + 22, none⟩
    [.node ⟨⟨"function_declaration", true⟩, start + 7, start + 22, some "declaration"⟩
      [.node ⟨⟨"identifier", true⟩, start + 16, start + 17, some "name"⟩ []]]

/-- A file that exports two functions, and one more from within a namespace. -/
def nestedExport : SourceFile where
  id := 0
  path := ⟨"/p/a.ts"⟩
  text := "namespace N \x7b export function x() \x7b\x7d \x7d\n" ++
    "export function x() \x7b\x7d\nexport function y() \x7b\x7d"
  root :=
    .node ⟨⟨"program", true⟩, 0, 84, none⟩
      [.node ⟨⟨"expression_statement", true⟩, 0, 38, none⟩
        [.node ⟨⟨"internal_module", true⟩, 0, 38, none⟩
          [.node ⟨⟨"identifier", true⟩, 10, 11, some "name"⟩ [],
            .node ⟨⟨"statement_block", true⟩, 12, 38, some "body"⟩ [exportedFunction 14]]],
        exportedFunction 39, exportedFunction 62]

/-- A file that imports the two functions. -/
def callingFile : SourceFile where
  id := 1
  path := ⟨"/p/b.ts"⟩
  text := "import \x7b x, y \x7d from './a';\nx(); y();"
  root :=
    .node ⟨⟨"program", true⟩, 0, 37, none⟩
      [.node ⟨⟨"import_statement", true⟩, 0, 27, none⟩
        [.node ⟨⟨"import_clause", true⟩, 7, 15, none⟩
          [.node ⟨⟨"named_imports", true⟩, 7, 15, none⟩
            [.node ⟨⟨"import_specifier", true⟩, 9, 10, none⟩
              [.node ⟨⟨"identifier", true⟩, 9, 10, some "name"⟩ []],
              .node ⟨⟨"import_specifier", true⟩, 12, 13, none⟩
                [.node ⟨⟨"identifier", true⟩, 12, 13, some "name"⟩ []]]],
          .node ⟨⟨"string", true⟩, 21, 26, some "source"⟩ []],
        callTree 28, callTree 33]

theorem offersAtTop_nestedExport : nestedExport.OffersAtTop "y" := by
  have addresses : ∀ place ∈ nestedExport.places, place.node.kindName = "export_statement" →
      (ofExport place.node).any (·.1 == "y") → place.address.length = 1 := by decide +kernel
  intro statement offer reached isKind isOffered
  refine SourceFile.constructIn_rootPlace reached
    (addresses statement reached.mem_subtree isKind (List.any_eq_true.2 ⟨_, isOffered, ?_⟩))
  exact beq_self_eq_true "y"

theorem starsAtTop_nestedExport : nestedExport.StarsAtTop := by
  have noStars : ∀ place ∈ nestedExport.places, place.node.kindName = "export_statement" →
      ofStarExport place.node = none := by decide +kernel
  rintro statement specifier reached ⟨isKind, isStar⟩
  simp [noStars statement reached.mem_subtree isKind] at isStar

theorem exports_made_by_statements_nested :
    let table := ofFiles ⟨"/"⟩ .empty [nestedExport, callingFile]
    let called := callingFile.rootNode.preorder.get ⟨14, by decide +kernel⟩
    table.file? 0 = some (nestedExport, .ofFile nestedExport) ∧
    table.Imports called 0 "y" ∧ nestedExport.OffersAtTop "y" ∧ nestedExport.StarsAtTop ∧
    Enumerates StatedExport.offer StatedExport.Earlier
      (fun stated => nestedExport.rootPlace.ConstructIn stated.statement ∧ stated.IsFor "y")
      [.declaration ⟨0, 69, 84, ⟨"function_declaration", true⟩⟩] ∧
    table.identifierSymbols 33 called =
      [.declaration ⟨0, 69, 84, ⟨"function_declaration", true⟩⟩] ∧
    ∃ statement, nestedExport.rootPlace.ConstructIn statement ∧
      table.GivenBy nestedExport "y" statement
        (.declaration ⟨0, 69, 84, ⟨"function_declaration", true⟩⟩) := by
  intro table called
  have imports : table.Imports called 0 "y" :=
    @Imports.only _ _ _ _ callingFile (.ofFile callingFile)
      ⟨1, 12, 13, ⟨"import_specifier", true⟩⟩ "./a" rfl (by decide +kernel) (by decide +kernel)
  have offers : (ScopeTable.ofFile nestedExport).offers "y" =
      [.declaration ⟨0, 69, 84, ⟨"function_declaration", true⟩⟩] := by decide +kernel
  have symbols : table.identifierSymbols 33 called =
      [.declaration ⟨0, 69, 84, ⟨"function_declaration", true⟩⟩] := by decide +kernel
  rcases exports_made_by_statements nestedExport "y" with ⟨-, -, atTop, -, found⟩
  rcases (found table 0 called rfl imports).2 33 _ (symbols ▸ List.mem_singleton_self _) with
    ⟨statement, -, -, given, inFile⟩
  exact ⟨rfl, imports, offersAtTop_nestedExport, starsAtTop_nestedExport,
    offers ▸ atTop offersAtTop_nestedExport, symbols, statement,
    inFile offersAtTop_nestedExport starsAtTop_nestedExport, given⟩

/--
The function in the namespace is exported from the file, before the one that the file
itself exports under the name, and the import finds both.
-/
theorem nested_export_leaks :
    let table := ofFiles ⟨"/"⟩ .empty [nestedExport, callingFile]
    let called := callingFile.rootNode.preorder.get ⟨11, by decide +kernel⟩
    let atTop := nestedExport.rootNode.namedChildren.flatMap exports
    (atTop.filter (·.1 == "x")).map (·.2) =
      [.declaration ⟨0, 46, 61, ⟨"function_declaration", true⟩⟩] ∧
    (ScopeTable.ofFile nestedExport).offers "x" =
      [.declaration ⟨0, 21, 36, ⟨"function_declaration", true⟩⟩,
        .declaration ⟨0, 46, 61, ⟨"function_declaration", true⟩⟩] ∧
    table.declarations called =
      [⟨0, 21, 36, ⟨"function_declaration", true⟩⟩,
        ⟨0, 46, 61, ⟨"function_declaration", true⟩⟩] := by
  decide +kernel

end SymbolTable

end CallHierarchy
