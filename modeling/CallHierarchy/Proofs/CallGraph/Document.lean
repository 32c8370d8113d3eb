import CallHierarchy.Proofs.CallGraph.Recursion
import CallHierarchy.Proofs.Json.Record

/-!
# Reading written documents

A document is written as JSON and read back as it is. Whoever reads it must be
ready to go two levels down for every level of nested units, one for the unit and
one for the list of units inside it, and a few more for the document itself.

The document of a graph holds the whole graph if its units stand under their own numbers
and no unit lies inside itself. Its table has all that is known of each unit, in order. Its
trees have the same from the outermost units down, and below every unit stand the units
that it lists.
-/

namespace CallHierarchy

namespace Tree

variable {α β : Type}

/-- Whether a tree has at most the given number of levels. -/
inductive Within : Nat → Tree α → Prop
  | node {depth : Nat} (value : α) {children : List (Tree α)}
      (below : ∀ child ∈ children, child.Within depth) : Within (depth + 1) (.node value children)

theorem Within.map {depth : Nat} {tree : Tree α} (within : tree.Within depth) (f : α → β) :
    (tree.map f).Within depth := by
  induction within with
  | node value _ ih =>
      apply Within.node
      simpa [mapList_eq_map] using ih

end Tree

/-! ### Units -/

namespace UnitSummary

/-- The fields of a unit as they are written, in order. -/
def members (summary : UnitSummary) (children : Json) : List (String × Json) :=
  [("id", .ofText summary.id), ("type", .ofText summary.kind.word)] ++
  (summary.name.map fun name => ("name", .ofText name)).toList ++
  [("children", children), ("calledModules", textsJson summary.calls),
    ("location", .ofText summary.location)]

theorem json_eq_ofMembers (summary : UnitSummary) (children : Json) :
    summary.json children = .ofMembers (summary.members children) := by
  cases isName : summary.name <;> simp [json, members, Json.ofMembers, memberJson, isName]

theorem record?_json (summary : UnitSummary) (children : Json) (depth : Nat) :
    (summary.json children).record? shape (depth + 1) =
      some (depth, [some (.ofText summary.id), some (.ofText summary.kind.word),
        summary.name.map .ofText, some children, some (textsJson summary.calls),
        some (.ofText summary.location)]) := by
  rw [json_eq_ofMembers, Json.record?_ofMembers]
  cases isName : summary.name <;> simp [members, isName, shape, Json.field?]

theorem readKind?_word (kind : UnitKind) (depth : Nat) :
    readKind? depth (.ofText kind.word) = some kind := by
  have isWord : (Json.ofText kind.word).text? = some kind.word := Json.text?_ofText kind.word
  simp only [Json.ofText] at isWord ⊢
  simp [readKind?, isWord, UnitKind.ofWord?_word]

theorem read?_json (summary : UnitSummary) (children : Json) (depth : Nat) :
    read? (depth + 2) (summary.json children) = some (depth + 1, summary, children) := by
  simp [read?, record?_json, Json.text?_ofText, readKind?_word, Json.optionalText?_map, textsJson,
    Json.texts?_array]

theorem treeJsonList_eq_map (trees : List (Tree UnitSummary)) :
    treeJsonList trees = trees.map treeJson := by
  induction trees with
  | nil => rfl
  | cons tree trees ih => rw [treeJsonList, ih, List.map_cons]

theorem readTree?_treeJson {levels : Nat} {tree : Tree UnitSummary} (within : tree.Within levels)
    {depth : Nat} (deep : 2 * levels ≤ depth) : readTree? depth (treeJson tree) = some tree := by
  induction within generalizing depth with
  | @node levels summary children below ih =>
      obtain ⟨depth, rfl⟩ : ∃ inside, depth = inside + 2 := ⟨depth - 2, by omega⟩
      have inner : (children.map treeJson).mapM (readTree? depth) = some children :=
        Json.mapM_map_of_forall fun child childMem => ih child childMem (by omega)
      simp [treeJson, readTree?, read?_json, Json.items?, treeJsonList_eq_map, inner]

theorem isWellFormed_textsJson (texts : List String) : (textsJson texts).IsWellFormed := by
  apply Json.isWellFormed_array
  simp [Json.isWellFormed_ofText]

theorem isWellFormed_json (summary : UnitSummary) {children : Json}
    (wellFormed : children.IsWellFormed) : (summary.json children).IsWellFormed := by
  rw [json_eq_ofMembers]
  apply Json.isWellFormed_ofMembers
  cases isName : summary.name <;>
    simp [members, isName, wellFormed, Json.isWellFormed_ofText, isWellFormed_textsJson]

theorem isWellFormed_treeJson (tree : Tree UnitSummary) : (treeJson tree).IsWellFormed := by
  induction tree using Tree.induction with
  | step summary children ih =>
      apply isWellFormed_json
      rw [treeJsonList_eq_map]
      apply Json.isWellFormed_array
      simpa using ih

end UnitSummary

theorem UnitRecord.read?_json (unit : UnitRecord) (depth : Nat) :
    UnitRecord.read? (depth + 2) unit.json = some unit := by
  simp [read?, json, UnitSummary.read?_json, UnitSummary.textsJson, Json.texts?_array]

/-! ### Documents -/

namespace GraphDocument

/-- The fields of a document as they are written, in order. -/
def members (document : GraphDocument) : List (String × Json) :=
  [("rootModules", .array (document.roots.map UnitSummary.treeJson)),
    ("moduleMap", .ofMembers (document.units.map fun unit => (unit.1, unit.2.json)))]

theorem json_eq_ofMembers (document : GraphDocument) :
    document.json = .ofMembers document.members := by
  simp [json, members, Json.ofMembers, UnitSummary.memberJson, UnitSummary.treeJsonList_eq_map,
    Function.comp_def]

theorem isWellFormed_json (document : GraphDocument) : document.json.IsWellFormed := by
  have roots : (Json.array (document.roots.map UnitSummary.treeJson)).IsWellFormed := by
    apply Json.isWellFormed_array
    simp [UnitSummary.isWellFormed_treeJson]
  have units : (Json.ofMembers (document.units.map fun unit =>
      (unit.1, unit.2.json))).IsWellFormed := by
    apply Json.isWellFormed_ofMembers
    intro member memberMem
    rcases List.mem_map.1 memberMem with ⟨unit, -, rfl⟩
    exact unit.2.summary.isWellFormed_json (UnitSummary.isWellFormed_textsJson _)
  rw [json_eq_ofMembers]
  apply Json.isWellFormed_ofMembers
  simp [members, roots, units]

theorem ofJson?_json {document : GraphDocument} {levels : Nat}
    (within : ∀ tree ∈ document.roots, tree.Within levels)
    (distinct : (document.units.map (·.1)).Nodup) {depth : Nat} (deep : 2 * levels + 4 ≤ depth) :
    ofJson? depth document.json = some document := by
  obtain ⟨depth, rfl⟩ : ∃ inside, depth = inside + 4 := ⟨depth - 4, by omega⟩
  have roots : (document.roots.map UnitSummary.treeJson).mapM (UnitSummary.readTree? (depth + 2)) =
      some document.roots := by
    apply Json.mapM_map_of_forall
    intro tree treeMem
    exact UnitSummary.readTree?_treeJson (within tree treeMem) (by omega)
  have units : (Json.ofMembers (document.units.map fun unit =>
      (unit.1, unit.2.json))).dictionary? (depth + 3) UnitRecord.read? = some document.units :=
    Json.dictionary?_ofMembers distinct fun unit _ => unit.2.read?_json depth
  simp [ofJson?, json_eq_ofMembers, Json.record?_ofMembers, members, shape, Json.field?,
    Json.items?, roots, units]

theorem parse?_pretty (document : GraphDocument) :
    Json.parse? document.pretty = some document.json :=
  Json.parse?_pretty document.isWellFormed_json (by simp [Json.IsWhite, Json.LexState.isSpace])

end GraphDocument

/-! ### Graphs -/

namespace CallGraph

variable {graph : CallGraph}

theorem within_of_nested? {depth : Nat} {id : UnitId} {tree : Tree (UnitId × CodeUnit)}
    (isNested : graph.nested? depth id = some tree) : tree.Within depth := by
  induction depth generalizing id tree with
  | zero => simp [nested?] at isNested
  | succ depth ih =>
      simp only [nested?, Option.map_eq_some_iff] at isNested
      rcases isNested with ⟨unit, -, rfl⟩
      apply Tree.Within.node
      intro child childMem
      rcases List.mem_filterMap.1 childMem with ⟨inner, -, isInner⟩
      exact ih isInner

theorem within_of_mem_roots {tree : Tree UnitSummary} (treeMem : tree ∈ graph.document.roots) :
    tree.Within graph.size := by
  simp only [document, nesting, List.mem_map, List.mem_filterMap] at treeMem
  rcases treeMem with ⟨whole, ⟨id, -, isNested⟩, rfl⟩
  exact (within_of_nested? isNested).map _

theorem toString_injective : Function.Injective (toString : UnitId → String) := by
  intro first second same
  simp only [Nat.toString_eq_ofList_toDigits, String.ofList_inj] at same
  simpa [Nat.ofDigitChars_ten_toDigits] using congrArg (Nat.ofDigitChars 10 · 0) same

theorem document_units_eq (keyed : graph.IsKeyed) (distinct : (graph.table.map (·.1)).Nodup) :
    graph.document.units = graph.units.map fun unit =>
      (toString unit.id, ⟨graph.summary unit, unit.children.map toString⟩) := by
  apply Table.ofEntries_of_nodup
  rw [List.map_map]
  have different := distinct.map toString_injective
  rwa [← keyed.map_id_units, List.map_map] at different

/--
Whether a tree says of a unit all that is known of it, and has below it, in order, such trees
of the units that it lists.
-/
inductive Shows (graph : CallGraph) : CodeUnit → Tree UnitSummary → Prop
  | node (unit : CodeUnit) {inside : List (Tree UnitSummary)}
      (below : List.Forall₂ (Shows graph) (unit.children.filterMap graph.unit?) inside) :
      Shows graph unit (.node ⟨toString unit.id, unit.kind, unit.name, unit.calls.map toString,
        graph.standsAt unit⟩ inside)

theorem forall₂_shows (acyclic : ∀ id, ¬graph.Below id id) {ids : List UnitId} {depth : Nat}
    (each : ∀ id ∈ ids, ∀ unit, graph.unit? id = some unit →
      ∃ tree, graph.fold acyclic graph.treePart depth id = some tree ∧ graph.Shows unit tree) :
    List.Forall₂ graph.Shows (ids.filterMap graph.unit?)
      (ids.filterMap (graph.fold acyclic graph.treePart depth)) := by
  induction ids with
  | nil => exact .nil
  | cons id rest ih =>
      rw [List.forall_mem_cons] at each
      have later := ih each.2
      cases isFound : graph.unit? id with
      | none =>
          have noTree : graph.fold acyclic graph.treePart depth id = none := by
            rw [fold_eq, isFound, Option.map_none]
          rwa [List.filterMap_cons_none isFound, List.filterMap_cons_none noTree]
      | some unit =>
          rcases each.1 unit isFound with ⟨tree, isTree, shown⟩
          rw [List.filterMap_cons_some isFound, List.filterMap_cons_some isTree]
          exact .cons shown later

theorem exists_fold_shows (acyclic : ∀ id, ¬graph.Below id id) (id : UnitId) :
    ∀ (depth : Nat) (unit : CodeUnit), graph.unit? id = some unit →
      ∃ tree, graph.fold acyclic graph.treePart depth id = some tree ∧ graph.Shows unit tree := by
  induction id using induction_of_acyclic acyclic with
  | step id ih =>
      intro depth unit isFound
      refine ⟨_, by rw [fold_eq, isFound, Option.map_some, treePart], .node unit ?_⟩
      exact forall₂_shows acyclic fun child childMem => ih unit isFound child childMem (depth + 1)

/--
A written graph is read back as its document. The trees of the document show the outermost
units, and its table has every unit of the graph, with all that is known of it.
-/
theorem document_of_written (graph : CallGraph) (keyed : graph.IsKeyed)
    (distinct : (graph.table.map (·.1)).Nodup) (acyclic : ∀ id, ¬graph.Below id id) :
    (∀ depth, 2 * graph.size + 4 ≤ depth →
      (Json.parse? (Format.json.write graph)).bind (GraphDocument.ofJson? depth) =
        some graph.document) ∧
    List.Forall₂ graph.Shows graph.rootUnits graph.document.roots ∧
    graph.document.units = graph.units.map fun unit =>
      (toString unit.id, ⟨⟨toString unit.id, unit.kind, unit.name, unit.calls.map toString,
        graph.standsAt unit⟩, unit.children.map toString⟩) := by
  have units := document_units_eq keyed distinct
  refine ⟨fun depth deep => ?_, ?_, ?_⟩
  · have keys : (graph.document.units.map (·.1)).Nodup := by
      have different := distinct.map toString_injective
      rw [← keyed.map_id_units, List.map_map] at different
      rwa [units, List.map_map]
    rw [Format.write, GraphDocument.parse?_pretty, Option.bind_some,
      GraphDocument.ofJson?_json (fun tree => within_of_mem_roots) keys deep]
  · rw [document_roots_eq_fold acyclic]
    exact forall₂_shows acyclic fun id _ => exists_fold_shows acyclic id 0
  · simp only [units, summary, location_eq]

/-- A file with a function that calls itself and whose name needs escapes. -/
def quoting : CallGraph where
  roots := [7]
  table :=
    [(7, ⟨7, .file, none, [8], [], ⟨0, 0, 9, 1⟩⟩),
      (8, ⟨8, .function, some "\"\\\x01é", [], [8], ⟨0, 2, 8, 2⟩⟩)]
  files := []

theorem document_of_written_quoting :
    quoting.IsKeyed ∧ (quoting.table.map (·.1)).Nodup ∧ (∀ id, ¬quoting.Below id id) ∧
    (Json.parse? (Format.json.write quoting)).bind (GraphDocument.ofJson? 8) =
      some quoting.document ∧
    quoting.document.units =
      [("7", ⟨⟨"7", .file, none, [], "?:1"⟩, ["8"]⟩),
        ("8", ⟨⟨"8", .function, some "\"\\\x01é", ["8"], "?:2"⟩, []⟩)] := by
  have keyed : quoting.IsKeyed := by decide
  have distinct : (quoting.table.map (·.1)).Nodup := by decide
  have acyclic : ∀ id, ¬quoting.Below id id := fun id below =>
    lt_irrefl id (lt_of_below (by decide) below)
  have written := document_of_written quoting keyed distinct acyclic
  refine ⟨keyed, distinct, acyclic, written.1 8 (by decide), written.2.2.trans ?_⟩
  decide

end CallGraph

end CallHierarchy
