import CallHierarchy.Proofs.Run.Layout

/-!
# What the DOT form of an analysis draws

Read line by line, the DOT form of a finished analysis is one block for the graph. It
holds the clusters first, each closed where it was opened, and then an edge for every
call, in the order of the callers and of their calls. Both ends of an edge are nodes of
the form: every unit has just one line that declares its node, which is its only line
if nothing is inside it and stands at the end of its cluster otherwise. Units never
share a node or a cluster.
-/

namespace CallHierarchy

open scoped List

/-- Whether blocks are closed in turn, each at the indentation of the line that opened it. -/
inductive Matched : List (Nat × DotStatement) → Prop
  | nil : Matched []
  | plain (indent : Nat) {statement : DotStatement} {rest : List (Nat × DotStatement)}
      (notOpening : statement.opened? = none) (notClosing : statement ≠ .closing)
      (after : Matched rest) : Matched ((indent, statement) :: rest)
  | block (indent : Nat) (name : String) {inside rest : List (Nat × DotStatement)}
      (within : Matched inside) (after : Matched rest) :
      Matched ((indent, .opening name) :: (inside ++ (indent, .closing) :: rest))

namespace Matched

theorem append {first second : List (Nat × DotStatement)} (before : Matched first)
    (after : Matched second) : Matched (first ++ second) := by
  induction before with
  | nil => exact after
  | plain indent notOpening notClosing _ ih => exact .plain indent notOpening notClosing ih
  | block indent name within _ _ ih =>
      rw [List.cons_append, List.append_assoc, List.cons_append]
      exact .block indent name within ih

theorem of_plain {statements : List (Nat × DotStatement)}
    (arePlain : ∀ statement ∈ statements,
      statement.2.opened? = none ∧ statement.2 ≠ .closing) : Matched statements := by
  induction statements with
  | nil => exact .nil
  | cons statement rest ih =>
      rw [List.forall_mem_cons] at arePlain
      exact .plain statement.1 arePlain.1.1 arePlain.1.2 (ih arePlain.2)

end Matched

namespace Tree

variable {α : Type}

mutual

/-- The values of a tree in postorder, each with its depth. -/
def postorderLevels (depth : Nat) : Tree α → List (Nat × α)
  | .node value children => postorderLevelsOfList (depth + 1) children ++ [(depth, value)]

/-- The values of a list of trees in postorder, each with its depth. -/
def postorderLevelsOfList (depth : Nat) : List (Tree α) → List (Nat × α)
  | [] => []
  | tree :: rest => postorderLevels depth tree ++ postorderLevelsOfList depth rest

end

theorem postorderLevelsOfList_eq_flatMap (depth : Nat) (trees : List (Tree α)) :
    postorderLevelsOfList depth trees = trees.flatMap (postorderLevels depth) := by
  induction trees with
  | nil => rfl
  | cons tree rest ih => rw [postorderLevelsOfList, List.flatMap_cons, ih]

mutual

theorem map_snd_postorderLevels (depth : Nat) : ∀ tree : Tree α,
    (postorderLevels depth tree).map (·.2) ~ tree.preorder
  | .node value children => by
      have inner := map_snd_postorderLevelsOfList (depth + 1) children
      rw [postorderLevels, preorder, List.map_append, List.map_singleton]
      exact List.perm_append_comm.trans (inner.cons value)

theorem map_snd_postorderLevelsOfList (depth : Nat) : ∀ trees : List (Tree α),
    (postorderLevelsOfList depth trees).map (·.2) ~ preorderList trees
  | [] => .nil
  | tree :: rest => by
      rw [postorderLevelsOfList, preorderList, List.map_append]
      exact (map_snd_postorderLevels depth tree).append (map_snd_postorderLevelsOfList depth rest)

end

end Tree

namespace CallGraph

/-! ### Clusters -/

mutual

theorem matched_dotLines (depth : Nat) : ∀ tree : Tree (UnitId × CodeUnit),
    Matched ((dotLines depth tree).map readDotLine)
  | .node (id, unit) inside => by
      rw [dotLines]
      split
      · rw [List.map_singleton, readDotLine_dotLeaf]
        exact .of_plain (by simp [DotStatement.opened?])
      · have attributes : Matched [(4 * (depth + 1), .attribute), (4 * (depth + 1), .attribute)] :=
          .of_plain (by simp [DotStatement.opened?])
        have anchor : Matched [(4 * (depth + 1), .node (anchorName id))] :=
          .of_plain (by simp [DotStatement.opened?])
        have within := (attributes.append (matched_dotLinesOfList (depth + 1) inside)).append anchor
        rw [List.map_append, List.map_append, map_readDotLine_dotOpening,
          map_readDotLine_dotClosing]
        simpa using Matched.block (4 * depth) (clusterName unit) within .nil

theorem matched_dotLinesOfList (depth : Nat) : ∀ trees : List (Tree (UnitId × CodeUnit)),
    Matched ((dotLinesOfList depth trees).map readDotLine)
  | [] => .nil
  | tree :: rest => by
      rw [dotLinesOfList, List.map_append]
      exact (matched_dotLines depth tree).append (matched_dotLinesOfList depth rest)

end

namespace DotEvent

theorem notEdge_of_mem_statements {event : DotEvent} {statement : Nat × DotStatement}
    (statementMem : statement ∈ event.statements) (source target : String) :
    statement.2 ≠ .edge source target := by
  cases event with
  | enter depth unit =>
      rw [statements] at statementMem
      split at statementMem <;> grind
  | leave depth id => grind [statements]

/-- A cluster is opened when its unit is entered. -/
theorem filterMap_opened?_statements (event : DotEvent) :
    event.statements.filterMap (·.2.opened?) =
      (event.entered?.toList.filter fun unit => !unit.children.isEmpty).map clusterName := by
  cases event with
  | enter depth unit =>
      by_cases isLeaf : unit.children.isEmpty
      · simp [statements, entered?, DotStatement.opened?, isLeaf]
      · simp [statements, entered?, DotStatement.opened?, isLeaf]
  | leave depth id => simp [statements, entered?, DotStatement.opened?]

end DotEvent

/-! ### Nodes -/

/-- Whether a line declares a node. -/
def Declares (line name : String) : Prop :=
  (readDotLine line).2 = .node name

instance (line name : String) : Decidable (Declares line name) :=
  inferInstanceAs (Decidable (_ = _))

/-- The line that declares the node of a unit at a depth. -/
def nodeLine (item : Nat × CodeUnit) : String :=
  if item.2.children.isEmpty then dotLeaf item.1 item.2 else dotAnchor item.1 (dotNode item.2)

theorem declares_nodeLine {item : Nat × CodeUnit} {name : String} :
    Declares (nodeLine item) name ↔ dotNode item.2 = name := by
  have noQuote : '"' ∉ (dotNode item.2).toList := notMem_dotNode item.2 (by decide) (by decide)
  unfold Declares nodeLine
  split <;> simp [readDotLine_dotLeaf, readDotLine_dotAnchor item.1 noQuote]

theorem filter_declares_eq_nil {lines : List String} {statements : List (Nat × DotStatement)}
    (isRead : lines.map readDotLine = statements) (name : String)
    (noNode : ∀ statement ∈ statements, statement.2 ≠ .node name) :
    lines.filter (Declares · name) = [] := by
  rw [List.filter_eq_nil_iff]
  intro line lineMem
  rw [decide_eq_true_iff]
  exact noNode _ (isRead ▸ List.mem_map_of_mem lineMem)

/-- The units of a tree in postorder, each with its depth. -/
def postorderUnits (depth : Nat) (tree : Tree (UnitId × CodeUnit)) : List (Nat × CodeUnit) :=
  (tree.postorderLevels depth).map fun item => (item.1, item.2.2)

theorem filter_declares_dotLinesOfList {trees : List (Tree (UnitId × CodeUnit))} {depth : Nat}
    {name : String}
    (each : ∀ tree ∈ trees, (dotLines depth tree).filter (Declares · name) =
      ((postorderUnits depth tree).map nodeLine).filter (Declares · name)) :
    (dotLinesOfList depth trees).filter (Declares · name) =
      ((trees.flatMap (postorderUnits depth)).map nodeLine).filter (Declares · name) := by
  rw [dotLinesOfList_eq, List.map_flatMap, List.filter_flatMap, List.filter_flatMap]
  exact List.flatMap_congr each

/-- The nodes of a tree are declared in postorder. -/
theorem filter_declares_dotLines {tree : Tree (UnitId × CodeUnit)} (arranged : tree.Arranged)
    (keyed : ∀ entry ∈ tree.preorder, entry.2.id = entry.1) (depth : Nat) (name : String) :
    (dotLines depth tree).filter (Declares · name) =
      ((postorderUnits depth tree).map nodeLine).filter (Declares · name) := by
  induction arranged generalizing depth with
  | node entry inside listed below ih =>
      have units : postorderUnits depth (.node entry inside) =
          inside.flatMap (postorderUnits (depth + 1)) ++ [(depth, entry.2)] := by
        simp only [postorderUnits, Tree.postorderLevels, Tree.postorderLevelsOfList_eq_flatMap,
          List.map_append, List.map_flatMap, List.map_singleton]
        rfl
      rw [dotLines, units, List.map_append, List.filter_append, List.map_singleton]
      split
      case isTrue isLeaf =>
        have empty : inside = [] := by simpa [listed] using isLeaf
        simp [empty, nodeLine, isLeaf]
      case isFalse notLeaf =>
        have inner := filter_declares_dotLinesOfList fun child childMem =>
          ih child childMem
            (fun other otherMem => keyed other (Tree.mem_preorder_node childMem otherMem))
            (depth + 1)
        have opening : (dotOpening depth entry.2).filter (Declares · name) = [] :=
          filter_declares_eq_nil (map_readDotLine_dotOpening depth entry.2) name (by simp)
        have brace : [dotIndent depth ++ "\x7d"].filter (Declares · name) = [] :=
          filter_declares_eq_nil (by rw [List.map_singleton, readDotLine_closing]) name (by simp)
        have isAnchor : anchorName entry.1 = dotNode entry.2 := by
          rw [dotNode_of_cluster notLeaf, keyed entry List.mem_cons_self]
        have closing : (dotClosing depth entry.1).filter (Declares · name) =
            [dotAnchor depth (dotNode entry.2)].filter (Declares · name) := by
          rw [dotClosing_eq, isAnchor, ← List.singleton_append, List.filter_append, brace,
            List.append_nil]
        rw [List.filter_append, List.filter_append, opening, inner, closing, List.nil_append,
          nodeLine, if_neg notLeaf]

theorem filter_declares_nodeLines {items : List (Nat × CodeUnit)}
    (distinct : (items.map (dotNode ·.2)).Nodup) {item : Nat × CodeUnit}
    (itemMem : item ∈ items) :
    (items.map nodeLine).filter (Declares · (dotNode item.2)) =
      [nodeLine item] := by
  induction items with
  | nil => simp at itemMem
  | cons first rest ih =>
      rw [List.map_cons, List.nodup_cons] at distinct
      rw [List.map_cons]
      rcases List.mem_cons.1 itemMem with rfl | later
      · rw [List.filter_cons_of_pos (by simp [declares_nodeLine]), List.cons_eq_cons]
        refine ⟨rfl, List.filter_eq_nil_iff.2 ?_⟩
        intro line lineMem
        rcases List.mem_map.1 lineMem with ⟨other, otherMem, rfl⟩
        rw [decide_eq_true_iff, declares_nodeLine]
        intro same
        exact distinct.1 (List.mem_map.2 ⟨other, otherMem, same⟩)
      · have different : dotNode first.2 ≠ dotNode item.2 := by
          intro same
          exact distinct.1 (List.mem_map.2 ⟨item, later, same.symm⟩)
        rw [List.filter_cons_of_neg (by simpa [declares_nodeLine] using different)]
        exact ih distinct.2 later

/-! ### Edges -/

/-- The calls of a graph, by caller and then as each caller lists them. -/
def calls (graph : CallGraph) : List (CodeUnit × UnitId) :=
  graph.units.flatMap fun unit => unit.calls.map fun id => (unit, id)

theorem length_calls (graph : CallGraph) : graph.calls.length = graph.edgeCount := by
  simp [calls, edgeCount, List.length_flatMap]

/-- Whether a statement is an edge from the caller to the unit that is called. -/
def IsEdgeOf (graph : CallGraph) (call : CodeUnit × UnitId)
    (statement : Nat × DotStatement) : Prop :=
  ∃ callee ∈ graph.units, callee.id = call.2 ∧
    statement = (4, .edge (dotNode call.1) (dotNode callee))

section

variable {graph : CallGraph} (keyed : graph.IsKeyed)
  (known : ∀ unit ∈ graph.units, ∀ id ∈ unit.calls, id ∈ graph.units.map (·.id))

include keyed known

theorem forall₂_calls_of_unit {unit : CodeUnit} (unitMem : unit ∈ graph.units) :
    List.Forall₂ graph.IsEdgeOf (unit.calls.map fun id => (unit, id))
      ((graph.dotEdges unit).map readDotLine) := by
  rw [map_readDotLine_dotEdges, List.forall₂_map_left_iff, List.forall₂_map_right_iff]
  apply forall₂_filterMap
  intro id idMem
  have isKnown := known unit unitMem id idMem
  rw [keyed.map_id_units] at isKnown
  cases isFound : graph.unit? id with
  | none => exact absurd isKnown (Table.get?_eq_none_iff.1 isFound)
  | some callee =>
      have calleeMem := mem_table_of_unit? isFound
      exact ⟨callee, rfl, callee, mem_units_of_mem_table calleeMem, keyed _ calleeMem, rfl⟩

/-- There is an edge for every call, and the edges are in the order of the calls. -/
theorem forall₂_calls :
    List.Forall₂ graph.IsEdgeOf graph.calls
      ((graph.units.flatMap graph.dotEdges).map readDotLine) := by
  rw [List.map_flatMap]
  exact forall₂_flatMap fun unit unitMem => forall₂_calls_of_unit keyed known unitMem

end

/-- What the lines of a DOT form have to say about a graph. -/
structure IsDrawnBy (graph : CallGraph) (lines : List String) : Prop where
  matched : Matched (lines.map readDotLine)
  /-- All clusters have been closed before the edges, and there are no other edges. -/
  edges_last : ∃ clusters edges,
    lines.map readDotLine = (0, .opening "G") :: (clusters ++ edges ++ [(0, .closing)]) ∧
    Matched clusters ∧
    (∀ statement ∈ clusters, ∀ source target, statement.2 ≠ .edge source target) ∧
    List.Forall₂ graph.IsEdgeOf graph.calls edges ∧ edges.length = graph.edgeCount
  declared_once : ∀ unit ∈ graph.units, ∃ depth,
    lines.filter (Declares · (dotNode unit)) = [nodeLine (depth, unit)]
  distinct_nodes : (graph.units.map dotNode).Nodup
  clusters : (lines.map readDotLine).filterMap (·.2.opened?) =
    "G" :: (graph.units.filter fun unit => !unit.children.isEmpty).map clusterName
  distinct_clusters : ((lines.map readDotLine).filterMap (·.2.opened?)).Nodup

namespace LaidOut

variable {graph : CallGraph} {forest : List (Tree (UnitId × CodeUnit))}
  (laidOut : graph.LaidOut forest)

include laidOut

theorem nodup_map_of_tellsId {name : CodeUnit → String}
    (tellsId : ∀ left right, name left = name right → left.id = right.id) :
    (graph.units.map name).Nodup := by
  have distinct : (graph.units.map (·.id)).Nodup := by
    rw [laidOut.keyed.map_id_units]
    exact laidOut.nodup_ids
  apply List.Nodup.map_on _ (.of_map _ distinct)
  intro left leftMem right rightMem same
  exact List.inj_on_of_nodup_map distinct leftMem rightMem (tellsId left right same)

theorem filter_declares_dotDocument (name : String) :
    graph.dotDocument.filter (Declares · name) =
      ((graph.nesting.flatMap (postorderUnits 1)).map nodeLine).filter (Declares · name) := by
  have header : dotHeader.filter (Declares · name) = [] :=
    filter_declares_eq_nil map_readDotLine_dotHeader name (by simp)
  have edges : (graph.units.flatMap graph.dotEdges).filter (Declares · name) = [] := by
    apply filter_declares_eq_nil rfl name
    intro statement statementMem
    rcases exists_edge_of_mem statementMem with ⟨source, target, rfl⟩
    simp
  have brace : ["\x7d"].filter (Declares · name) = [] :=
    filter_declares_eq_nil (by rw [List.map_singleton, readDotLine_brace]) name (by simp)
  rw [laidOut.dotDocument_eq, List.filter_append, List.filter_append, List.filter_append, header,
    edges, brace, List.append_nil, List.append_nil, List.nil_append]
  apply filter_declares_dotLinesOfList
  intro tree treeMem
  rw [laidOut.nesting_eq] at treeMem
  apply filter_declares_dotLines (laidOut.arranged tree treeMem)
  intro entry entryMem
  exact laidOut.keyed entry (laidOut.mem_table_of_mem_forest treeMem entry entryMem)

theorem perm_postorderUnits :
    (graph.nesting.flatMap (postorderUnits 1)).map (·.2) ~ graph.units := by
  have isPerm := (Tree.map_snd_postorderLevelsOfList 1 graph.nesting).map (·.2)
  rw [laidOut.preorder_nesting, Tree.postorderLevelsOfList_eq_flatMap, List.map_map,
    List.map_flatMap] at isPerm
  simp only [postorderUnits, List.map_flatMap, List.map_map]
  exact isPerm

/-- Each unit has one line that declares its node. -/
theorem exists_filter_declares {unit : CodeUnit} (unitMem : unit ∈ graph.units) :
    ∃ depth, graph.dotDocument.filter (Declares · (dotNode unit)) = [nodeLine (depth, unit)] := by
  have isPerm := laidOut.perm_postorderUnits
  have distinct : ((graph.nesting.flatMap (postorderUnits 1)).map (dotNode ·.2)).Nodup := by
    have names := (isPerm.map dotNode).nodup_iff.2
      (laidOut.nodup_map_of_tellsId fun _ _ => id_eq_of_dotNode_eq)
    rwa [List.map_map] at names
  rcases List.mem_map.1 (isPerm.mem_iff.2 unitMem) with ⟨item, itemMem, rfl⟩
  exact ⟨item.1, by rw [laidOut.filter_declares_dotDocument,
    filter_declares_nodeLines distinct itemMem]⟩

theorem filterMap_opened?_dotDocument :
    (graph.dotDocument.map readDotLine).filterMap (·.2.opened?) =
      "G" :: (graph.units.filter fun unit => !unit.children.isEmpty).map clusterName := by
  have isRead : (graph.dotDocument.map readDotLine).filterMap (·.2.opened?) =
      ["G"] ++ (eventsInList 1 graph.nesting).flatMap fun event =>
        event.statements.filterMap (·.2.opened?) :=
    laidOut.filterMap_dotDocument (fun _ _ => rfl) rfl rfl
  simp only [DotEvent.filterMap_opened?_statements] at isRead
  rw [isRead, ← laidOut.entered_eventsInList, List.singleton_append,
    List.filterMap_eq_flatMap_toList, List.filter_flatMap, List.map_flatMap]

theorem isDrawnBy (wellNested : graph.WellNested) : graph.IsDrawnBy graph.dotDocument := by
  have isRead := laidOut.map_readDotLine_dotDocument
  have attributes : Matched [(4, .attribute), (4, .attribute)] :=
    .of_plain (by simp [DotStatement.opened?])
  have clusters := attributes.append (matched_dotLinesOfList 1 graph.nesting)
  have edges : Matched ((graph.units.flatMap graph.dotEdges).map readDotLine) := by
    apply Matched.of_plain
    intro statement statementMem
    rcases exists_edge_of_mem statementMem with ⟨source, target, rfl⟩
    exact ⟨rfl, by simp⟩
  have isEdge := forall₂_calls laidOut.keyed wellNested.call_mem
  have opened := laidOut.filterMap_opened?_dotDocument
  constructor
  case matched =>
    rw [isRead]
    exact .block 0 "G" (clusters.append edges) .nil
  case edges_last =>
    refine ⟨_, _, isRead, clusters, ?_, isEdge, isEdge.length_eq.symm.trans graph.length_calls⟩
    intro statement statementMem source target
    rw [map_readDotLine_dotLinesOfList, List.mem_append, List.mem_flatMap] at statementMem
    rcases statementMem with isAttribute | ⟨event, -, inEvent⟩
    · rcases List.mem_pair.1 isAttribute with rfl | rfl <;> simp
    · exact DotEvent.notEdge_of_mem_statements inEvent source target
  case declared_once => exact fun unit => laidOut.exists_filter_declares
  case distinct_nodes => exact laidOut.nodup_map_of_tellsId fun _ _ => id_eq_of_dotNode_eq
  case clusters => exact opened
  case distinct_clusters =>
    have names := laidOut.nodup_map_of_tellsId fun _ _ => id_eq_of_clusterName_eq
    rw [opened, List.nodup_cons]
    refine ⟨?_, names.sublist (List.filter_sublist.map clusterName)⟩
    intro isCluster
    rcases List.mem_map.1 isCluster with ⟨unit, -, isName⟩
    have isFirst := congrArg (·.toList.head?) isName
    simp [clusterName] at isFirst

end LaidOut

end CallGraph

namespace Run

/--
The DOT form of a finished analysis has an edge for every call, after all clusters and
between nodes that are declared once; all blocks are closed in turn.
-/
theorem analyze_isDrawnBy_dot (declarations : Declarations) (files : List SourceFile) :
    let graph := analyze declarations files
    graph.IsDrawnBy (endedLines graph.dot) := by
  intro graph
  rcases exists_laidOut_analyze declarations files with ⟨forest, laidOut⟩
  have wellNested := (sound_empty.foldl_apply
    (files.map .classify ++ files.map (.resolve declarations))).wellNested (files.map (·.path))
  rw [List.foldl_append, List.foldl_map, List.foldl_map] at wellNested
  rw [graph.endedLines_dot]
  exact laidOut.isDrawnBy wellNested

end Run

end CallHierarchy
