import CallHierarchy.Proofs.CallGraph.DotReading
import CallHierarchy.Proofs.CallGraph.Stack
import CallHierarchy.Proofs.Run.Invariant

/-!
# The forest behind a run

The units of a run are the preorder of a forest with one tree for each file that
was entered, and every unit lists the roots of the trees below it. Entering a
file adds the tree of its outline; looking for calls changes nothing but calls.
All outputs of a finished run therefore go through the same units in the same
order, which is that of their numbers.
-/

namespace CallHierarchy

namespace Outline

mutual

/-- The units of an outline, numbered in preorder. -/
def unitTree (first : UnitId) : Outline → Tree (UnitId × CodeUnit)
  | .node entity inside =>
    .node (first, entity.unit first (rootNumbers (first + 1) inside)) (unitTrees (first + 1) inside)

/-- The units of sibling outlines, numbered in preorder. -/
def unitTrees (first : UnitId) : List Outline → List (Tree (UnitId × CodeUnit))
  | [] => []
  | outline :: rest => unitTree first outline :: unitTrees (first + outline.size) rest

end

theorem map_id_unitTrees (first : UnitId) (outlines : List Outline) :
    (unitTrees first outlines).map (·.value.1) = rootNumbers first outlines := by
  induction outlines generalizing first with
  | nil => rfl
  | cons outline rest ih =>
      rcases outline with ⟨entity, inside⟩
      simp only [unitTrees, rootNumbers, List.map_cons, ih]
      rfl

mutual

theorem arranged_unitTree (first : UnitId) : ∀ outline : Outline, (unitTree first outline).Arranged
  | .node entity inside => by
      refine .node _ _ ?_ (arranged_unitTrees (first + 1) inside)
      exact (map_id_unitTrees (first + 1) inside).symm

theorem arranged_unitTrees (first : UnitId) : ∀ outlines : List Outline,
    ∀ tree ∈ unitTrees first outlines, tree.Arranged
  | [] => by simp [unitTrees]
  | outline :: rest => by
      intro tree treeMem
      rcases List.mem_cons.1 treeMem with rfl | treeMem
      · exact arranged_unitTree first outline
      · exact arranged_unitTrees (first + outline.size) rest tree treeMem

end

mutual

theorem preorder_unitTree (first : UnitId) : ∀ outline : Outline,
    (unitTree first outline).preorder = ((numbered first outline).zipIdx first).map fun item =>
      (item.2, item.1.1.unit item.2 item.1.2)
  | .node entity inside => by
      simp only [unitTree, Tree.preorder, numbered, List.zipIdx_cons, List.map_cons,
        preorder_unitTrees (first + 1) inside]

theorem preorder_unitTrees (first : UnitId) : ∀ outlines : List Outline,
    Tree.preorderList (unitTrees first outlines) =
      ((numberedList first outlines).zipIdx first).map fun item =>
        (item.2, item.1.1.unit item.2 item.1.2)
  | [] => rfl
  | outline :: rest => by
      simp only [unitTrees, Tree.preorderList, numberedList, List.zipIdx_append, length_numbered,
        List.map_append, preorder_unitTree first outline,
        preorder_unitTrees (first + outline.size) rest]

end

end Outline

/-- The loops for the roots build the trees of the document. -/
theorem CallGraph.LaidOut.forall₂_endsIn_roots {graph : CallGraph}
    {forest : List (Tree (UnitId × CodeUnit))} (laidOut : graph.LaidOut forest) :
    List.Forall₂ (fun root tree => ∃ unit, graph.unit? root = some unit ∧
      EndsIn (TreeLoop.step graph) (.start unit) ⟨[], some tree⟩)
      graph.roots graph.document.roots := by
  have acyclic := laidOut.not_below_self
  rw [document_roots_eq_fold acyclic]
  apply forall₂_filterMap
  intro root rootMem
  rw [← laidOut.roots] at rootMem
  rcases List.mem_map.1 rootMem with ⟨tree, treeMem, rfl⟩
  have isFound := laidOut.unit?_of_mem
    (laidOut.mem_table_of_mem_forest treeMem _ tree.value_mem_preorder)
  have isTree := fold_eq acyclic graph.treePart 0 tree.value.1
  rw [isFound, Option.map_some] at isTree
  exact ⟨_, isTree, _, isFound, isTree ▸ TreeLoop.endsIn_fold acyclic isFound 0⟩

namespace Run

theorem laidOut_empty (paths : List Path) : (empty.finish paths).LaidOut [] where
  table := rfl
  roots := rfl
  arranged := by simp
  numbered := rfl
  keyed := empty.isKeyed_finish paths

theorem Sound.numbered_table {run : Run} {files : List SourceFile} (sound : run.Sound files)
    (paths : List Path) :
    (run.finish paths).table.map (·.1) = List.range' 1 (run.finish paths).size := by
  have ids := sound.numbered
  rw [← (run.isKeyed_finish paths).map_id_units, units_finish, ids, CallGraph.size, finish,
    List.length_map]

section

variable {run : Run} {files : List SourceFile} {paths : List Path}
  {forest : List (Tree (UnitId × CodeUnit))} (laidOut : (run.finish paths).LaidOut forest)

include laidOut

theorem laidOut_classify (sound : run.Sound files) (file : SourceFile) :
    ((run.classify file).finish paths).LaidOut
      (forest ++ [Outline.unitTree run.nextId (Outline.ofFile file)]) where
  table := by
    have before := laidOut.table
    rw [finish] at before ⊢
    rw [units_classify, List.map_append, Tree.preorderList_append, before,
      Tree.preorderList_eq_flatMap, List.flatMap_singleton, Outline.preorder_unitTree, addedUnits,
      List.map_map]
    rfl
  roots := by
    have roots : ((run.classify file).finish paths).roots = run.roots ++ [run.nextId] :=
      run.roots_classify file
    rw [roots, List.map_append, laidOut.roots]
    rfl
  arranged := by
    intro tree treeMem
    rcases List.mem_append.1 treeMem with treeMem | isAdded
    · exact laidOut.arranged tree treeMem
    · rw [List.mem_singleton.1 isAdded]
      exact Outline.arranged_unitTree _ _
  numbered := (sound.classify file).numbered_table paths
  keyed := (run.classify file).isKeyed_finish paths

theorem laidOut_resolve (sound : run.Sound files) (declarations : Declarations)
    (file : SourceFile) :
    ∃ resolved, ((run.resolve declarations file).finish paths).LaidOut resolved := by
  let claim := fun unit : CodeUnit =>
    { unit with calls := (lastFor? (run.claims declarations file) unit.id).getD unit.calls }
  let claimEntry := fun entry : UnitId × CodeUnit => (entry.1, claim entry.2)
  refine ⟨forest.map (Tree.map claimEntry), ?_⟩
  constructor
  case table =>
    have before := laidOut.table
    rw [finish] at before ⊢
    rw [← Tree.mapList_eq_map, Tree.preorderList_mapList, before, resolve_eq, units_grant,
      List.map_map, List.map_map]
    rfl
  case roots =>
    have roots : ((run.resolve declarations file).finish paths).roots = run.roots := by
      rw [resolve_eq]
      rfl
    rw [roots, List.map_map, ← show _ = run.roots from laidOut.roots]
    apply List.map_congr_left
    intro tree _
    simp only [Function.comp_apply, Tree.value_map, claimEntry]
  case arranged =>
    intro tree treeMem
    rcases List.mem_map.1 treeMem with ⟨old, oldMem, rfl⟩
    exact (laidOut.arranged old oldMem).map fun _ => ⟨rfl, rfl⟩
  case numbered => exact (sound.resolve declarations file).numbered_table paths
  case keyed => exact (run.resolve declarations file).isKeyed_finish paths

theorem exists_laidOut_apply (sound : run.Sound files) (step : Step) :
    ∃ applied, ((step.apply run).finish paths).LaidOut applied := by
  cases step with
  | classify file => exact ⟨_, laidOut_classify laidOut sound file⟩
  | resolve declarations file => exact laidOut_resolve laidOut sound declarations file

/-- However files are entered and looked at, the units stay laid out as a forest. -/
theorem exists_laidOut_foldl_apply (sound : run.Sound files) (steps : List Step) :
    ∃ applied, ((steps.foldl Step.apply run).finish paths).LaidOut applied := by
  induction steps generalizing run files forest with
  | nil => exact ⟨forest, laidOut⟩
  | cons step rest ih =>
      rcases exists_laidOut_apply laidOut sound step with ⟨applied, laidOutNext⟩
      exact ih laidOutNext (sound.apply step)

end

/-- The graph of an analysis is laid out as a forest. -/
theorem exists_laidOut_analyze (declarations : Declarations) (files : List SourceFile) :
    ∃ forest, (analyze declarations files).LaidOut forest := by
  have laidOut := exists_laidOut_foldl_apply (laidOut_empty (files.map (·.path))) sound_empty
    (files.map .classify ++ files.map (.resolve declarations))
  rw [List.foldl_append, List.foldl_map, List.foldl_map] at laidOut
  exact laidOut

/--
All views of a finished analysis go through the same units: the list of units, the roots with
what is below them, the trees of the document, the lines of units in the text and the lines
of the DOT form that enter a unit all have the units from the first to the last number, each
once. The units below a unit follow it without a gap. Each view is what a loop over a stack
comes to.
-/
theorem analyze_views (declarations : Declarations) (files : List SourceFile) :
    let graph := analyze declarations files
    let ids := List.range' 1 graph.size
    graph.units.map (·.id) = ids ∧
    ((∀ id, EndsIn (CallGraph.DescendantLoop.step graph) (.start graph id)
        ⟨[], graph.descendants id⟩) ∧
      (graph.roots.flatMap fun root => root :: graph.descendants root) = ids) ∧
    (List.Forall₂ (fun root tree => ∃ unit, graph.unit? root = some unit ∧
        EndsIn (CallGraph.TreeLoop.step graph) (.start unit) ⟨[], some tree⟩)
        graph.roots graph.document.roots ∧
      (Tree.preorderList graph.document.roots).map (·.id) = ids.map toString) ∧
    (∃ lines, EndsIn (CallGraph.ListingLoop.step graph) ⟨graph.roots.map (·, 0), []⟩
        ⟨[], lines⟩ ∧
      graph.listing = String.join (lines.map (· ++ "\n")) ∧
      List.Forall₂ graph.IsLineOf ids (lines.filter (CallGraph.IsUnitLine ·))) ∧
    (∃ lines edges, EndsIn (CallGraph.DotLoop.step graph) ⟨graph.roots.map (.enter · 1), [], []⟩
        ⟨[], lines, edges⟩ ∧
      graph.dot = "\n".intercalate
        (["digraph G \x7b", "    rankdir=LR;", "    node [style=filled, color=white];"] ++
          lines ++ edges ++ ["\x7d"]) ++ "\n" ∧
      (endedLines graph.dot).filterMap (fun line => (readDotLine line).2.entered?) =
        ids.map toString) ∧
    ∀ unit ∈ graph.units, graph.descendants unit.id =
      List.range' (unit.id + 1) {id | graph.Below unit.id id}.ncard := by
  intro graph ids
  rcases exists_laidOut_analyze declarations files with ⟨forest, laidOut⟩
  have acyclic := laidOut.not_below_self
  have keys : graph.table.map (·.1) = ids := laidOut.numbered
  have numbered : graph.units.map (·.id) = ids := laidOut.keyed.map_id_units.trans keys
  refine ⟨numbered, ⟨CallGraph.DescendantLoop.endsIn_descendants acyclic, ?_⟩, ⟨?_, ?_⟩,
    ⟨_, CallGraph.ListingLoop.endsIn_fold acyclic graph.roots 0,
      CallGraph.listing_eq_fold acyclic, ?_⟩,
    ⟨_, _, CallGraph.DotLoop.endsIn_fold acyclic graph.roots 1, ?_, ?_⟩, ?_⟩
  · exact laidOut.flatMap_descendants.trans keys
  · exact laidOut.forall₂_endsIn_roots
  · rw [laidOut.map_id_document, keys]
  · rw [← keys, ← CallGraph.listingLinesOfList_nesting acyclic]
    exact laidOut.forall₂_isLineOf_nesting
  · rw [CallGraph.dot, CallGraph.dotDocument_eq_fold acyclic]
  · rw [laidOut.filterMap_entered?_dot, ← numbered, List.map_map]
    rfl
  · intro unit unitMem
    exact laidOut.descendants_eq_range' (laidOut.keyed.mem_table unitMem)

end Run
end CallHierarchy
