import CallHierarchy.CallGraph.Format
import CallHierarchy.Proofs.CallGraph.Forest

/-!
# Recursion over a call graph

Where no unit lies inside itself, one can recurse from a unit to the units that it
lists: the number of units at or below it gets smaller. `fold` is the general form
of such a recursion. Numbers without a unit give nothing, and a unit that is listed
several times is treated each time.

The documents, listings and DOT forms of a graph are folds of parts that are written
out here: what a unit contributes by itself, around what comes from the units inside it.
The outputs are computed by going down as many levels as there are units, which is deep
enough.
-/

namespace CallHierarchy

namespace Tree

variable {α β : Type}

mutual

/-- What is made of a tree, from what is made of the trees below its root. -/
def foldAt (combine : Nat → α → List β → β) (depth : Nat) : Tree α → β
  | .node value children => combine depth value (foldAtList combine (depth + 1) children)

/-- What is made of a list of trees. -/
def foldAtList (combine : Nat → α → List β → β) (depth : Nat) : List (Tree α) → List β
  | [] => []
  | tree :: rest => foldAt combine depth tree :: foldAtList combine depth rest

end

theorem foldAtList_eq_map (combine : Nat → α → List β → β) (depth : Nat) (trees : List (Tree α)) :
    foldAtList combine depth trees = trees.map (foldAt combine depth) := by
  induction trees with
  | nil => rfl
  | cons tree rest ih => rw [foldAtList, ih, List.map_cons]

end Tree

namespace CallGraph

variable {graph : CallGraph} {β : Type}

/-! ### Going down -/

/-- The number of units at or below a unit. -/
noncomputable def rank (graph : CallGraph) (id : UnitId) : Nat :=
  {other | other ∈ graph.table.map (·.1) ∧ (other = id ∨ graph.Below id other)}.ncard

theorem finite_ids (graph : CallGraph) : {id | id ∈ graph.table.map (·.1)}.Finite :=
  List.finite_toSet _

theorem rank_le_size (graph : CallGraph) (id : UnitId) : graph.rank id ≤ graph.size := by
  classical
  have within : graph.rank id ≤ {other | other ∈ graph.table.map (·.1)}.ncard :=
    Set.ncard_le_ncard (fun _ both => both.1) graph.finite_ids
  have few : {other | other ∈ graph.table.map (·.1)}.ncard ≤ graph.size := by
    rw [← List.coe_toFinset, Set.ncard_coe_finset, size, ← List.length_map (·.1)]
    exact List.toFinset_card_le _
  exact within.trans few

theorem rank_pos {id : UnitId} {unit : CodeUnit} (isFound : graph.unit? id = some unit) :
    0 < graph.rank id := by
  rw [rank, Set.ncard_pos (graph.finite_ids.subset fun _ both => both.1)]
  exact ⟨id, id_mem_of_unit? isFound, .inl rfl⟩

/-- From a unit to what it lists, the unit itself is lost. -/
theorem rank_lt (acyclic : ∀ id, ¬graph.Below id id) {id child : UnitId} {unit : CodeUnit}
    (isFound : graph.unit? id = some unit) (childMem : child ∈ unit.children) :
    graph.rank child < graph.rank id := by
  have below : graph.Below id child := .single ⟨unit, isFound, childMem⟩
  apply Set.ncard_lt_ncard _ (graph.finite_ids.subset fun _ both => both.1)
  rw [Set.ssubset_iff_of_subset]
  · refine ⟨id, ⟨id_mem_of_unit? isFound, .inl rfl⟩, ?_⟩
    rintro ⟨-, rfl | above⟩
    · exact acyclic _ below
    · exact acyclic id (below.trans above)
  · rintro other ⟨isKnown, rfl | deeper⟩
    · exact ⟨isKnown, .inr below⟩
    · exact ⟨isKnown, .inr (below.trans deeper)⟩

/-- What holds of a unit whenever it holds of all that the unit lists, holds of all. -/
theorem induction_of_acyclic (acyclic : ∀ id, ¬graph.Below id id) {motive : UnitId → Prop}
    (step : ∀ id, (∀ unit, graph.unit? id = some unit → ∀ child ∈ unit.children, motive child) →
      motive id) (id : UnitId) : motive id := by
  induction isRank : graph.rank id using Nat.strong_induction_on generalizing id with
  | _ number ih =>
      apply step
      intro unit isFound child childMem
      exact ih _ (isRank ▸ rank_lt acyclic isFound childMem) child rfl

/-- What is made of a unit, from what is made of the units that it lists, one level deeper. -/
def fold (graph : CallGraph) (acyclic : ∀ id, ¬graph.Below id id)
    (combine : Nat → UnitId × CodeUnit → List β → β) (depth : Nat) (id : UnitId) : Option β :=
  match isFound : graph.unit? id with
  | none => none
  | some unit =>
    some (combine depth (id, unit) (unit.children.attach.filterMap fun child =>
      graph.fold acyclic combine (depth + 1) child.1))
termination_by graph.rank id
decreasing_by exact rank_lt acyclic isFound child.2

section

variable (acyclic : ∀ id, ¬graph.Below id id)

theorem fold_eq (combine : Nat → UnitId × CodeUnit → List β → β) (depth : Nat) (id : UnitId) :
    graph.fold acyclic combine depth id = (graph.unit? id).map fun unit =>
      combine depth (id, unit)
        (unit.children.filterMap (graph.fold acyclic combine (depth + 1))) := by
  rw [fold]
  split
  case h_1 isMissing => rw [isMissing, Option.map_none]
  case h_2 unit isFound =>
    rw [isFound, Option.map_some]
    conv_rhs => rw [← List.attach_map_subtype_val unit.children, List.filterMap_map]
    rfl

/-- Going down far enough and then folding the tree is folding along the graph. -/
theorem map_foldAt_nested? (combine : Nat → UnitId × CodeUnit → List β → β) {levels : Nat}
    {id : UnitId} (deep : graph.rank id ≤ levels) (depth : Nat) :
    (graph.nested? levels id).map (Tree.foldAt combine depth) =
      graph.fold acyclic combine depth id := by
  induction levels generalizing id depth with
  | zero =>
      have isMissing : graph.unit? id = none := by
        by_contra isThere
        rcases Option.ne_none_iff_exists'.1 isThere with ⟨unit, isFound⟩
        have room := rank_pos isFound
        omega
      rw [fold_eq, isMissing]
      rfl
  | succ levels ih =>
      rw [fold_eq, nested?, Option.map_map]
      cases isFound : graph.unit? id with
      | none => rfl
      | some unit =>
          simp only [Option.map_some, Function.comp_apply, Tree.foldAt, Tree.foldAtList_eq_map,
            List.map_filterMap]
          congr 2
          apply List.filterMap_congr
          intro child childMem
          apply ih
          have smaller := rank_lt acyclic isFound childMem
          omega

theorem map_foldAt_nesting (combine : Nat → UnitId × CodeUnit → List β → β) (depth : Nat) :
    graph.nesting.map (Tree.foldAt combine depth) =
      graph.roots.filterMap (graph.fold acyclic combine depth) := by
  rw [nesting, List.map_filterMap]
  apply List.filterMap_congr
  intro id _
  exact map_foldAt_nested? acyclic combine (graph.rank_le_size id) depth

end

/-! ### What a unit contributes -/

/-- A text of blanks. -/
def blanks (width : Nat) : String :=
  String.ofList (List.replicate width ' ')

/-- Where a unit stands: the path of its file, if that is known, and its line. -/
def standsAt (graph : CallGraph) (unit : CodeUnit) : String :=
  (graph.files[unit.span.file]?).elim "?" Path.text ++ ":" ++ toString unit.span.line

/-- What a unit is: its kind, its name, if it has one, and where it stands. -/
def describes (graph : CallGraph) (unit : CodeUnit) : String :=
  unit.kind.word ++ " " ++ unit.name.getD "<anonymous>" ++ " (" ++ graph.standsAt unit ++ ")"

/-- The name of the node of a unit. It is another one if the unit lists others. -/
def nodeName (unit : CodeUnit) : String :=
  if unit.children = [] then toString unit.id else toString unit.id ++ "_invisible"

/-- A unit in a tree of a document, above the trees of what is inside it. -/
def treePart (graph : CallGraph) (_ : Nat) (entry : UnitId × CodeUnit)
    (inside : List (Tree UnitSummary)) : Tree UnitSummary :=
  .node ⟨toString entry.2.id, entry.2.kind, entry.2.name, entry.2.calls.map toString,
    graph.standsAt entry.2⟩ inside

/-- The line of a unit and those of the units that it calls, then what is inside it. -/
def listingPart (graph : CallGraph) (depth : Nat) (entry : UnitId × CodeUnit)
    (inside : List (List String)) : List String :=
  [blanks (2 * depth) ++ graph.describes entry.2] ++
    (entry.2.calls.filterMap graph.unit?).map (fun callee =>
      blanks (2 * depth) ++ "  -> " ++ graph.describes callee) ++
    inside.flatten

/--
A unit that lists others is a cluster around them, whether or not they exist, with the node of
the unit at its end. Any other unit is a node.
-/
def dotPart (depth : Nat) (entry : UnitId × CodeUnit) (inside : List (List String)) :
    List String :=
  let label := "label=\"" ++ dotLabel (entry.2.name.getD "") ++ "\""
  if entry.2.children = [] then
    [blanks (4 * depth) ++ "\"" ++ toString entry.2.id ++ "\" [" ++ label ++
      ", shape=circle, fillcolor=lightblue, fontname=\"Arial\", fontsize=12];"]
  else
    [blanks (4 * depth) ++ "subgraph cluster_" ++ toString entry.2.id ++ " \x7b",
      blanks (4 * (depth + 1)) ++ label ++ ";", blanks (4 * (depth + 1)) ++ "color=blue;"] ++
    inside.flatten ++
    [blanks (4 * (depth + 1)) ++ "\"" ++ toString entry.1 ++
        "_invisible\" [style=invis, label=\"\"];",
      blanks (4 * depth) ++ "\x7d"]

/-- The edges to the units that a unit calls, then those of what is inside it. -/
def edgePart (graph : CallGraph) (_ : Nat) (entry : UnitId × CodeUnit)
    (inside : List (List String)) : List String :=
  (entry.2.calls.filterMap graph.unit?).map (fun callee =>
    "    \"" ++ nodeName entry.2 ++ "\" -> \"" ++ nodeName callee ++ "\";") ++ inside.flatten

theorem location_eq (graph : CallGraph) (unit : CodeUnit) :
    graph.location unit = graph.standsAt unit := by
  unfold location standsAt file?
  cases graph.files[unit.span.file]? <;> rfl

theorem describe_eq (graph : CallGraph) (unit : CodeUnit) :
    graph.describe unit = graph.describes unit := by
  rw [describe, describes, location_eq]
  rfl

theorem dotNode_eq (unit : CodeUnit) : dotNode unit = nodeName unit := by
  simp only [dotNode, nodeName, List.isEmpty_iff]

section

variable (depth : Nat) (entry : UnitId × CodeUnit) (inside : List (List String))

theorem treePart_eq (trees : List (Tree UnitSummary)) :
    graph.treePart depth entry trees = .node (graph.summary entry.2) trees := by
  rw [treePart, summary, location_eq]

theorem listingPart_eq :
    graph.listingPart depth entry inside = graph.unitLines depth entry.2 ++ inside.flatten := by
  simp only [listingPart, unitLines, called, describe_eq]
  rfl

theorem dotPart_eq :
    dotPart depth entry inside =
      if entry.2.children.isEmpty then [dotLeaf depth entry.2]
      else dotOpening depth entry.2 ++ inside.flatten ++ dotClosing depth entry.1 := by
  simp only [dotPart, List.isEmpty_iff]
  split
  next isLeaf =>
    rw [dotLeaf, dotNode_eq, nodeName, if_pos isLeaf]
    rfl
  · rfl

theorem edgePart_eq :
    graph.edgePart depth entry inside = graph.dotEdges entry.2 ++ inside.flatten := by
  simp only [edgePart, dotEdges, called, dotNode_eq]

end

/-! ### The outputs as folds -/

theorem map_summary_eq_foldAt (tree : Tree (UnitId × CodeUnit)) (depth : Nat) :
    tree.map (graph.summary ·.2) = tree.foldAt graph.treePart depth := by
  induction tree using Tree.induction generalizing depth with
  | step entry inside ih =>
      rw [Tree.map, Tree.foldAt, Tree.mapList_eq_map, Tree.foldAtList_eq_map, treePart_eq]
      congr 1
      exact List.map_congr_left fun child childMem => ih child childMem (depth + 1)

theorem flatMap_eq_foldAtList {lines : Tree (UnitId × CodeUnit) → List String}
    {part : Nat → UnitId × CodeUnit → List (List String) → List String} {depth : Nat}
    {trees : List (Tree (UnitId × CodeUnit))}
    (each : ∀ tree ∈ trees, lines tree = tree.foldAt part depth) :
    trees.flatMap lines = (Tree.foldAtList part depth trees).flatten := by
  rw [Tree.foldAtList_eq_map, List.flatMap_def, List.map_congr_left each]

theorem listingLinesOfList_eq (depth : Nat) (trees : List (Tree (UnitId × CodeUnit))) :
    graph.listingLinesOfList depth trees = trees.flatMap (graph.listingLines depth) := by
  induction trees with
  | nil => rfl
  | cons tree rest ih => rw [listingLinesOfList, List.flatMap_cons, ih]

theorem listingLines_eq_foldAt (tree : Tree (UnitId × CodeUnit)) (depth : Nat) :
    graph.listingLines depth tree = tree.foldAt graph.listingPart depth := by
  induction tree using Tree.induction generalizing depth with
  | step entry inside ih =>
      rw [listingLines, Tree.foldAt, listingPart_eq, listingLinesOfList_eq,
        flatMap_eq_foldAtList fun child childMem => ih child childMem (depth + 1)]

theorem dotLinesOfList_eq (depth : Nat) (trees : List (Tree (UnitId × CodeUnit))) :
    dotLinesOfList depth trees = trees.flatMap (dotLines depth) := by
  induction trees with
  | nil => rfl
  | cons tree rest ih => rw [dotLinesOfList, List.flatMap_cons, ih]

theorem dotLines_eq_foldAt (tree : Tree (UnitId × CodeUnit)) (depth : Nat) :
    dotLines depth tree = tree.foldAt dotPart depth := by
  induction tree using Tree.induction generalizing depth with
  | step entry inside ih =>
      rw [dotLines, Tree.foldAt, dotPart_eq, dotLinesOfList_eq,
        flatMap_eq_foldAtList fun child childMem => ih child childMem (depth + 1)]

theorem preorder_flatMap_eq_foldAt (tree : Tree (UnitId × CodeUnit)) (depth : Nat) :
    tree.preorder.flatMap (graph.dotEdges ·.2) = tree.foldAt graph.edgePart depth := by
  induction tree using Tree.induction generalizing depth with
  | step entry inside ih =>
      rw [Tree.preorder, Tree.foldAt, edgePart_eq, List.flatMap_cons, Tree.preorderList_eq_flatMap,
        List.flatMap_assoc,
        flatMap_eq_foldAtList fun child childMem => ih child childMem (depth + 1)]

/-- The lines that a recursion makes of a unit; none if there is no such unit. -/
def foldLines (graph : CallGraph) (acyclic : ∀ id, ¬graph.Below id id)
    (part : Nat → UnitId × CodeUnit → List (List String) → List String) (depth : Nat)
    (id : UnitId) : List String :=
  (graph.fold acyclic part depth id).getD []

variable (acyclic : ∀ id, ¬graph.Below id id)

theorem flatten_filterMap_fold (part : Nat → UnitId × CodeUnit → List (List String) → List String)
    (depth : Nat) (ids : List UnitId) :
    (ids.filterMap (graph.fold acyclic part depth)).flatten =
      ids.flatMap (graph.foldLines acyclic part depth) := by
  rw [List.filterMap_eq_flatMap_toList, List.flatten_eq_flatMap, List.flatMap_assoc]
  apply List.flatMap_congr
  intro id _
  unfold foldLines
  cases graph.fold acyclic part depth id <;> simp

section

variable {id : UnitId} (depth : Nat)

theorem foldLines_of_missing (isMissing : graph.unit? id = none)
    (part : Nat → UnitId × CodeUnit → List (List String) → List String) :
    graph.foldLines acyclic part depth id = [] := by
  rw [foldLines, fold_eq, isMissing]
  rfl

variable {unit : CodeUnit} (isFound : graph.unit? id = some unit)

include isFound

theorem foldLines_listingPart :
    graph.foldLines acyclic graph.listingPart depth id = graph.unitLines depth unit ++
      unit.children.flatMap (graph.foldLines acyclic graph.listingPart (depth + 1)) := by
  rw [foldLines, fold_eq, isFound, ← flatten_filterMap_fold, Option.map_some, listingPart_eq]
  rfl

theorem foldLines_edgePart :
    graph.foldLines acyclic graph.edgePart depth id = graph.dotEdges unit ++
      unit.children.flatMap (graph.foldLines acyclic graph.edgePart (depth + 1)) := by
  rw [foldLines, fold_eq, isFound, ← flatten_filterMap_fold, Option.map_some, edgePart_eq]
  rfl

theorem foldLines_dotPart :
    graph.foldLines acyclic dotPart depth id =
      if unit.children.isEmpty then [dotLeaf depth unit]
      else dotOpening depth unit ++
        unit.children.flatMap (graph.foldLines acyclic dotPart (depth + 1)) ++
        dotClosing depth id := by
  rw [foldLines, fold_eq, isFound, ← flatten_filterMap_fold, Option.map_some, dotPart_eq]
  rfl

end

include acyclic

theorem flatMap_nesting {lines : Tree (UnitId × CodeUnit) → List String}
    {part : Nat → UnitId × CodeUnit → List (List String) → List String} {depth : Nat}
    (each : ∀ tree, lines tree = tree.foldAt part depth) :
    graph.nesting.flatMap lines = graph.roots.flatMap (graph.foldLines acyclic part depth) := by
  rw [flatMap_eq_foldAtList fun tree _ => each tree, Tree.foldAtList_eq_map,
    map_foldAt_nesting acyclic, flatten_filterMap_fold]

theorem document_roots_eq_fold :
    graph.document.roots = graph.roots.filterMap (graph.fold acyclic graph.treePart 0) := by
  rw [document, ← map_foldAt_nesting acyclic]
  exact List.map_congr_left fun tree _ => map_summary_eq_foldAt tree 0

theorem listingLinesOfList_nesting :
    graph.listingLinesOfList 0 graph.nesting =
      graph.roots.flatMap (graph.foldLines acyclic graph.listingPart 0) := by
  rw [listingLinesOfList_eq, flatMap_nesting acyclic fun tree => listingLines_eq_foldAt tree 0]

theorem listing_eq_fold :
    graph.listing = String.join
      ((graph.roots.flatMap (graph.foldLines acyclic graph.listingPart 0)).map (· ++ "\n")) := by
  rw [listing, listingLinesOfList_nesting acyclic]

theorem dotDocument_eq_fold :
    graph.dotDocument =
      ["digraph G \x7b", "    rankdir=LR;", "    node [style=filled, color=white];"] ++
        graph.roots.flatMap (graph.foldLines acyclic dotPart 1) ++
        graph.roots.flatMap (graph.foldLines acyclic graph.edgePart 1) ++ ["\x7d"] := by
  rw [dotDocument, dotLinesOfList_eq, Tree.preorderList_eq_flatMap, List.flatMap_assoc,
    flatMap_nesting acyclic fun tree => dotLines_eq_foldAt tree 1,
    flatMap_nesting acyclic fun tree => preorder_flatMap_eq_foldAt tree 1]

/-- Going down further than far enough reaches nothing more. -/
theorem descendantsWithin_congr {levels more : Nat} {id : UnitId} (deep : graph.rank id ≤ levels)
    (deepMore : graph.rank id ≤ more) :
    graph.descendantsWithin levels id = graph.descendantsWithin more id := by
  induction levels generalizing id more with
  | zero =>
      cases isFound : graph.unit? id with
      | none => cases more <;> simp [descendantsWithin, isFound]
      | some unit => exact absurd (rank_pos isFound) (by omega)
  | succ levels ih =>
      cases isFound : graph.unit? id with
      | none => cases more <;> simp [descendantsWithin, isFound]
      | some unit =>
          have room := rank_pos isFound
          obtain ⟨more, rfl⟩ : ∃ less, more = less + 1 := ⟨more - 1, by omega⟩
          simp only [descendantsWithin, isFound]
          apply List.flatMap_congr
          intro child childMem
          have smaller := rank_lt acyclic isFound childMem
          rw [@ih more child (by omega) (by omega)]

omit acyclic in
theorem descendants_of_missing {id : UnitId} (isMissing : graph.unit? id = none) :
    graph.descendants id = [] := by
  unfold descendants
  cases graph.size <;> simp [descendantsWithin, isMissing]

/-- Below a unit are the units that it lists, each followed by what is below it. -/
theorem descendants_eq {id : UnitId} {unit : CodeUnit} (isFound : graph.unit? id = some unit) :
    graph.descendants id = unit.children.flatMap fun child => child :: graph.descendants child := by
  have room := (rank_pos isFound).trans_le (graph.rank_le_size id)
  obtain ⟨levels, isSize⟩ : ∃ levels, graph.size = levels + 1 := ⟨graph.size - 1, by omega⟩
  rw [descendants, isSize, descendantsWithin, isFound]
  apply List.flatMap_congr
  intro child childMem
  have smaller := rank_lt acyclic isFound childMem
  have fits := graph.rank_le_size id
  rw [descendants, descendantsWithin_congr acyclic (by omega) (graph.rank_le_size child)]

end CallGraph

end CallHierarchy
