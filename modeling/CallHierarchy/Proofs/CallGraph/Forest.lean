import CallHierarchy.CallGraph.Nesting
import CallHierarchy.Proofs.Table
import Mathlib.Data.List.Infix
import Mathlib.Data.Set.Card
import Mathlib.Logic.Relation

/-!
# Graphs that are laid out as a forest

A graph has its units in a table, one after the other, and says of each unit which
units are directly inside it. Both come from one forest if the table is the forest in
preorder and every unit lists the roots of the trees below it. Such a graph is
read back as that forest, whatever walk does the reading, and the units below a
unit follow it without a gap.
-/

namespace CallHierarchy

theorem exists_eq_range'_of_infix {numbers : List Nat} {first length : Nat}
    (together : numbers <:+: List.range' first length) :
    ∃ start, numbers = List.range' start numbers.length := by
  rcases together with ⟨before, after, whole⟩
  rcases List.range'_eq_append_iff.1 whole.symm with ⟨_, -, front, -⟩
  rcases List.range'_eq_append_iff.1 front.symm with ⟨skipped, -, -, isRange⟩
  refine ⟨first + skipped * 1, ?_⟩
  rw [isRange, List.length_range']

theorem ncard_mem_of_nodup {α : Type} {items : List α} (distinct : items.Nodup) :
    {item | item ∈ items}.ncard = items.length := by
  classical
  rw [← List.toFinset_card_of_nodup distinct, ← Set.ncard_coe_finset, List.coe_toFinset]

namespace Tree

variable {α β : Type}

theorem preorderList_eq_flatMap (trees : List (Tree α)) :
    preorderList trees = trees.flatMap preorder := by
  induction trees with
  | nil => rfl
  | cons tree rest ih => rw [preorderList, List.flatMap_cons, ih]

theorem preorderList_append (left right : List (Tree α)) :
    preorderList (left ++ right) = preorderList left ++ preorderList right := by
  simp only [preorderList_eq_flatMap, List.flatMap_append]

theorem preorder_eq_cons (tree : Tree α) :
    tree.preorder = tree.value :: preorderList tree.children := by
  rcases tree with ⟨value, children⟩
  rfl

theorem value_mem_preorder (tree : Tree α) : tree.value ∈ tree.preorder := by
  rw [preorder_eq_cons]
  exact List.mem_cons_self

theorem size_le_sizeList {tree : Tree α} {trees : List (Tree α)} (treeMem : tree ∈ trees) :
    tree.size ≤ sizeList trees := by
  induction trees with
  | nil => simp at treeMem
  | cons first rest ih =>
      simp only [sizeList]
      rcases List.mem_cons.1 treeMem with rfl | treeMem
      · omega
      · have later := ih treeMem
        omega

theorem length_preorderList (trees : List (Tree α)) :
    (preorderList trees).length = sizeList trees := by
  induction trees with
  | nil => rfl
  | cons tree rest ih => simp only [preorderList, sizeList, List.length_append, ih, length_preorder]

/-- The values of a tree stand together among those of the trees beside it. -/
theorem preorder_infix_preorderList {tree : Tree α} {trees : List (Tree α)}
    (treeMem : tree ∈ trees) : tree.preorder <:+: preorderList trees := by
  rcases List.append_of_mem treeMem with ⟨before, after, rfl⟩
  simp only [preorderList_append, preorderList]
  exact ⟨preorderList before, preorderList after, by rw [List.append_assoc]⟩

theorem mem_preorder_node {value other : α} {tree : Tree α} {trees : List (Tree α)}
    (treeMem : tree ∈ trees) (otherMem : other ∈ tree.preorder) :
    other ∈ (node value trees).preorder :=
  List.mem_cons_of_mem _ ((preorder_infix_preorderList treeMem).subset otherMem)

mutual

theorem preorder_map (f : α → β) : ∀ tree : Tree α, (tree.map f).preorder = tree.preorder.map f
  | .node value children => by
      simp only [map, preorder, List.map_cons, preorderList_mapList f children]

theorem preorderList_mapList (f : α → β) : ∀ trees : List (Tree α),
    preorderList (mapList f trees) = (preorderList trees).map f
  | [] => rfl
  | tree :: rest => by
      simp only [mapList, preorderList, List.map_append, preorder_map f tree,
        preorderList_mapList f rest]

end

theorem mapList_eq_map (f : α → β) (trees : List (Tree α)) :
    mapList f trees = trees.map (map f) := by
  induction trees with
  | nil => rfl
  | cons tree rest ih => rw [mapList, ih, List.map_cons]

theorem value_map (f : α → β) (tree : Tree α) : (tree.map f).value = f tree.value := by
  rcases tree with ⟨value, children⟩
  rfl

/-- Whether every unit of a tree lists the roots of the trees below it. -/
inductive Arranged : Tree (UnitId × CodeUnit) → Prop
  | node (entry : UnitId × CodeUnit) (inside : List (Tree (UnitId × CodeUnit)))
      (listed : entry.2.children = inside.map (·.value.1))
      (below : ∀ tree ∈ inside, Arranged tree) : Arranged (.node entry inside)

namespace Arranged

variable {tree : Tree (UnitId × CodeUnit)}

/-- Changes that keep the number of a unit and what it lists keep the arrangement. -/
theorem map (arranged : tree.Arranged) {change : UnitId × CodeUnit → UnitId × CodeUnit}
    (keeps : ∀ entry, (change entry).1 = entry.1 ∧
      (change entry).2.children = entry.2.children) :
    (tree.map change).Arranged := by
  induction arranged with
  | node entry inside listed below ih =>
      rw [Tree.map, mapList_eq_map]
      refine .node _ _ ?_ ?_
      · rw [(keeps entry).2, listed, List.map_map]
        apply List.map_congr_left
        intro child _
        simp only [Function.comp_apply, value_map, (keeps child.value).1]
      · intro changed changedMem
        rcases List.mem_map.1 changedMem with ⟨child, childMem, rfl⟩
        exact ih child childMem

/-- What a unit of a tree lists stands in the tree, and not at its root. -/
theorem child_mem_tail (arranged : tree.Arranged) {entry : UnitId × CodeUnit} {child : UnitId}
    (entryMem : entry ∈ tree.preorder) (childMem : child ∈ entry.2.children) :
    child ∈ (tree.preorder.map (·.1)).tail := by
  induction arranged with
  | node root inside listed below ih =>
      simp only [preorder, List.map_cons, List.tail_cons]
      rcases List.mem_cons.1 entryMem with rfl | entryMem
      · rw [listed] at childMem
        rcases List.mem_map.1 childMem with ⟨tree, treeMem, rfl⟩
        exact List.mem_map_of_mem ((preorder_infix_preorderList treeMem).subset
          (value_mem_preorder tree))
      · rw [preorderList_eq_flatMap] at entryMem
        rcases List.mem_flatMap.1 entryMem with ⟨tree, treeMem, entryMem⟩
        have inTree := List.mem_of_mem_tail (ih tree treeMem entryMem)
        exact ((preorder_infix_preorderList treeMem).map _).subset inTree

/-- Every unit of a tree is the root of a part of it, which stands together in preorder. -/
theorem exists_part (arranged : tree.Arranged) {entry : UnitId × CodeUnit}
    (entryMem : entry ∈ tree.preorder) :
    ∃ part : Tree (UnitId × CodeUnit), part.Arranged ∧ part.value = entry ∧
      part.preorder <:+: tree.preorder := by
  induction arranged with
  | node root inside listed below ih =>
      rcases List.mem_cons.1 entryMem with rfl | entryMem
      · exact ⟨.node _ inside, .node _ inside listed below, rfl, List.infix_rfl⟩
      · rw [preorderList_eq_flatMap] at entryMem
        rcases List.mem_flatMap.1 entryMem with ⟨child, childMem, entryMem⟩
        rcases ih child childMem entryMem with ⟨part, isArranged, isRoot, together⟩
        refine ⟨part, isArranged, isRoot, together.trans ?_⟩
        exact (preorder_infix_preorderList childMem).trans (List.suffix_cons root _).isInfix

end Arranged

end Tree

namespace CallGraph

variable {graph : CallGraph}

/-- Whether the units of a graph stand in its table under their own numbers. -/
def IsKeyed (graph : CallGraph) : Prop :=
  ∀ entry ∈ graph.table, entry.2.id = entry.1

instance : Decidable graph.IsKeyed :=
  inferInstanceAs (Decidable (∀ entry ∈ graph.table, _))

theorem IsKeyed.map_id_units (keyed : graph.IsKeyed) :
    graph.units.map (·.id) = graph.table.map (·.1) := by
  rw [units, List.map_map]
  exact List.map_congr_left keyed

theorem mem_units_of_mem_table {entry : UnitId × CodeUnit} (entryMem : entry ∈ graph.table) :
    entry.2 ∈ graph.units :=
  List.mem_map_of_mem entryMem

theorem IsKeyed.mem_table (keyed : graph.IsKeyed) {unit : CodeUnit}
    (unitMem : unit ∈ graph.units) : (unit.id, unit) ∈ graph.table := by
  rcases List.mem_map.1 unitMem with ⟨entry, entryMem, rfl⟩
  rw [keyed entry entryMem]
  exact entryMem

theorem mem_table_of_unit? {id : UnitId} {unit : CodeUnit} (isFound : graph.unit? id = some unit) :
    (id, unit) ∈ graph.table :=
  Table.mem_of_get? isFound

theorem id_mem_of_unit? {id : UnitId} {unit : CodeUnit} (isFound : graph.unit? id = some unit) :
    id ∈ graph.table.map (·.1) :=
  List.mem_map_of_mem (mem_table_of_unit? isFound)

/-- Whether the unit of one number is inside that of another, at any depth. -/
def Below (graph : CallGraph) : UnitId → UnitId → Prop :=
  Relation.TransGen fun outer inner =>
    ∃ unit, graph.unit? outer = some unit ∧ inner ∈ unit.children

/-- If every unit lists greater numbers only, the numbers grow on the way down. -/
theorem lt_of_below
    (increasing : ∀ entry ∈ graph.table, ∀ inner ∈ entry.2.children, entry.1 < inner)
    {outer inner : UnitId} (below : graph.Below outer inner) : outer < inner := by
  induction below with
  | single step =>
      rcases step with ⟨unit, isFound, innerMem⟩
      exact increasing _ (mem_table_of_unit? isFound) _ innerMem
  | tail _ step ih =>
      rcases step with ⟨unit, isFound, innerMem⟩
      exact ih.trans (increasing _ (mem_table_of_unit? isFound) _ innerMem)

/-- Whether a graph is the numbered preorder of a forest whose units list what is inside them. -/
structure LaidOut (graph : CallGraph) (forest : List (Tree (UnitId × CodeUnit))) : Prop where
  table : Tree.preorderList forest = graph.table
  roots : forest.map (·.value.1) = graph.roots
  arranged : ∀ tree ∈ forest, tree.Arranged
  numbered : graph.table.map (·.1) = List.range' 1 graph.size
  keyed : graph.IsKeyed

namespace LaidOut

variable {forest : List (Tree (UnitId × CodeUnit))} (laidOut : graph.LaidOut forest)

include laidOut

theorem nodup_ids : (graph.table.map (·.1)).Nodup := by
  rw [laidOut.numbered]
  exact List.nodup_range'

theorem unit?_of_mem {entry : UnitId × CodeUnit} (entryMem : entry ∈ graph.table) :
    graph.unit? entry.1 = some entry.2 :=
  Table.get?_of_mem laidOut.nodup_ids entryMem

section

variable {tree : Tree (UnitId × CodeUnit)} (arranged : tree.Arranged)
  (held : ∀ entry ∈ tree.preorder, entry ∈ graph.table)

include arranged held

/-- A tree of the graph is found again from its root, given enough depth. -/
theorem nested?_of_arranged {depth : Nat} (deep : tree.size ≤ depth) :
    graph.nested? depth tree.value.1 = some tree := by
  induction arranged generalizing depth with
  | node entry inside listed below ih =>
      cases depth with
      | zero => simp [Tree.size] at deep
      | succ depth =>
          have inner : (inside.filterMap fun child => graph.nested? depth child.value.1) =
              inside := by
            conv_rhs => rw [← List.filterMap_some (l := inside)]
            apply List.filterMap_congr
            intro child childMem
            apply ih child childMem
            · intro other otherMem
              exact held other (Tree.mem_preorder_node childMem otherMem)
            · have smaller := Tree.size_le_sizeList childMem
              simp only [Tree.size] at deep
              omega
          have found := laidOut.unit?_of_mem (held entry List.mem_cons_self)
          simp only [Tree.value, nested?, found, Option.map_some, listed, List.filterMap_map]
          exact congrArg (some ∘ Tree.node entry) inner

/-- From the root of a tree of the graph all its other units are reached, in preorder. -/
theorem descendantsWithin_of_arranged {depth : Nat} (deep : tree.size ≤ depth + 1) :
    tree.value.1 :: graph.descendantsWithin depth tree.value.1 = tree.preorder.map (·.1) := by
  induction arranged generalizing depth with
  | node entry inside listed below ih =>
      simp only [Tree.size] at deep
      simp only [Tree.value, Tree.preorder, List.map_cons, Tree.preorderList_eq_flatMap,
        List.map_flatMap]
      congr 1
      cases depth with
      | zero =>
          cases inside with
          | nil => rfl
          | cons child rest =>
              rcases child with ⟨value, children⟩
              simp only [Tree.sizeList, Tree.size] at deep
              omega
      | succ depth =>
          have found := laidOut.unit?_of_mem (held entry List.mem_cons_self)
          simp only [descendantsWithin, found, listed, List.flatMap_map]
          apply List.flatMap_congr
          intro child childMem
          apply ih child childMem
          · intro other otherMem
            exact held other (Tree.mem_preorder_node childMem otherMem)
          · have smaller := Tree.size_le_sizeList childMem
            omega

/-- What is below the root of a tree of the graph is the rest of the tree. -/
theorem below_iff_mem_tail (id : UnitId) :
    graph.Below tree.value.1 id ↔ id ∈ (tree.preorder.map (·.1)).tail := by
  constructor
  · intro below
    have inTree : ∀ outer unit, graph.unit? outer = some unit → ∀ other ∈ tree.preorder,
        other.1 = outer → (outer, unit) ∈ tree.preorder := by
      rintro _ unit isFound other otherMem rfl
      have isOther := laidOut.unit?_of_mem (held other otherMem)
      rw [isFound, Option.some.injEq] at isOther
      rwa [isOther]
    induction below with
    | single step =>
        rcases step with ⟨unit, isFound, childMem⟩
        exact arranged.child_mem_tail
          (inTree _ unit isFound tree.value tree.value_mem_preorder rfl) childMem
    | tail _ step outerMem =>
        rcases step with ⟨unit, isFound, childMem⟩
        rcases List.mem_map.1 (List.mem_of_mem_tail outerMem) with ⟨other, otherMem, isOther⟩
        exact arranged.child_mem_tail (inTree _ unit isFound other otherMem isOther) childMem
  · intro idMem
    induction arranged with
    | node entry inside listed below ih =>
        simp only [Tree.preorder, List.map_cons, List.tail_cons, Tree.preorderList_eq_flatMap,
          List.map_flatMap, List.mem_flatMap] at idMem
        rcases idMem with ⟨child, childMem, idMem⟩
        have step : ∃ unit, graph.unit? entry.1 = some unit ∧ child.value.1 ∈ unit.children :=
          ⟨entry.2, laidOut.unit?_of_mem (held entry List.mem_cons_self),
            listed ▸ List.mem_map_of_mem childMem⟩
        have onward := ih child childMem fun other otherMem =>
          held other (Tree.mem_preorder_node childMem otherMem)
        simp only [child.preorder_eq_cons, List.map_cons, List.tail_cons, List.mem_cons]
          at idMem onward
        rcases idMem with rfl | idMem
        · exact .single step
        · exact .head step (onward idMem)

end

theorem mem_table_of_mem_forest {tree : Tree (UnitId × CodeUnit)} (treeMem : tree ∈ forest) :
    ∀ entry ∈ tree.preorder, entry ∈ graph.table := by
  intro entry entryMem
  rw [← laidOut.table]
  exact (Tree.preorder_infix_preorderList treeMem).subset entryMem

theorem size_le_of_mem_forest {tree : Tree (UnitId × CodeUnit)} (treeMem : tree ∈ forest) :
    tree.size ≤ graph.size := by
  rw [CallGraph.size, ← laidOut.table, Tree.length_preorderList]
  exact Tree.size_le_sizeList treeMem

theorem nesting_eq : graph.nesting = forest := by
  rw [nesting, ← laidOut.roots, List.filterMap_map]
  conv_rhs => rw [← List.filterMap_some (l := forest)]
  apply List.filterMap_congr
  intro tree treeMem
  exact laidOut.nested?_of_arranged (laidOut.arranged tree treeMem)
    (laidOut.mem_table_of_mem_forest treeMem) (laidOut.size_le_of_mem_forest treeMem)

theorem flatMap_descendants :
    (graph.roots.flatMap fun root => root :: graph.descendants root) =
      graph.table.map (·.1) := by
  rw [← laidOut.roots, ← laidOut.table, List.flatMap_map, Tree.preorderList_eq_flatMap,
    List.map_flatMap]
  apply List.flatMap_congr
  intro tree treeMem
  have fits := laidOut.size_le_of_mem_forest treeMem
  exact laidOut.descendantsWithin_of_arranged (laidOut.arranged tree treeMem)
    (laidOut.mem_table_of_mem_forest treeMem) (by omega)

/-- Every unit of the graph is the root of a tree that stands together in the table. -/
theorem exists_part {entry : UnitId × CodeUnit} (entryMem : entry ∈ graph.table) :
    ∃ part : Tree (UnitId × CodeUnit), part.Arranged ∧ part.value = entry ∧
      part.preorder <:+: graph.table := by
  rw [← laidOut.table, Tree.preorderList_eq_flatMap] at entryMem
  rcases List.mem_flatMap.1 entryMem with ⟨tree, treeMem, entryMem⟩
  rcases (laidOut.arranged tree treeMem).exists_part entryMem with
    ⟨part, arranged, isRoot, together⟩
  refine ⟨part, arranged, isRoot, ?_⟩
  rw [← laidOut.table]
  exact together.trans (Tree.preorder_infix_preorderList treeMem)

/-- The units below a unit follow it without a gap. -/
theorem descendants_eq_range' {entry : UnitId × CodeUnit} (entryMem : entry ∈ graph.table) :
    graph.descendants entry.1 =
      List.range' (entry.1 + 1) {id | graph.Below entry.1 id}.ncard := by
  rcases laidOut.exists_part entryMem with ⟨part, arranged, rfl, inGraph⟩
  have fits : part.size ≤ graph.size := by
    rw [← Tree.length_preorder]
    exact inGraph.length_le
  have held : ∀ entry ∈ part.preorder, entry ∈ graph.table := fun _ => (inGraph.subset ·)
  have reached : part.value.1 :: graph.descendants part.value.1 = part.preorder.map (·.1) :=
    laidOut.descendantsWithin_of_arranged arranged held (by omega)
  have numbers := inGraph.map (·.1)
  rw [laidOut.numbered, ← reached] at numbers
  rcases exists_eq_range'_of_infix numbers with ⟨start, isRange⟩
  rw [List.length_cons, List.range'_succ, List.cons.injEq] at isRange
  rcases isRange with ⟨rfl, isRange⟩
  have count : {id | graph.Below part.value.1 id}.ncard =
      (graph.descendants part.value.1).length := by
    simp only [laidOut.below_iff_mem_tail arranged held, ← reached, List.tail_cons]
    apply ncard_mem_of_nodup
    rw [isRange]
    exact List.nodup_range'
  rw [count]
  exact isRange

/-- No unit is inside itself. -/
theorem not_below_self (id : UnitId) : ¬graph.Below id id := by
  intro below
  rcases Relation.TransGen.head'_iff.1 below with ⟨_, ⟨unit, isFound, -⟩, -⟩
  rcases laidOut.exists_part (mem_table_of_unit? isFound) with ⟨part, arranged, isRoot, inGraph⟩
  have held : ∀ entry ∈ part.preorder, entry ∈ graph.table := fun _ => (inGraph.subset ·)
  have distinct := (inGraph.map (·.1)).sublist.nodup laidOut.nodup_ids
  have isBelow := laidOut.below_iff_mem_tail arranged held id
  rw [part.preorder_eq_cons, isRoot] at distinct
  rw [part.preorder_eq_cons, isRoot] at isBelow
  exact (List.nodup_cons.1 distinct).1 (isBelow.1 below)

end LaidOut

end CallGraph

end CallHierarchy
