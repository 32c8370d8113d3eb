import CallHierarchy.Proofs.CallGraph.Recursion
import Mathlib.Data.List.Forall2
import Mathlib.Data.List.TakeWhile

/-!
# Which units the outputs of a graph go through

The text of a graph has a line for each unit that is met on the way down, at the
unit's depth, followed by lines for its calls, which begin with an arrow. The DOT form
has an event when a unit is entered and, if there is anything inside it, one when it is
left. The lines of units, the events of entering and the trees of a document all go
through the units of the nesting in preorder.
-/

namespace CallHierarchy

theorem forall₂_flatMap {α β γ : Type} {R : β → γ → Prop} {items : List α} {f : α → List β}
    {g : α → List γ} (each : ∀ item ∈ items, List.Forall₂ R (f item) (g item)) :
    List.Forall₂ R (items.flatMap f) (items.flatMap g) := by
  have same : List.Forall₂ (fun left right => left = right ∧ left ∈ items) items items :=
    List.forall₂_same.2 fun _ itemMem => ⟨rfl, itemMem⟩
  apply List.rel_flatMap same
  rintro item _ ⟨rfl, itemMem⟩
  exact each item itemMem

theorem forall₂_filterMap {α β : Type} {R : α → β → Prop} {f : α → Option β} {items : List α}
    (found : ∀ item ∈ items, ∃ image, f item = some image ∧ R item image) :
    List.Forall₂ R items (items.filterMap f) := by
  induction items with
  | nil => exact .nil
  | cons item rest ih =>
      rw [List.forall_mem_cons] at found
      rcases found.1 with ⟨image, isImage, related⟩
      rw [List.filterMap_cons_some isImage]
      exact .cons related (ih found.2)

section

variable {text : List Char} (notBlank : text.head? ≠ some ' ') (width : Nat)

include notBlank

theorem takeWhile_blanks :
    (List.replicate width ' ' ++ text).takeWhile (· = ' ') = List.replicate width ' ' := by
  rw [List.takeWhile_append_of_pos (by simp)]
  cases text with
  | nil => simp
  | cons first rest => simpa using notBlank

theorem dropWhile_blanks : (List.replicate width ' ' ++ text).dropWhile (· = ' ') = text := by
  rw [List.dropWhile_append_of_pos (by simp)]
  cases text with
  | nil => simp
  | cons first rest =>
      have notFirst : first ≠ ' ' := by simpa using notBlank
      simp [notFirst]

end

namespace CallGraph

variable {graph : CallGraph}

/-! ### Lines of units -/

/-- Whether a line of a text is that of a unit: the line of a call begins with an arrow. -/
def IsUnitLine (line : String) : Prop :=
  ¬['-', '>'] <+: line.toList.dropWhile (· = ' ')

instance (line : String) : Decidable (IsUnitLine line) :=
  inferInstanceAs (Decidable ¬_)

/-- Whether a line describes the unit of a number, at some depth. -/
def IsLineOf (graph : CallGraph) (id : UnitId) (line : String) : Prop :=
  ∃ unit depth, graph.unit? id = some unit ∧ line = blanks (2 * depth) ++ graph.describes unit

theorem isUnitLine_describe (depth : Nat) (unit : CodeUnit) :
    IsUnitLine (listingIndent depth ++ graph.describe unit) := by
  have notBlank : (graph.describe unit).toList.head? ≠ some ' ' := by
    cases isKind : unit.kind <;> simp [describe, isKind, UnitKind.word]
  rw [IsUnitLine, String.toList_append, listingIndent, String.toList_ofList,
    dropWhile_blanks notBlank]
  cases isKind : unit.kind <;> simp [describe, isKind, UnitKind.word]

theorem not_isUnitLine_call (depth : Nat) (unit : CodeUnit) :
    ¬IsUnitLine (listingIndent depth ++ "  -> " ++ graph.describe unit) := by
  have isCall : (listingIndent depth ++ "  -> " ++ graph.describe unit).toList =
      List.replicate (2 * depth + 2) ' ' ++ ("-> " ++ graph.describe unit).toList := by
    simp [listingIndent, List.replicate_add]
  rw [IsUnitLine, not_not, isCall, dropWhile_blanks (by simp)]
  exact ⟨' ' :: (graph.describe unit).toList, by simp⟩

theorem filter_unitLines (depth : Nat) (unit : CodeUnit) :
    (graph.unitLines depth unit).filter (IsUnitLine ·) =
      [listingIndent depth ++ graph.describe unit] := by
  rw [unitLines, List.filter_cons_of_pos (by simpa using isUnitLine_describe depth unit),
    List.cons_eq_cons]
  refine ⟨rfl, List.filter_eq_nil_iff.2 ?_⟩
  intro line lineMem
  rcases List.mem_map.1 lineMem with ⟨callee, -, rfl⟩
  simpa using not_isUnitLine_call depth callee

/-- The lines of the units of a tree are in preorder. -/
theorem forall₂_isLineOf {tree : Tree (UnitId × CodeUnit)}
    (held : ∀ entry ∈ tree.preorder, graph.unit? entry.1 = some entry.2) (depth : Nat) :
    List.Forall₂ graph.IsLineOf (tree.preorder.map (·.1))
      ((graph.listingLines depth tree).filter (IsUnitLine ·)) := by
  induction tree using Tree.induction generalizing depth with
  | step entry inside ih =>
      have isFound := held entry List.mem_cons_self
      rw [listingLines, List.filter_append, filter_unitLines, listingLinesOfList_eq,
        List.filter_flatMap, Tree.preorder, List.map_cons, Tree.preorderList_eq_flatMap,
        List.map_flatMap]
      refine .cons ⟨entry.2, depth, isFound, by rw [describe_eq]; rfl⟩ (forall₂_flatMap ?_)
      intro child childMem
      apply ih child childMem
      intro other otherMem
      exact held other (Tree.mem_preorder_node childMem otherMem)

/-! ### Entering and leaving units -/

/-- A moment of the walk that writes the DOT form. -/
inductive DotEvent where
  | enter (depth : Nat) (unit : CodeUnit)
  /-- Everything inside the unit of a number has been written. -/
  | leave (depth : Nat) (id : UnitId)

namespace DotEvent

/-- What is written at a moment of the walk. -/
def lines : DotEvent → List String
  | .enter depth unit =>
    if unit.children.isEmpty then [dotLeaf depth unit] else dotOpening depth unit
  | .leave depth id => dotClosing depth id

/-- The unit that is entered at a moment of the walk. -/
def entered? : DotEvent → Option CodeUnit
  | .enter _ unit => some unit
  | .leave _ _ => none

end DotEvent

mutual

/-- The walk through a tree. A unit that lists nothing inside it is not left. -/
def eventsIn (depth : Nat) : Tree (UnitId × CodeUnit) → List DotEvent
  | .node (id, unit) inside =>
    if unit.children.isEmpty then [.enter depth unit]
    else .enter depth unit :: eventsInList (depth + 1) inside ++ [.leave depth id]

/-- The walk through some trees. -/
def eventsInList (depth : Nat) : List (Tree (UnitId × CodeUnit)) → List DotEvent
  | [] => []
  | tree :: rest => eventsIn depth tree ++ eventsInList depth rest

end

mutual

theorem dotLines_eq_flatMap (depth : Nat) : ∀ tree : Tree (UnitId × CodeUnit),
    dotLines depth tree = (eventsIn depth tree).flatMap DotEvent.lines
  | .node (id, unit) inside => by
      have inner := dotLinesOfList_eq_flatMap (depth + 1) inside
      by_cases isLeaf : unit.children.isEmpty
      · simp [dotLines, eventsIn, DotEvent.lines, isLeaf]
      · simp [dotLines, eventsIn, DotEvent.lines, isLeaf, inner]

theorem dotLinesOfList_eq_flatMap (depth : Nat) : ∀ trees : List (Tree (UnitId × CodeUnit)),
    dotLinesOfList depth trees = (eventsInList depth trees).flatMap DotEvent.lines
  | [] => rfl
  | tree :: rest => by
      simp only [dotLinesOfList, eventsInList, List.flatMap_append, dotLines_eq_flatMap depth tree,
        dotLinesOfList_eq_flatMap depth rest]

end

theorem eventsInList_eq_flatMap (depth : Nat) (trees : List (Tree (UnitId × CodeUnit))) :
    eventsInList depth trees = trees.flatMap (eventsIn depth) := by
  induction trees with
  | nil => rfl
  | cons tree rest ih => rw [eventsInList, List.flatMap_cons, ih]

/-- The walk enters every unit of a tree once, in preorder. -/
theorem entered_eventsIn {tree : Tree (UnitId × CodeUnit)} (arranged : tree.Arranged)
    (depth : Nat) :
    (eventsIn depth tree).filterMap DotEvent.entered? = tree.preorder.map (·.2) := by
  induction arranged generalizing depth with
  | node entry inside listed below ih =>
      have inner : (eventsInList (depth + 1) inside).filterMap DotEvent.entered? =
          (Tree.preorderList inside).map (·.2) := by
        rw [eventsInList_eq_flatMap, Tree.preorderList_eq_flatMap, List.filterMap_flatMap,
          List.map_flatMap]
        apply List.flatMap_congr
        intro child childMem
        exact ih child childMem (depth + 1)
      by_cases isLeaf : entry.2.children.isEmpty
      · have empty : inside = [] := by simpa [listed] using isLeaf
        simp [eventsIn, DotEvent.entered?, Tree.preorder, Tree.preorderList, isLeaf, empty]
      · simp [eventsIn, DotEvent.entered?, Tree.preorder, isLeaf, inner]

namespace LaidOut

variable {forest : List (Tree (UnitId × CodeUnit))} (laidOut : graph.LaidOut forest)

include laidOut

theorem preorder_nesting : Tree.preorderList graph.nesting = graph.table := by
  rw [laidOut.nesting_eq, laidOut.table]

theorem map_id_document :
    (Tree.preorderList graph.document.roots).map (·.id) =
      (graph.table.map (·.1)).map toString := by
  rw [document, ← Tree.mapList_eq_map, Tree.preorderList_mapList, laidOut.preorder_nesting,
    List.map_map, List.map_map]
  apply List.map_congr_left
  intro entry entryMem
  simp only [Function.comp_apply, summary, laidOut.keyed entry entryMem]

theorem forall₂_isLineOf_nesting :
    List.Forall₂ graph.IsLineOf (graph.table.map (·.1))
      ((graph.listingLinesOfList 0 graph.nesting).filter (IsUnitLine ·)) := by
  rw [listingLinesOfList_eq, List.filter_flatMap, ← laidOut.preorder_nesting,
    Tree.preorderList_eq_flatMap, List.map_flatMap, laidOut.nesting_eq]
  apply forall₂_flatMap
  intro tree treeMem
  apply forall₂_isLineOf
  intro entry entryMem
  exact laidOut.unit?_of_mem (laidOut.mem_table_of_mem_forest treeMem entry entryMem)

theorem entered_eventsInList :
    (eventsInList 1 graph.nesting).filterMap DotEvent.entered? = graph.units := by
  rw [eventsInList_eq_flatMap, List.filterMap_flatMap, laidOut.nesting_eq, units,
    ← laidOut.table, Tree.preorderList_eq_flatMap, List.map_flatMap]
  apply List.flatMap_congr
  intro tree treeMem
  exact entered_eventsIn (laidOut.arranged tree treeMem) 1

end LaidOut

end CallGraph

end CallHierarchy
