import CallHierarchy.Proofs.Alike.Node
import CallHierarchy.Proofs.Source.Place
import Mathlib.Data.List.Lex
import Mathlib.Logic.Relation

/-!
# Places in source order

The address of a place, read from the root down, says where the place stands in
source order: one place *precedes* another when its address comes first in the
lexicographic order, so a place precedes all that stands below it, and all that
stands below its later siblings.

A list *enumerates* a relation when it shows the items of the relation, each
once, in a given order. Walks over a tree are put together from walks over its
branches, and so are their enumerations: what is enumerated branch by branch is
enumerated in source order. The walk through the constructs of a file is the
first case (`Place.enumerates_namedPreorder`).
-/

namespace CallHierarchy

/--
Whether a list shows exactly the items that satisfy a condition, each in its
place in an order. Where the order is strict, each item is shown once.
-/
def Enumerates {α β : Type} (view : α → β) (before : α → α → Prop) (satisfies : α → Prop)
    (shown : List β) : Prop :=
  ∃ items : List α, items.map view = shown ∧ items.Pairwise before ∧
    ∀ item, item ∈ items ↔ satisfies item

namespace Enumerates

variable {α β γ δ : Type} {view : α → β} {before : α → α → Prop} {satisfies : α → Prop}
  {shown : List β}

theorem nil (never : ∀ item, ¬satisfies item) : Enumerates view before satisfies [] :=
  ⟨[], rfl, List.Pairwise.nil, by simpa using never⟩

theorem singleton (item : α) (only : ∀ other, satisfies other ↔ other = item) :
    Enumerates view before satisfies [view item] :=
  ⟨[item], rfl, List.pairwise_singleton _ _, by simpa using fun other => (only other).symm⟩

theorem congr {condition : α → Prop} (enumerates : Enumerates view before satisfies shown)
    (same : ∀ item, satisfies item ↔ condition item) :
    Enumerates view before condition shown := by
  rcases enumerates with ⟨items, isShown, ordered, mem_iff⟩
  exact ⟨items, isShown, ordered, fun item => (mem_iff item).trans (same item)⟩

theorem cons (first : α) (enumerates : Enumerates view before satisfies shown)
    (isFirst : ∀ item, satisfies item → before first item) :
    Enumerates view before (fun item => item = first ∨ satisfies item) (view first :: shown) := by
  rcases enumerates with ⟨items, isShown, ordered, mem_iff⟩
  refine ⟨first :: items, by simp [isShown], ?_, by simp [mem_iff]⟩
  exact List.pairwise_cons.2 ⟨fun item itemMem => isFirst item ((mem_iff item).1 itemMem), ordered⟩

/-- What is enumerated source by source is enumerated, if the sources keep the order. -/
theorem flatMap {sources : List γ} {showing : γ → List β} (gives : γ → α → Prop)
    (each : ∀ source ∈ sources, Enumerates view before (gives source) (showing source))
    (apart : sources.Pairwise fun first second =>
      ∀ item other, gives first item → gives second other → before item other) :
    Enumerates view before (fun item => ∃ source ∈ sources, gives source item)
      (sources.flatMap showing) := by
  induction sources with
  | nil => exact nil (by simp)
  | cons source rest ih =>
      rcases List.pairwise_cons.1 apart with ⟨sourceApart, restApart⟩
      rcases each source List.mem_cons_self with ⟨items, isShown, ordered, mem_iff⟩
      rcases ih (fun other otherMem => each other (List.mem_cons_of_mem _ otherMem)) restApart with
        ⟨others, othersShown, othersOrdered, mem_others_iff⟩
      refine ⟨items ++ others, by simp [isShown, othersShown], ?_, ?_⟩
      · refine List.pairwise_append.2 ⟨ordered, othersOrdered, ?_⟩
        intro item itemMem other otherMem
        rcases (mem_others_iff other).1 otherMem with ⟨later, laterMem, ofLater⟩
        exact sourceApart later laterMem item other ((mem_iff item).1 itemMem) ofLater
      · intro item
        simp [mem_iff, mem_others_iff]

theorem map {viewMade : γ → δ} {beforeMade : γ → γ → Prop} (make : α → γ) (present : β → δ)
    (enumerates : Enumerates view before satisfies shown)
    (views : ∀ item, viewMade (make item) = present (view item))
    (keeps : ∀ item other, before item other → beforeMade (make item) (make other)) :
    Enumerates viewMade beforeMade (fun made => ∃ item, satisfies item ∧ made = make item)
      (shown.map present) := by
  rcases enumerates with ⟨items, rfl, ordered, mem_iff⟩
  refine ⟨items.map make, by simp [views], ?_, by simp [mem_iff, eq_comm]⟩
  exact List.pairwise_map.2 (ordered.imp fun isBefore => keeps _ _ isBefore)

theorem filter (keep : β → Bool) (enumerates : Enumerates view before satisfies shown) :
    Enumerates view before (fun item => satisfies item ∧ keep (view item))
      (shown.filter keep) := by
  rcases enumerates with ⟨items, rfl, ordered, mem_iff⟩
  refine ⟨items.filter (keep ∘ view), ?_, ordered.filter _, by simp [mem_iff]⟩
  rw [List.filter_map]

theorem mem_iff (enumerates : Enumerates view before satisfies shown) (seen : β) :
    seen ∈ shown ↔ ∃ item, satisfies item ∧ view item = seen := by
  rcases enumerates with ⟨items, rfl, -, mem_iff⟩
  simp [mem_iff]

end Enumerates

namespace Place

/-- The places directly below, in source order. -/
def children (place : Place) : List Place :=
  place.node.tree.children.zipIdx.map fun (tree, position) => place.child tree position

/-- The place directly above. -/
def parent? (place : Place) : Option Place :=
  place.ancestors.head?

/-- The first place directly below that is found under a field. -/
def childAt? (place : Place) (field : String) : Option Place :=
  place.children.find? (·.node.isField field)

/-- The nearest place strictly above whose kind is one of those given. -/
def nearest? (place : Place) (kinds : List String) : Option Place :=
  place.ancestors.find? (kinds.contains ·.node.kindName)

/-- The order of the source: what stands around a place comes before it. -/
def Precedes (place other : Place) : Prop :=
  place.address.reverse < other.address.reverse

/-- Whether one place is a construct directly below another. -/
def ConstructIn (parent place : Place) : Prop :=
  place ∈ parent.children ∧ place.node.isNamed

/-- The first construct directly below that is not a comment. -/
def firstConstruct? (place : Place) : Option Place :=
  (place.children.filter (·.node.isNamed)).find? (·.node.kindName ≠ "comment")

/-- Whether one place is reached from another by going down through constructs only. -/
def Reaches (top place : Place) : Prop :=
  Relation.ReflTransGen ConstructIn top place

variable {place other parent : Place}

theorem mem_children : other ∈ place.children ↔
    ∃ position tree, place.node.tree.children[position]? = some tree ∧
      place.child tree position = other := by
  simp only [children, List.mem_map, Prod.exists, List.mem_zipIdx_iff_getElem?]
  exact exists_comm

theorem map_node_children (place : Place) : place.children.map node = place.node.children := by
  rw [Node.children_eq, children, List.map_map]
  conv_rhs => rw [← List.zipIdx_map_fst 0 place.node.tree.children, List.map_map]
  rfl

theorem filter_children (place : Place) (keep : Node → Bool) :
    (place.children.filter (keep ·.node)).map node = place.node.children.filter keep := by
  rw [← map_node_children, List.filter_map]
  rfl

theorem map_node_childAt? (place : Place) (field : String) :
    (place.childAt? field).map node = place.node.childAt? field := by
  rw [Node.childAt?, ← map_node_children, List.find?_map]
  rfl

theorem map_node_firstConstruct? (place : Place) :
    place.firstConstruct?.map node = place.node.firstNamedChild? := by
  rw [Node.firstNamedChild?, Node.namedChildren, ← filter_children, List.find?_map]
  rfl

theorem childAt?_mem {field : String} (isChild : place.childAt? field = some other) :
    other ∈ place.children :=
  List.mem_of_find?_eq_some isChild

theorem firstConstruct?_mem (isFirst : place.firstConstruct? = some other) :
    other ∈ place.children :=
  List.mem_of_mem_filter (List.mem_of_find?_eq_some isFirst)

theorem ancestors_of_mem_children (otherMem : other ∈ parent.children) :
    other.ancestors = parent :: parent.ancestors := by
  rcases mem_children.1 otherMem with ⟨position, tree, -, rfl⟩
  rfl

theorem suffix_of_mem_children (otherMem : other ∈ parent.children) :
    parent.address <:+ other.address := by
  rcases mem_children.1 otherMem with ⟨position, tree, -, rfl⟩
  exact List.suffix_cons position parent.address

/-- To prove a property of every place, prove it of a place whose children have it. -/
theorem induction {motive : Place → Prop}
    (step : ∀ place : Place, (∀ child ∈ place.children, motive child) → motive place)
    (place : Place) : motive place := by
  rcases place with ⟨⟨file, tree, around⟩, address⟩
  induction tree using Tree.induction generalizing around address with
  | step label trees ih =>
      apply step
      intro child childMem
      rcases mem_children.1 childMem with ⟨position, tree, isTree, rfl⟩
      exact ih tree (List.mem_of_getElem? isTree) _ _

theorem ofTrees_eq_flatMap (parent : Place) (position : Nat) (trees : List SyntaxTree) :
    ofTrees parent position trees =
      (trees.zipIdx position).flatMap fun (tree, branch) => (parent.child tree branch).subtree := by
  induction trees generalizing position with
  | nil => rfl
  | cons tree rest ih => rw [ofTrees_cons, ih, List.zipIdx_cons, List.flatMap_cons]

theorem mem_subtree :
    other ∈ place.subtree ↔ other = place ∨ ∃ child ∈ place.children, other ∈ child.subtree := by
  rw [subtree_eq, ofTrees_eq_flatMap, List.mem_cons]
  simp only [children, List.mem_flatMap, List.mem_map, Prod.exists]
  constructor
  · rintro (rfl | ⟨tree, position, isTree, otherMem⟩)
    · exact Or.inl rfl
    · exact Or.inr ⟨_, ⟨tree, position, isTree, rfl⟩, otherMem⟩
  · rintro (rfl | ⟨child, ⟨tree, position, isTree, rfl⟩, otherMem⟩)
    · exact Or.inl rfl
    · exact Or.inr ⟨tree, position, isTree, otherMem⟩

theorem mem_subtree_self (place : Place) : place ∈ place.subtree :=
  mem_subtree.2 (Or.inl rfl)

theorem mem_subtree_of_mem_children {top : Place} (parentMem : parent ∈ top.subtree)
    (placeMem : place ∈ parent.children) : place ∈ top.subtree := by
  induction top using induction with
  | step top ih =>
      rcases mem_subtree.1 parentMem with rfl | ⟨child, childMem, parentMem⟩
      · exact mem_subtree.2 (Or.inr ⟨place, placeMem, mem_subtree_self place⟩)
      · exact mem_subtree.2 (Or.inr ⟨child, childMem, ih child childMem parentMem⟩)

/-- What stands around a place of a tree stands around the tree or belongs to it. -/
theorem mem_ancestors_of_mem_subtree {top : Place} (placeMem : place ∈ top.subtree)
    (otherMem : other ∈ place.ancestors) : other ∈ top.subtree ∨ other ∈ top.ancestors := by
  induction top using induction with
  | step top ih =>
      rcases mem_subtree.1 placeMem with rfl | ⟨child, childMem, placeMem⟩
      · exact Or.inr otherMem
      · rcases ih child childMem placeMem with belowChild | aroundChild
        · exact Or.inl (mem_subtree.2 (Or.inr ⟨child, childMem, belowChild⟩))
        · rw [ancestors_of_mem_children childMem, List.mem_cons] at aroundChild
          rcases aroundChild with rfl | aroundTop
          · exact Or.inl (mem_subtree_self _)
          · exact Or.inr aroundTop

theorem precedes_of_suffix {position : Nat} (below : position :: place.address <:+ other.address) :
    place.Precedes other := by
  rcases below with ⟨further, isAddress⟩
  have split : other.address.reverse =
      place.address.reverse ++ position :: further.reverse := by
    simp [← isAddress]
  have longer : place.address.reverse ++ [] <
      place.address.reverse ++ position :: further.reverse :=
    List.append_left_lt (List.nil_lt_cons position further.reverse)
  rwa [List.append_nil, ← split] at longer

theorem precedes_of_mem_children {child : Place} (childMem : child ∈ place.children)
    (below : child.address <:+ other.address) : place.Precedes other := by
  rcases mem_children.1 childMem with ⟨position, tree, -, rfl⟩
  exact precedes_of_suffix below

/-- All that stands below one child precedes all that stands below a later one. -/
theorem pairwise_children (parent : Place) :
    parent.children.Pairwise fun first second => ∀ place other : Place,
      first.address <:+ place.address → second.address <:+ other.address →
        place.Precedes other := by
  rw [List.pairwise_iff_getElem]
  intro first second firstLt secondLt isBefore place other belowFirst belowSecond
  simp only [children, List.getElem_map, List.getElem_zipIdx, Nat.zero_add]
    at belowFirst belowSecond
  rcases belowFirst with ⟨further, isAddress⟩
  rcases belowSecond with ⟨otherFurther, isOtherAddress⟩
  simp only [Precedes, ← isAddress, ← isOtherAddress, child, List.reverse_append,
    List.reverse_cons, List.append_assoc, List.singleton_append]
  apply List.append_left_lt
  exact List.cons_lt_cons_iff.2 (Or.inl isBefore)

theorem Precedes.asymm (precedes : place.Precedes other) : ¬other.Precedes place :=
  List.lt_asymm precedes

/-- A place and all below it are listed in source order. -/
theorem pairwise_subtree (place : Place) : place.subtree.Pairwise Precedes := by
  induction place using induction with
  | step place ih =>
      have branches : place.subtree = place :: place.children.flatMap subtree := by
        rw [subtree_eq, ofTrees_eq_flatMap, children, List.flatMap_map]
      rw [branches, List.pairwise_cons, List.pairwise_flatMap]
      refine ⟨?_, ih, ?_⟩
      · intro other otherMem
        rcases List.mem_flatMap.1 otherMem with ⟨child, childMem, otherMem⟩
        exact precedes_of_mem_children childMem (suffix_of_mem_subtree otherMem)
      · refine place.pairwise_children.imp ?_
        intro first second apart other otherMem later laterMem
        exact apart other later (suffix_of_mem_subtree otherMem) (suffix_of_mem_subtree laterMem)

theorem Reaches.suffix (reaches : place.Reaches other) : place.address <:+ other.address := by
  induction reaches with
  | refl => exact List.suffix_rfl
  | tail _ isConstruct ih => exact ih.trans (suffix_of_mem_children isConstruct.1)

theorem Reaches.mem_subtree (reaches : place.Reaches other) : other ∈ place.subtree := by
  induction reaches with
  | refl => exact mem_subtree_self place
  | tail _ isConstruct ih => exact mem_subtree_of_mem_children ih isConstruct.1

section Branches

variable {α β : Type} {view : α → β} {gives : Place → α → Prop} {showing : Node → List β}

/-- What is enumerated in source order below each of some children is so below their parent. -/
theorem enumerates_children (standsAt : α → Place) (keep : Node → Bool)
    (each : ∀ child ∈ place.children, keep child.node →
      Enumerates view (fun item other => (standsAt item).Precedes (standsAt other)) (gives child)
        (showing child.node))
    (below : ∀ child item, gives child item → child.address <:+ (standsAt item).address) :
    Enumerates view (fun item other => (standsAt item).Precedes (standsAt other))
      (fun item => ∃ child ∈ place.children, keep child.node ∧ gives child item)
      ((place.node.children.filter keep).flatMap showing) := by
  rw [← filter_children, List.flatMap_map]
  refine (Enumerates.flatMap gives ?_ ?_).congr ?_
  · intro child childMem
    rcases List.mem_filter.1 childMem with ⟨childMem, isKept⟩
    exact each child childMem isKept
  · refine (place.pairwise_children.filter _).imp ?_
    intro first second apart item other givesItem givesOther
    exact apart _ _ (below first item givesItem) (below second other givesOther)
  · intro item
    simp only [List.mem_filter, and_assoc]

theorem enumerates_childAt? {before : α → α → Prop} (field : String)
    (each : ∀ child, place.childAt? field = some child →
      Enumerates view before (gives child) (showing child.node)) :
    Enumerates view before
      (fun item => ∃ child, place.childAt? field = some child ∧ gives child item)
      ((place.node.childAt? field).elim [] showing) := by
  rw [← map_node_childAt?]
  rcases isChild : place.childAt? field with _ | child
  · exact Enumerates.nil (by simp)
  · exact (each child isChild).congr (by simp)

end Branches

/-- The walk through the constructs meets those that are reached, each once, in source order. -/
theorem enumerates_namedPreorder (place : Place) :
    Enumerates node Precedes place.Reaches place.node.namedPreorder := by
  induction place using induction with
  | step place ih =>
      have below : Enumerates node Precedes
          (fun other => ∃ child ∈ place.children, child.node.isNamed ∧ child.Reaches other)
          (place.node.namedChildren.flatMap Node.namedPreorder) :=
        enumerates_children id Node.isNamed (fun child childMem _ => ih child childMem)
          (fun _ _ reaches => reaches.suffix)
      rw [Node.namedPreorder_eq]
      refine (below.cons place ?_).congr ?_
      · rintro other ⟨child, childMem, -, reaches⟩
        exact precedes_of_mem_children childMem reaches.suffix
      · intro other
        rw [Reaches, Relation.ReflTransGen.cases_head_iff, eq_comm]
        simp only [ConstructIn, and_assoc]
        rfl

/-- Whether the address is as long as what is known of the surroundings, so that none is cut off. -/
def Balanced (place : Place) : Prop :=
  place.node.around.length = place.address.length

theorem Balanced.map_node_ancestors (balanced : place.Balanced) :
    place.ancestors.map node = place.node.ancestors := by
  have upwards : ∀ (around : List SyntaxTree) (address : List Nat),
      around.length = address.length →
      (above place.node.file around address).map node = Node.ancestors.go place.node around := by
    intro around
    induction around with
    | nil => exact fun address _ => rfl
    | cons tree around ih =>
        rintro (_ | ⟨position, address⟩) sameLength
        · cases sameLength
        · exact congrArg (_ :: ·) (ih address (Nat.succ.inj sameLength))
  exact upwards place.node.around place.address balanced

theorem Balanced.map_node_parent? (balanced : place.Balanced) :
    place.parent?.map node = place.node.parent? := by
  rw [parent?, ← List.head?_map, balanced.map_node_ancestors]
  rcases place with ⟨⟨file, tree, _ | ⟨parent, around⟩⟩, address⟩
  all_goals rfl

theorem Balanced.map_node_nearest? (balanced : place.Balanced) (kinds : List String) :
    (place.nearest? kinds).map node = place.node.enclosing? kinds := by
  rw [Node.enclosing?, ← balanced.map_node_ancestors, List.find?_map]
  rfl

theorem mem_ancestors_of_nearest? {kinds : List String}
    (isNearest : place.nearest? kinds = some other) :
    other ∈ place.ancestors ∧ other.node.kindName ∈ kinds := by
  refine ⟨List.mem_of_find?_eq_some isNearest, ?_⟩
  simpa using List.find?_some isNearest

end Place

namespace SourceFile

variable {file : SourceFile} {place other : Place}

theorem mem_places_of_mem_ancestors (placeMem : place ∈ file.places)
    (otherMem : other ∈ place.ancestors) : other ∈ file.places := by
  rcases Place.mem_ancestors_of_mem_subtree placeMem otherMem with belowRoot | aroundRoot
  · exact belowRoot
  · cases aroundRoot

theorem getD_mem_places (file : SourceFile) (index : Nat) :
    file.places.getD index file.rootPlace ∈ file.places := by
  rw [List.getD_eq_getElem?_getD]
  cases isPlace : file.places[index]? with
  | none => exact Place.mem_subtree_self _
  | some place => exact List.mem_of_getElem? isPlace

theorem balanced_of_mem_places (placeMem : place ∈ file.places) : place.Balanced :=
  length_around_of_mem_places placeMem

end SourceFile

end CallHierarchy
