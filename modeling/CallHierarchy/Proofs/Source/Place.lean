import CallHierarchy.Unit.Entity
import Mathlib.Data.List.Infix
import Mathlib.Data.List.Nodup

/-!
# Places: nodes told apart by position

Nodes are values, and two nodes of one tree can be equal: siblings that hold no
text may agree in their labels and in all that stands below them. A *place* adds
where a node stands, so that the nodes of a file can be counted and compared one
by one.

The places that define units are the entities of a file and its root. Every
place has an *owner*, the nearest such place at or above it, and every place but
the root has an *enclosing* one, the nearest strictly above it. The lemmas say
where owners can lie: in a part of a tree, the owner of a place is in that part,
or it is the owner of what the part hangs from.
-/

namespace CallHierarchy

/-- A node and where it stands in its file. -/
structure Place where
  node : Node
  /-- The positions among siblings, from the node up to the root, which has none. -/
  address : List Nat

namespace Place

/-- The places around a tree, the nearest first. -/
def above (file : SourceFile) : List SyntaxTree → List Nat → List Place
  | tree :: around, _ :: address => ⟨⟨file, tree, around⟩, address⟩ :: above file around address
  | _, _ => []

/-- The places around a place, from the nearest to the root. -/
def ancestors (place : Place) : List Place :=
  above place.node.file place.node.around place.address

/-- The entity that a place defines. The root defines the file, whatever its kind is. -/
def entity? (place : Place) : Option Entity :=
  if place.node.around.isEmpty then some ⟨place.node, .file, none⟩ else Entity.ofNode? place.node

/-- Whether a place defines a unit. -/
def definesUnit (place : Place) : Bool :=
  place.entity?.isSome

/-- The address of the nearest place strictly above that defines a unit. -/
def enclosing? (place : Place) : Option (List Nat) :=
  (place.ancestors.find? definesUnit).map address

/-- The address of the nearest place, the place itself included, that defines a unit. -/
def owner? (place : Place) : Option (List Nat) :=
  ((place :: place.ancestors).find? definesUnit).map address

mutual

/-- The places of a tree in source order, each before those below it. -/
def ofTree (file : SourceFile) (around : List SyntaxTree) (address : List Nat) :
    SyntaxTree → List Place
  | .node label children =>
    let place : Place := ⟨⟨file, .node label children, around⟩, address⟩
    place :: ofTrees place 0 children

/-- The places of sibling trees below a parent, the first of which has the given position. -/
def ofTrees (parent : Place) (position : Nat) : List SyntaxTree → List Place
  | [] => []
  | tree :: rest =>
    ofTree parent.node.file (parent.node.tree :: parent.node.around) (position :: parent.address)
      tree ++ ofTrees parent (position + 1) rest

end

/-- A place and all places below it, in source order. -/
def subtree (place : Place) : List Place :=
  ofTree place.node.file place.node.around place.address place.node.tree

/-- The place of a child with the given position. -/
def child (parent : Place) (tree : SyntaxTree) (position : Nat) : Place :=
  ⟨⟨parent.node.file, tree, parent.node.tree :: parent.node.around⟩, position :: parent.address⟩

/-- The entities at some places, each with its place. -/
def entities (places : List Place) : List (Place × Entity) :=
  places.filterMap fun place => place.entity?.map fun entity => (place, entity)

end Place

namespace SourceFile

/-- The place of the root of a file. -/
def rootPlace (file : SourceFile) : Place :=
  ⟨file.rootNode, []⟩

/-- All places of a file in source order. -/
def places (file : SourceFile) : List Place :=
  file.rootPlace.subtree

/-- The entities of a file in source order, each with its place; the file itself comes first. -/
def entities (file : SourceFile) : List (Place × Entity) :=
  Place.entities file.places

end SourceFile

namespace Place

theorem mem_entities {places : List Place} {place : Place} {entity : Entity} :
    (place, entity) ∈ entities places ↔ place ∈ places ∧ place.entity? = some entity := by
  simp only [entities, List.mem_filterMap, Option.map_eq_some_iff, Prod.mk.injEq]
  constructor
  · rintro ⟨other, otherMem, found, isFound, rfl, rfl⟩
    exact ⟨otherMem, isFound⟩
  · rintro ⟨placeMem, isEntity⟩
    exact ⟨place, placeMem, entity, isEntity, rfl, rfl⟩

theorem entities_append (left right : List Place) :
    entities (left ++ right) = entities left ++ entities right := by
  simp [entities]

theorem entities_cons_some {place : Place} {entity : Entity} (places : List Place)
    (isEntity : place.entity? = some entity) :
    entities (place :: places) = (place, entity) :: entities places := by
  simp [entities, isEntity]

theorem entities_cons_none {place : Place} (places : List Place)
    (isEntity : place.entity? = none) : entities (place :: places) = entities places := by
  simp [entities, isEntity]

theorem map_fst_entities (places : List Place) :
    (entities places).map (·.1) = places.filter definesUnit := by
  induction places with
  | nil => rfl
  | cons place rest ih =>
      cases isEntity : place.entity? with
      | none =>
          rw [entities_cons_none rest isEntity, ih,
            List.filter_cons_of_neg (by simp [definesUnit, isEntity])]
      | some entity =>
          rw [entities_cons_some rest isEntity, List.map_cons, ih,
            List.filter_cons_of_pos (by simp [definesUnit, isEntity])]

theorem subtree_eq (place : Place) :
    place.subtree = place :: ofTrees place 0 place.node.tree.children := by
  rcases place with ⟨⟨file, ⟨label, children⟩, around⟩, address⟩
  rfl

theorem ofTrees_cons (parent : Place) (position : Nat) (tree : SyntaxTree)
    (rest : List SyntaxTree) :
    ofTrees parent position (tree :: rest) =
      (parent.child tree position).subtree ++ ofTrees parent (position + 1) rest :=
  rfl

theorem enclosing?_child (parent : Place) (tree : SyntaxTree) (position : Nat) :
    (parent.child tree position).enclosing? = parent.owner? :=
  rfl

theorem entity?_child (parent : Place) (tree : SyntaxTree) (position : Nat) :
    (parent.child tree position).entity? = Entity.ofNode? (parent.child tree position).node :=
  rfl

theorem owner?_of_some {place : Place} {entity : Entity} (isEntity : place.entity? = some entity) :
    place.owner? = some place.address := by
  simp [owner?, definesUnit, isEntity]

theorem owner?_of_none {place : Place} (isEntity : place.entity? = none) :
    place.owner? = place.enclosing? := by
  simp [owner?, enclosing?, definesUnit, isEntity]

theorem length_lt_of_mem_above {file : SourceFile} {around : List SyntaxTree}
    {address : List Nat} {place : Place} (placeMem : place ∈ above file around address) :
    place.address.length < address.length := by
  induction around generalizing address with
  | nil => simp [above] at placeMem
  | cons tree around ih =>
      cases address with
      | nil => simp [above] at placeMem
      | cons position address =>
          simp only [above, List.mem_cons] at placeMem
          rcases placeMem with rfl | placeMem
          · simp
          · have shorter := ih placeMem
            simp only [List.length_cons]
            omega

theorem length_lt_of_enclosing? {place : Place} {address : List Nat}
    (enclosed : place.enclosing? = some address) : address.length < place.address.length := by
  simp only [enclosing?, Option.map_eq_some_iff] at enclosed
  rcases enclosed with ⟨found, isFound, rfl⟩
  exact length_lt_of_mem_above (List.mem_of_find?_eq_some isFound)

theorem length_le_of_owner? {place : Place} {address : List Nat}
    (owned : place.owner? = some address) : address.length ≤ place.address.length := by
  cases isEntity : place.entity? with
  | none =>
      rw [owner?_of_none isEntity] at owned
      exact (length_lt_of_enclosing? owned).le
  | some entity =>
      rw [owner?_of_some isEntity, Option.some.injEq] at owned
      rw [owned]

theorem mem_ofTrees {parent place : Place} {position : Nat} {trees : List SyntaxTree}
    (placeMem : place ∈ ofTrees parent position trees) :
    ∃ branch tree, position ≤ branch ∧ place ∈ (parent.child tree branch).subtree := by
  induction trees generalizing position with
  | nil => simp [ofTrees] at placeMem
  | cons tree rest ih =>
      rw [ofTrees_cons, List.mem_append] at placeMem
      rcases placeMem with placeMem | placeMem
      · exact ⟨position, tree, le_rfl, placeMem⟩
      · rcases ih placeMem with ⟨branch, other, later, otherMem⟩
        exact ⟨branch, other, by omega, otherMem⟩

mutual

theorem forall_mem_child_subtree (property : Place → Prop)
    (passesDown : ∀ parent tree position, property parent → property (parent.child tree position))
    (parent : Place) (position : Nat) (holds : property parent) :
    ∀ tree : SyntaxTree, ∀ place ∈ (parent.child tree position).subtree, property place
  | .node label children => by
      have here := passesDown parent (.node label children) position holds
      intro place placeMem
      rw [subtree_eq, List.mem_cons] at placeMem
      rcases placeMem with rfl | placeMem
      · exact here
      · exact forall_mem_ofTrees property passesDown _ 0 here children place placeMem

theorem forall_mem_ofTrees (property : Place → Prop)
    (passesDown : ∀ parent tree position, property parent → property (parent.child tree position))
    (parent : Place) (position : Nat) (holds : property parent) :
    ∀ trees : List SyntaxTree, ∀ place ∈ ofTrees parent position trees, property place
  | [] => by simp [ofTrees]
  | tree :: rest => by
      intro place placeMem
      rw [ofTrees_cons, List.mem_append] at placeMem
      rcases placeMem with placeMem | placeMem
      · exact forall_mem_child_subtree property passesDown parent position holds tree place placeMem
      · exact forall_mem_ofTrees property passesDown parent (position + 1) holds rest place placeMem

end

/-- A property that is passed down from parents to children holds at all places below. -/
theorem forall_mem_subtree (property : Place → Prop)
    (passesDown : ∀ parent tree position, property parent → property (parent.child tree position))
    {place : Place} (holds : property place) : ∀ other ∈ place.subtree, property other := by
  intro other otherMem
  rw [subtree_eq, List.mem_cons] at otherMem
  rcases otherMem with rfl | otherMem
  · exact holds
  · exact forall_mem_ofTrees property passesDown place 0 holds _ other otherMem

theorem suffix_of_mem_subtree {place other : Place} (otherMem : other ∈ place.subtree) :
    place.address <:+ other.address := by
  apply forall_mem_subtree (place.address <:+ ·.address) _ List.suffix_rfl other otherMem
  intro parent tree position suffix
  exact suffix.trans (List.suffix_cons position parent.address)

theorem address_notMem_ofTrees (parent : Place) (position : Nat) (trees : List SyntaxTree) :
    parent.address ∉ (ofTrees parent position trees).map address := by
  intro addressMem
  rcases List.mem_map.1 addressMem with ⟨other, otherMem, sameAddress⟩
  rcases mem_ofTrees otherMem with ⟨branch, tree, -, otherMem⟩
  have longer := (suffix_of_mem_subtree otherMem).length_le
  rw [sameAddress] at longer
  exact (Nat.lt_of_lt_of_le (Nat.lt_succ_self _) longer).false

/--
Whether an owner is found in one branch below a place, or else is the owner of
the place itself. The owners of all that stands in the branch are of this kind.
-/
def Governs (parent : Place) (branch : Nat) (owner : Option (List Nat)) : Prop :=
  owner = parent.owner? ∨ ∃ inner, branch :: parent.address <:+ inner ∧ owner = some inner

/-- What governs one branch does not stand in another. -/
theorem Governs.ne_some {parent : Place} {branch other : Nat} {owner : Option (List Nat)}
    {address : List Nat} (governs : parent.Governs branch owner)
    (suffix : other :: parent.address <:+ address) (apart : branch ≠ other) :
    owner ≠ some address := by
  intro isAddress
  rcases governs with isParent | ⟨inner, innerSuffix, isInner⟩
  · have shorter := length_le_of_owner? (isParent.symm.trans isAddress)
    have longer := suffix.length_le
    simp only [List.length_cons] at longer
    omega
  · rw [isAddress, Option.some.injEq] at isInner
    subst isInner
    have same := List.suffix_of_suffix_length_le innerSuffix suffix (by simp)
    have equal := same.eq_of_length (by simp)
    exact apart (List.cons.inj equal).1

/-- Below an entity, everything is governed from the entity or from inside it. -/
theorem Governs.suffix_of_entity {place : Place} {branch : Nat} {owner : Option (List Nat)}
    {entity : Entity} (governs : place.Governs branch owner)
    (isEntity : place.entity? = some entity) :
    ∃ inner, place.address <:+ inner ∧ owner = some inner := by
  rcases governs with isPlace | ⟨inner, suffix, isInner⟩
  · rw [owner?_of_some isEntity] at isPlace
    exact ⟨place.address, List.suffix_rfl, isPlace⟩
  · exact ⟨inner, (List.suffix_cons branch place.address).trans suffix, isInner⟩

/--
What encloses a place below a child is governed from the parent on. A place is enclosed by its
parent or by what encloses the parent, so its address is carried down together with what
encloses it.
-/
theorem governs_enclosing? {parent place : Place} {branch : Nat} {tree : SyntaxTree}
    (placeMem : place ∈ (parent.child tree branch).subtree) :
    parent.Governs branch place.enclosing? := by
  refine (forall_mem_subtree (fun other => branch :: parent.address <:+ other.address ∧
    parent.Governs branch other.enclosing?) ?_ ⟨List.suffix_rfl, Or.inl rfl⟩ place placeMem).2
  rintro other childTree position ⟨suffix, governs⟩
  refine ⟨suffix.trans (List.suffix_cons position other.address), ?_⟩
  rw [enclosing?_child]
  cases isEntity : other.entity? with
  | none =>
      rw [owner?_of_none isEntity]
      exact governs
  | some entity => exact Or.inr ⟨other.address, suffix, owner?_of_some isEntity⟩

theorem governs_owner? {parent place : Place} {branch : Nat} {tree : SyntaxTree}
    (placeMem : place ∈ (parent.child tree branch).subtree) :
    parent.Governs branch place.owner? := by
  cases isEntity : place.entity? with
  | none =>
      rw [owner?_of_none isEntity]
      exact governs_enclosing? placeMem
  | some entity =>
      rw [owner?_of_some isEntity]
      exact Or.inr ⟨place.address, suffix_of_mem_subtree placeMem, rfl⟩

mutual

theorem map_node_ofTree (file : SourceFile) (around : List SyntaxTree) (address : List Nat) :
    ∀ tree : SyntaxTree,
    (ofTree file around address tree).map node = Node.preorderOf file around tree
  | .node label children => by
      simp only [ofTree, Node.preorderOf, List.map_cons]
      exact congrArg (_ :: ·) (map_node_ofTrees _ 0 children)

theorem map_node_ofTrees (parent : Place) (position : Nat) : ∀ trees : List SyntaxTree,
    (ofTrees parent position trees).map node =
      Node.preorderOfList parent.node.file (parent.node.tree :: parent.node.around) trees
  | [] => rfl
  | tree :: rest => by
      simp only [ofTrees, Node.preorderOfList, List.map_append]
      rw [map_node_ofTree, map_node_ofTrees parent (position + 1) rest]

end

mutual

theorem nodup_child_subtree (parent : Place) (position : Nat) : ∀ tree : SyntaxTree,
    ((parent.child tree position).subtree.map address).Nodup
  | .node label children => by
      rw [subtree_eq, List.map_cons, List.nodup_cons]
      exact ⟨address_notMem_ofTrees _ 0 children, nodup_ofTrees _ 0 children⟩

theorem nodup_ofTrees (parent : Place) (position : Nat) : ∀ trees : List SyntaxTree,
    ((ofTrees parent position trees).map address).Nodup
  | [] => List.nodup_nil
  | tree :: rest => by
      rw [ofTrees_cons, List.map_append, List.nodup_append]
      refine ⟨nodup_child_subtree parent position tree, nodup_ofTrees parent _ rest, ?_⟩
      intro address addressMem other otherMem sameAddress
      rcases List.mem_map.1 addressMem with ⟨place, placeMem, rfl⟩
      rcases List.mem_map.1 otherMem with ⟨otherPlace, otherPlaceMem, rfl⟩
      rcases mem_ofTrees otherPlaceMem with ⟨branch, otherTree, later, otherPlaceMem⟩
      have governs : parent.Governs position (some place.address) :=
        Or.inr ⟨place.address, suffix_of_mem_subtree placeMem, rfl⟩
      exact governs.ne_some (suffix_of_mem_subtree otherPlaceMem) (by omega) (by rw [sameAddress])

end

end Place

namespace SourceFile

theorem map_node_places (file : SourceFile) : file.places.map Place.node = file.rootNode.preorder :=
  Place.map_node_ofTree file [] [] file.root

theorem nodup_places (file : SourceFile) : (file.places.map Place.address).Nodup := by
  rw [places, Place.subtree_eq, List.map_cons, List.nodup_cons]
  exact ⟨Place.address_notMem_ofTrees _ 0 _, Place.nodup_ofTrees _ 0 _⟩

theorem file_of_mem_places {file : SourceFile} {place : Place} (placeMem : place ∈ file.places) :
    place.node.file = file := by
  apply Place.forall_mem_subtree (·.node.file = file) _ rfl place placeMem
  intro parent tree position same
  exact same

theorem length_around_of_mem_places {file : SourceFile} {place : Place}
    (placeMem : place ∈ file.places) : place.node.around.length = place.address.length := by
  apply Place.forall_mem_subtree (fun other => other.node.around.length = other.address.length) _
    rfl place placeMem
  intro parent tree position same
  simp [Place.child, same]

end SourceFile
end CallHierarchy
