import CallHierarchy.Proofs.Source.Place
import CallHierarchy.Unit.Outline

/-!
# The outline of a file, read off its places

The outline nests entities by walking the tree. Here the same nesting is given
place by place: the entities of a file are numbered in source order, and the
units directly inside a unit are those whose nearest enclosing unit it is. The
two views agree on every tree, whatever its root is and whether or not nodes can
be told apart by their keys.

Each statement is proved for a tree that hangs below a place and for a list of
such trees. Numbers go from one tree on to the next, while the places of one
tree never enclose those of another.
-/

namespace CallHierarchy

namespace Place

/--
The numbers of those entities whose nearest enclosing unit is the given one,
where the entities are numbered in order.
-/
def numbersInside (first : UnitId) (entities : List (Place × Entity))
    (owner : Option (List Nat)) : List UnitId :=
  ((entities.zipIdx first).filter fun entry => entry.1.1.enclosing? == owner).map (·.2)

theorem numbersInside_cons (first : UnitId) (place : Place) (entity : Entity)
    (entities : List (Place × Entity)) (owner : Option (List Nat)) :
    numbersInside first ((place, entity) :: entities) owner =
      if place.enclosing? = owner then first :: numbersInside (first + 1) entities owner
      else numbersInside (first + 1) entities owner := by
  by_cases inside : place.enclosing? = owner <;>
    simp [numbersInside, List.zipIdx_cons, inside]

theorem numbersInside_append (first : UnitId) (left right : List (Place × Entity))
    (owner : Option (List Nat)) :
    numbersInside first (left ++ right) owner =
      numbersInside first left owner ++ numbersInside (first + left.length) right owner := by
  simp [numbersInside, List.zipIdx_append]

theorem numbersInside_eq_nil {first : UnitId} {entities : List (Place × Entity)}
    {owner : Option (List Nat)} (outside : ∀ entry ∈ entities, entry.1.enclosing? ≠ owner) :
    numbersInside first entities owner = [] := by
  simp only [numbersInside, List.map_eq_nil_iff, List.filter_eq_nil_iff]
  intro entry entryMem
  simpa using outside entry.1 (List.fst_mem_of_mem_zipIdx entryMem)

end Place

namespace Outline

open Place (numbersInside entities)

theorem sizeList_append (left right : List Outline) :
    Tree.sizeList (left ++ right) = Tree.sizeList left + Tree.sizeList right := by
  induction left with
  | nil => simp [Tree.sizeList]
  | cons outline rest ih => simp only [List.cons_append, Tree.sizeList, ih, Nat.add_assoc]

theorem rootNumbers_append (first : UnitId) (left right : List Outline) :
    rootNumbers first (left ++ right) =
      rootNumbers first left ++ rootNumbers (first + Tree.sizeList left) right := by
  induction left generalizing first with
  | nil => simp [rootNumbers, Tree.sizeList]
  | cons outline rest ih =>
      simp only [List.cons_append, rootNumbers, Tree.sizeList, ih, Nat.add_assoc]

theorem numberedList_append (first : UnitId) (left right : List Outline) :
    numberedList first (left ++ right) =
      numberedList first left ++ numberedList (first + Tree.sizeList left) right := by
  induction left generalizing first with
  | nil => simp [numberedList, Tree.sizeList]
  | cons outline rest ih =>
      simp only [List.cons_append, numberedList, Tree.sizeList, ih, Nat.add_assoc,
        List.append_assoc]

/-- The outermost entities at and below a place, each with its outline. -/
def ofPlace (place : Place) : List Outline :=
  ofTree place.node.file place.node.around place.node.tree

/-- The outermost entities of some trees below a place, each with its outline. -/
def belowPlace (parent : Place) (trees : List SyntaxTree) : List Outline :=
  ofTrees parent.node.file (parent.node.tree :: parent.node.around) trees

theorem belowPlace_cons (parent : Place) (position : Nat) (tree : SyntaxTree)
    (rest : List SyntaxTree) :
    belowPlace parent (tree :: rest) =
      ofPlace (parent.child tree position) ++ belowPlace parent rest :=
  rfl

theorem ofPlace_of_some {parent : Place} {tree : SyntaxTree} {position : Nat} {entity : Entity}
    (isEntity : (parent.child tree position).entity? = some entity) :
    ofPlace (parent.child tree position) =
      [.node entity (belowPlace (parent.child tree position) tree.children)] := by
  rcases tree with ⟨label, children⟩
  rw [Place.entity?_child] at isEntity
  simp only [ofPlace, Place.child, ofTree] at isEntity ⊢
  rw [isEntity]
  rfl

theorem ofPlace_of_none {parent : Place} {tree : SyntaxTree} {position : Nat}
    (isEntity : (parent.child tree position).entity? = none) :
    ofPlace (parent.child tree position) =
      belowPlace (parent.child tree position) tree.children := by
  rcases tree with ⟨label, children⟩
  rw [Place.entity?_child] at isEntity
  simp only [ofPlace, Place.child, ofTree] at isEntity ⊢
  rw [isEntity]
  rfl

mutual

theorem sizeList_ofPlace (parent : Place) (position : Nat) : ∀ tree : SyntaxTree,
    Tree.sizeList (ofPlace (parent.child tree position)) =
      (entities (parent.child tree position).subtree).length
  | .node label children => by
      let here := parent.child (.node label children) position
      have inside := sizeList_belowPlace here 0 children
      rw [Place.subtree_eq]
      cases isEntity : here.entity? with
      | none =>
          rw [ofPlace_of_none isEntity, Place.entities_cons_none _ isEntity]
          exact inside
      | some entity =>
          rw [ofPlace_of_some isEntity, Place.entities_cons_some _ isEntity]
          simp only [Tree.sizeList, Tree.size, List.length_cons, Nat.add_zero]
          exact congrArg (· + 1) inside

theorem sizeList_belowPlace (parent : Place) (position : Nat) : ∀ trees : List SyntaxTree,
    Tree.sizeList (belowPlace parent trees) =
      (entities (Place.ofTrees parent position trees)).length
  | [] => rfl
  | tree :: rest => by
      rw [belowPlace_cons parent position, sizeList_append, Place.ofTrees_cons,
        Place.entities_append, List.length_append, sizeList_ofPlace parent position tree,
        sizeList_belowPlace parent (position + 1) rest]

end

theorem numbersInside_enclosing? {place : Place} {entity : Entity} (first : UnitId)
    (position : Nat) (trees : List SyntaxTree) (isEntity : place.entity? = some entity) :
    numbersInside first (entities (Place.ofTrees place position trees)) place.enclosing? = [] := by
  apply Place.numbersInside_eq_nil
  rintro ⟨other, otherEntity⟩ otherMem isOuter
  rcases Place.mem_ofTrees (Place.mem_entities.1 otherMem).1 with ⟨branch, tree, -, inBranch⟩
  have governs := Place.governs_enclosing? inBranch
  rcases governs.suffix_of_entity isEntity with ⟨inner, suffix, isInner⟩
  have shorter := Place.length_lt_of_enclosing? (isOuter.symm.trans isInner)
  have longer := suffix.length_le
  omega

mutual

/-- The outermost units at and below a place are those that its own enclosing unit encloses. -/
theorem rootNumbers_ofPlace (parent : Place) (position : Nat) (first : UnitId) :
    ∀ tree : SyntaxTree, rootNumbers first (ofPlace (parent.child tree position)) =
      numbersInside first (entities (parent.child tree position).subtree) parent.owner?
  | .node label children => by
      let here := parent.child (.node label children) position
      rw [Place.subtree_eq]
      cases isEntity : here.entity? with
      | none =>
          have passedOn : here.owner? = parent.owner? := Place.owner?_of_none isEntity
          rw [ofPlace_of_none isEntity, Place.entities_cons_none _ isEntity, ← passedOn]
          exact rootNumbers_belowPlace here 0 first children
      | some entity =>
          rw [ofPlace_of_some isEntity, Place.entities_cons_some _ isEntity,
            Place.numbersInside_cons, if_pos (Place.enclosing?_child parent _ position)]
          have outermost := numbersInside_enclosing? (first + 1) 0 children isEntity
          exact congrArg (first :: ·) outermost.symm

theorem rootNumbers_belowPlace (parent : Place) (position : Nat) (first : UnitId) :
    ∀ trees : List SyntaxTree, rootNumbers first (belowPlace parent trees) =
      numbersInside first (entities (Place.ofTrees parent position trees)) parent.owner?
  | [] => rfl
  | tree :: rest => by
      rw [belowPlace_cons parent position, rootNumbers_append, Place.ofTrees_cons,
        Place.entities_append, Place.numbersInside_append,
        rootNumbers_ofPlace parent position first tree, sizeList_ofPlace parent position tree,
        rootNumbers_belowPlace parent (position + 1) _ rest]

end

/--
The entities at some places in order, each with the numbers of those directly
inside it, where the entities are numbered in order.
-/
def numberedPlaces (first : UnitId) (places : List Place) : List (Entity × List UnitId) :=
  ((entities places).zipIdx first).map fun entry =>
    (entry.1.2, numbersInside first (entities places) (some entry.1.1.address))

theorem numberedPlaces_cons {place : Place} {entity : Entity} (first : UnitId) (position : Nat)
    (trees : List SyntaxTree) (isEntity : place.entity? = some entity) :
    numberedPlaces first (place :: Place.ofTrees place position trees) =
      (entity, numbersInside (first + 1) (entities (Place.ofTrees place position trees))
        place.owner?) :: numberedPlaces (first + 1) (Place.ofTrees place position trees) := by
  have notOwn : place.enclosing? ≠ some place.address := by
    intro isOwn
    exact (Place.length_lt_of_enclosing? isOwn).false
  simp only [numberedPlaces, Place.entities_cons_some _ isEntity, List.zipIdx_cons, List.map_cons,
    Place.numbersInside_cons, if_neg notOwn, Place.owner?_of_some isEntity]
  congr 1
  apply List.map_congr_left
  rintro ⟨⟨other, otherEntity⟩, id⟩ otherMem
  have otherPlace := (Place.mem_entities.1 (List.fst_mem_of_mem_zipIdx otherMem)).1
  rcases Place.mem_ofTrees otherPlace with ⟨branch, tree, -, inBranch⟩
  have notBelow : place.enclosing? ≠ some other.address := by
    intro isOther
    have shorter := Place.length_lt_of_enclosing? isOther
    have longer := (Place.suffix_of_mem_subtree inBranch).length_le
    simp only [Place.child, List.length_cons] at longer
    omega
  simp only [if_neg notBelow]

theorem numberedPlaces_append (first : UnitId) (parent : Place) (position : Nat)
    (tree : SyntaxTree) (rest : List SyntaxTree) :
    numberedPlaces first (Place.ofTrees parent position (tree :: rest)) =
      numberedPlaces first (parent.child tree position).subtree ++
        numberedPlaces (first + (entities (parent.child tree position).subtree).length)
          (Place.ofTrees parent (position + 1) rest) := by
  simp only [numberedPlaces, Place.ofTrees_cons, Place.entities_append, List.zipIdx_append,
    List.map_append, Place.numbersInside_append]
  congr 1
  · apply List.map_congr_left
    rintro ⟨⟨place, entity⟩, id⟩ placeMem
    have placeIn := (Place.mem_entities.1 (List.fst_mem_of_mem_zipIdx placeMem)).1
    have notLater : numbersInside (first + (entities (parent.child tree position).subtree).length)
        (entities (Place.ofTrees parent (position + 1) rest)) (some place.address) = [] := by
      apply Place.numbersInside_eq_nil
      rintro ⟨other, otherEntity⟩ otherMem
      rcases Place.mem_ofTrees (Place.mem_entities.1 otherMem).1 with
        ⟨branch, otherTree, later, inBranch⟩
      exact (Place.governs_enclosing? inBranch).ne_some (Place.suffix_of_mem_subtree placeIn)
        (by omega)
    simp only [notLater, List.append_nil]
  · apply List.map_congr_left
    rintro ⟨⟨place, entity⟩, id⟩ placeMem
    have placeIn := (Place.mem_entities.1 (List.fst_mem_of_mem_zipIdx placeMem)).1
    rcases Place.mem_ofTrees placeIn with ⟨branch, otherTree, later, inBranch⟩
    have notEarlier : numbersInside first (entities (parent.child tree position).subtree)
        (some place.address) = [] := by
      apply Place.numbersInside_eq_nil
      rintro ⟨other, otherEntity⟩ otherMem
      exact (Place.governs_enclosing? (Place.mem_entities.1 otherMem).1).ne_some
        (Place.suffix_of_mem_subtree inBranch) (by omega)
    simp only [notEarlier, List.nil_append]

mutual

theorem numberedList_ofPlace (parent : Place) (position : Nat) (first : UnitId) :
    ∀ tree : SyntaxTree, numberedList first (ofPlace (parent.child tree position)) =
      numberedPlaces first (parent.child tree position).subtree
  | .node label children => by
      let here := parent.child (.node label children) position
      rw [Place.subtree_eq]
      cases isEntity : here.entity? with
      | none =>
          rw [ofPlace_of_none isEntity, numberedPlaces, Place.entities_cons_none _ isEntity]
          exact numberedList_belowPlace here 0 first children
      | some entity =>
          rw [ofPlace_of_some isEntity, numberedPlaces_cons first 0 _ isEntity]
          simp only [numberedList, numbered, List.append_nil]
          rw [rootNumbers_belowPlace here 0, numberedList_belowPlace here 0]
          rfl

theorem numberedList_belowPlace (parent : Place) (position : Nat) (first : UnitId) :
    ∀ trees : List SyntaxTree, numberedList first (belowPlace parent trees) =
      numberedPlaces first (Place.ofTrees parent position trees)
  | [] => rfl
  | tree :: rest => by
      rw [belowPlace_cons parent position, numberedList_append, numberedPlaces_append,
        sizeList_ofPlace, numberedList_ofPlace parent position first tree,
        numberedList_belowPlace parent (position + 1) _ rest]

end

/-- The outline of a file, numbered, is the list of its entities with what they enclose. -/
theorem numbered_ofFile (first : UnitId) (file : SourceFile) :
    numbered first (ofFile file) = numberedPlaces first file.places := by
  have isEntity : file.rootPlace.entity? = some ⟨file.rootNode, .file, none⟩ := rfl
  rw [SourceFile.places, Place.subtree_eq, numberedPlaces_cons first 0 _ isEntity, ofFile, numbered]
  have roots := rootNumbers_belowPlace file.rootPlace 0 (first + 1) file.root.children
  have inside := numberedList_belowPlace file.rootPlace 0 (first + 1) file.root.children
  exact congrArg₂ (fun numbers rest => (_, numbers) :: rest) roots inside

mutual

/-- Every number after the first is the number of a unit directly inside exactly one other. -/
theorem perm_numbered (first : UnitId) : ∀ outline : Outline,
    (first :: (numbered first outline).flatMap (·.2)).Perm (List.range' first outline.size)
  | .node entity inside => by
      have below := perm_numberedList (first + 1) inside
      rw [numbered, Tree.size, List.range'_succ, List.flatMap_cons]
      exact below.cons first

theorem perm_numberedList (first : UnitId) : ∀ outlines : List Outline,
    (rootNumbers first outlines ++ (numberedList first outlines).flatMap (·.2)).Perm
      (List.range' first (Tree.sizeList outlines))
  | [] => .nil
  | outline :: rest => by
      have here := perm_numbered first outline
      have others := perm_numberedList (first + outline.size) rest
      rw [rootNumbers, numberedList, Tree.sizeList, ← List.range'_append_1, List.flatMap_append,
        List.cons_append]
      refine List.Perm.trans ?_ (here.append others)
      rw [List.cons_append]
      apply List.Perm.cons
      rw [← List.append_assoc, ← List.append_assoc]
      exact List.perm_append_comm.append_right _

end

theorem le_of_mem_rootNumbers {first id : UnitId} {outlines : List Outline}
    (idMem : id ∈ rootNumbers first outlines) : first ≤ id := by
  induction outlines generalizing first with
  | nil => simp [rootNumbers] at idMem
  | cons outline rest ih =>
      rw [rootNumbers, List.mem_cons] at idMem
      rcases idMem with rfl | idMem
      · exact le_rfl
      · have later := ih idMem
        exact le_trans (Nat.le_add_right first outline.size) later

mutual

theorem length_numbered (first : UnitId) : ∀ outline : Outline,
    (numbered first outline).length = outline.size
  | .node entity inside => by
      rw [numbered, List.length_cons, length_numberedList (first + 1) inside, Tree.size]

theorem length_numberedList (first : UnitId) : ∀ outlines : List Outline,
    (numberedList first outlines).length = Tree.sizeList outlines
  | [] => rfl
  | outline :: rest => by
      rw [numberedList, List.length_append, length_numbered first outline,
        length_numberedList _ rest, Tree.sizeList]

end

mutual

theorem lt_of_mem_numbered (first : UnitId) : ∀ outline : Outline,
    ∀ item ∈ (numbered first outline).zipIdx first, ∀ child ∈ item.1.2, item.2 < child
  | .node entity inside => by
      intro item itemMem child childMem
      rw [numbered, List.zipIdx_cons, List.mem_cons] at itemMem
      rcases itemMem with rfl | itemMem
      · exact le_of_mem_rootNumbers childMem
      · exact lt_of_mem_numberedList (first + 1) inside item itemMem child childMem

theorem lt_of_mem_numberedList (first : UnitId) : ∀ outlines : List Outline,
    ∀ item ∈ (numberedList first outlines).zipIdx first, ∀ child ∈ item.1.2, item.2 < child
  | [] => by simp [numberedList]
  | outline :: rest => by
      intro item itemMem child childMem
      rw [numberedList, List.zipIdx_append, length_numbered, List.mem_append] at itemMem
      rcases itemMem with itemMem | itemMem
      · exact lt_of_mem_numbered first outline item itemMem child childMem
      · exact lt_of_mem_numberedList _ rest item itemMem child childMem

end

end Outline
end CallHierarchy
