import CallHierarchy.Proofs.Run.Classification
import Mathlib.Data.List.Perm.Basic

/-!
# Every edge belongs to its owner

Edges move up through the tree until a unit claims them. Place by place this
says that a unit claims exactly the edges of the places it owns, in source
order, as long as the keys of units are theirs alone.

The sharing out of a tree is compared with the list of its places. What a tree
leaves unclaimed are the edges of those places whose owner is the owner of what
the tree hangs from.
-/

namespace CallHierarchy

namespace Run

variable (run : Run) (declarations : Declarations)

/-- The edges of those places whose owner is the given one, in order. -/
def edgesOf (places : List Place) (owner : Option (List Nat)) : List UnitId :=
  (places.filter (·.owner? == owner)).filterMap fun place => run.edge? declarations place.node

/-- For every place with a unit, the unit and the edges of the places that it owns. -/
def claimsOf (places : List Place) : List (UnitId × List UnitId) :=
  places.filterMap fun place => (run.unitOfNode? place.node.key).map fun id =>
    (id, run.edgesOf declarations places (some place.address))

/-- What is shared out among the units at a place and below it. -/
def shareAt (place : Place) : Attribution :=
  run.shareOut declarations place.node.file place.node.around place.node.tree

/-- What is shared out among the units at and below some children of a place. -/
def shareBelow (parent : Place) (trees : List SyntaxTree) : Attribution :=
  run.shareOutList declarations parent.node.file (parent.node.tree :: parent.node.around) trees

/-- Whether the places that have units in a run are those that define units. -/
def Knows (places : List Place) : Prop :=
  ∀ place ∈ places, (run.unitOfNode? place.node.key).isSome = place.definesUnit

variable {run declarations}

theorem edgesOf_append (left right : List Place) (owner : Option (List Nat)) :
    run.edgesOf declarations (left ++ right) owner =
      run.edgesOf declarations left owner ++ run.edgesOf declarations right owner := by
  simp [edgesOf]

theorem edgesOf_cons_of_eq {place : Place} {owner : Option (List Nat)} (places : List Place)
    (isOwner : place.owner? = owner) :
    run.edgesOf declarations (place :: places) owner =
      (run.edge? declarations place.node).toList ++ run.edgesOf declarations places owner := by
  cases isEdge : run.edge? declarations place.node <;> simp [edgesOf, isOwner, isEdge]

theorem edgesOf_cons_of_ne {place : Place} {owner : Option (List Nat)} (places : List Place)
    (isOwner : place.owner? ≠ owner) :
    run.edgesOf declarations (place :: places) owner = run.edgesOf declarations places owner := by
  simp [edgesOf, isOwner]

theorem edgesOf_eq_nil {places : List Place} {owner : Option (List Nat)}
    (outside : ∀ place ∈ places, place.owner? ≠ owner) :
    run.edgesOf declarations places owner = [] := by
  have nothing : places.filter (·.owner? == owner) = [] := by
    simpa [List.filter_eq_nil_iff] using outside
  simp [edgesOf, nothing]

theorem shareBelow_cons (parent : Place) (position : Nat) (tree : SyntaxTree)
    (rest : List SyntaxTree) :
    run.shareBelow declarations parent (tree :: rest) =
      ⟨(run.shareAt declarations (parent.child tree position)).unclaimed ++
          (run.shareBelow declarations parent rest).unclaimed,
        (run.shareAt declarations (parent.child tree position)).claimed ++
          (run.shareBelow declarations parent rest).claimed⟩ :=
  rfl

theorem shareAt_of_some {place : Place} {id : UnitId}
    (isUnit : run.unitOfNode? place.node.key = some id) :
    run.shareAt declarations place =
      ⟨[], (run.shareBelow declarations place place.node.tree.children).claimed ++
        [(id, (run.edge? declarations place.node).toList ++
          (run.shareBelow declarations place place.node.tree.children).unclaimed)]⟩ := by
  rcases place with ⟨⟨file, ⟨label, children⟩, around⟩, address⟩
  simp only [shareAt, shareOut, isUnit]
  rfl

theorem shareAt_of_none {place : Place} (isUnit : run.unitOfNode? place.node.key = none) :
    run.shareAt declarations place =
      ⟨(run.edge? declarations place.node).toList ++
          (run.shareBelow declarations place place.node.tree.children).unclaimed,
        (run.shareBelow declarations place place.node.tree.children).claimed⟩ := by
  rcases place with ⟨⟨file, ⟨label, children⟩, around⟩, address⟩
  simp only [shareAt, shareOut, isUnit]
  rfl

/-- At and below an entity, no place belongs to what encloses the entity. -/
theorem edgesOf_enclosing? {place : Place} {entity : Entity}
    (isEntity : place.entity? = some entity) :
    run.edgesOf declarations place.subtree place.enclosing? = [] := by
  apply edgesOf_eq_nil
  intro other otherMem isOuter
  have inside : ∃ inner, place.address <:+ inner ∧ other.owner? = some inner := by
    rw [Place.subtree_eq, List.mem_cons] at otherMem
    rcases otherMem with rfl | otherMem
    · exact ⟨other.address, List.suffix_rfl, Place.owner?_of_some isEntity⟩
    · rcases Place.mem_ofTrees otherMem with ⟨branch, tree, -, inBranch⟩
      exact (Place.governs_owner? inBranch).suffix_of_entity isEntity
  rcases inside with ⟨inner, suffix, isInner⟩
  have shorter := Place.length_lt_of_enclosing? (isOuter.symm.trans isInner)
  have longer := suffix.length_le
  omega

/-- A place itself belongs to no place below it. -/
theorem edgesOf_cons_ofTrees {place other : Place} {position : Nat} {trees : List SyntaxTree}
    (otherMem : other ∈ Place.ofTrees place position trees) :
    run.edgesOf declarations (place :: Place.ofTrees place position trees) (some other.address) =
      run.edgesOf declarations (Place.ofTrees place position trees) (some other.address) := by
  apply edgesOf_cons_of_ne
  intro isOther
  rcases Place.mem_ofTrees otherMem with ⟨branch, tree, -, inBranch⟩
  have shorter := Place.length_le_of_owner? isOther
  have longer := (Place.suffix_of_mem_subtree inBranch).length_le
  simp only [Place.child, List.length_cons] at longer
  omega

theorem claimsOf_cons_some {place : Place} {id : UnitId} (position : Nat)
    (trees : List SyntaxTree) (isUnit : run.unitOfNode? place.node.key = some id) :
    run.claimsOf declarations (place :: Place.ofTrees place position trees) =
      (id, run.edgesOf declarations (place :: Place.ofTrees place position trees)
        (some place.address)) ::
        run.claimsOf declarations (Place.ofTrees place position trees) := by
  simp only [claimsOf, List.filterMap_cons, isUnit, Option.map_some]
  congr 1
  apply List.filterMap_congr
  intro other otherMem
  rw [edgesOf_cons_ofTrees otherMem]

theorem claimsOf_cons_none {place : Place} (position : Nat) (trees : List SyntaxTree)
    (isUnit : run.unitOfNode? place.node.key = none) :
    run.claimsOf declarations (place :: Place.ofTrees place position trees) =
      run.claimsOf declarations (Place.ofTrees place position trees) := by
  simp only [claimsOf, List.filterMap_cons, isUnit, Option.map_none]
  apply List.filterMap_congr
  intro other otherMem
  rw [edgesOf_cons_ofTrees otherMem]

/-- Sibling trees share no owners below their common parent. -/
theorem claimsOf_ofTrees_cons (parent : Place) (position : Nat) (tree : SyntaxTree)
    (rest : List SyntaxTree) :
    run.claimsOf declarations (Place.ofTrees parent position (tree :: rest)) =
      run.claimsOf declarations (parent.child tree position).subtree ++
        run.claimsOf declarations (Place.ofTrees parent (position + 1) rest) := by
  rw [Place.ofTrees_cons]
  simp only [claimsOf, List.filterMap_append]
  congr 1
  · apply List.filterMap_congr
    intro place placeMem
    have notLater : run.edgesOf declarations (Place.ofTrees parent (position + 1) rest)
        (some place.address) = [] := by
      apply edgesOf_eq_nil
      intro other otherMem
      rcases Place.mem_ofTrees otherMem with ⟨branch, otherTree, later, inBranch⟩
      exact (Place.governs_owner? inBranch).ne_some (Place.suffix_of_mem_subtree placeMem)
        (by omega)
    rw [edgesOf_append, notLater, List.append_nil]
  · apply List.filterMap_congr
    intro place placeMem
    rcases Place.mem_ofTrees placeMem with ⟨branch, otherTree, later, inBranch⟩
    have notEarlier : run.edgesOf declarations (parent.child tree position).subtree
        (some place.address) = [] := by
      apply edgesOf_eq_nil
      intro other otherMem
      exact (Place.governs_owner? otherMem).ne_some (Place.suffix_of_mem_subtree inBranch)
        (by omega)
    rw [edgesOf_append, notEarlier, List.nil_append]

theorem Knows.entity? {places : List Place} {place : Place} {id : UnitId}
    (knows : run.Knows places) (placeMem : place ∈ places)
    (isUnit : run.unitOfNode? place.node.key = some id) :
    ∃ entity, place.entity? = some entity := by
  have defines := knows place placeMem
  rw [isUnit, Option.isSome_some, eq_comm] at defines
  exact Option.isSome_iff_exists.1 defines

theorem Knows.entity?_eq_none {places : List Place} {place : Place}
    (knows : run.Knows places) (placeMem : place ∈ places)
    (isUnit : run.unitOfNode? place.node.key = none) : place.entity? = none := by
  have defines := knows place placeMem
  rw [isUnit, Option.isSome_none, eq_comm] at defines
  simpa [Place.definesUnit] using defines

/-- At a unit, nothing stays unclaimed, if the places below share out as they should. -/
theorem shareAt_unit {place : Place} {id : UnitId} {entity : Entity}
    (isUnit : run.unitOfNode? place.node.key = some id) (isEntity : place.entity? = some entity)
    (unclaimed : (run.shareBelow declarations place place.node.tree.children).unclaimed =
      run.edgesOf declarations (Place.ofTrees place 0 place.node.tree.children) place.owner?)
    (claimed : (run.shareBelow declarations place place.node.tree.children).claimed.Perm
      (run.claimsOf declarations (Place.ofTrees place 0 place.node.tree.children))) :
    (run.shareAt declarations place).unclaimed = [] ∧
      (run.shareAt declarations place).claimed.Perm
        (run.claimsOf declarations place.subtree) := by
  have owns := Place.owner?_of_some isEntity
  rw [shareAt_of_some isUnit, Place.subtree_eq, claimsOf_cons_some 0 _ isUnit,
    edgesOf_cons_of_eq _ owns, unclaimed, owns]
  refine ⟨rfl, ?_⟩
  apply List.perm_append_comm.trans
  exact claimed.cons _

mutual

/--
A tree shares out its edges place by place, up to the order of claims. It leaves
to the owner of its parent what that owner owns.
-/
theorem shareAt_child (parent : Place) (position : Nat) : ∀ tree : SyntaxTree,
    run.Knows (parent.child tree position).subtree →
    (run.shareAt declarations (parent.child tree position)).unclaimed =
      run.edgesOf declarations (parent.child tree position).subtree parent.owner? ∧
    (run.shareAt declarations (parent.child tree position)).claimed.Perm
      (run.claimsOf declarations (parent.child tree position).subtree)
  | .node label children, knows => by
      let here := parent.child (.node label children) position
      rw [Place.subtree_eq] at knows
      rcases shareBelow_children here 0 children
        (fun place placeMem => knows place (List.mem_cons_of_mem _ placeMem)) with
        ⟨unclaimed, claimed⟩
      cases isUnit : run.unitOfNode? here.node.key with
      | none =>
          have isEntity := knows.entity?_eq_none List.mem_cons_self isUnit
          have passedOn : here.owner? = parent.owner? := Place.owner?_of_none isEntity
          rw [shareAt_of_none isUnit, Place.subtree_eq, claimsOf_cons_none 0 _ isUnit,
            edgesOf_cons_of_eq _ passedOn, ← passedOn]
          exact ⟨congrArg (_ ++ ·) unclaimed, claimed⟩
      | some id =>
          rcases knows.entity? List.mem_cons_self isUnit with ⟨entity, isEntity⟩
          rcases shareAt_unit isUnit isEntity unclaimed claimed with ⟨nothing, claims⟩
          exact ⟨nothing.trans (edgesOf_enclosing? isEntity).symm, claims⟩

theorem shareBelow_children (parent : Place) (position : Nat) : ∀ trees : List SyntaxTree,
    run.Knows (Place.ofTrees parent position trees) →
    (run.shareBelow declarations parent trees).unclaimed =
      run.edgesOf declarations (Place.ofTrees parent position trees) parent.owner? ∧
    (run.shareBelow declarations parent trees).claimed.Perm
      (run.claimsOf declarations (Place.ofTrees parent position trees))
  | [], _ => ⟨rfl, .nil⟩
  | tree :: rest, knows => by
      rw [Place.ofTrees_cons] at knows
      rcases shareAt_child parent position tree
        (fun place placeMem => knows place (List.mem_append_left _ placeMem)) with
        ⟨unclaimed, claimed⟩
      rcases shareBelow_children parent (position + 1) rest
        (fun place placeMem => knows place (List.mem_append_right _ placeMem)) with
        ⟨unclaimedRest, claimedRest⟩
      rw [shareBelow_cons parent position, claimsOf_ofTrees_cons, Place.ofTrees_cons,
        edgesOf_append]
      exact ⟨congrArg₂ (· ++ ·) unclaimed unclaimedRest, claimed.append claimedRest⟩

end

variable (run declarations)

mutual

/-- Sharing out neither loses nor doubles an edge. -/
theorem length_shareOut (file : SourceFile) (around : List SyntaxTree) : ∀ tree : SyntaxTree,
    ((run.shareOut declarations file around tree).claimed.flatMap (·.2)).length +
      (run.shareOut declarations file around tree).unclaimed.length =
    (Node.preorderOf file around tree).countP fun node =>
      (run.edge? declarations node).isSome
  | .node label children => by
      have inside := length_shareOutList file (.node label children :: around) children
      have own : ∀ edge : Option UnitId, edge.toList.length = if edge.isSome then 1 else 0 := by
        intro edge
        cases edge <;> rfl
      rw [shareOut, Node.preorderOf, List.countP_cons, ← inside]
      split <;> simp [own] <;> omega

theorem length_shareOutList (file : SourceFile) (around : List SyntaxTree) :
    ∀ trees : List SyntaxTree,
    ((run.shareOutList declarations file around trees).claimed.flatMap (·.2)).length +
      (run.shareOutList declarations file around trees).unclaimed.length =
    (Node.preorderOfList file around trees).countP fun node =>
      (run.edge? declarations node).isSome
  | [] => rfl
  | tree :: rest => by
      have first := length_shareOut file around tree
      have others := length_shareOutList file around rest
      simp only [shareOutList, Node.preorderOfList, List.countP_append, ← first, ← others,
        List.flatMap_append, List.length_append]
      omega

end

end Run

/-- Whether no other node of a file has the key of a node that defines a unit. -/
def SourceFile.HasDistinctUnitKeys (file : SourceFile) : Prop :=
  ∀ owner ∈ file.places, owner.definesUnit = true →
    ∀ other ∈ file.places, other.node.key = owner.node.key → other = owner

theorem SourceFile.hasDistinctUnitKeys_of_nodup {file : SourceFile}
    (distinct : (file.places.map (·.node.key)).Nodup) : file.HasDistinctUnitKeys := by
  intro owner ownerMem _ other otherMem sameKey
  exact List.inj_on_of_nodup_map distinct otherMem ownerMem sameKey

namespace Run

theorem unitOfNode?_eq_lastFor? (run : Run) (key : NodeKey) :
    run.unitOfNode? key =
      lastFor? (run.entries.map fun entry => (entry.node, entry.unit.id)).reverse key := by
  simp only [unitOfNode?, lastFor?, List.reverse_reverse, List.find?_map, Option.map_map]
  rfl

theorem nodup_entities (file : SourceFile) : file.entities.Nodup := by
  apply (file.nodup_places.of_map Place.address).filterMap
  intro place other item fromPlace fromOther
  simp only [Option.mem_def, Option.map_eq_some_iff] at fromPlace fromOther
  rcases fromPlace with ⟨entity, -, rfl⟩
  rcases fromOther with ⟨otherEntity, -, same⟩
  exact (Prod.mk.inj same).1.symm

section

variable {files : List SourceFile}

theorem unitOfNode?_foldl_classify (key : NodeKey) :
    (files.foldl classify empty).unitOfNode? key =
      lastFor? (((files.flatMap SourceFile.entities).zipIdx 1).map fun entry =>
        (entry.1.2.node.key, entry.2)) key := by
  rw [unitOfNode?_eq_lastFor?, map_entries_foldl_classify_empty _
    (fun entity id => (entity.node.key, id)) (fun _ _ _ => rfl), List.reverse_reverse]

theorem nodup_flatMap_entities (distinctIds : (files.map (·.id)).Nodup) :
    (files.flatMap SourceFile.entities).Nodup := by
  rw [List.nodup_flatMap]
  constructor
  · intro file _
    exact nodup_entities file
  · have apart := List.pairwise_map.1 distinctIds
    refine apart.imp fun {file otherFile} differ => ?_
    rintro ⟨place, entity⟩ entityMem otherMem
    have isFile := SourceFile.file_of_mem_places (Place.mem_entities.1 entityMem).1
    have isOther := SourceFile.file_of_mem_places (Place.mem_entities.1 otherMem).1
    exact differ (congrArg SourceFile.id (isFile.symm.trans isOther))

variable (distinctIds : (files.map (·.id)).Nodup)
  (distinctKeys : ∀ file ∈ files, file.HasDistinctUnitKeys)

include distinctIds distinctKeys

theorem eq_of_same_key {file otherFile : SourceFile} (fileMem : file ∈ files)
    (otherFileMem : otherFile ∈ files) {place other : Place} (placeMem : place ∈ file.places)
    (otherMem : other ∈ otherFile.places) (defines : place.definesUnit = true)
    (sameKey : other.node.key = place.node.key) : other = place := by
  have sameId : otherFile.id = file.id := by
    rw [← SourceFile.file_of_mem_places placeMem, ← SourceFile.file_of_mem_places otherMem]
    exact congrArg NodeKey.file sameKey
  have sameFile : otherFile = file :=
    List.inj_on_of_nodup_map distinctIds otherFileMem fileMem sameId
  subst sameFile
  exact distinctKeys otherFile fileMem place placeMem defines other otherMem sameKey

theorem nodup_keys :
    ((files.flatMap SourceFile.entities).map (·.2.node.key)).Nodup := by
  apply List.Nodup.map_on
  · rintro ⟨place, entity⟩ entityMem ⟨other, otherEntity⟩ otherMem sameKey
    rcases List.mem_flatMap.1 entityMem with ⟨file, fileMem, entityMem⟩
    rcases List.mem_flatMap.1 otherMem with ⟨otherFile, otherFileMem, otherMem⟩
    rcases Place.mem_entities.1 entityMem with ⟨placeMem, isEntity⟩
    rcases Place.mem_entities.1 otherMem with ⟨otherPlaceMem, isOtherEntity⟩
    have defines : other.definesUnit = true := by simp [Place.definesUnit, isOtherEntity]
    rw [Place.node_of_entity? isEntity, Place.node_of_entity? isOtherEntity] at sameKey
    have same := eq_of_same_key distinctIds distinctKeys otherFileMem fileMem otherPlaceMem
      placeMem defines sameKey
    subst same
    rw [isEntity, Option.some.injEq] at isOtherEntity
    rw [isOtherEntity]
  · exact nodup_flatMap_entities distinctIds

theorem unitOfNode?_of_mem_zipIdx {place : Place} {entity : Entity} {id : UnitId}
    (entryMem : ((place, entity), id) ∈ (files.flatMap SourceFile.entities).zipIdx 1) :
    (files.foldl classify empty).unitOfNode? place.node.key = some id := by
  have isNode : entity.node = place.node := by
    rcases List.mem_flatMap.1 (List.fst_mem_of_mem_zipIdx entryMem) with ⟨file, -, entityMem⟩
    exact Place.node_of_entity? (Place.mem_entities.1 entityMem).2
  rw [unitOfNode?_foldl_classify, ← isNode]
  apply lastFor?_of_mem
  · have keys := nodup_keys distinctIds distinctKeys
    rw [← List.zipIdx_map_fst 1 (files.flatMap SourceFile.entities)] at keys
    rw [List.map_map] at keys ⊢
    exact keys
  · exact List.mem_map.2 ⟨((place, entity), id), entryMem, rfl⟩

/-- After entering all files, just those nodes have units that define some. -/
theorem knows_places {file : SourceFile} (fileMem : file ∈ files) :
    (files.foldl classify empty).Knows file.places := by
  intro place placeMem
  cases isEntity : place.entity? with
  | some entity =>
      have entityMem : (place, entity) ∈ files.flatMap SourceFile.entities :=
        List.mem_flatMap.2 ⟨file, fileMem, Place.mem_entities.2 ⟨placeMem, isEntity⟩⟩
      rw [← List.zipIdx_map_fst 1 (files.flatMap SourceFile.entities)] at entityMem
      rcases List.mem_map.1 entityMem with ⟨⟨item, id⟩, entryMem, rfl⟩
      rw [unitOfNode?_of_mem_zipIdx distinctIds distinctKeys entryMem]
      simp [Place.definesUnit, isEntity]
  | none =>
      have unknown : (files.foldl classify empty).unitOfNode? place.node.key = none := by
        rw [unitOfNode?_foldl_classify, Option.eq_none_iff_forall_ne_some]
        intro id isUnit
        rcases List.mem_map.1 (mem_of_lastFor? isUnit) with ⟨⟨⟨other, entity⟩, _⟩, entryMem, same⟩
        rcases List.mem_flatMap.1 (List.fst_mem_of_mem_zipIdx entryMem) with
          ⟨otherFile, otherFileMem, entityMem⟩
        rcases Place.mem_entities.1 entityMem with ⟨otherMem, isOtherEntity⟩
        have sameKey : place.node.key = other.node.key := by
          rw [← Place.node_of_entity? isOtherEntity]
          exact (Prod.mk.inj same).1.symm
        have samePlace := eq_of_same_key distinctIds distinctKeys otherFileMem fileMem otherMem
          placeMem (by simp [Place.definesUnit, isOtherEntity]) sameKey
        rw [samePlace, isOtherEntity] at isEntity
        simp at isEntity
      rw [unknown]
      simp [Place.definesUnit, isEntity]

end

theorem claimsOf_eq_entities {run : Run} {declarations : Declarations} {places : List Place}
    (knows : run.Knows places) :
    run.claimsOf declarations places = (Place.entities places).filterMap fun item =>
      (run.unitOfNode? item.1.node.key).map fun id =>
        (id, run.edgesOf declarations places (some item.1.address)) := by
  rw [Place.entities, List.filterMap_filterMap, claimsOf]
  apply List.filterMap_congr
  intro place placeMem
  have defines := knows place placeMem
  cases isEntity : place.entity? with
  | none =>
      have unknown : run.unitOfNode? place.node.key = none := by
        simpa [Place.definesUnit, isEntity] using defines
      simp [unknown]
  | some entity => simp

/-- The root claims what is left, so the claims of a file are those of its places. -/
theorem claims_of_knows {run : Run} {declarations : Declarations} {file : SourceFile}
    (knows : run.Knows file.places) :
    (run.shareOut declarations file [] file.root).unclaimed = [] ∧
      (run.claims declarations file).Perm (run.claimsOf declarations file.places) := by
  have isEntity : file.rootPlace.entity? = some ⟨file.rootNode, .file, none⟩ := rfl
  have places := Place.subtree_eq file.rootPlace
  have below : run.Knows (Place.ofTrees file.rootPlace 0 file.rootPlace.node.tree.children) := by
    intro place placeMem
    apply knows
    rw [SourceFile.places, places]
    exact List.mem_cons_of_mem _ placeMem
  have defines : (run.unitOfNode? file.rootPlace.node.key).isSome = true := by
    rw [knows file.rootPlace (by rw [SourceFile.places, places]; exact List.mem_cons_self)]
    rfl
  rcases Option.isSome_iff_exists.1 defines with ⟨id, isUnit⟩
  rcases shareBelow_children file.rootPlace 0 _ below with ⟨unclaimed, claimed⟩
  exact shareAt_unit isUnit isEntity unclaimed claimed

section

variable {files : List SourceFile} (declarations : Declarations)
  (distinctIds : (files.map (·.id)).Nodup)
  (distinctKeys : ∀ file ∈ files, file.HasDistinctUnitKeys)

include distinctIds distinctKeys

/-- The claims of all files: every unit claims the edges of what it owns. -/
theorem flatMap_claims_perm :
    let entered := files.foldl classify empty
    (files.flatMap (entered.claims declarations)).Perm
      (((files.flatMap SourceFile.entities).zipIdx 1).map fun entry =>
        (entry.2, entered.edgesOf declarations entry.1.1.node.file.places
          (some entry.1.1.address))) := by
  intro entered
  let claim := fun item : Place × Entity => (entered.unitOfNode? item.1.node.key).map fun id =>
    (id, entered.edgesOf declarations item.1.node.file.places (some item.1.address))
  have perFile : ∀ file ∈ files, (entered.claims declarations file).Perm
      (file.entities.filterMap claim) := by
    intro file fileMem
    have knows := knows_places distinctIds distinctKeys fileMem
    apply (claims_of_knows knows).2.trans
    rw [claimsOf_eq_entities knows]
    apply List.Perm.of_eq
    apply List.filterMap_congr
    rintro ⟨place, entity⟩ entityMem
    rw [← SourceFile.file_of_mem_places (Place.mem_entities.1 entityMem).1]
  have numbered : (files.flatMap SourceFile.entities).filterMap claim =
      ((files.flatMap SourceFile.entities).zipIdx 1).map fun entry =>
        (entry.2, entered.edgesOf declarations entry.1.1.node.file.places
          (some entry.1.1.address)) := by
    conv_lhs => rw [← List.zipIdx_map_fst 1 (files.flatMap SourceFile.entities)]
    rw [List.filterMap_map, List.filterMap_eq_map_iff_forall_eq_some]
    rintro ⟨⟨place, entity⟩, id⟩ entryMem
    simp [claim, entered, unitOfNode?_of_mem_zipIdx distinctIds distinctKeys entryMem]
  rw [← numbered, List.filterMap_flatMap]
  exact List.Perm.flatMap_left files perFile

theorem map_calls_analyze :
    let entered := files.foldl classify empty
    ((analyze declarations files).units.map fun unit => (unit.id, unit.calls)) =
      ((files.flatMap SourceFile.entities).zipIdx 1).map fun entry =>
        (entry.2, entered.edgesOf declarations entry.1.1.node.file.places
          (some entry.1.1.address)) := by
  intro entered
  let claims := files.flatMap (entered.claims declarations)
  have claimed := flatMap_claims_perm declarations distinctIds distinctKeys
  have distinct : (claims.map (·.1)).Nodup := by
    rw [(claimed.map (·.1)).nodup_iff, List.map_map]
    have numbers := List.zipIdx_map_snd 1 (files.flatMap SourceFile.entities)
    exact numbers ▸ List.nodup_range'
  have entries := map_entries_foldl_classify_empty
    (fun entry => (entry.unit.id, (lastFor? claims entry.unit.id).getD entry.unit.calls))
    (fun _ id => (id, (lastFor? claims id).getD [])) (fun _ _ _ => rfl) files
  have units : ((analyze declarations files).units.map fun unit => (unit.id, unit.calls)) =
      (entered.entries.map fun entry =>
        (entry.unit.id, (lastFor? claims entry.unit.id).getD entry.unit.calls)).reverse := by
    rw [analyze, foldl_resolve, units_finish]
    simp only [Run.units, grant, List.map_map, List.map_reverse]
    rfl
  rw [units, entries, List.reverse_reverse]
  apply List.map_congr_left
  intro entry entryMem
  have claimMem := claimed.mem_iff.2 (List.mem_map.2 ⟨entry, entryMem, rfl⟩)
  rw [lastFor?_of_mem distinct claimMem, Option.getD_some]

theorem edgeCount_analyze :
    let entered := files.foldl classify empty
    (analyze declarations files).edgeCount =
      (files.flatMap (·.rootNode.preorder)).countP fun node =>
        (entered.edge? declarations node).isSome := by
  intro entered
  have calls := congrArg (List.map (·.2)) (map_calls_analyze declarations distinctIds distinctKeys)
  have claimed := flatMap_claims_perm declarations distinctIds distinctKeys
  have perFile : ∀ file ∈ files, ((entered.claims declarations file).flatMap (·.2)).length =
      file.rootNode.preorder.countP fun node => (entered.edge? declarations node).isSome := by
    intro file fileMem
    have knows := knows_places distinctIds distinctKeys fileMem
    have conserved := length_shareOut entered declarations file [] file.root
    rw [(claims_of_knows knows).1, List.length_nil, Nat.add_zero] at conserved
    exact conserved
  calc (analyze declarations files).edgeCount
      = ((files.flatMap (entered.claims declarations)).flatMap (·.2)).length := by
        rw [(claimed.flatMap_right (·.2)).length_eq, CallGraph.edgeCount, List.flatMap_def,
          List.flatMap_def, ← calls, List.map_map]
        rfl
    _ = (files.flatMap (·.rootNode.preorder)).countP fun node =>
          (entered.edge? declarations node).isSome := by
        rw [List.flatMap_assoc, List.length_flatMap, List.countP_flatMap,
          List.map_congr_left perFile]
        rfl

end

/--
The calls of a unit are exactly the edges of the nodes whose nearest unit it is,
in source order and with repetitions, and no edge of any file is left out.
-/
theorem analyze_calls {files : List SourceFile} (declarations : Declarations)
    (distinctIds : (files.map (·.id)).Nodup)
    (distinctKeys : ∀ file ∈ files, file.HasDistinctUnitKeys) :
    let entered := files.foldl classify empty
    let graph := analyze declarations files
    (graph.units.map fun unit => (some unit.id, unit.calls)) =
      (files.flatMap fun file => file.entities.map fun (owner, _) =>
        (entered.unitOfNode? owner.node.key,
          (file.places.filter (·.owner? == some owner.address)).filterMap fun place =>
            entered.edge? declarations place.node)) ∧
    graph.edgeCount =
      (files.flatMap (·.rootNode.preorder)).countP fun node =>
        (entered.edge? declarations node).isSome := by
  intro entered graph
  refine ⟨?_, edgeCount_analyze declarations distinctIds distinctKeys⟩
  let expected := fun item : Place × Entity => (entered.unitOfNode? item.1.node.key,
    entered.edgesOf declarations item.1.node.file.places (some item.1.address))
  have numbered : (graph.units.map fun unit => (some unit.id, unit.calls)) =
      (files.flatMap SourceFile.entities).map expected := by
    have calls := congrArg (List.map fun item => (some item.1, item.2))
      (map_calls_analyze declarations distinctIds distinctKeys)
    rw [List.map_map, List.map_map] at calls
    conv_rhs => rw [← List.zipIdx_map_fst 1 (files.flatMap SourceFile.entities), List.map_map]
    refine calls.trans (List.map_congr_left ?_)
    rintro ⟨⟨place, entity⟩, id⟩ entryMem
    simp [expected, entered, unitOfNode?_of_mem_zipIdx distinctIds distinctKeys entryMem]
  rw [numbered, List.map_flatMap]
  apply List.flatMap_congr
  intro file _
  apply List.map_congr_left
  rintro ⟨place, entity⟩ entityMem
  simp only [expected, SourceFile.file_of_mem_places (Place.mem_entities.1 entityMem).1]
  rfl

/-- A function that calls a function inside it, which calls back. -/
def mutualCalls : SourceFile where
  id := 0
  path := ⟨"mutual.ts"⟩
  text := "function f() { function g() { f() } g() }"
  root :=
    .node ⟨⟨"program", true⟩, 0, 40, none⟩
      [.node ⟨⟨"function_declaration", true⟩, 0, 40, none⟩
        [.node ⟨⟨"statement_block", true⟩, 13, 40, some "body"⟩
          [.node ⟨⟨"function_declaration", true⟩, 15, 35, none⟩
            [.node ⟨⟨"call_expression", true⟩, 30, 33, none⟩
              [.node ⟨⟨"identifier", true⟩, 30, 31, some "function"⟩ []]],
          .node ⟨⟨"call_expression", true⟩, 36, 39, none⟩
            [.node ⟨⟨"identifier", true⟩, 36, 37, some "function"⟩ []]]]]

/-- The names in the calls refer to the two functions. -/
def mutualDeclarations : Declarations := fun node =>
  if node.start = 30 then [⟨0, 0, 40, ⟨"function_declaration", true⟩⟩]
  else [⟨0, 15, 35, ⟨"function_declaration", true⟩⟩]

theorem analyze_calls_mutualCalls :
    mutualCalls.HasDistinctUnitKeys ∧
    ((analyze mutualDeclarations [mutualCalls]).units.map fun unit => (some unit.id, unit.calls)) =
      [(some 1, []), (some 2, [3]), (some 3, [2])] ∧
    (analyze mutualDeclarations [mutualCalls]).edgeCount = 2 := by
  have distinctKeys : mutualCalls.HasDistinctUnitKeys :=
    SourceFile.hasDistinctUnitKeys_of_nodup (by decide)
  have distinctIds : ([mutualCalls].map (·.id)).Nodup := by decide
  have calls := analyze_calls mutualDeclarations distinctIds (by simpa using distinctKeys)
  exact ⟨distinctKeys, calls.1.trans (by decide), calls.2.trans (by decide)⟩

end Run
end CallHierarchy
