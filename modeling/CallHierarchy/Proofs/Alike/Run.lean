import CallHierarchy.Proofs.Alike.Scope
import CallHierarchy.Proofs.Alike.Unit
import CallHierarchy.Proofs.Run.Attribution
import Mathlib.Data.List.Find

/-!
# Runs over alike files

A run does not notice inserted comments, and the numbers of the files matter to it only
as numbers. Entering a file like another one adds the same block of units, with the number
of the file replaced and all numbers of units moved up (`entries_classify_of_alike`). Alike
places make the same edges and claims, as long as look-ups in the two runs agree on what
is shared (`Agrees`).
-/

namespace CallHierarchy

/-- The entry with other numbers of files and of units. -/
def Entry.rename (files : FileId → FileId) (units : UnitId → UnitId) (entry : Entry) : Entry where
  unit := entry.unit.rename files units
  node := entry.node.renumber files
  declaration := entry.declaration.map (NodeKey.renumber files)
  constructs := entry.constructs.map units

theorem Entry.rename_self (entry : Entry) :
    entry.rename (fun number => number) (fun number => number) = entry := by
  have keys : NodeKey.renumber (fun number => number) = fun key => key := rfl
  simp [rename, CodeUnit.rename, keys]

theorem Node.file_of_parent? {node parent : Node} (isParent : node.parent? = some parent) :
    parent.file = node.file := by
  unfold parent? at isParent
  split at isParent
  · simp at isParent
  · rw [← Option.some.inj isParent]

theorem Entity.file_of_constructedClass? {entity : Entity} {constructed : Node}
    (isConstructed : entity.constructedClass? = some constructed) :
    constructed.file = entity.node.file := by
  unfold constructedClass? at isConstructed
  split at isConstructed
  · rcases Option.bind_eq_some_iff.1 isConstructed with ⟨body, isBody, isClass⟩
    rw [Node.file_of_parent? isClass, Node.file_of_parent? isBody]
  · simp at isConstructed

variable {pairing : Pairing}

namespace Run

theorem kindOf?_isSome_of_unitOfNode? {run : Run} {key : NodeKey} {id : UnitId}
    (isUnit : run.unitOfNode? key = some id) : (run.kindOf? id).isSome := by
  rcases Option.map_eq_some_iff.1 isUnit with ⟨entry, isEntry, isId⟩
  rw [kindOf?, Option.isSome_map, List.find?_isSome]
  exact ⟨entry, List.mem_of_find?_eq_some isEntry, by simpa using isId⟩

/-- Whether no unit of a run stands in the given file. -/
def Avoids (entries : List Entry) (file : FileId) : Prop :=
  ∀ entry ∈ entries, entry.node.file ≠ file

section

variable {fresh run : Run} {older : List Entry}
  (entries : run.entries =
    fresh.entries.map (Entry.rename pairing.numbers (· + older.length)) ++ older)

include entries

theorem unitOfNode?_block {key : NodeKey} (avoids : Avoids older (pairing.numbers key.file)) :
    run.unitOfNode? (key.renumber pairing.numbers) =
      (fresh.unitOfNode? key).map (· + older.length) := by
  have none : older.find? (·.node == key.renumber pairing.numbers) = none := by
    rw [List.find?_eq_none]
    intro entry entryMem isKey
    exact avoids entry entryMem (congrArg NodeKey.file (eq_of_beq isKey))
  have sameKey : (fun entry : Entry => entry.node == key.renumber pairing.numbers) ∘
      Entry.rename pairing.numbers (· + older.length) = fun entry => entry.node == key := by
    funext entry
    exact (NodeKey.renumber_injective pairing.injective).beq_eq
  rw [unitOfNode?, unitOfNode?, entries, List.find?_append, none, Option.or_none, List.find?_map,
    sameKey, Option.map_map, Option.map_map]
  rfl

theorem kindOf?_block {id : UnitId} (known : (fresh.kindOf? id).isSome) :
    run.kindOf? (id + older.length) = fresh.kindOf? id := by
  have sameId : (fun entry : Entry => entry.unit.id == id + older.length) ∘
      Entry.rename pairing.numbers (· + older.length) = fun entry => entry.unit.id == id := by
    funext entry
    simp [Entry.rename, CodeUnit.rename]
  rw [kindOf?, Option.isSome_map] at known
  rcases Option.isSome_iff_exists.1 known with ⟨entry, isEntry⟩
  rw [kindOf?, kindOf?, entries, List.find?_append, List.find?_map, sameId, isEntry]
  rfl

theorem nextId_block : run.nextId = fresh.nextId + older.length := by
  rw [nextId, size, entries, List.length_append, List.length_map, Nat.add_right_comm]
  rfl

section

variable {entity other : Entity} (alike : entity.Alike pairing other)
  (avoids : Avoids older (pairing.numbers entity.node.file.id))

include alike avoids

theorem constructedUnit?_block :
    run.constructedUnit? other = (fresh.constructedUnit? entity).map (· + older.length) := by
  rcases alike.constructedClass?.eq_none_or_exists with
    ⟨isNone, otherIsNone⟩ | ⟨constructed, otherConstructed, isClass, otherIsClass, same⟩
  · rw [constructedUnit?, constructedUnit?, isNone, otherIsNone]
    rfl
  · rw [← Entity.file_of_constructedClass? isClass] at avoids
    have unit : run.unitOfNode? (constructed.key.renumber pairing.numbers) = _ :=
      unitOfNode?_block entries avoids
    rw [constructedUnit?, constructedUnit?, isClass, otherIsClass, Option.bind_some,
      Option.bind_some, same.key, unit]
    cases isUnit : fresh.unitOfNode? constructed.key with
    | none => rfl
    | some id =>
        have kind := kindOf?_block entries (kindOf?_isSome_of_unitOfNode? isUnit)
        simp only [Option.map_some, Option.filter_some, kind]
        split <;> rfl

theorem entryOf_block (children : List UnitId) :
    run.entryOf other (children.map (· + older.length)) =
      (fresh.entryOf entity children).rename pairing.numbers (· + older.length) := by
  have unit := alike.unit (· + older.length) fresh.nextId children
  have declaration : other.declaration.map Node.key =
      (entity.declaration.map Node.key).map (NodeKey.renumber pairing.numbers) := by
    rw [Option.map_map]
    exact alike.declaration.map_eq fun _ _ same => same.key
  have constructs := constructedUnit?_block entries alike avoids
  simp only [entryOf, Entry.rename, Entry.mk.injEq]
  rw [nextId_block entries]
  exact ⟨unit, alike.node.key, declaration, constructs⟩

end

theorem entries_enter_of_alike {items others : List (Entity × List UnitId)}
    (related : List.Forall₂ (NumberedAlike pairing (· + older.length)) items others)
    (avoids : ∀ item ∈ items, Avoids older (pairing.numbers item.1.node.file.id)) :
    (run.enter others).entries =
      (fresh.enter items).entries.map (Entry.rename pairing.numbers (· + older.length)) ++
        older := by
  induction related generalizing run fresh with
  | nil => exact entries
  | @cons item other _ _ same _ ih =>
      rcases item with ⟨entity, children⟩
      rcases other with ⟨otherEntity, otherChildren⟩
      rcases same with ⟨alike, rfl⟩
      rw [List.forall_mem_cons] at avoids
      rw [enter_cons, enter_cons]
      refine ih ?_ avoids.2
      rw [entries_add, entries_add, List.map_cons, entries, List.cons_append]
      exact congrArg (· :: _) (entryOf_block entries alike avoids.1 children)

/-- Entering a file like another one adds the same block of units, under other numbers. -/
theorem entries_classify_of_alike {file other : SourceFile} (isPair : pairing.pairs file other)
    (files : file.Alike pairing.numbers other) (avoids : Avoids older other.id) :
    (run.classify other).entries =
      (fresh.classify file).entries.map (Entry.rename pairing.numbers (· + older.length)) ++
        older := by
  have numbered := SourceFile.Alike.numbered isPair files fresh.nextId older.length
  rw [← nextId_block entries] at numbered
  refine entries_enter_of_alike entries numbered ?_
  intro item itemMem
  rw [Outline.numbered_ofFile] at itemMem
  rwa [Outline.file_of_mem_numberedPlaces itemMem, ← files.number]

end

section

variable (unchanged : pairing.numbers = fun number => number)

include unchanged

/-- Entering a file like another one, under the same number, adds the same units. -/
theorem classify_of_alike (run : Run) {file other : SourceFile}
    (isPair : pairing.pairs file other) (files : file.Alike pairing.numbers other) :
    run.classify other = run.classify file := by
  have renamed : Entry.rename pairing.numbers (· + ([] : List Entry).length) = id := by
    funext entry
    rw [unchanged]
    exact entry.rename_self
  have same : run.entries =
      run.entries.map (Entry.rename pairing.numbers (· + ([] : List Entry).length)) ++ [] := by
    rw [renamed, List.map_id, List.append_nil]
  have entries := entries_classify_of_alike same isPair files (by simp [Avoids])
  rw [renamed, List.map_id, List.append_nil] at entries
  exact congrArg (Run.mk · (run.roots ++ [run.nextId])) entries

theorem foldl_classify_of_alike (run : Run) {files others : List SourceFile}
    (related : List.Forall₂ (fun file other => pairing.pairs file other ∧
      file.Alike pairing.numbers other) files others) :
    others.foldl classify run = files.foldl classify run := by
  induction related generalizing run with
  | nil => rfl
  | cons same _ ih =>
      rw [List.foldl_cons, List.foldl_cons, run.classify_of_alike unchanged same.1 same.2]
      exact ih _

end

/-- No unit stands at an inserted comment, if its file is the only one of its number. -/
theorem unitOfNode?_of_isInserted {files : List SourceFile} {comment : Node}
    (inserted : comment.IsInserted pairing)
    (only : ∀ file ∈ files, file.id = comment.file.id → file = comment.file) :
    (files.foldl classify empty).unitOfNode? comment.key = none := by
  rw [unitOfNode?_foldl_classify]
  apply lastFor?_eq_none
  intro pair pairMem sameKey
  rcases List.mem_map.1 pairMem with ⟨⟨⟨place, entity⟩, id⟩, itemMem, rfl⟩
  rcases List.mem_flatMap.1 (List.fst_mem_of_mem_zipIdx itemMem) with ⟨file, fileMem, entityMem⟩
  rcases Place.mem_entities.1 entityMem with ⟨placeMem, isEntity⟩
  rw [Place.node_of_entity? isEntity] at sameKey
  simp only [Node.key, NodeKey.mk.injEq, SourceFile.file_of_mem_places placeMem] at sameKey
  rcases sameKey with ⟨sameId, start, stop, kind⟩
  unfold Place.entity? at isEntity
  split at isEntity
  case isTrue isRoot =>
    rw [SourceFile.places, Place.subtree_eq, List.mem_cons] at placeMem
    rcases placeMem with rfl | below
    · rw [only file fileMem sameId] at start stop kind
      apply inserted.fresh _ inserted.belowRoot
      exact congrArg₂ Prod.mk start (congrArg₂ Prod.mk stop kind)
    · exact Place.around_ne_nil_of_mem_ofTrees below (List.isEmpty_iff.1 isRoot)
  case isFalse =>
    rw [Entity.ofNode?_comment (kind.trans inserted.kind)] at isEntity
    simp at isEntity

/-- Whether two runs find the same units for what is shared, and none for inserted comments. -/
structure Agrees (pairing : Pairing) (units : UnitId → UnitId) (run other : Run) : Prop where
  unitOfNode? : ∀ key : NodeKey, key.Shared pairing →
    other.unitOfNode? (key.renumber pairing.numbers) = (run.unitOfNode? key).map units
  unitOfDeclaration? : ∀ key : NodeKey, key.Shared pairing →
    other.unitOfDeclaration? (key.renumber pairing.numbers) =
      (run.unitOfDeclaration? key).map units
  constructorOf? : ∀ (key : NodeKey) (id : UnitId), key.Shared pairing →
    run.unitOfDeclaration? key = some id →
      other.constructorOf? (units id) = (run.constructorOf? id).map units
  kindOf? : ∀ (key : NodeKey) (id : UnitId), key.Shared pairing →
    run.unitOfDeclaration? key = some id → other.kindOf? (units id) = run.kindOf? id
  inserted : ∀ comment : Node, comment.IsInserted pairing → other.unitOfNode? comment.key = none

/-- Whether alike nodes refer to the same declarations, all of them shared. -/
def SameDeclarations (pairing : Pairing) (declarations others : Declarations) : Prop :=
  ∀ node otherNode, Node.Alike pairing node otherNode →
    Mapped (List.map (NodeKey.renumber pairing.numbers))
      (fun keys => ∀ key ∈ keys, key.Shared pairing) (declarations node) (others otherNode)

/-- The edges shared out, under other numbers of units. -/
def Attribution.rename (units : UnitId → UnitId) (attribution : Attribution) : Attribution where
  unclaimed := attribution.unclaimed.map units
  claimed := attribution.claimed.map fun claim => (units claim.1, claim.2.map units)

/-- The edges at and below a node, shared out. -/
def share (run : Run) (declarations : Declarations) (node : Node) : Attribution :=
  run.shareOut declarations node.file node.around node.tree

section

variable (run : Run) (declarations : Declarations)

theorem shareOutList_eq_flatMap (node : Node) (trees : List SyntaxTree) :
    run.shareOutList declarations node.file (node.tree :: node.around) trees =
      ⟨(trees.map node.child).flatMap fun child => (run.share declarations child).unclaimed,
        (trees.map node.child).flatMap fun child => (run.share declarations child).claimed⟩ := by
  induction trees with
  | nil => rfl
  | cons tree rest ih =>
      rw [shareOutList, ih]
      rfl

theorem share_eq (node : Node) :
    run.share declarations node =
      let claimed := node.children.flatMap fun child => (run.share declarations child).claimed
      let edges := (run.edge? declarations node).toList ++
        node.children.flatMap fun child => (run.share declarations child).unclaimed
      match run.unitOfNode? node.key with
      | some id => ⟨[], claimed ++ [(id, edges)]⟩
      | none => ⟨edges, claimed⟩ := by
  have inside := run.shareOutList_eq_flatMap declarations node node.tree.children
  rw [← Node.children_eq] at inside
  rcases node with ⟨file, ⟨label, children⟩, around⟩
  simp only [share, shareOut]
  rw [show run.shareOutList declarations file (.node label children :: around) children = _
    from inside]
  rfl

end

namespace Agrees

variable {units : UnitId → UnitId} {run other : Run} (agrees : Agrees pairing units run other)
  {declarations others : Declarations}

include agrees

theorem filterMap_unitOfDeclaration? {keys : List NodeKey}
    (shared : ∀ key ∈ keys, key.Shared pairing) :
    (keys.map (NodeKey.renumber pairing.numbers)).filterMap other.unitOfDeclaration? =
      (keys.filterMap run.unitOfDeclaration?).map units := by
  rw [List.filterMap_map, List.map_filterMap]
  exact List.filterMap_congr fun key keyMem => agrees.unitOfDeclaration? key (shared key keyMem)

theorem findSome?_unitOfDeclaration? {keys : List NodeKey}
    (shared : ∀ key ∈ keys, key.Shared pairing) :
    (keys.map (NodeKey.renumber pairing.numbers)).findSome? other.unitOfDeclaration? =
      (keys.findSome? run.unitOfDeclaration?).map units := by
  rw [← List.head?_filterMap, ← List.head?_filterMap, agrees.filterMap_unitOfDeclaration? shared,
    List.head?_map]

theorem edge? (same : SameDeclarations pairing declarations others) {node otherNode : Node}
    (alike : node.Alike pairing otherNode) :
    other.edge? others otherNode = (run.edge? declarations node).map units := by
  have below : ∀ field, (node.childAt? field = none ∧ otherNode.childAt? field = none) ∨
      ∃ child otherChild, node.childAt? field = some child ∧
        otherNode.childAt? field = some otherChild ∧
        others otherChild = (declarations child).map (NodeKey.renumber pairing.numbers) ∧
        ∀ key ∈ declarations child, key.Shared pairing := by
    intro field
    rcases (alike.childAt? field).eq_none_or_exists with
      isNone | ⟨child, otherChild, isChild, otherIsChild, children⟩
    · exact .inl isNone
    · exact .inr ⟨child, otherChild, isChild, otherIsChild, same child otherChild children⟩
  simp only [Run.edge?, alike.kindName, alike.isAssignmentTarget]
  split
  case h_1 =>
    rcases below "function" with
      ⟨isNone, otherIsNone⟩ | ⟨callee, otherCallee, isChild, otherIsChild, sameKeys, shared⟩
    · rw [isNone, otherIsNone]
      rfl
    · rw [isChild, otherIsChild, Option.bind_some, Option.bind_some, sameKeys]
      exact agrees.findSome?_unitOfDeclaration? shared
  case h_2 =>
    rcases below "constructor" with
      ⟨isNone, otherIsNone⟩ | ⟨callee, otherCallee, isChild, otherIsChild, sameKeys, shared⟩
    · rw [isNone, otherIsNone]
      rfl
    · rw [isChild, otherIsChild, Option.bind_some, Option.bind_some, sameKeys,
        agrees.findSome?_unitOfDeclaration? shared, Option.map_bind, Option.bind_map]
      apply Option.bind_congr
      intro id isUnit
      rcases List.exists_of_findSome?_eq_some isUnit with ⟨key, keyMem, isKey⟩
      exact agrees.constructorOf? key id (shared key keyMem) isKey
  case h_3 =>
    rcases below "property" with
      ⟨isNone, otherIsNone⟩ | ⟨callee, otherCallee, isChild, otherIsChild, sameKeys, shared⟩
    · rw [isNone, otherIsNone]
      rfl
    · rw [isChild, otherIsChild, Option.bind_some, Option.bind_some, sameKeys,
        agrees.filterMap_unitOfDeclaration? shared, List.find?_map]
      apply congrArg (Option.map units)
      apply List.find?_congr
      intro id idMem
      rcases List.mem_filterMap.1 idMem with ⟨key, keyMem, isKey⟩
      rw [Function.comp_apply, agrees.kindOf? key id (shared key keyMem) isKey]
  case h_4 => rfl

theorem share_inserted {comment : Node} (inserted : comment.IsInserted pairing) :
    other.share others comment = ⟨[], []⟩ := by
  have noEdge : other.edge? others comment = none := by
    rw [Run.edge?, inserted.kindName]
    rfl
  rw [share_eq, agrees.inserted comment inserted, inserted.children, noEdge]
  rfl

/-- Alike nodes make the same edges, and the same units claim them. -/
theorem share (same : SameDeclarations pairing declarations others) {node otherNode : Node}
    (alike : node.Alike pairing otherNode) :
    other.share others otherNode = (run.share declarations node).rename units := by
  induction node using Node.induction generalizing otherNode with
  | step node ih =>
      have below : ∀ {α : Type} (part : Attribution → List α) (image : α → α),
          part ⟨[], []⟩ = [] →
          (∀ attribution : Attribution,
            part (attribution.rename units) = (part attribution).map image) →
          otherNode.children.flatMap (fun child => part (other.share others child)) =
            (node.children.flatMap fun child => part (run.share declarations child)).map image := by
        intro α part image isEmpty renamed
        apply Eq.symm
        rw [List.map_flatMap, ← List.forall₂_eq_eq_eq]
        apply alike.children.forall₂_flatMap
        · intro child childMem otherChild children
          rw [List.forall₂_eq_eq_eq, ih child childMem children, renamed]
        · intro comment inserted
          rw [agrees.share_inserted inserted, isEmpty]
      rw [share_eq, share_eq, alike.key, agrees.unitOfNode? node.key alike.shared,
        agrees.edge? same alike, below Attribution.claimed _ rfl fun _ => rfl,
        below Attribution.unclaimed _ rfl fun _ => rfl]
      cases run.unitOfNode? node.key <;> cases run.edge? declarations node <;>
        simp [Attribution.rename]

theorem claims (same : SameDeclarations pairing declarations others) {file otherFile : SourceFile}
    (isPair : pairing.pairs file otherFile) (files : file.Alike pairing.numbers otherFile) :
    other.claims others otherFile =
      (run.claims declarations file).map fun claim => (units claim.1, claim.2.map units) :=
  congrArg Attribution.claimed (agrees.share same (.root isPair files))

theorem flatMap_claims (same : SameDeclarations pairing declarations others)
    {files otherFiles : List SourceFile}
    (related : List.Forall₂ (fun file other => pairing.pairs file other ∧
      file.Alike pairing.numbers other) files otherFiles) :
    otherFiles.flatMap (other.claims others) =
      (files.flatMap (run.claims declarations)).map fun claim =>
        (units claim.1, claim.2.map units) := by
  induction related with
  | nil => rfl
  | cons both _ ih =>
      rw [List.flatMap_cons, List.flatMap_cons, agrees.claims same both.1 both.2, ih,
        List.map_append]

end Agrees

end Run

end CallHierarchy
