import CallHierarchy.Proofs.Run.Interchange
import CallHierarchy.Proofs.Unit.Naming

/-!
# What kinds of units are invoked

An edge leads to the unit of some declaration, or to the constructor that is
linked to it. Whatever the steps of a run were, the units found so are those of
entities that have a name, and what a construction or an access invokes is of the
kind that its form asks for.

Entities are numbered through a run in the order in which their files are entered,
whatever else happens in between, so every unit is traced back to its entity.
-/

namespace CallHierarchy

namespace Node

/-- Whether a node is assigned to: it, or arrays around it, are the left side of an assignment. -/
def IsAssigned (node : Node) : Prop :=
  ∃ target assignment, node.WrappedIn ["array", "array_pattern"] target ∧
    target.parent? = some assignment ∧ assignment.kindName = "assignment_expression" ∧
    assignment.childAt? "left" = some target

theorem isAssignmentTarget_iff (node : Node) : node.isAssignmentTarget ↔ node.IsAssigned := by
  simp only [isAssignmentTarget, Bool.and_eq_true, Option.any_eq_true, beq_iff_eq]
  constructor
  · rintro ⟨isLeft, assignment, isParent, isKind⟩
    rcases isChildAt_iff.1 isLeft with ⟨_, isSame, isLeft⟩
    cases isSame.symm.trans isParent
    exact ⟨_, assignment, wrappedIn_climb _ node, isParent, isKind, isLeft⟩
  · rintro ⟨target, assignment, wrapped, isParent, isKind, isLeft⟩
    have ends : assignment.kindName ∉ ["array", "array_pattern"] := by simp [isKind]
    rw [wrapped.climb_eq isParent ends]
    exact ⟨isChildAt_iff.2 ⟨assignment, isParent, isLeft⟩, assignment, isParent, isKind⟩

end Node

namespace Entity

theorem methodKind_mem (method : Node) :
    methodKind method ∈ [.constructor, .getter, .setter, .method] := by
  unfold methodKind
  split_ifs <;> simp

/-- What has a name is neither a whole file nor a static block, and no nameless expression. -/
theorem kind_of_declaration {node : Node} {entity : Entity} (isEntity : ofNode? node = some entity)
    (named : entity.declaration ≠ none) :
    entity.kind ≠ .file ∧ entity.kind ≠ .staticBlock ∧
      (node.isExpression → node.namingContext? ≠ none) := by
  have methods := methodKind_mem node
  unfold ofNode? at isEntity
  split at isEntity
  · unfold ofConstruct? at isEntity
    split at isEntity <;> grind [Node.isExpression, Node.expressionKinds]
  · simp at isEntity

theorem declaration_of_constructor {node : Node} {entity : Entity}
    (isEntity : ofNode? node = some entity) (isKind : entity.kind = .constructor) :
    entity.declaration ≠ none := by
  unfold ofNode? at isEntity
  split at isEntity
  · unfold ofConstruct? at isEntity
    split at isEntity <;> grind
  · simp at isEntity

end Entity

/-- What is found by a declaration, or as a constructor, has a name and is of a kind with names. -/
theorem Place.kind_of_named {place : Place} {entity : Entity}
    (isEntity : place.entity? = some entity)
    (named : entity.declaration ≠ none ∨ entity.kind = .constructor) :
    entity.kind ≠ .file ∧ entity.kind ≠ .staticBlock ∧
      (place.node.isExpression → place.node.namingContext? ≠ none) := by
  rcases entity?_cases isEntity with rfl | isEntity
  · simp at named
  rcases named with named | isConstructor
  · exact Entity.kind_of_declaration isEntity named
  · exact Entity.kind_of_declaration isEntity
      (Entity.declaration_of_constructor isEntity isConstructor)

namespace Run

/-- The unit of the first declaration that has a unit of an accepted sort. -/
def FirstUnit (run : Run) (accepts : UnitId → Bool) (keys : List NodeKey) (id : UnitId) : Prop :=
  ∃ earlier key later, keys = earlier ++ key :: later ∧ run.unitOfDeclaration? key = some id ∧
    accepts id ∧ ∀ other ∈ earlier, ∀ otherId, run.unitOfDeclaration? other = some otherId →
      accepts otherId = false

theorem find?_filterMap_unitOfDeclaration? (run : Run) (accepts : UnitId → Bool)
    (keys : List NodeKey) (id : UnitId) :
    (keys.filterMap run.unitOfDeclaration?).find? accepts = some id ↔
      run.FirstUnit accepts keys id := by
  simp only [List.find?_filterMap, Option.bind_eq_some_iff, List.find?_eq_some_iff_append,
    FirstUnit, Bool.not_eq_true', Option.any_eq_false]
  constructor
  · rintro ⟨key, ⟨accepted, earlier, later, rfl, refused⟩, isUnit⟩
    rw [isUnit] at accepted
    exact ⟨earlier, key, later, rfl, isUnit, accepted, refused⟩
  · rintro ⟨earlier, key, later, rfl, isUnit, accepted, refused⟩
    refine ⟨key, ⟨?_, earlier, later, rfl, refused⟩, isUnit⟩
    rw [isUnit]
    exact accepted

theorem findSome?_unitOfDeclaration? (run : Run) (keys : List NodeKey) (id : UnitId) :
    keys.findSome? run.unitOfDeclaration? = some id ↔ run.FirstUnit (fun _ => true) keys id := by
  rw [← find?_filterMap_unitOfDeclaration?, ← List.head?_filterMap]
  cases keys.filterMap run.unitOfDeclaration? <;> simp

/--
What is read off an entry, as long as its entity and its number decide it and no
claim changes it, is read off all entries in the order of the files entered.
-/
theorem map_entries_foldl_apply {α : Type} (view : Entry → α) (expected : Entity → UnitId → α)
    (agree : ∀ (run : Run) (entity : Entity) (children : List UnitId),
      view (run.entryOf entity children) = expected entity run.nextId)
    (unclaimed : ∀ claims entry, view (Entry.claim claims entry) = view entry)
    (run : Run) (steps : List Step) :
    (steps.foldl Step.apply run).entries.map view =
      ((((steps.filterMap Step.entered?).flatMap SourceFile.entities).zipIdx run.nextId).map
        fun entry => expected entry.1.2 entry.2).reverse ++ run.entries.map view := by
  induction steps generalizing run with
  | nil => rfl
  | cons step rest ih =>
      rw [List.foldl_cons, ih]
      cases step with
      | classify file =>
          simp only [Step.apply, Step.entered?, nextId_classify, List.filterMap_cons,
            List.flatMap_cons, List.zipIdx_append, List.map_append, List.reverse_append,
            map_entries_classify view (fun entity _ id => expected entity id) agree,
            List.append_assoc]
      | resolve declarations file =>
          have sameView : (run.resolve declarations file).entries.map view =
              run.entries.map view := by
            simp only [resolve_eq, grant, List.map_map, Function.comp_def, unclaimed]
          have sameNext : (run.resolve declarations file).nextId = run.nextId := by
            simp [resolve_eq, grant, nextId, size]
          simp only [Step.apply, Step.entered?, List.filterMap_cons, sameView, sameNext]

/-- Every entry of a run is that of an entity, with the number of the entity. -/
theorem exists_entity_of_mem {steps : List Step} {entry : Entry}
    (entryMem : entry ∈ (ofSteps steps).entries) :
    ∃ place entity, ((place, entity), entry.unit.id) ∈
        ((steps.filterMap Step.entered?).flatMap SourceFile.entities).zipIdx 1 ∧
      entry.unit.kind = entity.kind ∧ entry.declaration = entity.declaration.map Node.key := by
  let view := fun entry : Entry => (entry.unit.id, entry.unit.kind, entry.declaration)
  have views := map_entries_foldl_apply view
    (fun entity id => (id, entity.kind, entity.declaration.map Node.key)) (fun _ _ _ => rfl)
    (fun _ _ => rfl) empty steps
  have viewMem : view entry ∈ (steps.foldl Step.apply empty).entries.map view :=
    List.mem_map_of_mem entryMem
  rw [views, show empty.entries.map view = [] from rfl, List.append_nil, List.mem_reverse]
    at viewMem
  rcases List.mem_map.1 viewMem with ⟨⟨⟨place, entity⟩, id⟩, itemMem, isView⟩
  simp only [view, Prod.mk.injEq] at isView
  rcases isView with ⟨rfl, isKind, isDeclared⟩
  exact ⟨place, entity, itemMem, isKind.symm, isDeclared.symm⟩

theorem kindOf?_of_mem {run : Run} (distinct : (run.entries.map (·.unit.id)).Nodup) {entry : Entry}
    (entryMem : entry ∈ run.entries) : run.kindOf? entry.unit.id = some entry.unit.kind := by
  cases isFound : run.entries.find? (·.unit.id == entry.unit.id) with
  | none =>
      exact absurd (beq_self_eq_true entry.unit.id) (List.find?_eq_none.1 isFound entry entryMem)
  | some found =>
      have sameId : found.unit.id = entry.unit.id := by simpa using List.find?_some isFound
      have same := List.inj_on_of_nodup_map distinct (List.mem_of_find?_eq_some isFound) entryMem
        sameId
      rw [kindOf?, isFound, same]
      rfl

theorem mem_of_unitOfDeclaration? {run : Run} {key : NodeKey} {id : UnitId}
    (isUnit : run.unitOfDeclaration? key = some id) :
    ∃ entry ∈ run.entries, entry.unit.id = id ∧ entry.declaration = some key := by
  rcases Option.map_eq_some_iff.1 isUnit with ⟨entry, isEntry, isId⟩
  exact ⟨entry, List.mem_of_find?_eq_some isEntry, isId, by simpa using List.find?_some isEntry⟩

theorem mem_of_constructorOf? {run : Run} {owner id : UnitId}
    (isConstructor : run.constructorOf? owner = some id) :
    ∃ entry ∈ run.entries, entry.unit.id = id ∧ entry.constructs = some owner := by
  rcases Option.map_eq_some_iff.1 isConstructor with ⟨entry, isEntry, isId⟩
  exact ⟨entry, List.mem_of_find?_eq_some isEntry, isId, by simpa using List.find?_some isEntry⟩

section

variable {run : Run} {declarations : Declarations} {node : Node} {id : UnitId}

theorem edge?_construction (isKind : node.kindName = "new_expression") :
    run.edge? declarations node = some id ↔
      ∃ constructed owner, node.childAt? "constructor" = some constructed ∧
        run.FirstUnit (fun _ => true) (declarations constructed) owner ∧
        run.constructorOf? owner = some id := by
  simp only [edge?, isKind, Option.bind_eq_some_iff, findSome?_unitOfDeclaration?]
  constructor
  · rintro ⟨constructed, isConstructed, owner, isOwner, isConstructor⟩
    exact ⟨constructed, owner, isConstructed, isOwner, isConstructor⟩
  · rintro ⟨constructed, owner, isConstructed, isOwner, isConstructor⟩
    exact ⟨constructed, isConstructed, owner, isOwner, isConstructor⟩

theorem edge?_access (isKind : node.kindName = "member_expression") :
    run.edge? declarations node = some id ↔
      ∃ property accessor, node.childAt? "property" = some property ∧
        (node.IsAssigned ∧ accessor = .setter ∨ ¬node.IsAssigned ∧ accessor = .getter) ∧
        run.FirstUnit (run.kindOf? · == some accessor) (declarations property) id := by
  simp only [edge?, isKind, Option.bind_eq_some_iff, find?_filterMap_unitOfDeclaration?,
    ← node.isAssignmentTarget_iff]
  cases node.isAssignmentTarget <;> simp

/-- An edge leads to a unit that is indexed by a declaration, or to a constructor. -/
theorem exists_entry_of_edge? (linked : run.Linked)
    (isEdge : run.edge? declarations node = some id) :
    ∃ entry ∈ run.entries, entry.unit.id = id ∧
      (entry.declaration ≠ none ∨ entry.unit.kind = .constructor) := by
  rcases edge?_cases isEdge with ⟨key, isUnit⟩ | ⟨owner, isConstructor⟩
  · rcases mem_of_unitOfDeclaration? isUnit with ⟨entry, entryMem, isId, isDeclared⟩
    exact ⟨entry, entryMem, isId, Or.inl (by simp [isDeclared])⟩
  · rcases mem_of_constructorOf? isConstructor with ⟨entry, entryMem, isId, isLinked⟩
    exact ⟨entry, entryMem, isId, Or.inr (linked entry entryMem owner isLinked).1⟩

end

/--
After any steps, a construction invokes the constructor of the first declaration
that has a unit, and an access the first setter or getter, as it is assigned to
or not. No edge leads to a file, a static block or an expression without a name.
-/
theorem edge?_targets (steps : List Step) (declarations : Declarations) (node : Node)
    (id : UnitId) :
    let run := ofSteps steps
    let entities := (steps.filterMap Step.entered?).flatMap SourceFile.entities
    (node.kindName = "new_expression" →
      (run.edge? declarations node = some id ↔
        ∃ constructed owner, node.childAt? "constructor" = some constructed ∧
          run.FirstUnit (fun _ => true) (declarations constructed) owner ∧
          run.constructorOf? owner = some id) ∧
      (run.edge? declarations node = some id → run.kindOf? id = some .constructor)) ∧
    (node.kindName = "member_expression" →
      (run.edge? declarations node = some id ↔
        ∃ property accessor, node.childAt? "property" = some property ∧
          (node.IsAssigned ∧ accessor = .setter ∨ ¬node.IsAssigned ∧ accessor = .getter) ∧
          run.FirstUnit (run.kindOf? · == some accessor) (declarations property) id)) ∧
    (run.edge? declarations node = some id →
      ∃ place entity, ((place, entity), id) ∈ entities.zipIdx 1 ∧
        run.kindOf? id = some entity.kind ∧ entity.kind ≠ .file ∧ entity.kind ≠ .staticBlock ∧
        (place.node.isExpression → place.node.namingContext? ≠ none)) := by
  intro run entities
  have distinct : (run.entries.map (·.unit.id)).Nodup := (sound_empty.foldl_apply steps).nodup_ids
  have linked : run.Linked := linked_empty.foldl_apply steps
  refine ⟨fun isKind => ⟨edge?_construction isKind, ?_⟩, edge?_access, ?_⟩
  · intro isEdge
    rcases (edge?_construction isKind).1 isEdge with ⟨constructed, owner, -, -, isConstructor⟩
    rcases mem_of_constructorOf? isConstructor with ⟨entry, entryMem, rfl, isLinked⟩
    rw [kindOf?_of_mem distinct entryMem, (linked entry entryMem owner isLinked).1]
  · intro isEdge
    rcases exists_entry_of_edge? linked isEdge with ⟨entry, entryMem, rfl, named⟩
    rcases exists_entity_of_mem entryMem with ⟨place, entity, itemMem, isKind, isDeclared⟩
    rcases List.mem_flatMap.1 (List.fst_mem_of_mem_zipIdx itemMem) with ⟨file, -, entityMem⟩
    have namedEntity : entity.declaration ≠ none ∨ entity.kind = .constructor := by
      rw [isDeclared, isKind] at named
      simpa using named
    refine ⟨place, entity, itemMem, ?_,
      Place.kind_of_named (Place.mem_entities.1 entityMem).2 namedEntity⟩
    rw [kindOf?_of_mem distinct entryMem, isKind]

/-- A class with a constructor and two accessors; a new instance is assigned to its property. -/
def accessors : SourceFile where
  id := 0
  path := ⟨"access.ts"⟩
  text := "class A \x7b constructor() \x7b\x7d get p() \x7b\x7d set p(v) \x7b\x7d \x7d " ++
    "[a.p] = [new A()];"
  root :=
    .node ⟨⟨"program", true⟩, 0, 70, none⟩
      [.node ⟨⟨"class_declaration", true⟩, 0, 51, none⟩
        [.node ⟨⟨"class_body", true⟩, 8, 51, some "body"⟩
          [.node ⟨⟨"method_definition", true⟩, 10, 26, none⟩
            [.node ⟨⟨"property_identifier", true⟩, 10, 21, some "name"⟩ []],
            .node ⟨⟨"method_definition", true⟩, 27, 37, none⟩
              [.node ⟨⟨"get", false⟩, 27, 30, none⟩ [],
                .node ⟨⟨"property_identifier", true⟩, 31, 32, some "name"⟩ []],
            .node ⟨⟨"method_definition", true⟩, 38, 49, none⟩
              [.node ⟨⟨"set", false⟩, 38, 41, none⟩ [],
                .node ⟨⟨"property_identifier", true⟩, 42, 43, some "name"⟩ []]]],
        .node ⟨⟨"expression_statement", true⟩, 52, 70, none⟩
          [.node ⟨⟨"assignment_expression", true⟩, 52, 69, none⟩
            [.node ⟨⟨"array_pattern", true⟩, 52, 57, some "left"⟩
              [.node ⟨⟨"member_expression", true⟩, 53, 56, none⟩
                [.node ⟨⟨"identifier", true⟩, 53, 54, some "object"⟩ [],
                  .node ⟨⟨"property_identifier", true⟩, 55, 56, some "property"⟩ []]],
              .node ⟨⟨"array", true⟩, 60, 69, some "right"⟩
                [.node ⟨⟨"new_expression", true⟩, 61, 68, none⟩
                  [.node ⟨⟨"identifier", true⟩, 65, 66, some "constructor"⟩ []]]]]]

/-- The file is entered twice, and its calls are looked for in between. -/
def accessSteps : List Step :=
  [.classify accessors, .resolve (fun _ => []) accessors, .classify accessors]

/-- A construct without a unit, the class and its two accessors. -/
def accessKeys : List NodeKey :=
  [⟨0, 53, 54, "identifier", true⟩, ⟨0, 0, 51, "class_declaration", true⟩,
    ⟨0, 27, 37, "method_definition", true⟩, ⟨0, 38, 49, "method_definition", true⟩]

theorem edge?_targets_accessors :
    let run := ofSteps accessSteps
    let construction := accessors.rootNode.preorder.get ⟨18, by decide⟩
    let access := accessors.rootNode.preorder.get ⟨14, by decide⟩
    construction.kindName = "new_expression" ∧
    run.edge? (fun _ => accessKeys) construction = some 8 ∧
    run.kindOf? 8 = some .constructor ∧
    access.kindName = "member_expression" ∧
    run.edge? (fun _ => accessKeys) access = some 10 ∧
    run.kindOf? 10 = some .setter ∧ access.IsAssigned := by
  intro run construction access
  have isConstruction : construction.kindName = "new_expression" := by decide
  have constructs : run.edge? (fun _ => accessKeys) construction = some 8 := by decide
  have isAccess : access.kindName = "member_expression" := by decide
  have accesses : run.edge? (fun _ => accessKeys) access = some 10 := by decide
  have isSetter : run.kindOf? 10 = some .setter := by decide
  have isConstructor := ((edge?_targets accessSteps (fun _ => accessKeys) construction 8).1
    isConstruction).2 constructs
  have invoked := ((edge?_targets accessSteps (fun _ => accessKeys) access 10).2.1 isAccess).1
    accesses
  refine ⟨isConstruction, constructs, isConstructor, isAccess, accesses, isSetter, ?_⟩
  rcases invoked with ⟨_, accessor, -, ⟨assigned, -⟩ | ⟨-, rfl⟩, _, _, _, -, -, isGetter, -⟩
  · exact assigned
  · simp [run, isSetter] at isGetter

end Run
end CallHierarchy
