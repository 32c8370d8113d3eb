import CallHierarchy.Proofs.Run.Attribution
import CallHierarchy.Proofs.Run.Invocation

/-!
# Which constructor belongs to a class

A constructor is linked to its class when it is entered: the class is looked up by
the key of its node, among all units so far. Since a class is entered before all
that stands inside it, and its key is new in its file, the look-up finds the class
that the constructor is written in. A class thus ends with the last constructor in
its own body, whatever was entered before the file and whatever stands deeper in
the body.
-/

namespace CallHierarchy

namespace Entity

variable {node : Node} {entity : Entity}

theorem isNamed_of_ofNode? (isEntity : ofNode? node = some entity) : node.isNamed := by
  unfold ofNode? at isEntity
  split at isEntity
  · assumption
  · cases isEntity

theorem kind_eq_constructor_iff (isEntity : ofNode? node = some entity) :
    entity.kind = .constructor ↔ node.isConstructor := by
  have isMethod : node.isConstructor → node.isMethodLike := by
    intro isConstructor
    simp only [Node.isConstructor, Bool.and_eq_true] at isConstructor
    exact isConstructor.1.1
  unfold ofNode? at isEntity
  split at isEntity
  · unfold ofConstruct? at isEntity
    split at isEntity <;> grind [methodKind, Node.isMethodLike]
  · simp at isEntity

theorem exists_ofNode?_of_isConstructor (isNamed : node.isNamed)
    (isConstructor : node.isConstructor) : ∃ entity, ofNode? node = some entity := by
  simp only [Node.isConstructor, Node.isMethodLike, Bool.and_eq_true, List.contains_iff_mem,
    List.mem_cons, List.not_mem_nil, or_false] at isConstructor
  rcases isConstructor with ⟨⟨isKind, isMember⟩, -⟩
  rcases isKind with isKind | isKind | isKind <;>
    simp [ofNode?, ofConstruct?, isNamed, isKind, isMember]

theorem kindName_of_class (isEntity : ofNode? node = some entity)
    (isClass : entity.kind = .classDefinition) :
    node.isNamed ∧
      node.kindName ∈ ["class_declaration", "abstract_class_declaration", "class"] := by
  have methods := methodKind_mem node
  unfold ofNode? at isEntity
  split at isEntity
  · unfold ofConstruct? at isEntity
    split at isEntity <;> grind
  · simp at isEntity

/-- Whether a node defines a class is decided by its kind. -/
theorem exists_ofNode?_of_kind_eq {other : Node} (isEntity : ofNode? node = some entity)
    (isClass : entity.kind = .classDefinition) (sameKind : other.kind = node.kind) :
    ∃ otherEntity, ofNode? other = some otherEntity := by
  rcases kindName_of_class isEntity isClass with ⟨isNamed, isKind⟩
  have otherIsNamed : other.isNamed := (congrArg Kind.named sameKind).trans isNamed
  have sameName : other.kindName = node.kindName := congrArg Kind.name sameKind
  rw [← sameName, List.mem_cons, List.mem_cons, List.mem_singleton] at isKind
  rcases isKind with isKind | isKind | isKind <;>
    simp [ofNode?, ofConstruct?, otherIsNamed, isKind]

end Entity

namespace Place

/-- Whether a place is a constructor that is written directly in the body of a class. -/
def isConstructorOf (member owner : Place) : Bool :=
  member.node.isNamed && member.node.isConstructor &&
    (member.parent?.bind parent?).any (·.address == owner.address)

end Place

namespace SourceFile

variable {file : SourceFile} {place other member owner : Place}

theorem mem_children_of_parent? (placeMem : place ∈ file.places)
    (isParent : place.parent? = some other) : other ∈ file.places ∧ place ∈ other.children := by
  rcases Place.eq_or_exists_parent placeMem with rfl | ⟨outer, outerMem, inside⟩
  · cases isParent
  · rw [Place.parent?, Place.ancestors_of_mem_children inside, List.head?_cons,
      Option.some.injEq] at isParent
    exact isParent ▸ ⟨outerMem, inside⟩

theorem eq_of_address_eq (placeMem : place ∈ file.places) (otherMem : other ∈ file.places)
    (sameAddress : place.address = other.address) : place = other :=
  List.inj_on_of_nodup_map file.nodup_places placeMem otherMem sameAddress

/-- The constructors of a class stand two steps below it. -/
theorem isConstructorOf_iff (memberMem : member ∈ file.places) (ownerMem : owner ∈ file.places) :
    member.isConstructorOf owner ↔ member.node.isNamed ∧ member.node.isConstructor ∧
      ∃ body ∈ owner.children, member ∈ body.children := by
  simp only [Place.isConstructorOf, Bool.and_eq_true, Option.any_eq_true,
    Option.bind_eq_some_iff, beq_iff_eq, and_assoc]
  refine and_congr_right fun _ => and_congr_right fun _ => ?_
  constructor
  · rintro ⟨around, ⟨body, isBody, isAround⟩, sameAddress⟩
    rcases mem_children_of_parent? memberMem isBody with ⟨bodyMem, inBody⟩
    rcases mem_children_of_parent? bodyMem isAround with ⟨aroundMem, inAround⟩
    have same := eq_of_address_eq aroundMem ownerMem sameAddress
    exact ⟨body, same ▸ inAround, inBody⟩
  · rintro ⟨body, inOwner, inBody⟩
    refine ⟨owner, ⟨body, ?_, ?_⟩, rfl⟩
    · rw [Place.parent?, Place.ancestors_of_mem_children inBody, List.head?_cons]
    · rw [Place.parent?, Place.ancestors_of_mem_children inOwner, List.head?_cons]

theorem pairwise_entities (file : SourceFile) :
    file.entities.Pairwise fun item other => item.1.Precedes other.1 := by
  refine (Place.pairwise_subtree file.rootPlace).filterMap _ ?_
  intro place other precedes item isItem otherItem isOther
  rcases Option.map_eq_some_iff.1 isItem with ⟨entity, -, rfl⟩
  rcases Option.map_eq_some_iff.1 isOther with ⟨otherEntity, -, rfl⟩
  exact precedes

/-- What stands around an entity is entered before it. -/
theorem mem_before_of_precedes {before after : List (Place × Entity)} {item other : Place × Entity}
    (split : file.entities = before ++ item :: after) (otherMem : other ∈ file.entities)
    (precedes : other.1.Precedes item.1) : other ∈ before := by
  have ordered := file.pairwise_entities
  rw [split] at otherMem ordered
  rcases List.mem_append.1 otherMem with inBefore | otherMem
  · exact inBefore
  · rcases List.mem_cons.1 otherMem with rfl | inAfter
    · exact absurd precedes precedes.asymm
    · have later := (List.pairwise_cons.1 (List.pairwise_append.1 ordered).2.1).1 other inAfter
      exact absurd precedes later.asymm

/-- A construct that has the key of a class is the class. -/
theorem eq_of_class_key {ownerEntity : Entity} (distinct : (file.entities.map (·.2.node.key)).Nodup)
    (ownerMem : (owner, ownerEntity) ∈ file.entities)
    (isClass : ownerEntity.kind = .classDefinition) (otherMem : other ∈ file.places)
    (sameKey : other.node.key = ownerEntity.node.key) : other = owner := by
  rcases Place.mem_entities.1 ownerMem with ⟨-, isOwner⟩
  have isEntity : ∃ entity, other.entity? = some entity := by
    rcases Place.entity?_cases isOwner with rfl | ofNode
    · cases isClass
    rw [Place.node_of_entity? isOwner] at sameKey
    unfold Place.entity?
    split
    · exact ⟨_, rfl⟩
    · exact Entity.exists_ofNode?_of_kind_eq ofNode isClass (congrArg NodeKey.kind sameKey)
  rcases isEntity with ⟨entity, isEntity⟩
  have entityMem := Place.mem_entities.2 ⟨otherMem, isEntity⟩
  rw [← Place.node_of_entity? isEntity] at sameKey
  exact (Prod.mk.inj (List.inj_on_of_nodup_map distinct entityMem ownerMem sameKey)).1

/-- What is linked to a class is a constructor, two steps below what it constructs. -/
theorem exists_body_of_constructedClass? {entity : Entity} {constructed : Node}
    (memberMem : (member, entity) ∈ file.entities)
    (isConstructed : entity.constructedClass? = some constructed) :
    member.node.isNamed ∧ member.node.isConstructor ∧
      ∃ around ∈ file.places, around.node = constructed ∧
        ∃ body ∈ around.children, member ∈ body.children := by
  rcases Place.mem_entities.1 memberMem with ⟨memberPlace, isEntity⟩
  unfold Entity.constructedClass? at isConstructed
  split at isConstructed
  next isConstructor =>
    rcases Place.entity?_cases isEntity with rfl | ofNode
    · cases isConstructor
    rw [Place.node_of_entity? isEntity] at isConstructed
    rcases Option.bind_eq_some_iff.1 isConstructed with ⟨bodyNode, isBody, isAround⟩
    rcases exists_parent_of_mem_places memberPlace isBody with ⟨body, bodyMem, rfl, inBody⟩
    rcases exists_parent_of_mem_places bodyMem isAround with ⟨around, aroundMem, isNode, inAround⟩
    exact ⟨Entity.isNamed_of_ofNode? ofNode,
      (Entity.kind_eq_constructor_iff ofNode).1 isConstructor,
      around, aroundMem, isNode, body, inAround, inBody⟩
  · cases isConstructed

theorem constructedClass?_of_mem_children {entity : Entity} {body : Place}
    (isEntity : member.entity? = some entity) (isConstructor : member.node.isConstructor)
    (inBody : member ∈ body.children) (inOwner : body ∈ owner.children) :
    entity.constructedClass? = some owner.node := by
  have ofNode : Entity.ofNode? member.node = some entity := by
    rcases Place.mem_children.1 inBody with ⟨position, tree, -, rfl⟩
    exact isEntity
  rw [Entity.constructedClass?, if_pos ((Entity.kind_eq_constructor_iff ofNode).2 isConstructor),
    Place.node_of_entity? isEntity, Place.parent?_of_mem_children inBody, Option.bind_some,
    Place.parent?_of_mem_children inOwner]

end SourceFile

/-- Of the values marked by a condition, the last one. -/
theorem lastFor?_true {ι β : Type} (items : List ι) (keep : ι → Bool) (value : ι → β) :
    lastFor? (items.map fun item => (keep item, value item)) true =
      (items.filter keep).getLast?.map value := by
  rw [lastFor?, ← List.map_reverse, List.find?_map, List.getLast?_eq_head?_reverse,
    ← List.filter_reverse, List.head?_filter, Option.map_map]
  simp only [Function.comp_def, beq_true]

namespace Run

theorem kindOf?_eq_lastFor? (run : Run) (id : UnitId) :
    run.kindOf? id =
      lastFor? (run.entries.map fun entry => (entry.unit.id, entry.unit.kind)).reverse id := by
  simp only [kindOf?, lastFor?, List.reverse_reverse, List.find?_map, Option.map_map]
  rfl

/-- What is entered for an entity of a file: the entity and the numbers directly inside it. -/
def entering (run : Run) (file : SourceFile) (item : Place × Entity) : Entity × List UnitId :=
  (item.2, Place.numbersInside run.nextId file.entities (some item.1.address))

theorem entries_classify_eq (run : Run) (file : SourceFile) :
    (run.classify file).entries = (run.enter (file.entities.map (run.entering file))).entries := by
  rw [entries_classify, Outline.numberedPlaces, ← List.zipIdx_map_fst run.nextId file.entities,
    List.map_map]
  rfl

section

variable (run : Run) (file : SourceFile) (items : List (Place × Entity))

theorem map_entries_enter_entering {α : Type} (view : Entry → α) (expected : Entity → UnitId → α)
    (agree : ∀ (run : Run) (entity : Entity) (children : List UnitId),
      view (run.entryOf entity children) = expected entity run.nextId) :
    (run.enter (items.map (run.entering file))).entries.map view =
      ((items.zipIdx run.nextId).map fun item => expected item.1.2 item.2).reverse ++
        run.entries.map view := by
  apply map_entries_enter_of_split (run.entering file) view (fun item => expected item.2)
  intro before item after _
  rw [agree, nextId_enter, List.length_map]
  rfl

theorem unitOfNode?_enter (key : NodeKey) :
    (run.enter (items.map (run.entering file))).unitOfNode? key =
      (lastFor? ((items.zipIdx run.nextId).map fun item => (item.1.2.node.key, item.2)) key).or
        (run.unitOfNode? key) := by
  rw [unitOfNode?_eq_lastFor?, unitOfNode?_eq_lastFor?, ← lastFor?_append,
    map_entries_enter_entering run file items _ (fun entity id => (entity.node.key, id))
      (fun _ _ _ => rfl), List.reverse_append, List.reverse_reverse]

theorem kindOf?_enter (id : UnitId) :
    (run.enter (items.map (run.entering file))).kindOf? id =
      (lastFor? ((items.zipIdx run.nextId).map fun item => (item.2, item.1.2.kind)) id).or
        (run.kindOf? id) := by
  rw [kindOf?_eq_lastFor?, kindOf?_eq_lastFor?, ← lastFor?_append,
    map_entries_enter_entering run file items _ (fun entity id => (id, entity.kind))
      (fun _ _ _ => rfl), List.reverse_append, List.reverse_reverse]

variable {run items} {item : Place × Entity} {id : UnitId}

/-- An entity that has been entered is found by its node, and its kind by its number. -/
theorem unitOfNode?_enter_of_mem (distinct : (items.map (·.2.node.key)).Nodup)
    (itemMem : (item, id) ∈ items.zipIdx run.nextId) :
    (run.enter (items.map (run.entering file))).unitOfNode? item.2.node.key = some id := by
  have isLast := lastFor?_zipIdx (·.2.node.key) distinct.of_map itemMem
    fun other otherMem sameKey => List.inj_on_of_nodup_map distinct otherMem
      (List.fst_mem_of_mem_zipIdx itemMem) sameKey
  rw [unitOfNode?_enter, isLast, Option.some_or]

theorem kindOf?_enter_of_mem (itemMem : (item, id) ∈ items.zipIdx run.nextId) :
    (run.enter (items.map (run.entering file))).kindOf? id = some item.2.kind := by
  have distinct : (((items.zipIdx run.nextId).map fun item => (item.2, item.1.2.kind)).map
      (·.1)).Nodup := by
    rw [List.map_map]
    have ids := List.zipIdx_map_snd run.nextId items
    exact ids ▸ List.nodup_range' 1 Nat.one_pos
  have isLast := lastFor?_of_mem distinct (List.mem_map.2 ⟨_, itemMem, rfl⟩)
  rw [kindOf?_enter, isLast, Option.some_or]

end

section

variable {run : Run} {file : SourceFile} {item : Place × Entity} {id : UnitId}

theorem unitOfNode?_classify_of_mem (distinct : (file.entities.map (·.2.node.key)).Nodup)
    (itemMem : (item, id) ∈ file.entities.zipIdx run.nextId) :
    (run.classify file).unitOfNode? item.1.node.key = some id := by
  have isEntity := (Place.mem_entities.1 (List.fst_mem_of_mem_zipIdx itemMem)).2
  rw [← Place.node_of_entity? isEntity, ← unitOfNode?_enter_of_mem file distinct itemMem,
    unitOfNode?, entries_classify_eq]
  rfl

theorem kindOf?_classify_of_mem (itemMem : (item, id) ∈ file.entities.zipIdx run.nextId) :
    (run.classify file).kindOf? id = some item.2.kind := by
  rw [← kindOf?_enter_of_mem file itemMem, kindOf?, entries_classify_eq]
  rfl

end

theorem Sound.lt_nextId {run : Run} {files : List SourceFile} (sound : run.Sound files)
    {entry : Entry} (entryMem : entry ∈ run.entries) : entry.unit.id < run.nextId := by
  have inRange := sound.mem_range_iff.2 ⟨entry.unit, mem_units_of_mem entryMem, rfl⟩
  rw [List.mem_range'_1, length_units, Nat.add_comm] at inRange
  exact inRange.2

theorem item_eq_of_mem_zipIdx {ι : Type} {items : List ι} {first number : Nat} {item other : ι}
    (itemMem : (item, number) ∈ items.zipIdx first)
    (otherMem : (other, number) ∈ items.zipIdx first) : item = other := by
  have numbers := List.zipIdx_map_snd first items
  have distinct : ((items.zipIdx first).map (·.2)).Nodup :=
    numbers ▸ List.nodup_range' 1 Nat.one_pos
  exact (Prod.mk.inj (List.inj_on_of_nodup_map distinct itemMem otherMem rfl)).1

section

variable {run : Run} {file : SourceFile} {files : List SourceFile} {owner member : Place}
  {ownerEntity entity : Entity} {id : UnitId} {before after : List (Place × Entity)}
  (sound : run.Sound files)
  (ownerMem : ((owner, ownerEntity), id) ∈ file.entities.zipIdx run.nextId)

include sound ownerMem

/-- Among the first entities of a file, the number of one of its entities belongs to its key. -/
theorem key_of_unitOfNode?_enter (split : file.entities = before ++ after) {key : NodeKey}
    (isUnit : (run.enter (before.map (run.entering file))).unitOfNode? key = some id) :
    ownerEntity.node.key = key := by
  rw [unitOfNode?_enter, Option.or_eq_some_iff] at isUnit
  rcases isUnit with isNew | ⟨-, isOld⟩
  · rcases List.mem_map.1 (mem_of_lastFor? isNew) with
      ⟨⟨item, number⟩, itemMem, isPair⟩
    rcases Prod.mk.inj isPair with ⟨rfl, rfl⟩
    have inFile : (item, number) ∈ file.entities.zipIdx run.nextId := by
      rw [split, List.zipIdx_append]
      exact List.mem_append_left _ itemMem
    rw [← item_eq_of_mem_zipIdx ownerMem inFile]
  · rcases Option.map_eq_some_iff.1 isOld with ⟨entry, isEntry, rfl⟩
    have older := sound.lt_nextId (List.mem_of_find?_eq_some isEntry)
    exact absurd older (Nat.not_lt.2 (List.le_snd_of_mem_zipIdx ownerMem))

variable (distinct : (file.entities.map (·.2.node.key)).Nodup)
  (isClass : ownerEntity.kind = .classDefinition)

include distinct isClass

/-- When a constructor is entered, it is linked to the class in whose body it stands. -/
theorem constructedUnit?_eq_some_iff (split : file.entities = before ++ (member, entity) :: after) :
    (run.enter (before.map (run.entering file))).constructedUnit? entity = some id ↔
      member.isConstructorOf owner := by
  have memberMem : (member, entity) ∈ file.entities := by simp [split]
  have ownerInFile : (owner, ownerEntity) ∈ file.entities := List.fst_mem_of_mem_zipIdx ownerMem
  rcases Place.mem_entities.1 memberMem with ⟨memberPlace, isEntity⟩
  rcases Place.mem_entities.1 ownerInFile with ⟨ownerPlace, isOwner⟩
  rw [SourceFile.isConstructorOf_iff memberPlace ownerPlace]
  constructor
  · intro isLinked
    rcases Option.filter_eq_some_iff.1 isLinked with ⟨found, -⟩
    rcases Option.bind_eq_some_iff.1 found with ⟨constructed, isConstructed, isUnit⟩
    rcases SourceFile.exists_body_of_constructedClass? memberMem isConstructed with
      ⟨isNamed, isConstructor, around, aroundMem, rfl, body, inAround, inBody⟩
    have sameKey := (key_of_unitOfNode?_enter sound ownerMem split isUnit).symm
    have same := SourceFile.eq_of_class_key distinct ownerInFile isClass aroundMem sameKey
    exact ⟨isNamed, isConstructor, body, same ▸ inAround, inBody⟩
  · rintro ⟨-, isConstructor, body, inOwner, inBody⟩
    have isConstructed := SourceFile.constructedClass?_of_mem_children isEntity isConstructor
      inBody inOwner
    have precedes : owner.Precedes member :=
      Place.precedes_of_mem_children inOwner (Place.suffix_of_mem_children inBody)
    have ownerBefore : ((owner, ownerEntity), id) ∈ before.zipIdx run.nextId := by
      have inBefore := SourceFile.mem_before_of_precedes split ownerInFile precedes
      rw [← List.zipIdx_map_fst run.nextId before] at inBefore
      rcases List.mem_map.1 inBefore with ⟨⟨item, number⟩, itemMem, rfl⟩
      have inFile : ((owner, ownerEntity), number) ∈ file.entities.zipIdx run.nextId := by
        rw [split, List.zipIdx_append]
        exact List.mem_append_left _ itemMem
      rwa [← eq_of_mem_zipIdx distinct.of_map ownerMem inFile]
    have distinctBefore : (before.map (·.2.node.key)).Nodup := by
      rw [split, List.map_append] at distinct
      exact (List.nodup_append.1 distinct).1
    have isUnit := unitOfNode?_enter_of_mem file distinctBefore ownerBefore
    have isKind := kindOf?_enter_of_mem file ownerBefore
    rw [Place.node_of_entity? isOwner] at isUnit
    simp only [constructedUnit?, isConstructed, Option.bind_some, isUnit]
    rw [Option.filter_some, isKind, isClass]
    rfl

/-- After entering a file, the constructors in a class's body are linked to it, and no others. -/
theorem map_links_classify (linked : run.Linked) :
    (run.classify file).entries.map (fun entry => (entry.constructs == some id, entry.unit.id)) =
      ((file.entities.zipIdx run.nextId).map fun item =>
        (item.1.1.isConstructorOf owner, item.2)).reverse ++
      run.entries.map fun entry => (false, entry.unit.id) := by
  rw [entries_classify_eq, map_entries_enter_of_split (run.entering file) _
    (fun item number => (item.1.isConstructorOf owner, number))]
  · congr 1
    apply List.map_congr_left
    intro entry entryMem
    have notLinked : entry.constructs ≠ some id := by
      intro isLinked
      rcases linked entry entryMem id isLinked with ⟨-, other, otherMem, rfl, -⟩
      exact absurd (sound.lt_nextId otherMem) (Nat.not_lt.2 (List.le_snd_of_mem_zipIdx ownerMem))
    rw [beq_false_of_ne notLinked]
  · intro before item after split
    have sameLink := Bool.eq_iff_iff.2 (beq_iff_eq.trans
      (constructedUnit?_eq_some_iff sound ownerMem distinct isClass split))
    have sameId := run.nextId_enter (before.map (run.entering file))
    rw [List.length_map] at sameId
    exact congrArg₂ Prod.mk sameLink sameId

theorem constructorOf?_classify (linked : run.Linked) :
    (run.classify file).constructorOf? id =
      ((file.entities.zipIdx run.nextId).filter (·.1.1.isConstructorOf owner)).getLast?.map
        (·.2) := by
  have isLast : (run.classify file).constructorOf? id =
      lastFor? ((run.classify file).entries.map fun entry =>
        (entry.constructs == some id, entry.unit.id)).reverse true := by
    simp only [constructorOf?, lastFor?, List.reverse_reverse, List.find?_map, Option.map_map,
      Function.comp_def, beq_true]
  have older : lastFor? (run.entries.map fun entry => (false, entry.unit.id)).reverse true =
      none := by
    apply lastFor?_eq_none
    simp
  rw [isLast, map_links_classify sound ownerMem distinct isClass linked, List.reverse_append,
    List.reverse_reverse, lastFor?_append, older, Option.or_none, lastFor?_true]

theorem exists_constructor_of_linked (linked : run.Linked) {entry : Entry}
    (entryMem : entry ∈ (run.classify file).entries) (isLinked : entry.constructs = some id) :
    ∃ item, (item, entry.unit.id) ∈ file.entities.zipIdx run.nextId ∧
      item.1.isConstructorOf owner := by
  have viewMem : (true, entry.unit.id) ∈ (run.classify file).entries.map fun entry =>
      (entry.constructs == some id, entry.unit.id) :=
    List.mem_map.2 ⟨entry, entryMem, by rw [isLinked, beq_self_eq_true]⟩
  rw [map_links_classify sound ownerMem distinct isClass linked, List.mem_append,
    List.mem_reverse] at viewMem
  rcases viewMem with isNew | isOld
  · rcases List.mem_map.1 isNew with ⟨⟨item, number⟩, itemMem, isPair⟩
    rcases Prod.mk.inj isPair with ⟨isConstructor, rfl⟩
    exact ⟨item, itemMem, isConstructor⟩
  · rcases List.mem_map.1 isOld with ⟨_, -, isPair⟩
    cases (Prod.mk.inj isPair).1

end

theorem definesUnit_of_isConstructorOf {member owner : Place}
    (isConstructor : member.isConstructorOf owner) : member.definesUnit := by
  simp only [Place.isConstructorOf, Bool.and_eq_true] at isConstructor
  rcases Entity.exists_ofNode?_of_isConstructor isConstructor.1.1 isConstructor.1.2 with
    ⟨entity, ofNode⟩
  unfold Place.definesUnit Place.entity?
  split
  · rfl
  · rw [ofNode]
    rfl

/-- The constructors of a class are entities of the file. -/
theorem filter_isConstructorOf (file : SourceFile) (first : UnitId) (owner : Place) :
    ((file.entities.zipIdx first).filter (·.1.1.isConstructorOf owner)).map (·.1.1) =
      file.places.filter (·.isConstructorOf owner) := by
  have entered : (file.entities.zipIdx first).map (·.1.1) =
      file.places.filter Place.definesUnit := by
    rw [← Place.map_fst_entities, ← List.zipIdx_map_fst first (Place.entities file.places),
      List.map_map]
    rfl
  have all : file.places.filter (·.isConstructorOf owner) =
      (file.places.filter Place.definesUnit).filter (·.isConstructorOf owner) := by
    rw [List.filter_filter]
    apply List.filter_congr
    intro member _
    have defines := @definesUnit_of_isConstructorOf member owner
    grind
  rw [all, ← entered, List.filter_map]
  rfl

/--
After a file has been entered, whatever was done before, the constructor of a
class is the last one in source order that stands in the body of the class, if
there is one. Nothing else in the run is linked to the class.
-/
theorem constructorOf?_last (steps : List Step) (file : SourceFile)
    (distinct : (file.entities.map (·.2.node.key)).Nodup) (owner : Place) (entity : Entity)
    (ownerMem : (owner, entity) ∈ file.entities) (isClass : entity.kind = .classDefinition) :
    let run := (ofSteps steps).classify file
    let constructors := file.places.filter (·.isConstructorOf owner)
    ∃ id, run.unitOfNode? owner.node.key = some id ∧ run.kindOf? id = some .classDefinition ∧
      run.constructorOf? id = constructors.getLast?.bind (run.unitOfNode? ·.node.key) ∧
      (∀ member ∈ constructors, (run.unitOfNode? member.node.key).isSome) ∧
      ∀ entry ∈ run.entries, entry.constructs = some id →
        ∃ member ∈ constructors, run.unitOfNode? member.node.key = some entry.unit.id := by
  intro run constructors
  have sound : (ofSteps steps).Sound (steps.filterMap Step.entered?) :=
    sound_empty.foldl_apply steps
  have linked : (ofSteps steps).Linked := linked_empty.foldl_apply steps
  let numbered := file.entities.zipIdx (ofSteps steps).nextId
  have isUnit : ∀ item id, (item, id) ∈ numbered →
      run.unitOfNode? item.1.node.key = some id := fun item id itemMem =>
    unitOfNode?_classify_of_mem distinct itemMem
  have members : (numbered.filter (·.1.1.isConstructorOf owner)).map (·.1.1) = constructors :=
    filter_isConstructorOf file _ owner
  have ownerNumbered := ownerMem
  rw [← List.zipIdx_map_fst (ofSteps steps).nextId file.entities] at ownerNumbered
  rcases List.mem_map.1 ownerNumbered with ⟨⟨item, id⟩, itemMem, isItem⟩
  cases isItem
  refine ⟨id, isUnit _ id itemMem, ?_, ?_, ?_, ?_⟩
  · rw [kindOf?_classify_of_mem itemMem, isClass]
  · rw [constructorOf?_classify sound itemMem distinct isClass linked, ← members,
      List.getLast?_map]
    cases isLast : (numbered.filter (·.1.1.isConstructorOf owner)).getLast? with
    | none => rfl
    | some last =>
        have lastMem := List.mem_of_mem_filter (List.mem_of_getLast? isLast)
        exact (isUnit last.1 last.2 lastMem).symm
  · intro member memberMem
    rw [← members] at memberMem
    rcases List.mem_map.1 memberMem with ⟨⟨item, number⟩, kept, rfl⟩
    rw [isUnit item number (List.mem_of_mem_filter kept)]
    rfl
  · intro entry entryMem isLinked
    rcases exists_constructor_of_linked sound itemMem distinct isClass linked entryMem isLinked with
      ⟨member, memberMem, isConstructor⟩
    refine ⟨member.1, ?_, isUnit member entry.unit.id memberMem⟩
    rw [← members]
    exact List.mem_map.2 ⟨_, List.mem_filter.2 ⟨memberMem, isConstructor⟩, rfl⟩

/-- A class with two constructors; in the second there are an object and a class with one each. -/
def nestedConstructors : SourceFile where
  id := 0
  path := ⟨"nested.ts"⟩
  text := "class A{constructor();constructor(){({constructor(){}});new class{constructor(){}}}}"
  root :=
    .node ⟨⟨"program", true⟩, 0, 84, none⟩
      [.node ⟨⟨"class_declaration", true⟩, 0, 84, none⟩
        [.node ⟨⟨"class_body", true⟩, 7, 84, some "body"⟩
          [.node ⟨⟨"method_signature", true⟩, 8, 21, none⟩
            [.node ⟨⟨"property_identifier", true⟩, 8, 19, some "name"⟩ []],
            .node ⟨⟨"method_definition", true⟩, 22, 83, none⟩
              [.node ⟨⟨"property_identifier", true⟩, 22, 33, some "name"⟩ [],
                .node ⟨⟨"object", true⟩, 37, 54, none⟩
                  [.node ⟨⟨"method_definition", true⟩, 38, 53, none⟩
                    [.node ⟨⟨"property_identifier", true⟩, 38, 49, some "name"⟩ []]],
                .node ⟨⟨"class", true⟩, 60, 82, none⟩
                  [.node ⟨⟨"class_body", true⟩, 65, 82, some "body"⟩
                    [.node ⟨⟨"method_definition", true⟩, 66, 81, none⟩
                      [.node ⟨⟨"property_identifier", true⟩, 66, 77, some "name"⟩ []]]]]]]]

theorem constructorOf?_last_nestedConstructors :
    let run := (ofSteps [.classify nestedConstructors]).classify nestedConstructors
    let owner := nestedConstructors.entities.get ⟨1, by decide +kernel⟩
    let constructors := nestedConstructors.places.filter (·.isConstructorOf owner.1)
    (nestedConstructors.entities.map (·.2.node.key)).Nodup ∧
    owner ∈ nestedConstructors.entities ∧ owner.2.kind = .classDefinition ∧
    run.unitOfNode? owner.1.node.key = some 9 ∧ constructors.length = 2 ∧
    run.constructorOf? 9 = some 11 ∧
    ∀ entry ∈ run.entries, entry.constructs = some 9 →
      ∃ member ∈ constructors, run.unitOfNode? member.node.key = some entry.unit.id := by
  intro run owner constructors
  have distinct : (nestedConstructors.entities.map (·.2.node.key)).Nodup := by decide +kernel
  have ownerMem : owner ∈ nestedConstructors.entities := List.get_mem _ _
  have isClass : owner.2.kind = .classDefinition := by decide +kernel
  have isUnit : run.unitOfNode? owner.1.node.key = some 9 := by decide +kernel
  rcases constructorOf?_last [.classify nestedConstructors] nestedConstructors distinct owner.1
    owner.2 ownerMem isClass with ⟨id, isOwner, -, isLast, -, noOther⟩
  obtain rfl : 9 = id := Option.some.inj (isUnit.symm.trans isOwner)
  exact ⟨distinct, ownerMem, isClass, isUnit, by decide +kernel,
    isLast.trans (by decide +kernel), noOther⟩

end Run

end CallHierarchy
