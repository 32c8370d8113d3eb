import CallHierarchy.Proofs.Run.Entries

/-!
# What entering a file adds to a run

Entering a file adds one unit for its root and one for every entity below the
root, numbered in source order after the units so far, and leaves these alone.
The units directly inside a unit are those of the entities whose nearest
enclosing unit it is.
-/

namespace CallHierarchy

/-- The field under which a declaration has its name. -/
def Node.nameField (declaration : Node) : String :=
  if declaration.kindName = "pair" then "key"
  else if declaration.kindName = "field_definition" then "property"
  else "name"

namespace Entity

/-- An entity is named by the text that its declaration has under the field for names. -/
theorem name_eq (entity : Entity) :
    entity.name = entity.declaration.bind fun declaration =>
      (declaration.childAt? declaration.nameField).map Node.text := by
  have isField : ∀ declaration : Node,
      declaration.declaredName? = declaration.childAt? declaration.nameField := by
    intro declaration
    unfold Node.declaredName? Node.nameField
    split <;> simp_all
  rw [name, Option.map_bind]
  simp only [Function.comp_def, isField]

theorem node_of_ofConstruct? {node : Node} {entity : Entity}
    (isEntity : ofConstruct? node = some entity) : entity.node = node := by
  unfold ofConstruct? at isEntity
  split at isEntity <;> grind

theorem node_of_ofNode? {node : Node} {entity : Entity} (isEntity : ofNode? node = some entity) :
    entity.node = node := by
  unfold ofNode? at isEntity
  split at isEntity
  · exact node_of_ofConstruct? isEntity
  · simp at isEntity

end Entity

namespace Place

theorem node_of_entity? {place : Place} {entity : Entity}
    (isEntity : place.entity? = some entity) : entity.node = place.node := by
  unfold entity? at isEntity
  split at isEntity
  · rw [Option.some.injEq] at isEntity
    rw [← isEntity]
  · exact Entity.node_of_ofNode? isEntity

end Place

namespace SourceFile

theorem isRoot_iff_of_mem_entities {file : SourceFile} {place : Place} {entity : Entity}
    (entityMem : (place, entity) ∈ file.entities) :
    entity.isRoot = true ↔ place.address = [] := by
  rcases Place.mem_entities.1 entityMem with ⟨placeMem, isEntity⟩
  have lengths := length_around_of_mem_places placeMem
  rw [Entity.isRoot, Place.node_of_entity? isEntity, List.isEmpty_iff_length_eq_zero, lengths,
    List.length_eq_zero_iff]

end SourceFile

theorem Outline.file_of_mem_numberedPlaces {first : UnitId} {file : SourceFile}
    {item : Entity × List UnitId} (itemMem : item ∈ numberedPlaces first file.places) :
    item.1.node.file = file := by
  rcases List.mem_map.1 itemMem with ⟨⟨⟨place, entity⟩, id⟩, entryMem, rfl⟩
  rcases Place.mem_entities.1 (List.fst_mem_of_mem_zipIdx entryMem) with ⟨placeMem, isEntity⟩
  rw [Place.node_of_entity? isEntity]
  exact SourceFile.file_of_mem_places placeMem

namespace Run

theorem zipIdx_map_zipIdx {α β : Type} (items : List α) (first : Nat) (image : α × Nat → β) :
    ((items.zipIdx first).map image).zipIdx first =
      (items.zipIdx first).map fun item => (image item, item.2) := by
  induction items generalizing first with
  | nil => rfl
  | cons item rest ih => simp [List.zipIdx_cons, ih]

/--
What is read off the entries after entering a file: what each entity of the
file, its number and the numbers directly inside it decide, in reverse order.
-/
theorem map_entries_classify {α : Type} (view : Entry → α)
    (expected : Entity → List UnitId → UnitId → α)
    (agree : ∀ (run : Run) (entity : Entity) (children : List UnitId),
      view (run.entryOf entity children) = expected entity children run.nextId)
    (run : Run) (file : SourceFile) :
    (run.classify file).entries.map view =
      ((file.entities.zipIdx run.nextId).map fun entry => expected entry.1.2
        (Place.numbersInside run.nextId file.entities (some entry.1.1.address)) entry.2).reverse ++
      run.entries.map view := by
  rw [entries_classify, map_entries_enter view expected agree, Outline.numberedPlaces,
    zipIdx_map_zipIdx, List.map_map]
  rfl

theorem nextId_classify (run : Run) (file : SourceFile) :
    (run.classify file).nextId = run.nextId + file.entities.length := by
  have lengths := congrArg List.length
    (map_entries_classify (fun _ => ()) (fun _ _ _ => ()) (fun _ _ _ => rfl) run file)
  simp only [List.length_map, List.length_append, List.length_reverse, List.length_zipIdx]
    at lengths
  rw [nextId, size, lengths, Nat.add_comm file.entities.length, Nat.add_right_comm]
  rfl

/-- The entities of several files are numbered on from file to file. -/
theorem map_entries_foldl_classify {α : Type} (view : Entry → α) (expected : Entity → UnitId → α)
    (agree : ∀ (run : Run) (entity : Entity) (children : List UnitId),
      view (run.entryOf entity children) = expected entity run.nextId)
    (run : Run) (files : List SourceFile) :
    (files.foldl classify run).entries.map view =
      (((files.flatMap SourceFile.entities).zipIdx run.nextId).map fun entry =>
        expected entry.1.2 entry.2).reverse ++ run.entries.map view := by
  induction files generalizing run with
  | nil => rfl
  | cons file rest ih =>
      rw [List.foldl_cons, ih, nextId_classify, List.flatMap_cons, List.zipIdx_append,
        map_entries_classify view (fun entity _ id => expected entity id) agree]
      simp

theorem map_entries_foldl_classify_empty {α : Type} (view : Entry → α)
    (expected : Entity → UnitId → α)
    (agree : ∀ (run : Run) (entity : Entity) (children : List UnitId),
      view (run.entryOf entity children) = expected entity run.nextId)
    (files : List SourceFile) :
    (files.foldl classify empty).entries.map view =
      (((files.flatMap SourceFile.entities).zipIdx 1).map fun entry =>
        expected entry.1.2 entry.2).reverse := by
  rw [map_entries_foldl_classify view expected agree]
  exact List.append_nil _

theorem nodup_ids_foldl_classify (files : List SourceFile) :
    ((files.foldl classify empty).entries.map (·.unit.id)).Nodup := by
  rw [map_entries_foldl_classify_empty (·.unit.id) (fun _ id => id) fun _ _ _ => rfl,
    List.nodup_reverse]
  have ids := List.zipIdx_map_snd 1 (files.flatMap SourceFile.entities)
  exact ids ▸ List.nodup_range' 1 Nat.one_pos

/--
Entering a file adds, after the units so far and in source order, one unit for
the root, whatever its kind, and one for every entity below it, each with the
kind and span of its node and the name that stands in the construct that names it.
The units directly inside a unit are those whose nearest enclosing unit it is, in
source order.
-/
theorem finish_classify (run : Run) (file : SourceFile) (paths : List Path) :
    ((run.classify file).finish paths).roots = (run.finish paths).roots ++ [run.nextId] ∧
    ((run.classify file).finish paths).units =
      (run.finish paths).units ++
        (file.entities.zipIdx run.nextId).map fun ((place, entity), id) =>
          { id := id
            kind := entity.kind
            name :=
              if place.address = [] then some file.path.text
              else entity.declaration.bind fun declaration =>
                (declaration.childAt? declaration.nameField).map Node.text
            children :=
              ((file.entities.zipIdx run.nextId).filter fun ((other, _), _) =>
                other.enclosing? == some place.address).map (·.2)
            calls := []
            span :=
              { file := file.id
                start := place.node.start
                stop := place.node.stop
                line := if place.address = [] then 1 else place.node.line } } := by
  constructor
  · rw [classify_eq]
    rfl
  · have units := map_entries_classify (·.unit) (fun entity children id => entity.unit id children)
      (fun _ _ _ => rfl) run file
    rw [units_finish, units_finish, Run.units, units, List.reverse_append, List.reverse_reverse]
    congr 1
    apply List.map_congr_left
    rintro ⟨⟨place, entity⟩, id⟩ entityMem
    have entityMem := List.fst_mem_of_mem_zipIdx entityMem
    rcases Place.mem_entities.1 entityMem with ⟨placeMem, isEntity⟩
    have root := SourceFile.isRoot_iff_of_mem_entities entityMem
    simp only [Entity.unit, Place.numbersInside, root, Place.node_of_entity? isEntity,
      SourceFile.file_of_mem_places placeMem, Entity.name_eq]

end Run
end CallHierarchy
