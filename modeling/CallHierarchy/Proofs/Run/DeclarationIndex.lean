import CallHierarchy.Proofs.Run.Attribution
import CallHierarchy.Proofs.Unit.Naming

/-!
# The index of declarations is exact

A run finds the unit of a declaration by the key of the construct that names the
unit, and a later entry for a key hides the earlier ones. Nothing is ever hidden
in a run over different files: two entities that are entered under one key would
be named at one place, and no place names two entities.
-/

namespace CallHierarchy

namespace SourceFile

/-- Whether a node of a file defines a unit or names one. -/
def Indexes (file : SourceFile) (node : Node) : Prop :=
  (∃ item ∈ file.entities, item.1.node = node) ∨
    ∃ item ∈ file.entities, item.2.declaration = some node

/-- What has to hold of a file for its entities to be told apart by what names them. -/
structure NamesApart (file : SourceFile) : Prop where
  /-- The nodes that define or name units have keys of their own. -/
  keys : ∀ place ∈ file.places, ∀ other ∈ file.places, file.Indexes place.node →
    file.Indexes other.node → place.node.key = other.node.key → place = other
  parentheses : file.HasSingleParenthesized

variable {file : SourceFile} {place other : Place} {entity otherEntity : Entity}

theorem NamesApart.of_nodup (distinct : (file.places.map (·.node.key)).Nodup)
    (parentheses : file.HasSingleParenthesized) : file.NamesApart where
  keys _ placeMem _ otherMem _ _ sameKey :=
    List.inj_on_of_nodup_map distinct placeMem otherMem sameKey
  parentheses := parentheses

theorem NamesApart.eq_of_node (apart : file.NamesApart)
    (entityMem : (place, entity) ∈ file.entities) (otherMem : (other, otherEntity) ∈ file.entities)
    (sameKey : place.node.key = other.node.key) : (place, entity) = (other, otherEntity) := by
  rcases Place.mem_entities.1 entityMem with ⟨placeMem, isEntity⟩
  rcases Place.mem_entities.1 otherMem with ⟨otherPlaceMem, isOtherEntity⟩
  have same := apart.keys place placeMem other otherPlaceMem (Or.inl ⟨_, entityMem, rfl⟩)
    (Or.inl ⟨_, otherMem, rfl⟩) sameKey
  subst same
  rw [isEntity, Option.some.injEq] at isOtherEntity
  rw [isOtherEntity]

theorem NamesApart.eq_of_declaration (apart : file.NamesApart)
    (entityMem : (place, entity) ∈ file.entities)
    (otherMem : (other, otherEntity) ∈ file.entities) {declaration otherDeclaration : Node}
    (isDeclared : entity.declaration = some declaration)
    (otherIsDeclared : otherEntity.declaration = some otherDeclaration)
    (sameKey : declaration.key = otherDeclaration.key) :
    (place, entity) = (other, otherEntity) := by
  rcases Place.mem_entities.1 entityMem with ⟨placeMem, isEntity⟩
  rcases Place.mem_entities.1 otherMem with ⟨otherPlaceMem, isOtherEntity⟩
  rcases Place.exists_declaredAt placeMem isEntity isDeclared with
    ⟨naming, namingMem, rfl, declared⟩
  rcases Place.exists_declaredAt otherPlaceMem isOtherEntity otherIsDeclared with
    ⟨otherNaming, otherNamingMem, rfl, otherDeclared⟩
  have sameNaming := apart.keys naming namingMem otherNaming otherNamingMem
    (Or.inr ⟨_, entityMem, isDeclared⟩) (Or.inr ⟨_, otherMem, otherIsDeclared⟩) sameKey
  subst sameNaming
  have sameNode := declared.node_eq apart.parentheses namingMem otherDeclared
  exact apart.eq_of_node entityMem otherMem (congrArg Node.key sameNode)

theorem file_of_declaration (entityMem : (place, entity) ∈ file.entities) {declaration : Node}
    (isDeclared : entity.declaration = some declaration) : declaration.file = file := by
  rcases Place.mem_entities.1 entityMem with ⟨placeMem, isEntity⟩
  rcases Place.exists_declaredAt placeMem isEntity isDeclared with ⟨naming, namingMem, rfl, -⟩
  exact file_of_mem_places namingMem

end SourceFile

namespace Run

theorem unitOfDeclaration?_eq_lastFor? (run : Run) (key : NodeKey) :
    run.unitOfDeclaration? key =
      lastFor? (run.entries.map fun entry => (entry.declaration, entry.unit.id)).reverse
        (some key) := by
  simp only [unitOfDeclaration?, lastFor?, List.reverse_reverse, List.find?_map, Option.map_map]
  rfl

theorem unitOfDeclaration?_foldl_classify (files : List SourceFile) (key : NodeKey) :
    (files.foldl classify empty).unitOfDeclaration? key =
      lastFor? (((files.flatMap SourceFile.entities).zipIdx 1).map fun entry =>
        (entry.1.2.declaration.map Node.key, entry.2)) (some key) := by
  rw [unitOfDeclaration?_eq_lastFor?, map_entries_foldl_classify_empty _
    (fun entity id => (entity.declaration.map Node.key, id)) (fun _ _ _ => rfl),
    List.reverse_reverse]

section

variable {files : List SourceFile} (distinctIds : (files.map (·.id)).Nodup)
  (apart : ∀ file ∈ files, file.NamesApart) {item other : Place × Entity}

include distinctIds apart

theorem eq_of_node_key (itemMem : item ∈ files.flatMap SourceFile.entities)
    (otherMem : other ∈ files.flatMap SourceFile.entities)
    (sameKey : other.2.node.key = item.2.node.key) : other = item := by
  rcases List.mem_flatMap.1 itemMem with ⟨file, fileMem, itemMem⟩
  rcases List.mem_flatMap.1 otherMem with ⟨otherFile, otherFileMem, otherMem⟩
  rcases Place.mem_entities.1 itemMem with ⟨placeMem, isEntity⟩
  rcases Place.mem_entities.1 otherMem with ⟨otherPlaceMem, isOtherEntity⟩
  rw [Place.node_of_entity? isEntity, Place.node_of_entity? isOtherEntity] at sameKey
  have sameId : otherFile.id = file.id := by
    rw [← SourceFile.file_of_mem_places placeMem, ← SourceFile.file_of_mem_places otherPlaceMem]
    exact congrArg NodeKey.file sameKey
  have sameFile := List.inj_on_of_nodup_map distinctIds otherFileMem fileMem sameId
  subst sameFile
  exact (apart otherFile otherFileMem).eq_of_node otherMem itemMem sameKey

theorem eq_of_declaration_key (itemMem : item ∈ files.flatMap SourceFile.entities)
    (otherMem : other ∈ files.flatMap SourceFile.entities) {key : NodeKey}
    (isKey : item.2.declaration.map Node.key = some key)
    (otherIsKey : other.2.declaration.map Node.key = some key) : other = item := by
  rcases List.mem_flatMap.1 itemMem with ⟨file, fileMem, itemMem⟩
  rcases List.mem_flatMap.1 otherMem with ⟨otherFile, otherFileMem, otherMem⟩
  rcases Option.map_eq_some_iff.1 isKey with ⟨declaration, isDeclared, rfl⟩
  rcases Option.map_eq_some_iff.1 otherIsKey with ⟨otherDeclaration, otherIsDeclared, sameKey⟩
  have sameId : otherFile.id = file.id := by
    rw [← SourceFile.file_of_declaration itemMem isDeclared,
      ← SourceFile.file_of_declaration otherMem otherIsDeclared]
    exact congrArg NodeKey.file sameKey
  have sameFile := List.inj_on_of_nodup_map distinctIds otherFileMem fileMem sameId
  subst sameFile
  exact (apart otherFile otherFileMem).eq_of_declaration otherMem itemMem otherIsDeclared
    isDeclared sameKey

end

/--
In a run over different files, every entity is found by its node and, if it has a
name, by what names it. Whatever is found by a declaration is the only entity
that the declaration names.
-/
theorem unitOfDeclaration?_exact (files : List SourceFile)
    (distinctIds : (files.map (·.id)).Nodup) (apart : ∀ file ∈ files, file.NamesApart) :
    let run := files.foldl classify empty
    let entities := files.flatMap SourceFile.entities
    (∀ place entity id, ((place, entity), id) ∈ entities.zipIdx 1 →
      run.unitOfNode? place.node.key = some id ∧
        ∀ declaration, entity.declaration = some declaration →
          run.unitOfDeclaration? declaration.key = some id) ∧
    ∀ key id, run.unitOfDeclaration? key = some id →
      ∃! item, item ∈ entities ∧ item.2.declaration.map Node.key = some key := by
  intro run entities
  have distinct : entities.Nodup := nodup_flatMap_entities distinctIds
  constructor
  · intro place entity id itemMem
    have entityMem : (place, entity) ∈ entities := List.fst_mem_of_mem_zipIdx itemMem
    constructor
    · rcases List.mem_flatMap.1 entityMem with ⟨file, -, inFile⟩
      rw [← Place.node_of_entity? (Place.mem_entities.1 inFile).2, unitOfNode?_foldl_classify]
      exact lastFor?_zipIdx (·.2.node.key) distinct itemMem fun other otherMem =>
        eq_of_node_key distinctIds apart entityMem otherMem
    · intro declaration isDeclared
      have isKey : entity.declaration.map Node.key = some declaration.key := by rw [isDeclared]; rfl
      rw [unitOfDeclaration?_foldl_classify, ← isKey]
      exact lastFor?_zipIdx (·.2.declaration.map Node.key) distinct itemMem
        fun other otherMem sameKey =>
          eq_of_declaration_key distinctIds apart entityMem otherMem isKey (sameKey.trans isKey)
  · intro key id isUnit
    rw [unitOfDeclaration?_foldl_classify] at isUnit
    rcases List.mem_map.1 (mem_of_lastFor? isUnit) with ⟨⟨item, _⟩, itemMem, isPair⟩
    have isKey := (Prod.mk.inj isPair).1
    have itemMem := List.fst_mem_of_mem_zipIdx itemMem
    refine ⟨item, ⟨itemMem, isKey⟩, ?_⟩
    rintro other ⟨otherMem, otherIsKey⟩
    exact eq_of_declaration_key distinctIds apart itemMem otherMem isKey otherIsKey

/-- An arrow function in two pairs of parentheses, and a class as the value of a property. -/
def namedExpressions (id : FileId) : SourceFile where
  id := id
  path := ⟨"named.ts"⟩
  text := "const f = ((() => 0)), o = \x7b k: class \x7b\x7d \x7d;"
  root :=
    .node ⟨⟨"program", true⟩, 0, 43, none⟩
      [.node ⟨⟨"lexical_declaration", true⟩, 0, 43, none⟩
        [.node ⟨⟨"variable_declarator", true⟩, 6, 21, none⟩
          [.node ⟨⟨"identifier", true⟩, 6, 7, some "name"⟩ [],
            .node ⟨⟨"parenthesized_expression", true⟩, 10, 21, some "value"⟩
              [.node ⟨⟨"parenthesized_expression", true⟩, 11, 20, none⟩
                [.node ⟨⟨"arrow_function", true⟩, 12, 19, none⟩ []]]],
          .node ⟨⟨"variable_declarator", true⟩, 23, 42, none⟩
            [.node ⟨⟨"identifier", true⟩, 23, 24, some "name"⟩ [],
              .node ⟨⟨"object", true⟩, 27, 42, some "value"⟩
                [.node ⟨⟨"pair", true⟩, 29, 40, none⟩
                  [.node ⟨⟨"property_identifier", true⟩, 29, 30, some "key"⟩ [],
                    .node ⟨⟨"class", true⟩, 32, 40, some "value"⟩ []]]]]]

theorem unitOfDeclaration?_namedExpressions :
    let files := [namedExpressions 0, namedExpressions 1]
    let run := files.foldl classify empty
    (files.map (·.id)).Nodup ∧ (∀ file ∈ files, file.NamesApart) ∧
    run.unitOfDeclaration? ⟨0, 6, 21, "variable_declarator", true⟩ = some 2 ∧
    run.unitOfDeclaration? ⟨1, 29, 40, "pair", true⟩ = some 6 ∧
    ∃! item, item ∈ files.flatMap SourceFile.entities ∧
      item.2.declaration.map Node.key = some ⟨1, 29, 40, "pair", true⟩ := by
  intro files run
  have distinctIds : (files.map (·.id)).Nodup := by decide
  have apart : ∀ file ∈ files, file.NamesApart := by
    intro file fileMem
    simp only [files, List.mem_cons, List.not_mem_nil, or_false] at fileMem
    rcases fileMem with rfl | rfl <;>
      exact .of_nodup (by decide) (by decide)
  have isUnit : run.unitOfDeclaration? ⟨1, 29, 40, "pair", true⟩ = some 6 := by decide
  exact ⟨distinctIds, apart, by decide, isUnit,
    (unitOfDeclaration?_exact files distinctIds apart).2 _ 6 isUnit⟩

end Run
end CallHierarchy
