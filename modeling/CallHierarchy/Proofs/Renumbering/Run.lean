import CallHierarchy.Proofs.Renumbering.Block
import CallHierarchy.Proofs.Run.Interchange
import Mathlib.Logic.Equiv.Defs

/-!
# Runs with other numbers

Two runs are related when, file by file, they hold the same units in the same
order under other numbers; how the files follow each other may differ. Since
every look-up is decided by the units of a single file, look-ups in related runs
find the same units, and so do edges, claims and calls.
-/

namespace CallHierarchy

namespace Node

theorem file_climb_go (node : Node) (kinds : List String) (tree : SyntaxTree)
    (around : List SyntaxTree) : (climb.go node kinds tree around).file = node.file := by
  induction around generalizing tree with
  | nil => rfl
  | cons parent around ih =>
      simp only [climb.go]
      split
      · exact ih parent
      · rfl

theorem file_of_namingContext? {node context : Node}
    (isContext : node.namingContext? = some context) : context.file = node.file := by
  simp only [namingContext?] at isContext
  split at isContext
  · simp at isContext
  next other isParent =>
    have sameFile : other.file = node.file :=
      (file_of_parent? isParent).trans (file_climb_go node _ node.tree node.around)
    split at isContext
    · simp at isContext
    · split at isContext <;> grind

end Node

namespace Entity

/-- Whether the declaration of an entity stands in the same file. -/
def IsLocal (entity : Entity) : Prop :=
  ∀ declaration, entity.declaration = some declaration → declaration.file = entity.node.file

theorem isLocal_of_ofConstruct? {node : Node} {entity : Entity}
    (isEntity : ofConstruct? node = some entity) : entity.IsLocal := by
  intro declaration isDeclaration
  unfold ofConstruct? at isEntity
  split at isEntity <;> grind [Node.file_of_namingContext?]

theorem isLocal_of_entity? {place : Place} {entity : Entity}
    (isEntity : place.entity? = some entity) : entity.IsLocal := by
  unfold Place.entity? at isEntity
  split at isEntity
  · rw [Option.some.injEq] at isEntity
    simp [← isEntity, IsLocal]
  · unfold ofNode? at isEntity
    split at isEntity
    · exact isLocal_of_ofConstruct? isEntity
    · simp at isEntity

theorem isLocal_of_mem_numberedPlaces {first : UnitId} {places : List Place}
    {item : Entity × List UnitId} (itemMem : item ∈ Outline.numberedPlaces first places) :
    item.1.IsLocal := by
  rcases List.mem_map.1 itemMem with ⟨⟨⟨place, entity⟩, id⟩, entryMem, rfl⟩
  exact isLocal_of_entity? (Place.mem_entities.1 (List.fst_mem_of_mem_zipIdx entryMem)).2

end Entity

namespace Run

/-- Whether units are found through their own file only. -/
structure Local (run : Run) : Prop where
  declared : ∀ entry ∈ run.entries, ∀ key, entry.declaration = some key →
    key.file = entry.node.file
  linked : ∀ entry ∈ run.entries, ∀ id, entry.constructs = some id →
    ∃ other ∈ run.entries, other.unit.id = id ∧ other.node.file = entry.node.file

theorem local_empty : Local empty := by
  constructor <;> simp [empty]

namespace Local

variable {run : Run}

theorem add (isLocal : run.Local) {entity : Entity} (entityLocal : entity.IsLocal)
    (children : List UnitId) : (run.add entity children).Local := by
  constructor
  case declared =>
    intro entry entryMem key isDeclared
    rw [entries_add] at entryMem
    rcases List.mem_cons.1 entryMem with rfl | entryMem
    · rcases Option.map_eq_some_iff.1 isDeclared with ⟨declaration, isDeclaration, rfl⟩
      exact congrArg SourceFile.id (entityLocal declaration isDeclaration)
    · exact isLocal.declared entry entryMem key isDeclared
  case linked =>
    intro entry entryMem id isLinked
    rw [entries_add] at entryMem ⊢
    have inRun : ∃ other ∈ run.entries, other.unit.id = id ∧
        other.node.file = entry.node.file := by
      rcases List.mem_cons.1 entryMem with rfl | entryMem
      · have found := (Option.filter_eq_some_iff.1 isLinked).1
        rcases Option.bind_eq_some_iff.1 found with ⟨constructed, isConstructed, isUnit⟩
        rcases Option.map_eq_some_iff.1 isUnit with ⟨other, isOther, isId⟩
        have isNode : other.node = constructed.key := by simpa using List.find?_some isOther
        refine ⟨other, List.mem_of_find?_eq_some isOther, isId, ?_⟩
        rw [isNode]
        exact congrArg SourceFile.id (Entity.file_of_constructedClass? isConstructed)
      · exact isLocal.linked entry entryMem id isLinked
    rcases inRun with ⟨other, otherMem, isOther⟩
    exact ⟨other, List.mem_cons_of_mem _ otherMem, isOther⟩

theorem enter (isLocal : run.Local) {numbered : List (Entity × List UnitId)}
    (itemsLocal : ∀ item ∈ numbered, item.1.IsLocal) : (run.enter numbered).Local := by
  induction numbered generalizing run with
  | nil => exact isLocal
  | cons item rest ih =>
      exact ih (isLocal.add (itemsLocal item List.mem_cons_self) item.2)
        fun other otherMem => itemsLocal other (List.mem_cons_of_mem _ otherMem)

theorem classify (isLocal : run.Local) (file : SourceFile) : (run.classify file).Local := by
  have isEntered : (run.enter (Outline.numberedPlaces run.nextId file.places)).Local :=
    isLocal.enter fun item itemMem => Entity.isLocal_of_mem_numberedPlaces itemMem
  rw [classify_eq]
  exact ⟨isEntered.declared, isEntered.linked⟩

theorem grant (isLocal : run.Local) (claims : List (UnitId × List UnitId)) :
    (run.grant claims).Local := by
  constructor
  case declared =>
    intro entry entryMem key isDeclared
    rcases List.mem_map.1 entryMem with ⟨old, oldMem, rfl⟩
    exact isLocal.declared old oldMem key isDeclared
  case linked =>
    intro entry entryMem id isLinked
    rcases List.mem_map.1 entryMem with ⟨old, oldMem, rfl⟩
    rcases isLocal.linked old oldMem id isLinked with ⟨other, otherMem, isOther⟩
    exact ⟨_, List.mem_map_of_mem otherMem, isOther⟩

theorem foldl_classify (isLocal : run.Local) (files : List SourceFile) :
    (files.foldl Run.classify run).Local := by
  induction files generalizing run with
  | nil => exact isLocal
  | cons file rest ih => exact ih (isLocal.classify file)

end Local

theorem find?_filter_of_imp {α : Type} {satisfies kept : α → Bool} {items : List α}
    (keeps : ∀ item ∈ items, satisfies item → kept item) :
    (items.filter kept).find? satisfies = items.find? satisfies := by
  induction items with
  | nil => rfl
  | cons item rest ih =>
      have later := ih fun other otherMem => keeps other (List.mem_cons_of_mem _ otherMem)
      by_cases isKept : kept item
      · rw [List.filter_cons_of_pos isKept, List.find?_cons, List.find?_cons, later]
      · have unsatisfied : ¬satisfies item := fun isSatisfied =>
          isKept (keeps item List.mem_cons_self isSatisfied)
        rw [List.filter_cons_of_neg isKept, List.find?_cons_of_neg unsatisfied, later]

/-- The calls of a unit are decided by the claims of its own file. -/
theorem lastFor?_flatMap_claims {run : Run} (declarations : Declarations)
    {sources : List SourceFile} {file : SourceFile} {entry : Entry}
    (distinct : (run.entries.map (·.unit.id)).Nodup) (distinctFiles : (sources.map (·.id)).Nodup)
    (fileMem : file ∈ sources) (entryMem : entry ∈ run.entries)
    (inFile : entry.node.file = file.id) :
    lastFor? (sources.flatMap (run.claims declarations)) entry.unit.id =
      lastFor? (run.claims declarations file) entry.unit.id := by
  ext calls
  rw [lastFor?_flatMap_claims_eq_some_iff distinct sources
    (List.inj_on_of_nodup_map distinctFiles)]
  constructor
  · rintro ⟨other, otherMem, isLast⟩
    rcases (mem_entries_of_mem_claims (mem_of_lastFor? isLast)).1 with
      ⟨claimer, claimerMem, isClaimer, inOther⟩
    have same : claimer = entry := List.inj_on_of_nodup_map distinct claimerMem entryMem isClaimer
    have sameId : other.id = file.id := by rw [← inOther, same, inFile]
    rwa [← List.inj_on_of_nodup_map distinctFiles otherMem fileMem sameId]
  · intro isLast
    exact ⟨file, fileMem, isLast⟩

/-- Whether the second run holds the units of the first, file by file, under other numbers. -/
structure Renamed (files : Equiv.Perm FileId) (units : Equiv.Perm UnitId) (run renamed : Run) :
    Prop where
  entries : ∀ file, renamed.entries.filter (·.node.file == files file) =
    (run.entries.filter (·.node.file == file)).map (Entry.rename files units)
  isLocal : run.Local
  distinct : (run.entries.map (·.unit.id)).Nodup

namespace Renamed

variable {files : Equiv.Perm FileId} {units : Equiv.Perm UnitId} {run renamed : Run}

section

variable (related : Renamed files units run renamed)

include related

/-- The second run holds just the units of the first. -/
theorem entries_perm : renamed.entries.Perm (run.entries.map (Entry.rename files units)) := by
  rw [List.perm_iff_count]
  intro entry
  rcases files.surjective entry.node.file with ⟨file, isFile⟩
  have ofFile : (·.node.file == files file) ∘ Entry.rename files units =
      fun old : Entry => old.node.file == file := by
    funext old
    exact files.injective.beq_eq
  have counted : ∀ entries : List Entry,
      (entries.filter (·.node.file == files file)).count entry = entries.count entry := fun _ =>
    List.count_filter (by simp [isFile])
  rw [← counted, related.entries, ← ofFile, ← List.filter_map, counted]

theorem mem_entries_iff {entry : Entry} :
    entry ∈ renamed.entries ↔ ∃ old ∈ run.entries, old.rename files units = entry := by
  rw [related.entries_perm.mem_iff, List.mem_map]

/-- A search that only units of one file can satisfy finds the same unit. -/
theorem find? {satisfies renamedSatisfies : Entry → Bool}
    (agree : ∀ entry, renamedSatisfies (entry.rename files units) = satisfies entry)
    (together : ∀ entry ∈ run.entries, ∀ other ∈ run.entries, satisfies entry → satisfies other →
      entry.node.file = other.node.file) :
    renamed.entries.find? renamedSatisfies =
      (run.entries.find? satisfies).map (Entry.rename files units) := by
  have common : ∃ file, ∀ entry ∈ run.entries, satisfies entry → entry.node.file = file := by
    by_cases some : ∃ first ∈ run.entries, satisfies first
    · rcases some with ⟨first, firstMem, isFirst⟩
      exact ⟨first.node.file, fun entry entryMem satisfied =>
        together entry entryMem first firstMem satisfied isFirst⟩
    · exact ⟨0, fun entry entryMem satisfied => absurd ⟨entry, entryMem, satisfied⟩ some⟩
  rcases common with ⟨file, inFile⟩
  have ownFile : (run.entries.filter (·.node.file == file)).find? satisfies =
      run.entries.find? satisfies :=
    find?_filter_of_imp fun entry entryMem satisfied => by simp [inFile entry entryMem satisfied]
  have renamedFile : (renamed.entries.filter (·.node.file == files file)).find? renamedSatisfies =
      renamed.entries.find? renamedSatisfies := by
    apply find?_filter_of_imp
    intro entry entryMem satisfied
    rcases related.mem_entries_iff.1 entryMem with ⟨old, oldMem, rfl⟩
    rw [agree] at satisfied
    simp [Entry.rename, NodeKey.renumber, inFile old oldMem satisfied]
  rw [← ownFile, ← renamedFile, related.entries, List.find?_map]
  exact congrArg (fun search => Option.map _ (List.find? search _)) (funext agree)

theorem unitOfNode? (key : NodeKey) :
    renamed.unitOfNode? (key.renumber files) = (run.unitOfNode? key).map units := by
  have found : renamed.entries.find? (·.node == key.renumber files) =
      (run.entries.find? (·.node == key)).map (Entry.rename files units) := by
    apply related.find?
    · intro entry
      exact (NodeKey.renumber_injective files.injective).beq_eq
    · intro entry _ other _ isKey isOther
      rw [eq_of_beq isKey, eq_of_beq isOther]
  rw [Run.unitOfNode?, found, Option.map_map, Run.unitOfNode?, Option.map_map]
  rfl

theorem unitOfDeclaration? (key : NodeKey) :
    renamed.unitOfDeclaration? (key.renumber files) = (run.unitOfDeclaration? key).map units := by
  have found : renamed.entries.find? (·.declaration == some (key.renumber files)) =
      (run.entries.find? (·.declaration == some key)).map (Entry.rename files units) := by
    apply related.find?
    · intro entry
      exact (Option.map_injective (NodeKey.renumber_injective files.injective)).beq_eq
        (b := some key)
    · intro entry entryMem other otherMem isKey isOther
      rw [← related.isLocal.declared entry entryMem key (eq_of_beq isKey),
        ← related.isLocal.declared other otherMem key (eq_of_beq isOther)]
  rw [Run.unitOfDeclaration?, found, Option.map_map, Run.unitOfDeclaration?, Option.map_map]
  rfl

theorem eq_of_same_id {entry other : Entry} (entryMem : entry ∈ run.entries)
    (otherMem : other ∈ run.entries) (sameId : entry.unit.id = other.unit.id) : entry = other :=
  List.inj_on_of_nodup_map related.distinct entryMem otherMem sameId

theorem kindOf? (id : UnitId) : renamed.kindOf? (units id) = run.kindOf? id := by
  have found : renamed.entries.find? (·.unit.id == units id) =
      (run.entries.find? (·.unit.id == id)).map (Entry.rename files units) := by
    apply related.find?
    · intro entry
      exact units.injective.beq_eq
    · intro entry entryMem other otherMem isId isOther
      have sameId := (eq_of_beq isId).trans (eq_of_beq isOther).symm
      rw [related.eq_of_same_id entryMem otherMem sameId]
  rw [Run.kindOf?, found, Option.map_map, Run.kindOf?]
  rfl

theorem constructorOf? (id : UnitId) :
    renamed.constructorOf? (units id) = (run.constructorOf? id).map units := by
  have found : renamed.entries.find? (·.constructs == some (units id)) =
      (run.entries.find? (·.constructs == some id)).map (Entry.rename files units) := by
    apply related.find?
    · intro entry
      exact (Option.map_injective units.injective).beq_eq (b := some id)
    · intro entry entryMem other otherMem isLinked isOther
      rcases related.isLocal.linked entry entryMem id (eq_of_beq isLinked) with
        ⟨constructed, constructedMem, isId, sameFile⟩
      rcases related.isLocal.linked other otherMem id (eq_of_beq isOther) with
        ⟨constructed', constructedMem', isId', sameFile'⟩
      rw [← sameFile, ← sameFile',
        related.eq_of_same_id constructedMem constructedMem' (isId.trans isId'.symm)]
  rw [Run.constructorOf?, found, Option.map_map, Run.constructorOf?, Option.map_map]
  rfl

/-- Related runs find the same units for what some files share with the same files renumbered. -/
theorem agrees (sources : List SourceFile)
    (inserted : ∀ comment : Node,
      comment.IsInserted (SourceFile.renumbering sources files.injective) →
        renamed.unitOfNode? comment.key = none) :
    Agrees (SourceFile.renumbering sources files.injective) units run renamed where
  unitOfNode? key _ := related.unitOfNode? key
  unitOfDeclaration? key _ := related.unitOfDeclaration? key
  constructorOf? _ id _ _ := related.constructorOf? id
  kindOf? _ id _ _ := related.kindOf? id
  inserted := inserted

end

theorem grant (related : Renamed files units run renamed)
    {claims renamedClaims : List (UnitId × List UnitId)}
    (agree : ∀ entry ∈ run.entries, lastFor? renamedClaims (units entry.unit.id) =
      (lastFor? claims entry.unit.id).map (List.map units)) :
    Renamed files units (run.grant claims) (renamed.grant renamedClaims) where
  entries file := by
    have kept : ∀ (claims : List (UnitId × List UnitId)) (file : FileId),
        (fun entry : Entry => entry.node.file == file) ∘ Entry.claim claims =
          fun entry => entry.node.file == file := fun _ _ => rfl
    simp only [Run.grant, List.filter_map, kept, related.entries, List.map_map]
    apply List.map_congr_left
    intro entry entryMem
    have same := agree entry (List.mem_of_mem_filter entryMem)
    simp only [Function.comp_apply, Entry.claim, Entry.rename, CodeUnit.rename, same]
    cases lastFor? claims entry.unit.id <;> rfl
  isLocal := related.isLocal.grant claims
  distinct := by
    simp only [Run.grant, List.map_map]
    exact related.distinct

theorem renamed_distinct (related : Renamed files units run renamed) :
    (renamed.entries.map (·.unit.id)).Nodup := by
  have ids := related.entries_perm.map (·.unit.id)
  rw [ids.nodup_iff, List.map_map]
  have renamedIds := related.distinct.map units.injective
  rwa [List.map_map] at renamedIds

/-- Looking for the calls of the same files keeps runs related, whatever the order of the files. -/
theorem foldl_resolve (related : Renamed files units run renamed)
    {declarations renamedDeclarations : Declarations}
    {sources renamedSources : List SourceFile}
    (agrees : Agrees (SourceFile.renumbering sources files.injective) units run renamed)
    (same : SameDeclarations (SourceFile.renumbering sources files.injective) declarations
      renamedDeclarations)
    (perm : renamedSources.Perm (sources.map (SourceFile.renumber files)))
    (distinct : (sources.map (·.id)).Nodup)
    (known : ∀ entry ∈ run.entries, ∃ file ∈ sources, entry.node.file = file.id) :
    Renamed files units
      (sources.foldl (fun run file => run.resolve declarations file) run)
      (renamedSources.foldl (fun run file => run.resolve renamedDeclarations file) renamed) := by
  have renamedDistinct := (perm.map (·.id)).nodup_iff.2
    (SourceFile.nodup_ids_renumber files.injective distinct)
  rw [Run.foldl_resolve, Run.foldl_resolve]
  apply related.grant
  intro entry entryMem
  rcases known entry entryMem with ⟨file, fileMem, inFile⟩
  have renamedMem := related.mem_entries_iff.2 ⟨entry, entryMem, rfl⟩
  have renamedFileMem := perm.mem_iff.2 (List.mem_map_of_mem fileMem)
  have renamedInFile : (entry.rename files units).node.file = (file.renumber files).id :=
    congrArg files inFile
  have decided := lastFor?_flatMap_claims declarations related.distinct distinct fileMem entryMem
    inFile
  have renamedDecided := lastFor?_flatMap_claims renamedDeclarations related.renamed_distinct
    renamedDistinct renamedFileMem renamedMem renamedInFile
  rw [decided]
  refine renamedDecided.trans ?_
  rw [agrees.claims same ⟨fileMem, rfl⟩ (file.alike_renumber files)]
  exact lastFor?_map units.injective (List.map units) _ _

theorem units_perm (related : Renamed files units run renamed) :
    renamed.units.Perm (run.units.map (CodeUnit.rename files units)) := by
  have entries := related.entries_perm.map (·.unit)
  rw [List.map_map] at entries
  rw [Run.units, Run.units, List.map_reverse, List.map_map]
  exact (List.reverse_perm _).trans (entries.trans (List.reverse_perm _).symm)

theorem roots_perm (related : Renamed files units run renamed)
    {entered renamedEntered : List SourceFile} (sound : run.Sound entered)
    (renamedSound : renamed.Sound renamedEntered) :
    renamed.roots.Perm (run.roots.map units) := by
  have ids : (List.range' 1 renamed.units.length).Perm
      ((List.range' 1 run.units.length).map units) := by
    rw [← sound.numbered, ← renamedSound.numbered, List.map_map]
    have renamedIds := related.units_perm.map (·.id)
    rwa [List.map_map] at renamedIds
  have inside : (renamed.units.flatMap (·.children)).Perm
      ((run.units.flatMap (·.children)).map units) := by
    have renamedInside := related.units_perm.flatMap_right (·.children)
    rw [List.flatMap_map] at renamedInside
    rwa [List.map_flatMap]
  have owned := sound.owned.map units
  rw [List.map_append] at owned
  apply (List.perm_append_right_iff (renamed.units.flatMap (·.children))).1
  exact renamedSound.owned.trans (ids.trans (owned.symm.trans (inside.symm.append_left _)))

end Renamed

end Run
end CallHierarchy
