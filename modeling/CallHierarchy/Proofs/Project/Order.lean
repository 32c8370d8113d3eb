import CallHierarchy.Project
import CallHierarchy.Proofs.Alike.Symbol
import CallHierarchy.Proofs.Import.Search
import CallHierarchy.Proofs.Project.Loading
import CallHierarchy.Proofs.Renumbering.Run
import CallHierarchy.Proofs.Run.Growth
import Mathlib.Logic.Equiv.Basic

/-!
# The order of the files of a project

Files are numbered by their position, and units are numbered file after file, so
the numbers in a call graph depend on the order in which files are given.
Nothing else does: if the files are given in another order, the graph has the
same units under other numbers.

The numbers of the files change as the files are permuted. The numbers of the
units change as the places that define them: the place of a unit is the same
node of the same file before and after.
-/

namespace CallHierarchy

/-- A permutation of the numbers, moved up by one. -/
def raise (numbers : Equiv.Perm Nat) : Equiv.Perm Nat where
  toFun
    | 0 => 0
    | number + 1 => numbers number + 1
  invFun
    | 0 => 0
    | number + 1 => numbers.symm number + 1
  left_inv := by rintro (_ | number) <;> simp
  right_inv := by rintro (_ | number) <;> simp

/-- Where a list is permuted, so are the positions of its items. -/
theorem exists_perm_getElem? {α : Type} {items permuted : List α} (perm : items.Perm permuted) :
    ∃ positions : Equiv.Perm Nat, ∀ position, permuted[positions position]? = items[position]? := by
  induction perm with
  | nil => exact ⟨Equiv.refl Nat, fun _ => rfl⟩
  | cons item _ ih =>
      rcases ih with ⟨positions, agree⟩
      refine ⟨raise positions, ?_⟩
      rintro (_ | position)
      · rfl
      · exact agree position
  | swap first second rest =>
      refine ⟨Equiv.swap 0 1, ?_⟩
      rintro (_ | _ | position)
      · rfl
      · rfl
      · rw [Equiv.swap_apply_of_ne_of_ne (by omega) (by omega)]
        rfl
  | trans _ _ ihFirst ihSecond =>
      rcases ihFirst with ⟨first, agreeFirst⟩
      rcases ihSecond with ⟨second, agreeSecond⟩
      exact ⟨first.trans second, fun position =>
        (agreeSecond (first position)).trans (agreeFirst position)⟩

namespace SourceFile

/-- The places of a file that define units, in source order. -/
def unitPlaces (file : SourceFile) : List Place :=
  file.places.filter Place.definesUnit

theorem length_unitPlaces (file : SourceFile) :
    file.unitPlaces.length = file.entities.length := by
  rw [unitPlaces, ← Place.map_fst_entities, List.length_map]
  rfl

theorem unitPlaces_renumber (numbers : FileId → FileId) (file : SourceFile) :
    (file.renumber numbers).unitPlaces = file.unitPlaces.map (Place.renumber numbers) := by
  rw [unitPlaces, places_renumber, List.filter_map, Place.definesUnit_comp_renumber]
  rfl

theorem nodup_flatMap_unitPlaces {files : List SourceFile} (distinct : (files.map (·.id)).Nodup) :
    (files.flatMap unitPlaces).Nodup := by
  rw [List.nodup_flatMap]
  constructor
  · intro file _
    exact (List.Nodup.of_map _ file.nodup_places).filter _
  · rw [List.Nodup, List.pairwise_map] at distinct
    refine distinct.imp ?_
    intro file other differ place placeMem otherMem
    have isFile := file_of_mem_places (List.mem_of_mem_filter placeMem)
    have isOther := file_of_mem_places (List.mem_of_mem_filter otherMem)
    exact differ (congrArg SourceFile.id (isFile.symm.trans isOther))

end SourceFile

/-- Whether a unit is the one that a place defines. -/
def CodeUnit.StandsAt (unit : CodeUnit) (place : Place) : Prop :=
  place.entity?.map Entity.kind = some unit.kind ∧ unit.span.file = place.node.file.id ∧
    unit.span.start = place.node.start ∧ unit.span.stop = place.node.stop

namespace Run

/-- The place that defines a unit, when some files are entered in order. -/
def placeOf? (files : List SourceFile) : UnitId → Option Place
  | 0 => none
  | number + 1 => (files.flatMap SourceFile.unitPlaces)[number]?

theorem size_eq_length_unitPlaces (files : List SourceFile) :
    (files.foldl classify empty).size = (files.flatMap SourceFile.unitPlaces).length := by
  simp only [size_foldl_classify, List.length_flatMap, SourceFile.length_unitPlaces]

theorem size_classify_empty (file : SourceFile) :
    (empty.classify file).size = file.unitPlaces.length := by
  have single := size_eq_length_unitPlaces [file]
  rwa [List.flatMap_singleton] at single

theorem placeOf?_block (before after : List SourceFile) {file : SourceFile} {id : UnitId}
    (inBlock : id ∈ List.range' 1 file.unitPlaces.length) :
    placeOf? (before ++ file :: after) (id + (before.foldl classify empty).size) =
      file.unitPlaces[id - 1]? := by
  rcases List.mem_range'_1.1 inBlock with ⟨positive, bounded⟩
  rcases Nat.exists_eq_add_of_le' positive with ⟨number, rfl⟩
  rw [Nat.add_right_comm, placeOf?, size_eq_length_unitPlaces, List.flatMap_append,
    List.flatMap_cons, List.getElem?_append_right (Nat.le_add_left _ _), Nat.add_sub_cancel,
    List.getElem?_append_left (by omega), Nat.add_sub_cancel]

theorem eq_of_placeOf?_eq_some {files : List SourceFile} {id other : UnitId} {place : Place}
    (distinct : (files.map (·.id)).Nodup) (isPlace : placeOf? files id = some place)
    (isOther : placeOf? files other = some place) : id = other := by
  cases id with
  | zero => simp [placeOf?] at isPlace
  | succ number =>
      cases other with
      | zero => simp [placeOf?] at isOther
      | succ otherNumber =>
          have inside := (List.getElem?_eq_some_iff.1 isPlace).1
          have same := (List.getElem?_inj inside
            (SourceFile.nodup_flatMap_unitPlaces distinct)).1 (isPlace.trans isOther.symm)
          rw [same]

section

variable {files : Equiv.Perm FileId} {units : Equiv.Perm UnitId}
  {sources renamedSources : List SourceFile}
  (perm : renamedSources.Perm (sources.map (SourceFile.renumber files)))
  (distinct : (sources.map (·.id)).Nodup)
  (places : ∀ id, placeOf? renamedSources (units id) =
    (placeOf? sources id).map (Place.renumber files))

include perm distinct

theorem nodup_of_perm_renumber : (renamedSources.map (·.id)).Nodup :=
  (perm.map (·.id)).nodup_iff.2 (SourceFile.nodup_ids_renumber files.injective distinct)

include places

/-- The block of a file is moved as a whole. -/
theorem units_block {before after renamedBefore renamedAfter : List SourceFile} {file : SourceFile}
    (isSources : sources = before ++ file :: after)
    (isRenamed : renamedSources = renamedBefore ++ file.renumber files :: renamedAfter)
    {id : UnitId} (inBlock : id ∈ List.range' 1 file.unitPlaces.length) :
    units (id + (before.foldl classify empty).size) =
      id + (renamedBefore.foldl classify empty).size := by
  have renumbered := file.unitPlaces_renumber files
  rcases List.mem_range'_1.1 inBlock with ⟨positive, bounded⟩
  have inside := Nat.sub_lt_left_of_lt_add positive bounded
  have isPlace := placeOf?_block before after inBlock
  have isRenamedPlace : placeOf? renamedSources (id + (renamedBefore.foldl classify empty).size) =
      (file.unitPlaces[id - 1]?).map (Place.renumber files) := by
    rw [isRenamed, placeOf?_block renamedBefore renamedAfter (by simpa [renumbered] using inBlock),
      renumbered, List.getElem?_map]
  rw [← isSources, List.getElem?_eq_getElem inside] at isPlace
  rw [List.getElem?_eq_getElem inside] at isRenamedPlace
  refine eq_of_placeOf?_eq_some (nodup_of_perm_renumber perm distinct) ?_ isRenamedPlace
  rw [places, isPlace]
  rfl

/-- The units of a file are the same block, whatever the order of the files. -/
theorem filter_entries_of_perm {source : SourceFile} (sourceMem : source ∈ sources) :
    (renamedSources.foldl classify empty).entries.filter (·.node.file == files source.id) =
      ((sources.foldl classify empty).entries.filter (·.node.file == source.id)).map
        (Entry.rename files units) := by
  have renamedMem := perm.mem_iff.2 (List.mem_map_of_mem sourceMem)
  rcases List.append_of_mem sourceMem with ⟨before, after, isSources⟩
  rcases List.append_of_mem renamedMem with ⟨renamedBefore, renamedAfter, isRenamed⟩
  have block : (sources.foldl classify empty).entries.filter (·.node.file == source.id) =
      (empty.classify source).entries.map
        (Entry.rename id (· + (before.foldl classify empty).size)) := by
    rw [isSources]
    exact filter_entries_block Function.injective_id (isSources ▸ distinct)
  have renamedBlock : (renamedSources.foldl classify empty).entries.filter
      (·.node.file == files source.id) = (empty.classify source).entries.map
        (Entry.rename files (· + (renamedBefore.foldl classify empty).size)) := by
    rw [isRenamed]
    exact filter_entries_block files.injective (isRenamed ▸ nodup_of_perm_renumber perm distinct)
  rw [renamedBlock, block, List.map_map]
  apply List.map_congr_left
  intro entry entryMem
  refine (Entry.rename_rename fun id idMem => ?_).symm
  have inBlock := mem_range_of_mem_references entryMem idMem
  rw [length_units, size_classify_empty] at inBlock
  exact units_block perm distinct places isSources isRenamed inBlock

/-- Entering the files in another order gives a related run. -/
theorem renamed_foldl_classify :
    Renamed files units (sources.foldl classify empty) (renamedSources.foldl classify empty) where
  entries file := by
    by_cases known : ∃ source ∈ sources, source.id = file
    · rcases known with ⟨source, sourceMem, rfl⟩
      exact filter_entries_of_perm perm distinct places sourceMem
    · have renamedUnknown : ∀ other ∈ renamedSources, other.id ≠ files file := by
        intro other otherMem isFile
        rcases List.mem_map.1 (perm.mem_iff.1 otherMem) with ⟨source, sourceMem, rfl⟩
        exact known ⟨source, sourceMem, files.injective isFile⟩
      rw [filter_entries_foldl_classify renamedUnknown, filter_entries_foldl_classify
        fun other otherMem isFile => known ⟨other, otherMem, isFile⟩]
      rfl
  isLocal := local_empty.foldl_classify sources
  distinct := nodup_ids_foldl_classify sources

end

theorem sound_analyze (declarations : Declarations) (files : List SourceFile) :
    ∃ entered, (files.foldl (fun run file => run.resolve declarations file)
      (files.foldl classify empty)).Sound entered := by
  have sound := sound_empty.foldl_apply
    (files.map Step.classify ++ files.map (Step.resolve declarations))
  rw [List.foldl_append, List.foldl_map, List.foldl_map] at sound
  exact ⟨_, sound⟩

theorem flatMap_unitPlaces (files : List SourceFile) :
    files.flatMap SourceFile.unitPlaces = (files.flatMap SourceFile.entities).map (·.1) := by
  rw [List.map_flatMap]
  exact List.flatMap_congr fun file _ => (Place.map_fst_entities file.places).symm

/-- A unit of a graph is the one that its place defines. -/
theorem standsAt_of_mem_analyze {declarations : Declarations} {files : List SourceFile}
    {unit : CodeUnit} (unitMem : unit ∈ (analyze declarations files).units) :
    ∃ place, placeOf? files unit.id = some place ∧ unit.StandsAt place := by
  let view := fun entry : Entry => (entry.unit.id, entry.unit.kind, entry.unit.span)
  have entered := map_entries_foldl_classify_empty view
    (fun entity id => (id, entity.kind, (entity.unit id []).span)) (fun _ _ _ => rfl) files
  simp only [analyze, foldl_resolve, units_finish, units, grant, List.mem_reverse, List.mem_map]
    at unitMem
  rcases unitMem with ⟨-, ⟨entry, entryMem, rfl⟩, rfl⟩
  have viewMem : view entry ∈ _ := List.mem_map_of_mem entryMem
  rw [entered, List.mem_reverse] at viewMem
  rcases List.mem_map.1 viewMem with ⟨⟨⟨place, entity⟩, id⟩, itemMem, isView⟩
  rw [Prod.mk.injEq, Prod.mk.injEq] at isView
  rcases isView with ⟨isId, isKind, isSpan⟩
  rcases List.mk_mem_zipIdx_iff_le_and_getElem?_sub.1 itemMem with ⟨positive, atNumber⟩
  rcases List.mem_flatMap.1 (List.fst_mem_of_mem_zipIdx itemMem) with ⟨file, -, entityMem⟩
  have isEntity := (Place.mem_entities.1 entityMem).2
  have isNode := Place.node_of_entity? isEntity
  refine ⟨place, ?_, ?_⟩
  · rcases Nat.exists_eq_add_of_le' positive with ⟨number, rfl⟩
    simp only [Entry.claim, ← isId, placeOf?, flatMap_unitPlaces, List.getElem?_map]
    rw [Nat.add_sub_cancel] at atNumber
    rw [atNumber]
    rfl
  · simp only [CodeUnit.StandsAt, Entry.claim, ← isKind, ← isSpan, isEntity, Entity.unit, isNode]
    simp

end Run

theorem perm_of_getElem? {α : Type} {items permuted : List α} {positions : Equiv.Perm Nat}
    (agree : ∀ position, permuted[positions position]? = items[position]?)
    (distinct : items.Nodup) (permutedDistinct : permuted.Nodup) : permuted.Perm items := by
  rw [List.perm_ext_iff_of_nodup permutedDistinct distinct]
  intro item
  rw [List.mem_iff_getElem?, List.mem_iff_getElem?]
  constructor
  · rintro ⟨position, isItem⟩
    rcases positions.surjective position with ⟨old, rfl⟩
    exact ⟨old, (agree old).symm.trans isItem⟩
  · rintro ⟨position, isItem⟩
    exact ⟨positions position, (agree position).trans isItem⟩

namespace ModuleIndex

/-- With distinct paths, the file of a path does not depend on the order of the files. -/
theorem file?_of_perm {numbers : FileId → FileId} {files permuted : List SourceFile}
    {workingDirectory : Path} (config : Config)
    (perm : permuted.Perm (files.map (SourceFile.renumber numbers)))
    (distinct : (files.map (·.path.normalize workingDirectory)).Nodup) (path : Path) :
    (ofFiles workingDirectory config permuted).file? path =
      ((ofFiles workingDirectory config files).file? path).map numbers := by
  have pairs : (ofFiles workingDirectory config permuted).files.Perm
      ((ofFiles workingDirectory config files).files.map fun pair => (pair.1, numbers pair.2)) := by
    have pairs := perm.map fun file => (file.path.normalize workingDirectory, file.id)
    rw [List.map_map] at pairs
    simp only [ofFiles, List.map_map]
    exact pairs
  have keys : ((ofFiles workingDirectory config permuted).files.map (·.1)).Nodup := by
    have keys := pairs.map (·.1)
    rw [keys.nodup_iff]
    simp only [ofFiles, List.map_map]
    exact distinct
  rw [file?_eq_lastFor?, file?_eq_lastFor?, lastFor?_of_perm pairs keys]
  exact lastFor?_map Function.injective_id numbers _ path

end ModuleIndex

/-- The tables of the same files under other numbers are alike. -/
theorem SymbolTable.alike_renumber {numbers : Equiv.Perm FileId} {files permuted : List SourceFile}
    {workingDirectory : Path} (config : Config)
    (numbered : ∀ (position : Nat) (file : SourceFile), files[position]? = some file →
      file.id = position)
    (agree : ∀ id, permuted[numbers id]? = (files[id]?).map (SourceFile.renumber numbers))
    (perm : permuted.Perm (files.map (SourceFile.renumber numbers)))
    (distinct : (files.map (·.path.normalize workingDirectory)).Nodup) :
    Alike (SourceFile.renumbering files numbers.injective)
      (ofFiles workingDirectory config files) (ofFiles workingDirectory config permuted) := by
  apply alike_ofFiles numbered
  case matched =>
    intro file fileMem
    exact ⟨file.renumber numbers, ⟨fileMem, rfl⟩, file.alike_renumber numbers⟩
  case stands =>
    rintro file _ ⟨fileMem, rfl⟩
    rcases List.mem_iff_getElem?.1 fileMem with ⟨position, isFile⟩
    refine ⟨fileMem, (agree file.id).trans ?_⟩
    rw [numbered position file isFile, isFile]
    rfl
  case target =>
    rintro file _ ⟨-, rfl⟩ specifier -
    simp only [target?, ofFiles, ModuleIndex.resolve?_ofFiles, List.map_findSome?]
    exact congrArg (List.findSome? · _)
      (funext (ModuleIndex.file?_of_perm config perm distinct))

namespace Project

/-- Whether the files of a project are numbered by their positions. -/
def IsNumbered (project : Project) : Prop :=
  ∀ (position : Nat) (file : SourceFile), project.files[position]? = some file →
    file.id = position

theorem isNumbered_ofSources (parser : Parser) (config : Config)
    (sources : List (Path × String)) : (ofSources parser config sources).IsNumbered := by
  intro position file isFile
  rw [getElem?_files_ofSources, Option.map_eq_some_iff] at isFile
  rcases isFile with ⟨source, -, rfl⟩
  rfl

theorem IsNumbered.nodup_ids {project : Project} (numbered : project.IsNumbered) :
    (project.files.map (·.id)).Nodup := by
  have ids : project.files.map (·.id) = List.range project.files.length := by
    apply List.ext_getElem?
    intro position
    rw [List.getElem?_map]
    cases isFile : project.files[position]? with
    | none =>
        rw [List.getElem?_eq_none_iff] at isFile
        simpa using isFile
    | some file =>
        have inside := (List.getElem?_eq_some_iff.1 isFile).1
        simp [numbered position file isFile, inside]
  rw [ids]
  exact List.nodup_range

theorem map_path_ofSources (parser : Parser) (config : Config) (sources : List (Path × String))
    (workingDirectory : Path) :
    (ofSources parser config sources).files.map (·.path.normalize workingDirectory) =
      sources.map (·.1.normalize workingDirectory) := by
  have paths := congrArg (List.map (·.normalize workingDirectory))
    (map_path_files_ofSources parser config sources)
  simpa only [List.map_map, Function.comp_def] using paths

theorem exists_perm_placeOf? {numbers : FileId → FileId} {files permuted : List SourceFile}
    (perm : permuted.Perm (files.map (SourceFile.renumber numbers))) :
    ∃ units : Equiv.Perm UnitId, ∀ id, Run.placeOf? permuted (units id) =
      (Run.placeOf? files id).map (Place.renumber numbers) := by
  have places : ((files.flatMap SourceFile.unitPlaces).map (Place.renumber numbers)).Perm
      (permuted.flatMap SourceFile.unitPlaces) := by
    have places := perm.symm.flatMap_right SourceFile.unitPlaces
    simpa only [List.flatMap_map, SourceFile.unitPlaces_renumber, ← List.map_flatMap] using places
  rcases exists_perm_getElem? places with ⟨positions, agree⟩
  refine ⟨raise positions, ?_⟩
  rintro (_ | number)
  · rfl
  · exact (agree number).trans List.getElem?_map

/--
The order in which sources are given does not matter. If they are given in
another order, then the numbers of files and units can be changed so that every
file keeps its path and text, every unit is defined by the same node of the same
file, and the graph is the same: each unit keeps its kind, its name, its range
and line, and in order the units inside it and the units it calls.
-/
theorem callGraph_perm (parser : Parser) (config : Config) (workingDirectory : Path)
    {sources permuted : List (Path × String)} (perm : sources.Perm permuted)
    (distinct : (sources.map (·.1.normalize workingDirectory)).Nodup) :
    let project := ofSources parser config sources
    let other := ofSources parser config permuted
    let graph := project.callGraph workingDirectory
    let otherGraph := other.callGraph workingDirectory
    ∃ (fileMap : Equiv.Perm FileId) (unitMap : Equiv.Perm UnitId),
      (∀ id, permuted[fileMap id]? = sources[id]?) ∧
      (∀ unit ∈ graph.units, ∃ place, Run.placeOf? project.files unit.id = some place ∧
        unit.StandsAt place ∧
        Run.placeOf? other.files (unitMap unit.id) = some (place.renumber fileMap)) ∧
      otherGraph.units.Perm (graph.units.map (CodeUnit.rename fileMap unitMap)) ∧
      otherGraph.roots.Perm (graph.roots.map unitMap) := by
  intro project other graph otherGraph
  rcases exists_perm_getElem? perm with ⟨fileMap, samePosition⟩
  have files : ∀ id, other.files[fileMap id]? =
      (project.files[id]?).map (SourceFile.renumber fileMap) := by
    intro id
    rw [getElem?_files_ofSources, getElem?_files_ofSources, samePosition, Option.map_map]
    rfl
  have numbered := isNumbered_ofSources parser config sources
  have ids := numbered.nodup_ids
  have otherIds := (isNumbered_ofSources parser config permuted).nodup_ids
  have renumberedIds := SourceFile.nodup_ids_renumber fileMap.injective ids
  have filePerm : other.files.Perm (project.files.map (SourceFile.renumber fileMap)) :=
    perm_of_getElem? (fun id => (files id).trans List.getElem?_map.symm) (.of_map _ renumberedIds)
      (.of_map _ otherIds)
  rcases exists_perm_placeOf? filePerm with ⟨unitMap, places⟩
  have tables := SymbolTable.alike_renumber config numbered files filePerm
    ((map_path_ofSources parser config sources workingDirectory).symm ▸ distinct)
  have entered := Run.renamed_foldl_classify filePerm ids places
  have agrees := entered.agrees project.files fun comment inserted =>
    Run.unitOfNode?_of_isInserted inserted fun file fileMem sameId => by
      rcases inserted.isPaired with ⟨original, originalMem, isRenumbered⟩
      have commentMem : comment.file ∈ other.files :=
        isRenumbered ▸ filePerm.mem_iff.2 (List.mem_map_of_mem originalMem)
      exact List.inj_on_of_nodup_map otherIds fileMem commentMem sameId
  have resolved := entered.foldl_resolve agrees (fun _ _ alike => tables.declarations alike)
    filePerm ids fun entry entryMem => Run.file_mem_of_mem_entries entryMem
  rcases Run.sound_analyze (project.symbolTable workingDirectory).declarations project.files with
    ⟨_, sound⟩
  rcases Run.sound_analyze (other.symbolTable workingDirectory).declarations other.files with
    ⟨_, otherSound⟩
  have units : graph.units = _ := Run.units_finish _ _
  have otherUnits : otherGraph.units = _ := Run.units_finish _ _
  refine ⟨fileMap, unitMap, samePosition, ?_, ?_, resolved.roots_perm sound otherSound⟩
  · intro unit unitMem
    rcases Run.standsAt_of_mem_analyze unitMem with ⟨place, isPlace, standsAt⟩
    exact ⟨place, isPlace, standsAt, by rw [places, isPlace]; rfl⟩
  · rw [units, otherUnits]
    exact resolved.units_perm

/-- A file that calls what another file exports. -/
def caller : Path × String :=
  (⟨"/a.ts"⟩, "import f from \"./b\";f()")

/-- A file whose default export is a function. -/
def callee : Path × String :=
  (⟨"/b.ts"⟩, "export default function f()")

/-- The syntax trees of the two files. -/
def pairParser : Parser := fun _ text =>
  if text = caller.2 then
    .node ⟨⟨"program", true⟩, 0, 23, none⟩
      [.node ⟨⟨"import_statement", true⟩, 0, 20, none⟩
        [.node ⟨⟨"import_clause", true⟩, 7, 8, none⟩
          [.node ⟨⟨"identifier", true⟩, 7, 8, none⟩ []],
        .node ⟨⟨"string", true⟩, 14, 19, some "source"⟩ []],
      .node ⟨⟨"call_expression", true⟩, 20, 23, none⟩
        [.node ⟨⟨"identifier", true⟩, 20, 21, some "function"⟩ []]]
  else
    .node ⟨⟨"program", true⟩, 0, 27, none⟩
      [.node ⟨⟨"export_statement", true⟩, 0, 27, none⟩
        [.node ⟨⟨"default", false⟩, 7, 14, none⟩ [],
        .node ⟨⟨"function_declaration", true⟩, 15, 27, some "declaration"⟩
          [.node ⟨⟨"identifier", true⟩, 24, 25, some "name"⟩ []]]]

/-- The call graph of some of the two files. -/
def pairGraph (sources : List (Path × String)) : CallGraph :=
  (ofSources pairParser .empty sources).callGraph ⟨"/"⟩

theorem callGraph_perm_caller_callee :
    ([caller, callee].map (·.1.normalize ⟨"/"⟩)).Nodup ∧
    (pairGraph [caller, callee]).units.map (fun unit => (unit.id, unit.calls)) =
      [(1, [3]), (2, []), (3, [])] ∧
    (pairGraph [callee, caller]).units.map (fun unit => (unit.id, unit.calls)) =
      [(1, []), (2, []), (3, [2])] ∧
    ∃ (fileMap : Equiv.Perm FileId) (unitMap : Equiv.Perm UnitId),
      (pairGraph [callee, caller]).units.Perm
        ((pairGraph [caller, callee]).units.map (CodeUnit.rename fileMap unitMap)) := by
  have distinct : ([caller, callee].map (·.1.normalize ⟨"/"⟩)).Nodup := by decide
  rcases callGraph_perm pairParser .empty ⟨"/"⟩ (.swap callee caller []) distinct with
    ⟨fileMap, unitMap, -, -, units, -⟩
  exact ⟨distinct, by decide +kernel, by decide +kernel, fileMap, unitMap, units⟩

end Project
end CallHierarchy
