import CallHierarchy.Proofs.Alike.Run
import CallHierarchy.Proofs.Alike.Symbol
import CallHierarchy.Proofs.Project.Order
import CallHierarchy.Proofs.Run.Growth

/-!
# Projects that grow

A project can grow in two ways that its call graph does not notice: comments can
be inserted into its trees, and files that it does not import can be added behind
its own. Its units stay as they are, and the units of the further files follow.

The tables of the two projects are alike, so alike nodes refer to the same
declarations; the run over the second project is the run over the first, grown by
the further files, and the two find the same units for these declarations.
-/

namespace CallHierarchy

namespace Project

/-- The run over a project once all files are entered. -/
def entered (project : Project) : Run :=
  project.files.foldl Run.classify .empty

/-- The claims of all units of a project. -/
def claims (project : Project) (workingDirectory : Path) : List (UnitId × List UnitId) :=
  project.files.flatMap
    (project.entered.claims (project.symbolTable workingDirectory).declarations)

theorem callGraph_eq (project : Project) (workingDirectory : Path) :
    project.callGraph workingDirectory =
      (project.entered.grant (project.claims workingDirectory)).finish
        (project.files.map (·.path)) := by
  rw [callGraph, Run.analyze, Run.foldl_resolve]
  rfl

theorem units_callGraph (project : Project) (workingDirectory : Path) :
    (project.callGraph workingDirectory).units =
      (project.entered.grant (project.claims workingDirectory)).units := by
  rw [callGraph_eq, Run.units_finish]

theorem table_callGraph (project : Project) (workingDirectory : Path) :
    (project.callGraph workingDirectory).table =
      (project.callGraph workingDirectory).units.map fun unit => (unit.id, unit) := by
  rw [units_callGraph, callGraph_eq]
  rfl

theorem roots_callGraph (project : Project) (workingDirectory : Path) :
    (project.callGraph workingDirectory).roots = project.entered.roots := by
  rw [callGraph_eq]
  rfl

/--
Whether a project has files like those of another one, under the same numbers, and
then further files, and what the first files import is the same in both projects.
-/
structure GrowsInto (workingDirectory : Path) (project other : Project)
    (kept added : List SourceFile) : Prop where
  files : other.files = kept ++ added
  alike : List.Forall₂ (SourceFile.Alike fun number => number) project.files kept
  numbered : other.IsNumbered
  targets : ∀ file ∈ project.files, ∀ specifier ∈ file.specifiers,
    (other.symbolTable workingDirectory).target? file specifier =
      (project.symbolTable workingDirectory).target? file specifier

/-- Which files stand under the same number in two projects. -/
def pairing (project other : Project) : Pairing where
  numbers := fun number => number
  injective := Function.injective_id
  pairs file otherFile := file ∈ project.files ∧ other.files[file.id]? = some otherFile

namespace GrowsInto

variable {workingDirectory : Path} {project other : Project} {kept added : List SourceFile}
  (grows : GrowsInto workingDirectory project other kept added)

include grows

theorem exists_kept {position : Nat} {file : SourceFile}
    (isFile : project.files[position]? = some file) :
    ∃ otherFile ∈ kept, other.files[position]? = some otherFile ∧
      file.Alike (fun number => number) otherFile := by
  have related := getElem?_of_forall₂ grows.alike position
  rcases related.eq_none_or_exists with
    ⟨isNone, -⟩ | ⟨found, otherFile, isFound, isOther, alike⟩
  · simp [isFile] at isNone
  · rw [isFile, Option.some.injEq] at isFound
    subst isFound
    refine ⟨otherFile, List.mem_of_getElem? isOther, ?_, alike⟩
    rw [grows.files, List.getElem?_append_left (List.getElem?_eq_some_iff.1 isOther).1, isOther]

theorem isNumbered : project.IsNumbered := by
  intro position file isFile
  rcases grows.exists_kept isFile with ⟨otherFile, -, isOther, alike⟩
  rw [← alike.number]
  exact grows.numbered position otherFile isOther

theorem id_ne {file extra : SourceFile} (fileMem : file ∈ project.files)
    (extraMem : extra ∈ added) : extra.id ≠ file.id := by
  rcases List.mem_iff_getElem?.1 fileMem with ⟨position, isFile⟩
  rcases grows.exists_kept isFile with ⟨otherFile, otherMem, -, alike⟩
  have distinct := grows.numbered.nodup_ids
  rw [grows.files, List.map_append, List.nodup_append] at distinct
  rw [← alike.number]
  exact (distinct.2.2 _ (List.mem_map_of_mem otherMem) _ (List.mem_map_of_mem extraMem)).symm

/-- Files that stand under the same number are alike. -/
theorem of_pairs {file otherFile : SourceFile}
    (isPair : (project.pairing other).pairs file otherFile) :
    otherFile ∈ kept ∧ file.Alike (fun number => number) otherFile := by
  rcases isPair with ⟨fileMem, isOther⟩
  rcases List.mem_iff_getElem?.1 fileMem with ⟨position, isFile⟩
  rcases grows.exists_kept isFile with ⟨found, foundMem, isFound, alike⟩
  rw [grows.isNumbered position file isFile, isFound, Option.some.injEq] at isOther
  exact isOther ▸ ⟨foundMem, alike⟩

theorem forall₂_pairs : List.Forall₂ (fun file otherFile =>
    (project.pairing other).pairs file otherFile ∧ file.Alike (fun number => number) otherFile)
    project.files kept := by
  rw [List.forall₂_iff_get]
  refine ⟨grows.alike.length_eq, ?_⟩
  intro position inside otherInside
  refine ⟨⟨List.get_mem _ _, ?_⟩, grows.alike.get inside otherInside⟩
  have isNumber : (project.files.get ⟨position, inside⟩).id = position :=
    grows.isNumbered position _ (List.getElem?_eq_getElem inside)
  rw [isNumber, grows.files, List.getElem?_append_left otherInside]
  exact List.getElem?_eq_getElem otherInside

theorem tables : SymbolTable.Alike (project.pairing other)
    (project.symbolTable workingDirectory) (other.symbolTable workingDirectory) := by
  apply SymbolTable.alike_ofFiles grows.isNumbered
  case matched =>
    intro file fileMem
    rcases List.mem_iff_getElem?.1 fileMem with ⟨position, isFile⟩
    rcases grows.exists_kept isFile with ⟨otherFile, -, isOther, alike⟩
    rw [← grows.isNumbered position file isFile] at isOther
    exact ⟨otherFile, ⟨fileMem, isOther⟩, alike⟩
  case stands => exact fun _ _ isPair => isPair
  case target =>
    intro file otherFile isPair specifier specifierMem
    have sameTarget := grows.targets file isPair.1 specifier specifierMem
    have samePath := (grows.of_pairs isPair).2.path
    simp only [symbolTable, SymbolTable.target?, samePath] at sameTarget ⊢
    rw [sameTarget]
    exact Option.map_id'.symm

theorem entered_eq : other.entered = added.foldl Run.classify project.entered := by
  rw [entered, grows.files, List.foldl_append,
    Run.foldl_classify_of_alike (rfl : (project.pairing other).numbers = _) _ grows.forall₂_pairs]
  rfl

theorem exists_newer :
    ∃ newer, Run.Grows newer project.entered other.entered ∧
      ∀ entry ∈ newer, ∃ file ∈ added,
        entry.node.file = file.id ∧ entry.unit.span.file = file.id := by
  rcases project.entered.exists_newer_foldl_classify added with ⟨newer, entries, fromAdded⟩
  rw [← grows.entered_eq] at entries
  refine ⟨newer, ⟨entries, Run.local_empty.foldl_classify _, Run.nodup_ids_foldl_classify _, ?_⟩,
    fromAdded⟩
  intro entry entryMem older olderMem
  rcases fromAdded entry entryMem with ⟨extra, extraMem, isExtra, -⟩
  rcases Run.file_mem_of_mem_entries olderMem with ⟨file, fileMem, isFile⟩
  rw [isExtra, isFile]
  exact grows.id_ne fileMem extraMem

/-- The runs over the two projects find the same units for what the files share. -/
theorem agrees {newer : List Entry} (entered : Run.Grows newer project.entered other.entered)
    (fromAdded : ∀ entry ∈ newer, ∃ file ∈ added, entry.node.file = file.id) :
    Run.Agrees (project.pairing other) (fun id => id) project.entered other.entered := by
  have elsewhere : ∀ key : NodeKey, key.Shared (project.pairing other) →
      ∀ entry ∈ newer, entry.node.file ≠ key.file := by
    rintro _ ⟨node, otherNode, alike, rfl⟩ entry entryMem
    rcases fromAdded entry entryMem with ⟨extra, extraMem, isExtra⟩
    rw [isExtra]
    exact grows.id_ne alike.isPair.1 extraMem
  have older : ∀ {key : NodeKey} {id : UnitId},
      project.entered.unitOfDeclaration? key = some id →
        ∃ entry ∈ project.entered.entries, entry.unit.id = id := by
    intro key id isUnit
    rcases Option.map_eq_some_iff.1 isUnit with ⟨entry, isEntry, isId⟩
    exact ⟨entry, List.mem_of_find?_eq_some isEntry, isId⟩
  constructor
  case unitOfNode? =>
    intro key shared
    rw [Option.map_id']
    exact entered.unitOfNode? (elsewhere key shared)
  case unitOfDeclaration? =>
    intro key shared
    rw [Option.map_id']
    exact entered.unitOfDeclaration? (elsewhere key shared)
  case constructorOf? =>
    intro key id _ isUnit
    rcases older isUnit with ⟨entry, entryMem, rfl⟩
    rw [Option.map_id']
    exact entered.constructorOf? entryMem
  case kindOf? =>
    intro key id _ isUnit
    rcases older isUnit with ⟨entry, entryMem, rfl⟩
    exact entered.kindOf? entryMem
  case inserted =>
    intro comment inserted
    apply Run.unitOfNode?_of_isInserted inserted
    intro file fileMem sameId
    rcases inserted.isPaired with ⟨original, isPair⟩
    have commentMem : comment.file ∈ other.files := by
      rw [grows.files]
      exact List.mem_append_left _ (grows.of_pairs isPair).1
    exact List.inj_on_of_nodup_map grows.numbered.nodup_ids fileMem commentMem sameId

/-- The graph of the second project has the units of the first, and then those of further files. -/
theorem callGraph :
    ∃ roots units,
      (other.callGraph workingDirectory).roots =
        (project.callGraph workingDirectory).roots ++ roots ∧
      roots.length = added.length ∧
      (other.callGraph workingDirectory).units =
        (project.callGraph workingDirectory).units ++ units ∧
      ∀ unit ∈ units, ∃ file ∈ added, unit.span.file = file.id := by
  rcases grows.exists_newer with ⟨newer, entered, fromAdded⟩
  rcases project.entered.exists_roots_foldl_classify added with ⟨roots, isRoots, rootCount⟩
  rw [← grows.entered_eq] at isRoots
  have agrees := grows.agrees entered fun entry entryMem =>
    (fromAdded entry entryMem).imp fun file both => ⟨both.1, both.2.1⟩
  have sameClaims := agrees.flatMap_claims (fun _ _ alike => grows.tables.declarations alike)
    grows.forall₂_pairs
  simp only [List.map_id', Prod.mk.eta] at sameClaims
  let others := (other.symbolTable workingDirectory).declarations
  have claims : other.claims workingDirectory = project.claims workingDirectory ++
      added.flatMap (other.entered.claims others) := by
    rw [Project.claims, grows.files, List.flatMap_append, sameClaims]
    rfl
  have ofAdded : ∀ claim ∈ added.flatMap (other.entered.claims others),
      ∃ entry ∈ newer, entry.unit.id = claim.1 := by
    intro claim claimMem
    rcases List.mem_flatMap.1 claimMem with ⟨extra, extraMem, claimMem⟩
    rcases (Run.mem_entries_of_mem_claims claimMem).1 with ⟨entry, entryMem, isUnit, isFile⟩
    rw [entered.entries, List.mem_append] at entryMem
    rcases entryMem with fromNewer | older
    · exact ⟨entry, fromNewer, isUnit⟩
    · rcases Run.file_mem_of_mem_entries older with ⟨file, fileMem, isOld⟩
      exact absurd (isFile.symm.trans isOld) (grows.id_ne fileMem extraMem)
  have units := entered.units_grant (project.claims workingDirectory) ofAdded
  rw [← claims, ← units_callGraph, ← units_callGraph] at units
  refine ⟨roots, _, ?_, rootCount, units, ?_⟩
  · rwa [roots_callGraph, roots_callGraph]
  · intro unit unitMem
    rcases List.mem_map.1 (List.mem_reverse.1 unitMem) with ⟨entry, entryMem, rfl⟩
    exact (fromAdded entry entryMem).imp fun file both => ⟨both.1, both.2.2⟩

end GrowsInto

end Project

theorem ModuleIndex.file?_append (workingDirectory : Path) (config : Config)
    (files : List SourceFile) (extra : SourceFile) (path : Path) :
    (ofFiles workingDirectory config (files ++ [extra])).file? path =
        (ofFiles workingDirectory config files).file? path ∨
      (ofFiles workingDirectory config (files ++ [extra])).file? path = some extra.id := by
  simpa using file?_insert workingDirectory config files [] extra path

namespace Project

/-- The project with a further file at the end. -/
def extend (project : Project) (extra : SourceFile) : Project :=
  { project with files := project.files ++ [extra] }

/--
A file that the other files do not import does not interfere with them: with it,
the graph has the same units as without it, and then the units of the new file.
-/
theorem callGraph_extend (project : Project) (extra : SourceFile) (workingDirectory : Path)
    (numbered : (project.extend extra).IsNumbered)
    (unreferenced : ∀ file ∈ project.files, ∀ specifier ∈ file.specifiers,
      ((project.extend extra).symbolTable workingDirectory).target? file specifier ≠
        some extra.id) :
    ∃ added,
      ((project.extend extra).callGraph workingDirectory).units =
        (project.callGraph workingDirectory).units ++ added ∧
      (∀ unit ∈ (project.callGraph workingDirectory).units,
        ∃ file ∈ project.files, unit.span.file = file.id) ∧
      ∀ unit ∈ added, unit.span.file = extra.id := by
  have grows : GrowsInto workingDirectory project (project.extend extra) project.files [extra] := by
    refine ⟨rfl, List.forall₂_same.2 fun file _ => .refl file, numbered, ?_⟩
    intro file fileMem specifier specifierMem
    have notTarget := unreferenced file fileMem specifier specifierMem
    simp only [SymbolTable.target?, symbolTable, SymbolTable.ofFiles, extend,
      ModuleIndex.resolve?_ofFiles] at notTarget ⊢
    exact findSome?_of_ne (fun path _ => ModuleIndex.file?_append _ _ project.files extra path)
      notTarget
  rcases grows.callGraph with ⟨-, added, -, -, units, fromExtra⟩
  refine ⟨added, units, fun unit unitMem => Run.file_mem_of_mem_units unitMem, ?_⟩
  intro unit unitMem
  rcases fromExtra unit unitMem with ⟨file, fileMem, isFile⟩
  rw [isFile, List.mem_singleton.1 fileMem]

/-- The project of the caller and the callee. -/
def pair : Project :=
  ofSources pairParser .empty [caller, callee]

/-- A file that exports what the callee exports, and that no file imports. -/
def namesake : SourceFile :=
  ⟨2, ⟨"/c.ts"⟩, callee.2, pairParser .typeScript callee.2⟩

theorem callGraph_extend_namesake :
    (pair.extend namesake).IsNumbered ∧
    (∀ file ∈ pair.files, ∀ specifier ∈ file.specifiers,
      ((pair.extend namesake).symbolTable ⟨"/"⟩).target? file specifier ≠ some namesake.id) ∧
    ((pair.extend namesake).callGraph ⟨"/"⟩).units.map (fun unit => (unit.id, unit.calls)) =
      [(1, [3]), (2, []), (3, []), (4, []), (5, [])] ∧
    ∃ added, ((pair.extend namesake).callGraph ⟨"/"⟩).units =
      (pair.callGraph ⟨"/"⟩).units ++ added ∧ ∀ unit ∈ added, unit.span.file = 2 := by
  have numbered : (pair.extend namesake).IsNumbered :=
    isNumbered_ofSources pairParser .empty [caller, callee, (⟨"/c.ts"⟩, callee.2)]
  have unreferenced : ∀ file ∈ pair.files, ∀ specifier ∈ file.specifiers,
      ((pair.extend namesake).symbolTable ⟨"/"⟩).target? file specifier ≠ some namesake.id := by
    decide +kernel
  rcases callGraph_extend pair namesake ⟨"/"⟩ numbered unreferenced with
    ⟨added, units, -, fromExtra⟩
  exact ⟨numbered, unreferenced, by decide +kernel, added, units, fromExtra⟩

end Project

end CallHierarchy
