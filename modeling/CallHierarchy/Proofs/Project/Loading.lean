import CallHierarchy.Project
import CallHierarchy.Proofs.Path.Walk
import Mathlib.Data.List.Forall2
import Mathlib.Data.List.Induction
import Mathlib.Data.List.Nodup

/-!
# From given paths to the files of a project

Paths are given in any spelling and can be given more than once. Their normal forms
decide: a project holds the first occurrences of the normal forms that lead through
no dependencies. Whatever name a path ends in, its normal form ends in the same, so
that a path to a source file is one in every spelling.
-/

namespace CallHierarchy

namespace Path

theorem fileName?_ofNames_concat {names : List String} {name : String}
    (areNames : ∀ other ∈ names ++ [name], IsName other) :
    (ofNames (names ++ [name])).fileName? = some name := by
  rw [fileName?, components_ofNames areNames, List.map_append, List.map_singleton,
    ← List.cons_append, List.getLast?_concat]

/-- The normal form of a path that ends in a name ends in the same name. -/
theorem fileName?_normalize {path : Path} {name : String} (isName : path.fileName? = some name)
    (workingDirectory : Path) : (path.normalize workingDirectory).fileName? = some name := by
  rcases exists_parent_of_fileName? isName with ⟨directory, -, leads⟩
  have isSpot : (path.spot workingDirectory).reverse =
      (directory.lead (workingDirectory.lead [])).reverse ++ [name] := by
    rw [spot, leads, List.reverse_cons]
  have areNames : ∀ other ∈ (path.spot workingDirectory).reverse, IsName other :=
    fun other otherMem => isName_of_mem_spot other (List.mem_reverse.1 otherMem)
  rw [normalize_of_ne_empty (text_ne_empty_of_fileName? isName), isSpot]
  exact fileName?_ofNames_concat (isSpot ▸ areNames)

end Path

namespace Language

theorem exists_fileName?_of_isSupported {path : Path} (supported : isSupported path) :
    ∃ name, path.fileName? = some name := by
  rcases isName : path.fileName? with _ | name
  · simp [isSupported, ofPath?, Path.extension?, isName] at supported
  · exact ⟨name, rfl⟩

/-- A path to a source file is one in every spelling, and in the same dialect. -/
theorem ofPath?_normalize {path : Path} (supported : isSupported path)
    (workingDirectory : Path) : ofPath? (path.normalize workingDirectory) = ofPath? path := by
  rcases exists_fileName?_of_isSupported supported with ⟨name, isName⟩
  simp only [ofPath?, Path.extension?, isName, Path.fileName?_normalize isName]

end Language

/-! ### First occurrences -/

section FirstOccurrences

variable {α : Type} [DecidableEq α] {items : List α}

theorem eraseDups_concat (items : List α) (last : α) :
    (items ++ [last]).eraseDups = items.eraseDups ++ if last ∈ items then [] else [last] := by
  rw [List.eraseDups_append]
  by_cases known : last ∈ items <;> simp [List.removeAll, known, List.eraseDups_cons]

theorem eraseDups_of_nodup (distinct : items.Nodup) : items.eraseDups = items := by
  induction items with
  | nil => rfl
  | cons item rest ih =>
      rcases List.nodup_cons.1 distinct with ⟨isNew, restDistinct⟩
      have kept : rest.filter (fun other => !other == item) = rest := by
        rw [List.filter_eq_self]
        rintro other otherMem
        simpa using fun same : other = item => isNew (same ▸ otherMem)
      rw [List.eraseDups_cons, kept, ih restDistinct]

/-- The first occurrences of what is kept of a list stand in the order of the list. -/
theorem pairwise_idxOf_eraseDups_filter (items : List α) (keep : α → Bool) :
    (items.filter keep).eraseDups.Pairwise fun item other =>
      items.idxOf item < items.idxOf other := by
  induction items using List.reverseRecOn with
  | nil => exact List.Pairwise.nil
  | append_singleton items last ih =>
      have earlier : ∀ item ∈ (items.filter keep).eraseDups, item ∈ items := fun item itemMem =>
        List.mem_of_mem_filter (List.mem_eraseDups.1 itemMem)
      have asBefore : (items.filter keep).eraseDups.Pairwise fun item other =>
          (items ++ [last]).idxOf item < (items ++ [last]).idxOf other := by
        refine ih.imp_of_mem ?_
        intro item other itemMem otherMem isBefore
        rwa [List.idxOf_append_of_mem (earlier item itemMem),
          List.idxOf_append_of_mem (earlier other otherMem)]
      rw [List.filter_append]
      by_cases kept : keep last
      · rw [List.filter_cons_of_pos kept, List.filter_nil, eraseDups_concat]
        split
        case isTrue => rwa [List.append_nil]
        case isFalse isNew =>
          have notMem : last ∉ items := fun lastMem => isNew (List.mem_filter.2 ⟨lastMem, kept⟩)
          refine List.pairwise_append.2 ⟨asBefore, List.pairwise_singleton _ _, ?_⟩
          intro item itemMem other otherMem
          rw [List.mem_singleton.1 otherMem, List.idxOf_append_of_mem (earlier item itemMem),
            List.idxOf_append_of_notMem notMem]
          have inItems := List.idxOf_lt_length_iff.2 (earlier item itemMem)
          omega
      · rwa [List.filter_cons_of_neg kept, List.filter_nil, List.append_nil]

end FirstOccurrences

/-! ### Reading one file after the other -/

section Reading

variable {α β ε : Type} {read : α → Except ε β} {items : List α}

theorem forall₂_of_mapM_eq_ok {results : List β} (isRead : items.mapM read = .ok results) :
    List.Forall₂ (fun item result => read item = .ok result) items results := by
  induction items generalizing results with
  | nil =>
      cases isRead
      exact .nil
  | cons item rest ih =>
      rw [List.mapM_cons] at isRead
      cases isFirst : read item with
      | error error => simp [isFirst, bind, Except.bind] at isRead
      | ok result =>
          cases areRest : rest.mapM read with
          | error error => simp [isFirst, areRest, bind, Except.bind] at isRead
          | ok others =>
              simp only [isFirst, areRest, bind, Except.bind, pure, Except.pure,
                Except.ok.injEq] at isRead
              subst isRead
              exact .cons isFirst (ih areRest)

theorem forall_mem_of_mapM_eq_ok {results : List β} {property : β → Prop}
    (each : ∀ item result, read item = .ok result → property result)
    (isRead : items.mapM read = .ok results) : ∀ result ∈ results, property result := by
  have flipped := (forall₂_of_mapM_eq_ok isRead).flip
  refine ((List.forall₂_and_left (R := fun _ _ => True) results items).1 (flipped.imp ?_)).1
  exact fun result item isResult => ⟨each item result isResult, trivial⟩

theorem exists_of_mapM_eq_error {error : ε} (fails : items.mapM read = .error error) :
    ∃ item ∈ items, read item = .error error := by
  induction items with
  | nil => cases fails
  | cons item rest ih =>
      rw [List.mapM_cons] at fails
      cases isFirst : read item with
      | error other =>
          simp only [isFirst, bind, Except.bind, Except.error.injEq] at fails
          exact ⟨item, List.mem_cons_self, fails ▸ isFirst⟩
      | ok result =>
          cases areRest : rest.mapM read with
          | error other =>
              simp only [isFirst, areRest, bind, Except.bind, Except.error.injEq] at fails
              rcases ih (fails ▸ areRest) with ⟨culprit, culpritMem, isError⟩
              exact ⟨culprit, List.mem_cons_of_mem _ culpritMem, isError⟩
          | ok others => simp [isFirst, areRest, bind, Except.bind, pure, Except.pure] at fails

end Reading

namespace Project

variable {workingDirectory : Path} {paths : List Path}

/-! ### The paths of the files -/

theorem mem_inputPaths {path : Path} :
    path ∈ inputPaths workingDirectory paths ↔
      path ∈ paths.map (·.normalize workingDirectory) ∧ .name "node_modules" ∉ path.components := by
  simp only [inputPaths, List.mem_eraseDups, List.mem_filter, isDependency, Path.hasName,
    Bool.not_eq_true', List.contains_eq_mem, decide_eq_false_iff_not]

theorem pairwise_inputPaths (workingDirectory : Path) (paths : List Path) :
    (inputPaths workingDirectory paths).Pairwise fun path other =>
      (paths.map (·.normalize workingDirectory)).idxOf path <
        (paths.map (·.normalize workingDirectory)).idxOf other :=
  pairwise_idxOf_eraseDups_filter _ _

theorem nodup_inputPaths (workingDirectory : Path) (paths : List Path) :
    (inputPaths workingDirectory paths).Nodup := by
  refine (pairwise_inputPaths workingDirectory paths).imp ?_
  rintro path other isBefore rfl
  exact Nat.lt_irrefl _ isBefore

/-- What is to be read is in its normal form already. -/
theorem inputPaths_inputPaths (workingDirectory : Path) (paths : List Path) :
    inputPaths workingDirectory (inputPaths workingDirectory paths) =
      inputPaths workingDirectory paths := by
  have areNormal : (inputPaths workingDirectory paths).map (·.normalize workingDirectory) =
      inputPaths workingDirectory paths := by
    refine (List.map_congr_left ?_).trans (List.map_id _)
    intro path pathMem
    rcases List.mem_map.1 (mem_inputPaths.1 pathMem).1 with ⟨given, -, rfl⟩
    exact given.normalize_normalize workingDirectory
  have areKept : (inputPaths workingDirectory paths).filter (!isDependency ·) =
      inputPaths workingDirectory paths := by
    rw [List.filter_eq_self]
    intro path pathMem
    exact (List.mem_filter.1 (List.mem_eraseDups.1 pathMem)).2
  rw [inputPaths, areNormal, areKept]
  exact eraseDups_of_nodup (nodup_inputPaths workingDirectory paths)

/-- Other spellings of what was given and paths to dependencies add nothing. -/
theorem inputPaths_append {more : List Path}
    (known : ∀ path ∈ more, path.normalize workingDirectory ∈
        paths.map (·.normalize workingDirectory) ∨
      .name "node_modules" ∈ (path.normalize workingDirectory).components) :
    inputPaths workingDirectory (paths ++ more) = inputPaths workingDirectory paths := by
  have nothingNew : ((more.map (·.normalize workingDirectory)).filter (!isDependency ·)).removeAll
      ((paths.map (·.normalize workingDirectory)).filter (!isDependency ·)) = [] := by
    rw [List.removeAll, List.filter_eq_nil_iff]
    intro path pathMem
    rcases List.mem_filter.1 pathMem with ⟨pathMem, isOutside⟩
    rcases List.mem_map.1 pathMem with ⟨given, givenMem, rfl⟩
    rcases known given givenMem with isKnown | inside
    · simpa using ⟨List.mem_map.1 isKnown, by simpa using isOutside⟩
    · simp [isDependency, Path.hasName, inside] at isOutside
  rw [inputPaths, List.map_append, List.filter_append, List.eraseDups_append, nothingNew]
  simp [inputPaths]

theorem exists_of_bind_eq_ok {ε α β : Type} {first : Except ε α} {next : α → Except ε β}
    {result : β} (isOk : first >>= next = .ok result) :
    ∃ value, first = .ok value ∧ next value = .ok result := by
  cases first with
  | error error => cases isOk
  | ok value => exact ⟨value, rfl, isOk⟩

theorem isSupported_of_globbedFiles {glob : Globber} {fileSystem : FileSystem} {pattern : String}
    (globbed : globbedFiles glob fileSystem pattern = .ok paths) :
    ∀ path ∈ paths, Language.isSupported path := by
  unfold globbedFiles at globbed
  split at globbed
  case h_1 => cases globbed
  case h_2 entries _ =>
    rcases exists_of_bind_eq_ok globbed with ⟨found, -, isFiltered⟩
    cases isFiltered
    intro path pathMem
    have isKept := (List.mem_filter.1 pathMem).2
    simp only [Bool.and_eq_true] at isKept
    exact isKept.1.2

/-- What is discovered are source files only. -/
theorem isSupported_of_discover {glob : Globber} {fileSystem : FileSystem} {files : List Path}
    {patterns : List String} (discovered : discover glob fileSystem files patterns = .ok paths) :
    ∀ path ∈ paths, Language.isSupported path := by
  rcases exists_of_bind_eq_ok discovered with ⟨globbed, areGlobbed, isWhole⟩
  cases isWhole
  intro path pathMem
  rcases List.mem_append.1 pathMem with isGiven | isGlobbed
  · exact (List.mem_filter.1 isGiven).2
  · rcases List.mem_flatten.1 isGlobbed with ⟨found, foundMem, pathMem⟩
    exact forall_mem_of_mapM_eq_ok (fun _ _ => isSupported_of_globbedFiles) areGlobbed found
      foundMem path pathMem

/-! ### The loaded project -/

section Loading

variable {fileSystem : FileSystem} {parser : Parser} {config : Config}

theorem readSource_eq_ok {path : Path} {source : Path × String}
    (isSource : readSource fileSystem path = .ok source) :
    fileSystem.read source.1 = .ok source.2 ∧ source.1 = path := by
  unfold readSource at isSource
  split at isSource
  case h_1 => cases isSource
  case h_2 text isText =>
    cases isSource
    exact ⟨isText, rfl⟩

theorem readSource_eq_error {path : Path} {error : ProjectError}
    (isError : readSource fileSystem path = .error error) :
    ∃ cause, fileSystem.read path = .error cause ∧ error = .unreadableSource path cause := by
  unfold readSource at isError
  split at isError
  case h_1 cause isCause =>
    cases isError
    exact ⟨cause, isCause, rfl⟩
  case h_2 => cases isError

/-- Reading adds the texts to the paths and leaves the paths in their order. -/
theorem mapM_readSource_eq_ok {sources : List (Path × String)}
    (areRead : paths.mapM (readSource fileSystem) = .ok sources) :
    (∀ source ∈ sources, fileSystem.read source.1 = .ok source.2) ∧
      sources.map (·.1) = paths := by
  have flipped := (forall₂_of_mapM_eq_ok areRead).flip
  have each := (List.forall₂_and_left sources paths).1
    (flipped.imp fun source path isSource => readSource_eq_ok isSource)
  refine ⟨each.1, ?_⟩
  rw [← List.forall₂_eq_eq_eq, List.forall₂_map_left_iff]
  exact each.2

theorem map_path_files_ofSources (parser : Parser) (config : Config)
    (sources : List (Path × String)) :
    (ofSources parser config sources).files.map (·.path) = sources.map (·.1) := by
  rw [ofSources, List.map_map]
  conv_rhs => rw [← List.zipIdx_map_fst 0 sources, List.map_map]
  rfl

theorem getElem?_files_ofSources (parser : Parser) (config : Config)
    (sources : List (Path × String)) (id : FileId) :
    (ofSources parser config sources).files[id]? = (sources[id]?).map fun source =>
      ⟨id, source.1, source.2, parser (Language.ofPath source.1) source.2⟩ := by
  simp only [ofSources, List.getElem?_map, List.getElem?_zipIdx, Option.map_map, Nat.zero_add]
  rfl

/-- Whether everything that some paths stand for can be read, dependencies aside. -/
def AllReadable (fileSystem : FileSystem) (paths : List Path) : Prop :=
  ∀ path ∈ paths,
    .name "node_modules" ∉ (path.normalize fileSystem.workingDirectory).components →
      ∃ text, fileSystem.read (path.normalize fileSystem.workingDirectory) = .ok text

/-- What is loaded from some paths to source files. -/
structure LoadedFrom (fileSystem : FileSystem) (parser : Parser) (config : Config)
    (paths : List Path) (project : Project) : Prop where
  isConfig : project.config = config
  /-- The files are those that the paths stand for, dependencies aside. -/
  mem_iff : ∀ path, path ∈ project.files.map (·.path) ↔
    path ∈ paths.map (·.normalize fileSystem.workingDirectory) ∧
      .name "node_modules" ∉ path.components
  /-- They stand in the order in which the paths mention them first. -/
  inOrder : (project.files.map (·.path)).Pairwise fun path other =>
    (paths.map (·.normalize fileSystem.workingDirectory)).idxOf path <
      (paths.map (·.normalize fileSystem.workingDirectory)).idxOf other
  distinct : (project.files.map (·.path)).Nodup
  isNumber : ∀ (position : Nat) (file : SourceFile), project.files[position]? = some file →
    file.id = position
  isAbsolute : ∀ file ∈ project.files, file.path.isAbsolute
  isText : ∀ file ∈ project.files, fileSystem.read file.path = .ok file.text
  /-- The extension of each file belongs to a language, in which the file is parsed. -/
  isTree : ∀ file ∈ project.files, ∃ extension language,
    file.path.extension? = some extension ∧ Language.ofExtension? extension = some language ∧
      file.language = language ∧ file.root = parser language file.text

theorem exists_extension_of_isSupported {path : Path} (supported : Language.isSupported path)
    (workingDirectory : Path) :
    ∃ extension language, (path.normalize workingDirectory).extension? = some extension ∧
      Language.ofExtension? extension = some language ∧
      Language.ofPath (path.normalize workingDirectory) = language := by
  rcases Option.isSome_iff_exists.1 supported with ⟨language, isLanguage⟩
  have isNormalLanguage := (Language.ofPath?_normalize supported workingDirectory).trans isLanguage
  rcases Option.bind_eq_some_iff.1 isNormalLanguage with ⟨extension, isExtension, ofExtension⟩
  refine ⟨extension, language, isExtension, ofExtension, ?_⟩
  rw [Language.ofPath, isNormalLanguage, Option.getD_some]

theorem loadedFrom_ofSources {sources : List (Path × String)}
    (supported : ∀ path ∈ paths, Language.isSupported path)
    (areRead : (inputPaths fileSystem.workingDirectory paths).mapM (readSource fileSystem) =
      .ok sources) :
    LoadedFrom fileSystem parser config paths (ofSources parser config sources) := by
  rcases mapM_readSource_eq_ok areRead with ⟨areTexts, arePaths⟩
  have areInputs : (ofSources parser config sources).files.map (·.path) =
      inputPaths fileSystem.workingDirectory paths :=
    (map_path_files_ofSources parser config sources).trans arePaths
  have ofSource : ∀ file ∈ (ofSources parser config sources).files, ∃ position source,
      source ∈ sources ∧ ⟨position, source.1, source.2,
        parser (Language.ofPath source.1) source.2⟩ = file := by
    intro file fileMem
    rcases List.mem_iff_getElem?.1 fileMem with ⟨position, isFile⟩
    rw [getElem?_files_ofSources] at isFile
    rcases Option.map_eq_some_iff.1 isFile with ⟨source, isSource, isFile⟩
    exact ⟨position, source, List.mem_of_getElem? isSource, isFile⟩
  have isGiven : ∀ file ∈ (ofSources parser config sources).files, ∃ given,
      Language.isSupported given ∧
        given.normalize fileSystem.workingDirectory = file.path := by
    intro file fileMem
    have pathMem : file.path ∈ inputPaths fileSystem.workingDirectory paths :=
      areInputs ▸ List.mem_map_of_mem fileMem
    rcases List.mem_map.1 (mem_inputPaths.1 pathMem).1 with ⟨given, givenMem, isPath⟩
    exact ⟨given, supported given givenMem, isPath⟩
  refine ⟨rfl, ?_, ?_, ?_, ?_, ?_, ?_, ?_⟩
  · rw [areInputs]
    exact fun path => mem_inputPaths
  · rw [areInputs]
    exact pairwise_inputPaths fileSystem.workingDirectory paths
  · rw [areInputs]
    exact nodup_inputPaths fileSystem.workingDirectory paths
  · intro position file isFile
    rw [getElem?_files_ofSources] at isFile
    rcases Option.map_eq_some_iff.1 isFile with ⟨source, -, rfl⟩
    rfl
  · intro file fileMem
    rcases isGiven file fileMem with ⟨given, isSupported, isPath⟩
    rcases Language.exists_fileName?_of_isSupported isSupported with ⟨name, isName⟩
    rw [← isPath]
    exact (Path.normalize_shape (Path.text_ne_empty_of_fileName? isName) _).1
  · intro file fileMem
    rcases ofSource file fileMem with ⟨position, source, sourceMem, rfl⟩
    exact areTexts source sourceMem
  · intro file fileMem
    rcases isGiven file fileMem with ⟨given, isSupported, isPath⟩
    rcases exists_extension_of_isSupported isSupported fileSystem.workingDirectory with
      ⟨extension, language, isExtension, ofExtension, isLanguage⟩
    rw [isPath] at isExtension isLanguage
    refine ⟨extension, language, isExtension, ofExtension, isLanguage, ?_⟩
    rcases ofSource file fileMem with ⟨position, source, sourceMem, rfl⟩
    rw [← isLanguage]

theorem allReadable_iff :
    AllReadable fileSystem paths ↔
      ∀ path ∈ inputPaths fileSystem.workingDirectory paths, ∃ text,
        fileSystem.read path = .ok text := by
  simp only [mem_inputPaths, List.mem_map]
  constructor
  · rintro readable _ ⟨⟨path, pathMem, rfl⟩, isOutside⟩
    exact readable path pathMem isOutside
  · intro readable path pathMem isOutside
    exact readable _ ⟨⟨path, pathMem, rfl⟩, isOutside⟩

/-- Loading succeeds with what was read, or fails at a file that cannot be read. -/
theorem loadWith_cases (fileSystem : FileSystem) (parser : Parser) (config : Config)
    (paths : List Path) :
    (AllReadable fileSystem paths ∧ ∃ sources,
      (inputPaths fileSystem.workingDirectory paths).mapM (readSource fileSystem) = .ok sources ∧
      loadWith fileSystem parser config paths = .ok (ofSources parser config sources)) ∨
    (¬AllReadable fileSystem paths ∧ ∃ path ∈ inputPaths fileSystem.workingDirectory paths,
      ∃ cause, fileSystem.read path = .error cause ∧
        loadWith fileSystem parser config paths = .error (.unreadableSource path cause)) := by
  have isLoaded : loadWith fileSystem parser config paths =
      ((inputPaths fileSystem.workingDirectory paths).mapM (readSource fileSystem)).map
        (ofSources parser config) := rfl
  rw [allReadable_iff]
  cases areRead : (inputPaths fileSystem.workingDirectory paths).mapM (readSource fileSystem) with
  | ok sources =>
      rcases mapM_readSource_eq_ok areRead with ⟨areTexts, arePaths⟩
      refine .inl ⟨?_, sources, rfl, by rw [isLoaded, areRead]; rfl⟩
      intro path pathMem
      rcases List.mem_map.1 (arePaths ▸ pathMem) with ⟨source, sourceMem, rfl⟩
      exact ⟨source.2, areTexts source sourceMem⟩
  | error error =>
      rcases exists_of_mapM_eq_error areRead with ⟨path, pathMem, isError⟩
      rcases readSource_eq_error isError with ⟨cause, isCause, rfl⟩
      refine .inr ⟨?_, path, pathMem, cause, isCause, by rw [isLoaded, areRead]; rfl⟩
      intro readable
      rcases readable path pathMem with ⟨text, isText⟩
      simp [isCause] at isText

/--
A project is loaded from what is discovered just if all of it can be read. Otherwise loading
fails at a path that cannot be read.
-/
theorem loadWith_discovered (fileSystem : FileSystem) (parser : Parser) (config : Config)
    {glob : Globber} {files paths : List Path} {patterns : List String}
    (discovered : discover glob fileSystem files patterns = .ok paths) :
    ((∃ project, loadWith fileSystem parser config paths = .ok project) ↔
      AllReadable fileSystem paths) ∧
    (¬AllReadable fileSystem paths → ∃ path ∈ paths, ∃ cause,
      .name "node_modules" ∉ (path.normalize fileSystem.workingDirectory).components ∧
      fileSystem.read (path.normalize fileSystem.workingDirectory) = .error cause ∧
      loadWith fileSystem parser config paths =
        .error (.unreadableSource (path.normalize fileSystem.workingDirectory) cause)) ∧
    (∀ project, loadWith fileSystem parser config paths = .ok project →
      LoadedFrom fileSystem parser config paths project) ∧
    (∀ given, inputPaths fileSystem.workingDirectory
      (inputPaths fileSystem.workingDirectory given) =
        inputPaths fileSystem.workingDirectory given) ∧
    ∀ more, (∀ path ∈ more, (∃ given ∈ paths, path.normalize fileSystem.workingDirectory =
        given.normalize fileSystem.workingDirectory) ∨
      .name "node_modules" ∈ (path.normalize fileSystem.workingDirectory).components) →
      loadWith fileSystem parser config (paths ++ more) =
        loadWith fileSystem parser config paths := by
  refine ⟨?_, ?_, ?_, inputPaths_inputPaths _, ?_⟩
  · rcases loadWith_cases fileSystem parser config paths with
      ⟨readable, sources, -, isLoaded⟩ | ⟨unreadable, path, -, cause, -, fails⟩
    · simp [readable, isLoaded]
    · simp [unreadable, fails]
  · intro unreadable
    rcases loadWith_cases fileSystem parser config paths with
      ⟨readable, -⟩ | ⟨-, path, pathMem, cause, isCause, fails⟩
    · exact absurd readable unreadable
    · rcases mem_inputPaths.1 pathMem with ⟨isNormal, isOutside⟩
      rcases List.mem_map.1 isNormal with ⟨given, givenMem, rfl⟩
      exact ⟨given, givenMem, cause, isOutside, isCause, fails⟩
  · intro project isProject
    rcases loadWith_cases fileSystem parser config paths with
      ⟨-, sources, areRead, isLoaded⟩ | ⟨-, path, -, cause, -, fails⟩
    · rw [isLoaded, Except.ok.injEq] at isProject
      rw [← isProject]
      exact loadedFrom_ofSources (isSupported_of_discover discovered) areRead
    · simp [fails] at isProject
  · intro more known
    have nothingNew : inputPaths fileSystem.workingDirectory (paths ++ more) =
        inputPaths fileSystem.workingDirectory paths := by
      apply inputPaths_append
      simpa [eq_comm] using known
    simp only [loadWith, nothingNew]

/-- Two source files and a dependency. -/
def sourcesAndDependency : FileSystem where
  workingDirectory := ⟨"/p"⟩
  entries :=
    [(["p", "main.js"], .file "".toUTF8), (["p", "lib", "util.ts"], .file "".toUTF8),
      (["p", "node_modules", "dep.ts"], .file "".toUTF8)]

/-- A parser that finds the empty program in every text. -/
def parseNothing : Parser := fun _ _ => .node ⟨⟨"program", true⟩, 0, 0, none⟩ []

/-- Patterns without wildcards: each stands for the path that it spells. -/
def globPlain : Globber := fun _ pattern => .ok [.ok ⟨pattern⟩]

/-- One of the source files in two spellings, the dependency and a glob for the other one. -/
theorem loadWith_discovered_spellings :
    let given : List Path :=
      [⟨"lib/../main.js"⟩, ⟨"README.md"⟩, ⟨"./main.js"⟩, ⟨"node_modules/dep.ts"⟩]
    let paths : List Path :=
      [⟨"lib/../main.js"⟩, ⟨"./main.js"⟩, ⟨"node_modules/dep.ts"⟩, ⟨"lib/util.ts"⟩]
    let project := ofSources parseNothing .empty [(⟨"/p/main.js"⟩, ""), (⟨"/p/lib/util.ts"⟩, "")]
    discover globPlain sourcesAndDependency given ["lib/util.ts"] = .ok paths ∧
    AllReadable sourcesAndDependency paths ∧
    loadWith sourcesAndDependency parseNothing .empty paths = .ok project ∧
    LoadedFrom sourcesAndDependency parseNothing .empty paths project ∧
    loadWith sourcesAndDependency parseNothing .empty (paths ++ [⟨"/p//lib/./util.ts"⟩]) =
      .ok project := by
  intro given paths project
  have discovered : discover globPlain sourcesAndDependency given ["lib/util.ts"] = .ok paths := rfl
  have isProject : loadWith sourcesAndDependency parseNothing .empty paths = .ok project := rfl
  rcases loadWith_discovered sourcesAndDependency parseNothing .empty discovered with
    ⟨succeeds, -, loaded, -, unchanged⟩
  refine ⟨discovered, succeeds.1 ⟨project, isProject⟩, isProject, loaded project isProject,
    (unchanged _ ?_).trans isProject⟩
  intro path isOther
  rw [List.mem_singleton.1 isOther]
  exact .inl ⟨⟨"lib/util.ts"⟩, by simp [paths], by decide⟩

end Loading

end Project

end CallHierarchy
