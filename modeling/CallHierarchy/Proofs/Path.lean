import CallHierarchy.FileSystem
import Mathlib.Data.List.Basic

/-!
# Normal paths

A normal path leads from the root through names only. Normalizing gives such a
path, and adding an extension keeps it normal. A normal path spells out the place
that it leads to, so there are no more normal paths that lead to a file than there
are files.
-/

namespace CallHierarchy

namespace Path

/-- What stands between two slashes of a normal path. -/
structure IsName (name : String) : Prop where
  notEmpty : name ≠ ""
  notCurrent : name ≠ "."
  notParent : name ≠ ".."
  noSlash : '/' ∉ name.toList

/-- Whether a path leads from the root through names only. -/
def IsNormal (path : Path) : Prop :=
  ∃ names, (∀ name ∈ names, IsName name) ∧ path = ofNames names

theorem notMem_of_mem_splitOn {α : Type} [DecidableEq α] {separator : α} {items part : List α}
    (partMem : part ∈ items.splitOn separator) : separator ∉ part := by
  induction items generalizing part with
  | nil => simp_all
  | cons item items ih =>
      rw [List.splitOn_cons_eq_if_modifyHead] at partMem
      by_cases isSeparator : item = separator
      · rcases List.mem_cons.1 (by simpa [isSeparator] using partMem) with rfl | later
        · simp
        · exact ih later
      · cases isSplit : items.splitOn separator with
        | nil => simp [isSplit, isSeparator] at partMem
        | cons first rest =>
            have parts : part = item :: first ∨ part ∈ rest := by
              simpa [isSplit, isSeparator] using partMem
            rcases parts with rfl | later
            · have free : separator ∉ first := ih (by simp [isSplit])
              simp [free, Ne.symm isSeparator]
            · exact ih (by simp [isSplit, later])

theorem noSlash_of_mem_segments {path : Path} {segment : String}
    (segmentMem : segment ∈ path.segments) : '/' ∉ segment.toList := by
  rcases List.mem_map.1 segmentMem with ⟨part, partMem, rfl⟩
  simpa using notMem_of_mem_splitOn partMem

theorem componentOf?_of_isName {name : String} (isName : IsName name) :
    componentOf? name = some (.name name) := by
  simp [componentOf?, isName.notEmpty, isName.notCurrent, isName.notParent]

theorem isName_of_mem_components {path : Path} {name : String}
    (nameMem : .name name ∈ path.components) : IsName name := by
  have named : .name name ∈ path.segments.filterMap componentOf? := by
    unfold components at nameMem
    split at nameMem
    · simpa using nameMem
    · split at nameMem <;> simpa using nameMem
  rcases List.mem_filterMap.1 named with ⟨segment, segmentMem, isComponent⟩
  have noSlash := noSlash_of_mem_segments segmentMem
  unfold componentOf? at isComponent
  split at isComponent
  case isTrue => simp at isComponent
  case isFalse notPlain =>
    split at isComponent
    case isTrue => simp at isComponent
    case isFalse notParent =>
      have same : segment = name := by simpa using isComponent
      subst same
      exact ⟨fun is => notPlain (.inl is), fun is => notPlain (.inr is), notParent, noSlash⟩

theorem isName_of_mem_walk {names : List String} {component : Component}
    (areNames : ∀ name ∈ names, IsName name)
    (named : ∀ name, component = .name name → IsName name) :
    ∀ name ∈ walk names component, IsName name := by
  cases component with
  | root => simp [walk]
  | current => exact areNames
  | parent => exact fun name nameMem => areNames name (List.mem_of_mem_tail nameMem)
  | name text => simpa [walk, named text rfl] using areNames

theorem isName_of_mem_foldl_walk {components : List Component} {names : List String}
    (named : ∀ name, .name name ∈ components → IsName name)
    (areNames : ∀ name ∈ names, IsName name) :
    ∀ name ∈ components.foldl walk names, IsName name := by
  induction components generalizing names with
  | nil => exact areNames
  | cons component components ih =>
      apply ih
      · exact fun name nameMem => named name (by simp [nameMem])
      · exact isName_of_mem_walk areNames fun name is => named name (by simp [is])

theorem isName_of_mem_resolve {components : List Component}
    (named : ∀ name, .name name ∈ components → IsName name) :
    ∀ name ∈ resolve components, IsName name := by
  intro name nameMem
  exact isName_of_mem_foldl_walk named (by simp) name (List.mem_reverse.1 nameMem)

theorem isNormal_normalize {path workingDirectory : Path} (notEmpty : path.text ≠ "") :
    (path.normalize workingDirectory).IsNormal := by
  unfold normalize
  rw [if_neg notEmpty]
  split
  · exact ⟨_, isName_of_mem_resolve fun name => isName_of_mem_components, rfl⟩
  · refine ⟨_, isName_of_mem_resolve fun name nameMem => ?_, rfl⟩
    rcases List.mem_append.1 nameMem with inDirectory | inPath
    · exact isName_of_mem_components inDirectory
    · exact isName_of_mem_components inPath

theorem toList_ofNames (names : List String) :
    (ofNames names).text.toList = '/' :: ['/'].intercalate (names.map String.toList) := by
  simp [ofNames, String.toList_intercalate]

theorem segments_ofNames {names : List String} (areNames : ∀ name ∈ names, IsName name)
    (notRoot : names ≠ []) : (ofNames names).segments = "" :: names := by
  have joined : (ofNames names).text.toList =
      ['/'].intercalate ([] :: names.map String.toList) := by
    rw [toList_ofNames, List.intercalate_cons_of_ne_nil (by simpa using notRoot)]
    rfl
  have noSlash : ∀ part ∈ [] :: names.map String.toList, '/' ∉ part := by
    simpa using fun name nameMem => (areNames name nameMem).noSlash
  rw [segments, joined, List.splitOn_intercalate '/' noSlash (by simp)]
  simp [Function.comp_def]

theorem components_ofNames {names : List String} (areNames : ∀ name ∈ names, IsName name) :
    (ofNames names).components = .root :: names.map .name := by
  have isAbsolute : (ofNames names).isAbsolute := by simp [Path.isAbsolute, toList_ofNames]
  rw [components, if_pos isAbsolute]
  congr 1
  cases names with
  | nil => rfl
  | cons first rest =>
      rw [segments_ofNames areNames (by simp), List.filterMap_cons_none (by decide)]
      rw [← List.filterMap_eq_map]
      exact List.filterMap_congr fun name nameMem => componentOf?_of_isName (areNames name nameMem)

theorem intercalate_concat (names : List String) (last extension : String) :
    "/".intercalate (names ++ [last ++ extension]) =
      "/".intercalate (names ++ [last]) ++ extension := by
  by_cases isEmpty : names = []
  · simp [isEmpty]
  · simp [String.intercalate_append_of_ne_nil isEmpty, String.append_assoc]

theorem isName_append {name extension : String} (isName : IsName name)
    (isLong : 2 < extension.length) (noSlash : '/' ∉ extension.toList) :
    IsName (name ++ extension) := by
  have differs : ∀ other : String, other.length ≤ 2 → name ++ extension ≠ other := by
    rintro other isShort rfl
    rw [String.length_append] at isShort
    omega
  refine ⟨differs _ (by decide), differs _ (by decide), differs _ (by decide), ?_⟩
  simpa using ⟨isName.noSlash, noSlash⟩

/-- An extension is added to the last name. -/
theorem isNormal_withDefaultExtension {path : Path} (isNormal : path.IsNormal) :
    (path.withDefaultExtension "json").IsNormal := by
  rcases isNormal with ⟨names, areNames, rfl⟩
  unfold withDefaultExtension
  split
  case isFalse => exact ⟨names, areNames, rfl⟩
  case isTrue isBare =>
    rcases List.eq_nil_or_concat names with rfl | ⟨directory, last, rfl⟩
    · simp [fileName?, components_ofNames] at isBare
    · refine ⟨directory ++ [last ++ ".json"], ?_, ?_⟩
      · simp only [List.mem_append, List.mem_singleton]
        rintro name (inDirectory | rfl)
        · exact areNames name (by simp [inDirectory])
        · exact isName_append (areNames last (by simp)) (by decide) (by decide)
      · simp [ofNames, intercalate_concat, String.append_assoc]

end Path

namespace FileSystem

variable {fileSystem : FileSystem}

theorem follow_of_empty {start segments spot : List String}
    (isFollowed : fileSystem.follow start ("" :: segments) = .ok spot) :
    fileSystem.follow start segments = .ok spot := by
  simp only [follow] at isFollowed
  split at isFollowed <;> simp_all

/-- Following names leads to the place that they spell. -/
theorem eq_of_follow {start names spot : List String}
    (areNames : ∀ name ∈ names, Path.IsName name)
    (isFollowed : fileSystem.follow start names = .ok spot) : spot = start ++ names := by
  induction names generalizing start with
  | nil => simpa [follow] using isFollowed.symm
  | cons name names ih =>
      simp only [List.mem_cons, forall_eq_or_imp] at areNames
      rcases areNames with ⟨isName, areNames⟩
      simp only [follow] at isFollowed
      split at isFollowed
      · simp at isFollowed
      · simp at isFollowed
      · rw [if_neg (not_or.2 ⟨isName.notEmpty, isName.notCurrent⟩), if_neg isName.notParent]
          at isFollowed
        split at isFollowed
        · simp at isFollowed
        · simpa using ih areNames isFollowed

theorem eq_of_place_ofNames {names spot : List String}
    (areNames : ∀ name ∈ names, Path.IsName name)
    (isPlace : fileSystem.place (.ofNames names) = .ok spot) : spot = names := by
  have isAbsolute : (Path.ofNames names).isAbsolute := by
    simp [Path.isAbsolute, Path.toList_ofNames]
  have isFollowed : fileSystem.follow [] (Path.ofNames names).segments = .ok spot := by
    unfold place at isPlace
    split at isPlace
    · simp at isPlace
    · simpa [origin, isAbsolute] using isPlace
  by_cases isRoot : names = []
  · subst isRoot
    have segments : (Path.ofNames []).segments = ["", ""] := by decide
    rw [segments] at isFollowed
    have isEnd := follow_of_empty (follow_of_empty isFollowed)
    simpa using eq_of_follow (by simp) isEnd
  · rw [Path.segments_ofNames areNames isRoot] at isFollowed
    exact eq_of_follow areNames (follow_of_empty isFollowed)

theorem exists_entry_of_isFile {names : List String} {bytes : ByteArray}
    (isFile : fileSystem.content? names = some (.file bytes)) :
    ∃ entry ∈ fileSystem.entries, entry.1 = names := by
  unfold content? at isFile
  split at isFile
  case h_1 entry content isFound =>
    exact ⟨_, List.mem_of_find?_eq_some isFound, by simpa using List.find?_some isFound⟩
  case h_2 =>
    split at isFile <;> simp at isFile

theorem exists_place_of_read {path : Path} {text : String}
    (isRead : fileSystem.read path = .ok text) :
    ∃ spot bytes, fileSystem.place path = .ok spot ∧
      fileSystem.content? spot = some (.file bytes) := by
  unfold read find at isRead
  cases isPlace : fileSystem.place path with
  | error error => simp [isPlace] at isRead
  | ok spot =>
      refine ⟨spot, ?_⟩
      cases isContent : fileSystem.content? spot with
      | none => simp [isPlace, isContent] at isRead
      | some content =>
          cases content with
          | directory => simp [isPlace, isContent] at isRead
          | file bytes => exact ⟨bytes, rfl, rfl⟩

/-- A normal path to a file spells one of the entries. -/
theorem mem_entries_of_read {path : Path} {text : String} (isNormal : path.IsNormal)
    (isRead : fileSystem.read path = .ok text) :
    path ∈ fileSystem.entries.map fun entry => Path.ofNames entry.1 := by
  rcases isNormal with ⟨names, areNames, rfl⟩
  rcases exists_place_of_read isRead with ⟨spot, bytes, isPlace, isFile⟩
  rcases exists_entry_of_isFile isFile with ⟨entry, entryMem, isEntry⟩
  refine List.mem_map.2 ⟨entry, entryMem, ?_⟩
  rw [isEntry, eq_of_place_ofNames areNames isPlace]

end FileSystem

end CallHierarchy
