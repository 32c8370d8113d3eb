import CallHierarchy.Proofs.Config.Lineage
import CallHierarchy.Proofs.Json.Comment
import CallHierarchy.Proofs.Json.Record
import CallHierarchy.Proofs.Path

/-!
# Loading what is inherited

Loading goes through the lineage of a configuration from the leaves to the root,
but passes over a file that comes up again. What is loaded is therefore set by the
files in the order of their first mention (`load_of_isLineage`). That is what the
configuration inherits if no file comes up twice, but not in general: a file that
is listed last has no say where an earlier one builds on it, too.

The number of files bounds how deep loading goes. The files that are being loaded
at one time are different and have normal paths, so each of them has its own entry
in the file system, and the bound is never reached.
-/

namespace CallHierarchy.Config

/-- Adds a file to the files that have been met, unless it is one of them. -/
def mention (met : List (Path × Options)) (file : Path × Options) : List (Path × Options) :=
  if file ∈ met then met else met ++ [file]

/-- Files in the order of their first mention. -/
def firstMentions (files : List (Path × Options)) : List (Path × Options) :=
  files.foldl mention []

theorem mem_foldl_mention {met files : List (Path × Options)} {file : Path × Options} :
    file ∈ files.foldl mention met ↔ file ∈ met ∨ file ∈ files := by
  induction files generalizing met with
  | nil => simp
  | cons other files ih =>
      by_cases isMet : other ∈ met
      · have same : mention met other = met := if_pos isMet
        rw [List.foldl_cons, same, ih]
        grind
      · have added : mention met other = met ++ [other] := if_neg isMet
        rw [List.foldl_cons, added, ih]
        grind

theorem foldl_mention_of_subset {met files : List (Path × Options)} (areMet : files ⊆ met) :
    files.foldl mention met = met := by
  induction files with
  | nil => rfl
  | cons file files ih =>
      rw [List.cons_subset] at areMet
      rw [List.foldl_cons, mention, if_pos areMet.1, ih areMet.2]

theorem foldl_mention_of_nodup {met files : List (Path × Options)}
    (distinct : (met ++ files).Nodup) : files.foldl mention met = met ++ files := by
  induction files generalizing met with
  | nil => simp
  | cons file files ih =>
      have isNew : file ∉ met := by
        intro fileMem
        exact (List.nodup_append.1 distinct).2.2 file fileMem file (by simp) rfl
      rw [List.foldl_cons, mention, if_neg isNew, ih (by simpa using distinct)]
      simp

theorem isNormal_of_mem_parentPaths {workingDirectory path parent : Path} {options : Options}
    (parentMem : parent ∈ parentPaths workingDirectory path options) : parent.IsNormal := by
  rcases List.mem_map.1 parentMem with ⟨text, textMem, rfl⟩
  have notEmpty : text ≠ "" := by
    rintro rfl
    exact absurd (List.mem_filter.1 textMem).2 (by decide)
  apply Path.isNormal_withDefaultExtension
  apply Path.isNormal_normalize
  unfold Path.join
  split_ifs <;> simp [notEmpty]

/-- Files that are being loaded at one time. -/
structure Pending (fileSystem : FileSystem) (paths : List Path) : Prop where
  distinct : paths.Nodup
  stored : paths ⊆ fileSystem.entries.map fun entry => Path.ofNames entry.1

theorem Pending.length_le {fileSystem : FileSystem} {paths : List Path}
    (pending : Pending fileSystem paths) : paths.length ≤ fileSystem.entries.length := by
  simpa using (List.subperm_of_subset pending.distinct pending.stored).length_le

theorem Pending.cons {fileSystem : FileSystem} {paths : List Path} {path : Path}
    {options : Options} (pending : Pending fileSystem paths) (isNormal : path.IsNormal)
    (isRead : readOptions fileSystem path = .ok options) (isNew : path ∉ paths) :
    Pending fileSystem (path :: paths) := by
  have isStored : path ∈ fileSystem.entries.map fun entry => Path.ofNames entry.1 := by
    unfold readOptions at isRead
    split at isRead
    case h_1 => simp at isRead
    case h_2 isText => exact FileSystem.mem_entries_of_read isNormal isText
  exact ⟨List.nodup_cons.2 ⟨isNew, pending.distinct⟩, List.cons_subset.2 ⟨isStored, pending.stored⟩⟩

/-- How far loading has come, after some files have been met and while others are pending. -/
structure Reached (fileSystem : FileSystem) (start : Path) (pending : List Path)
    (met : List (Path × Options)) (loading : Loading) : Prop where
  config : loading.config =
    (Settings.ofFiles fileSystem.workingDirectory met).partialConfig start
  seen : ∀ path, path ∈ loading.seen ↔ path ∈ pending ∨ path ∈ met.map (·.1)
  /-- With a file, all the files of its lineage have been met. -/
  closed : ∀ lineage, IsLineage fileSystem lineage → lineage.value.1 ∈ met.map (·.1) →
    lineage.postorder ⊆ met

namespace Reached

variable {fileSystem : FileSystem} {start : Path} {pending : List Path}
  {met : List (Path × Options)} {loading : Loading}

theorem enter (reached : Reached fileSystem start pending met loading) (path : Path) :
    Reached fileSystem start (path :: pending) met
      { loading with seen := path :: loading.seen } where
  config := reached.config
  seen other := by simp [reached.seen, or_assoc]
  closed := reached.closed

/-- After the files that it builds on, a file is added itself. -/
theorem leave {file : Path × Options} {parents : List Lineage}
    (reached : Reached fileSystem start (file.1 :: pending) met loading)
    (isLineage : IsLineage fileSystem (.node file parents))
    (areMet : Tree.postorderList parents ⊆ met) :
    Reached fileSystem start pending (met ++ [file])
      { loading with
        config := override fileSystem.workingDirectory file.1 file.2 loading.config } where
  config := by
    rw [reached.config, Settings.override_partialConfig, Settings.ofFiles_concat]
  seen path := by
    simp only [reached.seen, List.mem_cons, List.map_append, List.mem_append, List.map_cons,
      List.map_nil, List.not_mem_nil, or_false]
    tauto
  closed lineage isOther pathMem := by
    simp only [List.map_append, List.map_cons, List.map_nil, List.mem_append,
      List.mem_singleton] at pathMem
    rcases pathMem with isMet | isFile
    · exact List.Subset.trans (reached.closed lineage isOther isMet) (List.subset_append_left _ _)
    · rw [isOther.unique isLineage isFile, Tree.postorder]
      exact List.append_subset.2
        ⟨fun inner innerMem => List.mem_append_left _ (areMet innerMem), by simp⟩

end Reached

section

variable {fileSystem : FileSystem} {bound : Nat} {loading after : Loading} {path : Path}
  {options : Options}

theorem merge_of_mem_seen (isSeen : path ∈ loading.seen) :
    merge fileSystem (bound + 1) loading path = .ok loading := by
  simp [merge, mergeVia, isSeen, pure, Except.pure]

theorem merge_of_notMem_seen (isNew : path ∉ loading.seen)
    (isRead : readOptions fileSystem path = .ok options)
    (areMerged : (parentPaths fileSystem.workingDirectory path options).foldlM
      (merge fileSystem bound) { loading with seen := path :: loading.seen } = .ok after) :
    merge fileSystem (bound + 1) loading path =
      .ok { after with
        config := override fileSystem.workingDirectory path options after.config } := by
  simp only [merge, mergeVia, List.contains_iff_mem, isNew, isRead]
  exact congrArg (Except.map fun loading : Loading => { loading with
    config := override fileSystem.workingDirectory path options loading.config }) areMerged

end

/-- Files that are merged one by one are merged together. -/
theorem exists_foldlM_merge {fileSystem : FileSystem} {start : Path} {bound : Nat}
    {pending : List Path} {parents : List Lineage}
    (merges : ∀ parent ∈ parents, ∀ met loading, Reached fileSystem start pending met loading →
      ∃ after, merge fileSystem bound loading parent.value.1 = .ok after ∧
        Reached fileSystem start pending (parent.postorder.foldl mention met) after)
    {met : List (Path × Options)} {loading : Loading}
    (reached : Reached fileSystem start pending met loading) :
    ∃ after, (parents.map (·.value.1)).foldlM (merge fileSystem bound) loading = .ok after ∧
      Reached fileSystem start pending ((Tree.postorderList parents).foldl mention met) after := by
  induction parents generalizing met loading with
  | nil => exact ⟨loading, rfl, reached⟩
  | cons parent parents ih =>
      simp only [List.mem_cons, forall_eq_or_imp] at merges
      rcases merges.1 met loading reached with ⟨next, isMerged, reachedNext⟩
      rcases ih merges.2 reachedNext with ⟨after, areMerged, reachedAfter⟩
      refine ⟨after, ?_, ?_⟩
      · rw [List.map_cons, List.foldlM_cons, isMerged]
        exact areMerged
      · rw [Tree.postorderList, List.foldl_append]
        exact reachedAfter

/-- A file that has not been seen is added after the files that it builds on. -/
theorem exists_merge_of_notMem_seen {fileSystem : FileSystem} {start : Path} {bound : Nat}
    {pending : List Path} {file : Path × Options} {parents : List Lineage}
    (isLineage : IsLineage fileSystem (.node file parents))
    (merges : ∀ parent ∈ parents, ∀ met loading,
      Reached fileSystem start (file.1 :: pending) met loading →
      ∃ after, merge fileSystem bound loading parent.value.1 = .ok after ∧
        Reached fileSystem start (file.1 :: pending) (parent.postorder.foldl mention met) after)
    {met : List (Path × Options)} {loading : Loading}
    (reached : Reached fileSystem start pending met loading) (isNew : file.1 ∉ loading.seen) :
    ∃ after, merge fileSystem (bound + 1) loading file.1 = .ok after ∧
      Reached fileSystem start pending
        ((Tree.node file parents).postorder.foldl mention met) after := by
  rcases exists_foldlM_merge merges (reached.enter file.1) with ⟨after, areMerged, reachedAfter⟩
  have isFresh : file ∉ (Tree.postorderList parents).foldl mention met := by
    rw [mem_foldl_mention, not_or]
    refine ⟨fun isMet => ?_, fun inner => isLineage.path_ne inner rfl⟩
    exact isNew ((reached.seen file.1).2 (.inr (List.mem_map_of_mem isMet)))
  have order : (Tree.node file parents).postorder.foldl mention met =
      (Tree.postorderList parents).foldl mention met ++ [file] := by
    simp [Tree.postorder, mention, isFresh]
  have left := reachedAfter.leave isLineage fun inner innerMem =>
    mem_foldl_mention.2 (.inr innerMem)
  cases isLineage with
  | node isRead listed above =>
      rw [listed] at areMerged
      rw [order]
      exact ⟨_, merge_of_notMem_seen isNew isRead areMerged, left⟩

/--
Merging a file adds those files of its lineage that have not been met, in the order
of their first mention. The bound is never reached: the pending files are different,
and each of them has its own entry in the file system.
-/
theorem exists_merge {fileSystem : FileSystem} {start : Path} {lineage : Lineage}
    (isLineage : IsLineage fileSystem lineage) {bound : Nat} {pending : List Path}
    {met : List (Path × Options)} {loading : Loading} (isNormal : lineage.value.1.IsNormal)
    (enough : fileSystem.entries.length < bound + pending.length)
    (isPending : Pending fileSystem pending)
    (apart : ∀ file ∈ lineage.postorder, file.1 ∉ pending)
    (reached : Reached fileSystem start pending met loading) :
    ∃ after, merge fileSystem bound loading lineage.value.1 = .ok after ∧
      Reached fileSystem start pending (lineage.postorder.foldl mention met) after := by
  induction isLineage generalizing bound pending met loading with
  | @node path options parents isRead listed above ih =>
      have isLineage : IsLineage fileSystem (.node (path, options) parents) :=
        .node isRead listed above
      have isApart : path ∉ pending := apart (path, options) (by simp [Tree.postorder])
      have stillPending := isPending.cons isNormal isRead isApart
      have room := stillPending.length_le
      simp only [List.length_cons] at room
      obtain ⟨bound, rfl⟩ : ∃ less, bound = less + 1 := ⟨bound - 1, by omega⟩
      by_cases isSeen : path ∈ loading.seen
      · have isMet : path ∈ met.map (·.1) := ((reached.seen path).1 isSeen).resolve_left isApart
        have same := foldl_mention_of_subset (reached.closed _ isLineage isMet)
        exact ⟨loading, merge_of_mem_seen isSeen, same.symm ▸ reached⟩
      · refine exists_merge_of_notMem_seen isLineage ?_ reached isSeen
        intro parent parentMem met loading reached
        have isParent : parent.value.1 ∈ parentPaths fileSystem.workingDirectory path options :=
          listed ▸ List.mem_map_of_mem parentMem
        refine ih parent parentMem (isNormal_of_mem_parentPaths isParent) ?_ stillPending ?_ reached
        · simp only [List.length_cons]
          omega
        · intro file fileMem
          have inner := Tree.mem_postorderList.2 ⟨parent, parentMem, fileMem⟩
          simp only [List.mem_cons, not_or]
          exact ⟨isLineage.path_ne inner, apart file (by simp [Tree.postorder, inner])⟩

theorem isNormal_of_readOptions {fileSystem : FileSystem} {path : Path} {options : Options}
    (isRead : readOptions fileSystem (path.normalize fileSystem.workingDirectory) = .ok options) :
    (path.normalize fileSystem.workingDirectory).IsNormal := by
  apply Path.isNormal_normalize
  intro isEmpty
  have refused : FileSystem.refusal? path = some .notFound := by
    simp [FileSystem.refusal?, isEmpty]
  simp [Path.normalize, isEmpty, readOptions, FileSystem.read, FileSystem.find, FileSystem.place,
    refused] at isRead

/-- What is loaded is set by the files of the lineage in the order of their first mention. -/
theorem load_of_isLineage {fileSystem : FileSystem} {path : Path} {lineage : Lineage}
    (isLineage : IsLineage fileSystem lineage)
    (isRoot : lineage.value.1 = path.normalize fileSystem.workingDirectory) :
    load fileSystem path = .ok ((Settings.ofFiles fileSystem.workingDirectory
      (firstMentions lineage.postorder)).config (path.normalize fileSystem.workingDirectory)) := by
  have isNormal : lineage.value.1.IsNormal := by
    rcases isLineage.readable .refl with ⟨options, isRead⟩
    rw [isRoot] at isRead ⊢
    exact isNormal_of_readOptions isRead
  have initial : Reached fileSystem (path.normalize fileSystem.workingDirectory) [] []
      ⟨{ empty with path := path.normalize fileSystem.workingDirectory }, []⟩ :=
    ⟨rfl, by simp, by simp⟩
  have enough : fileSystem.entries.length <
      fileSystem.entries.length + 1 + ([] : List Path).length := by simp
  rcases exists_merge isLineage isNormal enough ⟨List.nodup_nil, by simp⟩ (by simp) initial with
    ⟨loading, isMerged, reached⟩
  rw [isRoot] at isMerged
  have settled : loading.config.settle = (Settings.ofFiles fileSystem.workingDirectory
      (firstMentions lineage.postorder)).config (path.normalize fileSystem.workingDirectory) := by
    rw [reached.config, Settings.settle_partialConfig, firstMentions]
  rw [← settled]
  exact congrArg (Except.map fun loading : Loading => loading.config.settle) isMerged

theorem exists_map_eq {α β : Type} {f : α → β} {property : α → Prop} {images : List β}
    (found : ∀ image ∈ images, ∃ item, property item ∧ f item = image) :
    ∃ items : List α, (∀ item ∈ items, property item) ∧ items.map f = images := by
  induction images with
  | nil => exact ⟨[], by simp, rfl⟩
  | cons image images ih =>
      simp only [List.mem_cons, forall_eq_or_imp] at found
      rcases found.1 with ⟨item, holds, rfl⟩
      rcases ih found.2 with ⟨items, hold, rfl⟩
      exact ⟨item :: items, by simpa using ⟨holds, hold⟩, rfl⟩

/-- Where the files that a file builds on can be read and none of them builds on itself, the file
has a lineage. Each file on the way to it leaves one file less that can be below. -/
theorem exists_isLineage {fileSystem : FileSystem} {path : Path} (isNormal : path.IsNormal)
    (readable : ∀ file, Relation.ReflTransGen (BuildsOn fileSystem) path file →
      ∃ options, readOptions fileSystem file = .ok options)
    (acyclic : ∀ file, Relation.ReflTransGen (BuildsOn fileSystem) path file →
      ¬Relation.TransGen (BuildsOn fileSystem) file file)
    {room : Nat} {pending : List Path} (isPending : Pending fileSystem pending)
    (leads : ∀ earlier ∈ pending, Relation.TransGen (BuildsOn fileSystem) earlier path)
    (enough : fileSystem.entries.length ≤ pending.length + room) :
    ∃ lineage, IsLineage fileSystem lineage ∧ lineage.value.1 = path := by
  induction room generalizing path pending with
  | zero =>
      rcases readable path .refl with ⟨options, isRead⟩
      have isNew : path ∉ pending := fun pathMem => acyclic path .refl (leads path pathMem)
      have bound := (isPending.cons isNormal isRead isNew).length_le
      simp only [List.length_cons] at bound
      omega
  | succ room ih =>
      rcases readable path .refl with ⟨options, isRead⟩
      have isNew : path ∉ pending := fun pathMem => acyclic path .refl (leads path pathMem)
      have found : ∀ parent ∈ parentPaths fileSystem.workingDirectory path options,
          ∃ lineage, IsLineage fileSystem lineage ∧ lineage.value.1 = parent := by
        intro parent parentMem
        have first : BuildsOn fileSystem path parent := ⟨options, isRead, parentMem⟩
        apply ih (isNormal_of_mem_parentPaths parentMem)
        · exact fun file reaches => readable file (reaches.head first)
        · exact fun file reaches => acyclic file (reaches.head first)
        · exact isPending.cons isNormal isRead isNew
        · simp only [List.mem_cons, forall_eq_or_imp]
          exact ⟨.single first, fun earlier earlierMem => (leads earlier earlierMem).tail first⟩
        · simp only [List.length_cons]
          omega
      rcases exists_map_eq found with ⟨parents, above, listed⟩
      exact ⟨_, .node isRead listed above, rfl⟩

/-! ### What is inherited -/

/-- The last of some files that sets an option. -/
def lastSetting? (sets : Options → Bool) (files : List (Path × Options)) :
    Option (Path × Options) :=
  files.reverse.find? fun file => sets file.2

theorem ofFiles_eq (workingDirectory : Path) (files : List (Path × Options)) :
    Settings.ofFiles workingDirectory files =
      ⟨(lastSetting? (·.baseUrl.isSome) files).bind fun file =>
          (Settings.own workingDirectory file).baseUrl,
        (lastSetting? (·.paths.isSome) files).bind fun file =>
          (Settings.own workingDirectory file).paths⟩ := by
  induction files using List.reverseRecOn with
  | nil => rfl
  | append_singleton files file ih =>
      rw [Settings.ofFiles_concat, ih]
      rcases file with ⟨path, parents, _ | baseUrl, _ | paths⟩ <;>
        simp [Settings.onTopOf, Settings.own, lastSetting?]

/--
A configuration whose files can be read and do not build on themselves is loaded
from them in the order of their first mention. This gives what the file sets or
inherits wherever the last file in the whole order that sets an option is the last
in the order of first mention, too; above all if no file comes up twice.
-/
theorem load_inherited (fileSystem : FileSystem) (path : Path)
    (readable : ∀ file, Relation.ReflTransGen (BuildsOn fileSystem)
        (path.normalize fileSystem.workingDirectory) file →
      ∃ options, readOptions fileSystem file = .ok options)
    (acyclic : ∀ file, Relation.ReflTransGen (BuildsOn fileSystem)
        (path.normalize fileSystem.workingDirectory) file →
      ¬Relation.TransGen (BuildsOn fileSystem) file file) :
    ∃ lineage, IsLineage fileSystem lineage ∧
      lineage.value.1 = path.normalize fileSystem.workingDirectory ∧
      load fileSystem path = .ok ((Settings.ofFiles fileSystem.workingDirectory
        (firstMentions lineage.postorder)).config (path.normalize fileSystem.workingDirectory)) ∧
      (lastSetting? (·.baseUrl.isSome) (firstMentions lineage.postorder) =
          lastSetting? (·.baseUrl.isSome) lineage.postorder →
        lastSetting? (·.paths.isSome) (firstMentions lineage.postorder) =
          lastSetting? (·.paths.isSome) lineage.postorder →
        load fileSystem path = .ok ((effective fileSystem.workingDirectory lineage).config
          (path.normalize fileSystem.workingDirectory))) ∧
      (lineage.postorder.Nodup →
        load fileSystem path = .ok ((effective fileSystem.workingDirectory lineage).config
          (path.normalize fileSystem.workingDirectory))) := by
  rcases readable _ .refl with ⟨options, isRead⟩
  rcases exists_isLineage (isNormal_of_readOptions isRead) readable acyclic
    ⟨List.nodup_nil, by simp⟩ (by simp) (Nat.le_add_left _ _) with ⟨lineage, isLineage, isRoot⟩
  have loaded := load_of_isLineage isLineage isRoot
  refine ⟨lineage, isLineage, isRoot, loaded, fun sameBase samePaths => ?_, fun distinct => ?_⟩
  · rw [loaded, effective_eq_ofFiles, ofFiles_eq, ofFiles_eq, sameBase, samePaths]
  · have same : firstMentions lineage.postorder = lineage.postorder :=
      foldl_mention_of_nodup (by simpa using distinct)
    rw [loaded, effective_eq_ofFiles, same]

/-! ### A file that is built on twice -/

/-- The options of a configuration file in JSON, given what it builds on and its base directory. -/
def optionsJson (parents : List String) (baseUrl : Option String) : Json :=
  .ofMembers [("extends", .array (parents.map .ofText)), ("compilerOptions",
    .ofMembers (baseUrl.map fun baseUrl => ("baseUrl", .ofText baseUrl)).toList)]

theorem isWellFormed_optionsJson (parents : List String) (baseUrl : Option String) :
    (optionsJson parents baseUrl).IsWellFormed := by
  have list : (Json.array (parents.map .ofText)).IsWellFormed := by
    apply Json.isWellFormed_array
    simp [Json.isWellFormed_ofText]
  have options : (Json.ofMembers
      (baseUrl.map fun baseUrl => ("baseUrl", .ofText baseUrl)).toList).IsWellFormed := by
    apply Json.isWellFormed_ofMembers
    cases baseUrl <;> simp [Json.isWellFormed_ofText]
  apply Json.isWellFormed_ofMembers
  simp [list, options]

theorem ofJson?_optionsJson (parents : List String) (baseUrl : Option String) (depth : Nat) :
    Options.ofJson? (depth + 2) (optionsJson parents baseUrl) = some ⟨parents, baseUrl, none⟩ := by
  have options : Options.readCompiler? (depth + 1) (.ofMembers
      (baseUrl.map fun baseUrl => ("baseUrl", .ofText baseUrl)).toList) = some (baseUrl, none) := by
    have isRead := Json.optionalText?_map baseUrl
    cases baseUrl <;>
      simp_all [Options.readCompiler?, Json.record?_ofMembers, Options.compilerShape, Json.field?,
        Options.readPaths?]
  simp [optionsJson, Options.ofJson?, Json.record?_ofMembers, Options.shape, Json.field?,
    Options.readParents?, Json.texts?_array, options]

theorem fromUTF8?_toUTF8 (text : String) : String.fromUTF8? text.toUTF8 = some text := by
  have isValid : text.toUTF8.IsValidUTF8 := text.isValidUTF8
  rw [String.fromUTF8?, dif_pos isValid]
  rfl

/-- A configuration file. -/
def optionsFile (parents : List String) (baseUrl : Option String) : Content :=
  .file (String.ofList ((optionsJson parents baseUrl).pretty 0)).toUTF8

theorem readOptions_optionsFile {fileSystem : FileSystem} {path : Path} {parents : List String}
    {baseUrl : Option String}
    (isFound : fileSystem.find path = .ok (optionsFile parents baseUrl)) :
    readOptions fileSystem path = .ok ⟨parents, baseUrl, none⟩ := by
  have isText : fileSystem.read path =
      .ok (String.ofList ((optionsJson parents baseUrl).pretty 0)) := by
    simp only [FileSystem.read, isFound, optionsFile, fromUTF8?_toUTF8]
  have isJson := Json.parse?_withoutComments_pretty (isWellFormed_optionsJson parents baseUrl)
  have isRead : Options.ofJson? Options.maxDepth (optionsJson parents baseUrl) = _ :=
    ofJson?_optionsJson parents baseUrl 125
  simp [readOptions, isText, Options.parse?, isJson, isRead]

/-- The first file builds on the other two, of which the first one builds on the second. -/
def repeatedParent : FileSystem where
  workingDirectory := ⟨"/p"⟩
  entries :=
    [(["p", "a.json"], optionsFile ["./b", "./c"] none),
      (["p", "b.json"], optionsFile ["./c"] (some "b")),
      (["p", "c.json"], optionsFile [] (some "c"))]

/-- The last file, which has no parents. -/
def lineageC : Lineage :=
  .node (⟨"/p/c.json"⟩, ⟨[], some "c", none⟩) []

/-- The second file, with the last as its parent. -/
def lineageB : Lineage :=
  .node (⟨"/p/b.json"⟩, ⟨["./c"], some "b", none⟩) [lineageC]

/-- The first file, with both others as its parents. -/
def lineageA : Lineage :=
  .node (⟨"/p/a.json"⟩, ⟨["./b", "./c"], none, none⟩) [lineageB, lineageC]

theorem isLineage_lineageC : IsLineage repeatedParent lineageC :=
  .node (readOptions_optionsFile rfl) rfl (by simp)

theorem isLineage_lineageB : IsLineage repeatedParent lineageB :=
  .node (readOptions_optionsFile rfl) rfl (by simpa using isLineage_lineageC)

theorem isLineage_lineageA : IsLineage repeatedParent lineageA :=
  .node (readOptions_optionsFile rfl) rfl (by simpa using ⟨isLineage_lineageB, isLineage_lineageC⟩)

theorem load_inherited_lineageB :
    (∀ file, Relation.ReflTransGen (BuildsOn repeatedParent) ⟨"/p/b.json"⟩ file →
      ∃ options, readOptions repeatedParent file = .ok options) ∧
    (∀ file, Relation.ReflTransGen (BuildsOn repeatedParent) ⟨"/p/b.json"⟩ file →
      ¬Relation.TransGen (BuildsOn repeatedParent) file file) ∧
    load repeatedParent ⟨"/p/b.json"⟩ = .ok ⟨⟨"/p/b.json"⟩, some ⟨"/p/b"⟩, [], none⟩ := by
  have readable : ∀ file, Relation.ReflTransGen (BuildsOn repeatedParent) ⟨"/p/b.json"⟩ file →
      ∃ options, readOptions repeatedParent file = .ok options :=
    fun file => isLineage_lineageB.readable
  have acyclic : ∀ file, Relation.ReflTransGen (BuildsOn repeatedParent) ⟨"/p/b.json"⟩ file →
      ¬Relation.TransGen (BuildsOn repeatedParent) file file :=
    fun file => isLineage_lineageB.acyclic
  rcases load_inherited repeatedParent ⟨"/p/b.json"⟩ readable acyclic with
    ⟨lineage, isLineage, isRoot, -, -, inherits⟩
  obtain rfl := isLineage.unique isLineage_lineageB isRoot
  exact ⟨readable, acyclic, inherits (by decide)⟩

/-- The third file is listed last and still has no say, because the second one builds on it. -/
theorem load_ignores_repeated_parent :
    (∀ file, Relation.ReflTransGen (BuildsOn repeatedParent) ⟨"/p/a.json"⟩ file →
      ∃ options, readOptions repeatedParent file = .ok options) ∧
    (∀ file, Relation.ReflTransGen (BuildsOn repeatedParent) ⟨"/p/a.json"⟩ file →
      ¬Relation.TransGen (BuildsOn repeatedParent) file file) ∧
    IsLineage repeatedParent lineageA ∧ lineageA.value.1 = ⟨"/p/a.json"⟩ ∧
    (effective ⟨"/p"⟩ lineageA).config ⟨"/p/a.json"⟩ =
      ⟨⟨"/p/a.json"⟩, some ⟨"/p/c"⟩, [], none⟩ ∧
    load repeatedParent ⟨"/p/a.json"⟩ = .ok ⟨⟨"/p/a.json"⟩, some ⟨"/p/b"⟩, [], none⟩ := by
  refine ⟨fun file => isLineage_lineageA.readable, fun file => isLineage_lineageA.acyclic,
    isLineage_lineageA, rfl, rfl, ?_⟩
  exact load_of_isLineage isLineage_lineageA rfl

end CallHierarchy.Config
