import CallHierarchy.Config.Load
import CallHierarchy.Proofs.CallGraph.Forest
import Mathlib.Data.List.Induction

/-!
# What configurations inherit

The files that a configuration builds on, and those that these build on, form a
tree, its lineage. A file has at most one lineage. If it has one, all the files in
it can be read, and none of them builds on itself.

A file inherits what the files that it builds on set or inherit, from a later one
before an earlier one, and overrides it with what it sets itself. Read from the
leaves to the root, the lineage gives an order in which every file comes after
those that it builds on, and what the file sets or inherits is what the files of
this order set, one after the other (`effective_eq_ofFiles`).
-/

namespace CallHierarchy

namespace Tree

variable {α : Type}

mutual

/-- The values of a tree, each after the values below it. -/
def postorder : Tree α → List α
  | .node value children => postorderList children ++ [value]

/-- The values of a list of trees, tree after tree. -/
def postorderList : List (Tree α) → List α
  | [] => []
  | tree :: rest => tree.postorder ++ postorderList rest

end

theorem mem_postorderList {value : α} {trees : List (Tree α)} :
    value ∈ postorderList trees ↔ ∃ tree ∈ trees, value ∈ tree.postorder := by
  induction trees with
  | nil => simp [postorderList]
  | cons tree trees ih => simp [postorderList, ih]

end Tree

namespace Config

/-- What configuration files set: a base directory, and path patterns with the directory of the
file that they come from. -/
structure Settings where
  baseUrl : Option Path
  paths : Option (List (String × List String) × Path)
  deriving DecidableEq

namespace Settings

/-- No settings. -/
def nothing : Settings :=
  ⟨none, none⟩

/-- The settings of which the first ones win over the second ones. -/
def onTopOf (upper lower : Settings) : Settings :=
  ⟨upper.baseUrl.or lower.baseUrl, upper.paths.or lower.paths⟩

/-- What a file sets itself. -/
def own (workingDirectory : Path) (file : Path × Options) : Settings where
  baseUrl := file.2.baseUrl.map fun baseUrl =>
    ((directoryOf file.1).join ⟨baseUrl⟩).normalize workingDirectory
  paths := file.2.paths.map fun paths => (paths, directoryOf file.1)

/-- What some files set, of which later ones win over earlier ones. -/
def ofFiles (workingDirectory : Path) (files : List (Path × Options)) : Settings :=
  files.foldl (fun lower file => (own workingDirectory file).onTopOf lower) nothing

/-- The configuration that has some settings. Path patterns are seen from the base directory, or
else from the directory of the file that they come from. -/
def config (path : Path) (settings : Settings) : Config where
  path := path
  baseUrl := settings.baseUrl
  paths := (settings.paths.map (·.1)).getD []
  pathsBase := settings.paths.map fun patterns => settings.baseUrl.getD patterns.2

/-- The configuration with some settings while it is being put together. -/
def partialConfig (path : Path) (settings : Settings) : Config where
  path := path
  baseUrl := settings.baseUrl
  paths := (settings.paths.map (·.1)).getD []
  pathsBase := settings.paths.map (·.2)

theorem onTopOf_assoc (first second third : Settings) :
    (first.onTopOf second).onTopOf third = first.onTopOf (second.onTopOf third) := by
  simp [onTopOf, Option.or_assoc]

theorem onTopOf_nothing (settings : Settings) : settings.onTopOf nothing = settings := by
  simp [onTopOf, nothing]

theorem ofFiles_concat (workingDirectory : Path) (files : List (Path × Options))
    (file : Path × Options) : ofFiles workingDirectory (files ++ [file]) =
      (own workingDirectory file).onTopOf (ofFiles workingDirectory files) := by
  simp [ofFiles]

theorem ofFiles_append (workingDirectory : Path) (first second : List (Path × Options)) :
    ofFiles workingDirectory (first ++ second) =
      (ofFiles workingDirectory second).onTopOf (ofFiles workingDirectory first) := by
  induction second using List.reverseRecOn with
  | nil => simp [ofFiles, onTopOf, nothing]
  | append_singleton second file ih =>
      rw [← List.append_assoc, ofFiles_concat, ofFiles_concat, ih, onTopOf_assoc]

theorem settle_partialConfig (path : Path) (settings : Settings) :
    (settings.partialConfig path).settle = settings.config path := by
  rcases settings with ⟨_ | baseUrl, _ | patterns⟩ <;> rfl

theorem override_partialConfig (workingDirectory start : Path) (file : Path × Options)
    (settings : Settings) :
    override workingDirectory file.1 file.2 (settings.partialConfig start) =
      ((own workingDirectory file).onTopOf settings).partialConfig start := by
  rcases file with ⟨path, parents, _ | baseUrl, _ | paths⟩ <;> rfl

end Settings

/-! ### Lineages -/

/-- Configuration files with their options, above those that they build on. -/
abbrev Lineage :=
  Tree (Path × Options)

/-- Whether a configuration file lists another one as a file to build on. -/
def BuildsOn (fileSystem : FileSystem) (path parent : Path) : Prop :=
  ∃ options, readOptions fileSystem path = .ok options ∧
    parent ∈ parentPaths fileSystem.workingDirectory path options

/-- Whether below each file of a tree stand the files that it builds on. -/
inductive IsLineage (fileSystem : FileSystem) : Lineage → Prop
  | node {path : Path} {options : Options} {parents : List Lineage}
      (isRead : readOptions fileSystem path = .ok options)
      (listed : parents.map (·.value.1) =
        parentPaths fileSystem.workingDirectory path options)
      (above : ∀ parent ∈ parents, IsLineage fileSystem parent) :
      IsLineage fileSystem (.node (path, options) parents)

mutual

/-- What a file sets or inherits: its own settings win over those of the files that it builds on. -/
def effective (workingDirectory : Path) : Lineage → Settings
  | .node file parents =>
    (Settings.own workingDirectory file).onTopOf (inherited workingDirectory .nothing parents)

/-- What files that are built on set or inherit, later ones over earlier ones. -/
def inherited (workingDirectory : Path) (lower : Settings) : List Lineage → Settings
  | [] => lower
  | parent :: rest =>
    inherited workingDirectory ((effective workingDirectory parent).onTopOf lower) rest

end

theorem inherited_eq {workingDirectory : Path} {parents : List Lineage}
    (same : ∀ parent ∈ parents,
      effective workingDirectory parent = Settings.ofFiles workingDirectory parent.postorder)
    (lower : Settings) : inherited workingDirectory lower parents =
      (Settings.ofFiles workingDirectory (Tree.postorderList parents)).onTopOf lower := by
  induction parents generalizing lower with
  | nil =>
      simp [inherited, Tree.postorderList, Settings.ofFiles, Settings.onTopOf, Settings.nothing]
  | cons parent parents ih =>
      simp only [List.mem_cons, forall_eq_or_imp] at same
      simp only [inherited, same.1, ih same.2, Tree.postorderList, Settings.ofFiles_append,
        Settings.onTopOf_assoc]

/-- The settings of a file are those of all the files of its lineage, one after the other. -/
theorem effective_eq_ofFiles (workingDirectory : Path) (lineage : Lineage) :
    effective workingDirectory lineage =
      Settings.ofFiles workingDirectory lineage.postorder := by
  induction lineage using Tree.induction with
  | step file parents ih =>
      rw [effective, inherited_eq ih, Settings.onTopOf_nothing, Tree.postorder,
        Settings.ofFiles_concat]

theorem eq_of_map_eq {α β : Type} {f : α → β} {first second : List α}
    (same : first.map f = second.map f)
    (injective : ∀ item ∈ first, ∀ other ∈ second, f item = f other → item = other) :
    first = second := by
  induction first generalizing second with
  | nil => simpa using same.symm
  | cons item first ih =>
      cases second with
      | nil => simp at same
      | cons other second =>
          simp only [List.map_cons, List.cons.injEq] at same
          have sameItem := injective item (by simp) other (by simp) same.1
          have sameRest := ih same.2 fun item itemMem other otherMem =>
            injective item (by simp [itemMem]) other (by simp [otherMem])
          rw [sameItem, sameRest]

namespace IsLineage

variable {fileSystem : FileSystem} {lineage other : Lineage}

/-- A file has one lineage only. -/
theorem unique (isLineage : IsLineage fileSystem lineage) (isOther : IsLineage fileSystem other)
    (samePath : lineage.value.1 = other.value.1) : lineage = other := by
  induction isLineage generalizing other with
  | @node path options parents isRead listed above ih =>
      cases isOther with
      | @node _ otherOptions otherParents isReadOther listedOther aboveOther =>
          obtain rfl : path = _ := samePath
          obtain rfl : options = otherOptions := by simpa [isRead] using isReadOther
          have sameParents : parents = otherParents :=
            eq_of_map_eq (listed.trans listedOther.symm) fun parent parentMem other otherMem =>
              ih parent parentMem (aboveOther other otherMem)
          rw [sameParents]

/-- Each file of a lineage has a lineage of its own, which is a part of it. -/
theorem exists_part (isLineage : IsLineage fileSystem lineage) {file : Path × Options}
    (fileMem : file ∈ lineage.postorder) :
    ∃ part, IsLineage fileSystem part ∧ part.value = file ∧ part.size ≤ lineage.size := by
  induction isLineage with
  | @node path options parents isRead listed above ih =>
      simp only [Tree.postorder, List.mem_append, List.mem_singleton, Tree.mem_postorderList]
        at fileMem
      rcases fileMem with ⟨parent, parentMem, fileMem⟩ | rfl
      · rcases ih parent parentMem fileMem with ⟨part, isPart, isFile, smaller⟩
        refine ⟨part, isPart, isFile, ?_⟩
        have bound := Tree.size_le_sizeList parentMem
        simp only [Tree.size]
        omega
      · exact ⟨_, .node isRead listed above, rfl, le_rfl⟩

/-- No file builds on itself. -/
theorem path_ne {file : Path × Options} {parents : List Lineage}
    (isLineage : IsLineage fileSystem (.node file parents)) {inner : Path × Options}
    (innerMem : inner ∈ Tree.postorderList parents) : inner.1 ≠ file.1 := by
  intro samePath
  rcases Tree.mem_postorderList.1 innerMem with ⟨parent, parentMem, innerMem⟩
  cases isLineage with
  | node isRead listed above =>
      rcases (above parent parentMem).exists_part innerMem with ⟨part, isPart, rfl, smaller⟩
      have same := isPart.unique (.node isRead listed above) samePath
      have bound := Tree.size_le_sizeList parentMem
      simp only [same, Tree.size] at smaller
      omega

theorem exists_of_buildsOn (isLineage : IsLineage fileSystem lineage) {parent : Path}
    (buildsOn : BuildsOn fileSystem lineage.value.1 parent) :
    ∃ part, IsLineage fileSystem part ∧ part.value.1 = parent ∧ part.size < lineage.size := by
  cases isLineage with
  | @node path options parents isRead listed above =>
      rcases buildsOn with ⟨otherOptions, isReadOther, parentMem⟩
      obtain rfl : options = otherOptions := by simpa [Tree.value, isRead] using isReadOther
      rw [Tree.value, ← listed] at parentMem
      rcases List.mem_map.1 parentMem with ⟨part, partMem, isParent⟩
      refine ⟨part, above part partMem, isParent, ?_⟩
      have bound := Tree.size_le_sizeList partMem
      simp only [Tree.size]
      omega

theorem exists_of_reflTransGen (isLineage : IsLineage fileSystem lineage) {path : Path}
    (reaches : Relation.ReflTransGen (BuildsOn fileSystem) lineage.value.1 path) :
    ∃ part, IsLineage fileSystem part ∧ part.value.1 = path ∧ part.size ≤ lineage.size := by
  induction reaches with
  | refl => exact ⟨lineage, isLineage, rfl, le_rfl⟩
  | tail _ buildsOn ih =>
      rcases ih with ⟨part, isPart, rfl, smaller⟩
      rcases isPart.exists_of_buildsOn buildsOn with ⟨next, isNext, isPath, smallerNext⟩
      exact ⟨next, isNext, isPath, by omega⟩

/-- All the files that a file with a lineage builds on can be read. -/
theorem readable (isLineage : IsLineage fileSystem lineage) {path : Path}
    (reaches : Relation.ReflTransGen (BuildsOn fileSystem) lineage.value.1 path) :
    ∃ options, readOptions fileSystem path = .ok options := by
  rcases isLineage.exists_of_reflTransGen reaches with ⟨part, isPart, rfl, -⟩
  cases isPart with
  | node isRead => exact ⟨_, isRead⟩

/-- None of the files that a file with a lineage builds on builds on itself. -/
theorem acyclic (isLineage : IsLineage fileSystem lineage) {path : Path}
    (reaches : Relation.ReflTransGen (BuildsOn fileSystem) lineage.value.1 path) :
    ¬Relation.TransGen (BuildsOn fileSystem) path path := by
  intro circle
  rcases isLineage.exists_of_reflTransGen reaches with ⟨part, isPart, rfl, -⟩
  rcases Relation.TransGen.head'_iff.1 circle with ⟨next, first, later⟩
  rcases isPart.exists_of_buildsOn first with ⟨inner, isInner, rfl, smaller⟩
  rcases isInner.exists_of_reflTransGen later with ⟨again, isAgain, samePath, smallerAgain⟩
  rw [isAgain.unique isPart samePath] at smallerAgain
  omega

end IsLineage

end Config

end CallHierarchy
