import CallHierarchy.Proofs.Import.Search
import CallHierarchy.Proofs.Path.Walk

/-!
# Imports do not depend on how paths are spelled

The candidates of an import are read off normal forms: those of the places that the
configuration and the importing file give. The directory of a file leads to the same
place in every spelling of the file's path, so the importing file counts with its
normal form only, as the files of the project do.
-/

namespace CallHierarchy

namespace Import

theorem head?_of_relative {specifier : String} (relative : Relative specifier) :
    specifier.toList.head? = some '.' := by
  rcases relative with rfl | rfl | ⟨rest, rfl⟩ | ⟨rest, rfl⟩
  · decide
  · decide
  · simp
  · simp

theorem probes_congr {path other workingDirectory : Path}
    (same : path.normalize workingDirectory = other.normalize workingDirectory) :
    probes workingDirectory path = probes workingDirectory other := by
  simp only [probes, same]

/-- What is seen from the directory of a file is the same from another spelling of the file. -/
theorem normalize_sibling {importer other workingDirectory : Path} {name otherName : String}
    (isName : importer.fileName? = some name) (isOtherName : other.fileName? = some otherName)
    (same : importer.normalize workingDirectory = other.normalize workingDirectory) :
    ∃ directory otherDirectory, importer.parent? = some directory ∧
      other.parent? = some otherDirectory ∧
      ∀ path : Path, path.isAbsolute = false → path.text ≠ "" →
        (directory.join path).normalize workingDirectory =
          (otherDirectory.join path).normalize workingDirectory := by
  rcases Path.exists_parent_of_fileName? isName with ⟨directory, isParent, leads⟩
  rcases Path.exists_parent_of_fileName? isOtherName with
    ⟨otherDirectory, isOtherParent, leadsOther⟩
  refine ⟨directory, otherDirectory, isParent, isOtherParent, fun path relative notEmpty => ?_⟩
  have sameSpot := Path.spot_eq_of_normalize_eq (Path.text_ne_empty_of_fileName? isName)
    (Path.text_ne_empty_of_fileName? isOtherName) same
  rw [Path.spot, Path.spot, leads, leadsOther] at sameSpot
  have sameDirectory := (List.cons.inj sameSpot).2
  rw [Path.normalize_of_ne_empty (Path.text_join_ne_empty (.inr notEmpty) relative),
    Path.normalize_of_ne_empty (Path.text_join_ne_empty (.inr notEmpty) relative), Path.spot,
    Path.spot, Path.lead_join, Path.lead_join, sameDirectory]

theorem candidates_congr {importer other workingDirectory : Path}
    (isName : importer.fileName?.isSome) (isOtherName : other.fileName?.isSome)
    (same : importer.normalize workingDirectory = other.normalize workingDirectory)
    (config : Config) (specifier : String) :
    candidates workingDirectory config importer specifier =
      candidates workingDirectory config other specifier := by
  rcases Option.isSome_iff_exists.1 isName with ⟨name, isName⟩
  rcases Option.isSome_iff_exists.1 isOtherName with ⟨otherName, isOtherName⟩
  rcases normalize_sibling isName isOtherName same
    with ⟨directory, otherDirectory, isParent, isOtherParent, sameFrom⟩
  unfold candidates places
  split
  case isTrue relative =>
    have isDot := head?_of_relative relative
    have isRelative : (⟨specifier⟩ : Path).isAbsolute = false := by simp [Path.isAbsolute, isDot]
    have notEmpty : specifier ≠ "" := by
      rintro rfl
      simp at isDot
    simp only [isParent, isOtherParent, Option.toList_some, List.map_singleton,
      List.flatMap_singleton]
    exact probes_congr (sameFrom ⟨specifier⟩ isRelative notEmpty)
  case isFalse => rfl

end Import

namespace ModuleIndex

theorem ofFiles_congr {files others : List SourceFile} {workingDirectory : Path}
    (respelled : List.Forall₂ (fun file other => other.id = file.id ∧
      other.path.normalize workingDirectory = file.path.normalize workingDirectory) files others)
    (config : Config) :
    ofFiles workingDirectory config others = ofFiles workingDirectory config files := by
  unfold ofFiles
  congr 1
  induction respelled with
  | nil => rfl
  | cons same _ ih => rw [List.map_cons, List.map_cons, ih, same.1, same.2]

/--
Paths count with their normal forms only. A normal form is its own normal form, starts at
the root without `.` and `..`, and can take the place of the directory of a joined path;
so an import leads to the same file however the importing file and the files of the
project are spelled.
-/
theorem resolve?_of_respelled (workingDirectory : Path) :
    (∀ path : Path, (path.normalize workingDirectory).normalize workingDirectory =
      path.normalize workingDirectory) ∧
    (∀ path : Path, path.text ≠ "" → (path.normalize workingDirectory).isAbsolute ∧
      (∀ segment ∈ (path.normalize workingDirectory).segments, segment ≠ "." ∧ segment ≠ "..") ∧
      ∀ component ∈ (path.normalize workingDirectory).components,
        component ≠ .current ∧ component ≠ .parent) ∧
    (∀ directory path : Path, ((directory.normalize workingDirectory).join path).normalize
      workingDirectory = (directory.join path).normalize workingDirectory) ∧
    ∀ (config : Config) (specifier : String) (files others : List SourceFile)
      (importer other : Path), importer.fileName?.isSome → other.fileName?.isSome →
      importer.normalize workingDirectory = other.normalize workingDirectory →
      List.Forall₂ (fun file respelled => respelled.id = file.id ∧
        respelled.path.normalize workingDirectory = file.path.normalize workingDirectory)
        files others →
      (ofFiles workingDirectory config others).resolve? other specifier =
        (ofFiles workingDirectory config files).resolve? importer specifier := by
  refine ⟨fun path => path.normalize_normalize workingDirectory,
    fun path notEmpty => Path.normalize_shape notEmpty workingDirectory,
    fun directory path => directory.normalize_normalize_join path workingDirectory, ?_⟩
  intro config specifier files others importer other isName isOtherName same respelled
  rw [ofFiles_congr respelled, resolve?_ofFiles, resolve?_ofFiles,
    Import.candidates_congr isName isOtherName same]

theorem resolve?_of_respelled_index :
    let workingDirectory : Path := ⟨"/p"⟩
    let files := [blankFile 0 "src/main.ts", blankFile 1 "src/util/index.ts"]
    let others := [blankFile 0 "src/main.ts", blankFile 1 "../../p//src/./util/index.ts/"]
    (⟨"src/main.ts"⟩ : Path).normalize workingDirectory =
      (⟨"/p/lib/../src//main.ts"⟩ : Path).normalize workingDirectory ∧
    (ofFiles workingDirectory .empty others).resolve? ⟨"/p/lib/../src//main.ts"⟩ "./util" =
      (ofFiles workingDirectory .empty files).resolve? ⟨"src/main.ts"⟩ "./util" ∧
    (ofFiles workingDirectory .empty files).resolve? ⟨"src/main.ts"⟩ "./util" = some 1 := by
  have same : (⟨"src/main.ts"⟩ : Path).normalize ⟨"/p"⟩ =
      (⟨"/p/lib/../src//main.ts"⟩ : Path).normalize ⟨"/p"⟩ := by decide
  refine ⟨same, (resolve?_of_respelled ⟨"/p"⟩).2.2.2 .empty "./util" _ _ _ _ (by decide) (by decide)
    same ?_, by decide⟩
  exact .cons ⟨rfl, rfl⟩ (.cons ⟨rfl, by decide⟩ .nil)

end ModuleIndex

end CallHierarchy
