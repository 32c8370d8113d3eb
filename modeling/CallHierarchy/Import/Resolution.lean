import CallHierarchy.Config.Basic
import CallHierarchy.Import.Pattern
import CallHierarchy.Source.Basic

/-!
# Where an import leads

A specifier gives one or more paths, depending on the configuration and on the
importing file, and a path can mean several files: the specifier may leave out an
extension, name a directory or name a compiled file. All of these are tried in turn,
and the import leads to the first file of the project that is met.
-/

namespace CallHierarchy

namespace Import

/-- The extensions that a specifier can leave out, in the order in which they are tried. -/
def extensions : List String :=
  [".ts", ".tsx", ".d.ts", ".js", ".jsx", ".mts", ".cts", ".mjs", ".cjs"]

/-- The extensions of compiled files, with the extensions of the sources they are compiled from. -/
def compiledExtensions : List (String × List String) :=
  [(".js", [".ts", ".tsx"]), (".jsx", [".tsx"]), (".mjs", [".mts"]), (".cjs", [".cts"])]

/-- The text before a given ending. -/
def dropEnding? (text ending : String) : Option String :=
  if ending.toList.isSuffixOf text.toList then
    some (String.ofList (text.toList.take (text.length - ending.length)))
  else none

/-- Whether a specifier is seen from the directory of the importing file. -/
def isRelative (specifier : String) : Bool :=
  specifier = "." || specifier = ".." || "./".toList.isPrefixOf specifier.toList ||
    "../".toList.isPrefixOf specifier.toList

end Import

/-- The files of a project by normalised path, and what decides where imports lead. -/
structure ModuleIndex where
  workingDirectory : Path
  config : Config
  files : List (Path × FileId)
  deriving Repr, Inhabited

namespace ModuleIndex

/-- The index of some files. -/
def ofFiles (workingDirectory : Path) (config : Config) (files : List SourceFile) : ModuleIndex :=
  ⟨workingDirectory, config,
    files.map fun file => (file.path.normalize workingDirectory, file.id)⟩

variable (index : ModuleIndex)

/-- The file of a normalised path. Of two files with one path, the later counts. -/
def file? (path : Path) : Option FileId :=
  (index.files.findRev? (·.1 == path)).map (·.2)

/--
The file that a path means: the one at the path itself or, if there is none, at the path
with an extension, the index of the directory of that name, or a source that the path is
compiled from.
-/
def probe? (path : Path) : Option FileId :=
  let place := path.normalize index.workingDirectory
  index.file? place
    <|> Import.extensions.findSome? (fun extension => index.file? ⟨place.text ++ extension⟩)
    <|> Import.extensions.findSome? (fun extension =>
      index.file? (place.join ⟨"index" ++ extension⟩))
    <|> Import.compiledExtensions.findSome? fun (compiled, sources) =>
      (Import.dropEnding? place.text compiled).bind fun stem =>
        sources.findSome? fun source => index.file? ⟨stem ++ source⟩

/-- The file that the path patterns of the configuration give for a specifier. -/
def resolveMapped? (specifier : String) : Option FileId :=
  index.config.pathsBase.bind fun base =>
    index.config.paths.findSome? fun (pattern, targets) =>
      (Import.capture? pattern specifier).bind fun captured =>
        targets.findSome? fun target => index.probe? (base.join ⟨Import.substitute target captured⟩)

/-- The file that an import leads to. -/
def resolve? (importer : Path) (specifier : String) : Option FileId :=
  if Import.isRelative specifier then
    importer.parent?.bind fun directory => index.probe? (directory.join ⟨specifier⟩)
  else if (⟨specifier⟩ : Path).isAbsolute then index.probe? ⟨specifier⟩
  else index.resolveMapped? specifier
    <|> index.config.baseUrl.bind fun base => index.probe? (base.join ⟨specifier⟩)

end ModuleIndex

end CallHierarchy
