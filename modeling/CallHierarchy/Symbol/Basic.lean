import CallHierarchy.Import.Resolution
import CallHierarchy.Scope.Table
import CallHierarchy.Source.Locate

/-!
# Symbols and value types

A *symbol* is what a name refers to once imports and exports have been followed:
a declaration, or all exports of a file. A *value type* says of an expression
just what is needed to look up its members: that it is an instance of a class, a
class itself, an object literal, or the exports of a file.
-/

namespace CallHierarchy

/-- What a name refers to. -/
inductive Symbol where
  | declaration (key : NodeKey)
  /-- All exports of a file. -/
  | exportsOf (file : FileId)
  deriving DecidableEq, Repr, Inhabited

/-- The declaration that a symbol stands for, unless it stands for a whole file. -/
def Symbol.declaration? : Symbol → Option NodeKey
  | .declaration key => some key
  | .exportsOf _ => none

/-- What is known of a value. Classes and object literals are given by their nodes. -/
inductive ValueType where
  | instanceOf (definition : NodeKey)
  | classItself (definition : NodeKey)
  | object (literal : NodeKey)
  | exportsOf (file : FileId)
  deriving DecidableEq, Repr, Inhabited

namespace ValueType

/-- The definition of a class that is itself the value. -/
def class? : ValueType → Option NodeKey
  | .classItself definition => some definition
  | _ => none

/-- The type of what a class constructs. -/
def constructed? (type : ValueType) : Option ValueType :=
  type.class?.map .instanceOf

end ValueType

/-- The files of a project with their scope tables, and where their imports lead. -/
structure SymbolTable where
  files : List (SourceFile × ScopeTable)
  modules : ModuleIndex

namespace SymbolTable

/-- The symbol table of some files, whose positions are their numbers. -/
def ofFiles (workingDirectory : Path) (config : Config) (files : List SourceFile) :
    SymbolTable where
  files := files.map fun file => (file, ScopeTable.ofFile file)
  modules := ModuleIndex.ofFiles workingDirectory config files

/-- A file and its scope table. -/
def file? (table : SymbolTable) (id : FileId) : Option (SourceFile × ScopeTable) :=
  table.files[id]?

/-- The node that a key names, in whichever file it is. -/
def node? (table : SymbolTable) (key : NodeKey) : Option Node :=
  (table.file? key.file).bind fun (file, _) => file.nodeAt? key

/-- The file that an import in a given file leads to. -/
def target? (table : SymbolTable) (importer : SourceFile) (specifier : String) : Option FileId :=
  table.modules.resolve? importer.path specifier

end SymbolTable

end CallHierarchy
