import CallHierarchy.Symbol.Effect

/-!
# Following imports and exports

An exported name is followed from file to file until declarations are reached.
Two things keep the search finite and cheap: every pair of a file and a name is
entered at most once in a search, and every step goes one deeper, up to a limit
beyond which nothing more is found.

Here is what the bindings and the exports of one file refer to, given a search
through the other files.
-/

namespace CallHierarchy

/-- A search for what a file offers under a name, given what has been entered so far. -/
abbrev Search (effect : Effect) := FileId → String → Visited → effect.Searched

namespace SymbolTable

variable (effect : Effect) (table : SymbolTable) (search : Search effect) (file : SourceFile)

/-- What a binding of a file refers to. -/
def findBinding (binding : Binding) (visited : Visited) : effect.Searched :=
  match binding.origin with
  | .here => effect.ended [.declaration binding.declaration] visited
  | .elsewhere specifier imported =>
    match table.target? file specifier, imported with
    | none, _ => effect.ended [] visited
    | some target, .everything => effect.ended [.exportsOf target] visited
    | some target, .item name => search target name visited

/-- What a file forwards from another file under a name. -/
def findForwarded (name specifier : String) (visited : Visited) : effect.Searched :=
  match table.target? file specifier with
  | none => effect.ended [] visited
  | some target => search target name visited

/-- What an export of a file refers to, given a search for top-level names as well. -/
def findExport (findTopLevel : List Binding → Visited → effect.Searched) (scopes : ScopeTable)
    (offer : Export) (visited : Visited) : effect.Searched :=
  match offer with
  | .topLevel name => findTopLevel (scopes.topBindings name) visited
  | .declaration key => effect.ended [.declaration key] visited
  | .forwarded specifier name => findForwarded effect table search file name specifier visited
  | .everything specifier =>
    effect.ended ((table.target? file specifier).map .exportsOf).toList visited

/--
What a file offers under a name that has not been looked for there. If the file
exports the name, that decides; otherwise the first of the files whose exports it
offers as a whole and that has the name. Default exports are never passed on in
this way.
-/
def findOffered (findTopLevel : List Binding → Visited → effect.Searched) (scopes : ScopeTable)
    (name : String) (visited : Visited) : effect.Searched :=
  match scopes.offers name with
  | [] =>
    if name = "default" then effect.ended [] visited
    else effect.firstFound (findForwarded effect table search file name) scopes.stars visited
  | offers => effect.gather (findExport effect table search file findTopLevel scopes) offers visited

end SymbolTable

end CallHierarchy
