import CallHierarchy.Path

/-!
# Project configurations

The part of a project configuration that decides where imports lead: a base
directory for plain specifiers, and patterns that map specifiers to other
places.
-/

namespace CallHierarchy

/-- Where the imports of a project lead. -/
structure Config where
  /-- The file that the configuration was read from. -/
  path : Path
  /-- The directory that plain specifiers are looked up in. -/
  baseUrl : Option Path
  /-- Patterns with at most one `*`, and the places that they stand for, the first choice first. -/
  paths : List (String × List String)
  /-- The directory that the places are seen from. -/
  pathsBase : Option Path
  deriving DecidableEq, Repr, Inhabited

/-- The configuration that sets nothing. -/
def Config.empty : Config :=
  ⟨⟨""⟩, none, [], none⟩

end CallHierarchy
