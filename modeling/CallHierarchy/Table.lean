/-!
# Tables

A table is a list of values by key. A key keeps the place in which it was first set, so
a table that is built by setting keys has no key twice.
-/

namespace CallHierarchy.Table

variable {κ β : Type} [DecidableEq κ]

/-- The value of a key. -/
def get? (table : List (κ × β)) (key : κ) : Option β :=
  (table.find? (·.1 = key)).map (·.2)

/-- Sets the value of a key. A key that is there keeps its place. -/
def set (table : List (κ × β)) (key : κ) (value : β) : List (κ × β) :=
  if table.any (·.1 = key) then
    table.map fun entry => if entry.1 = key then (key, value) else entry
  else table ++ [(key, value)]

/-- The table in which some keys are set one after the other. -/
def ofEntries (entries : List (κ × β)) : List (κ × β) :=
  entries.foldl (fun table (key, value) => set table key value) []

end CallHierarchy.Table
