import CallHierarchy.Json.Basic

/-!
# Writing JSON

A value is written either without any white space, or with one item or member on
a line and two blanks for every level. Empty arrays and objects stay on one line
in both forms.
-/

namespace CallHierarchy.Json

/-- A string in its quotes. -/
def quote (content : List Char) : List Char :=
  '"' :: content ++ ['"']

/-- The words for truth values. -/
def boolText (value : Bool) : List Char :=
  if value then ['t', 'r', 'u', 'e'] else ['f', 'a', 'l', 's', 'e']

mutual

/-- A value without white space. -/
def compact : Json → List Char
  | .null => ['n', 'u', 'l', 'l']
  | .bool value => boolText value
  | .number text => text
  | .string content => quote content
  | .array items => '[' :: compactItems items ++ [']']
  | .object members => '\x7b' :: compactMembers members ++ ['\x7d']

/-- Items with commas between them. -/
def compactItems : List Json → List Char
  | [] => []
  | [item] => compact item
  | item :: rest => compact item ++ ',' :: compactItems rest

/-- Members with commas between them. -/
def compactMembers : List (List Char × Json) → List Char
  | [] => []
  | [(key, value)] => quote key ++ ':' :: compact value
  | (key, value) :: rest => quote key ++ ':' :: compact value ++ ',' :: compactMembers rest

end

/-- A new line at the given level. -/
def newLine (level : Nat) : List Char :=
  '\n' :: List.replicate (2 * level) ' '

mutual

/-- A value with every item and member on its own line; the value itself is at the given level. -/
def pretty (level : Nat) : Json → List Char
  | .null => ['n', 'u', 'l', 'l']
  | .bool value => boolText value
  | .number text => text
  | .string content => quote content
  | .array [] => ['[', ']']
  | .array (item :: rest) =>
    '[' :: newLine (level + 1) ++ prettyItems (level + 1) (item :: rest) ++ newLine level ++ [']']
  | .object [] => ['\x7b', '\x7d']
  | .object (member :: rest) =>
    '\x7b' :: newLine (level + 1) ++ prettyMembers (level + 1) (member :: rest) ++ newLine level ++
      ['\x7d']

/-- Items at a level, each on its own line. -/
def prettyItems (level : Nat) : List Json → List Char
  | [] => []
  | [item] => pretty level item
  | item :: rest => pretty level item ++ ',' :: newLine level ++ prettyItems level rest

/-- Members at a level, each on its own line. -/
def prettyMembers (level : Nat) : List (List Char × Json) → List Char
  | [] => []
  | [(key, value)] => quote key ++ ':' :: ' ' :: pretty level value
  | (key, value) :: rest =>
    quote key ++ ':' :: ' ' :: pretty level value ++ ',' :: newLine level ++
      prettyMembers level rest

end

end CallHierarchy.Json
