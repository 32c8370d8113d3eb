import CallHierarchy.Json.Parser
import CallHierarchy.Table

/-!
# Reading records from JSON

A record is written as an object, or as an array of its fields in order. In an
object, keys that the record does not know are passed over without a look at
their values, and a known key may come only once.

Values that are read may nest only so deep. The functions here take the number
of levels that may still be opened.
-/

namespace CallHierarchy.Json

/-- The text of a string. -/
def text? : Json → Option String
  | .string content => (unescape? content).map String.ofList
  | _ => none

/-- The text of a string, or nothing for null. -/
def optionalText? : Json → Option (Option String)
  | .null => some none
  | json => json.text?.map some

/-- Opens an array: its items, and the levels that may be opened inside it. -/
def items? : Nat → Json → Option (Nat × List Json)
  | depth + 1, .array items => some (depth, items)
  | _, _ => none

/-- The texts of an array of strings. -/
def texts? (depth : Nat) (json : Json) : Option (List String) :=
  (json.items? depth).bind fun (_, items) => items.mapM text?

/-- The members of an object with their keys as text. -/
def keyed? (members : List (List Char × Json)) : Option (List (String × Json)) :=
  members.mapM fun (content, value) =>
    (unescape? content).map fun key => (String.ofList key, value)

/-- Opens an object: its members in order, and the levels that may be opened inside it. -/
def members? : Nat → Json → Option (Nat × List (String × Json))
  | depth + 1, .object members => (keyed? members).map fun members => (depth, members)
  | _, _ => none

/-- The names of a record's fields, and how many of them an array must give. -/
structure RecordShape where
  fields : List String
  required : Nat

/-- The value of a field among the members of an object, unless the field comes twice. -/
def field? (members : List (String × Json)) (name : String) : Option (Option Json) :=
  match members.filter (·.1 == name) with
  | [] => some none
  | [(_, value)] => some (some value)
  | _ => none

/-- Opens a record: the values of its fields, where given, and the levels left inside it. -/
def record? (shape : RecordShape) : Nat → Json → Option (Nat × List (Option Json))
  | depth + 1, .object members =>
    (keyed? members).bind fun members =>
      (shape.fields.mapM (field? members)).map fun values => (depth, values)
  | depth + 1, .array items =>
    if shape.required ≤ items.length ∧ items.length ≤ shape.fields.length then
      some (depth, items.map some ++ List.replicate (shape.fields.length - items.length) none)
    else none
  | _, _ => none

/-- Reads the values of some members, in order. -/
def readMembers? {α : Type} (read : Json → Option α) (members : List (String × Json)) :
    Option (List (String × α)) :=
  members.mapM fun (key, value) => (read value).map fun result => (key, result)

/-- Opens an object whose keys are free: of a key that comes twice, the last value counts. -/
def dictionary? {α : Type} (depth : Nat) (read : Nat → Json → Option α) (json : Json) :
    Option (List (String × α)) :=
  (json.members? depth).bind fun (inside, members) =>
    (readMembers? (read inside) members).map Table.ofEntries

end CallHierarchy.Json
