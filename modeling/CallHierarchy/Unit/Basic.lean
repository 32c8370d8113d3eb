import CallHierarchy.Source.Basic

/-!
# Code units

A *unit* is a piece of code that can call and, for the most part, be called: a
file, a function, a class, a member of a class or a static block. Units are
numbered in the order in which they are met, and refer to each other by number.
-/

namespace CallHierarchy

/--
The number of a unit. Runs are taken to stay below 2 ^ 32 units, so that a counter of 32 bits
would give the same numbers.
-/
abbrev UnitId := Nat

/-- What a unit is in the source. -/
inductive UnitKind where
  | file
  | function
  | classDefinition
  | constructor
  | getter
  | setter
  | method
  | staticBlock
  deriving DecidableEq, Repr, Inhabited

namespace UnitKind

/-- The word that stands for a kind of unit in all outputs. -/
def word : UnitKind → String
  | .file => "file"
  | .function => "fn"
  | .classDefinition => "class"
  | .constructor => "constructor"
  | .getter => "getter"
  | .setter => "setter"
  | .method => "method"
  | .staticBlock => "static"

/-- All kinds of units. -/
def all : List UnitKind :=
  [.file, .function, .classDefinition, .constructor, .getter, .setter, .method, .staticBlock]

/-- The kind of unit that a word stands for. -/
def ofWord? (word : String) : Option UnitKind :=
  all.find? (·.word = word)

theorem ofWord?_word (kind : UnitKind) : ofWord? kind.word = some kind := by
  cases kind <;> decide

end UnitKind

/-- Where a unit stands in the source. -/
structure Span where
  file : FileId
  /-- The offset of the first byte. -/
  start : Nat
  /-- The offset after the last byte. -/
  stop : Nat
  /-- The first line, counted from one. -/
  line : Nat
  deriving DecidableEq, Repr, Inhabited

/-- A unit with the units directly inside it and the units it calls, both in source order. -/
structure CodeUnit where
  id : UnitId
  kind : UnitKind
  name : Option String
  children : List UnitId
  calls : List UnitId
  span : Span
  deriving DecidableEq, Repr, Inhabited

/-- The name of a unit for display. -/
def CodeUnit.label (unit : CodeUnit) : String :=
  unit.name.getD "<anonymous>"

end CallHierarchy
