import CallHierarchy.Symbol.Basic

/-!
# What a look-up gives

The look-ups for names, members and types are written once, for results of several
kinds. An *effect* says what the results are and how they are put together. The
program takes the plain one: a look-up for one thing gives the thing or nothing, and
a look-up for several things gives their list. Another effect can give an account of
the look-up as well, such as whether it was cut off.
-/

namespace CallHierarchy

/-- The files and names that a search has entered. -/
abbrev Visited := List (FileId × String)

/-- The results that look-ups have, and how they are put together. -/
structure Effect where
  /-- One thing at most. -/
  One : Type → Type
  /-- Symbols in the order in which they are found. -/
  Many : Type
  /-- Symbols, and what the search for them has entered. -/
  Searched : Type
  ofOption : {α : Type} → Option α → One α
  bind : {α β : Type} → One α → (α → One β) → One β
  /-- The first thing, or else the one that is tried next. -/
  orElse : {α : Type} → One α → (Unit → One α) → One α
  ofList : List Symbol → Many
  append : Many → Many → Many
  /-- What is found from a thing, if there is one. -/
  after : {α : Type} → One α → (α → Many) → Many
  first : Many → One Symbol
  /-- The end of a search that has found and entered something. -/
  ended : List Symbol → Visited → Searched
  /-- What a search finds and another one after it. -/
  andThen : Searched → (Visited → Searched) → Searched
  /-- What a search finds, or else another one after it. -/
  orThen : Searched → (Visited → Searched) → Searched
  symbols : Searched → Many
  /-- What a look-up for one thing gives beyond the limit. -/
  noThing : {α : Type} → One α
  /-- What a look-up for several things gives beyond the limit. -/
  noSymbols : Many
  /-- What a search gives beyond the limit. -/
  noSearch : Visited → Searched

namespace Effect

/-- Options and lists. Beyond the limit there is nothing. -/
@[reducible]
def plain : Effect where
  One := Option
  Many := List Symbol
  Searched := List Symbol × Visited
  ofOption := fun thing => thing
  bind := Option.bind
  orElse := Option.orElse
  ofList := fun symbols => symbols
  append := List.append
  after thing find := thing.elim [] find
  first := List.head?
  ended symbols visited := (symbols, visited)
  andThen search next :=
    let others := next search.2
    (search.1 ++ others.1, others.2)
  orThen search next := if search.1.isEmpty then next search.2 else search
  symbols := Prod.fst
  noThing := none
  noSymbols := []
  noSearch visited := ([], visited)

variable (effect : Effect) {α : Type}

/-- What is found from the items of a list, one after the other. -/
def collect (find : α → effect.Many) : List α → effect.Many
  | [] => effect.ofList []
  | item :: rest => effect.append (find item) (collect find rest)

/-- What searches from the items of a list find, one after the other. -/
def gather (find : α → Visited → effect.Searched) : List α → Visited → effect.Searched
  | [], visited => effect.ended [] visited
  | item :: rest, visited => effect.andThen (find item visited) (gather find rest)

/-- What is found from the first item of a list from which something is found. -/
def firstFound (find : α → Visited → effect.Searched) : List α → Visited → effect.Searched
  | [], visited => effect.ended [] visited
  | item :: rest, visited => effect.orThen (find item visited) (firstFound find rest)

end Effect

end CallHierarchy
