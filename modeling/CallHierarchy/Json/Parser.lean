import CallHierarchy.Json.Token

/-!
# Reading JSON

Tokens are read one at a time. What is open around the current place is kept on a
stack, so a value may nest to any depth.
-/

namespace CallHierarchy.Json

/-- An array or object around the current place, with what it holds so far in reverse. -/
inductive Frame where
  | array (before : List Json)
  | object (before : List (List Char × Json)) (key : List Char)

/-- What can come next. -/
inductive ParseState where
  /-- A value. -/
  | expectValue
  /-- The first item of an array, or its end. -/
  | expectFirstItem
  /-- The first key of an object, or its end. -/
  | expectFirstKey
  /-- A key, after the members read so far in reverse. -/
  | expectKey (before : List (List Char × Json))
  /-- The colon after a key. -/
  | expectColon (before : List (List Char × Json)) (key : List Char)
  /-- What follows a finished value. -/
  | after (value : Json)

namespace ParseState

/-- Reads the first token of a value. -/
def start (stack : List Frame) : Token → Option (ParseState × List Frame)
  | .openBrace => some (.expectFirstKey, stack)
  | .openBracket => some (.expectFirstItem, stack)
  | .null => some (.after .null, stack)
  | .bool value => some (.after (.bool value), stack)
  | .number text => some (.after (.number text), stack)
  | .string content => some (.after (.string content), stack)
  | .closeBrace | .closeBracket | .colon | .comma => none

/-- Reads a token. -/
def step (state : ParseState) (stack : List Frame) (token : Token) :
    Option (ParseState × List Frame) :=
  match state, token with
  | .expectValue, token => start stack token
  | .expectFirstItem, .closeBracket => some (.after (.array []), stack)
  | .expectFirstItem, token => start (.array [] :: stack) token
  | .expectFirstKey, .closeBrace => some (.after (.object []), stack)
  | .expectFirstKey, .string key => some (.expectColon [] key, stack)
  | .expectKey before, .string key => some (.expectColon before key, stack)
  | .expectColon before key, .colon => some (.expectValue, .object before key :: stack)
  | .after value, token =>
    match stack, token with
    | .array before :: rest, .comma => some (.expectValue, .array (value :: before) :: rest)
    | .array before :: rest, .closeBracket =>
      some (.after (.array (value :: before).reverse), rest)
    | .object before key :: rest, .comma => some (.expectKey ((key, value) :: before), rest)
    | .object before key :: rest, .closeBrace =>
      some (.after (.object ((key, value) :: before).reverse), rest)
    | _, _ => none
  | _, _ => none

/-- Reads the rest of a text's tokens. -/
def run (state : ParseState) (stack : List Frame) : List Token → Option Json
  | [] =>
    match state, stack with
    | .after value, [] => some value
    | _, _ => none
  | token :: rest =>
    match state.step stack token with
    | none => none
    | some (next, stack) => run next stack rest

end ParseState

/-- The value that a list of tokens stands for. -/
def ofTokens? (tokens : List Token) : Option Json :=
  ParseState.expectValue.run [] tokens

/-- The value that a text stands for. -/
def parse? (text : String) : Option Json :=
  (tokens? text.toList).bind ofTokens?

end CallHierarchy.Json
