import CallHierarchy.Json.Basic

/-!
# JSON tokens

A text is cut into tokens by an automaton that reads one character at a time. A
number ends at the first character that cannot continue it; that character then
starts the next token.
-/

namespace CallHierarchy.Json

/-- The smallest parts of a JSON text. -/
inductive Token where
  | openBrace
  | closeBrace
  | openBracket
  | closeBracket
  | colon
  | comma
  | null
  | bool (value : Bool)
  | number (text : List Char)
  | string (content : List Char)
  deriving DecidableEq, Repr

/-- What of a number has been read last. -/
inductive NumberPart where
  | minus
  | zero
  | integer
  | point
  | fraction
  | exponentMark
  | exponentSign
  | exponent
  deriving DecidableEq, Repr

namespace NumberPart

/-- Whether a number can end here. -/
def isComplete : NumberPart → Bool
  | .zero | .integer | .fraction | .exponent => true
  | .minus | .point | .exponentMark | .exponentSign => false

/-- The part that a character continues a number with. -/
def continue? (part : NumberPart) (character : Char) : Option NumberPart :=
  match part with
  | .minus =>
    if character = '0' then some .zero else if character.isDigit then some .integer else none
  | .zero =>
    if character = '.' then some .point
    else if character = 'e' ∨ character = 'E' then some .exponentMark else none
  | .integer =>
    if character.isDigit then some .integer
    else if character = '.' then some .point
    else if character = 'e' ∨ character = 'E' then some .exponentMark else none
  | .point => if character.isDigit then some .fraction else none
  | .fraction =>
    if character.isDigit then some .fraction
    else if character = 'e' ∨ character = 'E' then some .exponentMark else none
  | .exponentMark =>
    if character = '+' ∨ character = '-' then some .exponentSign
    else if character.isDigit then some .exponent else none
  | .exponentSign | .exponent => if character.isDigit then some .exponent else none

end NumberPart

/-- Where in the text the automaton is. What belongs to the current token is kept in reverse. -/
inductive LexState where
  | between
  /-- Inside a word: the letters that must still come, and the token it then is. -/
  | word (missing : List Char) (token : Token)
  | number (part : NumberPart) (read : List Char)
  | string (read : List Char)
  /-- After a backslash in a string. -/
  | escape (read : List Char)
  /-- After `\u` in a string: so many digits must still come. -/
  | unicode (missing : Nat) (read : List Char)
  deriving DecidableEq, Repr

namespace LexState

/-- White space between tokens. -/
def isSpace (character : Char) : Bool :=
  character = ' ' || character = '\t' || character = '\n' || character = '\r'

/-- Reads a character that does not belong to a token before it. -/
def start (character : Char) : Option (List Token × LexState) :=
  if isSpace character then some ([], .between)
  else match character with
    | '\x7b' => some ([.openBrace], .between)
    | '\x7d' => some ([.closeBrace], .between)
    | '[' => some ([.openBracket], .between)
    | ']' => some ([.closeBracket], .between)
    | ':' => some ([.colon], .between)
    | ',' => some ([.comma], .between)
    | '"' => some ([], .string [])
    | '-' => some ([], .number .minus ['-'])
    | '0' => some ([], .number .zero ['0'])
    | 't' => some ([], .word ['r', 'u', 'e'] (.bool true))
    | 'f' => some ([], .word ['a', 'l', 's', 'e'] (.bool false))
    | 'n' => some ([], .word ['u', 'l', 'l'] .null)
    | _ => if character.isDigit then some ([], .number .integer [character]) else none

/-- Reads a character: the tokens that end with it, and where the automaton is then. -/
def step (state : LexState) (character : Char) : Option (List Token × LexState) :=
  match state with
  | .between => start character
  | .word [] _ => none
  | .word (letter :: missing) token =>
    if character ≠ letter then none
    else if missing.isEmpty then some ([token], .between)
    else some ([], .word missing token)
  | .number part read =>
    match part.continue? character with
    | some next => some ([], .number next (character :: read))
    | none =>
      if part.isComplete then
        (start character).map fun (tokens, next) => (.number read.reverse :: tokens, next)
      else none
  | .string read =>
    if character = '"' then some ([.string read.reverse], .between)
    else if character = '\\' then some ([], .escape (character :: read))
    else if character.toNat < 0x20 then none
    else some ([], .string (character :: read))
  | .escape read =>
    if character = 'u' then some ([], .unicode 4 (character :: read))
    else if (unescapeLetter? character).isSome then some ([], .string (character :: read))
    else none
  | .unicode missing read =>
    if (hexValue? character).isNone then none
    else if missing ≤ 1 then some ([], .string (character :: read))
    else some ([], .unicode (missing - 1) (character :: read))

/-- The tokens that end with the text. -/
def finish : LexState → Option (List Token)
  | .between => some []
  | .number part read => if part.isComplete then some [.number read.reverse] else none
  | _ => none

/-- The tokens of the rest of a text. -/
def run (state : LexState) : List Char → Option (List Token)
  | [] => state.finish
  | character :: rest =>
    match state.step character with
    | none => none
    | some (tokens, next) => (run next rest).map (tokens ++ ·)

end LexState

/-- The tokens of a text, if it consists of tokens and white space only. -/
def tokens? (text : List Char) : Option (List Token) :=
  LexState.between.run text

end CallHierarchy.Json
