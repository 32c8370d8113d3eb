/-!
# Glob patterns

A pattern is written with `?` for one character, `*` for any characters, `[…]`
and `[!…]` for one character of a set or outside it, and `**` for any number of
directories. `**` must fill the whole space between two slashes.
-/

namespace CallHierarchy.Glob

/-- One part of a pattern. -/
inductive Token where
  | character (value : Char)
  | anyCharacter
  | anySequence
  /-- Any number of directories. -/
  | anyDirectories
  /-- One character of a set of ranges, or one outside it. -/
  | oneOf (ranges : List (Char × Char)) (inside : Bool)
  deriving DecidableEq, Repr

/-- The character that a token stands for, if it can stand for nothing else. -/
def Token.literal? : Token → Option Char
  | .character value => some value
  | _ => none

/-- What is wrong with a pattern. -/
inductive Fault where
  | wildcards
  | directories
  | range
  deriving DecidableEq, Repr

/-- The words for what is wrong with a pattern. -/
def Fault.message : Fault → String
  | .wildcards => "wildcards are either regular `*` or recursive `**`"
  | .directories => "recursive wildcards must form a single path component"
  | .range => "invalid range pattern"

/-- A fault and the character at which it was noticed. -/
structure PatternError where
  position : Nat
  fault : Fault
  deriving DecidableEq, Repr

/-- The words for a fault in its place. -/
def PatternError.message (error : PatternError) : String :=
  "Pattern syntax error near position " ++ toString error.position ++ ": " ++ error.fault.message

/-- The ranges of a set: `a-z` is one range, any other character a range of its own. -/
def ranges : List Char → List (Char × Char)
  | first :: '-' :: last :: rest => (first, last) :: ranges rest
  | character :: rest => (character, character) :: ranges rest
  | [] => []

mutual

/-- Reads a pattern from a position on, given the character before it. -/
def parseFrom (position : Nat) (previous : Option Char) :
    List Char → Except PatternError (List Token)
  | [] => .ok []
  | '?' :: rest => return .anyCharacter :: (← parseFrom (position + 1) (some '?') rest)
  | '*' :: '*' :: '*' :: _ => .error ⟨position + 2, .wildcards⟩
  | ['*', '*'] =>
    if previous.all (· = '/') then .ok [.anyDirectories]
    else .error ⟨position - 1, .directories⟩
  | '*' :: '*' :: next :: rest =>
    if !previous.all (· = '/') then .error ⟨position - 1, .directories⟩
    else if next = '/' then return .anyDirectories :: (← parseFrom (position + 3) (some '/') rest)
    else .error ⟨position + 2, .directories⟩
  | '*' :: rest => return .anySequence :: (← parseFrom (position + 1) (some '*') rest)
  | '[' :: '!' :: first :: rest => parseSet position (position + 3) false [first] rest
  | ['[', '!'] => .error ⟨position, .range⟩
  | '[' :: first :: rest => parseSet position (position + 2) true [first] rest
  | ['['] => .error ⟨position, .range⟩
  | character :: rest =>
    return .character character :: (← parseFrom (position + 1) (some character) rest)

/-- Reads a set that was opened at a position. Its first character has been read in any case. -/
def parseSet (opened position : Nat) (inside : Bool) (read : List Char) :
    List Char → Except PatternError (List Token)
  | [] => .error ⟨opened, .range⟩
  | ']' :: rest =>
    return .oneOf (ranges read.reverse) inside :: (← parseFrom (position + 1) (some ']') rest)
  | character :: rest => parseSet opened (position + 1) inside (character :: read) rest

end

/-- A pattern, or a part of one between two slashes. -/
structure Pattern where
  tokens : List Token
  deriving DecidableEq, Repr

namespace Pattern

/-- Reads a pattern. -/
def parse (text : List Char) : Except PatternError Pattern :=
  return ⟨← parseFrom 0 none text⟩

/-- The text that a pattern without wildcards and sets stands for. -/
def literal? (pattern : Pattern) : Option String :=
  (pattern.tokens.mapM Token.literal?).map String.ofList

/-- Whether a pattern stands for any number of directories. -/
def isRecursive (pattern : Pattern) : Bool :=
  pattern.tokens.contains .anyDirectories

/-- Whether a pattern starts with a dot. Only then can it stand for `.` and `..`. -/
def startsWithDot (pattern : Pattern) : Bool :=
  pattern.tokens.head? == some (.character '.')

end Pattern

/-- Whether a character is in one of some ranges. -/
def inRanges (ranges : List (Char × Char)) (character : Char) : Bool :=
  ranges.any fun (first, last) => first ≤ character && character ≤ last

/-- What is left of a text from each of its places on, the longest first. -/
def suffixes : List Char → List (List Char)
  | [] => [[]]
  | character :: rest => (character :: rest) :: suffixes rest

namespace Token

/-- Whether a token stands for a single character. -/
def fits (token : Token) (character : Char) : Bool :=
  match token with
  | .character value => value == character
  | .anyCharacter => true
  | .oneOf ranges inside => inRanges ranges character == inside
  | .anySequence | .anyDirectories => false

/-- What is left of a text after a single character that a token stands for. -/
def rest? (token : Token) : List Char → Option (List Char)
  | [] => none
  | first :: rest => if token.fits first then some rest else none

/--
What can be left of a name after a token, given what can be left before it. All
of it are suffixes of the name, the longest first, so a sequence of any length
leaves the suffixes of the first. No suffix is followed twice, however many
sequences a pattern has.
-/
def advance (left : List (List Char)) (token : Token) : List (List Char) :=
  match token with
  | .anySequence | .anyDirectories =>
    match left with
    | [] => []
    | longest :: _ => suffixes longest
  | .character _ | .anyCharacter | .oneOf _ _ => left.filterMap token.rest?

end Token

/-- Whether a pattern stands for a name: in some way nothing of the name is left at its end. -/
def Pattern.fits (pattern : Pattern) (name : String) : Bool :=
  (pattern.tokens.foldl Token.advance [name.toList]).any List.isEmpty

end CallHierarchy.Glob
