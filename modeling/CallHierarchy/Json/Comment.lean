import CallHierarchy.Text.Blank

/-!
# JSON with comments

Configuration files are JSON in which comments are allowed, and a comma before a
closing bracket. `Json.withoutComments` takes both out and leaves everything else
as it is, string literals above all. A block comment leaves a blank behind, so
that it still separates what stands around it.
-/

namespace CallHierarchy.Json

/-- Puts a closing bracket after a text, given last character first, and drops a comma before it. -/
def close (bracket : Char) (written : List Char) : List Char :=
  match written.dropWhile Text.isBlank with
  | ',' :: before => bracket :: before
  | _ => bracket :: written

mutual

/-- Goes on outside of strings and comments. What is written so far is given in reverse. -/
def stripCode (written : List Char) : List Char → List Char
  | [] => written
  | '"' :: rest => stripString ('"' :: written) rest
  | '/' :: '/' :: rest => stripLineComment written rest
  | '/' :: '*' :: rest => stripBlockComment written rest
  | character :: rest =>
    if character = ']' ∨ character = '\x7d' then stripCode (close character written) rest
    else stripCode (character :: written) rest

/-- Goes on inside a string literal. -/
def stripString (written : List Char) : List Char → List Char
  | [] => written
  | '\\' :: escaped :: rest => stripString (escaped :: '\\' :: written) rest
  | '"' :: rest => stripCode ('"' :: written) rest
  | character :: rest => stripString (character :: written) rest

/-- Goes on inside a comment that ends with the line. -/
def stripLineComment (written : List Char) : List Char → List Char
  | [] => written
  | '\n' :: rest => stripCode ('\n' :: written) rest
  | _ :: rest => stripLineComment written rest

/-- Goes on inside a comment that ends with a star and a slash. -/
def stripBlockComment (written : List Char) : List Char → List Char
  | [] => ' ' :: written
  | '*' :: '/' :: rest => stripCode (' ' :: written) rest
  | _ :: rest => stripBlockComment written rest

end

/-- The text without comments and without commas before closing brackets. -/
def withoutComments (text : String) : String :=
  String.ofList (stripCode [] text.toList).reverse

end CallHierarchy.Json
