/-!
# Quoted names

Names can be written as string literals: in module specifiers, in quoted
property names and in import and export clauses. They are compared without
their quotes.
-/

namespace CallHierarchy.Text

/-- The characters that can open and close a string literal. -/
def isQuote (character : Char) : Bool :=
  character == '"' || character == '\'' || character == '`'

/-- The text between two equal quotes at the ends of a text, or else the text itself. -/
def unquote (text : String) : String :=
  match text.toList with
  | [] | [_] => text
  | first :: rest =>
    if isQuote first && rest.getLast? == some first then String.ofList rest.dropLast else text

end CallHierarchy.Text
