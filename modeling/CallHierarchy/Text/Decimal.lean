/-!
# Decimal numbers

Natural numbers are read from decimal digits, with leading zeros or without.
-/

namespace CallHierarchy.Text

/-- The number that some decimal digits stand for. -/
def decimalValue (digits : List Char) : Nat :=
  digits.foldl (fun value digit => value * 10 + (digit.toNat - '0'.toNat)) 0

/-- The number that a text of one or more decimal digits stands for. -/
def decimal? (text : List Char) : Option Nat :=
  if !text.isEmpty && text.all Char.isDigit then some (decimalValue text) else none

end CallHierarchy.Text
