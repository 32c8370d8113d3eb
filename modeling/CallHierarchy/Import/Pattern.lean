/-!
# Specifier patterns

A pattern with a `*` stands for all specifiers that begin with the text before
its first `*` and end with the text after it. What the `*` stands for is put in
the place of the first `*` of a target. A pattern without a `*` stands for
itself.
-/

namespace CallHierarchy.Import

/-- Splits a text at its first `*`. -/
def splitAtStar? (text : List Char) : Option (List Char × List Char) :=
  match text.dropWhile (· ≠ '*') with
  | [] => none
  | _ :: after => some (text.takeWhile (· ≠ '*'), after)

/-- What the `*` of a pattern stands for in a specifier, if the pattern fits. -/
def capture? (pattern specifier : String) : Option String :=
  match splitAtStar? pattern.toList with
  | none => if pattern = specifier then some "" else none
  | some (before, after) =>
    let text := specifier.toList
    if before.length + after.length ≤ text.length ∧ before.isPrefixOf text ∧ after.isSuffixOf text
    then some (String.ofList
      ((text.drop before.length).take (text.length - before.length - after.length)))
    else none

/-- Puts a text in the place of the first `*` of a target. -/
def substitute (target captured : String) : String :=
  match splitAtStar? target.toList with
  | none => target
  | some (before, after) => String.ofList (before ++ captured.toList ++ after)

end CallHierarchy.Import
