import CallHierarchy.Source.Basic

/-!
# Trees written as lists

A parser hands over a tree as the list of its nodes in preorder, each with the
number of its children.
-/

namespace CallHierarchy

namespace Tree

variable {α : Type}

/-- Puts a node before some trees: the first of them become its children. -/
def addNode (entry : α × Nat) (trees : List (Tree α)) : Option (List (Tree α)) :=
  if entry.2 ≤ trees.length then
    some (.node entry.1 (trees.take entry.2) :: trees.drop entry.2)
  else none

/-- The trees whose nodes in preorder, with the numbers of their children, are given. -/
def forestOfPreorder? (entries : List (α × Nat)) : Option (List (Tree α)) :=
  entries.foldr (fun entry trees => trees.bind (addNode entry)) (some [])

/-- The tree whose nodes in preorder, with the numbers of their children, are given. -/
def ofPreorder? (entries : List (α × Nat)) : Option (Tree α) :=
  match forestOfPreorder? entries with
  | some [tree] => some tree
  | _ => none

end Tree

namespace Kind

/-- How a kind is written: a plus sign marks a construct, a minus sign a token. -/
def write (kind : Kind) : String :=
  (if kind.named then "+" else "-") ++ kind.name

/-- Reads a kind. -/
def read (text : String) : Kind :=
  ⟨String.ofList text.toList.tail, text.toList.head? = some '+'⟩

end Kind

/-- Reads a tree of five numbers for each node: the kind's place in a list of kinds, the start, the
end, the number of children, and the field's place in a list of fields. The first field is none. -/
def SyntaxTree.ofNumbers? (kinds : Array Kind) (fields : Array String) (numbers : List Nat) :
    Option SyntaxTree :=
  (labels numbers).bind Tree.ofPreorder?
where
  labels : List Nat → Option (List (Label × Nat))
    | [] => some []
    | kind :: start :: stop :: children :: field :: rest => do
      let label : Label :=
        { kind := ← kinds[kind]?
          start := start
          stop := stop
          field := if field = 0 then none else fields[field]? }
      return (label, children) :: (← labels rest)
    | _ => none

end CallHierarchy
