import CallHierarchy.Proofs.Symbol.Cutoff

/-!
# What a larger limit can change

A look-up that is cut off is not told from one that finds nothing, and much is
tried when something else is not found: the value of a variable when its
annotation has no type, the operand of a cast, the next file whose exports are
offered. With a larger limit the first of these may succeed, and the answer is
another one.

Up to where a look-up is cut off a larger limit changes nothing
(`begins_declarationsWithin`): a look-up with more steps left begins with what is
found there, and finds the same if that is all.
-/

namespace CallHierarchy

namespace SymbolTable

/-- The declarations that a node refers to, and whether these are all. -/
def declarationsUntil (table : SymbolTable) (limit : Nat) (node : Node) : Findings NodeKey :=
  ((table.lookups .untilCutOff (limit + 1)).symbols node).filterMap Symbol.declaration?

theorem begins_declarationsWithin (table : SymbolTable) {limit larger : Nat} (le : limit ≤ larger)
    (node : Node) :
    (table.declarationsUntil limit node).Begins Eq (table.declarationsWithin larger node) := by
  have related := Lookups.related_of_le table.like_self Effect.untilCutOffSimulation_isOpen
    (Nat.succ_le_succ le)
  exact Findings.Begins.filterMap (related.symbols table.like_self rfl)
    fun _ _ same => same.declaration?

/--
If a look-up is not cut off before its first declaration, or before it is clear
that there is none, then a larger limit leads to the same first declaration. If
it is not cut off at all, a larger limit leads to the same declarations.
-/
theorem declarationsWithin_of_first_ne_cutOff (table : SymbolTable) (limit larger : Nat)
    (node : Node) (le : limit ≤ larger)
    (known : (table.declarationsUntil limit node).first ≠ .cutOff) :
    (table.declarationsWithin larger node).head? = (table.declarationsWithin limit node).head? ∧
    ((table.declarationsUntil limit node).complete →
      table.declarationsWithin larger node = table.declarationsWithin limit node) := by
  have here := table.begins_declarationsWithin (Nat.le_refl limit) node
  have later := table.begins_declarationsWithin le node
  refine ⟨?_, fun complete =>
    (later.eq_of_complete complete).trans (here.eq_of_complete complete).symm⟩
  have settlesHere := here.first
  have settlesLater := later.first
  cases isFirst : (table.declarationsUntil limit node).first with
  | cutOff => exact absurd isFirst known
  | nothing =>
      rw [isFirst] at settlesHere settlesLater
      exact settlesLater.trans settlesHere.symm
  | found key =>
      rw [isFirst] at settlesHere settlesLater
      rcases settlesHere with ⟨_, isHere, rfl⟩
      rcases settlesLater with ⟨_, isLater, rfl⟩
      rw [isHere, isLater]

/-- The tree of the type `((B))`, in any number of parentheses. -/
def parenthesizedType : Nat → Nat → SyntaxTree
  | 0, start => .node ⟨⟨"type_identifier", true⟩, start, start + 1, none⟩ []
  | depth + 1, start =>
    .node ⟨⟨"parenthesized_type", true⟩, start, start + 2 * depth + 3, none⟩
      [parenthesizedType depth (start + 1)]

/-- A class with one method. -/
def methodClass (start : Nat) : SyntaxTree :=
  .node ⟨⟨"class_declaration", true⟩, start, start + 18, none⟩
    [.node ⟨⟨"type_identifier", true⟩, start + 6, start + 7, some "name"⟩ [],
      .node ⟨⟨"class_body", true⟩, start + 8, start + 18, some "body"⟩
        [.node ⟨⟨"method_definition", true⟩, start + 10, start + 16, none⟩
          [.node ⟨⟨"property_identifier", true⟩, start + 10, start + 11, some "name"⟩ []]]]

/-- A variable with one class in its annotation and another in its value, and a member of it. -/
def annotatedVariable (depth : Nat) : SourceFile where
  id := 0
  path := ⟨"/deep.ts"⟩
  text := "class A \x7b m() \x7b\x7d \x7d class B \x7b m() \x7b\x7d \x7d\nlet x: " ++
    String.ofList (.replicate depth '(') ++ "B" ++ String.ofList (.replicate depth ')') ++
    " = new A(); x.m();"
  root :=
    .node ⟨⟨"program", true⟩, 0, 2 * depth + 64, none⟩
      [methodClass 0, methodClass 19,
        .node ⟨⟨"lexical_declaration", true⟩, 38, 2 * depth + 57, none⟩
          [.node ⟨⟨"variable_declarator", true⟩, 42, 2 * depth + 56, none⟩
            [.node ⟨⟨"identifier", true⟩, 42, 43, some "name"⟩ [],
              .node ⟨⟨"type_annotation", true⟩, 43, 2 * depth + 46, some "type"⟩
                [parenthesizedType depth 45],
              .node ⟨⟨"new_expression", true⟩, 2 * depth + 49, 2 * depth + 56, some "value"⟩
                [.node ⟨⟨"identifier", true⟩, 2 * depth + 53, 2 * depth + 54,
                  some "constructor"⟩ []]]],
        .node ⟨⟨"expression_statement", true⟩, 2 * depth + 58, 2 * depth + 64, none⟩
          [.node ⟨⟨"call_expression", true⟩, 2 * depth + 58, 2 * depth + 63, none⟩
            [.node ⟨⟨"member_expression", true⟩, 2 * depth + 58, 2 * depth + 61, some "function"⟩
              [.node ⟨⟨"identifier", true⟩, 2 * depth + 58, 2 * depth + 59, some "object"⟩ [],
                .node ⟨⟨"property_identifier", true⟩, 2 * depth + 60, 2 * depth + 61,
                  some "property"⟩ []]]]]

theorem declarationsWithin_annotatedVariable :
    let table := SymbolTable.ofFiles ⟨"/"⟩ .empty [annotatedVariable 27]
    let access := (annotatedVariable 27).rootNode.preorder.get ⟨47, by decide +kernel⟩
    defaultLimit ≤ 1000 ∧ (table.declarationsUntil defaultLimit access).first ≠ .cutOff ∧
    table.declarationsWithin defaultLimit access = [⟨0, 29, 35, "method_definition", true⟩] ∧
    table.declarationsWithin 1000 access = [⟨0, 29, 35, "method_definition", true⟩] := by
  intro table access
  have le : defaultLimit ≤ 1000 := by decide
  have known : (table.declarationsUntil defaultLimit access).first ≠ .cutOff := by decide +kernel
  have complete : (table.declarationsUntil defaultLimit access).complete := by decide +kernel
  have here : table.declarationsWithin defaultLimit access =
      [⟨0, 29, 35, "method_definition", true⟩] := by decide +kernel
  have same := (declarationsWithin_of_first_ne_cutOff table defaultLimit 1000 access le known).2
    complete
  exact ⟨le, known, here, same.trans here⟩

/-- With one more pair of parentheses the annotation is cut off, and the value decides instead. -/
theorem declarationsWithin_replaces_cutOff :
    let table := SymbolTable.ofFiles ⟨"/"⟩ .empty [annotatedVariable 28]
    let access := (annotatedVariable 28).rootNode.preorder.get ⟨48, by decide +kernel⟩
    table.declarationsWithin defaultLimit access = [⟨0, 10, 16, "method_definition", true⟩] ∧
    table.declarationsWithin (defaultLimit + 1) access =
      [⟨0, 29, 35, "method_definition", true⟩] := by
  decide +kernel

end SymbolTable

end CallHierarchy
