import CallHierarchy.Json.Parser
import CallHierarchy.Proofs.Json.Token

/-!
# The tokens of a value

A value has one list of tokens, and reading the list gives the value back. Any
text that spells these tokens with white space therefore stands for the value
(`parse?_of_spells`), and so does the value as it is written with one item or
member on a line.
-/

namespace CallHierarchy.Json

mutual

/-- The tokens of a value. -/
def tokens : Json → List Token
  | .null => [.null]
  | .bool value => [.bool value]
  | .number text => [.number text]
  | .string content => [.string content]
  | .array items => .openBracket :: itemTokens items ++ [.closeBracket]
  | .object members => .openBrace :: memberTokens members ++ [.closeBrace]

/-- The tokens of items with commas between them. -/
def itemTokens : List Json → List Token
  | [] => []
  | [item] => tokens item
  | item :: rest => tokens item ++ .comma :: itemTokens rest

/-- The tokens of members with commas between them. -/
def memberTokens : List (List Char × Json) → List Token
  | [] => []
  | [(key, value)] => .string key :: .colon :: tokens value
  | (key, value) :: rest => .string key :: .colon :: tokens value ++ .comma :: memberTokens rest

end

/-- To prove a property of every value, prove it of arrays and objects whose parts have it. -/
theorem induction {motive : Json → Prop} (null : motive .null)
    (bool : ∀ value, motive (.bool value)) (number : ∀ text, motive (.number text))
    (string : ∀ content, motive (.string content))
    (array : ∀ items, (∀ item ∈ items, motive item) → motive (.array items))
    (object : ∀ members, (∀ member ∈ members, motive member.2) → motive (.object members)) :
    ∀ json, motive json
  | .null => null
  | .bool value => bool value
  | .number text => number text
  | .string content => string content
  | .array items => array items (inductionItems items)
  | .object members => object members (inductionMembers members)
where
  inductionItems : ∀ items : List Json, ∀ item ∈ items, motive item
    | first :: rest, item, itemMem => by
      cases itemMem with
      | head => exact induction null bool number string array object first
      | tail _ itemMem => exact inductionItems rest item itemMem
  inductionMembers : ∀ members : List (List Char × Json), ∀ member ∈ members, motive member.2
    | (key, value) :: rest, member, memberMem => by
      cases memberMem with
      | head => exact induction null bool number string array object value
      | tail _ memberMem => exact inductionMembers rest member memberMem

theorem itemTokens_cons (item : Json) (items : List Json) :
    itemTokens (item :: items) =
      item.tokens ++ items.flatMap fun item => .comma :: item.tokens := by
  induction items generalizing item with
  | nil => simp [itemTokens]
  | cons next items ih => simp [itemTokens, ih]

theorem memberTokens_cons (member : List Char × Json) (members : List (List Char × Json)) :
    memberTokens (member :: members) = .string member.1 :: .colon :: member.2.tokens ++
      members.flatMap fun member => .comma :: .string member.1 :: .colon :: member.2.tokens := by
  induction members generalizing member with
  | nil => simp [memberTokens]
  | cons next members ih => simp [memberTokens, ih]

namespace ParseState

theorem run_cons (state : ParseState) (stack : List Frame) (token : Token) (rest : List Token) :
    state.run stack (token :: rest) =
      (state.step stack token).bind fun (next, stack) => next.run stack rest := by
  simp only [run]
  cases state.step stack token <;> rfl

/-- The items that follow an item are read up to the end of the array. -/
theorem run_items {items : List Json}
    (reads : ∀ item ∈ items, ∀ stack rest,
      expectValue.run stack (item.tokens ++ rest) = (after item).run stack rest)
    (item : Json) (before : List Json) (stack : List Frame) (rest : List Token) :
    (after item).run (.array before :: stack)
        (items.flatMap (fun item => .comma :: item.tokens) ++ .closeBracket :: rest) =
      (after (.array (before.reverse ++ item :: items))).run stack rest := by
  induction items generalizing item before with
  | nil => simp [run_cons, step]
  | cons next items ih =>
      simp only [List.mem_cons, forall_eq_or_imp] at reads
      simp [run_cons, step, reads.1, ih reads.2]

theorem run_members {members : List (List Char × Json)}
    (reads : ∀ member ∈ members, ∀ stack rest,
      expectValue.run stack (member.2.tokens ++ rest) = (after member.2).run stack rest)
    (key : List Char) (value : Json) (before : List (List Char × Json)) (stack : List Frame)
    (rest : List Token) :
    (after value).run (.object before key :: stack)
        (members.flatMap (fun member => .comma :: .string member.1 :: .colon :: member.2.tokens) ++
          .closeBrace :: rest) =
      (after (.object (before.reverse ++ (key, value) :: members))).run stack rest := by
  induction members generalizing key value before with
  | nil => simp [run_cons, step]
  | cons next members ih =>
      simp only [List.mem_cons, forall_eq_or_imp] at reads
      simp [run_cons, step, reads.1, ih reads.2]

theorem step_expectFirstItem (stack : List Frame) {token : Token} (isItem : token ≠ .closeBracket) :
    expectFirstItem.step stack token = start (.array [] :: stack) token := by
  cases token with
  | closeBracket => exact absurd rfl isItem
  | _ => rfl

/-- Wherever a value can start, the tokens of a value are read to their end. -/
theorem run_tokens (json : Json) {state : ParseState} {stack below : List Frame}
    (starts : ∀ token, token ≠ .closeBracket → state.step stack token = start below token)
    (rest : List Token) :
    state.run stack (json.tokens ++ rest) = (after json).run below rest := by
  induction json using Json.induction generalizing state stack below rest with
  | null | bool _ | number _ | string _ => simp [tokens, run_cons, starts, start]
  | array items ih =>
      have opens : state.step stack .openBracket = some (.expectFirstItem, below) :=
        starts .openBracket nofun
      simp only [tokens, List.cons_append, List.append_assoc, List.nil_append, run_cons, opens,
        Option.bind_some]
      cases items with
      | nil => simp [itemTokens, run_cons, step]
      | cons item items =>
          simp only [List.mem_cons, forall_eq_or_imp] at ih
          have reads : ∀ item ∈ items, ∀ stack rest,
              expectValue.run stack (item.tokens ++ rest) = (after item).run stack rest :=
            fun item itemMem stack rest => ih.2 item itemMem (fun _ _ => rfl) rest
          rw [itemTokens_cons, List.append_assoc,
            ih.1 (fun token isItem => step_expectFirstItem below isItem), run_items reads]
          rfl
  | object members ih =>
      have opens : state.step stack .openBrace = some (.expectFirstKey, below) :=
        starts .openBrace nofun
      simp only [tokens, List.cons_append, List.append_assoc, List.nil_append, run_cons, opens,
        Option.bind_some]
      cases members with
      | nil => simp [memberTokens, run_cons, step]
      | cons member members =>
          have reads : ∀ other ∈ member :: members, ∀ stack rest,
              expectValue.run stack (other.2.tokens ++ rest) = (after other.2).run stack rest :=
            fun other otherMem stack rest => ih other otherMem (fun _ _ => rfl) rest
          simp only [List.mem_cons, forall_eq_or_imp] at reads
          simp [memberTokens_cons, run_cons, step, reads.1, run_members reads.2]

end ParseState

theorem ofTokens?_tokens (json : Json) : ofTokens? json.tokens = some json := by
  have reads : ParseState.expectValue.run [] (json.tokens ++ []) =
      (ParseState.after json).run [] [] := ParseState.run_tokens json (fun _ _ => rfl) []
  simpa [ofTokens?, ParseState.run] using reads

namespace Token

/-- Whether a value can begin with a token. -/
def startsValue : Token → Bool
  | .openBrace | .openBracket | .null | .bool _ | .number _ | .string _ => true
  | .closeBrace | .closeBracket | .colon | .comma => false

/-- Whether a value can end with a token. -/
def endsValue : Token → Bool
  | .closeBrace | .closeBracket | .null | .bool _ | .number _ | .string _ => true
  | .openBrace | .openBracket | .colon | .comma => false

/-- Whether a token is a closing bracket. -/
def isClose : Token → Bool
  | .closeBrace | .closeBracket => true
  | _ => false

/-- Whether a token can follow another in a value: one of them is a mark, and no comma is extra. -/
def Allows (token next : Token) : Prop :=
  (token.isMark ∨ next.isMark) ∧ ¬(token = .comma ∧ next.isClose)

theorem allows_of_startsValue {token next : Token} (isMark : token.isMark)
    (starts : next.startsValue) : token.Allows next := by
  refine ⟨.inl isMark, fun ⟨_, closes⟩ => ?_⟩
  cases next <;> simp_all [startsValue, isClose]

theorem allows_of_ne_comma {token next : Token} (isMark : next.isMark)
    (notComma : token ≠ .comma) : token.Allows next :=
  ⟨.inr isMark, fun ⟨isComma, _⟩ => notComma isComma⟩

end Token

/-- Whether tokens can stand in the place of a value: before a mark, and after one. -/
def Fits (tokens : List Token) : Prop :=
  ∀ rest : List Token, rest.IsChain Token.Allows → (∀ next ∈ rest.head?, next.isMark) →
    (tokens ++ rest).IsChain Token.Allows ∧
      ∀ first ∈ (tokens ++ rest).head?, first.startsValue

namespace Fits

theorem singleton {token : Token} (starts : token.startsValue) : Fits [token] := by
  intro rest isChain isMark
  refine ⟨?_, by simpa using starts⟩
  rw [List.singleton_append, List.isChain_cons]
  refine ⟨fun next isNext => Token.allows_of_ne_comma (isMark next isNext) ?_, isChain⟩
  rintro rfl
  cases starts

theorem member {tokens : List Token} (fits : Fits tokens) (key : List Char) :
    Fits (.string key :: .colon :: tokens) := by
  intro rest isChain isMark
  rcases fits rest isChain isMark with ⟨inner, starts⟩
  refine ⟨?_, by simp [Token.startsValue]⟩
  have afterColon : (.colon :: (tokens ++ rest)).IsChain Token.Allows :=
    List.isChain_cons.2
      ⟨fun first isFirst => Token.allows_of_startsValue rfl (starts first isFirst), inner⟩
  exact List.isChain_cons_cons.2 ⟨Token.allows_of_ne_comma rfl nofun, afterColon⟩

theorem separated {parts : List (List Token)} (fits : ∀ part ∈ parts, Fits part)
    {rest : List Token} (isChain : rest.IsChain Token.Allows)
    (isMark : ∀ next ∈ rest.head?, next.isMark) :
    (parts.flatMap (.comma :: ·) ++ rest).IsChain Token.Allows ∧
      ∀ next ∈ (parts.flatMap (.comma :: ·) ++ rest).head?, next.isMark := by
  induction parts with
  | nil => exact ⟨isChain, isMark⟩
  | cons part parts ih =>
      simp only [List.mem_cons, forall_eq_or_imp] at fits
      rcases ih fits.2 with ⟨laterChain, laterMark⟩
      rcases fits.1 _ laterChain laterMark with ⟨inner, starts⟩
      refine ⟨?_, by simp [Token.isMark]⟩
      simp only [List.flatMap_cons, List.cons_append, List.append_assoc, List.isChain_cons]
      exact ⟨fun first isFirst => Token.allows_of_startsValue rfl (starts first isFirst), inner⟩

theorem enclosed {part : List Token} {parts : List (List Token)} {left right : Token}
    (fits : ∀ other ∈ part :: parts, Fits other) (opens : left.isMark ∧ left.startsValue)
    (closes : right.isMark ∧ right ≠ .comma) :
    Fits (left :: (part ++ parts.flatMap (.comma :: ·)) ++ [right]) := by
  intro rest isChain isMark
  simp only [List.mem_cons, forall_eq_or_imp] at fits
  have ending : (right :: rest).IsChain Token.Allows :=
    List.isChain_cons.2 ⟨fun next isNext => Token.allows_of_ne_comma (isMark next isNext) closes.2,
      isChain⟩
  rcases separated fits.2 ending (by simpa using closes.1) with ⟨laterChain, laterMark⟩
  rcases fits.1 _ laterChain laterMark with ⟨inner, starts⟩
  refine ⟨?_, by simpa using opens.2⟩
  simp only [List.cons_append, List.append_assoc, List.isChain_cons]
  exact ⟨fun first isFirst => Token.allows_of_startsValue opens.1 (starts first isFirst), inner⟩

theorem empty {left right : Token} (opens : left.isMark ∧ left.startsValue)
    (closes : right.isMark ∧ right ≠ .comma) : Fits [left, right] := by
  intro rest isChain isMark
  refine ⟨?_, by simpa using opens.2⟩
  have notComma : left ≠ .comma := by
    rintro rfl
    cases opens.2
  have ending : (right :: rest).IsChain Token.Allows :=
    List.isChain_cons.2 ⟨fun next isNext => Token.allows_of_ne_comma (isMark next isNext) closes.2,
      isChain⟩
  exact List.isChain_cons_cons.2 ⟨Token.allows_of_ne_comma closes.1 notComma, ending⟩

end Fits

theorem fits_tokens (json : Json) : Fits json.tokens := by
  induction json using Json.induction with
  | null | bool _ | number _ | string _ => exact .singleton rfl
  | array items ih =>
      cases items with
      | nil => exact .empty ⟨rfl, rfl⟩ ⟨rfl, nofun⟩
      | cons item items =>
          have fits : ∀ other ∈ item.tokens :: items.map tokens, Fits other := by simpa using ih
          have enclosed : Fits (.openBracket ::
              (item.tokens ++ (items.map tokens).flatMap (.comma :: ·)) ++ [.closeBracket]) :=
            .enclosed fits ⟨rfl, rfl⟩ ⟨rfl, nofun⟩
          simpa [tokens, itemTokens_cons, List.flatMap_map] using enclosed
  | object members ih =>
      cases members with
      | nil => exact .empty ⟨rfl, rfl⟩ ⟨rfl, nofun⟩
      | cons member members =>
          let part : List Char × Json → List Token :=
            fun member => .string member.1 :: .colon :: member.2.tokens
          have fits : ∀ other ∈ part member :: members.map part, Fits other := by
            intro other otherMem
            rw [← List.map_cons] at otherMem
            rcases List.mem_map.1 otherMem with ⟨member, memberMem, rfl⟩
            exact (ih member memberMem).member member.1
          have enclosed : Fits (.openBrace ::
              (part member ++ (members.map part).flatMap (.comma :: ·)) ++ [.closeBrace]) :=
            .enclosed fits ⟨rfl, rfl⟩ ⟨rfl, nofun⟩
          simpa [tokens, memberTokens_cons, List.flatMap_map, part] using enclosed

theorem isChain_tokens (json : Json) : json.tokens.IsChain Token.Allows := by
  simpa using (fits_tokens json [] .nil (by simp)).1

theorem Spells.white {filling : List Char} (isWhite : IsWhite filling) :
    SpellsPlainly [] filling :=
  .nil isWhite

theorem Spells.token (token : Token) : SpellsPlainly [token] token.text := by
  have spells : SpellsPlainly [token] ([] ++ token.text ++ []) :=
    .cons (by simp [IsWhite]) (.nil (by simp [IsWhite]))
  simpa using spells

theorem Spells.append {first second : List Token} {text other : List Char}
    (spells : SpellsPlainly first text) (spellsOther : SpellsPlainly second other) :
    SpellsPlainly (first ++ second) (text ++ other) := by
  induction spells with
  | @nil filling isLast =>
      cases spellsOther with
      | nil isOther => exact .nil (by simp_all [IsWhite, or_imp])
      | @cons gap text token rest isGap later =>
          have joined : IsWhite (filling ++ gap) := by simp_all [IsWhite, or_imp]
          simpa using Spells.cons joined later
  | cons isGap _ ih => simpa using Spells.cons isGap ih

/-- Whether all numbers and strings of a value are written as they have to be. -/
def IsWellFormed (json : Json) : Prop :=
  ∀ token ∈ json.tokens, token.IsWellFormed

/-- A text that spells the tokens of a value is cut into them and stands for the value. -/
theorem parse?_of_spells {json : Json} {text : String} (wellFormed : json.IsWellFormed)
    (spells : SpellsPlainly json.tokens text.toList) :
    tokens? text.toList = some json.tokens ∧ parse? text = some json := by
  have cut : tokens? text.toList = some json.tokens :=
    tokens?_of_spells spells wellFormed ((isChain_tokens json).imp fun _ _ allows => allows.1)
  refine ⟨cut, ?_⟩
  simp [parse?, cut, ofTokens?_tokens]

theorem isWhite_newLine (level : Nat) : IsWhite (newLine level) := by
  simp [IsWhite, newLine, LexState.isSpace]

theorem prettyItems_cons (level : Nat) (item : Json) (items : List Json) :
    prettyItems level (item :: items) = item.pretty level ++
      items.flatMap fun item => ',' :: newLine level ++ item.pretty level := by
  induction items generalizing item with
  | nil => simp [prettyItems]
  | cons next items ih => simp [prettyItems, ih]

theorem prettyMembers_cons (level : Nat) (member : List Char × Json)
    (members : List (List Char × Json)) :
    prettyMembers level (member :: members) =
      quote member.1 ++ ':' :: ' ' :: member.2.pretty level ++ members.flatMap fun member =>
        ',' :: newLine level ++ (quote member.1 ++ ':' :: ' ' :: member.2.pretty level) := by
  induction members generalizing member with
  | nil => simp [prettyMembers]
  | cons next members ih => simp [prettyMembers, ih]

/-- Parts that are spelled one by one are spelled one below the other. -/
theorem spells_lines {α : Type} {tokensOf : α → List Token} {textOf : α → List Char}
    {parts : List α} (spells : ∀ part ∈ parts, SpellsPlainly (tokensOf part) (textOf part))
    (level : Nat) :
    SpellsPlainly (parts.flatMap fun part => .comma :: tokensOf part)
      (parts.flatMap fun part => ',' :: newLine level ++ textOf part) := by
  induction parts with
  | nil => exact .white (by simp [IsWhite])
  | cons part parts ih =>
      simp only [List.mem_cons, forall_eq_or_imp] at spells
      have line := ((Spells.token .comma).append (.white (isWhite_newLine level))).append spells.1
      simpa [Token.text] using line.append (ih spells.2)

/-- What is spelled is spelled between two marks, each on a line of its own. -/
theorem spells_enclosed {tokens : List Token} {text : List Char}
    (spells : SpellsPlainly tokens text) (left right : Token) (level : Nat) :
    SpellsPlainly (left :: tokens ++ [right])
      (left.text ++ newLine (level + 1) ++ text ++ newLine level ++ right.text) := by
  have opened := (Spells.token left).append (.white (isWhite_newLine (level + 1)))
  have filled := (opened.append spells).append (.white (isWhite_newLine level))
  simpa using filled.append (.token right)

/-- A value that is written line by line spells its tokens. -/
theorem spells_pretty (json : Json) (level : Nat) :
    SpellsPlainly json.tokens (json.pretty level) := by
  induction json using Json.induction generalizing level with
  | null => exact .token .null
  | bool value => exact .token (.bool value)
  | number text => exact .token (.number text)
  | string content => exact .token (.string content)
  | array items ih =>
      cases items with
      | nil => exact (Spells.token .openBracket).append (.token .closeBracket)
      | cons item items =>
          simp only [List.mem_cons, forall_eq_or_imp] at ih
          have inner := (ih.1 (level + 1)).append
            (spells_lines (fun item itemMem => ih.2 item itemMem (level + 1)) (level + 1))
          rw [← itemTokens_cons, ← prettyItems_cons] at inner
          simpa [tokens, pretty, Token.text] using
            spells_enclosed inner .openBracket .closeBracket level
  | object members ih =>
      have line : ∀ member ∈ members, SpellsPlainly
          (.string member.1 :: .colon :: member.2.tokens)
          (quote member.1 ++ ':' :: ' ' :: member.2.pretty (level + 1)) := by
        intro member memberMem
        have key := (Spells.token (.string member.1)).append (.token .colon)
        have blank : SpellsPlainly [] [' '] := .white (by simp [IsWhite, LexState.isSpace])
        simpa [Token.text] using (key.append blank).append (ih member memberMem (level + 1))
      cases members with
      | nil => exact (Spells.token .openBrace).append (.token .closeBrace)
      | cons member members =>
          simp only [List.mem_cons, forall_eq_or_imp] at line
          have inner := line.1.append (spells_lines line.2 (level + 1))
          rw [← memberTokens_cons, ← prettyMembers_cons] at inner
          simpa [tokens, pretty, Token.text] using
            spells_enclosed inner .openBrace .closeBrace level

/-- A value that is written line by line reads back as it is. -/
theorem parse?_pretty {json : Json} (wellFormed : json.IsWellFormed) {ending : List Char}
    (isWhite : IsWhite ending) : parse? (String.ofList (json.pretty 0 ++ ending)) = some json := by
  apply (parse?_of_spells wellFormed _).2
  simpa using (spells_pretty json 0).append (.white isWhite)

end CallHierarchy.Json
