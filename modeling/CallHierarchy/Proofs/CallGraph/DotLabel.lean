import CallHierarchy.Proofs.CallGraph.DotReading
import CallHierarchy.Proofs.Text.Replacement
import Mathlib.Algebra.Ring.Parity
import Mathlib.Data.List.DropRight

/-!
# Labels in DOT forms

A name stands between quotes, which end at the first quote that no backslash escapes.
Names are arbitrary texts: they may have quotes, line ends and any number of backslashes
before them. `IsQuotable` says by the backslashes before each quote that a text does not
leave its quotes, `IsContent` says the same as a grammar, and both are equivalent. A
written label is quotable and reads as its name, and no other text is and does so. All
labels of a form can therefore be read off its lines.
-/

namespace CallHierarchy

namespace DotLabel

/-! ### Texts between quotes -/

/-- Whether a text ends in a backslash that escapes what comes next. -/
def endsInEscape (text : List Char) : Bool :=
  text.foldl (fun escaping character => !escaping && character = '\\') false

theorem endsInEscape_cons {character : Char} (notBackslash : character ≠ '\\')
    (text : List Char) : endsInEscape (character :: text) = endsInEscape text := by
  simp [endsInEscape, notBackslash]

theorem endsInEscape_escape (letter : Char) (text : List Char) :
    endsInEscape ('\\' :: letter :: text) = endsInEscape text := by
  simp [endsInEscape]

/-- A backslash escapes what comes next if it ends an odd number of backslashes in a row. -/
theorem endsInEscape_iff_odd (text : List Char) :
    endsInEscape text ↔ Odd (text.rtakeWhile (· = '\\')).length := by
  induction text using List.reverseRecOn with
  | nil => simp [endsInEscape]
  | append_singleton text character ih =>
      have step : endsInEscape (text ++ [character]) =
          (!endsInEscape text && character = '\\') := by
        simp [endsInEscape]
      by_cases isBackslash : character = '\\'
      · rw [List.rtakeWhile_concat_pos _ _ _ (by simpa using isBackslash), List.length_append,
          List.length_singleton, Nat.odd_add_one, ← ih, step]
        simp [isBackslash]
      · rw [List.rtakeWhile_concat_neg _ _ _ (by simpa using isBackslash), step]
        simp [isBackslash]

/-- Whether a text can stand between quotes on one line. -/
structure IsQuotable (text : List Char) : Prop where
  unbroken : '\n' ∉ text
  /-- Right before each quote stands an odd number of backslashes. -/
  quotes : ∀ before after, text = before ++ '"' :: after →
    Odd (before.rtakeWhile (· = '\\')).length
  /-- The quote behind the text is not escaped. -/
  complete : endsInEscape text = false

/-- What can stand between quotes: characters that need no escape, and escapes. -/
inductive IsContent : List Char → Prop
  | nil : IsContent []
  | plain {character : Char} {rest : List Char} (notBackslash : character ≠ '\\')
      (notQuote : character ≠ '"') (notNewline : character ≠ '\n') (after : IsContent rest) :
      IsContent (character :: rest)
  | escape {letter : Char} {rest : List Char} (notNewline : letter ≠ '\n')
      (after : IsContent rest) : IsContent ('\\' :: letter :: rest)

/-- What stands before the first quote that is not escaped, and what follows that quote. -/
def untilQuote? : List Char → Option (List Char × List Char)
  | [] => none
  | '"' :: rest => some ([], rest)
  | '\\' :: letter :: rest => (untilQuote? rest).map (Prod.map (['\\', letter] ++ ·) id)
  | character :: rest => (untilQuote? rest).map (Prod.map (character :: ·) id)

namespace IsContent

variable {text : List Char} (isContent : IsContent text)

include isContent

theorem newline_notMem : '\n' ∉ text := by
  induction isContent with
  | nil => simp
  | plain _ _ notNewline _ ih => simp [ih, notNewline.symm]
  | escape notNewline _ ih => simp [ih, notNewline.symm]

theorem endsInEscape_eq_false : endsInEscape text = false := by
  induction isContent with
  | nil => rfl
  | plain notBackslash _ _ _ ih => rw [endsInEscape_cons notBackslash, ih]
  | escape _ _ ih => rw [endsInEscape_escape, ih]

theorem endsInEscape_of_eq_append {before after : List Char}
    (same : text = before ++ '"' :: after) : endsInEscape before := by
  induction isContent generalizing before with
  | nil => simp at same
  | plain notBackslash notQuote _ _ ih =>
      rcases List.cons_eq_append_iff.1 same with ⟨-, isQuote⟩ | ⟨between, rfl, isRest⟩
      · exact absurd (List.cons.inj isQuote).1.symm notQuote
      · rw [endsInEscape_cons notBackslash]
        exact ih isRest
  | escape _ _ ih =>
      rcases List.cons_eq_append_iff.1 same with ⟨-, isQuote⟩ | ⟨escaped, rfl, isTail⟩
      · simp at isQuote
      rcases List.cons_eq_append_iff.1 isTail with ⟨rfl, -⟩ | ⟨between, rfl, isRest⟩
      · rfl
      · rw [endsInEscape_escape]
        exact ih isRest

theorem isQuotable : IsQuotable text where
  unbroken := isContent.newline_notMem
  quotes := fun before _ same =>
    (endsInEscape_iff_odd before).1 (isContent.endsInEscape_of_eq_append same)
  complete := isContent.endsInEscape_eq_false

/-- A text between quotes ends where it was meant to end, whatever follows. -/
theorem untilQuote?_append (rest : List Char) :
    untilQuote? (text ++ '"' :: rest) = some (text, rest) := by
  induction isContent with
  | nil => rfl
  | plain notBackslash notQuote _ _ ih =>
      rw [List.cons_append, untilQuote?, ih]
      · rfl
      · exact notQuote
      · exact fun _ _ isBackslash => absurd isBackslash notBackslash
  | escape _ _ ih =>
      rw [List.cons_append, List.cons_append, untilQuote?, ih]
      rfl

end IsContent

namespace IsQuotable

theorem of_append (before : List Char) {text : List Char}
    (isQuotable : IsQuotable (before ++ text))
    (closed : ∀ rest, endsInEscape (before ++ rest) = endsInEscape rest) : IsQuotable text where
  unbroken := fun isMem => isQuotable.unbroken (List.mem_append_right before isMem)
  quotes := by
    rintro between after rfl
    have escaped := isQuotable.quotes (before ++ between) after (by rw [List.append_assoc])
    rwa [← endsInEscape_iff_odd, closed, endsInEscape_iff_odd] at escaped
  complete := by rw [← closed, isQuotable.complete]

/-- By the length of the text, as a backslash takes the character after it along. -/
theorem isContent {text : List Char} (isQuotable : IsQuotable text) : IsContent text := by
  induction isLength : text.length using Nat.strong_induction_on generalizing text with
  | _ length ih =>
  cases text with
  | nil => exact .nil
  | cons character rest =>
      by_cases isBackslash : character = '\\'
      · subst isBackslash
        cases rest with
        | nil => exact absurd isQuotable.complete (by decide)
        | cons letter rest =>
            have notNewline : letter ≠ '\n' := by
              rintro rfl
              exact isQuotable.unbroken (by simp)
            have after : IsQuotable rest :=
              of_append ['\\', letter] isQuotable (endsInEscape_escape letter)
            exact .escape notNewline (ih rest.length (by grind) after rfl)
      · have notQuote : character ≠ '"' := by
          rintro rfl
          exact absurd (isQuotable.quotes [] rest rfl) (by decide)
        have notNewline : character ≠ '\n' := by
          rintro rfl
          exact isQuotable.unbroken (by simp)
        have after : IsQuotable rest :=
          of_append [character] isQuotable (endsInEscape_cons isBackslash)
        exact .plain isBackslash notQuote notNewline (ih rest.length (by grind) after rfl)

end IsQuotable

/-! ### Reading labels -/

/-- What a letter stands for after a backslash. -/
def meaning? : Char → Option Char
  | '\\' => some '\\'
  | '"' => some '"'
  | 'n' => some '\n'
  | _ => none

/-- Reads a label from left to right. A backslash has to begin one of the three escapes. -/
def read? : List Char → Option (List Char)
  | [] => some []
  | ['\\'] => none
  | '\\' :: letter :: rest =>
    (meaning? letter).bind fun character => (read? rest).map (character :: ·)
  | character :: rest => (read? rest).map (character :: ·)

theorem read?_cons {character : Char} (notBackslash : character ≠ '\\') (rest : List Char) :
    read? (character :: rest) = (read? rest).map (character :: ·) := by
  rw [read?]
  · exact fun isBackslash => absurd isBackslash notBackslash
  · exact fun _ _ isBackslash => absurd isBackslash notBackslash

end DotLabel

namespace CallGraph

open DotLabel

/-! ### Written labels -/

/-- A character is written as it is, or as a letter that stands for it after a backslash. -/
theorem dotCharacter_cases (character : Char) :
    (dotCharacter character = [character] ∧ character ≠ '\\' ∧ character ≠ '"' ∧
      character ≠ '\n') ∨
    ∃ letter, dotCharacter character = ['\\', letter] ∧ meaning? letter = some character ∧
      letter ≠ '\n' := by
  unfold dotCharacter
  split
  case h_4 notBackslash notQuote notNewline => exact .inl ⟨rfl, notBackslash, notQuote, notNewline⟩
  all_goals exact .inr ⟨_, rfl, rfl, by decide⟩

theorem dotCharacter_of_plain {character : Char} (notBackslash : character ≠ '\\')
    (notQuote : character ≠ '"') (notNewline : character ≠ '\n') :
    dotCharacter character = [character] := by
  unfold dotCharacter
  split <;> simp_all

theorem dotCharacter_of_meaning? {letter character : Char}
    (means : meaning? letter = some character) : dotCharacter character = ['\\', letter] := by
  unfold meaning? at means
  split at means
  case h_4 => simp at means
  all_goals
    obtain rfl := Option.some.inj means
    rfl

theorem isContent_flatMap (label : List Char) : IsContent (label.flatMap dotCharacter) := by
  induction label with
  | nil => exact .nil
  | cons character label ih =>
      rw [List.flatMap_cons]
      rcases dotCharacter_cases character with
        ⟨isPlain, notBackslash, notQuote, notNewline⟩ | ⟨letter, isEscaped, -, notNewline⟩
      · rw [isPlain]
        exact .plain notBackslash notQuote notNewline ih
      · rw [isEscaped]
        exact .escape notNewline ih

theorem read?_flatMap (label : List Char) : read? (label.flatMap dotCharacter) = some label := by
  induction label with
  | nil => rfl
  | cons character label ih =>
      rw [List.flatMap_cons]
      rcases dotCharacter_cases character with
        ⟨isPlain, notBackslash, -⟩ | ⟨letter, isEscaped, means, -⟩
      · rw [isPlain, List.singleton_append, read?_cons notBackslash, ih, Option.map_some]
      · rw [isEscaped, List.cons_append, List.singleton_append, read?, means, ih]
        rfl

theorem eq_flatMap_of_read? {text label : List Char} (isContent : IsContent text)
    (isRead : read? text = some label) : text = label.flatMap dotCharacter := by
  induction isContent generalizing label with
  | nil =>
      obtain rfl := Option.some.inj isRead
      rfl
  | plain notBackslash notQuote notNewline _ ih =>
      rw [read?_cons notBackslash] at isRead
      rcases Option.map_eq_some_iff.1 isRead with ⟨label, isRest, rfl⟩
      rw [List.flatMap_cons, dotCharacter_of_plain notBackslash notQuote notNewline, ← ih isRest,
        List.singleton_append]
  | escape _ _ ih =>
      rw [read?] at isRead
      rcases Option.bind_eq_some_iff.1 isRead with ⟨character, means, isRead⟩
      rcases Option.map_eq_some_iff.1 isRead with ⟨label, isRest, rfl⟩
      rw [List.flatMap_cons, dotCharacter_of_meaning? means, ← ih isRest]
      rfl

theorem toList_dotLabel (label : String) :
    (dotLabel label).toList = label.toList.flatMap dotCharacter := by
  rw [dotLabel, String.toList_ofList]

theorem isContent_dotLabel (label : String) : IsContent (dotLabel label).toList := by
  rw [toList_dotLabel]
  exact isContent_flatMap label.toList

theorem read?_dotLabel (label : String) :
    read? (dotLabel label).toList = some label.toList := by
  rw [toList_dotLabel]
  exact read?_flatMap label.toList

/-- A written label is the one text that can stand between quotes and reads as the label. -/
theorem eq_dotLabel_iff {text label : String} :
    text = dotLabel label ↔ IsQuotable text.toList ∧ read? text.toList = some label.toList := by
  constructor
  · rintro rfl
    exact ⟨(isContent_dotLabel label).isQuotable, read?_dotLabel label⟩
  · rintro ⟨isQuotable, isRead⟩
    apply String.toList_injective
    rw [toList_dotLabel]
    exact eq_flatMap_of_read? isQuotable.isContent isRead

theorem dotLabel_injective : Function.Injective dotLabel := by
  intro label other same
  have isRead := read?_dotLabel label
  rw [same, read?_dotLabel other] at isRead
  exact String.toList_injective (Option.some.inj isRead).symm

/-- A label can be written by three replacements in the whole text, one after the other.
Backslashes come first, since the other replacements write backslashes. -/
theorem dotLabel_eq_replace (label : String) :
    dotLabel label = ((label.replace '\\' "\\\\").replace '"' "\\\"").replace '\n' "\\n" := by
  apply String.toList_injective
  simp only [Text.toList_replace, toList_dotLabel, Text.replacing, List.flatMap_assoc]
  apply List.flatMap_congr
  intro character _
  unfold dotCharacter
  split
  case h_4 notBackslash notQuote notNewline =>
    rw [if_neg notBackslash, List.flatMap_singleton, if_neg notQuote, List.flatMap_singleton,
      if_neg notNewline]
  all_goals decide

/-- Labels cannot leave their quotes and are faithful. What three replacements make of a name
has no line end and only quotes that are escaped, and escapes nothing behind it. So whatever
follows the closing quote, the label ends there. Read from left to right it gives the name
back, and different names have different labels. -/
theorem dotLabel_faithful (label : String) :
    dotLabel label = ((label.replace '\\' "\\\\").replace '"' "\\\"").replace '\n' "\\n" ∧
    IsQuotable (dotLabel label).toList ∧
    (∀ rest, untilQuote? ((dotLabel label).toList ++ '"' :: rest) =
      some ((dotLabel label).toList, rest)) ∧
    read? (dotLabel label).toList = some label.toList ∧
    ∀ other, dotLabel other = dotLabel label → other = label := by
  have isContent := isContent_dotLabel label
  exact ⟨dotLabel_eq_replace label, isContent.isQuotable, isContent.untilQuote?_append,
    read?_dotLabel label, fun other same => dotLabel_injective same⟩

/-- A backslash before a quote, and `n` after a backslash next to the end of a line. -/
example : dotLabel "\\\"\\n\n" = "\\\\\\\"\\\\n\\n" := by decide

/-! ### Labels of a form -/

/-- What stands in a line before a label. -/
def labelMark : List Char :=
  ['l', 'a', 'b', 'e', 'l', '=', '"']

/-- The label that is given in a text, looked for from the left. -/
def labelIn? : List Char → Option (List Char)
  | [] => none
  | character :: rest =>
    match (character :: rest).dropPrefix? labelMark with
    | some written => (untilQuote? written).bind fun found => read? found.1
    | none => labelIn? rest

/-- The label that a statement gives, with its escapes undone. -/
def readLabel? (line : String) : Option String :=
  (labelIn? line.toList).map String.ofList

theorem labelIn?_append {before : List Char} (absent : 'l' ∉ before) (rest : List Char) :
    labelIn? (before ++ rest) = labelIn? rest := by
  induction before with
  | nil => rfl
  | cons character before ih =>
      rw [List.mem_cons, not_or] at absent
      have notHere : (character :: (before ++ rest)).dropPrefix? labelMark = none := by
        simp [labelMark, List.dropPrefix?, Ne.symm absent.1]
      rw [List.cons_append, labelIn?, notHere]
      exact ih absent.2

theorem labelIn?_eq_none {text : List Char} (absent : '=' ∉ text) : labelIn? text = none := by
  induction text with
  | nil => rfl
  | cons character rest ih =>
      have notHere : (character :: rest).dropPrefix? labelMark = none := by
        rw [Option.eq_none_iff_forall_ne_some]
        intro written found
        rcases List.dropPrefix?_eq_some_iff.1 found with ⟨start, same, isMark⟩
        rw [same, eq_of_beq isMark] at absent
        exact absent (List.mem_append_left written (by decide))
      rw [labelIn?, notHere]
      exact ih (List.not_mem_of_not_mem_cons absent)

theorem labelIn?_mark (label : String) (rest : List Char) :
    labelIn? (labelMark ++ ((dotLabel label).toList ++ '"' :: rest)) = some label.toList := by
  have found := List.dropPrefix?_append_of_beq ((dotLabel label).toList ++ '"' :: rest)
    (beq_self_eq_true labelMark)
  rw [labelMark, List.cons_append] at found
  rw [labelMark, List.cons_append, labelIn?, labelMark, found]
  simp only [(isContent_dotLabel label).untilQuote?_append, Option.bind_some, read?_dotLabel]

theorem readLabel?_append {before : String} (absent : 'l' ∉ before.toList) (rest : String) :
    readLabel? (before ++ rest) = readLabel? rest := by
  rw [readLabel?, String.toList_append, labelIn?_append absent, readLabel?]

theorem readLabel?_eq_none {line : String} (absent : '=' ∉ line.toList) :
    readLabel? line = none := by
  rw [readLabel?, labelIn?_eq_none absent, Option.map_none]

theorem readLabel?_dotUnitLabel {before : String} (absent : 'l' ∉ before.toList) (unit : CodeUnit)
    (after : String) :
    readLabel? (before ++ dotUnitLabel unit ++ after) = some (unit.name.getD "") := by
  have isLabel : (dotUnitLabel unit ++ after).toList =
      labelMark ++ ((dotLabel (unit.name.getD "")).toList ++ '"' :: after.toList) := by
    simp [dotUnitLabel, labelMark]
  rw [String.append_assoc, readLabel?_append absent, readLabel?, isLabel, labelIn?_mark,
    Option.map_some, String.ofList_toList]

theorem readLabel?_dotLeaf (depth : Nat) {unit : CodeUnit} (isLeaf : unit.children.isEmpty) :
    readLabel? (dotLeaf depth unit) = some (unit.name.getD "") := by
  have number := notMem_toString unit.id (show ¬ 'l'.isDigit by decide)
  have absent : 'l' ∉ (dotIndent depth ++ "\"" ++ dotNode unit ++ "\" [").toList := by
    simpa [notMem_dotIndent, dotNode, isLeaf] using number
  exact readLabel?_dotUnitLabel absent unit _

theorem readLabel?_dotAnchor (depth : Nat) (id : UnitId) :
    readLabel? (dotAnchor depth (anchorName id)) = some "" := by
  have number := notMem_toString id (show ¬ 'l'.isDigit by decide)
  have absent : 'l' ∉ (dotIndent (depth + 1) ++ "\"" ++ toString id).toList := by
    simpa [notMem_dotIndent] using number
  have isEmpty : readLabel? ("_invisible" ++ "\" [style=invis, label=\"\"];") = some "" := by decide
  have isLine : dotAnchor depth (anchorName id) = dotIndent (depth + 1) ++ "\"" ++ toString id ++
      ("_invisible" ++ "\" [style=invis, label=\"\"];") := by
    simp only [dotAnchor, anchorName, String.append_assoc]
  rw [isLine, readLabel?_append absent, isEmpty]

theorem filterMap_readLabel?_dotOpening (depth : Nat) (unit : CodeUnit) :
    (dotOpening depth unit).filterMap readLabel? = [unit.name.getD ""] := by
  have number := notMem_toString unit.id (show ¬ '='.isDigit by decide)
  have isOpening : readLabel?
      (dotIndent depth ++ "subgraph cluster_" ++ toString unit.id ++ " \x7b") = none := by
    apply readLabel?_eq_none
    simpa [notMem_dotIndent] using number
  have isLabel := readLabel?_dotUnitLabel (notMem_dotIndent (by decide) (depth + 1)) unit ";"
  have isColor : readLabel? (dotIndent (depth + 1) ++ "color=blue;") = none := by
    rw [readLabel?_append (notMem_dotIndent (by decide) (depth + 1))]
    decide
  rw [dotOpening, List.filterMap_cons_none isOpening, List.filterMap_cons_some isLabel,
    List.filterMap_cons_none isColor, List.filterMap_nil]

theorem filterMap_readLabel?_dotClosing (depth : Nat) (id : UnitId) :
    (dotClosing depth id).filterMap readLabel? = [""] := by
  have isClosing : readLabel? (dotIndent depth ++ "\x7d") = none := by
    apply readLabel?_eq_none
    simp [notMem_dotIndent]
  rw [dotClosing_eq, List.filterMap_cons_some (readLabel?_dotAnchor depth id),
    List.filterMap_cons_none isClosing, List.filterMap_nil]

namespace DotEvent

/-- The label that is given at a moment of the walk: a unit that is entered has its name, and
the node that stands for a unit in its cluster has none. -/
def label : DotEvent → String
  | .enter _ unit => unit.name.getD ""
  | .leave _ _ => ""

theorem filterMap_readLabel?_lines (event : DotEvent) :
    event.lines.filterMap readLabel? = [event.label] := by
  cases event with
  | enter depth unit =>
      rw [lines, label]
      split
      case isTrue isLeaf =>
        rw [List.filterMap_cons_some (readLabel?_dotLeaf depth isLeaf), List.filterMap_nil]
      case isFalse => exact filterMap_readLabel?_dotOpening depth unit
  | leave depth id => exact filterMap_readLabel?_dotClosing depth id

end DotEvent

theorem readLabel?_dotEdges {graph : CallGraph} {unit : CodeUnit} {line : String}
    (lineMem : line ∈ graph.dotEdges unit) : readLabel? line = none := by
  rcases List.mem_map.1 lineMem with ⟨callee, -, rfl⟩
  have absent := fun unit => notMem_dotNode unit (show ¬ '='.isDigit by decide) (by decide)
  apply readLabel?_eq_none
  simp [absent]

/-- Read line by line, a form gives the names of the units in the order in which they are
entered, each as it is, and an empty label whenever a cluster is closed. -/
theorem filterMap_readLabel?_dot (graph : CallGraph) :
    (endedLines graph.dot).filterMap readLabel? =
      (eventsInList 1 graph.nesting).map DotEvent.label := by
  have header : ["digraph G \x7b", "    rankdir=LR;",
      "    node [style=filled, color=white];"].filterMap readLabel? = [] := by decide
  have events : (dotLinesOfList 1 graph.nesting).filterMap readLabel? =
      (eventsInList 1 graph.nesting).map DotEvent.label := by
    rw [dotLinesOfList_eq_flatMap, List.filterMap_flatMap, List.map_eq_flatMap]
    exact List.flatMap_congr fun event _ => event.filterMap_readLabel?_lines
  have edges : ((Tree.preorderList graph.nesting).flatMap (graph.dotEdges ·.2)).filterMap
      readLabel? = [] := by
    rw [List.filterMap_eq_nil_iff]
    intro line lineMem
    rcases List.mem_flatMap.1 lineMem with ⟨entry, -, isEdge⟩
    exact readLabel?_dotEdges isEdge
  have last : ["\x7d"].filterMap readLabel? = [] := by decide
  rw [endedLines_dot, dotDocument, List.filterMap_append, List.filterMap_append,
    List.filterMap_append, header, events, edges, last, List.nil_append, List.append_nil,
    List.append_nil]

end CallGraph

end CallHierarchy
