import CallHierarchy.Proofs.CallGraph.Document
import CallHierarchy.Proofs.CallGraph.Views

/-!
# Reading DOT forms

A DOT form has one statement on a line: a node or an edge, which begins with a quoted
name, a line that opens or closes a block, or an attribute. `readDotLine` reads a line
on its own, whoever wrote it, and finds in every line of a DOT form what was meant.
Names of units stand in labels only, where they cannot end a line, so that the lines
of the text are the lines that were written.
-/

namespace CallHierarchy

/-- What a line of a DOT form says. -/
inductive DotStatement where
  | node (name : String)
  | edge (source target : String)
  | opening (block : String)
  | closing
  | attribute
  deriving DecidableEq

namespace DotStatement

/--
Reads a line that does not begin with a blank. The name of a block is the second word of the
line that opens it.
-/
def ofText : List Char → DotStatement
  | '"' :: text =>
    let name := String.ofList (text.takeWhile (· ≠ '"'))
    match text.dropWhile (· ≠ '"') with
    | '"' :: ' ' :: '[' :: _ => .node name
    | '"' :: ' ' :: '-' :: '>' :: ' ' :: '"' :: target =>
      .edge name (String.ofList (target.takeWhile (· ≠ '"')))
    | _ => .attribute
  | ['\x7d'] => .closing
  | text =>
    if text.getLast? = some '\x7b' then
      .opening (String.ofList ((text.dropWhile (· ≠ ' ')).tail.takeWhile (· ≠ ' ')))
    else .attribute

/-- The block that a line opens. -/
def opened? : DotStatement → Option String
  | .opening block => some block
  | _ => none

/-- The number of the unit that is entered: its cluster is opened, or its node has that name. -/
def entered? : DotStatement → Option String
  | .opening block =>
    if "cluster_".toList <+: block.toList then some (String.ofList (block.toList.drop 8))
    else none
  | .node name => if name.toList.all Char.isDigit then some name else none
  | _ => none

end DotStatement

/-- The number of blanks before a line, and what the line says. -/
def readDotLine (line : String) : Nat × DotStatement :=
  ((line.toList.takeWhile (· = ' ')).length, .ofText (line.toList.dropWhile (· = ' ')))

/-- The lines of a text in which every line is ended. -/
def endedLines (text : String) : List String :=
  (text.toList.splitOn '\n').dropLast.map String.ofList

theorem endedLines_intercalate {lines : List String} (notEmpty : lines ≠ [])
    (unbroken : ∀ line ∈ lines, '\n' ∉ line.toList) :
    endedLines ("\n".intercalate lines ++ "\n") = lines := by
  have joined : "\n".intercalate lines ++ "\n" = "\n".intercalate (lines ++ [""]) := by
    simp [String.intercalate_append_of_ne_nil notEmpty]
  have noBreak : ∀ part ∈ (lines ++ [""]).map String.toList, '\n' ∉ part := by
    simpa [or_imp, forall_and] using unbroken
  have characters : ("\n".intercalate (lines ++ [""])).toList =
      ['\n'].intercalate ((lines ++ [""]).map String.toList) := by
    rw [String.toList_intercalate]
    rfl
  rw [endedLines, joined, characters, List.splitOn_intercalate '\n' noBreak (by simp)]
  simp [Function.comp_def]

section

variable {stop : Char} {before : List Char} (absent : stop ∉ before) (after : List Char)

include absent

theorem takeWhile_ne_append : (before ++ stop :: after).takeWhile (· ≠ stop) = before := by
  rw [List.takeWhile_append_of_pos (by simp; grind), List.takeWhile_cons_of_neg (by simp),
    List.append_nil]

theorem dropWhile_ne_append :
    (before ++ stop :: after).dropWhile (· ≠ stop) = stop :: after := by
  rw [List.dropWhile_append_of_pos (by simp; grind), List.dropWhile_cons_of_neg (by simp)]

end

namespace DotStatement

theorem ofText_node {name : String} (noQuote : '"' ∉ name.toList) (rest : List Char) :
    ofText ('"' :: (name.toList ++ '"' :: ' ' :: '[' :: rest)) = .node name := by
  simp only [ofText, takeWhile_ne_append noQuote, dropWhile_ne_append noQuote, String.ofList_toList]

theorem ofText_edge {source target : String} (noQuote : '"' ∉ source.toList)
    (noTargetQuote : '"' ∉ target.toList) (rest : List Char) :
    ofText ('"' :: (source.toList ++ '"' :: ' ' :: '-' :: '>' :: ' ' :: '"' ::
      (target.toList ++ '"' :: rest))) = .edge source target := by
  simp only [ofText, takeWhile_ne_append noQuote, dropWhile_ne_append noQuote,
    takeWhile_ne_append noTargetQuote, String.ofList_toList]

/-- A line that begins with a letter opens a block or is an attribute. -/
theorem ofText_of_isAlpha {first : Char} (isAlpha : first.isAlpha) (rest : List Char) :
    ofText (first :: rest) =
      if (first :: rest).getLast? = some '\x7b' then
        .opening (String.ofList (((first :: rest).dropWhile (· ≠ ' ')).tail.takeWhile (· ≠ ' ')))
      else .attribute := by
  unfold ofText
  split
  case h_1 isQuoted =>
    rw [(List.cons.inj isQuoted).1] at isAlpha
    exact absurd isAlpha (by decide)
  case h_2 isClosing =>
    rw [(List.cons.inj isClosing).1] at isAlpha
    exact absurd isAlpha (by decide)
  case h_3 => rfl

theorem ofText_subgraph {block : String} (isWord : ' ' ∉ block.toList) :
    ofText ("subgraph".toList ++ ' ' :: (block.toList ++ [' ', '\x7b'])) = .opening block := by
  have isLast : ("subgraph".toList ++ ' ' :: (block.toList ++ [' ', '\x7b'])).getLast? =
      some '\x7b' := by
    rw [List.getLast?_eq_some_iff]
    exact ⟨"subgraph".toList ++ ' ' :: (block.toList ++ [' ']), by simp⟩
  have second := dropWhile_ne_append (show ' ' ∉ "subgraph".toList by decide)
    (block.toList ++ [' ', '\x7b'])
  have begins := ofText_of_isAlpha (show 's'.isAlpha by decide)
    ("ubgraph".toList ++ ' ' :: (block.toList ++ [' ', '\x7b']))
  rw [← List.cons_append, show 's' :: "ubgraph".toList = "subgraph".toList by decide, isLast,
    if_pos rfl, second, List.tail_cons, takeWhile_ne_append isWord, String.ofList_toList] at begins
  exact begins

theorem ofText_attribute {first : Char} (isAlpha : first.isAlpha) (rest : List Char) :
    ofText (first :: (rest ++ [';'])) = .attribute := by
  have isLast : (first :: (rest ++ [';'])).getLast? = some ';' := by
    rw [List.getLast?_eq_some_iff]
    exact ⟨first :: rest, rfl⟩
  rw [ofText_of_isAlpha isAlpha, isLast, if_neg (by decide)]

end DotStatement

namespace CallGraph

/-! ### The names of nodes and clusters -/

theorem isDigit_of_mem_toString {id : UnitId} {character : Char}
    (characterMem : character ∈ (toString id).toList) : character.isDigit := by
  rw [Nat.toString_eq_ofList_toDigits, String.toList_ofList] at characterMem
  exact Nat.isDigit_of_mem_toDigits (by decide) (by decide) characterMem

theorem notMem_toString {character : Char} (id : UnitId) (notDigit : ¬character.isDigit) :
    character ∉ (toString id).toList :=
  fun characterMem => notDigit (isDigit_of_mem_toString characterMem)

/-- The node of a number that has a cluster. -/
def anchorName (id : UnitId) : String :=
  toString id ++ "_invisible"

theorem notMem_anchorName {character : Char} (id : UnitId) (notDigit : ¬character.isDigit)
    (absent : character ∉ "_invisible".toList) : character ∉ (anchorName id).toList := by
  rw [anchorName, String.toList_append, List.mem_append, not_or]
  exact ⟨notMem_toString id notDigit, absent⟩

theorem notMem_dotNode {character : Char} (unit : CodeUnit) (notDigit : ¬character.isDigit)
    (absent : character ∉ "_invisible".toList) : character ∉ (dotNode unit).toList := by
  unfold dotNode
  split
  · exact notMem_toString unit.id notDigit
  · exact notMem_anchorName unit.id notDigit absent

/-- The name of a node begins with the digits of the unit's number, and no digit follows. -/
theorem takeWhile_isDigit_dotNode (unit : CodeUnit) :
    (dotNode unit).toList.takeWhile Char.isDigit = (toString unit.id).toList := by
  have digits : ∀ character ∈ (toString unit.id).toList, character.isDigit :=
    fun _ => isDigit_of_mem_toString
  unfold dotNode
  split
  · exact List.takeWhile_eq_self_iff.2 digits
  · rw [String.toList_append, List.takeWhile_append_of_pos digits,
      show "_invisible".toList.takeWhile Char.isDigit = [] by decide, List.append_nil]

theorem id_eq_of_dotNode_eq {left right : CodeUnit} (same : dotNode left = dotNode right) :
    left.id = right.id := by
  apply toString_injective
  apply String.toList_injective
  rw [← takeWhile_isDigit_dotNode, same, takeWhile_isDigit_dotNode]

theorem dotNode_of_cluster {unit : CodeUnit} (notLeaf : ¬unit.children.isEmpty) :
    dotNode unit = anchorName unit.id := by
  rw [dotNode, if_neg notLeaf, anchorName]

/-- The cluster of a unit. -/
def clusterName (unit : CodeUnit) : String :=
  "cluster_" ++ toString unit.id

theorem id_eq_of_clusterName_eq {left right : CodeUnit}
    (same : clusterName left = clusterName right) : left.id = right.id :=
  toString_injective (String.append_right_inj _ |>.1 same)

/-! ### Written lines -/

/-- The line of a node that has a cluster, which stands inside that cluster. -/
def dotAnchor (depth : Nat) (name : String) : String :=
  dotIndent (depth + 1) ++ "\"" ++ name ++ "\" [style=invis, label=\"\"];"

theorem notMem_dotIndent {character : Char} (notBlank : character ≠ ' ') (depth : Nat) :
    character ∉ (dotIndent depth).toList := by
  simp [dotIndent, notBlank]

theorem readDotLine_indent (depth : Nat) {text : String} (notBlank : text.toList.head? ≠ some ' ') :
    readDotLine (dotIndent depth ++ text) = (4 * depth, .ofText text.toList) := by
  have line : (dotIndent depth ++ text).toList =
      List.replicate (4 * depth) ' ' ++ text.toList := by
    rw [String.toList_append, dotIndent, String.toList_ofList]
  rw [readDotLine, line, takeWhile_blanks notBlank, dropWhile_blanks notBlank,
    List.length_replicate]

theorem readDotLine_dotLeaf (depth : Nat) (unit : CodeUnit) :
    readDotLine (dotLeaf depth unit) = (4 * depth, .node (dotNode unit)) := by
  have isNode := DotStatement.ofText_node (notMem_dotNode unit (by decide) (by decide))
    (dotUnitLabel unit ++
      ", shape=circle, fillcolor=lightblue, fontname=\"Arial\", fontsize=12];").toList
  simp only [dotLeaf, String.append_assoc]
  rw [readDotLine_indent depth (by simp)]
  simpa using isNode

theorem readDotLine_dotAnchor (depth : Nat) {name : String} (noQuote : '"' ∉ name.toList) :
    readDotLine (dotAnchor depth name) = (4 * (depth + 1), .node name) := by
  have isNode := DotStatement.ofText_node noQuote "style=invis, label=\"\"];".toList
  simp only [dotAnchor, String.append_assoc]
  rw [readDotLine_indent (depth + 1) (by simp)]
  simpa using isNode

theorem readDotLine_subgraph (depth : Nat) (unit : CodeUnit) :
    readDotLine (dotIndent depth ++ "subgraph cluster_" ++ toString unit.id ++ " \x7b") =
      (4 * depth, .opening (clusterName unit)) := by
  have isWord : ' ' ∉ (clusterName unit).toList := by
    simpa [clusterName] using notMem_toString unit.id (by decide)
  have isOpening := DotStatement.ofText_subgraph isWord
  simp only [String.append_assoc]
  rw [readDotLine_indent depth (by simp)]
  simpa [clusterName] using isOpening

theorem readDotLine_label (depth : Nat) (unit : CodeUnit) :
    readDotLine (dotIndent depth ++ dotUnitLabel unit ++ ";") = (4 * depth, .attribute) := by
  have isLabel := DotStatement.ofText_attribute (show 'l'.isAlpha by decide)
    ("abel=\"" ++ (dotLabel (unit.name.getD "") ++ "\"")).toList
  simp only [dotUnitLabel, String.append_assoc]
  rw [readDotLine_indent depth (by simp)]
  simpa using isLabel

theorem map_readDotLine_dotOpening (depth : Nat) (unit : CodeUnit) :
    (dotOpening depth unit).map readDotLine =
      [(4 * depth, .opening (clusterName unit)), (4 * (depth + 1), .attribute),
        (4 * (depth + 1), .attribute)] := by
  have isColor : readDotLine (dotIndent (depth + 1) ++ "color=blue;") =
      (4 * (depth + 1), .attribute) := readDotLine_indent (depth + 1) (by decide)
  rw [dotOpening, List.map_cons, List.map_cons, List.map_singleton, readDotLine_subgraph,
    readDotLine_label, isColor]

theorem readDotLine_closing (depth : Nat) :
    readDotLine (dotIndent depth ++ "\x7d") = (4 * depth, .closing) :=
  readDotLine_indent depth (by decide)

theorem dotClosing_eq (depth : Nat) (id : UnitId) :
    dotClosing depth id = [dotAnchor depth (anchorName id), dotIndent depth ++ "\x7d"] := by
  simp only [dotClosing, dotAnchor, anchorName, List.cons.injEq, and_true, String.append_assoc]
  rfl

theorem map_readDotLine_dotClosing (depth : Nat) (id : UnitId) :
    (dotClosing depth id).map readDotLine =
      [(4 * (depth + 1), .node (anchorName id)), (4 * depth, .closing)] := by
  rw [dotClosing_eq, List.map_cons, List.map_singleton, readDotLine_closing,
    readDotLine_dotAnchor depth (notMem_anchorName id (by decide) (by decide))]

theorem readDotLine_edge (caller callee : CodeUnit) :
    readDotLine ("    \"" ++ dotNode caller ++ "\" -> \"" ++ dotNode callee ++ "\";") =
      (4, .edge (dotNode caller) (dotNode callee)) := by
  have isEdge := DotStatement.ofText_edge (notMem_dotNode caller (by decide) (by decide))
    (notMem_dotNode callee (by decide) (by decide)) [';']
  have isIndent : "    \"" = dotIndent 1 ++ "\"" := by decide
  simp only [isIndent, String.append_assoc]
  rw [readDotLine_indent 1 (by simp)]
  simpa using isEdge

/-! ### Unbroken lines -/

theorem newline_notMem_dotLabel (label : String) : '\n' ∉ (dotLabel label).toList := by
  rw [dotLabel, String.toList_ofList, List.mem_flatMap]
  rintro ⟨character, -, isWritten⟩
  unfold dotCharacter at isWritten
  split at isWritten
  case h_4 notNewline => exact notNewline (List.mem_singleton.1 isWritten).symm
  all_goals exact absurd isWritten (by decide)

theorem newline_notMem_dotUnitLabel (unit : CodeUnit) : '\n' ∉ (dotUnitLabel unit).toList := by
  simp [dotUnitLabel, newline_notMem_dotLabel]

theorem newline_notMem_dotNode (unit : CodeUnit) : '\n' ∉ (dotNode unit).toList :=
  notMem_dotNode unit (by decide) (by decide)

theorem unbroken_lines (event : DotEvent) : ∀ line ∈ event.lines, '\n' ∉ line.toList := by
  cases event with
  | enter depth unit =>
      have number := notMem_toString unit.id (show ¬ '\n'.isDigit by decide)
      rw [DotEvent.lines]
      split
      · simp [dotLeaf, notMem_dotIndent, newline_notMem_dotNode,
          newline_notMem_dotUnitLabel]
      · simpa [dotOpening, notMem_dotIndent, newline_notMem_dotUnitLabel] using number
  | leave depth id =>
      have number := notMem_toString id (show ¬ '\n'.isDigit by decide)
      simpa [DotEvent.lines, dotClosing, notMem_dotIndent] using number

theorem unbroken_dotEdges (graph : CallGraph) (unit : CodeUnit) :
    ∀ line ∈ graph.dotEdges unit, '\n' ∉ line.toList := by
  intro line lineMem
  rcases List.mem_map.1 lineMem with ⟨callee, -, rfl⟩
  simp [newline_notMem_dotNode]

/-- The lines of a DOT form are what was written as lines. -/
theorem endedLines_dot (graph : CallGraph) : endedLines graph.dot = graph.dotDocument := by
  apply endedLines_intercalate
  · simp [dotDocument]
  · intro line lineMem
    simp only [dotDocument, dotLinesOfList_eq_flatMap, List.mem_append, List.mem_flatMap,
      List.mem_singleton] at lineMem
    rcases lineMem with ((isHeader | ⟨event, -, inEvent⟩) | ⟨entry, -, isEdge⟩) | rfl
    · have header : ∀ line ∈ ["digraph G \x7b", "    rankdir=LR;",
          "    node [style=filled, color=white];"], '\n' ∉ line.toList := by decide
      exact header line isHeader
    · exact unbroken_lines event line inEvent
    · exact unbroken_dotEdges graph entry.2 line isEdge
    · decide

/-! ### What the lines say -/

theorem entered?_number (id : UnitId) :
    (DotStatement.node (toString id)).entered? = some (toString id) :=
  if_pos (List.all_eq_true.2 fun _ => isDigit_of_mem_toString)

theorem entered?_anchor (id : UnitId) : (DotStatement.node (anchorName id)).entered? = none := by
  apply if_neg
  intro digits
  exact absurd (List.all_eq_true.1 digits '_' (by simp [anchorName])) (by decide)

theorem entered?_cluster (unit : CodeUnit) :
    (DotStatement.opening (clusterName unit)).entered? = some (toString unit.id) := by
  have written : (clusterName unit).toList = "cluster_".toList ++ (toString unit.id).toList := by
    rw [clusterName, String.toList_append]
  have dropped : ("cluster_".toList ++ (toString unit.id).toList).drop 8 =
      (toString unit.id).toList := List.drop_left' (by decide)
  rw [DotStatement.entered?, written, if_pos (List.prefix_append _ _), dropped,
    String.ofList_toList]

namespace DotEvent

/-- What the lines at a moment of the walk say. -/
def statements : DotEvent → List (Nat × DotStatement)
  | .enter depth unit =>
    if unit.children.isEmpty then [(4 * depth, .node (dotNode unit))]
    else [(4 * depth, .opening (clusterName unit)), (4 * (depth + 1), .attribute),
      (4 * (depth + 1), .attribute)]
  | .leave depth id => [(4 * (depth + 1), .node (anchorName id)), (4 * depth, .closing)]

theorem map_readDotLine_lines (event : DotEvent) :
    event.lines.map readDotLine = event.statements := by
  cases event with
  | enter depth unit =>
      rw [lines, statements]
      split
      · rw [List.map_singleton, readDotLine_dotLeaf]
      · exact map_readDotLine_dotOpening depth unit
  | leave depth id => exact map_readDotLine_dotClosing depth id

/-- A unit is entered by its number. -/
theorem filterMap_entered?_statements (event : DotEvent) :
    event.statements.filterMap (·.2.entered?) =
      event.entered?.toList.map fun unit => toString unit.id := by
  cases event with
  | enter depth unit =>
      by_cases isLeaf : unit.children.isEmpty
      · rw [statements, if_pos isLeaf, dotNode, if_pos isLeaf, List.filterMap_cons,
          entered?_number]
        rfl
      · rw [statements, if_neg isLeaf, List.filterMap_cons, entered?_cluster]
        rfl
  | leave depth id =>
      rw [statements, List.filterMap_cons, entered?_anchor]
      rfl

end DotEvent

theorem map_readDotLine_dotLinesOfList (depth : Nat) (trees : List (Tree (UnitId × CodeUnit))) :
    (dotLinesOfList depth trees).map readDotLine =
      (eventsInList depth trees).flatMap DotEvent.statements := by
  rw [dotLinesOfList_eq_flatMap, List.map_flatMap]
  exact List.flatMap_congr fun event _ => event.map_readDotLine_lines

theorem map_readDotLine_dotEdges (graph : CallGraph) (unit : CodeUnit) :
    (graph.dotEdges unit).map readDotLine =
      (graph.called unit).map fun callee => (4, .edge (dotNode unit) (dotNode callee)) := by
  rw [dotEdges, List.map_map]
  exact List.map_congr_left fun callee _ => readDotLine_edge unit callee

theorem exists_edge_of_mem {graph : CallGraph} {units : List CodeUnit}
    {statement : Nat × DotStatement}
    (statementMem : statement ∈ (units.flatMap graph.dotEdges).map readDotLine) :
    ∃ source target, statement = (4, .edge source target) := by
  simp only [List.map_flatMap, map_readDotLine_dotEdges, List.mem_flatMap, List.mem_map]
    at statementMem
  rcases statementMem with ⟨unit, -, callee, -, rfl⟩
  exact ⟨_, _, rfl⟩

/-- The lines before the clusters. -/
def dotHeader : List String :=
  ["digraph G \x7b", "    rankdir=LR;", "    node [style=filled, color=white];"]

theorem map_readDotLine_dotHeader :
    dotHeader.map readDotLine = [(0, .opening "G"), (4, .attribute), (4, .attribute)] := by
  decide

theorem readDotLine_brace : readDotLine "\x7d" = (0, .closing) := by
  decide

namespace LaidOut

variable {graph : CallGraph} {forest : List (Tree (UnitId × CodeUnit))}
  (laidOut : graph.LaidOut forest)

include laidOut

theorem dotDocument_eq :
    graph.dotDocument = dotHeader ++ dotLinesOfList 1 graph.nesting ++
      graph.units.flatMap graph.dotEdges ++ ["\x7d"] := by
  rw [dotDocument, laidOut.preorder_nesting, units, List.flatMap_map]
  rfl

theorem map_readDotLine_dotDocument :
    graph.dotDocument.map readDotLine =
      (0, .opening "G") :: ([(4, .attribute), (4, .attribute)] ++
        (dotLinesOfList 1 graph.nesting).map readDotLine ++
        (graph.units.flatMap graph.dotEdges).map readDotLine ++ [(0, .closing)]) := by
  rw [laidOut.dotDocument_eq, List.map_append, List.map_append, List.map_append,
    map_readDotLine_dotHeader, List.map_singleton, readDotLine_brace]
  rfl

/-- What the lines of the clusters and no others say is said by the form as a whole. -/
theorem filterMap_dotDocument {α : Type} {said? : DotStatement → Option α}
    (notEdge : ∀ source target, said? (.edge source target) = none)
    (notAttribute : said? .attribute = none) (notClosing : said? .closing = none) :
    (graph.dotDocument.map readDotLine).filterMap (said? ·.2) =
      (said? (.opening "G")).toList ++
        (eventsInList 1 graph.nesting).flatMap fun event =>
          event.statements.filterMap (said? ·.2) := by
  have edges : ((graph.units.flatMap graph.dotEdges).map readDotLine).filterMap (said? ·.2) =
      [] := by
    apply List.filterMap_eq_nil_iff.2
    intro statement statementMem
    rcases exists_edge_of_mem statementMem with ⟨source, target, rfl⟩
    exact notEdge source target
  rw [laidOut.map_readDotLine_dotDocument, ← List.singleton_append, List.filterMap_append,
    List.filterMap_append, List.filterMap_append, List.filterMap_append, edges,
    map_readDotLine_dotLinesOfList, List.filterMap_flatMap]
  cases isOpened : said? (.opening "G") <;> simp [isOpened, notAttribute, notClosing]

/-- The lines of the DOT form enter every unit once, in order. -/
theorem filterMap_entered?_dot :
    (endedLines graph.dot).filterMap (fun line => (readDotLine line).2.entered?) =
      graph.units.map fun unit => toString unit.id := by
  have isRead : (graph.dotDocument.map readDotLine).filterMap (·.2.entered?) =
      [] ++ (eventsInList 1 graph.nesting).flatMap fun event =>
        event.statements.filterMap (·.2.entered?) :=
    laidOut.filterMap_dotDocument (fun _ _ => rfl) rfl rfl
  rw [List.filterMap_map, List.nil_append] at isRead
  simp only [DotEvent.filterMap_entered?_statements] at isRead
  rw [graph.endedLines_dot, ← laidOut.entered_eventsInList, List.filterMap_eq_flatMap_toList
    DotEvent.entered?, List.map_flatMap]
  exact isRead

end LaidOut

end CallGraph

end CallHierarchy
