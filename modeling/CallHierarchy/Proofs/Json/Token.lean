import CallHierarchy.Json.Printer
import CallHierarchy.Json.Token
import Mathlib.Data.List.Chain

/-!
# How tokens are written

The grammar of JSON texts below the level of values: what numbers and strings
look like, and how tokens follow each other with something between them. A text
spells tokens when it consists of their texts, in order, with fillings of some
kind before, between and after them. What counts as a filling is left open, since
comments are allowed in some texts and not in others.

Cutting a text that spells well-formed tokens with white space gives the tokens
back, as long as no two of them run together (`tokens?_of_spells`).
-/

namespace CallHierarchy.Json

/-- One or more decimal digits. -/
def IsDigits (text : List Char) : Prop :=
  text ≠ [] ∧ ∀ digit ∈ text, digit.isDigit

/-- The whole part of a number: no zero stands before other digits. -/
inductive IsWhole : List Char → Prop
  | zero : IsWhole ['0']
  | digits {first : Char} {rest : List Char} (isDigit : first.isDigit) (notZero : first ≠ '0')
      (later : ∀ digit ∈ rest, digit.isDigit) : IsWhole (first :: rest)

/-- The fraction of a number, which can be missing. -/
inductive IsFraction : List Char → Prop
  | none : IsFraction []
  | digits {text : List Char} (isDigits : IsDigits text) : IsFraction ('.' :: text)

/-- The exponent of a number, which can be missing. -/
inductive IsExponent : List Char → Prop
  | none : IsExponent []
  | digits {mark : Char} {sign text : List Char} (isMark : mark = 'e' ∨ mark = 'E')
      (isSign : sign = [] ∨ sign = ['+'] ∨ sign = ['-']) (isDigits : IsDigits text) :
      IsExponent (mark :: (sign ++ text))

/-- A number: a sign, a whole part, a fraction and an exponent, of which only one must be there. -/
inductive IsNumber : List Char → Prop
  | intro {sign whole fraction exponent : List Char} (isSign : sign = [] ∨ sign = ['-'])
      (isWhole : IsWhole whole) (isFraction : IsFraction fraction)
      (isExponent : IsExponent exponent) : IsNumber (sign ++ whole ++ fraction ++ exponent)

/-- The content of a string: characters and escapes. -/
inductive IsContent : List Char → Prop
  | nil : IsContent []
  | plain {character : Char} {rest : List Char} (printable : 0x20 ≤ character.toNat)
      (notQuote : character ≠ '"') (notBackslash : character ≠ '\\') (later : IsContent rest) :
      IsContent (character :: rest)
  | letter {letter : Char} {rest : List Char}
      (isLetter : letter ∈ ['"', '\\', '/', 'b', 'f', 'n', 'r', 't']) (later : IsContent rest) :
      IsContent ('\\' :: letter :: rest)
  | unicode {first second third fourth : Char} {rest : List Char}
      (isHex : ∀ digit ∈ [first, second, third, fourth], (hexValue? digit).isSome)
      (later : IsContent rest) :
      IsContent ('\\' :: 'u' :: first :: second :: third :: fourth :: rest)

namespace Token

/-- How a token is written. -/
def text : Token → List Char
  | .openBrace => ['\x7b']
  | .closeBrace => ['\x7d']
  | .openBracket => ['[']
  | .closeBracket => [']']
  | .colon => [':']
  | .comma => [',']
  | .null => ['n', 'u', 'l', 'l']
  | .bool value => boolText value
  | .number text => text
  | .string content => quote content

/-- Whether a token that carries a text carries a right one. -/
def IsWellFormed : Token → Prop
  | .number text => IsNumber text
  | .string content => IsContent content
  | _ => True

/-- Whether a token is a bracket, a colon or a comma. -/
def isMark : Token → Bool
  | .openBrace | .closeBrace | .openBracket | .closeBracket | .colon | .comma => true
  | .null | .bool _ | .number _ | .string _ => false

end Token

/-- Whether a text consists of tokens in order, with fillings before, between and after them. -/
inductive Spells (gap last : List Char → Prop) : List Token → List Char → Prop
  | nil {filling : List Char} (isLast : last filling) : Spells gap last [] filling
  | cons {filling text : List Char} {token : Token} {rest : List Token} (isGap : gap filling)
      (later : Spells gap last rest text) :
      Spells gap last (token :: rest) (filling ++ token.text ++ text)

/-- White space. -/
def IsWhite (text : List Char) : Prop :=
  ∀ character ∈ text, LexState.isSpace character

/-- Whether a text consists of tokens with white space around them. -/
abbrev SpellsPlainly : List Token → List Char → Prop :=
  Spells IsWhite IsWhite

namespace NumberPart

/-- Whether a text continues a number from one part to another. -/
def Reads (part : NumberPart) (text : List Char) (next : NumberPart) : Prop :=
  text.foldlM continue? part = some next

theorem Reads.refl (part : NumberPart) : part.Reads [] part :=
  rfl

theorem Reads.cons {part middle next : NumberPart} {character : Char} {text : List Char}
    (first : part.continue? character = some middle) (later : middle.Reads text next) :
    part.Reads (character :: text) next := by
  simpa [Reads, first] using later

theorem Reads.append {part middle next : NumberPart} {left right : List Char}
    (first : part.Reads left middle) (later : middle.Reads right next) :
    part.Reads (left ++ right) next := by
  simp only [Reads, List.foldlM_append] at *
  simpa [first] using later

theorem reads_digits {part : NumberPart} {text : List Char}
    (continues : ∀ digit : Char, digit.isDigit → part.continue? digit = some part)
    (isDigits : ∀ digit ∈ text, digit.isDigit) : part.Reads text part := by
  induction text with
  | nil => exact .refl part
  | cons digit text ih =>
      simp only [List.mem_cons, forall_eq_or_imp] at isDigits
      exact .cons (continues digit isDigits.1) (ih isDigits.2)

theorem reads_isDigits {part next : NumberPart} {text : List Char}
    (starts : ∀ digit : Char, digit.isDigit → part.continue? digit = some next)
    (continues : ∀ digit : Char, digit.isDigit → next.continue? digit = some next)
    (isDigits : IsDigits text) : part.Reads text next := by
  rcases isDigits with ⟨nonempty, isDigits⟩
  cases text with
  | nil => exact absurd rfl nonempty
  | cons digit text =>
      simp only [List.mem_cons, forall_eq_or_imp] at isDigits
      exact .cons (starts digit isDigits.1) (reads_digits continues isDigits.2)

theorem exists_reads_exponent {part : NumberPart} {text : List Char}
    (takesExponent : part = .zero ∨ part = .integer ∨ part = .fraction)
    (isExponent : IsExponent text) : ∃ next, part.Reads text next ∧ next.isComplete := by
  cases isExponent with
  | none =>
      refine ⟨part, .refl part, ?_⟩
      rcases takesExponent with rfl | rfl | rfl <;> rfl
  | @digits mark sign text isMark isSign isDigits =>
      have marked : part.continue? mark = some .exponentMark := by
        rcases takesExponent with rfl | rfl | rfl <;> rcases isMark with rfl | rfl <;> rfl
      have afterMark : ∀ digit : Char, digit.isDigit →
          exponentMark.continue? digit = some .exponent := by
        intro digit isDigit
        have notSign : ¬(digit = '+' ∨ digit = '-') := by
          rintro (rfl | rfl) <;> exact absurd isDigit (by decide)
        simp [continue?, isDigit, notSign]
      have afterSign : exponentSign.Reads text .exponent :=
        reads_isDigits (by simp +contextual [continue?]) (by simp +contextual [continue?]) isDigits
      have signed : exponentMark.Reads (sign ++ text) .exponent := by
        rcases isSign with rfl | rfl | rfl
        · exact reads_isDigits afterMark (by simp +contextual [continue?]) isDigits
        · exact .cons rfl afterSign
        · exact .cons rfl afterSign
      exact ⟨.exponent, .cons marked signed, rfl⟩

theorem exists_reads_after_whole {part : NumberPart} {fraction exponent : List Char}
    (isWhole : part = .zero ∨ part = .integer) (isFraction : IsFraction fraction)
    (isExponent : IsExponent exponent) :
    ∃ next, part.Reads (fraction ++ exponent) next ∧ next.isComplete := by
  cases isFraction with
  | none =>
      apply exists_reads_exponent _ isExponent
      rcases isWhole with rfl | rfl <;> simp
  | @digits text isDigits =>
      have pointed : part.continue? '.' = some .point := by
        rcases isWhole with rfl | rfl <;> rfl
      have afterPoint : point.Reads text .fraction :=
        reads_isDigits (by simp +contextual [continue?]) (by simp +contextual [continue?]) isDigits
      rcases exists_reads_exponent (.inr (.inr rfl)) isExponent with ⟨next, reads, complete⟩
      exact ⟨next, .cons pointed (afterPoint.append reads), complete⟩

end NumberPart

namespace LexState

open NumberPart (Reads)

theorem start_of_isDigit {digit : Char} (isDigit : digit.isDigit) (notZero : digit ≠ '0') :
    start digit = some ([], .number .integer [digit]) := by
  have notSpace : isSpace digit = false := by
    by_contra isSpace
    simp only [LexState.isSpace, Bool.not_eq_false, Bool.or_eq_true, decide_eq_true_eq] at isSpace
    rcases isSpace with ((rfl | rfl) | rfl) | rfl <;> exact absurd isDigit (by decide)
  simp only [start, notSpace, Bool.false_eq_true, ↓reduceIte]
  split
  all_goals try exact absurd isDigit (by decide)
  · exact absurd rfl notZero
  · simp [isDigit]

/-- The automaton reads a number to its end, from its first character on. -/
theorem exists_reads_number {text : List Char} (isNumber : IsNumber text) :
    ∃ first rest part next, text = first :: rest ∧ start first = some ([], .number part [first]) ∧
      part.Reads rest next ∧ next.isComplete := by
  cases isNumber with
  | @intro sign whole fraction exponent isSign isWhole isFraction isExponent =>
      have unsigned : ∃ first rest part middle, whole = first :: rest ∧
          start first = some ([], .number part [first]) ∧
          NumberPart.minus.continue? first = some part ∧ part.Reads rest middle ∧
          (middle = .zero ∨ middle = .integer) := by
        cases isWhole with
        | zero => exact ⟨'0', [], .zero, .zero, rfl, rfl, rfl, .refl _, .inl rfl⟩
        | @digits first rest isDigit notZero later =>
            have afterMinus : NumberPart.minus.continue? first = some .integer := by
              simp [NumberPart.continue?, isDigit, notZero]
            have digits : NumberPart.integer.Reads rest .integer :=
              NumberPart.reads_digits (by simp +contextual [NumberPart.continue?]) later
            exact ⟨first, rest, .integer, .integer, rfl, start_of_isDigit isDigit notZero,
              afterMinus, digits, .inr rfl⟩
      rcases unsigned with ⟨first, rest, part, middle, rfl, starts, afterMinus, reads, isWhole⟩
      rcases NumberPart.exists_reads_after_whole isWhole isFraction isExponent with
        ⟨next, later, complete⟩
      have all := reads.append later
      rcases isSign with rfl | rfl
      · exact ⟨first, rest ++ (fraction ++ exponent), part, next, by simp, starts, all, complete⟩
      · exact ⟨'-', first :: rest ++ (fraction ++ exponent), .minus, next, by simp, rfl,
          .cons afterMinus all, complete⟩

/-- Whether a character cannot belong to the number or word before it. -/
def isDelimiter (character : Char) : Bool :=
  isSpace character || ['\x7b', '\x7d', '[', ']', ':', ','].contains character

theorem continue?_of_isDelimiter {character : Char} (delimits : isDelimiter character)
    (part : NumberPart) : part.continue? character = none := by
  simp only [isDelimiter, isSpace, Bool.or_eq_true, decide_eq_true_eq, List.contains_cons,
    List.contains_nil, Bool.or_false, beq_iff_eq] at delimits
  rcases delimits with (((rfl | rfl) | rfl) | rfl) | (rfl | rfl | rfl | rfl | rfl | rfl) <;>
    cases part <;> rfl

variable {state next : LexState} {character : Char} {rest : List Char}

theorem run_of_silent (silent : state.step character = some ([], next)) :
    state.run (character :: rest) = next.run rest := by
  simp [run, silent]

theorem run_of_token {token : Token} (ends : state.step character = some ([token], next)) :
    state.run (character :: rest) = (next.run rest).map (token :: ·) := by
  simp [run, ends]

theorem run_of_reads {part next : NumberPart} {text : List Char} (reads : part.Reads text next)
    (read rest : List Char) :
    (number part read).run (text ++ rest) = (number next (text.reverse ++ read)).run rest := by
  induction text generalizing part read with
  | nil =>
      cases reads
      rfl
  | cons character text ih =>
      simp only [Reads, List.foldlM_cons] at reads
      rcases Option.bind_eq_some_iff.1 reads with ⟨middle, continues, reads⟩
      have silent : (number part read).step character =
          some ([], .number middle (character :: read)) := by
        simp [step, continues]
      rw [List.cons_append, run_of_silent silent, ih reads]
      simp

theorem run_of_isComplete {part : NumberPart} (complete : part.isComplete) (read : List Char)
    (ends : ∀ character ∈ rest.head?, isDelimiter character) :
    (number part read).run rest = (between.run rest).map (.number read.reverse :: ·) := by
  cases rest with
  | nil => simp [run, finish, complete]
  | cons character rest =>
      have stops := continue?_of_isDelimiter (ends character rfl) part
      simp only [run, step, stops, complete, ↓reduceIte]
      cases start character <;> simp [Function.comp_def]

theorem step_backslash (read : List Char) :
    (string read).step '\\' = some ([], .escape ('\\' :: read)) := by
  simp [step]

theorem step_unicode {digit : Char} (isHex : (hexValue? digit).isSome) (missing : Nat)
    (read : List Char) :
    (unicode missing read).step digit = some ([],
      if missing ≤ 1 then .string (digit :: read) else .unicode (missing - 1) (digit :: read)) := by
  simp only [step, Option.isNone_eq_false_iff.2 isHex, Bool.false_eq_true, ↓reduceIte]
  split <;> rfl

theorem run_of_isContent {content : List Char} (isContent : IsContent content)
    (read rest : List Char) :
    (string read).run (content ++ '"' :: rest) =
      (between.run rest).map (.string (read.reverse ++ content) :: ·) := by
  induction isContent generalizing read with
  | nil =>
      have ends : (string read).step '"' = some ([.string read.reverse], .between) := by
        simp [step]
      simp [run_of_token ends]
  | @plain character content printable notQuote notBackslash _ ih =>
      have silent : (string read).step character = some ([], .string (character :: read)) := by
        simp [step, notQuote, notBackslash, Nat.not_lt.2 printable]
      simp [run_of_silent silent, ih]
  | @letter letter content isLetter _ ih =>
      have silent : (escape ('\\' :: read)).step letter =
          some ([], .string (letter :: '\\' :: read)) := by
        simp only [List.mem_cons, List.not_mem_nil, or_false] at isLetter
        rcases isLetter with rfl | rfl | rfl | rfl | rfl | rfl | rfl | rfl <;> rfl
      simp [run_of_silent (step_backslash read), run_of_silent silent, ih]
  | @unicode first second third fourth content isHex _ ih =>
      simp only [List.mem_cons, List.not_mem_nil, or_false, forall_eq_or_imp, forall_eq] at isHex
      rcases isHex with ⟨isFirst, isSecond, isThird, isFourth⟩
      have silent : (escape ('\\' :: read)).step 'u' =
          some ([], .unicode 4 ('u' :: '\\' :: read)) := by
        simp [step]
      simp [run_of_silent (step_backslash read), run_of_silent silent,
        run_of_silent (step_unicode isFirst _ _), run_of_silent (step_unicode isSecond _ _),
        run_of_silent (step_unicode isThird _ _), run_of_silent (step_unicode isFourth _ _), ih]

theorem run_of_isWhite {filling : List Char} (isWhite : IsWhite filling) (rest : List Char) :
    between.run (filling ++ rest) = between.run rest := by
  induction filling with
  | nil => rfl
  | cons character filling ih =>
      simp only [IsWhite, List.mem_cons, forall_eq_or_imp] at isWhite
      have silent : between.step character = some ([], .between) := by
        simp [step, start, isWhite.1]
      simp [run_of_silent silent, ih isWhite.2]

/-- A token at the start of a text is cut off, unless what follows it would run into it. -/
theorem run_text_append {token : Token} (wellFormed : token.IsWellFormed)
    (apart : token.isMark ∨ ∀ character ∈ rest.head?, isDelimiter character) :
    between.run (token.text ++ rest) = (between.run rest).map (token :: ·) := by
  cases token with
  | number text =>
      rcases exists_reads_number wellFormed with
        ⟨first, later, part, next, rfl, starts, reads, complete⟩
      have ends : ∀ character ∈ rest.head?, isDelimiter character := by
        simpa [Token.isMark] using apart
      have silent : between.step first = some ([], .number part [first]) := starts
      rw [Token.text, List.cons_append, run_of_silent silent, run_of_reads reads,
        run_of_isComplete complete _ ends]
      simp
  | string content =>
      have silent : between.step '"' = some ([], .string []) := rfl
      simp [Token.text, quote, run_of_silent silent, run_of_isContent wellFormed]
  | bool value =>
      cases value <;> simp [Token.text, boolText, run, step, start, isSpace, Function.comp_def]
  | _ => simp [Token.text, run, step, start, isSpace, Function.comp_def]

end LexState

theorem Token.text_of_isMark {token : Token} (isMark : token.isMark) :
    ∃ character, token.text = [character] ∧ LexState.isDelimiter character := by
  cases token with
  | null | bool _ | number _ | string _ => cases isMark
  | _ => exact ⟨_, rfl, rfl⟩

/-- A text that spells tokens does not run into a token before it, if its first token is a mark. -/
theorem Spells.isDelimiter_head? {tokens : List Token} {text : List Char}
    (spells : SpellsPlainly tokens text) (isMark : ∀ token ∈ tokens.head?, token.isMark) :
    ∀ character ∈ text.head?, LexState.isDelimiter character := by
  intro character characterMem
  have ofSpace : LexState.isSpace character → LexState.isDelimiter character := by
    intro isSpace
    simp [LexState.isDelimiter, isSpace]
  cases spells with
  | nil isLast => exact ofSpace (isLast character (List.mem_of_head? characterMem))
  | @cons filling text token rest isGap later =>
      cases filling with
      | nil =>
          rcases Token.text_of_isMark (isMark token rfl) with ⟨mark, isText, delimits⟩
          have isFirst : mark = character := by simpa [isText] using characterMem
          exact isFirst ▸ delimits
      | cons space filling =>
          have isFirst : space = character := by simpa using characterMem
          exact ofSpace (isFirst ▸ isGap space List.mem_cons_self)

/-- Cutting a text into tokens gives the tokens that the text spells. -/
theorem tokens?_of_spells {tokens : List Token} {text : List Char}
    (spells : SpellsPlainly tokens text) (wellFormed : ∀ token ∈ tokens, token.IsWellFormed)
    (apart : tokens.IsChain fun token next => token.isMark ∨ next.isMark) :
    tokens? text = some tokens := by
  induction spells with
  | @nil filling isLast =>
      have same := LexState.run_of_isWhite isLast []
      rw [List.append_nil] at same
      exact same
  | @cons filling text token rest isGap later ih =>
      simp only [List.mem_cons, forall_eq_or_imp] at wellFormed
      rw [List.isChain_cons] at apart
      have follows : token.isMark ∨ ∀ character ∈ text.head?, LexState.isDelimiter character := by
        by_cases isMark : token.isMark
        · exact .inl isMark
        · exact .inr (later.isDelimiter_head? fun next isNext =>
            (apart.1 next isNext).resolve_left isMark)
      rw [tokens?, List.append_assoc, LexState.run_of_isWhite isGap,
        LexState.run_text_append wellFormed.1 follows, ← tokens?, ih wellFormed.2 apart.2]
      rfl

end CallHierarchy.Json
