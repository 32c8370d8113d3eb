import CallHierarchy.Json.Comment
import CallHierarchy.Proofs.Json.Value
import Mathlib.Data.List.TakeWhile

/-!
# Taking comments out of JSON

A text with comments spells tokens as any other text does, only with comments
among the white space. It may also have a comma too many before a closing
bracket. Taking the comments out leaves a text that spells the same tokens without
the extra commas, and so stands for the same value.

What has been written so far matters only at a closing bracket: a comma with
nothing but white space after it is taken back there. The proof therefore follows
the tokens with two statements at once, one for a text that is continued after a
comma, and one for any other.

A text in which there is nothing to take out is left as it is, whether it stands
for a value or not.
-/

namespace CallHierarchy.Json

/-- What can stand between tokens where comments are allowed. -/
inductive IsGap : List Char → Prop
  | nil : IsGap []
  | space {character : Char} {rest : List Char} (isSpace : LexState.isSpace character)
      (later : IsGap rest) : IsGap (character :: rest)
  | lineComment {body rest : List Char} (oneLine : '\n' ∉ body) (later : IsGap rest) :
      IsGap ('/' :: '/' :: (body ++ '\n' :: rest))
  | blockComment {body rest : List Char} (unclosed : ¬['*', '/'] <:+: body)
      (later : IsGap rest) : IsGap ('/' :: '*' :: (body ++ '*' :: '/' :: rest))

/-- What can stand after the last token: the text may end inside a comment of one line. -/
inductive IsLastGap : List Char → Prop
  | gap {filling : List Char} (isGap : IsGap filling) : IsLastGap filling
  | lineComment {filling body : List Char} (isGap : IsGap filling) (oneLine : '\n' ∉ body) :
      IsLastGap (filling ++ '/' :: '/' :: body)

/-- Whether a text consists of tokens with white space and comments around them. -/
abbrev SpellsWithComments : List Token → List Char → Prop :=
  Spells IsGap IsLastGap

/-- Whether tokens are others with extra commas between values and closing brackets. -/
inductive ExtraCommas : List Token → List Token → Prop
  | nil : ExtraCommas [] []
  | keep {token : Token} {strict loose : List Token} (later : ExtraCommas strict loose) :
      ExtraCommas (token :: strict) (token :: loose)
  | insert {token bracket : Token} {strict loose : List Token} (ends : token.endsValue)
      (closes : bracket.isClose) (later : ExtraCommas (bracket :: strict) loose) :
      ExtraCommas (token :: bracket :: strict) (token :: .comma :: loose)

/-- The tokens without commas before closing brackets. -/
def withoutExtraCommas : List Token → List Token
  | .comma :: next :: rest =>
    if next.isClose then withoutExtraCommas (next :: rest)
    else .comma :: withoutExtraCommas (next :: rest)
  | token :: rest => token :: withoutExtraCommas rest
  | [] => []

theorem withoutExtraCommas_cons {token : Token} {rest : List Token}
    (isNeeded : token = .comma → ∀ next ∈ rest.head?, ¬next.isClose) :
    withoutExtraCommas (token :: rest) = token :: withoutExtraCommas rest := by
  by_cases isComma : token = .comma
  · subst isComma
    cases rest with
    | nil => rfl
    | cons next rest => simp [withoutExtraCommas, isNeeded rfl next rfl]
  · rw [withoutExtraCommas]
    rintro next rest rfl
    exact absurd rfl isComma

namespace ExtraCommas

variable {strict loose : List Token}

protected theorem refl : ∀ tokens, ExtraCommas tokens tokens
  | [] => .nil
  | _ :: tokens => .keep (ExtraCommas.refl tokens)

theorem head?_eq (extra : ExtraCommas strict loose) : loose.head? = strict.head? := by
  cases extra <;> rfl

theorem eq_comma_or_mem (extra : ExtraCommas strict loose) :
    ∀ token ∈ loose, token = .comma ∨ token ∈ strict := by
  induction extra with
  | nil => simp
  | keep _ ih =>
      intro token tokenMem
      simp only [List.mem_cons] at tokenMem ⊢
      rcases tokenMem with rfl | tokenMem
      · simp
      · rcases ih token tokenMem with isComma | tokenMem <;> simp [*]
  | insert _ _ _ ih =>
      intro token tokenMem
      simp only [List.mem_cons] at tokenMem ih ⊢
      rcases tokenMem with rfl | rfl | tokenMem
      · simp
      · simp
      · rcases ih token tokenMem with isComma | tokenMem <;> simp [*]

/-- Where no comma is extra in the first tokens, they are the second without extra commas. -/
theorem withoutExtraCommas_eq (extra : ExtraCommas strict loose)
    (isChain : strict.IsChain Token.Allows) : withoutExtraCommas loose = strict := by
  induction extra with
  | nil => rfl
  | @keep token strict loose later ih =>
      rw [List.isChain_cons] at isChain
      rw [withoutExtraCommas_cons, ih isChain.2]
      rintro rfl next isNext closes
      rw [later.head?_eq] at isNext
      exact (isChain.1 next isNext).2 ⟨rfl, closes⟩
  | @insert token bracket strict loose ends closes later ih =>
      have notComma : token ≠ .comma := by
        rintro rfl
        cases ends
      rw [List.isChain_cons] at isChain
      have same := ih isChain.2
      cases loose with
      | nil => simp [withoutExtraCommas] at same
      | cons next rest =>
          have isBracket : next = bracket := by simpa using later.head?_eq
          rw [withoutExtraCommas_cons (fun isComma => absurd isComma notComma), withoutExtraCommas,
            if_pos (isBracket ▸ closes), same]

end ExtraCommas

/-! ### What is passed over outside of tokens -/

theorem stripLineComment_append {body : List Char} (oneLine : '\n' ∉ body)
    (written rest : List Char) :
    stripLineComment written (body ++ rest) = stripLineComment written rest := by
  induction body with
  | nil => rfl
  | cons character body ih =>
      simp only [List.mem_cons, not_or] at oneLine
      rw [List.cons_append, stripLineComment, ih oneLine.2]
      exact fun isEnd => oneLine.1 isEnd.symm

theorem stripBlockComment_append {body : List Char} (unclosed : ¬['*', '/'] <:+: body)
    (written rest : List Char) :
    stripBlockComment written (body ++ '*' :: '/' :: rest) = stripCode (' ' :: written) rest := by
  induction body with
  | nil => simp [stripBlockComment]
  | cons character body ih =>
      have later : ¬['*', '/'] <:+: body :=
        fun found => unclosed (found.trans (List.suffix_cons _ _).isInfix)
      rw [List.cons_append, stripBlockComment, ih later]
      rintro after rfl closes
      cases body with
      | nil => simp at closes
      | cons next body =>
          simp only [List.cons_append, List.cons.injEq] at closes
          exact unclosed ⟨[], body, by simp [closes.1]⟩

/-- Whether a character is copied wherever it stands outside of strings and comments. -/
def isCopied (character : Char) : Bool :=
  !(['"', '/', ']', '\x7d'].contains character)

theorem stripCode_cons_of_isCopied {character : Char} (copied : isCopied character)
    (written rest : List Char) :
    stripCode written (character :: rest) = stripCode (character :: written) rest := by
  simp only [isCopied, List.contains_cons, List.contains_nil, Bool.or_false, Bool.not_eq_true',
    Bool.or_eq_false_iff, beq_eq_false_iff_ne] at copied
  rcases copied with ⟨notQuote, notSlash, notBracket, notBrace⟩
  rw [stripCode, if_neg]
  · simp [notBracket, notBrace]
  · exact notQuote
  · exact fun _ isSlash => absurd isSlash notSlash
  · exact fun _ isSlash => absurd isSlash notSlash

theorem stripCode_append_of_isCopied {text : List Char}
    (copied : ∀ character ∈ text, isCopied character) (written rest : List Char) :
    stripCode written (text ++ rest) = stripCode (text.reverse ++ written) rest := by
  induction text generalizing written with
  | nil => rfl
  | cons character text ih =>
      simp only [List.mem_cons, forall_eq_or_imp] at copied
      simp [stripCode_cons_of_isCopied copied.1, ih copied.2]

theorem isSpace_iff {character : Char} : LexState.isSpace character ↔
    character = ' ' ∨ character = '\t' ∨ character = '\n' ∨ character = '\r' := by
  simp [LexState.isSpace, or_assoc]

theorem isCopied_of_isSpace {character : Char} (isSpace : LexState.isSpace character) :
    isCopied character := by
  rcases isSpace_iff.1 isSpace with rfl | rfl | rfl | rfl <;> rfl

theorem isBlank_of_isSpace {character : Char} (isSpace : LexState.isSpace character) :
    Text.isBlank character := by
  rcases isSpace_iff.1 isSpace with rfl | rfl | rfl | rfl <;> rfl

/-- Comments and white space leave white space. -/
theorem exists_stripCode_gap {filling : List Char} (isGap : IsGap filling) :
    ∃ spaces, IsWhite spaces ∧ ∀ written rest,
      stripCode written (filling ++ rest) = stripCode (spaces.reverse ++ written) rest := by
  induction isGap with
  | nil => exact ⟨[], by simp [IsWhite], fun _ _ => rfl⟩
  | @space character _ isSpace _ ih =>
      rcases ih with ⟨spaces, isWhite, same⟩
      refine ⟨character :: spaces, by simp_all [IsWhite], fun written rest => ?_⟩
      simp [stripCode_cons_of_isCopied (isCopied_of_isSpace isSpace), same]
  | @lineComment body _ oneLine _ ih =>
      rcases ih with ⟨spaces, isWhite, same⟩
      refine ⟨'\n' :: spaces, by simp_all [IsWhite, LexState.isSpace], fun written rest => ?_⟩
      simp [stripCode, stripLineComment_append oneLine, stripLineComment, same]
  | @blockComment body _ unclosed _ ih =>
      rcases ih with ⟨spaces, isWhite, same⟩
      refine ⟨' ' :: spaces, by simp_all [IsWhite, LexState.isSpace], fun written rest => ?_⟩
      simp [stripCode, stripBlockComment_append unclosed, same]

theorem exists_stripCode_lastGap {filling : List Char} (isLast : IsLastGap filling) :
    ∃ spaces, IsWhite spaces ∧
      ∀ written, stripCode written filling = spaces.reverse ++ written := by
  cases isLast with
  | gap isGap =>
      rcases exists_stripCode_gap isGap with ⟨spaces, isWhite, same⟩
      refine ⟨spaces, isWhite, fun written => ?_⟩
      simpa [stripCode] using same written []
  | @lineComment filling body isGap oneLine =>
      rcases exists_stripCode_gap isGap with ⟨spaces, isWhite, same⟩
      refine ⟨spaces, isWhite, fun written => ?_⟩
      have ended := stripLineComment_append oneLine (spaces.reverse ++ written) []
      simp only [List.append_nil, stripLineComment] at ended
      simp [same, stripCode, ended]

/-! ### Tokens -/

theorem stripString_append {content : List Char} (isContent : IsContent content)
    (written rest : List Char) :
    stripString written (content ++ '"' :: rest) =
      stripCode ('"' :: (content.reverse ++ written)) rest := by
  induction isContent generalizing written with
  | nil => simp [stripString]
  | @plain character content _ notQuote notBackslash _ ih =>
      rw [List.cons_append, stripString, ih]
      · simp
      · exact fun _ _ isBackslash => absurd isBackslash notBackslash
      · exact notQuote
  | letter _ _ ih => simp [stripString, ih]
  | @unicode first second third fourth content isHex _ ih =>
      have plain : ∀ digit, (hexValue? digit).isSome → ∀ written rest,
          stripString written (digit :: rest) = stripString (digit :: written) rest := by
        intro digit isHex written rest
        rw [stripString]
        · rintro _ _ rfl
          cases isHex
        · rintro rfl
          cases isHex
      simp only [List.mem_cons, List.not_mem_nil, or_false, forall_eq_or_imp, forall_eq] at isHex
      simp [stripString, plain, isHex, ih]

/-- Whether what is written so far, apart from blanks, does not end with a comma. -/
def Settled (written : List Char) : Prop :=
  (written.dropWhile Text.isBlank).head? ≠ some ','

theorem close_of_settled {written : List Char} (settled : Settled written) (bracket : Char) :
    close bracket written = bracket :: written := by
  unfold close
  split
  · simp_all [Settled]
  · rfl

theorem dropWhile_append_of_isWhite {spaces : List Char} (isWhite : IsWhite spaces)
    (written : List Char) :
    (spaces.reverse ++ written).dropWhile Text.isBlank = written.dropWhile Text.isBlank := by
  apply List.dropWhile_append_of_pos
  intro space spaceMem
  exact isBlank_of_isSpace (isWhite space (by simpa using spaceMem))

theorem close_of_comma {spaces : List Char} (isWhite : IsWhite spaces) (bracket : Char)
    (before : List Char) :
    close bracket (spaces.reverse ++ ',' :: before) = bracket :: before := by
  simp [close, dropWhile_append_of_isWhite isWhite, Text.isBlank, Text.blankRanges]

theorem settled_cons {last : Char} (notBlank : Text.isBlank last = false) (notComma : last ≠ ',')
    (written : List Char) : Settled (last :: written) := by
  simp [Settled, notBlank, notComma]

/-- Whether a character can belong to a number. -/
def isNumeric (character : Char) : Bool :=
  character.isDigit || ['-', '+', '.', 'e', 'E'].contains character

theorem isNumeric_of_isDigit {character : Char} (isDigit : character.isDigit) :
    isNumeric character := by
  simp [isNumeric, isDigit]

theorem IsNumber.isNumeric {text : List Char} (isNumber : IsNumber text) :
    ∀ character ∈ text, isNumeric character := by
  cases isNumber with
  | @intro sign whole fraction exponent isSign isWhole isFraction isExponent =>
      have inSign : ∀ character ∈ sign, Json.isNumeric character := by
        rcases isSign with rfl | rfl <;> simp [Json.isNumeric]
      have inWhole : ∀ character ∈ whole, Json.isNumeric character := by
        cases isWhole with
        | zero => simp [Json.isNumeric]
        | digits isDigit _ later =>
            simp only [List.mem_cons, forall_eq_or_imp]
            exact ⟨isNumeric_of_isDigit isDigit,
              fun digit digitMem => isNumeric_of_isDigit (later digit digitMem)⟩
      have inFraction : ∀ character ∈ fraction, Json.isNumeric character := by
        cases isFraction with
        | none => simp
        | digits isDigits =>
            simp only [List.mem_cons, forall_eq_or_imp]
            exact ⟨rfl, fun digit digitMem => isNumeric_of_isDigit (isDigits.2 digit digitMem)⟩
      have inExponent : ∀ character ∈ exponent, Json.isNumeric character := by
        cases isExponent with
        | none => simp
        | @digits mark sign text isMark isSign isDigits =>
            simp only [List.mem_cons, List.mem_append, forall_eq_or_imp]
            refine ⟨by rcases isMark with rfl | rfl <;> rfl, ?_⟩
            rintro character (signMem | digitMem)
            · rcases isSign with rfl | rfl | rfl <;> simp_all [Json.isNumeric]
            · exact isNumeric_of_isDigit (isDigits.2 character digitMem)
      intro character characterMem
      simp only [List.mem_append] at characterMem
      rcases characterMem with ((inside | inside) | inside) | inside
      · exact inSign character inside
      · exact inWhole character inside
      · exact inFraction character inside
      · exact inExponent character inside

/-- The characters of numbers are copied, and none of them is a comma or white space. -/
theorem isCopied_of_isNumeric {character : Char} (numeric : isNumeric character) :
    isCopied character ∧ Text.isBlank character = false ∧ character ≠ ',' := by
  simp only [isNumeric, Bool.or_eq_true, List.contains_cons, List.contains_nil, Bool.or_false,
    beq_iff_eq] at numeric
  rcases numeric with isDigit | rfl | rfl | rfl | rfl | rfl
  · have bounds : 48 ≤ character.toNat ∧ character.toNat ≤ 57 := by
      simpa [Char.isDigit, UInt32.le_iff_toNat_le] using isDigit
    have differs : ∀ other : Char, ¬other.isDigit → character ≠ other := by
      rintro other notDigit rfl
      exact notDigit isDigit
    refine ⟨?_, ?_, differs ',' (by decide)⟩
    · simp [isCopied, differs '"' (by decide), differs '/' (by decide), differs ']' (by decide),
        differs '\x7d' (by decide)]
    · simp only [Text.isBlank, Text.blankRanges, List.any_cons, List.any_nil, Bool.or_false,
        Bool.or_eq_false_iff, Bool.and_eq_false_iff, decide_eq_false_iff_not]
      omega
  all_goals exact ⟨rfl, rfl, by decide⟩

/-- A token that is no closing bracket is copied. -/
theorem stripCode_text {token : Token} (wellFormed : token.IsWellFormed) (opens : ¬token.isClose)
    (written rest : List Char) :
    stripCode written (token.text ++ rest) = stripCode (token.text.reverse ++ written) rest := by
  cases token with
  | closeBrace | closeBracket => exact absurd rfl opens
  | string content => simp [Token.text, quote, stripCode, stripString_append wellFormed]
  | number text =>
      exact stripCode_append_of_isCopied
        (fun character inside => (isCopied_of_isNumeric (wellFormed.isNumeric character inside)).1)
        written rest
  | bool value =>
      apply stripCode_append_of_isCopied
      cases value <;> simp [Token.text, boolText, isCopied]
  | _ =>
      apply stripCode_append_of_isCopied
      simp [Token.text, isCopied]

theorem settled_text {token : Token} (wellFormed : token.IsWellFormed) (notComma : token ≠ .comma)
    (written : List Char) : Settled (token.text.reverse ++ written) := by
  cases token with
  | comma => exact absurd rfl notComma
  | string content => simpa [Token.text, quote] using settled_cons rfl (by decide) _
  | number text =>
      rcases LexState.exists_reads_number wellFormed with ⟨first, later, -, -, rfl, -⟩
      rcases split : (first :: later).reverse with _ | ⟨last, before⟩
      · simp at split
      · have lastMem : last ∈ first :: later := by
          rw [← List.mem_reverse, split]
          exact List.mem_cons_self
        rcases isCopied_of_isNumeric (wellFormed.isNumeric last lastMem) with
          ⟨-, notBlank, notComma⟩
        simpa [Token.text, split] using settled_cons notBlank notComma (before ++ written)
  | bool value => cases value <;> exact settled_cons rfl (by decide) _
  | _ => exact settled_cons rfl (by decide) _

theorem Settled.append {written spaces : List Char} (settled : Settled written)
    (isWhite : IsWhite spaces) : Settled (spaces.reverse ++ written) := by
  rwa [Settled, dropWhile_append_of_isWhite isWhite]

theorem Token.exists_bracket {token : Token} (closes : token.isClose) :
    ∃ bracket, token.text = [bracket] ∧ (bracket = ']' ∨ bracket = '\x7d') := by
  cases token with
  | closeBrace => exact ⟨'\x7d', rfl, .inr rfl⟩
  | closeBracket => exact ⟨']', rfl, .inl rfl⟩
  | _ => cases closes

theorem stripCode_bracket {bracket : Char} (isBracket : bracket = ']' ∨ bracket = '\x7d')
    (written rest : List Char) :
    stripCode written (bracket :: rest) = stripCode (close bracket written) rest := by
  rcases isBracket with rfl | rfl <;> simp [stripCode]

/-- A token is copied, unless it is a closing bracket after a comma. -/
theorem stripCode_token {token : Token} (wellFormed : token.IsWellFormed) {written : List Char}
    (allowed : Settled written ∨ ¬token.isClose) (rest : List Char) :
    stripCode written (token.text ++ rest) = stripCode (token.text.reverse ++ written) rest := by
  by_cases closes : token.isClose
  · rcases Token.exists_bracket closes with ⟨bracket, isText, isBracket⟩
    have settled := allowed.resolve_right (not_not_intro closes)
    simp [isText, stripCode_bracket isBracket, close_of_settled settled]
  · exact stripCode_text wellFormed closes written rest

/-! ### Texts with comments -/

/-- Whether going on with a text leaves tokens with white space after what was written before. -/
def Leaves (written text before : List Char) (tokens : List Token) : Prop :=
  ∃ kept, stripCode written text = kept.reverse ++ before ∧ SpellsPlainly tokens kept

/-- A comma that is not followed by a closing bracket stays, with the white space after it. -/
theorem Leaves.comma {before text spaces : List Char} {tokens : List Token}
    (leaves : Leaves (spaces.reverse ++ ',' :: before) text (spaces.reverse ++ ',' :: before)
      (withoutExtraCommas tokens))
    (isWhite : IsWhite spaces) (isNeeded : ∀ next ∈ tokens.head?, ¬next.isClose) :
    Leaves (spaces.reverse ++ ',' :: before) text before
      (withoutExtraCommas (.comma :: tokens)) := by
  rcases leaves with ⟨kept, same, spells⟩
  refine ⟨',' :: spaces ++ kept, by simp [same], ?_⟩
  rw [withoutExtraCommas_cons fun _ => isNeeded]
  simpa [Token.text] using ((Spells.token .comma).append (.white isWhite)).append spells

/--
Going on with a text that spells tokens with comments leaves these tokens without
extra commas. After a comma, the comma counts as one of the tokens: it is taken
back if the first of them is a closing bracket.
-/
theorem leaves_withoutExtraCommas {tokens : List Token} {text : List Char}
    (spells : SpellsWithComments tokens text) (wellFormed : ∀ token ∈ tokens, token.IsWellFormed) :
    (∀ written, (Settled written ∨ ∀ next ∈ tokens.head?, ¬next.isClose) →
      Leaves written text written (withoutExtraCommas tokens)) ∧
    (∀ before spaces, IsWhite spaces → Leaves (spaces.reverse ++ ',' :: before) text before
      (withoutExtraCommas (.comma :: tokens))) := by
  induction spells with
  | @nil filling isLast =>
      rcases exists_stripCode_lastGap isLast with ⟨gap, isWhite, same⟩
      have leaves : ∀ written, Leaves written filling written (withoutExtraCommas []) :=
        fun written => ⟨gap, same written, .white isWhite⟩
      exact ⟨fun written _ => leaves written,
        fun before spaces isWhite => (leaves _).comma isWhite (by simp)⟩
  | @cons filling text token rest isGap later ih =>
      simp only [List.mem_cons, forall_eq_or_imp] at wellFormed
      rcases ih wellFormed.2 with ⟨afterSettled, afterComma⟩
      rcases exists_stripCode_gap isGap with ⟨gap, isWhite, same⟩
      have leaves : ∀ written, (Settled written ∨ ¬token.isClose) →
          Leaves written (filling ++ token.text ++ text) written
            (withoutExtraCommas (token :: rest)) := by
        intro written allowed
        have copied := stripCode_token wellFormed.1
          (allowed.imp_left fun settled => settled.append isWhite) text
        by_cases isComma : token = .comma
        · subst isComma
          rcases afterComma (gap.reverse ++ written) [] (by simp [IsWhite]) with
            ⟨kept, keeps, spells⟩
          refine ⟨gap ++ kept, ?_, by simpa using (Spells.white isWhite).append spells⟩
          simpa [same, Token.text] using copied.trans keeps
        · rcases afterSettled _ (.inl (settled_text wellFormed.1 isComma (gap.reverse ++ written)))
            with ⟨kept, keeps, spells⟩
          refine ⟨gap ++ token.text ++ kept, by simp [same, copied, keeps], ?_⟩
          rw [withoutExtraCommas_cons fun is => absurd is isComma]
          exact .cons isWhite spells
      refine ⟨fun written allowed => leaves written (by simpa using allowed), ?_⟩
      intro before spaces areWhite
      by_cases closes : token.isClose
      · rcases Token.exists_bracket closes with ⟨bracket, isText, isBracket⟩
        have notComma : token ≠ .comma := by
          rintro rfl
          cases closes
        have joined : IsWhite (spaces ++ gap) := by
          simp_all [IsWhite, or_imp]
        have taken := close_of_comma joined bracket before
        have settled : Settled (bracket :: before) := by
          simpa [isText] using settled_text wellFormed.1 notComma before
        rcases afterSettled _ (.inl settled) with ⟨kept, keeps, spells⟩
        refine ⟨bracket :: kept, ?_, ?_⟩
        · simp only [List.reverse_append, List.append_assoc] at taken
          simp [same, isText, stripCode_bracket isBracket, taken, keeps]
        · rw [withoutExtraCommas, if_pos closes,
            withoutExtraCommas_cons fun is => absurd is notComma]
          simpa [isText] using (Spells.token token).append spells
      · exact (leaves _ (.inr closes)).comma areWhite (by simpa using closes)

/-! ### Texts without comments -/

/-- Where a text stands with regard to string literals. -/
inductive Quotation where
  | outside
  | inside
  /-- Inside of a literal, after a backslash. -/
  | escaped
  deriving DecidableEq

/-- Where a text stands after one more character. -/
def Quotation.next : Quotation → Char → Quotation
  | .outside, '"' => .inside
  | .outside, _ => .outside
  | .inside, '"' => .outside
  | .inside, '\\' => .escaped
  | .inside, _ => .inside
  | .escaped, _ => .inside

/-- Where a text ends with regard to string literals. -/
def quotation (text : List Char) : Quotation :=
  text.foldl Quotation.next .outside

/-- Whether a comment begins somewhere outside of string literals. -/
def HasComment (text : List Char) : Prop :=
  ∃ before after, quotation before = .outside ∧
    (text = before ++ '/' :: '/' :: after ∨ text = before ++ '/' :: '*' :: after)

/-- Whether a comma outside of string literals has only white space before a closing bracket. -/
def HasExtraComma (text : List Char) : Prop :=
  ∃ before blanks bracket after, quotation before = .outside ∧
    (∀ blank ∈ blanks, Text.isBlank blank) ∧ (bracket = ']' ∨ bracket = '\x7d') ∧
    text = before ++ ',' :: (blanks ++ bracket :: after)

theorem quotation_append (text other : List Char) :
    quotation (text ++ other) = other.foldl Quotation.next (quotation text) := by
  simp [quotation]

theorem Quotation.next_outside {character : Char} (notQuote : character ≠ '"') :
    Quotation.outside.next character = .outside := by
  unfold Quotation.next
  split <;> simp_all

theorem Quotation.next_inside {character : Char} (notQuote : character ≠ '"')
    (notBackslash : character ≠ '\\') : Quotation.inside.next character = .inside := by
  unfold Quotation.next
  split <;> simp_all

/-- If a comma with blanks after it ends outside of string literals, it stands outside of them. -/
theorem quotation_of_comma {before blanks : List Char}
    (areBlank : ∀ blank ∈ blanks, Text.isBlank blank)
    (outside : quotation (before ++ ',' :: blanks) = .outside) : quotation before = .outside := by
  have stays : ∀ blanks : List Char, (∀ blank ∈ blanks, Text.isBlank blank) →
      blanks.foldl Quotation.next .inside = .inside := by
    intro blanks areBlank
    induction blanks with
    | nil => rfl
    | cons blank blanks ih =>
        simp only [List.mem_cons, forall_eq_or_imp] at areBlank
        rw [List.foldl_cons, Quotation.next_inside, ih areBlank.2]
        all_goals
          rintro rfl
          exact absurd areBlank.1 (by decide)
  rw [quotation_append, List.foldl_cons] at outside
  cases isState : quotation before with
  | outside => rfl
  | inside | escaped =>
      rw [isState] at outside
      exact absurd ((stays blanks areBlank).symm.trans outside) (by decide)

theorem close_reverse {before rest : List Char} {bracket : Char}
    (isBracket : bracket = ']' ∨ bracket = '\x7d') (outside : quotation before = .outside)
    (noExtra : ¬HasExtraComma (before ++ bracket :: rest)) :
    close bracket before.reverse = bracket :: before.reverse := by
  apply close_of_settled
  intro endsInComma
  rcases isTail : before.reverse.dropWhile Text.isBlank with _ | ⟨comma, earlier⟩
  · simp [isTail] at endsInComma
  · have isComma : comma = ',' := by simpa [isTail] using endsInComma
    subst isComma
    let blanks := before.reverse.takeWhile Text.isBlank
    have areBlank : ∀ blank ∈ blanks.reverse, Text.isBlank blank := by
      intro blank blankMem
      exact List.mem_takeWhile_imp (List.mem_reverse.1 blankMem)
    have split : before = earlier.reverse ++ ',' :: blanks.reverse := by
      have whole : blanks ++ before.reverse.dropWhile Text.isBlank = before.reverse :=
        List.takeWhile_append_dropWhile
      rw [isTail] at whole
      simpa using (congrArg List.reverse whole).symm
    refine noExtra ⟨earlier.reverse, blanks.reverse, bracket, rest, ?_, areBlank, isBracket, ?_⟩
    · exact quotation_of_comma areBlank (split ▸ outside)
    · simp [split]

/-- Outside of string literals a character is copied unless it opens a literal, opens a comment
or closes a bracket right after a comma. -/
theorem stripCode_cons_reverse {before rest : List Char} {character : Char}
    (notQuote : character ≠ '"') (outside : quotation before = .outside)
    (noComment : ¬HasComment (before ++ character :: rest))
    (noExtra : ¬HasExtraComma (before ++ character :: rest)) :
    stripCode before.reverse (character :: rest) =
      stripCode (character :: before.reverse) rest := by
  rw [stripCode]
  · split
    case isTrue isBracket => rw [close_reverse isBracket outside noExtra]
    case isFalse => rfl
  · exact notQuote
  · rintro after rfl rfl
    exact noComment ⟨before, after, outside, .inl rfl⟩
  · rintro after rfl rfl
    exact noComment ⟨before, after, outside, .inr rfl⟩

/--
Without comments and extra commas the scanner only ever copies, from any point of the text
on, whether that point is outside of string literals or inside of one. By the length of the
rest, as a backslash takes the character after it along.
-/
theorem strip_eq_append (rest before : List Char) (noComment : ¬HasComment (before ++ rest))
    (noExtra : ¬HasExtraComma (before ++ rest)) :
    (quotation before = .outside → stripCode before.reverse rest = (before ++ rest).reverse) ∧
    (quotation before = .inside → stripString before.reverse rest = (before ++ rest).reverse) := by
  induction isLength : rest.length using Nat.strong_induction_on generalizing rest before with
  | _ length ih =>
  cases rest with
  | nil => simp [stripCode, stripString]
  | cons character rest =>
      have next : quotation (before ++ [character]) = (quotation before).next character := by
        simp [quotation_append]
      obtain ⟨code, literal⟩ := ih rest.length (by simp [← isLength]) rest (before ++ [character])
        (by simpa using noComment) (by simpa using noExtra) rfl
      simp only [List.reverse_append, List.reverse_singleton, List.singleton_append, next,
        List.append_assoc] at code literal ⊢
      refine ⟨fun outside => ?_, fun inside => ?_⟩
      · by_cases isQuote : character = '"'
        · subst isQuote
          simpa [stripCode] using literal (by rw [outside]; rfl)
        · rw [stripCode_cons_reverse isQuote outside noComment noExtra]
          exact code (by rw [outside, Quotation.next_outside isQuote])
      · by_cases isQuote : character = '"'
        · subst isQuote
          simpa [stripString] using code (by rw [inside]; rfl)
        by_cases isBackslash : character = '\\'
        · subst isBackslash
          cases rest with
          | nil => simp [stripString]
          | cons escaped rest =>
              have escapes : quotation (before ++ ['\\', escaped]) = .inside := by
                simp [quotation_append, inside, Quotation.next]
              have copied := (ih rest.length (by grind) rest
                (before ++ ['\\', escaped]) (by simpa using noComment)
                (by simpa using noExtra) rfl).2 escapes
              simpa [stripString] using copied
        · rw [stripString]
          · exact literal (by rw [inside, Quotation.next_inside isQuote isBackslash])
          · exact fun _ _ isBackslash' => absurd isBackslash' isBackslash
          · exact isQuote

/-- What is left of a text spells the tokens of its value, each as it was spelled before. -/
theorem spells_withoutComments {json : Json} {loose : List Token} {text : String}
    (wellFormed : json.IsWellFormed) (extraCommas : ExtraCommas json.tokens loose)
    (spells : SpellsWithComments loose text.toList) :
    SpellsPlainly json.tokens (withoutComments text).toList := by
  have looseWellFormed : ∀ token ∈ loose, token.IsWellFormed := by
    intro token tokenMem
    rcases extraCommas.eq_comma_or_mem token tokenMem with rfl | strictMem
    · trivial
    · exact wellFormed token strictMem
  have settled : Settled [] := by simp [Settled]
  rcases (leaves_withoutExtraCommas spells looseWellFormed).1 [] (.inl settled) with
    ⟨kept, leaves, spellsKept⟩
  rw [extraCommas.withoutExtraCommas_eq (isChain_tokens json)] at spellsKept
  have isKept : (withoutComments text).toList = kept := by simp [withoutComments, leaves]
  rwa [isKept]

theorem isGap_of_isWhite {filling : List Char} (isWhite : IsWhite filling) : IsGap filling := by
  induction filling with
  | nil => exact .nil
  | cons character filling ih =>
      simp only [IsWhite, List.mem_cons, forall_eq_or_imp] at isWhite
      exact .space isWhite.1 (ih isWhite.2)

theorem Spells.withComments {tokens : List Token} {text : List Char}
    (spells : SpellsPlainly tokens text) : SpellsWithComments tokens text := by
  induction spells with
  | nil isLast => exact .nil (.gap (isGap_of_isWhite isLast))
  | cons isGap _ ih => exact .cons (isGap_of_isWhite isGap) ih

/-- A value that is written line by line reads back where comments are allowed, too. -/
theorem parse?_withoutComments_pretty {json : Json} (wellFormed : json.IsWellFormed) :
    parse? (withoutComments (String.ofList (json.pretty 0))) = some json := by
  have spells : SpellsPlainly json.tokens (String.ofList (json.pretty 0)).toList := by
    simpa using spells_pretty json 0
  exact (parse?_of_spells wellFormed
    (spells_withoutComments wellFormed (.refl json.tokens) spells.withComments)).2

/-- Taking comments and extra commas out keeps the document: what is left of a spelling of a JSON
value has the tokens of the value, each spelled as it was, and so reads as the value. A text
without comments and extra commas, JSON or not, stays as it is. -/
theorem withoutComments_faithful :
    (∀ (json : Json) (loose : List Token) (text : String), json.IsWellFormed →
      ExtraCommas json.tokens loose → SpellsWithComments loose text.toList →
      SpellsPlainly json.tokens (withoutComments text).toList ∧
      tokens? (withoutComments text).toList = some json.tokens ∧
      parse? (withoutComments text) = some json) ∧
    ∀ text : String, ¬HasComment text.toList → ¬HasExtraComma text.toList →
      withoutComments text = text := by
  refine ⟨fun json loose text wellFormed extraCommas spells => ?_,
    fun text noComment noExtra => ?_⟩
  · have spellsKept := spells_withoutComments wellFormed extraCommas spells
    exact ⟨spellsKept, parse?_of_spells wellFormed spellsKept⟩
  · have copied := (strip_eq_append text.toList [] noComment noExtra).1 rfl
    simpa [withoutComments] using congrArg (fun text => String.ofList text.reverse) copied

/-- The spelling `["//",/**/]` has something that looks like a comment and a comment, and a comma
too many. In `[",]"` the comma belongs to the text. -/
theorem withoutComments_faithful_list :
    (SpellsWithComments [.openBracket, .string ['/', '/'], .comma, .closeBracket]
        "[\"//\",/**/]".toList ∧
      parse? (withoutComments "[\"//\",/**/]") = some (.array [.string ['/', '/']])) ∧
    (¬HasComment "[\",]\"".toList ∧ ¬HasExtraComma "[\",]\"".toList ∧
      withoutComments "[\",]\"" = "[\",]\"") := by
  have wellFormed : (Json.array [.string ['/', '/']]).IsWellFormed := by
    have content : IsContent ['/', '/'] :=
      .plain (by decide) (by decide) (by decide) (.plain (by decide) (by decide) (by decide) .nil)
    simpa [IsWellFormed, tokens, itemTokens, Token.IsWellFormed] using content
  have extraCommas : ExtraCommas (Json.array [.string ['/', '/']]).tokens
      [.openBracket, .string ['/', '/'], .comma, .closeBracket] :=
    .keep (.insert rfl rfl (.keep .nil))
  have spells : SpellsWithComments [.openBracket, .string ['/', '/'], .comma, .closeBracket]
      "[\"//\",/**/]".toList := by
    have comment : IsGap ['/', '*', '*', '/'] := @IsGap.blockComment [] [] (by decide) .nil
    exact .cons .nil (.cons .nil (.cons .nil (.cons comment (.nil (IsLastGap.gap .nil)))))
  have noComment : ¬HasComment "[\",]\"".toList := by
    rintro ⟨before, after, -, same | same⟩ <;> simpa using congrArg ('/' ∈ ·) same
  have noExtra : ¬HasExtraComma "[\",]\"".toList := by
    rintro ⟨before, blanks, bracket, after, outside, -, -, same⟩
    have isBefore : before = ['[', '"'] := by
      simp [List.cons_eq_append_iff] at same
      exact same.1
    subst isBefore
    exact absurd outside (by decide)
  exact ⟨⟨spells, (withoutComments_faithful.1 _ _ _ wellFormed extraCommas spells).2.2⟩,
    noComment, noExtra, withoutComments_faithful.2 _ noComment noExtra⟩

end CallHierarchy.Json
