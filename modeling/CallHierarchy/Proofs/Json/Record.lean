import CallHierarchy.Json.Reader
import CallHierarchy.Proofs.Json.Value
import CallHierarchy.Proofs.Table

/-!
# Texts and records in JSON

A text survives being escaped and read again, whatever characters it has. Lists of
texts, the members of an object and tables with distinct keys follow from that.
-/

namespace CallHierarchy.Json

/-! ### Texts -/

theorem hexValue?_hexDigit :
    ∀ {value : Nat}, value < 16 → hexValue? (hexDigit value) = some value := by
  decide

/--
A character is written as itself, as a letter after a backslash, or by its code.
In each case the content is allowed inside of quotes and leads back to the character.
-/
theorem escapeCharacter_cases (character : Char) :
    (escapeCharacter character = [character] ∧ 0x20 ≤ character.toNat ∧ character ≠ '"' ∧
      character ≠ '\\') ∨
    (∃ letter ∈ ['"', '\\', '/', 'b', 'f', 'n', 'r', 't'],
      escapeCharacter character = ['\\', letter] ∧ unescapeLetter? letter = some character) ∨
    (character.toNat < 0x20 ∧ ∃ third fourth, (hexValue? third).isSome ∧ (hexValue? fourth).isSome ∧
      escapeCharacter character = ['\\', 'u', '0', '0', third, fourth] ∧
      codeUnit? '0' '0' third fourth = some character.toNat) := by
  unfold escapeCharacter
  split
  case h_8 notQuote notBackslash _ _ _ _ _ =>
    by_cases isControl : character.toNat < 0x20
    · have third : hexValue? (hexDigit (character.toNat / 16)) = some (character.toNat / 16) :=
        hexValue?_hexDigit (by omega)
      have fourth : hexValue? (hexDigit (character.toNat % 16)) = some (character.toNat % 16) :=
        hexValue?_hexDigit (by omega)
      have zero : hexValue? '0' = some 0 := by decide
      refine .inr (.inr ⟨isControl, _, _, by simp [third], by simp [fourth], if_pos isControl, ?_⟩)
      simp only [codeUnit?, zero, third, fourth, Option.bind_eq_bind, Option.bind_some,
        Option.pure_def, Option.some.injEq]
      omega
    · exact .inl ⟨if_neg isControl, by omega, notQuote, notBackslash⟩
  all_goals exact .inr (.inl ⟨_, by decide, rfl, rfl⟩)

theorem escape_cons (character : Char) (text : List Char) :
    escape (character :: text) = escapeCharacter character ++ escape text := by
  simp [escape]

theorem isContent_escape (text : List Char) : IsContent (escape text) := by
  induction text with
  | nil => exact .nil
  | cons character text ih =>
      rw [escape_cons]
      rcases escapeCharacter_cases character with ⟨isPlain, printable, notQuote, notBackslash⟩ |
        ⟨letter, isLetter, isEscaped, -⟩ | ⟨-, third, fourth, isThird, isFourth, isCoded, -⟩
      · simpa [isPlain] using IsContent.plain printable notQuote notBackslash ih
      · simpa [isEscaped] using IsContent.letter isLetter ih
      · have zero : (hexValue? '0').isSome := by decide
        rw [isCoded]
        exact .unicode (by simp [zero, isThird, isFourth]) ih

theorem unescape?_escape (text : List Char) : unescape? (escape text) = some text := by
  induction text with
  | nil => simp [escape, unescape?]
  | cons character text ih =>
      rw [escape_cons]
      rcases escapeCharacter_cases character with ⟨isPlain, -, -, notBackslash⟩ |
        ⟨letter, isLetter, isEscaped, isRead⟩ | ⟨isControl, third, fourth, -, -, isCoded, isRead⟩
      · rw [isPlain, List.singleton_append, unescape?, if_neg notBackslash, ih, Option.map_some]
        all_goals simp [notBackslash]
      · have notCode : letter ≠ 'u' := by
          rintro rfl
          simp at isLetter
        rw [isEscaped, List.cons_append, List.singleton_append, unescape?, isRead, ih]
        · rfl
        · simp [notCode]
      · have notHigh : isHighSurrogate character.toNat = false := by
          simp [isHighSurrogate]
          omega
        have notLow : isLowSurrogate character.toNat = false := by
          simp [isLowSurrogate]
          omega
        rw [isCoded]
        simp [unescape?, isRead, notHigh, notLow, ih]

theorem text?_ofText (text : String) : (ofText text).text? = some text := by
  simp [ofText, text?, unescape?_escape]

theorem optionalText?_map (text : Option String) :
    ((text.map ofText).getD .null).optionalText? = some text := by
  cases text with
  | none => rfl
  | some text =>
      have isRead := text?_ofText text
      simp only [ofText] at isRead
      simp [ofText, optionalText?, isRead]

/-! ### Arrays and objects -/

/-- Items that are read back one by one are read back together. -/
theorem mapM_map_of_forall {α β : Type} {read : β → Option α} {write : α → β} {items : List α}
    (reads : ∀ item ∈ items, read (write item) = some item) :
    (items.map write).mapM read = some items := by
  induction items with
  | nil => rfl
  | cons item items ih =>
      simp only [List.mem_cons, forall_eq_or_imp] at reads
      simp [reads.1, ih reads.2]

theorem texts?_array (depth : Nat) (texts : List String) :
    (Json.array (texts.map ofText)).texts? (depth + 1) = some texts := by
  simp only [texts?, items?, Option.bind_some]
  exact mapM_map_of_forall fun text _ => text?_ofText text

/-- The object with the given members, which are named by texts. -/
def ofMembers (members : List (String × Json)) : Json :=
  .object (members.map fun member => (escape member.1.toList, member.2))

theorem keyed?_map (members : List (String × Json)) :
    keyed? (members.map fun member => (escape member.1.toList, member.2)) = some members := by
  apply mapM_map_of_forall
  simp [unescape?_escape]

theorem record?_ofMembers (members : List (String × Json)) (shape : RecordShape) (depth : Nat) :
    (ofMembers members).record? shape (depth + 1) =
      (shape.fields.mapM (field? members)).map fun values => (depth, values) := by
  simp [ofMembers, record?, keyed?_map]

/-- A table with distinct keys is read back entry by entry. -/
theorem dictionary?_ofMembers {α : Type} {depth : Nat} {read : Nat → Json → Option α}
    {write : α → Json} {entries : List (String × α)} (distinct : (entries.map (·.1)).Nodup)
    (reads : ∀ entry ∈ entries, read depth (write entry.2) = some entry.2) :
    (ofMembers (entries.map fun entry => (entry.1, write entry.2))).dictionary? (depth + 1) read =
      some entries := by
  have values : readMembers? (read depth) (entries.map fun entry => (entry.1, write entry.2)) =
      some entries := by
    apply mapM_map_of_forall
    intro entry entryMem
    simp [reads entry entryMem]
  simp only [dictionary?, members?, ofMembers, keyed?_map, Option.map_some, Option.bind_some,
    values, Table.ofEntries_of_nodup distinct]

/-! ### Well-formed values -/

theorem isWellFormed_ofText (text : String) : (ofText text).IsWellFormed := by
  simpa [IsWellFormed, ofText, tokens, Token.IsWellFormed] using isContent_escape text.toList

theorem mem_itemTokens {items : List Json} {token : Token} (tokenMem : token ∈ itemTokens items) :
    token = .comma ∨ ∃ item ∈ items, token ∈ item.tokens := by
  cases items with
  | nil => simp [itemTokens] at tokenMem
  | cons item items =>
      simp only [itemTokens_cons, List.mem_append, List.mem_flatMap, List.mem_cons] at tokenMem
      rcases tokenMem with inFirst | ⟨other, otherMem, rfl | inOther⟩
      · exact .inr ⟨item, by simp, inFirst⟩
      · exact .inl rfl
      · exact .inr ⟨other, by simp [otherMem], inOther⟩

theorem isWellFormed_array {items : List Json} (wellFormed : ∀ item ∈ items, item.IsWellFormed) :
    (Json.array items).IsWellFormed := by
  intro token tokenMem
  simp only [tokens, List.cons_append, List.mem_cons, List.mem_append, List.not_mem_nil,
    or_false] at tokenMem
  rcases tokenMem with rfl | inside | rfl
  · trivial
  · rcases mem_itemTokens inside with rfl | ⟨item, itemMem, inItem⟩
    · trivial
    · exact wellFormed item itemMem token inItem
  · trivial

theorem mem_memberTokens {members : List (List Char × Json)} {token : Token}
    (tokenMem : token ∈ memberTokens members) : token = .comma ∨ token = .colon ∨
      ∃ member ∈ members, token = .string member.1 ∨ token ∈ member.2.tokens := by
  cases members with
  | nil => simp [memberTokens] at tokenMem
  | cons member members =>
      simp only [memberTokens_cons, List.mem_append, List.mem_flatMap, List.mem_cons] at tokenMem
      rcases tokenMem with (isKey | isColon | inFirst) |
        ⟨other, otherMem, isComma | isKey | isColon | inOther⟩
      · exact .inr (.inr ⟨member, by simp, .inl isKey⟩)
      · exact .inr (.inl isColon)
      · exact .inr (.inr ⟨member, by simp, .inr inFirst⟩)
      · exact .inl isComma
      · exact .inr (.inr ⟨other, by simp [otherMem], .inl isKey⟩)
      · exact .inr (.inl isColon)
      · exact .inr (.inr ⟨other, by simp [otherMem], .inr inOther⟩)

theorem isWellFormed_ofMembers {members : List (String × Json)}
    (wellFormed : ∀ member ∈ members, member.2.IsWellFormed) :
    (ofMembers members).IsWellFormed := by
  intro token tokenMem
  simp only [ofMembers, tokens, List.cons_append, List.mem_cons, List.mem_append, List.not_mem_nil,
    or_false] at tokenMem
  rcases tokenMem with rfl | inside | rfl
  · trivial
  · rcases mem_memberTokens inside with rfl | rfl | ⟨member, memberMem, inMember⟩
    · trivial
    · trivial
    · rcases List.mem_map.1 memberMem with ⟨named, namedMem, rfl⟩
      rcases inMember with rfl | inValue
      · exact isContent_escape named.1.toList
      · exact wellFormed named namedMem token inValue
  · trivial

end CallHierarchy.Json
