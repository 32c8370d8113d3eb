import CallHierarchy.Import.Resolution
import CallHierarchy.Proofs.Run.Entries
import Mathlib.Data.List.TakeWhile
import Mathlib.Data.String.Basic

/-!
# Imports as a search for the first candidate

An import is a nested search that stops at the first file it meets. The paths that it
looks at, one after the other, are the *candidates* of the import. They are fixed before
any file is looked at, and the import leads to the file at the first of them where there
is a file. A further file can thus take an import over, but cannot send it to another
file.

What the patterns of a configuration contribute to the list is said by `Captures`: a
text stands for the `*` of a pattern if the specifier is that text between the two
sides of the pattern. Lengths and offsets may be counted in characters or in bytes,
since the sides of a pattern end where characters end.
-/

namespace CallHierarchy

namespace Import

/-! ### Patterns -/

/--
Whether a text is what the first `*` of a pattern stands for in a specifier. A pattern without
a `*` stands for itself.
-/
def Captures (pattern specifier captured : String) : Prop :=
  (∃ before after, '*' ∉ before.toList ∧ pattern = before ++ "*" ++ after ∧
    specifier = before ++ captured ++ after) ∨
  ('*' ∉ pattern.toList ∧ specifier = pattern ∧ captured = "")

/-- Whether a text is a target with another text in the place of its first `*`. -/
def Replaces (captured target replaced : String) : Prop :=
  (∃ before after, '*' ∉ before.toList ∧ target = before ++ "*" ++ after ∧
    replaced = before ++ captured ++ after) ∨
  ('*' ∉ target.toList ∧ replaced = target)

theorem isPlain_of_notMem {text : List Char} (noStar : '*' ∉ text) :
    ∀ character ∈ text, decide (character ≠ '*') := by
  intro character characterMem
  exact decide_eq_true fun isStar => noStar (isStar ▸ characterMem)

theorem splitAtStar?_of_notMem {text : List Char} (noStar : '*' ∉ text) :
    splitAtStar? text = none := by
  simp only [splitAtStar?, List.dropWhile_eq_nil_iff.2 (isPlain_of_notMem noStar)]

theorem splitAtStar?_append {before : List Char} (isFirst : '*' ∉ before) (after : List Char) :
    splitAtStar? (before ++ '*' :: after) = some (before, after) := by
  simp only [splitAtStar?, List.dropWhile_append_of_pos (isPlain_of_notMem isFirst),
    List.takeWhile_append_of_pos (isPlain_of_notMem isFirst)]
  simp

/-- A text has no `*`, or is split at its first one. -/
theorem splitAtStar?_cases (text : String) :
    ('*' ∉ text.toList ∧ splitAtStar? text.toList = none) ∨
    ∃ before after : String, '*' ∉ before.toList ∧ text = before ++ "*" ++ after ∧
      splitAtStar? text.toList = some (before.toList, after.toList) := by
  by_cases starMem : '*' ∈ text.toList
  · right
    rcases List.eq_append_cons_of_mem starMem with ⟨before, after, isText, isFirst⟩
    refine ⟨String.ofList before, String.ofList after, by simpa using isFirst, ?_, ?_⟩
    · apply String.toList_inj.1
      simpa using isText
    · rw [isText, splitAtStar?_append isFirst, String.toList_ofList, String.toList_ofList]
  · exact .inl ⟨starMem, splitAtStar?_of_notMem starMem⟩

/-- A text has one first `*`. -/
theorem star_inj {before after otherBefore otherAfter : String} (isFirst : '*' ∉ before.toList)
    (isOtherFirst : '*' ∉ otherBefore.toList)
    (same : before ++ "*" ++ after = otherBefore ++ "*" ++ otherAfter) :
    before = otherBefore ∧ after = otherAfter := by
  have split := splitAtStar?_append isFirst after.toList
  have otherSplit := splitAtStar?_append isOtherFirst otherAfter.toList
  have sameText : before.toList ++ '*' :: after.toList =
      otherBefore.toList ++ '*' :: otherAfter.toList := by
    simpa using congrArg String.toList same
  rw [sameText, otherSplit, Option.some.injEq, Prod.mk.injEq] at split
  exact ⟨String.toList_inj.1 split.1.symm, String.toList_inj.1 split.2.symm⟩

theorem replaces_substitute (target captured : String) :
    Replaces captured target (substitute target captured) := by
  unfold substitute
  rcases splitAtStar?_cases target with ⟨noStar, isSplit⟩ | ⟨before, after, isFirst, rfl, isSplit⟩
  · rw [isSplit]
    exact .inr ⟨noStar, rfl⟩
  · rw [isSplit]
    refine .inl ⟨before, after, isFirst, rfl, ?_⟩
    apply String.toList_inj.1
    simp

section

variable {weight : List Char → Nat}
  (additive : ∀ left right, weight (left ++ right) = weight left + weight right)
  (positive : ∀ text, text ≠ [] → 0 < weight text)

include additive positive

/--
Two sides that together do not outweigh a text stand at its ends without overlapping. Texts
may be weighed by their characters or by their bytes.
-/
theorem sides_iff (before after text : String) :
    (weight before.toList + weight after.toList ≤ weight text.toList ∧
      before.toList.isPrefixOf text.toList ∧ after.toList.isSuffixOf text.toList) ↔
    ∃ middle, text = before ++ middle ++ after := by
  rw [List.isPrefixOf_iff_prefix, List.isSuffixOf_iff_suffix]
  constructor
  · rintro ⟨fits, ⟨rest, isText⟩, isSuffix⟩
    rw [← isText] at fits isSuffix
    rw [additive] at fits
    suffices ∃ middle, rest = middle ++ after.toList by
      rcases this with ⟨middle, rfl⟩
      refine ⟨String.ofList middle, String.toList_inj.1 ?_⟩
      simp [← isText]
    rcases List.suffix_or_suffix_of_suffix isSuffix (List.suffix_append before.toList rest)
      with ⟨middle, isRest⟩ | ⟨overlap, isAfter⟩
    · exact ⟨middle, isRest.symm⟩
    · rw [← isAfter, additive] at fits
      have isEmpty : overlap = [] := by
        by_contra isFull
        have heavy := positive overlap isFull
        omega
      exact ⟨[], by simp [← isAfter, isEmpty]⟩
  · rintro ⟨middle, rfl⟩
    simp only [String.toList_append, additive, List.append_assoc]
    refine ⟨by omega, List.prefix_append _ _, ?_⟩
    rw [← List.append_assoc]
    exact List.suffix_append _ _

end

/-- A pattern with a `*` captures what is between its sides, if they are the ends of the text. -/
theorem capture?_star_cases {before : String} (isFirst : '*' ∉ before.toList)
    (after specifier : String) :
    (∃ middle, specifier = before ++ middle ++ after ∧
      capture? (before ++ "*" ++ after) specifier = some middle) ∨
    (¬(∃ middle, specifier = before ++ middle ++ after) ∧
      capture? (before ++ "*" ++ after) specifier = none) := by
  have isSplit : splitAtStar? (before ++ "*" ++ after).toList =
      some (before.toList, after.toList) := by
    simpa using splitAtStar?_append isFirst after.toList
  have fits := sides_iff (fun _ _ => List.length_append) (fun _ => List.length_pos_of_ne_nil)
    before after specifier
  simp only [capture?, isSplit]
  by_cases isMatch : ∃ middle, specifier = before ++ middle ++ after
  · left
    rw [if_pos (fits.2 isMatch)]
    rcases isMatch with ⟨middle, rfl⟩
    refine ⟨middle, rfl, ?_⟩
    have count : (before ++ middle ++ after).toList.length - before.toList.length -
        after.toList.length = middle.toList.length := by
      simp only [String.toList_append, List.length_append]
      omega
    rw [count]
    simp
  · exact .inr ⟨isMatch, if_neg (mt fits.1 isMatch)⟩

theorem capture?_of_noStar {pattern : String} (noStar : '*' ∉ pattern.toList)
    (specifier : String) :
    capture? pattern specifier = if pattern = specifier then some "" else none := by
  simp only [capture?, splitAtStar?_of_notMem noStar]

theorem capture?_eq_some_iff {pattern specifier captured : String} :
    capture? pattern specifier = some captured ↔ Captures pattern specifier captured := by
  rcases splitAtStar?_cases pattern with ⟨noStar, -⟩ | ⟨before, after, isFirst, rfl, -⟩
  · have notSplit : ¬∃ before after, '*' ∉ before.toList ∧ pattern = before ++ "*" ++ after ∧
        specifier = before ++ captured ++ after := by
      rintro ⟨before, after, -, rfl, -⟩
      simp at noStar
    rw [capture?_of_noStar noStar, Captures, or_iff_right notSplit]
    simp [noStar, eq_comm]
  · have isMatch : Captures (before ++ "*" ++ after) specifier captured ↔
        specifier = before ++ captured ++ after := by
      constructor
      · rintro (⟨otherBefore, otherAfter, isOtherFirst, same, rfl⟩ | ⟨noStar, -⟩)
        · rw [(star_inj isFirst isOtherFirst same).1, (star_inj isFirst isOtherFirst same).2]
        · simp at noStar
      · exact fun isSpecifier => .inl ⟨before, after, isFirst, rfl, isSpecifier⟩
    rw [isMatch]
    rcases capture?_star_cases isFirst after specifier
      with ⟨middle, rfl, isCaptured⟩ | ⟨noMatch, isCaptured⟩
    · rw [isCaptured, Option.some.injEq, String.append_left_inj, String.append_right_inj]
    · rw [isCaptured]
      exact ⟨nofun, fun isSpecifier => absurd ⟨captured, isSpecifier⟩ noMatch⟩

/-! ### Bytes -/

/--
The text between two byte offsets. There is none unless the offsets are in order and stand
between characters.
-/
def slice? (text : String) (start stop : Nat) : Option String :=
  if start ≤ stop ∧ String.Pos.Raw.isValid text ⟨start⟩ ∧ String.Pos.Raw.isValid text ⟨stop⟩ then
    some (String.Pos.Raw.extract text ⟨start⟩ ⟨stop⟩)
  else none

theorem slice?_append (before middle after : String) :
    slice? (before ++ middle ++ after) before.utf8ByteSize
      ((before ++ middle ++ after).utf8ByteSize - after.utf8ByteSize) = some middle := by
  have stop : (before ++ middle ++ after).utf8ByteSize - after.utf8ByteSize =
      (before ++ middle).utf8ByteSize := by
    simp only [String.utf8ByteSize_append]
    omega
  have startsAt : String.Pos.Raw.IsValid (before ++ middle ++ after) ⟨before.utf8ByteSize⟩ :=
    String.Pos.Raw.isValid_iff_exists_append.2 ⟨before, middle ++ after, String.append_assoc, rfl⟩
  have stopsAt : String.Pos.Raw.IsValid (before ++ middle ++ after)
      ⟨(before ++ middle).utf8ByteSize⟩ :=
    String.Pos.Raw.isValid_iff_exists_append.2 ⟨before ++ middle, after, rfl, rfl⟩
  have extracted : String.Pos.Raw.extract (before ++ middle ++ after) ⟨before.utf8ByteSize⟩
      ⟨(before ++ middle).utf8ByteSize⟩ = middle := by
    simpa [String.utf8Len_toList, String.append_assoc] using
      String.extract_of_valid before.toList middle.toList after.toList
  rw [slice?, stop, if_pos ⟨by simp, String.Pos.Raw.isValid_eq_true_iff.2 startsAt,
    String.Pos.Raw.isValid_eq_true_iff.2 stopsAt⟩, extracted]

/--
What the `*` of a pattern stands for, with lengths and offsets counted in bytes. Nothing comes
out if a slice fails.
-/
def captureBySlicing? (pattern specifier : String) : Option (Option String) :=
  match splitAtStar? pattern.toList with
  | none => some (if pattern = specifier then some "" else none)
  | some (before, after) =>
    if String.utf8Len before + String.utf8Len after ≤ specifier.utf8ByteSize ∧
      before.isPrefixOf specifier.toList ∧ after.isSuffixOf specifier.toList
    then (slice? specifier (String.utf8Len before)
      (specifier.utf8ByteSize - String.utf8Len after)).map some
    else some none

/-- The slice never fails, and is what the pattern captures. -/
theorem captureBySlicing?_eq (pattern specifier : String) :
    captureBySlicing? pattern specifier = some (capture? pattern specifier) := by
  rcases splitAtStar?_cases pattern with ⟨noStar, isSplit⟩ | ⟨before, after, isFirst, rfl, isSplit⟩
  · simp only [captureBySlicing?, isSplit, capture?_of_noStar noStar]
  · have fits := sides_iff (fun left right => String.utf8Len_append left right)
      (fun _ isFull => Nat.pos_of_ne_zero (mt String.utf8Len_eq_zero.1 isFull))
      before after specifier
    simp only [String.utf8Len_toList] at fits
    simp only [captureBySlicing?, isSplit, String.utf8Len_toList]
    rcases capture?_star_cases isFirst after specifier
      with ⟨middle, rfl, isCaptured⟩ | ⟨noMatch, isCaptured⟩
    · rw [if_pos (fits.2 ⟨middle, rfl⟩), slice?_append, isCaptured]
      rfl
    · rw [if_neg (mt fits.1 noMatch), isCaptured]

/-! ### Candidates -/

theorem dropEnding?_eq_some_iff {text ending stem : String} :
    dropEnding? text ending = some stem ↔ text = stem ++ ending := by
  unfold dropEnding?
  constructor
  · intro isStem
    split at isStem
    next isEnding =>
      rcases List.isSuffixOf_iff_suffix.1 isEnding with ⟨before, isText⟩
      cases isStem
      apply String.toList_inj.1
      rw [String.toList_append, String.toList_ofList, ← String.length_toList,
        ← String.length_toList, ← isText]
      simp
    · cases isStem
  · rintro rfl
    rw [if_pos (by simp), ← String.length_toList, ← String.length_toList]
    simp

/-- Two texts that end differently are not one text. -/
theorem dropEnding?_append {stem ending other : String}
    (apart : ¬(ending.toList <:+ other.toList ∨ other.toList <:+ ending.toList)) :
    dropEnding? (stem ++ ending) other = none := by
  unfold dropEnding?
  rw [if_neg]
  rw [List.isSuffixOf_iff_suffix, String.toList_append]
  exact fun isEnding => apart
    (List.suffix_or_suffix_of_suffix (List.suffix_append stem.toList ending.toList) isEnding)

/-- The sources that a file of the given path can be compiled from. -/
def sourcesOf (text : String) : List String :=
  ((dropEnding? text ".js").toList.flatMap fun stem => [stem ++ ".ts", stem ++ ".tsx"]) ++
  ((dropEnding? text ".jsx").toList.flatMap fun stem => [stem ++ ".tsx"]) ++
  ((dropEnding? text ".mjs").toList.flatMap fun stem => [stem ++ ".mts"]) ++
  ((dropEnding? text ".cjs").toList.flatMap fun stem => [stem ++ ".cts"])

/-- Whether the sources of a path are found by its ending. -/
def SourcesByEnding (sourcesOf : String → List String) : Prop :=
  (∀ stem, sourcesOf (stem ++ ".js") = [stem ++ ".ts", stem ++ ".tsx"]) ∧
  (∀ stem, sourcesOf (stem ++ ".jsx") = [stem ++ ".tsx"]) ∧
  (∀ stem, sourcesOf (stem ++ ".mjs") = [stem ++ ".mts"]) ∧
  (∀ stem, sourcesOf (stem ++ ".cjs") = [stem ++ ".cts"]) ∧
  ∀ text, (∀ stem, text ≠ stem ++ ".js" ∧ text ≠ stem ++ ".jsx" ∧ text ≠ stem ++ ".mjs" ∧
    text ≠ stem ++ ".cjs") → sourcesOf text = []

theorem sourcesByEnding_sourcesOf : SourcesByEnding sourcesOf := by
  have itself (stem ending : String) : dropEnding? (stem ++ ending) ending = some stem :=
    dropEnding?_eq_some_iff.2 rfl
  refine ⟨fun stem => ?_, fun stem => ?_, fun stem => ?_, fun stem => ?_, fun text other => ?_⟩
  · simp [sourcesOf, itself, @dropEnding?_append stem ".js" ".jsx" (by decide),
      @dropEnding?_append stem ".js" ".mjs" (by decide),
      @dropEnding?_append stem ".js" ".cjs" (by decide)]
  · simp [sourcesOf, itself, @dropEnding?_append stem ".jsx" ".js" (by decide),
      @dropEnding?_append stem ".jsx" ".mjs" (by decide),
      @dropEnding?_append stem ".jsx" ".cjs" (by decide)]
  · simp [sourcesOf, itself, @dropEnding?_append stem ".mjs" ".js" (by decide),
      @dropEnding?_append stem ".mjs" ".jsx" (by decide),
      @dropEnding?_append stem ".mjs" ".cjs" (by decide)]
  · simp [sourcesOf, itself, @dropEnding?_append stem ".cjs" ".js" (by decide),
      @dropEnding?_append stem ".cjs" ".jsx" (by decide),
      @dropEnding?_append stem ".cjs" ".mjs" (by decide)]
  · have none (ending : String) (notEnding : ∀ stem, text ≠ stem ++ ending) :
        dropEnding? text ending = none :=
      Option.eq_none_iff_forall_ne_some.2 fun stem isStem =>
        notEnding stem (dropEnding?_eq_some_iff.1 isStem)
    simp [sourcesOf, none ".js" fun stem => (other stem).1,
      none ".jsx" fun stem => (other stem).2.1, none ".mjs" fun stem => (other stem).2.2.1,
      none ".cjs" fun stem => (other stem).2.2.2]

/-- The paths at which a path is looked for, the first choice first. -/
def probes (workingDirectory path : Path) : List Path :=
  let place := path.normalize workingDirectory
  let extensions := [".ts", ".tsx", ".d.ts", ".js", ".jsx", ".mts", ".cts", ".mjs", ".cjs"]
  [place] ++ extensions.map (fun extension => ⟨place.text ++ extension⟩) ++
    extensions.map (fun extension => place.join ⟨"index" ++ extension⟩) ++
    (sourcesOf place.text).map Path.mk

/-- Whether a specifier is the directory of the importing file or the one above, or starts there. -/
def Relative (specifier : String) : Prop :=
  specifier = "." ∨ specifier = ".." ∨ (∃ rest, specifier = "./" ++ rest) ∨
    ∃ rest, specifier = "../" ++ rest

theorem isPrefixOf_iff {start text : String} :
    start.toList.isPrefixOf text.toList ↔ ∃ rest, text = start ++ rest := by
  rw [List.isPrefixOf_iff_prefix]
  constructor
  · rintro ⟨rest, isText⟩
    refine ⟨String.ofList rest, String.toList_inj.1 ?_⟩
    rw [String.toList_append, String.toList_ofList, isText]
  · rintro ⟨rest, rfl⟩
    rw [String.toList_append]
    exact List.prefix_append _ _

theorem isRelative_iff {specifier : String} : isRelative specifier ↔ Relative specifier := by
  simp only [isRelative, Relative, Bool.or_eq_true, decide_eq_true_eq, isPrefixOf_iff, or_assoc]

theorem isAbsolute_iff {text : String} :
    (⟨text⟩ : Path).isAbsolute ↔ ∃ rest, text = "/" ++ rest := by
  rw [← isPrefixOf_iff, List.isPrefixOf_iff_prefix, Path.isAbsolute]
  cases text.toList with
  | nil => simp
  | cons first rest => simpa using eq_comm

instance (specifier : String) : Decidable (Relative specifier) :=
  decidable_of_iff _ isRelative_iff

/-- The paths that an import of a name gives, by the patterns of a configuration and its base. -/
def namedPlaces (config : Config) (specifier : String) : List Path :=
  (config.pathsBase.toList.flatMap fun base => config.paths.flatMap fun entry =>
    (capture? entry.1 specifier).toList.flatMap fun captured => entry.2.map fun target =>
      base.join ⟨substitute target captured⟩) ++
  config.baseUrl.toList.map fun base => base.join ⟨specifier⟩

/-- The paths that a specifier can stand for, the first choice first. -/
def places (config : Config) (importer : Path) (specifier : String) : List Path :=
  if Relative specifier then
    importer.parent?.toList.map fun directory => directory.join ⟨specifier⟩
  else if (⟨specifier⟩ : Path).isAbsolute then [⟨specifier⟩]
  else namedPlaces config specifier

/-- The paths that an import can lead to, the first choice first. -/
def candidates (workingDirectory : Path) (config : Config) (importer : Path) (specifier : String) :
    List Path :=
  (places config importer specifier).flatMap (probes workingDirectory)

section

variable {specifier : String} (workingDirectory : Path) (config : Config) (importer : Path)

theorem candidates_of_relative (relative : Relative specifier) :
    candidates workingDirectory config importer specifier =
      importer.parent?.toList.flatMap fun directory =>
        probes workingDirectory (directory.join ⟨specifier⟩) := by
  rw [candidates, places, if_pos relative, List.flatMap_map]

theorem candidates_of_absolute (notRelative : ¬Relative specifier)
    (absolute : ∃ rest, specifier = "/" ++ rest) :
    candidates workingDirectory config importer specifier =
      probes workingDirectory ⟨specifier⟩ := by
  rw [candidates, places, if_neg notRelative, if_pos (isAbsolute_iff.2 absolute),
    List.flatMap_singleton]

theorem candidates_of_plain (notRelative : ¬Relative specifier)
    (notAbsolute : ¬∃ rest, specifier = "/" ++ rest) :
    candidates workingDirectory config importer specifier =
      (config.pathsBase.toList.flatMap fun base => config.paths.flatMap fun entry =>
        (capture? entry.1 specifier).toList.flatMap fun captured => entry.2.flatMap fun target =>
          probes workingDirectory (base.join ⟨substitute target captured⟩)) ++
      config.baseUrl.toList.flatMap fun base =>
        probes workingDirectory (base.join ⟨specifier⟩) := by
  rw [candidates, places, if_neg notRelative, if_neg (mt isAbsolute_iff.1 notAbsolute), namedPlaces,
    List.flatMap_append]
  simp only [List.flatMap_assoc, List.flatMap_map]

end

end Import

/-! ### The search -/

theorem findSome?_flatMap {α β γ : Type} (items : List α) (partsOf : α → List β)
    (find : β → Option γ) :
    (items.flatMap partsOf).findSome? find =
      items.findSome? fun item => (partsOf item).findSome? find := by
  rw [← List.head?_filterMap, List.filterMap_flatMap, List.head?_flatMap]
  simp only [List.head?_filterMap]

/-- A search that may be led astray, but is not, finds the same. -/
theorem findSome?_of_ne {α β : Type} {find otherFind : α → Option β} {items : List α} {astray : β}
    (agree : ∀ item ∈ items, otherFind item = find item ∨ otherFind item = some astray)
    (notAstray : items.findSome? otherFind ≠ some astray) :
    items.findSome? otherFind = items.findSome? find := by
  induction items with
  | nil => rfl
  | cons item rest ih =>
      rw [List.forall_mem_cons] at agree
      rw [List.findSome?_cons] at notAstray ⊢
      rcases agree.1 with same | isAstray
      · rw [List.findSome?_cons, same]
        rw [same] at notAstray
        cases isFound : find item with
        | some found => rfl
        | none =>
            rw [isFound] at notAstray
            exact ih agree.2 notAstray
      · rw [isAstray] at notAstray
        exact absurd rfl notAstray

namespace ModuleIndex

theorem file?_eq_lastFor? (index : ModuleIndex) (path : Path) :
    index.file? path = lastFor? index.files path := by
  simp [file?, lastFor?]

/-- A further file takes over its own path and leaves all others. -/
theorem file?_insert (workingDirectory : Path) (config : Config) (before after : List SourceFile)
    (added : SourceFile) (path : Path) :
    (ofFiles workingDirectory config (before ++ added :: after)).file? path =
        (ofFiles workingDirectory config (before ++ after)).file? path ∨
      (ofFiles workingDirectory config (before ++ added :: after)).file? path = some added.id := by
  have single : lastFor? [(added.path.normalize workingDirectory, added.id)] path = none ∨
      lastFor? [(added.path.normalize workingDirectory, added.id)] path = some added.id := by
    by_cases isAdded : added.path.normalize workingDirectory = path
    · exact .inr (by simp [lastFor?, isAdded])
    · exact .inl (by simp [lastFor?, isAdded])
  simp only [file?_eq_lastFor?, ofFiles, List.append_cons before added after, List.map_append,
    List.map_cons, List.map_nil, lastFor?_append]
  generalize lastFor? [(added.path.normalize workingDirectory, added.id)] path = here at single ⊢
  generalize lastFor? (after.map _) path = later
  cases later with
  | some id => exact .inl rfl
  | none =>
      rcases single with rfl | rfl
      · exact .inl rfl
      · exact .inr rfl

section

variable {workingDirectory : Path} {files : List SourceFile}

theorem file?_eq_none_iff {config : Config} {path : Path} :
    (ofFiles workingDirectory config files).file? path = none ↔
      ∀ file ∈ files, file.path.normalize workingDirectory ≠ path := by
  simp [file?, ofFiles]

theorem file?_eq_some_iff (distinct : (files.map (·.path.normalize workingDirectory)).Nodup)
    {config : Config} {path : Path} {id : FileId} :
    (ofFiles workingDirectory config files).file? path = some id ↔
      ∃ file ∈ files, file.path.normalize workingDirectory = path ∧ file.id = id := by
  rw [file?_eq_lastFor?]
  constructor
  · intro isFile
    rcases List.mem_map.1 (mem_of_lastFor? isFile) with ⟨file, fileMem, isPair⟩
    exact ⟨file, fileMem, (Prod.mk.inj isPair).1, (Prod.mk.inj isPair).2⟩
  · rintro ⟨file, fileMem, rfl, rfl⟩
    apply lastFor?_of_mem
    · simpa [ofFiles, Function.comp_def] using distinct
    · exact List.mem_map_of_mem fileMem

end

section

variable (index : ModuleIndex)

theorem findSome?_sourcesOf (text : String) :
    ((Import.sourcesOf text).map Path.mk).findSome? index.file? =
      Import.compiledExtensions.findSome? fun entry =>
        (Import.dropEnding? text entry.1).bind fun stem =>
          entry.2.findSome? fun source => index.file? ⟨stem ++ source⟩ := by
  have each (ending : String) (sources : List String) :
      (((Import.dropEnding? text ending).toList.flatMap fun stem =>
        sources.map (stem ++ ·)).map Path.mk).findSome? index.file? =
      (Import.dropEnding? text ending).bind fun stem =>
        sources.findSome? fun source => index.file? ⟨stem ++ source⟩ := by
    cases Import.dropEnding? text ending with
    | none => rfl
    | some stem => simp [List.findSome?_map, Function.comp_def]
  have js := each ".js" [".ts", ".tsx"]
  have jsx := each ".jsx" [".tsx"]
  have mjs := each ".mjs" [".mts"]
  have cjs := each ".cjs" [".cts"]
  simp only [List.map_cons, List.map_nil] at js jsx mjs cjs
  simp only [Import.sourcesOf, List.map_append, List.findSome?_append, js, jsx, mjs, cjs,
    Import.compiledExtensions, List.findSome?_cons, List.findSome?_nil]
  grind

/-- A path means the file at the first of its probes where there is one. -/
theorem probe?_eq_findSome? (path : Path) :
    index.probe? path = (Import.probes index.workingDirectory path).findSome? index.file? := by
  simp only [probe?, Import.probes, List.findSome?_append, findSome?_sourcesOf,
    List.findSome?_singleton, Option.orElse_eq_orElse, Option.orElse_eq_or, Option.or_assoc]
  simp only [List.findSome?_map]
  rfl

theorem findSome?_probe? (paths : List Path) :
    paths.findSome? index.probe? =
      (paths.flatMap (Import.probes index.workingDirectory)).findSome? index.file? := by
  rw [findSome?_flatMap]
  exact congrArg (List.findSome? · paths) (funext index.probe?_eq_findSome?)

/-- The nested search for an import goes through the candidates of the import. -/
theorem resolve?_eq_findSome? (importer : Path) (specifier : String) :
    index.resolve? importer specifier =
      (Import.candidates index.workingDirectory index.config importer specifier).findSome?
        index.file? := by
  rw [Import.candidates, ← findSome?_probe?]
  simp only [resolve?, Import.places, Import.isRelative_iff]
  split
  · cases importer.parent? <;> simp
  split
  · simp
  · rw [Import.namedPlaces, List.findSome?_append, Option.orElse_eq_orElse, Option.orElse_eq_or]
    congr 1
    · unfold resolveMapped?
      cases index.config.pathsBase with
      | none => rfl
      | some base =>
          simp only [Option.bind_some, Option.toList_some, List.flatMap_singleton,
            findSome?_flatMap]
          congr 1
          funext entry
          cases Import.capture? entry.1 specifier with
          | none => rfl
          | some captured => simp [List.findSome?_map, Function.comp_def]
    · cases index.config.baseUrl <;> simp

end

section

variable {workingDirectory : Path} {config : Config}

theorem resolve?_ofFiles (files : List SourceFile) (importer : Path) (specifier : String) :
    (ofFiles workingDirectory config files).resolve? importer specifier =
      (Import.candidates workingDirectory config importer specifier).findSome?
        (ofFiles workingDirectory config files).file? :=
  resolve?_eq_findSome? _ importer specifier

/-- An import leads to the file at the first candidate where there is one. -/
theorem resolve?_eq_some_iff {files : List SourceFile}
    (distinct : (files.map (·.path.normalize workingDirectory)).Nodup) (importer : Path)
    (specifier : String) (id : FileId) :
    (ofFiles workingDirectory config files).resolve? importer specifier = some id ↔
      ∃ before file after, Import.candidates workingDirectory config importer specifier =
          before ++ file.path.normalize workingDirectory :: after ∧
        file ∈ files ∧ file.id = id ∧
        ∀ path ∈ before, ∀ other ∈ files, other.path.normalize workingDirectory ≠ path := by
  rw [resolve?_ofFiles, List.findSome?_eq_some_iff]
  simp only [file?_eq_some_iff distinct, file?_eq_none_iff]
  constructor
  · rintro ⟨before, _, after, isSplit, ⟨file, fileMem, rfl, isId⟩, absent⟩
    exact ⟨before, file, after, isSplit, fileMem, isId, absent⟩
  · rintro ⟨before, file, after, isSplit, fileMem, isId, absent⟩
    exact ⟨before, _, after, isSplit, ⟨file, fileMem, rfl, isId⟩, absent⟩

theorem resolve?_eq_none_iff (files : List SourceFile) (importer : Path) (specifier : String) :
    (ofFiles workingDirectory config files).resolve? importer specifier = none ↔
      ∀ path ∈ Import.candidates workingDirectory config importer specifier, ∀ file ∈ files,
        file.path.normalize workingDirectory ≠ path := by
  rw [resolve?_ofFiles, List.findSome?_eq_none_iff]
  simp only [file?_eq_none_iff]

/-- A further file takes an import over or leaves it alone. -/
theorem resolve?_insert (before after : List SourceFile) (added : SourceFile) (importer : Path)
    (specifier : String) :
    (ofFiles workingDirectory config (before ++ added :: after)).resolve? importer specifier =
        (ofFiles workingDirectory config (before ++ after)).resolve? importer specifier ∨
      (ofFiles workingDirectory config (before ++ added :: after)).resolve? importer specifier =
        some added.id := by
  by_cases isTaken : (ofFiles workingDirectory config (before ++ added :: after)).resolve? importer
      specifier = some added.id
  · exact .inr isTaken
  · rw [resolve?_ofFiles] at isTaken
    rw [resolve?_ofFiles, resolve?_ofFiles]
    exact .inl (findSome?_of_ne
      (fun path _ => file?_insert workingDirectory config before after added path) isTaken)

end

/-- A file with nothing in it. -/
def blankFile (id : FileId) (path : String) : SourceFile :=
  ⟨id, ⟨path⟩, "", .node ⟨⟨"program", true⟩, 0, 0, none⟩ []⟩

/--
An import is a search through a list of candidates that does not depend on the files: it
leads to the file at the first candidate where there is one, so a further file takes it over
or leaves it alone.

The candidates are the probes of the paths that the specifier stands for. A relative one
stands for a path from the directory of the importing file, an absolute one for itself, and
any other one for all targets of the patterns that capture something, in the order of the
configuration, and then for a path from the base directory. The probes of a path are the
path itself, the path with each extension, each index of the directory, and the sources of
a compiled file. The slices that captures are cut out by never fail.
-/
theorem resolve?_first_candidate (workingDirectory : Path) (config : Config) (importer : Path)
    (specifier : String) :
    let candidates := Import.candidates workingDirectory config importer specifier
    let probes := Import.probes workingDirectory
    let leadsTo := fun files : List SourceFile =>
      (ofFiles workingDirectory config files).resolve? importer specifier
    (∀ files : List SourceFile, (files.map (·.path.normalize workingDirectory)).Nodup →
      (∀ id, leadsTo files = some id ↔ ∃ before file after,
        candidates = before ++ file.path.normalize workingDirectory :: after ∧
        file ∈ files ∧ file.id = id ∧
        ∀ path ∈ before, ∀ other ∈ files, other.path.normalize workingDirectory ≠ path) ∧
      (leadsTo files = none ↔
        ∀ path ∈ candidates, ∀ file ∈ files, file.path.normalize workingDirectory ≠ path)) ∧
    (∀ before added after, leadsTo (before ++ added :: after) = leadsTo (before ++ after) ∨
      leadsTo (before ++ added :: after) = some added.id) ∧
    (Import.Relative specifier → candidates =
      importer.parent?.toList.flatMap fun directory => probes (directory.join ⟨specifier⟩)) ∧
    (¬Import.Relative specifier → (∃ rest, specifier = "/" ++ rest) →
      candidates = probes ⟨specifier⟩) ∧
    (¬Import.Relative specifier → ¬(∃ rest, specifier = "/" ++ rest) → candidates =
      (config.pathsBase.toList.flatMap fun base => config.paths.flatMap fun entry =>
        (Import.capture? entry.1 specifier).toList.flatMap fun captured =>
          entry.2.flatMap fun target => probes (base.join ⟨Import.substitute target captured⟩)) ++
      config.baseUrl.toList.flatMap fun base => probes (base.join ⟨specifier⟩)) ∧
    (∃ sources, Import.SourcesByEnding sources ∧ ∀ path : Path, probes path =
      let place := path.normalize workingDirectory
      let extensions := [".ts", ".tsx", ".d.ts", ".js", ".jsx", ".mts", ".cts", ".mjs", ".cjs"]
      [place] ++ extensions.map (fun extension => ⟨place.text ++ extension⟩) ++
        extensions.map (fun extension => place.join ⟨"index" ++ extension⟩) ++
        (sources place.text).map Path.mk) ∧
    (∀ pattern captured, Import.capture? pattern specifier = some captured ↔
      Import.Captures pattern specifier captured) ∧
    (∀ target captured, Import.Replaces captured target (Import.substitute target captured)) ∧
    ∀ pattern, Import.captureBySlicing? pattern specifier =
      some (Import.capture? pattern specifier) := by
  intro candidates probes leadsTo
  refine ⟨fun files distinct => ⟨?_, ?_⟩, ?_, ?_, ?_, ?_, ?_, ?_, Import.replaces_substitute, ?_⟩
  · exact resolve?_eq_some_iff distinct importer specifier
  · exact resolve?_eq_none_iff files importer specifier
  · exact fun before added after => resolve?_insert before after added importer specifier
  · exact fun relative => Import.candidates_of_relative workingDirectory config importer relative
  · exact fun notRelative absolute =>
      Import.candidates_of_absolute workingDirectory config importer notRelative absolute
  · exact fun notRelative notAbsolute =>
      Import.candidates_of_plain workingDirectory config importer notRelative notAbsolute
  · exact ⟨Import.sourcesOf, Import.sourcesByEnding_sourcesOf, fun _ => rfl⟩
  · exact fun pattern captured => Import.capture?_eq_some_iff
  · exact fun pattern => Import.captureBySlicing?_eq pattern specifier

/-- A configuration with a pattern whose first target leads nowhere. -/
def aliasing : Config :=
  ⟨⟨"/p/tsconfig.json"⟩, some ⟨"/p"⟩, [("@/*", ["gone/*", "src/*.ts"])], some ⟨"/p"⟩⟩

theorem resolve?_first_candidate_aliasing :
    let files := [blankFile 0 "main.ts", blankFile 1 "src/größe.ts"]
    (files.map (·.path.normalize ⟨"/p"⟩)).Nodup ∧
    ¬Import.Relative "@/größe" ∧ ¬(∃ rest, "@/größe" = "/" ++ rest) ∧
    (ofFiles ⟨"/p"⟩ aliasing files).resolve? ⟨"/p/main.ts"⟩ "@/größe" = some 1 ∧
    Import.candidates ⟨"/p"⟩ aliasing ⟨"/p/main.ts"⟩ "@/größe" =
      (["gone/größe", "src/größe.ts", "@/größe"].flatMap fun place =>
        Import.probes ⟨"/p"⟩ (.join ⟨"/p"⟩ ⟨place⟩)) ∧
    ∃ before file after, Import.candidates ⟨"/p"⟩ aliasing ⟨"/p/main.ts"⟩ "@/größe" =
        before ++ file.path.normalize ⟨"/p"⟩ :: after ∧
      file ∈ files ∧ file.id = 1 ∧
      ∀ path ∈ before, ∀ other ∈ files, other.path.normalize ⟨"/p"⟩ ≠ path := by
  have search := resolve?_first_candidate ⟨"/p"⟩ aliasing ⟨"/p/main.ts"⟩ "@/größe"
  have distinct : ([blankFile 0 "main.ts", blankFile 1 "src/größe.ts"].map
      (·.path.normalize ⟨"/p"⟩)).Nodup := by decide
  have isFound : (ofFiles ⟨"/p"⟩ aliasing
      [blankFile 0 "main.ts", blankFile 1 "src/größe.ts"]).resolve? ⟨"/p/main.ts"⟩ "@/größe" =
      some 1 := by decide
  have notRelative : ¬Import.Relative "@/größe" := by decide
  have notAbsolute : ¬(∃ rest, "@/größe" = "/" ++ rest) := by
    rw [← Import.isAbsolute_iff]
    decide
  have isCaptured : Import.capture? "@/*" "@/größe" = some "größe" := by decide
  have first : Import.substitute "gone/*" "größe" = "gone/größe" := by decide
  have second : Import.substitute "src/*.ts" "größe" = "src/größe.ts" := by decide
  refine ⟨distinct, notRelative, notAbsolute, isFound, ?_, ((search.1 _ distinct).1 1).1 isFound⟩
  rw [search.2.2.2.2.1 notRelative notAbsolute]
  simp [aliasing, isCaptured, first, second]

end ModuleIndex

end CallHierarchy
