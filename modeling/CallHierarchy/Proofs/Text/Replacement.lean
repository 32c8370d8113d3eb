import Mathlib.Data.List.Basic

/-!
# Replacing a character in a text

`String.replace` searches a text for a character from one place to the next and puts
another text wherever it is found. On the characters of the text, that is one pass in
which each of them is looked at on its own.
-/

namespace CallHierarchy.Text

open String.Slice.Pattern String.Slice.Pattern.Model

/-- A text in which other characters stand wherever a character stood. -/
def replacing (old : Char) (new text : List Char) : List Char :=
  text.flatMap fun character => if character = old then new else [character]

theorem replacing_append (old : Char) (new first second : List Char) :
    replacing old new (first ++ second) = replacing old new first ++ replacing old new second :=
  List.flatMap_append

theorem replacing_of_notMem {old : Char} {text : List Char} (absent : old ∉ text)
    (new : List Char) : replacing old new text = text := by
  induction text with
  | nil => rfl
  | cons character text ih =>
      rw [List.mem_cons, not_or] at absent
      rw [← List.singleton_append, replacing_append, ih absent.2]
      simp [replacing, Ne.symm absent.1]

section

variable {slice : String.Slice} {old : Char}

theorem notMem_copy_slice {start stop : slice.Pos} (ordered : start ≤ stop)
    (noMatch : ∀ place, start ≤ place → place < stop → ¬MatchesAt old place) :
    old ∉ (slice.slice start stop ordered).copy.toList := by
  rw [String.Slice.mem_toList_copy_iff_exists_get]
  rintro ⟨place, notLast, isOld⟩
  have beforeStop : String.Slice.Pos.ofSlice place < stop := by
    rw [String.Slice.Pos.ofSlice_lt_iff]
    simpa using ⟨ordered, notLast⟩
  apply noMatch (String.Slice.Pos.ofSlice place) String.Slice.Pos.le_ofSlice beforeStop
  rw [Char.matchesAt_iff]
  exact ⟨_, String.Slice.Pos.get_eq_get_ofSlice.symm.trans isOld⟩

theorem copy_sliceFrom_eq_append {start stop : slice.Pos} (ordered : start ≤ stop) :
    (slice.sliceFrom start).copy =
      (slice.slice start stop ordered).copy ++ (slice.sliceFrom stop).copy := by
  rcases String.Slice.copy_slice_eq_iff_splits.1 ⟨ordered, rfl⟩ with
    ⟨before, after, startSplits, stopSplits⟩
  rw [startSplits.copy_sliceFrom_eq, stopSplits.copy_sliceFrom_eq]

/-- The steps of a search, if every match is written anew and all else is copied, write what
is left of the text with the character replaced. -/
theorem toList_foldl_of_isValidSearchFrom (new : List Char)
    {step : String → SearchStep slice → String}
    (onMatch : ∀ written start stop,
      (step written (.matched start stop)).toList = written.toList ++ new)
    (onOther : ∀ written start stop, (step written (.rejected start stop)).toList =
      written.toList ++ (slice.slice! start stop).copy.toList)
    {place : slice.Pos} {steps : List (SearchStep slice)}
    (isSearch : IsValidSearchFrom old place steps) (written : String) :
    (steps.foldl step written).toList =
      written.toList ++ replacing old new (slice.sliceFrom place).copy.toList := by
  induction isSearch generalizing written with
  | endPos => simp [replacing]
  | @matched _ start stop isMatch _ ih =>
      rcases Char.isLongestMatchAt_iff.1 isMatch with ⟨notLast, rfl, rfl⟩
      have rest := start.splits.eq_right (start.splits_next_right notLast)
      rw [List.foldl_cons, ih, onMatch, rest]
      simp [replacing]
  | @mismatched _ start stop isBefore noMatch _ ih =>
      have ordered := Std.le_of_lt isBefore
      have absent := notMem_copy_slice ordered noMatch
      rw [List.foldl_cons, ih, onOther, ← String.Slice.slice_eq_slice!,
        copy_sliceFrom_eq_append ordered, String.toList_append, replacing_append,
        replacing_of_notMem absent, List.append_assoc]

end

theorem toList_replace (text : String) (old : Char) (new : String) :
    (text.replace old new).toList = replacing old new.toList text.toList := by
  have isSearch : IsValidSearchFrom old text.toSlice.startPos
      (ToForwardSearcher.toSearcher old text.toSlice).toList :=
    LawfulToForwardSearcherModel.isValidSearchFrom_toList _
  rw [String.replace, String.Slice.replace, ← Std.Iter.foldl_toList,
    toList_foldl_of_isValidSearchFrom new.toList _ _ isSearch]
  · simp
  · intro written start stop
    simp [String.ToSlice.toSlice]
  · intro written start stop
    simp

end CallHierarchy.Text
