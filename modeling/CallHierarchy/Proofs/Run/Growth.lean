import CallHierarchy.Proofs.Renumbering.Run

/-!
# Runs that grow

Entering further files puts their units before the units so far. A look-up for a
node, a declaration or a unit of an earlier file passes over them: a unit of a
later file stands at nodes of its own file, is named there, and is linked to
units of that file only. Claims of later files leave the earlier units alone.
-/

namespace CallHierarchy.Run

/-- Entering files puts units of theirs before the ones so far. -/
theorem exists_newer_foldl_classify (run : Run) (files : List SourceFile) :
    ∃ newer, (files.foldl classify run).entries = newer ++ run.entries ∧
      ∀ entry ∈ newer, ∃ file ∈ files,
        entry.node.file = file.id ∧ entry.unit.span.file = file.id := by
  induction files generalizing run with
  | nil => exact ⟨[], rfl, by simp⟩
  | cons file rest ih =>
      rcases ih (run.classify file) with ⟨newest, entries, fromRest⟩
      rcases run.exists_newer_enter (Outline.numberedPlaces run.nextId file.places) with
        ⟨newer, entered, fromFile⟩
      refine ⟨newest ++ newer, ?_, ?_⟩
      · rw [List.foldl_cons, entries, entries_classify, entered, List.append_assoc]
      · intro entry entryMem
        rcases List.mem_append.1 entryMem with fromNewest | fromNewer
        · rcases fromRest entry fromNewest with ⟨other, otherMem, files⟩
          exact ⟨other, List.mem_cons_of_mem _ otherMem, files⟩
        · rcases fromFile entry fromNewer with ⟨item, itemMem, isNode, isSpan⟩
          rw [Outline.file_of_mem_numberedPlaces itemMem] at isSpan
          rw [isNode, Node.key, Outline.file_of_mem_numberedPlaces itemMem]
          exact ⟨file, List.mem_cons_self, rfl, isSpan⟩

theorem file_mem_of_mem_entries {files : List SourceFile} {entry : Entry}
    (entryMem : entry ∈ (files.foldl classify empty).entries) :
    ∃ file ∈ files, entry.node.file = file.id := by
  rcases empty.exists_newer_foldl_classify files with ⟨newer, entries, fromFiles⟩
  rw [entries, empty, List.append_nil] at entryMem
  rcases fromFiles entry entryMem with ⟨file, fileMem, isFile, -⟩
  exact ⟨file, fileMem, isFile⟩

/-- The units of a graph belong to the files it is made of. -/
theorem file_mem_of_mem_units {declarations : Declarations} {files : List SourceFile}
    {unit : CodeUnit} (unitMem : unit ∈ (analyze declarations files).units) :
    ∃ file ∈ files, unit.span.file = file.id := by
  rcases empty.exists_newer_foldl_classify files with ⟨newer, entries, fromFiles⟩
  simp only [analyze, foldl_resolve, units_finish, units, grant, entries, List.mem_reverse,
    List.mem_map] at unitMem
  rcases unitMem with ⟨-, ⟨entry, entryMem, rfl⟩, rfl⟩
  rw [empty, List.append_nil] at entryMem
  rcases fromFiles entry entryMem with ⟨file, fileMem, -, isSpan⟩
  exact ⟨file, fileMem, isSpan⟩

theorem exists_roots_foldl_classify (run : Run) (files : List SourceFile) :
    ∃ roots, (files.foldl classify run).roots = run.roots ++ roots ∧
      roots.length = files.length := by
  induction files generalizing run with
  | nil => exact ⟨[], by simp⟩
  | cons file rest ih =>
      rcases ih (run.classify file) with ⟨roots, isRoots, length⟩
      refine ⟨run.nextId :: roots, ?_, by simp [length]⟩
      rw [List.foldl_cons, isRoots, classify_eq, List.append_assoc]
      rfl

/-- Whether the second run is the first with the given entries added, those of other files. -/
structure Grows (newer : List Entry) (run grown : Run) : Prop where
  entries : grown.entries = newer ++ run.entries
  isLocal : grown.Local
  distinct : (grown.entries.map (·.unit.id)).Nodup
  apart : ∀ entry ∈ newer, ∀ older ∈ run.entries, entry.node.file ≠ older.node.file

namespace Grows

variable {newer : List Entry} {run grown : Run} (grows : Grows newer run grown)

include grows

theorem find? {satisfies : Entry → Bool} (fails : ∀ entry ∈ newer, ¬satisfies entry) :
    grown.entries.find? satisfies = run.entries.find? satisfies := by
  rw [grows.entries, List.find?_append, List.find?_eq_none.2 fails, Option.none_or]

theorem unitOfNode? {key : NodeKey} (elsewhere : ∀ entry ∈ newer, entry.node.file ≠ key.file) :
    grown.unitOfNode? key = run.unitOfNode? key := by
  apply congrArg (Option.map _) (grows.find? _)
  intro entry entryMem isNode
  exact elsewhere entry entryMem (congrArg NodeKey.file (eq_of_beq isNode))

theorem unitOfDeclaration? {key : NodeKey}
    (elsewhere : ∀ entry ∈ newer, entry.node.file ≠ key.file) :
    grown.unitOfDeclaration? key = run.unitOfDeclaration? key := by
  apply congrArg (Option.map _) (grows.find? _)
  intro entry entryMem isDeclared
  apply elsewhere entry entryMem
  refine (grows.isLocal.declared entry ?_ key (eq_of_beq isDeclared)).symm
  rw [grows.entries]
  exact List.mem_append_left _ entryMem

theorem eq_of_same_id {entry older : Entry} (entryMem : entry ∈ grown.entries)
    (olderMem : older ∈ run.entries) (sameId : entry.unit.id = older.unit.id) : entry = older := by
  apply List.inj_on_of_nodup_map grows.distinct entryMem _ sameId
  rw [grows.entries]
  exact List.mem_append_right _ olderMem

theorem kindOf? {older : Entry} (olderMem : older ∈ run.entries) :
    grown.kindOf? older.unit.id = run.kindOf? older.unit.id := by
  apply congrArg (Option.map _) (grows.find? _)
  intro entry entryMem isUnit
  have inGrown : entry ∈ grown.entries := grows.entries ▸ List.mem_append_left _ entryMem
  have same := grows.eq_of_same_id inGrown olderMem (eq_of_beq isUnit)
  exact grows.apart entry entryMem older olderMem (same ▸ rfl)

/-- A constructor is linked to a class of its own file, which is not that of an old unit. -/
theorem constructorOf? {older : Entry} (olderMem : older ∈ run.entries) :
    grown.constructorOf? older.unit.id = run.constructorOf? older.unit.id := by
  apply congrArg (Option.map _) (grows.find? _)
  intro entry entryMem isLinked
  have inGrown : entry ∈ grown.entries := grows.entries ▸ List.mem_append_left _ entryMem
  rcases grows.isLocal.linked entry inGrown older.unit.id (eq_of_beq isLinked) with
    ⟨linked, linkedMem, sameId, sameFile⟩
  rw [grows.eq_of_same_id linkedMem olderMem sameId] at sameFile
  exact grows.apart entry entryMem older olderMem sameFile.symm

/-- Granting claims of the new units, too, leaves the old units with the claims for them. -/
theorem units_grant (claims : List (UnitId × List UnitId)) {more : List (UnitId × List UnitId)}
    (others : ∀ claim ∈ more, ∃ entry ∈ newer, entry.unit.id = claim.1) :
    (grown.grant (claims ++ more)).units = (run.grant claims).units ++
      (newer.map fun entry => (entry.claim (claims ++ more)).unit).reverse := by
  have older : run.entries.map (Entry.claim (claims ++ more)) =
      run.entries.map (Entry.claim claims) := by
    apply List.map_congr_left
    intro older olderMem
    have unclaimed : lastFor? more older.unit.id = none := by
      apply lastFor?_eq_none
      intro claim claimMem sameId
      rcases others claim claimMem with ⟨entry, entryMem, isUnit⟩
      have inGrown : entry ∈ grown.entries := grows.entries ▸ List.mem_append_left _ entryMem
      have same := grows.eq_of_same_id inGrown olderMem (isUnit.trans sameId)
      exact grows.apart entry entryMem older olderMem (same ▸ rfl)
    simp only [Entry.claim, lastFor?_append, unclaimed, Option.none_or]
  simp only [units, grant, grows.entries, List.map_append, older, List.reverse_append,
    List.map_map]
  rfl

end Grows

end CallHierarchy.Run
