import CallHierarchy.Proofs.Run.Invariant

/-!
# Looking for calls in any order

To look for the calls of a file is to let its units claim edges. What is claimed
depends on look-ups that no claim changes, and a unit is claimed for in one file
only, since units of different files have different numbers. So it matters which
files have been looked at, but not in which order or how often.
-/

namespace CallHierarchy.Run

theorem grant_congr (run : Run) {left right : List (UnitId × List UnitId)}
    (agree : ∀ id, lastFor? left id = lastFor? right id) : run.grant left = run.grant right := by
  have sameEntries : run.entries.map (Entry.claim left) = run.entries.map (Entry.claim right) := by
    apply List.map_congr_left
    intro entry _
    simp only [Entry.claim, agree]
  simp only [grant, sameEntries]

theorem Sound.nodup_ids {run : Run} {files : List SourceFile} (sound : run.Sound files) :
    (run.entries.map (·.unit.id)).Nodup := by
  have distinct : (run.units.map (·.id)).Nodup := by
    rw [sound.numbered]
    exact List.nodup_range' 1 Nat.one_pos
  simpa only [units, List.map_reverse, List.map_map, List.nodup_reverse, Function.comp_def]
    using distinct

section

variable {run : Run} (distinct : (run.entries.map (·.unit.id)).Nodup)
  {declarations : Declarations}

include distinct

/-- No unit is claimed for in two files. -/
theorem id_eq_of_lastFor?_claims {file other : SourceFile} {id : UnitId}
    {calls otherCalls : List UnitId}
    (isLast : lastFor? (run.claims declarations file) id = some calls)
    (isOtherLast : lastFor? (run.claims declarations other) id = some otherCalls) :
    file.id = other.id := by
  rcases (mem_entries_of_mem_claims (mem_of_lastFor? isLast)).1 with
    ⟨entry, entryMem, isUnit, inFile⟩
  rcases (mem_entries_of_mem_claims (mem_of_lastFor? isOtherLast)).1 with
    ⟨otherEntry, otherEntryMem, isOtherUnit, inOther⟩
  have same : entry = otherEntry := by
    apply List.inj_on_of_nodup_map distinct entryMem otherEntryMem
    exact isUnit.trans isOtherUnit.symm
  rw [← inFile, ← inOther, same]

variable (files : List SourceFile)
  (byId : ∀ file ∈ files, ∀ other ∈ files, file.id = other.id → file = other)

include byId

/-- What several files claim for a unit is what one of them claims for it. -/
theorem lastFor?_flatMap_claims_eq_some_iff (id : UnitId) (calls : List UnitId) :
    lastFor? (files.flatMap (run.claims declarations)) id = some calls ↔
      ∃ file ∈ files, lastFor? (run.claims declarations file) id = some calls := by
  induction files generalizing calls with
  | nil => simp [lastFor?]
  | cons first rest ih =>
      have fromRest := ih fun file fileMem other otherMem =>
        byId file (List.mem_cons_of_mem _ fileMem) other (List.mem_cons_of_mem _ otherMem)
      simp only [List.flatMap_cons, lastFor?_append, Option.or_eq_some_iff, List.mem_cons,
        exists_eq_or_imp]
      constructor
      · rintro (inRest | ⟨-, inFirst⟩)
        · exact Or.inr ((fromRest calls).1 inRest)
        · exact Or.inl inFirst
      · rintro (inFirst | inRest)
        · cases later : lastFor? (rest.flatMap (run.claims declarations)) id with
          | none => exact Or.inr ⟨rfl, inFirst⟩
          | some laterCalls =>
              rcases (fromRest laterCalls).1 later with ⟨other, otherMem, isLast⟩
              have sameId := id_eq_of_lastFor?_claims distinct inFirst isLast
              have same := byId first List.mem_cons_self other
                (List.mem_cons_of_mem _ otherMem) sameId
              rw [← same, inFirst] at isLast
              exact Or.inl isLast.symm
        · exact Or.inl ((fromRest calls).2 inRest)

/-- Two lists of the same files, in whatever order and with whatever repetitions, find the same. -/
theorem foldl_resolve_of_mem_iff (others : List SourceFile)
    (sameFiles : ∀ file, file ∈ others ↔ file ∈ files) :
    others.foldl (fun run file => run.resolve declarations file) run =
      files.foldl (fun run file => run.resolve declarations file) run := by
  have byIdOthers : ∀ file ∈ others, ∀ other ∈ others, file.id = other.id → file = other := by
    intro file fileMem other otherMem
    exact byId file ((sameFiles file).1 fileMem) other ((sameFiles other).1 otherMem)
  rw [foldl_resolve, foldl_resolve]
  apply grant_congr
  intro id
  ext calls
  rw [lastFor?_flatMap_claims_eq_some_iff distinct files byId,
    lastFor?_flatMap_claims_eq_some_iff distinct others byIdOthers]
  simp only [sameFiles]

end

/--
Whatever has been done before, to look for the calls of a file twice is the same
as to do it once, the calls of two files can be looked for in either order, and
after the last file has been entered any list of files that has all of them, in
any order and with any repetitions, leads to the same graph.
-/
theorem finish_resolve_any_order (steps : List Step) (declarations : Declarations)
    (files : List SourceFile) (distinct : (files.map (·.id)).Nodup) :
    let run := ofSteps steps
    (∀ file, (run.resolve declarations file).resolve declarations file =
      run.resolve declarations file) ∧
    (∀ first ∈ files, ∀ second ∈ files,
      (run.resolve declarations first).resolve declarations second =
        (run.resolve declarations second).resolve declarations first) ∧
    ∀ (order : List SourceFile) (paths : List Path), (∀ file, file ∈ order ↔ file ∈ files) →
      (ofSteps (steps ++ order.map (.resolve declarations))).finish paths =
        (ofSteps (steps ++ files.map (.resolve declarations))).finish paths := by
  intro run
  have ids := (sound_empty.foldl_apply steps).nodup_ids
  have byId : ∀ file ∈ files, ∀ other ∈ files, file.id = other.id → file = other := by
    intro file fileMem other otherMem
    exact List.inj_on_of_nodup_map distinct fileMem otherMem
  refine ⟨?_, ?_, ?_⟩
  · intro file
    exact foldl_resolve_of_mem_iff ids [file] (by simp) [file, file] (by simp)
  · intro first firstMem second secondMem
    have known : ∀ file ∈ [second, first], file ∈ files := by
      simp [firstMem, secondMem]
    refine foldl_resolve_of_mem_iff ids [second, first] ?_ [first, second] ?_
    · intro file fileMem other otherMem
      exact byId file (known file fileMem) other (known other otherMem)
    · simp [or_comm]
  · intro order paths sameFiles
    simp only [ofSteps, List.foldl_append, List.foldl_map]
    exact congrArg (finish · paths) (foldl_resolve_of_mem_iff ids files byId order sameFiles)

/-- A file with a function, and a call of the function that the other file has. -/
def crossCaller (id : FileId) : SourceFile where
  id := id
  path := ⟨"cross.ts"⟩
  text := "function f() {} f()"
  root :=
    .node ⟨⟨"program", true⟩, 0, 19, none⟩
      [.node ⟨⟨"function_declaration", true⟩, 0, 15, none⟩ [],
      .node ⟨⟨"call_expression", true⟩, 16, 19, none⟩
        [.node ⟨⟨"identifier", true⟩, 16, 17, some "function"⟩ []]]

/-- Whatever stands in one of the two files refers to the function of the other. -/
def crossDeclarations : Declarations := fun node =>
  [⟨1 - node.file.id, 0, 15, ⟨"function_declaration", true⟩⟩]

/-- The first file is entered twice, and its calls are looked for before the second is there. -/
def crossSteps : List Step :=
  [.classify (crossCaller 0), .resolve crossDeclarations (crossCaller 0),
    .classify (crossCaller 1), .classify (crossCaller 0)]

theorem finish_resolve_any_order_cross :
    let files := [crossCaller 0, crossCaller 1]
    let order := [crossCaller 1, crossCaller 0, crossCaller 1]
    let graph := (ofSteps (crossSteps ++ order.map (.resolve crossDeclarations))).finish []
    (files.map (·.id)).Nodup ∧ (∀ file, file ∈ order ↔ file ∈ files) ∧
    graph.units.map (fun unit => (unit.id, unit.calls)) =
      [(1, []), (2, []), (3, [6]), (4, []), (5, [4]), (6, [])] ∧
    graph = (ofSteps (crossSteps ++ files.map (.resolve crossDeclarations))).finish [] := by
  intro files order graph
  have distinct : (files.map (·.id)).Nodup := by decide
  have sameFiles : ∀ file, file ∈ order ↔ file ∈ files := by
    intro file
    simp only [order, files, List.mem_cons]
    tauto
  rcases finish_resolve_any_order crossSteps crossDeclarations files distinct with
    ⟨-, -, anyOrder⟩
  exact ⟨distinct, sameFiles, by decide, anyOrder order [] sameFiles⟩

end CallHierarchy.Run
