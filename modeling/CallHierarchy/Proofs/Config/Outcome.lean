import CallHierarchy.Proofs.Config.Traversal

/-!
# What loading comes to

Loading reads files and may fail, and its result does not tell which files it has
read. `mergeTraced` and `loadTraced` are the same steps in a monad in which every file
that is read is written down.

The steps follow the depth-first tree of the configuration. Merging along the tree
needs no bound and no look at what has been seen (`mergeForest`), and it does what
loading does as long as the bound leaves room for every file of the file system.
So the files are read in the preorder of the tree, each of them once, up to the
first that cannot be read or is no configuration, and that one decides the error.
-/

namespace CallHierarchy.Config

/-- What a computation comes to, and the files that it has read, in their order. -/
structure Traced (α : Type) where
  outcome : Except ProjectError α
  reads : List Path

namespace Traced

variable {α β : Type}

instance : Monad Traced where
  pure value := ⟨.ok value, []⟩
  bind first next :=
    match first.outcome with
    | .error error => ⟨.error error, first.reads⟩
    | .ok value => ⟨(next value).outcome, first.reads ++ (next value).reads⟩

theorem bind_of_error {first : Traced α} {error : ProjectError}
    (isError : first.outcome = .error error) (next : α → Traced β) :
    first >>= next = ⟨.error error, first.reads⟩ := by
  simp only [bind, isError]

theorem bind_of_ok {first : Traced α} {value : α} (isValue : first.outcome = .ok value)
    (next : α → Traced β) :
    first >>= next = ⟨(next value).outcome, first.reads ++ (next value).reads⟩ := by
  simp only [bind, isValue]

instance : LawfulMonad Traced := by
  refine LawfulMonad.mk' Traced ?_ ?_ ?_
  · rintro α ⟨_ | value, reads⟩
    · rfl
    · exact congrArg (Traced.mk (.ok value)) (List.append_nil reads)
  · intro α β value next
    rfl
  · rintro α β γ ⟨_ | value, reads⟩ next further
    · rfl
    · cases isNext : (next value).outcome with
      | error error => simp only [bind, isNext]
      | ok other => simp only [bind, isNext, List.append_assoc]

theorem bind_congr_of_ok {first : Traced α} {next other : α → Traced β}
    (same : ∀ value, first.outcome = .ok value → next value = other value) :
    first >>= next = first >>= other := by
  cases isFirst : first.outcome with
  | error error => rw [bind_of_error isFirst, bind_of_error isFirst]
  | ok value => rw [bind_of_ok isFirst, bind_of_ok isFirst, same value isFirst]

theorem exists_of_bind_eq_ok {first : Traced α} {next : α → Traced β} {result : β}
    (isResult : (first >>= next).outcome = .ok result) :
    ∃ value, first.outcome = .ok value ∧ (next value).outcome = .ok result := by
  cases isFirst : first.outcome with
  | error error =>
      rw [bind_of_error isFirst] at isResult
      cases isResult
  | ok value =>
      rw [bind_of_ok isFirst] at isResult
      exact ⟨value, rfl, isResult⟩

theorem outcome_bind (first : Traced α) (next : α → Traced β) :
    (first >>= next).outcome = first.outcome >>= fun value => (next value).outcome := by
  cases isFirst : first.outcome with
  | error error =>
      rw [bind_of_error isFirst]
      rfl
  | ok value =>
      rw [bind_of_ok isFirst]
      rfl

theorem outcome_foldlM (items : List β) (step : α → β → Traced α) (start : α) :
    (items.foldlM step start).outcome =
      items.foldlM (fun state item => (step state item).outcome) start := by
  induction items generalizing start with
  | nil => rfl
  | cons item items ih => simp only [List.foldlM_cons, outcome_bind, ih]

end Traced

/-! ### Loading that writes down what it reads -/

/-- Reads the options of a file, and writes the file down. -/
def readTraced (fileSystem : FileSystem) (path : Path) : Traced Options :=
  ⟨readOptions fileSystem path, [path]⟩

/-- Adds a configuration file, with the files that are read. -/
def mergeTraced (fileSystem : FileSystem) : Nat → Loading → Path → Traced Loading :=
  mergeVia fileSystem.workingDirectory (readTraced fileSystem)

/-- Loads a configuration, with the files that are read. -/
def loadTraced (fileSystem : FileSystem) (path : Path) : Traced Config :=
  loadVia fileSystem (readTraced fileSystem) path

/-- To write down what is read does not change what merging comes to. -/
theorem outcome_mergeVia (workingDirectory : Path) (read : Path → Traced Options) (bound : Nat)
    (loading : Loading) (path : Path) :
    (mergeVia workingDirectory read bound loading path).outcome =
      mergeVia workingDirectory (fun path => (read path).outcome) bound loading path := by
  induction bound generalizing loading path with
  | zero => rfl
  | succ bound ih =>
      rw [mergeVia, mergeVia]
      split
      · rfl
      · simp only [Traced.outcome_bind, Traced.outcome_foldlM, ih]
        rfl

theorem outcome_mergeTraced (fileSystem : FileSystem) (bound : Nat) (loading : Loading)
    (path : Path) :
    (mergeTraced fileSystem bound loading path).outcome = merge fileSystem bound loading path :=
  outcome_mergeVia _ _ bound loading path

theorem outcome_loadTraced (fileSystem : FileSystem) (path : Path) :
    (loadTraced fileSystem path).outcome = load fileSystem path := by
  simp only [loadTraced, load, loadVia, Traced.outcome_bind, outcome_mergeVia]
  rfl

theorem mergeTraced_of_notMem_seen {fileSystem : FileSystem} {loading : Loading} {path : Path}
    (isNew : path ∉ loading.seen) (bound : Nat) :
    mergeTraced fileSystem (bound + 1) loading path = do
      let options ← readTraced fileSystem path
      let loading ← (parentPaths fileSystem.workingDirectory path options).foldlM
        (mergeTraced fileSystem bound) { loading with seen := path :: loading.seen }
      return { loading with
        config := override fileSystem.workingDirectory path options loading.config } := by
  have isUnseen : ¬loading.seen.contains path := by simpa using isNew
  rw [mergeTraced, mergeVia, if_neg isUnseen]

/-! ### Merging along a tree -/

mutual

/-- Adds the file at the root of a tree, after those below it. -/
def mergeTree (fileSystem : FileSystem) (loading : Loading) : Tree Path → Traced Loading
  | .node path below => do
    let options ← readTraced fileSystem path
    let loading ← mergeForest fileSystem { loading with seen := path :: loading.seen } below
    return { loading with
      config := override fileSystem.workingDirectory path options loading.config }

/-- Adds the files of some trees, one tree after the other. -/
def mergeForest (fileSystem : FileSystem) (loading : Loading) : List (Tree Path) → Traced Loading
  | [] => pure loading
  | tree :: forest => do
    let loading ← mergeTree fileSystem loading tree
    mergeForest fileSystem loading forest

end

variable {fileSystem : FileSystem}

theorem seen_mergeForest_of_trees {forest : List (Tree Path)}
    (trees : ∀ tree ∈ forest, ∀ loading after,
      (mergeTree fileSystem loading tree).outcome = .ok after →
        after.seen = tree.preorder.reverse ++ loading.seen)
    {loading after : Loading}
    (isMerged : (mergeForest fileSystem loading forest).outcome = .ok after) :
    after.seen = (Tree.preorderList forest).reverse ++ loading.seen := by
  induction forest generalizing loading with
  | nil =>
      cases isMerged
      rfl
  | cons tree forest ih =>
      simp only [List.mem_cons, forall_eq_or_imp] at trees
      rw [mergeForest] at isMerged
      rcases Traced.exists_of_bind_eq_ok isMerged with ⟨next, isNext, areMerged⟩
      rw [ih trees.2 areMerged, trees.1 loading next isNext, Tree.preorderList,
        List.reverse_append, List.append_assoc]

/-- All files of a tree have been seen once it has been merged. -/
theorem seen_mergeTree {tree : Tree Path} {loading after : Loading}
    (isMerged : (mergeTree fileSystem loading tree).outcome = .ok after) :
    after.seen = tree.preorder.reverse ++ loading.seen := by
  induction tree using Tree.induction generalizing loading after with
  | step path below ih =>
      rw [mergeTree] at isMerged
      rcases Traced.exists_of_bind_eq_ok isMerged with ⟨options, -, areMerged⟩
      rcases Traced.exists_of_bind_eq_ok areMerged with ⟨inner, isInner, isAfter⟩
      cases isAfter
      have seen := seen_mergeForest_of_trees (fun tree treeMem loading after => ih tree treeMem)
        isInner
      simpa [Tree.preorder] using seen

/--
As long as there is room for every file, merging follows the depth-first tree. The bound goes
down by one with each file that is being merged, and so do the entries that are left for those
below it; a file that lists nothing needs no entry.
-/
theorem foldlM_mergeTraced {seen agenda : List Path} {forest : List (Tree Path)}
    (walk : IsDepthFirst fileSystem seen agenda forest) {bound : Nat} {pending : List Path}
    {loading : Loading} (isPending : Pending fileSystem pending) (areSeen : pending ⊆ seen)
    (areNormal : ∀ path ∈ agenda, listed fileSystem path ≠ [] → path.IsNormal)
    (enough : fileSystem.entries.length < bound + pending.length) (isSeen : loading.seen = seen) :
    agenda.foldlM (mergeTraced fileSystem bound) loading =
      mergeForest fileSystem loading forest := by
  induction walk generalizing bound pending loading with
  | done => rfl
  | @skip _ _ path _ isOld rest ih =>
      have passed : mergeTraced fileSystem bound loading path = pure loading := by
        cases bound with
        | zero => rfl
        | succ bound => simp [mergeTraced, mergeVia, isSeen, isOld]
      rw [List.foldlM_cons, passed, pure_bind]
      exact ih isPending areSeen (fun path pathMem => areNormal path (.tail _ pathMem)) enough
        isSeen
  | @enter seen _ path below _ isNew inside rest ihInside ihRest =>
      have few := isPending.length_le
      obtain ⟨bound, rfl⟩ : ∃ less, bound = less + 1 := ⟨bound - 1, by omega⟩
      have entered : mergeTraced fileSystem (bound + 1) loading path =
          mergeTree fileSystem loading (.node path below) := by
        rw [mergeTraced_of_notMem_seen (isSeen ▸ isNew), mergeTree]
        apply Traced.bind_congr_of_ok
        intro options isRead
        have areListed := listed_of_readOptions isRead
        rw [← areListed]
        by_cases lists : listed fileSystem path = []
        · rw [lists] at inside ⊢
          cases inside
          rfl
        · have stillPending := isPending.cons (areNormal path List.mem_cons_self lists) isRead
            fun pathMem => isNew (areSeen pathMem)
          rw [ihInside stillPending (List.cons_subset_cons path areSeen)
            (fun parent parentMem _ => isNormal_of_mem_listed parentMem)
            (by simp only [List.length_cons]; omega) (by rw [isSeen])]
      rw [List.foldlM_cons, entered, mergeForest]
      apply Traced.bind_congr_of_ok
      intro after isMerged
      apply ihRest isPending (List.Subset.trans areSeen (List.subset_append_right _ seen))
        (fun path pathMem => areNormal path (.tail _ pathMem)) enough
      rw [seen_mergeTree isMerged, isSeen]

/-! ### Which files are read -/

/-- Reads files one after the other, up to the first that cannot be read. -/
def readAll (fileSystem : FileSystem) : List Path → Traced Unit
  | [] => pure ()
  | path :: rest => do
    let _ ← readTraced fileSystem path
    readAll fileSystem rest

theorem readAll_append (first second : List Path) :
    readAll fileSystem (first ++ second) =
      readAll fileSystem first >>= fun _ => readAll fileSystem second := by
  induction first with
  | nil => rfl
  | cons path first ih => simp only [List.cons_append, readAll, ih, bind_assoc]

theorem mergeForest_bind_of_trees {α : Type} {forest : List (Tree Path)}
    (trees : ∀ tree ∈ forest, ∀ loading (next : Traced α),
      (mergeTree fileSystem loading tree >>= fun _ => next) =
        readAll fileSystem tree.preorder >>= fun _ => next)
    (loading : Loading) (next : Traced α) :
    (mergeForest fileSystem loading forest >>= fun _ => next) =
      readAll fileSystem (Tree.preorderList forest) >>= fun _ => next := by
  induction forest generalizing loading with
  | nil => rfl
  | cons tree forest ih =>
      simp only [List.mem_cons, forall_eq_or_imp] at trees
      simp only [mergeForest, bind_assoc, ih trees.2, trees.1, Tree.preorderList, readAll_append]

/-- Merging a tree reads its files in preorder. -/
theorem mergeTree_bind {α : Type} (tree : Tree Path) (loading : Loading) (next : Traced α) :
    (mergeTree fileSystem loading tree >>= fun _ => next) =
      readAll fileSystem tree.preorder >>= fun _ => next := by
  induction tree using Tree.induction generalizing loading next with
  | step path below ih =>
      have inside := mergeForest_bind_of_trees (fun tree treeMem loading (next : Traced α) =>
        ih tree treeMem loading next)
      simp only [mergeTree, bind_assoc, pure_bind, Tree.preorder, readAll, inside]

theorem mergeForest_congr_of_trees {other : FileSystem} {forest : List (Tree Path)}
    (trees : ∀ tree ∈ forest, ∀ loading,
      mergeTree other loading tree = mergeTree fileSystem loading tree) (loading : Loading) :
    mergeForest other loading forest = mergeForest fileSystem loading forest := by
  induction forest generalizing loading with
  | nil => rfl
  | cons tree forest ih =>
      simp only [List.mem_cons, forall_eq_or_imp] at trees
      simp only [mergeForest, trees.1, ih trees.2]

/-- What is merged along a tree depends on the files of the tree only. -/
theorem mergeTree_congr {other : FileSystem} {tree : Tree Path}
    (sameDirectory : other.workingDirectory = fileSystem.workingDirectory)
    (same : ∀ file ∈ tree.preorder, readOptions other file = readOptions fileSystem file)
    (loading : Loading) :
    mergeTree other loading tree = mergeTree fileSystem loading tree := by
  induction tree using Tree.induction generalizing loading with
  | step path below ih =>
      simp only [Tree.preorder, List.mem_cons, forall_eq_or_imp] at same
      have sameRead : readTraced other path = readTraced fileSystem path := by
        rw [readTraced, same.1]
        rfl
      have inside := mergeForest_congr_of_trees fun tree treeMem loading =>
        ih tree treeMem (fun file fileMem => same.2 file
          ((Tree.preorder_infix_preorderList treeMem).subset fileMem)) loading
      simp only [mergeTree, sameRead, inside, sameDirectory]

/-- Whether a file can be read and is a configuration. -/
def IsConfig (fileSystem : FileSystem) (path : Path) : Prop :=
  ∃ text options, fileSystem.read path = .ok text ∧ Options.parse? text = some options

theorem isConfig_iff {path : Path} :
    IsConfig fileSystem path ↔ ∃ options, readOptions fileSystem path = .ok options := by
  unfold IsConfig readOptions
  cases fileSystem.read path with
  | error error => simp
  | ok text => cases isRead : Options.parse? text <;> simp [isRead]

theorem readOptions_congr {other : FileSystem} {path : Path}
    (same : other.read path = fileSystem.read path) :
    readOptions other path = readOptions fileSystem path := by
  simp only [readOptions, same]

theorem reads_readAll_prefix (fileSystem : FileSystem) (order : List Path) :
    (readAll fileSystem order).reads <+: order := by
  induction order with
  | nil => exact List.prefix_rfl
  | cons path order ih =>
      rw [readAll]
      cases isRead : (readTraced fileSystem path).outcome with
      | error error =>
          rw [Traced.bind_of_error isRead]
          exact (List.prefix_cons_inj path).2 List.nil_prefix
      | ok options =>
          rw [Traced.bind_of_ok isRead]
          exact (List.prefix_cons_inj path).2 ih

theorem readAll_of_isConfig {order : List Path}
    (areConfigs : ∀ file ∈ order, IsConfig fileSystem file) :
    readAll fileSystem order = ⟨.ok (), order⟩ := by
  induction order with
  | nil => rfl
  | cons path order ih =>
      simp only [List.mem_cons, forall_eq_or_imp] at areConfigs
      rcases isConfig_iff.1 areConfigs.1 with ⟨options, isRead⟩
      rw [readAll, Traced.bind_of_ok isRead, ih areConfigs.2]
      rfl

/-- The first file that is no configuration decides the error, and nothing is read after it. -/
theorem readAll_of_split {before after : List Path} {path : Path} {error : ProjectError}
    (areConfigs : ∀ file ∈ before, IsConfig fileSystem file)
    (isError : readOptions fileSystem path = .error error) :
    readAll fileSystem (before ++ path :: after) = ⟨.error error, before ++ [path]⟩ := by
  rw [readAll_append, readAll_of_isConfig areConfigs, Traced.bind_of_ok rfl, readAll,
    Traced.bind_of_error isError]
  rfl

theorem outcome_readAll_eq_ok_iff {order : List Path} :
    (readAll fileSystem order).outcome = .ok () ↔ ∀ file ∈ order, IsConfig fileSystem file := by
  induction order with
  | nil => simp [readAll, pure]
  | cons path order ih =>
      simp only [List.mem_cons, forall_eq_or_imp, isConfig_iff, readAll]
      cases isRead : readOptions fileSystem path with
      | error error =>
          rw [Traced.bind_of_error isRead]
          simp
      | ok options =>
          rw [Traced.bind_of_ok isRead]
          simp [ih, isConfig_iff]

/-! ### The whole of it -/

/-- The files that loading a configuration can come to. -/
def reachable (fileSystem : FileSystem) (path : Path) : Set Path :=
  {file | Relation.ReflTransGen (BuildsOn fileSystem)
    (path.normalize fileSystem.workingDirectory) file}

theorem isNormal_start (path : Path)
    (lists : listed fileSystem (path.normalize fileSystem.workingDirectory) ≠ []) :
    (path.normalize fileSystem.workingDirectory).IsNormal := by
  rcases exists_options_of_listed lists with ⟨options, isRead⟩
  exact isNormal_of_readOptions isRead

theorem mergeTraced_eq_mergeTree {start : Path} {tree : Tree Path} {bound : Nat}
    (walk : IsDepthFirst fileSystem [] [start] [tree])
    (isNormal : listed fileSystem start ≠ [] → start.IsNormal)
    (enough : fileSystem.entries.length < bound) (config : Config) :
    mergeTraced fileSystem bound ⟨config, []⟩ start =
      mergeTree fileSystem ⟨config, []⟩ tree := by
  have followed : [start].foldlM (mergeTraced fileSystem bound) ⟨config, []⟩ =
      mergeForest fileSystem ⟨config, []⟩ [tree] :=
    foldlM_mergeTraced walk ⟨List.nodup_nil, List.nil_subset _⟩ (List.nil_subset _)
      (by simpa using isNormal) enough rfl
  simpa [mergeForest] using followed

section

variable {path : Path} {tree : Tree Path}
  (walk : IsDepthFirst fileSystem [] [path.normalize fileSystem.workingDirectory] [tree])

include walk

theorem loadTraced_eq : loadTraced fileSystem path =
    mergeTree fileSystem ⟨{ empty with path := path.normalize fileSystem.workingDirectory }, []⟩
      tree >>= fun loading => pure loading.config.settle := by
  rw [← mergeTraced_eq_mergeTree walk (isNormal_start path) (Nat.lt_succ_self _)]
  rfl

/-- Loading fails as reading the files of the tree in preorder does, and reads the same files. -/
theorem readAll_eq_loadTraced : readAll fileSystem tree.preorder =
    ⟨(load fileSystem path).map fun _ => (), (loadTraced fileSystem path).reads⟩ := by
  have voided : (loadTraced fileSystem path >>= fun _ => pure ()) =
      readAll fileSystem tree.preorder := by
    simp only [loadTraced_eq walk, bind_assoc, pure_bind, mergeTree_bind, bind_pure_unit]
  rw [← voided, ← outcome_loadTraced]
  cases isLoaded : (loadTraced fileSystem path).outcome with
  | error error => rw [Traced.bind_of_error isLoaded, Except.map]
  | ok config =>
      rw [Traced.bind_of_ok isLoaded, Except.map]
      exact congrArg (Traced.mk (.ok ())) (List.append_nil _)

theorem mem_preorder_iff (file : Path) :
    file ∈ tree.preorder ↔ file ∈ reachable fileSystem path := by
  have entered := walk.mem_preorderList_iff file
  rwa [Tree.preorderList, Tree.preorderList, List.append_nil] at entered

theorem load_eq_ok_iff : (∃ config, load fileSystem path = .ok config) ↔
    ∀ file ∈ reachable fileSystem path, IsConfig fileSystem file := by
  have succeeds : (readAll fileSystem tree.preorder).outcome = .ok () ↔ _ :=
    outcome_readAll_eq_ok_iff
  simp only [readAll_eq_loadTraced walk, mem_preorder_iff walk] at succeeds
  rw [← succeeds]
  cases load fileSystem path <;> simp [Except.map]

theorem load_eq_error {before after : List Path} {file : Path} {error : ProjectError}
    (split : tree.preorder = before ++ file :: after)
    (areConfigs : ∀ earlier ∈ before, IsConfig fileSystem earlier)
    (isError : readOptions fileSystem file = .error error) :
    load fileSystem path = .error error := by
  have stops : readAll fileSystem (before ++ file :: after) = _ :=
    readAll_of_split areConfigs isError
  rw [← split, readAll_eq_loadTraced walk, Traced.mk.injEq] at stops
  cases isLoaded : load fileSystem path with
  | error other => simpa [isLoaded, Except.map] using stops.1
  | ok config => simp [isLoaded, Except.map] at stops

theorem load_congr {other : FileSystem}
    (sameDirectory : other.workingDirectory = fileSystem.workingDirectory)
    (same : ∀ file ∈ reachable fileSystem path, other.read file = fileSystem.read file) :
    load other path = load fileSystem path := by
  have sameOptions : ∀ file ∈ tree.preorder,
      readOptions other file = readOptions fileSystem file := fun file fileMem =>
    readOptions_congr (same file ((mem_preorder_iff walk file).1 fileMem))
  have otherWalk : IsDepthFirst other [] [path.normalize other.workingDirectory] [tree] := by
    rw [sameDirectory]
    apply walk.congr
    intro file fileMem
    simp only [Tree.preorderList, List.append_nil] at fileMem
    simp only [listed, sameOptions file fileMem, sameDirectory]
  rw [← outcome_loadTraced, ← outcome_loadTraced, loadTraced_eq walk, loadTraced_eq otherWalk,
    sameDirectory, mergeTree_congr sameDirectory sameOptions]

end

/--
Loading follows the depth-first tree of what can be reached, whatever builds on
whatever, and reads no file twice. It succeeds just if all that can be reached are
configurations; otherwise the first in preorder that is none decides the error.
Nothing else in the file system matters.
-/
theorem load_outcome (fileSystem : FileSystem) (path : Path) :
    ∃ tree,
      IsDepthFirst fileSystem [] [path.normalize fileSystem.workingDirectory] [tree] ∧
      (∀ forest, IsDepthFirst fileSystem [] [path.normalize fileSystem.workingDirectory] forest →
        forest = [tree]) ∧
      (∀ file, file ∈ tree.preorder ↔ file ∈ reachable fileSystem path) ∧
      (∀ bound config, fileSystem.entries.length < bound →
        merge fileSystem bound ⟨config, []⟩ (path.normalize fileSystem.workingDirectory) =
          merge fileSystem (fileSystem.entries.length + 1) ⟨config, []⟩
            (path.normalize fileSystem.workingDirectory)) ∧
      (loadTraced fileSystem path).outcome = load fileSystem path ∧
      (loadTraced fileSystem path).reads.Nodup ∧
      (∀ file ∈ (loadTraced fileSystem path).reads, file ∈ reachable fileSystem path) ∧
      ((∃ config, load fileSystem path = .ok config) ↔
        ∀ file ∈ reachable fileSystem path, IsConfig fileSystem file) ∧
      (∀ before file after, tree.preorder = before ++ file :: after →
        (∀ earlier ∈ before, IsConfig fileSystem earlier) →
        (∀ error, fileSystem.read file = .error error →
          load fileSystem path = .error (.unreadableConfig file error)) ∧
        ∀ text, fileSystem.read file = .ok text → Options.parse? text = none →
          load fileSystem path = .error (.malformedConfig file)) ∧
      ∀ other : FileSystem, other.workingDirectory = fileSystem.workingDirectory →
        (∀ file ∈ reachable fileSystem path, other.read file = fileSystem.read file) →
        load other path = load fileSystem path := by
  rcases exists_isDepthFirst_singleton _ (isNormal_start path) with ⟨tree, walk⟩
  have isPrefix := reads_readAll_prefix fileSystem tree.preorder
  rw [readAll_eq_loadTraced walk] at isPrefix
  have distinct : tree.preorder.Nodup := by simpa [Tree.preorderList] using walk.distinct.1
  refine ⟨tree, walk, fun forest other => walk.unique other, mem_preorder_iff walk, ?_,
    outcome_loadTraced fileSystem path, distinct.sublist isPrefix.sublist, ?_,
    load_eq_ok_iff walk, ?_, fun other => load_congr walk⟩
  · intro bound config enough
    rw [← outcome_mergeTraced, ← outcome_mergeTraced,
      mergeTraced_eq_mergeTree walk (isNormal_start path) enough,
      mergeTraced_eq_mergeTree walk (isNormal_start path) (Nat.lt_succ_self _)]
  · intro file fileMem
    exact (mem_preorder_iff walk file).1 (isPrefix.subset fileMem)
  · intro before file after split areConfigs
    constructor
    · intro error isError
      apply load_eq_error walk split areConfigs
      simp only [readOptions, isError]
    · intro text isText isMalformed
      apply load_eq_error walk split areConfigs
      simp only [readOptions, isText, isMalformed]

/-- Two files that build on each other. The second builds on a file that is missing, the first
also on one that is empty. -/
def brokenCircle : FileSystem where
  workingDirectory := ⟨"/p"⟩
  entries :=
    [(["p", "a.json"], optionsFile ["./b", "./d"] none),
      (["p", "b.json"], optionsFile ["./a", "./c"] none),
      (["p", "d.json"], .file "".toUTF8)]

/-- The files of that circle in the order in which they are reached. -/
def brokenTree : Tree Path :=
  .node ⟨"/p/a.json"⟩ [.node ⟨"/p/b.json"⟩ [.node ⟨"/p/c.json"⟩ []], .node ⟨"/p/d.json"⟩ []]

theorem readOptions_brokenCircle :
    readOptions brokenCircle ⟨"/p/a.json"⟩ = .ok ⟨["./b", "./d"], none, none⟩ ∧
    readOptions brokenCircle ⟨"/p/b.json"⟩ = .ok ⟨["./a", "./c"], none, none⟩ ∧
    readOptions brokenCircle ⟨"/p/c.json"⟩ =
      .error (.unreadableConfig ⟨"/p/c.json"⟩ .notFound) ∧
    readOptions brokenCircle ⟨"/p/d.json"⟩ = .error (.malformedConfig ⟨"/p/d.json"⟩) := by
  refine ⟨readOptions_optionsFile rfl, readOptions_optionsFile rfl, rfl, ?_⟩
  have isFile : brokenCircle.find ⟨"/p/d.json"⟩ = .ok (.file "".toUTF8) := rfl
  have isMalformed : Options.parse? "" = none := by decide +kernel
  simp only [readOptions, FileSystem.read, isFile, fromUTF8?_toUTF8, isMalformed]

theorem isDepthFirst_brokenTree :
    IsDepthFirst brokenCircle [] [⟨"/p/a.json"⟩] [brokenTree] := by
  rcases readOptions_brokenCircle with ⟨readA, readB, readC, readD⟩
  have listA : listed brokenCircle ⟨"/p/a.json"⟩ = [⟨"/p/b.json"⟩, ⟨"/p/d.json"⟩] :=
    listed_of_readOptions readA
  have listB : listed brokenCircle ⟨"/p/b.json"⟩ = [⟨"/p/a.json"⟩, ⟨"/p/c.json"⟩] :=
    listed_of_readOptions readB
  refine .enter (by decide) ?_ .done
  rw [listA]
  refine .enter (by decide) ?_ (.enter (by decide) ?_ .done)
  · rw [listB]
    refine .skip (by decide) (.enter (by decide) ?_ .done)
    rw [listed_of_error readC]
    exact .done
  · rw [listed_of_error readD]
    exact .done

/-- The missing file is the first in preorder, so the empty one makes no difference. -/
theorem load_outcome_brokenCircle :
    IsDepthFirst brokenCircle [] [⟨"/p/a.json"⟩] [brokenTree] ∧
    load brokenCircle ⟨"/p/a.json"⟩ = .error (.unreadableConfig ⟨"/p/c.json"⟩ .notFound) ∧
    (loadTraced brokenCircle ⟨"/p/a.json"⟩).reads.Nodup := by
  rcases load_outcome brokenCircle ⟨"/p/a.json"⟩ with
    ⟨tree, -, unique, -, -, -, distinct, -, -, fails, -⟩
  obtain rfl : brokenTree = tree := by simpa using unique _ isDepthFirst_brokenTree
  rcases readOptions_brokenCircle with ⟨readA, readB, -, -⟩
  have isFirst := fails [⟨"/p/a.json"⟩, ⟨"/p/b.json"⟩] ⟨"/p/c.json"⟩ [⟨"/p/d.json"⟩] rfl
    (by simp [isConfig_iff, readA, readB])
  exact ⟨isDepthFirst_brokenTree, isFirst.1 .notFound rfl, distinct⟩

end CallHierarchy.Config
