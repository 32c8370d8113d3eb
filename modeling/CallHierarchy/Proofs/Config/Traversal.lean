import CallHierarchy.Proofs.Config.Inheritance

/-!
# Depth-first trees of configurations

The files that a configuration builds on may build on each other in any way, also
in circles. A walk through them that enters each file once has a tree: below each
file stand those of the files it lists that have not been entered before. A file
that cannot be read lists none.

There is exactly one such tree. Its files are those that can be reached, each of
them once, and their preorder is the order in which the walk enters them. The tree
is finite because a file with others below it can be read, and so has its own entry
in the file system.
-/

namespace CallHierarchy.Config

/-- The files that a file builds on, none if it cannot be read. -/
def listed (fileSystem : FileSystem) (path : Path) : List Path :=
  match readOptions fileSystem path with
  | .ok options => parentPaths fileSystem.workingDirectory path options
  | .error _ => []

/--
Whether some trees show a depth-first walk that is to enter the files of an agenda
and those that they build on, and passes over what has been seen.
-/
inductive IsDepthFirst (fileSystem : FileSystem) :
    List Path → List Path → List (Tree Path) → Prop
  | done {seen : List Path} : IsDepthFirst fileSystem seen [] []
  | skip {seen agenda : List Path} {path : Path} {forest : List (Tree Path)}
      (isSeen : path ∈ seen) (rest : IsDepthFirst fileSystem seen agenda forest) :
      IsDepthFirst fileSystem seen (path :: agenda) forest
  | enter {seen agenda : List Path} {path : Path} {below forest : List (Tree Path)}
      (isNew : path ∉ seen)
      (inside : IsDepthFirst fileSystem (path :: seen) (listed fileSystem path) below)
      (rest : IsDepthFirst fileSystem ((Tree.node path below).preorder.reverse ++ seen) agenda
        forest) :
      IsDepthFirst fileSystem seen (path :: agenda) (.node path below :: forest)

variable {fileSystem : FileSystem} {seen agenda pending : List Path} {path : Path}
  {forest : List (Tree Path)}

theorem listed_of_readOptions {options : Options}
    (isRead : readOptions fileSystem path = .ok options) :
    listed fileSystem path = parentPaths fileSystem.workingDirectory path options := by
  simp only [listed, isRead]

theorem listed_of_error {error : ProjectError}
    (isError : readOptions fileSystem path = .error error) : listed fileSystem path = [] := by
  simp only [listed, isError]

theorem exists_options_of_listed (lists : listed fileSystem path ≠ []) :
    ∃ options, readOptions fileSystem path = .ok options := by
  cases isRead : readOptions fileSystem path with
  | ok options => exact ⟨options, rfl⟩
  | error error => exact absurd (listed_of_error isRead) lists

theorem mem_listed {parent : Path} :
    parent ∈ listed fileSystem path ↔ BuildsOn fileSystem path parent := by
  cases isRead : readOptions fileSystem path with
  | ok options => simp [listed_of_readOptions isRead, BuildsOn, isRead]
  | error error => simp [listed_of_error isRead, BuildsOn, isRead]

theorem isNormal_of_mem_listed {parent : Path} (parentMem : parent ∈ listed fileSystem path) :
    parent.IsNormal := by
  rcases mem_listed.1 parentMem with ⟨options, -, parentMem⟩
  exact isNormal_of_mem_parentPaths parentMem

namespace IsDepthFirst

theorem unique {other : List (Tree Path)} (walk : IsDepthFirst fileSystem seen agenda forest)
    (otherWalk : IsDepthFirst fileSystem seen agenda other) : other = forest := by
  induction walk generalizing other with
  | done =>
      cases otherWalk
      rfl
  | skip isSeen rest ih =>
      cases otherWalk with
      | skip _ otherRest => exact ih otherRest
      | enter isNew _ _ => exact absurd isSeen isNew
  | enter isNew inside rest ihInside ihRest =>
      cases otherWalk with
      | skip isSeen _ => exact absurd isSeen isNew
      | enter _ otherInside otherRest =>
          obtain rfl := ihInside otherInside
          rw [ihRest otherRest]

/-- No file is entered twice, and none that has been seen. -/
theorem distinct (walk : IsDepthFirst fileSystem seen agenda forest) :
    (Tree.preorderList forest).Nodup ∧ ∀ file ∈ Tree.preorderList forest, file ∉ seen := by
  induction walk with
  | done => simp [Tree.preorderList]
  | skip _ _ ih => exact ih
  | enter isNew inside rest ihInside ihRest =>
      rcases ihInside with ⟨insideDistinct, insideNew⟩
      rcases ihRest with ⟨restDistinct, restNew⟩
      simp only [Tree.preorderList, Tree.preorder, List.cons_append, List.nodup_cons,
        List.nodup_append, List.mem_append, List.mem_cons, List.mem_reverse] at *
      grind

/-- All that is entered can be reached from the agenda. -/
theorem exists_reflTransGen (walk : IsDepthFirst fileSystem seen agenda forest) {file : Path}
    (fileMem : file ∈ Tree.preorderList forest) :
    ∃ start ∈ agenda, Relation.ReflTransGen (BuildsOn fileSystem) start file := by
  induction walk with
  | done => simp [Tree.preorderList] at fileMem
  | skip _ _ ih =>
      rcases ih fileMem with ⟨start, startMem, reaches⟩
      exact ⟨start, List.mem_cons_of_mem _ startMem, reaches⟩
  | @enter _ _ path _ _ isNew inside rest ihInside ihRest =>
      simp only [Tree.preorderList, Tree.preorder, List.mem_append, List.mem_cons] at fileMem
      rcases fileMem with (rfl | below) | later
      · exact ⟨file, List.mem_cons_self, .refl⟩
      · rcases ihInside below with ⟨start, startMem, reaches⟩
        exact ⟨path, List.mem_cons_self, reaches.head (mem_listed.1 startMem)⟩
      · rcases ihRest later with ⟨start, startMem, reaches⟩
        exact ⟨start, List.mem_cons_of_mem _ startMem, reaches⟩

/-- The agenda is dealt with, and so is all that the entered files list. -/
theorem closed (walk : IsDepthFirst fileSystem seen agenda forest) :
    (∀ file ∈ agenda, file ∈ seen ∨ file ∈ Tree.preorderList forest) ∧
    ∀ file ∈ Tree.preorderList forest, ∀ parent ∈ listed fileSystem file,
      parent ∈ seen ∨ parent ∈ Tree.preorderList forest := by
  induction walk with
  | done => simp [Tree.preorderList]
  | skip isSeen _ ih =>
      refine ⟨?_, ih.2⟩
      simp only [List.mem_cons, forall_eq_or_imp]
      exact ⟨.inl isSeen, ih.1⟩
  | enter isNew inside rest ihInside ihRest =>
      rcases ihInside with ⟨listedInside, closedInside⟩
      rcases ihRest with ⟨listedRest, closedRest⟩
      simp only [Tree.preorderList, Tree.preorder, List.mem_append, List.mem_cons,
        List.mem_reverse] at *
      grind

theorem mem_preorderList_iff {start : Path} (walk : IsDepthFirst fileSystem [] [start] forest)
    (file : Path) : file ∈ Tree.preorderList forest ↔
      Relation.ReflTransGen (BuildsOn fileSystem) start file := by
  rcases walk.closed with ⟨entered, closed⟩
  constructor
  · intro fileMem
    rcases walk.exists_reflTransGen fileMem with ⟨other, otherMem, reaches⟩
    rwa [List.mem_singleton.1 otherMem] at reaches
  · intro reaches
    induction reaches with
    | refl => simpa using entered start List.mem_cons_self
    | tail _ buildsOn ih => simpa using closed _ ih _ (mem_listed.2 buildsOn)

/-- Files that list the same are walked through in the same way. -/
theorem congr {other : FileSystem} (walk : IsDepthFirst fileSystem seen agenda forest)
    (same : ∀ file ∈ Tree.preorderList forest, listed other file = listed fileSystem file) :
    IsDepthFirst other seen agenda forest := by
  induction walk with
  | done => exact .done
  | skip isSeen _ ih => exact .skip isSeen (ih same)
  | enter isNew inside rest ihInside ihRest =>
      simp only [Tree.preorderList, Tree.preorder, List.mem_append, List.mem_cons] at same
      refine .enter isNew ?_ (ihRest fun file fileMem => same file (.inr fileMem))
      rw [same _ (.inl (.inl rfl))]
      exact ihInside fun file fileMem => same file (.inl (.inr fileMem))

end IsDepthFirst

/-- A walk through an agenda is put together from the walks below its files. -/
theorem exists_isDepthFirst_of_below
    (below : ∀ path ∈ agenda, ∀ seen, pending ⊆ seen → path ∉ seen →
      ∃ forest, IsDepthFirst fileSystem (path :: seen) (listed fileSystem path) forest)
    (areSeen : pending ⊆ seen) : ∃ forest, IsDepthFirst fileSystem seen agenda forest := by
  induction agenda generalizing seen with
  | nil => exact ⟨[], .done⟩
  | cons path agenda ih =>
      simp only [List.mem_cons, forall_eq_or_imp] at below
      by_cases isSeen : path ∈ seen
      · rcases ih below.2 areSeen with ⟨forest, rest⟩
        exact ⟨forest, .skip isSeen rest⟩
      · rcases below.1 seen areSeen isSeen with ⟨inner, inside⟩
        rcases ih below.2 (List.Subset.trans areSeen (List.subset_append_right _ seen)) with
          ⟨forest, rest⟩
        exact ⟨.node path inner :: forest, .enter isSeen inside rest⟩

/-- Each file that is being walked through leaves one entry less for the files below it. -/
theorem exists_isDepthFirst {room : Nat} (isPending : Pending fileSystem pending)
    (areSeen : pending ⊆ seen)
    (areNormal : ∀ path ∈ agenda, listed fileSystem path ≠ [] → path.IsNormal)
    (enough : fileSystem.entries.length ≤ pending.length + room) :
    ∃ forest, IsDepthFirst fileSystem seen agenda forest := by
  induction room generalizing pending seen agenda with
  | zero =>
      refine exists_isDepthFirst_of_below ?_ areSeen
      intro path pathMem seen areSeen isNew
      by_cases lists : listed fileSystem path = []
      · exact ⟨[], lists ▸ .done⟩
      · rcases exists_options_of_listed lists with ⟨options, isRead⟩
        have bound := (isPending.cons (areNormal path pathMem lists) isRead
          fun pathMem => isNew (areSeen pathMem)).length_le
        simp only [List.length_cons] at bound
        omega
  | succ room ih =>
      refine exists_isDepthFirst_of_below ?_ areSeen
      intro path pathMem seen areSeen isNew
      by_cases lists : listed fileSystem path = []
      · exact ⟨[], lists ▸ .done⟩
      · rcases exists_options_of_listed lists with ⟨options, isRead⟩
        have stillPending := isPending.cons (areNormal path pathMem lists) isRead
          fun pathMem => isNew (areSeen pathMem)
        refine ih stillPending ?_ (fun parent parentMem _ => isNormal_of_mem_listed parentMem) ?_
        · exact List.cons_subset_cons path areSeen
        · simp only [List.length_cons]
          omega

/-- A single file is the root of its tree. -/
theorem exists_isDepthFirst_singleton (start : Path)
    (isNormal : listed fileSystem start ≠ [] → start.IsNormal) :
    ∃ tree, IsDepthFirst fileSystem [] [start] [tree] := by
  have walkable : ∃ forest, IsDepthFirst fileSystem [] [start] forest :=
    exists_isDepthFirst ⟨List.nodup_nil, List.nil_subset _⟩ (List.nil_subset _)
      (by simpa using isNormal) (Nat.le_add_left _ _)
  rcases walkable with ⟨forest, walk⟩
  cases walk with
  | skip isSeen => cases isSeen
  | enter isNew inside rest =>
      cases rest
      exact ⟨_, .enter isNew inside .done⟩

end CallHierarchy.Config
