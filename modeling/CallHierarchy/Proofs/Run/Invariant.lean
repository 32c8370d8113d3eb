import CallHierarchy.Proofs.CallGraph.Forest
import CallHierarchy.Proofs.Run.Classification
import Mathlib.Data.List.Forall2
import Mathlib.Data.List.Perm.Basic

/-!
# What holds of every run

Files can be entered and their calls looked for in any order and any number of
times. Whatever is done, the units are numbered from one on without gaps, every
unit but the files stands directly inside exactly one other, which has a smaller
number, and no reference leads out of the run. A class is linked to constructors
only, and only a class is.

The invariant `Run.Sound` is kept by each of the two steps. Entering a file adds
the numbered outline of the file, whose own numbers are all accounted for;
looking for calls changes nothing but calls, and calls come from look-ups.
-/

namespace CallHierarchy

namespace SourceFile

/-- Whether only the root of a file can be a whole program. -/
def HasProgramAtRootOnly (file : SourceFile) : Prop :=
  ∀ node ∈ file.rootNode.preorder, node.kind = ⟨"program", true⟩ → node.around = []

end SourceFile

namespace CodeUnit

/-- Whether a unit stands for the given file as a whole. -/
def IsFile (unit : CodeUnit) (file : SourceFile) : Prop :=
  unit.kind = .file ∧ unit.name = some file.path.text ∧ unit.span.file = file.id

end CodeUnit

namespace Place

theorem around_ne_nil_of_mem_ofTrees {parent place : Place} {position : Nat}
    {trees : List SyntaxTree} (placeMem : place ∈ ofTrees parent position trees) :
    place.node.around ≠ [] := by
  rcases mem_ofTrees placeMem with ⟨branch, tree, -, inBranch⟩
  apply forall_mem_subtree (·.node.around ≠ []) _ (List.cons_ne_nil _ _) place inBranch
  intro other childTree childPosition _
  exact List.cons_ne_nil _ _

end Place

/-- Whether a graph is a numbered forest of units that refers to its own units only. -/
structure CallGraph.WellNested (graph : CallGraph) : Prop where
  keyed : graph.IsKeyed
  numbered : graph.units.map (·.id) = List.range' 1 graph.units.length
  root_mem : ∀ id ∈ graph.roots, id ∈ graph.units.map (·.id)
  child_mem : ∀ unit ∈ graph.units, ∀ id ∈ unit.children, id ∈ graph.units.map (·.id)
  call_mem : ∀ unit ∈ graph.units, ∀ id ∈ unit.calls, id ∈ graph.units.map (·.id)
  root_outermost : ∀ id ∈ graph.roots, ∀ unit ∈ graph.units, id ∉ unit.children
  /-- All other units are directly inside one unit, and stand there once. -/
  inside_one : ∀ unit ∈ graph.units, unit.id ∉ graph.roots →
    (graph.units.flatMap (·.children)).count unit.id = 1
  child_later : ∀ unit ∈ graph.units, ∀ id ∈ unit.children, unit.id < id

namespace Entity

theorem methodKind_ne_file (method : Node) : methodKind method ≠ .file := by
  unfold methodKind
  split_ifs <;> simp

theorem kindName_of_ofConstruct? {node : Node} {entity : Entity}
    (isEntity : ofConstruct? node = some entity) (isFile : entity.kind = .file) :
    node.kindName = "program" := by
  unfold ofConstruct? at isEntity
  split at isEntity <;> grind [methodKind_ne_file]

theorem kind_of_ofNode? {node : Node} {entity : Entity} (isEntity : ofNode? node = some entity)
    (isFile : entity.kind = .file) : node.kind = ⟨"program", true⟩ := by
  unfold ofNode? at isEntity
  split at isEntity
  next named =>
    rw [← kindName_of_ofConstruct? isEntity isFile, ← named]
    rfl
  · simp at isEntity

end Entity

namespace SourceFile

theorem HasProgramAtRootOnly.kind_ne_file {file : SourceFile} {place : Place} {entity : Entity}
    (programs : file.HasProgramAtRootOnly)
    (entityMem : (place, entity) ∈
      Place.entities (Place.ofTrees file.rootPlace 0 file.root.children)) :
    entity.kind ≠ .file := by
  intro isFile
  rcases Place.mem_entities.1 entityMem with ⟨placeMem, isEntity⟩
  have notRoot : place.node.around ≠ [] := Place.around_ne_nil_of_mem_ofTrees placeMem
  have nodeMem : place.node ∈ file.rootNode.preorder := by
    rw [← file.map_node_places, places, Place.subtree_eq]
    exact List.mem_map_of_mem (List.mem_cons_of_mem _ placeMem)
  rw [Place.entity?, if_neg (by simpa using notRoot)] at isEntity
  exact notRoot (programs place.node nodeMem (Entity.kind_of_ofNode? isEntity isFile))

end SourceFile

namespace Run

theorem length_units (run : Run) : run.units.length = run.size := by
  simp [units, size]

theorem mem_units_of_mem {run : Run} {entry : Entry} (entryMem : entry ∈ run.entries) :
    entry.unit ∈ run.units := by
  rw [units, List.mem_reverse]
  exact List.mem_map_of_mem entryMem

/-- The units that entering a file adds, numbered from a given number on. -/
def addedUnits (first : UnitId) (file : SourceFile) : List CodeUnit :=
  ((Outline.numbered first (Outline.ofFile file)).zipIdx first).map fun item =>
    item.1.1.unit item.2 item.1.2

section

variable (first : UnitId) (file : SourceFile)

theorem length_addedUnits :
    (addedUnits first file).length = (Outline.numbered first (Outline.ofFile file)).length := by
  simp [addedUnits]

theorem map_id_addedUnits :
    (addedUnits first file).map (·.id) = List.range' first (addedUnits first file).length := by
  rw [length_addedUnits, ← List.zipIdx_map_snd, addedUnits, List.map_map]
  rfl

/-- All new numbers but that of the file are directly inside one unit. -/
theorem perm_addedUnits : (first :: (addedUnits first file).flatMap (·.children)).Perm
    (List.range' first (addedUnits first file).length) := by
  let numbered := Outline.numbered first (Outline.ofFile file)
  have children : (addedUnits first file).flatMap (·.children) = numbered.flatMap (·.2) := by
    rw [← List.zipIdx_map_fst first numbered, addedUnits, List.flatMap_map, List.flatMap_map]
    rfl
  have inside := Outline.perm_numbered first (Outline.ofFile file)
  rw [← Outline.length_numbered first] at inside
  rwa [children, length_addedUnits]

theorem exists_isFile_addedUnits :
    ∃ unit ∈ addedUnits first file, unit.id = first ∧ unit.IsFile file :=
  ⟨_, List.mem_cons_self, rfl, rfl, rfl, rfl⟩

variable {first file} {unit : CodeUnit} (unitMem : unit ∈ addedUnits first file)

include unitMem

theorem lt_of_mem_addedUnits {child : UnitId} (childMem : child ∈ unit.children) :
    unit.id < child := by
  rcases List.mem_map.1 unitMem with ⟨item, itemMem, rfl⟩
  exact Outline.lt_of_mem_numbered first _ item itemMem child childMem

theorem calls_of_mem_addedUnits : unit.calls = [] := by
  rcases List.mem_map.1 unitMem with ⟨item, -, rfl⟩
  rfl

/-- Where whole programs are found at roots only, just the first new unit is a file. -/
theorem id_of_mem_addedUnits (programs : file.HasProgramAtRootOnly)
    (isFile : unit.kind = .file) : unit.id = first := by
  rcases List.mem_map.1 unitMem with ⟨item, itemMem, rfl⟩
  rcases List.mem_cons.1 itemMem with rfl | itemMem
  · rfl
  · have below : item.1 ∈ Outline.numberedPlaces (first + 1)
        (Place.ofTrees file.rootPlace 0 file.root.children) := by
      rw [← Outline.numberedList_belowPlace]
      exact List.fst_mem_of_mem_zipIdx itemMem
    rcases List.mem_map.1 below with ⟨entry, entryMem, isItem⟩
    rw [← isItem] at isFile
    exact absurd isFile (programs.kind_ne_file (List.fst_mem_of_mem_zipIdx entryMem))

end

theorem units_classify (run : Run) (file : SourceFile) :
    (run.classify file).units = run.units ++ addedUnits run.nextId file := by
  rw [units, entries_classify, ← Outline.numbered_ofFile, map_entries_enter (·.unit)
    (fun entity children id => entity.unit id children) (fun _ _ _ => rfl),
    List.reverse_append, List.reverse_reverse]
  rfl

theorem roots_classify (run : Run) (file : SourceFile) :
    (run.classify file).roots = run.roots ++ [run.nextId] := by
  rw [classify_eq]

theorem units_grant (run : Run) (claims : List (UnitId × List UnitId)) :
    (run.grant claims).units = run.units.map fun unit =>
      { unit with calls := (lastFor? claims unit.id).getD unit.calls } := by
  simp only [units, grant, List.map_map, List.map_reverse]
  rfl

/-- A step of an analysis: a file is entered, or its calls are looked for. -/
inductive Step where
  | classify (file : SourceFile)
  | resolve (declarations : Declarations) (file : SourceFile)

namespace Step

/-- The run after a step. -/
def apply (run : Run) : Step → Run
  | .classify file => run.classify file
  | .resolve declarations file => run.resolve declarations file

/-- The file whose units a step enters. -/
def entered? : Step → Option SourceFile
  | .classify file => some file
  | .resolve _ _ => none

end Step

/-- The run after some steps, from the start. -/
def ofSteps (steps : List Step) : Run :=
  steps.foldl Step.apply empty

/-- What holds of a run in which the given files were entered, in this order. -/
structure Sound (run : Run) (files : List SourceFile) : Prop where
  /-- Units are numbered from one on. -/
  numbered : run.units.map (·.id) = List.range' 1 run.units.length
  /-- Every number is a root or directly inside one unit, and only once. -/
  owned : (run.roots ++ run.units.flatMap (·.children)).Perm (List.range' 1 run.units.length)
  nested : ∀ unit ∈ run.units, ∀ child ∈ unit.children, unit.id < child
  called : ∀ unit ∈ run.units, ∀ id ∈ unit.calls, id ∈ List.range' 1 run.units.length
  /-- There is one root for each file, in order. -/
  rooted : List.Forall₂ (fun file id => ∃ unit ∈ run.units, unit.id = id ∧ unit.IsFile file)
    files run.roots
  ordered : run.roots.Pairwise (· < ·)
  filed : (∀ file ∈ files, file.HasProgramAtRootOnly) →
    ∀ unit ∈ run.units, unit.kind = .file → unit.id ∈ run.roots

theorem sound_empty : Sound empty [] where
  numbered := rfl
  owned := .nil
  nested := by simp [units, empty]
  called := by simp [units, empty]
  rooted := .nil
  ordered := .nil
  filed := by simp [units, empty]

/-- An edge leads to the unit of a declaration or to the constructor of a unit. -/
theorem edge?_cases {run : Run} {declarations : Declarations} {node : Node} {id : UnitId}
    (isEdge : run.edge? declarations node = some id) :
    (∃ key, run.unitOfDeclaration? key = some id) ∨
      ∃ constructed, run.constructorOf? constructed = some id := by
  unfold edge? at isEdge
  split at isEdge
  · rcases Option.bind_eq_some_iff.1 isEdge with ⟨callee, -, found⟩
    rcases List.exists_of_findSome?_eq_some found with ⟨key, -, isUnit⟩
    exact Or.inl ⟨key, isUnit⟩
  · rcases Option.bind_eq_some_iff.1 isEdge with ⟨expression, -, found⟩
    rcases Option.bind_eq_some_iff.1 found with ⟨constructed, -, isConstructor⟩
    exact Or.inr ⟨constructed, isConstructor⟩
  · rcases Option.bind_eq_some_iff.1 isEdge with ⟨property, -, found⟩
    rcases List.mem_filterMap.1 (List.mem_of_find?_eq_some found) with ⟨key, -, isUnit⟩
    exact Or.inl ⟨key, isUnit⟩
  · simp at isEdge

theorem mem_units_of_edge? {run : Run} {declarations : Declarations} {node : Node} {id : UnitId}
    (isEdge : run.edge? declarations node = some id) : ∃ unit ∈ run.units, unit.id = id := by
  have found : ∃ entry ∈ run.entries, entry.unit.id = id := by
    rcases edge?_cases isEdge with ⟨key, isUnit⟩ | ⟨constructed, isConstructor⟩
    · rcases Option.map_eq_some_iff.1 isUnit with ⟨entry, isEntry, isId⟩
      exact ⟨entry, List.mem_of_find?_eq_some isEntry, isId⟩
    · rcases Option.map_eq_some_iff.1 isConstructor with ⟨entry, isEntry, isId⟩
      exact ⟨entry, List.mem_of_find?_eq_some isEntry, isId⟩
  rcases found with ⟨entry, entryMem, isId⟩
  exact ⟨entry.unit, mem_units_of_mem entryMem, isId⟩

mutual

/--
What holds of all edges holds of all that is shared out, and what holds of all
units of nodes holds of those that claim something.
-/
theorem forall_mem_shareOut {run : Run} {declarations : Declarations} {file : SourceFile}
    {called caller : UnitId → Prop}
    (ofEdge : ∀ node id, run.edge? declarations node = some id → called id)
    (ofNode : ∀ tree around id, run.unitOfNode? (Node.key ⟨file, tree, around⟩) = some id →
      caller id) (around : List SyntaxTree) : ∀ tree : SyntaxTree,
    (∀ id ∈ (run.shareOut declarations file around tree).unclaimed, called id) ∧
      ∀ claim ∈ (run.shareOut declarations file around tree).claimed,
        caller claim.1 ∧ ∀ id ∈ claim.2, called id
  | .node label children => by
      rcases forall_mem_shareOutList ofEdge ofNode (.node label children :: around) children with
        ⟨unclaimed, claimed⟩
      have own : ∀ id ∈ (run.edge? declarations ⟨file, .node label children, around⟩).toList ++
          (run.shareOutList declarations file (.node label children :: around) children).unclaimed,
          called id := by
        intro id idMem
        rw [List.mem_append, Option.mem_toList] at idMem
        rcases idMem with isEdge | idMem
        · exact ofEdge _ id isEdge
        · exact unclaimed id idMem
      rw [shareOut]
      split
      next id isUnit =>
        refine ⟨by simp, ?_⟩
        intro claim claimMem
        rw [List.mem_append, List.mem_singleton] at claimMem
        rcases claimMem with claimMem | rfl
        · exact claimed claim claimMem
        · exact ⟨ofNode _ _ id isUnit, own⟩
      · exact ⟨own, claimed⟩

theorem forall_mem_shareOutList {run : Run} {declarations : Declarations} {file : SourceFile}
    {called caller : UnitId → Prop}
    (ofEdge : ∀ node id, run.edge? declarations node = some id → called id)
    (ofNode : ∀ tree around id, run.unitOfNode? (Node.key ⟨file, tree, around⟩) = some id →
      caller id) (around : List SyntaxTree) : ∀ trees : List SyntaxTree,
    (∀ id ∈ (run.shareOutList declarations file around trees).unclaimed, called id) ∧
      ∀ claim ∈ (run.shareOutList declarations file around trees).claimed,
        caller claim.1 ∧ ∀ id ∈ claim.2, called id
  | [] => by simp [shareOutList]
  | tree :: rest => by
      rcases forall_mem_shareOut ofEdge ofNode around tree with ⟨unclaimed, claimed⟩
      rcases forall_mem_shareOutList ofEdge ofNode around rest with ⟨unclaimedRest, claimedRest⟩
      simp only [shareOutList, List.mem_append]
      exact ⟨fun id idMem => idMem.elim (unclaimed id) (unclaimedRest id),
        fun claim claimMem => claimMem.elim (claimed claim) (claimedRest claim)⟩

end

/-- Units that claim something stand in the file, and what they claim are units of the run. -/
theorem mem_entries_of_mem_claims {run : Run} {declarations : Declarations} {file : SourceFile}
    {claim : UnitId × List UnitId} (claimMem : claim ∈ run.claims declarations file) :
    (∃ entry ∈ run.entries, entry.unit.id = claim.1 ∧ entry.node.file = file.id) ∧
      ∀ id ∈ claim.2, ∃ unit ∈ run.units, unit.id = id := by
  let InFile := fun id => ∃ entry ∈ run.entries, entry.unit.id = id ∧ entry.node.file = file.id
  have ofNode : ∀ tree around id, run.unitOfNode? (Node.key ⟨file, tree, around⟩) = some id →
      InFile id := by
    intro tree around id isUnit
    rcases Option.map_eq_some_iff.1 isUnit with ⟨entry, isEntry, isId⟩
    have isNode : entry.node = Node.key ⟨file, tree, around⟩ := by
      simpa using List.find?_some isEntry
    exact ⟨entry, List.mem_of_find?_eq_some isEntry, isId, congrArg NodeKey.file isNode⟩
  exact (forall_mem_shareOut (fun node id isEdge => mem_units_of_edge? isEdge) ofNode []
    file.root).2 claim claimMem

namespace Sound

variable {run : Run} {files : List SourceFile}

theorem mem_range_iff (sound : run.Sound files) {id : UnitId} :
    id ∈ List.range' 1 run.units.length ↔ ∃ unit ∈ run.units, unit.id = id := by
  rw [← sound.numbered, List.mem_map]

theorem resolve (sound : run.Sound files) (declarations : Declarations) (file : SourceFile) :
    (run.resolve declarations file).Sound files := by
  let claims := run.claims declarations file
  have fromEdges : ∀ claim ∈ claims, ∀ id ∈ claim.2, id ∈ List.range' 1 run.units.length :=
    fun claim claimMem id idMem =>
      sound.mem_range_iff.2 ((mem_entries_of_mem_claims claimMem).2 id idMem)
  rw [resolve_eq]
  have units := run.units_grant claims
  have length : (run.grant claims).units.length = run.units.length := by
    rw [units, List.length_map]
  constructor
  case numbered =>
    rw [length, ← sound.numbered, units, List.map_map]
    rfl
  case owned =>
    rw [length, units, List.flatMap_map]
    exact sound.owned
  case nested =>
    intro unit unitMem child childMem
    rw [units] at unitMem
    rcases List.mem_map.1 unitMem with ⟨old, oldMem, rfl⟩
    exact sound.nested old oldMem child childMem
  case called =>
    intro unit unitMem id idMem
    rw [units] at unitMem
    rcases List.mem_map.1 unitMem with ⟨old, oldMem, rfl⟩
    rw [length]
    cases isLast : lastFor? claims old.id with
    | none =>
        simp only [isLast, Option.getD_none] at idMem
        exact sound.called old oldMem id idMem
    | some calls =>
        simp only [isLast, Option.getD_some] at idMem
        exact fromEdges (old.id, calls) (mem_of_lastFor? isLast) id idMem
  case rooted =>
    refine sound.rooted.imp ?_
    rintro file id ⟨unit, unitMem, isId, isFile⟩
    rw [units]
    exact ⟨_, List.mem_map.2 ⟨unit, unitMem, rfl⟩, isId, isFile⟩
  case ordered => exact sound.ordered
  case filed =>
    intro programs unit unitMem isFile
    rw [units] at unitMem
    rcases List.mem_map.1 unitMem with ⟨old, oldMem, rfl⟩
    exact sound.filed programs old oldMem isFile

theorem classify (sound : run.Sound files) (file : SourceFile) :
    (run.classify file).Sound (files ++ [file]) := by
  let added := addedUnits run.nextId file
  have units : (run.classify file).units = run.units ++ added := run.units_classify file
  have roots := run.roots_classify file
  have nextId : run.nextId = 1 + run.units.length := by
    rw [nextId, ← length_units, Nat.add_comm]
  have range : List.range' 1 (run.classify file).units.length =
      List.range' 1 run.units.length ++ List.range' run.nextId added.length := by
    rw [units, List.length_append, nextId, List.range'_append_1]
  constructor
  case numbered =>
    rw [range, units, List.map_append, sound.numbered, map_id_addedUnits]
  case owned =>
    rw [range, units, roots, List.flatMap_append]
    refine List.Perm.trans ?_ (sound.owned.append (perm_addedUnits run.nextId file))
    rw [List.append_assoc, List.append_assoc]
    apply List.Perm.append_left
    rw [List.singleton_append]
    exact List.perm_middle.symm
  case nested =>
    intro unit unitMem child childMem
    rw [units, List.mem_append] at unitMem
    rcases unitMem with unitMem | unitMem
    · exact sound.nested unit unitMem child childMem
    · exact lt_of_mem_addedUnits unitMem childMem
  case called =>
    intro unit unitMem id idMem
    rw [units, List.mem_append] at unitMem
    rcases unitMem with unitMem | unitMem
    · rw [range]
      exact List.mem_append_left _ (sound.called unit unitMem id idMem)
    · rw [calls_of_mem_addedUnits unitMem] at idMem
      exact absurd idMem List.not_mem_nil
  case rooted =>
    rcases exists_isFile_addedUnits run.nextId file with ⟨root, rootMem, isRoot⟩
    rw [roots, units]
    refine List.rel_append (sound.rooted.imp ?_)
      (.cons ⟨root, List.mem_append_right _ rootMem, isRoot⟩ .nil)
    rintro other id ⟨unit, unitMem, isOther⟩
    exact ⟨unit, List.mem_append_left _ unitMem, isOther⟩
  case ordered =>
    rw [roots, List.pairwise_append]
    refine ⟨sound.ordered, List.pairwise_singleton _ _, ?_⟩
    intro root rootMem id idMem
    have known := sound.owned.subset (List.mem_append_left _ rootMem)
    rw [List.mem_singleton.1 idMem, nextId]
    exact (List.mem_range'_1.1 known).2
  case filed =>
    intro programs unit unitMem isFile
    rw [roots, List.mem_append, List.mem_singleton]
    rw [units, List.mem_append] at unitMem
    rcases unitMem with unitMem | unitMem
    · exact Or.inl (sound.filed (fun other otherMem => programs other
        (List.mem_append_left _ otherMem)) unit unitMem isFile)
    · exact Or.inr (id_of_mem_addedUnits unitMem (programs file (by simp)) isFile)

theorem kind_of_mem_roots (sound : run.Sound files) {unit : CodeUnit} (unitMem : unit ∈ run.units)
    (isRoot : unit.id ∈ run.roots) : unit.kind = .file := by
  rcases List.mem_iff_getElem.1 isRoot with ⟨position, inRoots, isId⟩
  have lengths := sound.rooted.length_eq
  rcases List.forall₂_iff_get.1 sound.rooted with ⟨-, atPosition⟩
  rcases atPosition position (by omega) inRoots with ⟨root, rootMem, isRootId, isFile⟩
  have distinct : (run.units.map (·.id)).Nodup := by
    rw [sound.numbered]
    exact List.nodup_range' 1 Nat.one_pos
  have same : unit = root := List.inj_on_of_nodup_map distinct unitMem rootMem
    (by rw [isRootId, ← isId]; rfl)
  rw [same]
  exact isFile.1

theorem apply (sound : run.Sound files) (step : Step) :
    (step.apply run).Sound (files ++ step.entered?.toList) := by
  cases step with
  | classify file => exact sound.classify file
  | resolve declarations file =>
      simp only [Step.entered?, Option.toList_none, List.append_nil]
      exact sound.resolve declarations file

theorem foldl_apply (sound : run.Sound files) (steps : List Step) :
    (steps.foldl Step.apply run).Sound (files ++ steps.filterMap Step.entered?) := by
  induction steps generalizing run files with
  | nil => simpa using sound
  | cons step rest ih =>
      have later := ih (sound.apply step)
      rw [List.append_assoc] at later
      cases step <;> exact later

end Sound

/-- Whether only constructors are linked, and only to classes. -/
def Linked (run : Run) : Prop :=
  ∀ entry ∈ run.entries, ∀ id, entry.constructs = some id →
    entry.unit.kind = .constructor ∧
      ∃ other ∈ run.entries, other.unit.id = id ∧ other.unit.kind = .classDefinition

theorem linked_empty : Linked empty := by
  simp [Linked, empty]

namespace Linked

variable {run : Run}

theorem add (linked : run.Linked) (entity : Entity) (children : List UnitId) :
    (run.add entity children).Linked := by
  intro entry entryMem id isLinked
  rw [entries_add] at entryMem ⊢
  have inRun : entry.unit.kind = .constructor ∧
      ∃ other ∈ run.entries, other.unit.id = id ∧ other.unit.kind = .classDefinition := by
    rcases List.mem_cons.1 entryMem with rfl | entryMem
    · rcases Option.filter_eq_some_iff.1 isLinked with ⟨found, isClass⟩
      rcases Option.bind_eq_some_iff.1 found with ⟨constructed, isConstructed, -⟩
      have isConstructor : entity.kind = .constructor := by
        unfold Entity.constructedClass? at isConstructed
        split at isConstructed
        · assumption
        · simp at isConstructed
      rcases Option.map_eq_some_iff.1 (eq_of_beq isClass) with ⟨other, isOther, isKind⟩
      have isId : other.unit.id = id := by simpa using List.find?_some isOther
      exact ⟨isConstructor, other, List.mem_of_find?_eq_some isOther, isId, isKind⟩
    · exact linked entry entryMem id isLinked
  rcases inRun with ⟨isConstructor, other, otherMem, isOther⟩
  exact ⟨isConstructor, other, List.mem_cons_of_mem _ otherMem, isOther⟩

theorem enter (linked : run.Linked) (numbered : List (Entity × List UnitId)) :
    (run.enter numbered).Linked := by
  induction numbered generalizing run with
  | nil => exact linked
  | cons item rest ih => exact ih (linked.add item.1 item.2)

theorem grant (linked : run.Linked) (claims : List (UnitId × List UnitId)) :
    (run.grant claims).Linked := by
  intro entry entryMem id isLinked
  rcases List.mem_map.1 entryMem with ⟨old, oldMem, rfl⟩
  rcases linked old oldMem id isLinked with ⟨isConstructor, other, otherMem, isOther⟩
  exact ⟨isConstructor, _, List.mem_map_of_mem otherMem, isOther⟩

theorem apply (linked : run.Linked) (step : Step) : (step.apply run).Linked := by
  cases step with
  | classify file =>
      rw [Step.apply, classify_eq]
      exact linked.enter _
  | resolve declarations file =>
      rw [Step.apply, resolve_eq]
      exact linked.grant _

theorem foldl_apply (linked : run.Linked) (steps : List Step) :
    (steps.foldl Step.apply run).Linked := by
  induction steps generalizing run with
  | nil => exact linked
  | cons step rest ih => exact ih (linked.apply step)

theorem of_constructorOf? (linked : run.Linked) {constructed id : UnitId}
    (isConstructor : run.constructorOf? constructed = some id) :
    (∃ unit ∈ run.units, unit.id = constructed ∧ unit.kind = .classDefinition) ∧
      ∃ unit ∈ run.units, unit.id = id ∧ unit.kind = .constructor := by
  rcases Option.map_eq_some_iff.1 isConstructor with ⟨entry, isEntry, isId⟩
  have entryMem := List.mem_of_find?_eq_some isEntry
  have isLinked : entry.constructs = some constructed := by simpa using List.find?_some isEntry
  rcases linked entry entryMem constructed isLinked with ⟨isKind, other, otherMem, isOther⟩
  exact ⟨⟨other.unit, mem_units_of_mem otherMem, isOther⟩,
    entry.unit, mem_units_of_mem entryMem, isId, isKind⟩

end Linked

theorem isKeyed_finish (run : Run) (paths : List Path) : (run.finish paths).IsKeyed := by
  intro entry entryMem
  rcases List.mem_map.1 entryMem with ⟨unit, -, rfl⟩
  rfl

theorem Sound.wellNested {run : Run} {files : List SourceFile} (sound : run.Sound files)
    (paths : List Path) : (run.finish paths).WellNested := by
  have distinct := sound.owned.nodup_iff.2 (List.nodup_range' 1 Nat.one_pos)
  have insideMem : ∀ unit ∈ run.units, ∀ id ∈ unit.children,
      id ∈ run.units.flatMap (·.children) := fun unit unitMem id idMem =>
    List.mem_flatMap.2 ⟨unit, unitMem, idMem⟩
  constructor
  case keyed => exact run.isKeyed_finish paths
  all_goals rw [units_finish]
  case numbered => exact sound.numbered
  case root_mem =>
    intro id idMem
    have known := sound.owned.subset (List.mem_append_left _ idMem)
    rwa [← sound.numbered] at known
  case child_mem =>
    intro unit unitMem id idMem
    have known := sound.owned.subset (List.mem_append_right _ (insideMem unit unitMem id idMem))
    rwa [← sound.numbered] at known
  case call_mem =>
    intro unit unitMem id idMem
    have known := sound.called unit unitMem id idMem
    rwa [← sound.numbered] at known
  case root_outermost =>
    intro id idMem unit unitMem inside
    exact (List.nodup_append.1 distinct).2.2 id idMem id (insideMem unit unitMem id inside) rfl
  case inside_one =>
    intro unit unitMem notRoot
    have known : unit.id ∈ run.roots ++ run.units.flatMap (·.children) := by
      rw [sound.owned.mem_iff, ← sound.numbered]
      exact List.mem_map_of_mem unitMem
    have once := List.count_eq_one_of_mem distinct known
    have outside : run.roots.count unit.id = 0 := List.count_eq_zero_of_not_mem notRoot
    rwa [List.count_append, outside, Nat.zero_add] at once
  case child_later => exact sound.nested

/--
Whatever the steps are, in any order and with any repetitions, the units of the
graph form a numbered forest and all references stay inside it. There is one
root for each file entered, in order; where whole programs are found at roots of
trees only, the roots are just the files. Only classes have constructors.
-/
theorem wellNested_ofSteps (steps : List Step) (paths : List Path) :
    let run := ofSteps steps
    let graph := run.finish paths
    let entered := steps.filterMap Step.entered?
    graph.WellNested ∧
    List.Forall₂ (fun file id => ∃ unit ∈ graph.units, unit.id = id ∧ unit.IsFile file)
      entered graph.roots ∧
    graph.roots.Pairwise (· < ·) ∧
    ((∀ file ∈ entered, file.HasProgramAtRootOnly) →
      ∀ unit ∈ graph.units, unit.kind = .file ↔ unit.id ∈ graph.roots) ∧
    ∀ constructed id, run.constructorOf? constructed = some id →
      (∃ unit ∈ graph.units, unit.id = constructed ∧ unit.kind = .classDefinition) ∧
        ∃ unit ∈ graph.units, unit.id = id ∧ unit.kind = .constructor := by
  intro run graph entered
  have sound : run.Sound entered := sound_empty.foldl_apply steps
  have linked : run.Linked := linked_empty.foldl_apply steps
  have units : graph.units = run.units := run.units_finish paths
  rw [units]
  refine ⟨sound.wellNested paths, sound.rooted, sound.ordered, ?_,
    fun constructed id => linked.of_constructorOf?⟩
  intro programs unit unitMem
  refine ⟨sound.filed programs unit unitMem, ?_⟩
  intro isRoot
  exact sound.kind_of_mem_roots unitMem isRoot

/-- A class with a constructor. -/
def constructedClass : SourceFile where
  id := 0
  path := ⟨"class.ts"⟩
  text := "class C { constructor() {} }"
  root :=
    .node ⟨⟨"program", true⟩, 0, 28, none⟩
      [.node ⟨⟨"class_declaration", true⟩, 0, 28, none⟩
        [.node ⟨⟨"class_body", true⟩, 8, 28, some "body"⟩
          [.node ⟨⟨"method_definition", true⟩, 10, 26, none⟩
            [.node ⟨⟨"property_identifier", true⟩, 10, 21, some "name"⟩ []]]]]

/-- The class is entered twice, and its calls are looked for before and in between. -/
def repeatedSteps : List Step :=
  [.resolve (fun _ => []) constructedClass, .classify constructedClass,
    .resolve (fun _ => []) constructedClass, .classify constructedClass]

theorem wellNested_repeatedSteps :
    constructedClass.HasProgramAtRootOnly ∧
    ((ofSteps repeatedSteps).finish []).roots = [1, 4] ∧
    ((ofSteps repeatedSteps).finish []).WellNested ∧
    (∀ unit ∈ ((ofSteps repeatedSteps).finish []).units, unit.kind = .file ↔ unit.id ∈ [1, 4]) ∧
    (ofSteps repeatedSteps).constructorOf? 5 = some 6 ∧
    ∃ unit ∈ ((ofSteps repeatedSteps).finish []).units, unit.id = 6 ∧ unit.kind = .constructor := by
  have programs : constructedClass.HasProgramAtRootOnly := by
    unfold SourceFile.HasProgramAtRootOnly
    decide
  have linked : (ofSteps repeatedSteps).constructorOf? 5 = some 6 := by decide
  rcases wellNested_ofSteps repeatedSteps [] with ⟨wellNested, -, -, files, constructors⟩
  refine ⟨programs, by decide, wellNested, ?_, linked, (constructors 5 6 linked).2⟩
  exact files (by simpa [repeatedSteps, Step.entered?] using programs)

end Run
end CallHierarchy
