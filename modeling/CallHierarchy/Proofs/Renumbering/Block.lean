import CallHierarchy.Proofs.Alike.Run

/-!
# The units of a file as a block

Where no unit of a file has been entered yet, entering it adds a block of units
that depends on the file alone, up to the numbers of the file and of its units.
The block is that of the file entered into an empty run, with the number of the
file replaced and all numbers of units moved up by the number of units so far.
Among the units of several files, those of one of them are its block.
-/

namespace CallHierarchy

/-- The file under another number. -/
def SourceFile.renumber (numbers : FileId → FileId) (file : SourceFile) : SourceFile :=
  { file with id := numbers file.id }

/-- The node in its file under another number. -/
def Node.renumber (numbers : FileId → FileId) (node : Node) : Node :=
  { node with file := node.file.renumber numbers }

/-- The place in its file under another number. -/
def Place.renumber (numbers : FileId → FileId) (place : Place) : Place :=
  { place with node := place.node.renumber numbers }

theorem SourceFile.alike_renumber (numbers : FileId → FileId) (file : SourceFile) :
    file.Alike numbers (file.renumber numbers) :=
  ⟨rfl, rfl, rfl, Commented.refl [] file.root, .inl rfl⟩

/-- Some files, and the same files under other numbers. -/
def SourceFile.renumbering (files : List SourceFile) {numbers : FileId → FileId}
    (injective : Function.Injective numbers) : Pairing where
  numbers := numbers
  injective := injective
  pairs file other := file ∈ files ∧ other = file.renumber numbers

namespace Entry

/-- The numbers of units that an entry refers to. -/
def references (entry : Entry) : List UnitId :=
  entry.unit.id :: entry.unit.children ++ entry.unit.calls ++ entry.constructs.toList

/-- To rename twice is to rename once, where the numbers in question agree. -/
theorem rename_rename {files : FileId → FileId} {first second both : UnitId → UnitId}
    {entry : Entry} (agree : ∀ id ∈ entry.references, second (first id) = both id) :
    (entry.rename id first).rename files second = entry.rename files both := by
  simp only [references, List.mem_append, List.mem_cons, Option.mem_toList] at agree
  have children : (entry.unit.children.map first).map second = entry.unit.children.map both := by
    rw [List.map_map]
    exact List.map_congr_left fun id idMem => agree id (by simp [idMem])
  have calls : (entry.unit.calls.map first).map second = entry.unit.calls.map both := by
    rw [List.map_map]
    exact List.map_congr_left fun id idMem => agree id (by simp [idMem])
  have constructs : (entry.constructs.map first).map second = entry.constructs.map both := by
    rw [Option.map_map]
    exact Option.map_congr fun id isId => agree id (by simp [isId])
  have own := agree entry.unit.id (by simp)
  simp only [rename, CodeUnit.rename, children, calls, constructs, own, Option.map_map]
  rfl

end Entry

theorem Entity.isSome_ofNode?_renumber (numbers : FileId → FileId) (file : SourceFile)
    (tree parent : SyntaxTree) (around : List SyntaxTree) :
    (ofNode? (Node.renumber numbers ⟨file, tree, parent :: around⟩)).isSome =
      (ofNode? ⟨file, tree, parent :: around⟩).isSome := by
  have kindName : (Node.renumber numbers ⟨file, tree, parent :: around⟩).kindName =
      Node.kindName ⟨file, tree, parent :: around⟩ := rfl
  have isNamed : (Node.renumber numbers ⟨file, tree, parent :: around⟩).isNamed =
      Node.isNamed ⟨file, tree, parent :: around⟩ := rfl
  have isClassMember : (Node.renumber numbers ⟨file, tree, parent :: around⟩).isClassMember =
      Node.isClassMember ⟨file, tree, parent :: around⟩ := rfl
  simp only [ofNode?, ofConstruct?, isNamed, kindName, isClassMember]
  split
  · split
    case h_4 => split <;> rfl
    all_goals rfl
  · rfl

namespace Place

variable (numbers : FileId → FileId)

theorem definesUnit_comp_renumber : definesUnit ∘ renumber numbers = definesUnit := by
  funext place
  rcases place with ⟨⟨file, tree, _ | ⟨parent, around⟩⟩, address⟩
  · rfl
  · exact Entity.isSome_ofNode?_renumber numbers file tree parent around

mutual

theorem ofTree_renumber (file : SourceFile) (around : List SyntaxTree) (address : List Nat) :
    ∀ tree : SyntaxTree, ofTree (file.renumber numbers) around address tree =
      (ofTree file around address tree).map (renumber numbers)
  | .node label children => by
      simp only [ofTree, List.map_cons]
      exact congrArg (_ :: ·)
        (ofTrees_renumber ⟨⟨file, .node label children, around⟩, address⟩ 0 children)

theorem ofTrees_renumber (parent : Place) (position : Nat) : ∀ trees : List SyntaxTree,
    ofTrees (parent.renumber numbers) position trees =
      (ofTrees parent position trees).map (renumber numbers)
  | [] => rfl
  | tree :: rest => by
      have first := ofTree_renumber parent.node.file (parent.node.tree :: parent.node.around)
        (position :: parent.address) tree
      rw [ofTrees, ofTrees, List.map_append, ← first, ← ofTrees_renumber parent _ rest]
      rfl

end

end Place

theorem SourceFile.places_renumber (numbers : FileId → FileId) (file : SourceFile) :
    (file.renumber numbers).places = file.places.map (Place.renumber numbers) :=
  Place.ofTree_renumber numbers file [] [] file.root

theorem SourceFile.nodup_ids_renumber {numbers : FileId → FileId}
    (injective : Function.Injective numbers) {files : List SourceFile}
    (distinct : (files.map (·.id)).Nodup) :
    ((files.map (renumber numbers)).map (·.id)).Nodup := by
  have renumbered := distinct.map injective
  rwa [List.map_map] at renumbered ⊢

theorem SourceFile.ne_of_nodup_ids {before after : List SourceFile} {file : SourceFile}
    (distinct : ((before ++ file :: after).map (·.id)).Nodup) :
    (∀ other ∈ before, other.id ≠ file.id) ∧ ∀ other ∈ after, other.id ≠ file.id := by
  rw [List.map_append, List.map_cons, List.nodup_append, List.nodup_cons] at distinct
  rcases distinct with ⟨-, ⟨notAfter, -⟩, notBefore⟩
  constructor
  · intro other otherMem
    exact notBefore other.id (List.mem_map_of_mem otherMem) file.id List.mem_cons_self
  · intro other otherMem same
    exact notAfter (List.mem_map.2 ⟨other, otherMem, same⟩)

namespace Run

theorem filter_entries_enter {file : FileId} {numbered : List (Entity × List UnitId)}
    (others : ∀ item ∈ numbered, item.1.node.file.id ≠ file) (run : Run) :
    (run.enter numbered).entries.filter (·.node.file == file) =
      run.entries.filter (·.node.file == file) := by
  induction numbered generalizing run with
  | nil => rfl
  | cons item rest ih =>
      have other : (run.entryOf item.1 item.2).node.file ≠ file := others item List.mem_cons_self
      rw [enter_cons, ih (fun item itemMem => others item (List.mem_cons_of_mem _ itemMem)),
        entries_add, List.filter_cons_of_neg (by simpa using other)]

theorem filter_entries_foldl_classify {file : FileId} {files : List SourceFile}
    (others : ∀ other ∈ files, other.id ≠ file) (run : Run) :
    (files.foldl classify run).entries.filter (·.node.file == file) =
      run.entries.filter (·.node.file == file) := by
  induction files generalizing run with
  | nil => rfl
  | cons first rest ih =>
      rw [List.foldl_cons, ih fun other otherMem => others other (List.mem_cons_of_mem _ otherMem),
        entries_classify]
      apply filter_entries_enter
      intro item itemMem
      rw [Outline.file_of_mem_numberedPlaces itemMem]
      exact others first List.mem_cons_self

theorem mem_entries_enter {run : Run} {numbered : List (Entity × List UnitId)} {entry : Entry}
    (entryMem : entry ∈ (run.enter numbered).entries) :
    entry ∈ run.entries ∨ ∃ item ∈ numbered, entry.node = item.1.node.key := by
  rcases run.exists_newer_enter numbered with ⟨newer, entries, fromItems⟩
  rw [entries, List.mem_append] at entryMem
  rcases entryMem with fromNewer | older
  · rcases fromItems entry fromNewer with ⟨item, itemMem, isNode, -⟩
    exact Or.inr ⟨item, itemMem, isNode⟩
  · exact Or.inl older

theorem file_of_mem_block {file : SourceFile} {entry : Entry}
    (entryMem : entry ∈ (empty.classify file).entries) : entry.node.file = file.id := by
  rw [entries_classify] at entryMem
  rcases mem_entries_enter entryMem with older | ⟨item, itemMem, isItem⟩
  · simp [empty] at older
  · rw [isItem, ← Outline.file_of_mem_numberedPlaces itemMem]
    rfl

/-- The units of a block refer to each other only. -/
theorem mem_range_of_mem_references {file : SourceFile} {entry : Entry} {id : UnitId}
    (entryMem : entry ∈ (empty.classify file).entries) (idMem : id ∈ entry.references) :
    id ∈ List.range' 1 (empty.classify file).units.length := by
  have sound := sound_empty.classify file
  have linked : (empty.classify file).Linked := linked_empty.apply (.classify file)
  have unitMem := mem_units_of_mem entryMem
  simp only [Entry.references, List.mem_append, List.mem_cons, Option.mem_toList] at idMem
  rcases idMem with ((rfl | inside) | isCalled) | constructs
  · exact sound.mem_range_iff.2 ⟨entry.unit, unitMem, rfl⟩
  · exact sound.owned.subset
      (List.mem_append_right _ (List.mem_flatMap.2 ⟨entry.unit, unitMem, inside⟩))
  · exact sound.called entry.unit unitMem id isCalled
  · rcases (linked entry entryMem id constructs).2 with ⟨other, otherMem, isId, -⟩
    exact sound.mem_range_iff.2 ⟨other.unit, mem_units_of_mem otherMem, isId⟩

theorem size_foldl_classify (files : List SourceFile) :
    (files.foldl classify empty).size = (files.flatMap SourceFile.entities).length := by
  have lengths := congrArg List.length
    (map_entries_foldl_classify_empty (fun _ => ()) (fun _ _ => ()) (fun _ _ _ => rfl) files)
  simpa [size] using lengths

/-- Entering a renumbered file adds its block. -/
theorem entries_classify_block {numbers : FileId → FileId} (injective : Function.Injective numbers)
    {run : Run} {file : SourceFile} (avoids : Avoids run.entries (numbers file.id)) :
    (run.classify (file.renumber numbers)).entries =
      (empty.classify file).entries.map (Entry.rename numbers (· + run.size)) ++ run.entries := by
  have isPair : (SourceFile.renumbering [file] injective).pairs file (file.renumber numbers) :=
    ⟨List.mem_singleton.2 rfl, rfl⟩
  have fresh : run.entries = empty.entries.map
      (Entry.rename (SourceFile.renumbering [file] injective).numbers
        (· + run.entries.length)) ++ run.entries := rfl
  exact entries_classify_of_alike fresh isPair (file.alike_renumber numbers) avoids

/-- Among the units of several files, those of one of them are its block. -/
theorem filter_entries_block {numbers : FileId → FileId} (injective : Function.Injective numbers)
    {before after : List SourceFile} {file : SourceFile}
    (distinct : ((before ++ file.renumber numbers :: after).map (·.id)).Nodup) :
    ((before ++ file.renumber numbers :: after).foldl classify empty).entries.filter
        (·.node.file == numbers file.id) =
      (empty.classify file).entries.map
        (Entry.rename numbers (· + (before.foldl classify empty).size)) := by
  have othersBefore : ∀ other ∈ before, other.id ≠ numbers file.id :=
    (SourceFile.ne_of_nodup_ids distinct).1
  have othersAfter : ∀ other ∈ after, other.id ≠ numbers file.id :=
    (SourceFile.ne_of_nodup_ids distinct).2
  have noneBefore : (before.foldl classify empty).entries.filter
      (·.node.file == numbers file.id) = [] := filter_entries_foldl_classify othersBefore empty
  have avoids : Avoids (before.foldl classify empty).entries (numbers file.id) := by
    intro entry entryMem
    simpa using List.filter_eq_nil_iff.1 noneBefore entry entryMem
  have block : ((empty.classify file).entries.map (Entry.rename numbers
      (· + (before.foldl classify empty).size))).filter (·.node.file == numbers file.id) =
      (empty.classify file).entries.map (Entry.rename numbers
        (· + (before.foldl classify empty).size)) := by
    rw [List.filter_eq_self]
    intro entry entryMem
    rcases List.mem_map.1 entryMem with ⟨own, ownMem, rfl⟩
    simp [Entry.rename, NodeKey.renumber, file_of_mem_block ownMem]
  rw [List.foldl_append, List.foldl_cons, filter_entries_foldl_classify othersAfter,
    entries_classify_block injective avoids, List.filter_append, block, noneBefore,
    List.append_nil]

end Run
end CallHierarchy
