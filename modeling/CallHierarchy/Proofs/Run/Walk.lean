import CallHierarchy.Proofs.Loop
import CallHierarchy.Proofs.Run.Invariant

/-!
# Walks over a tree with a cursor

The units and the calls of a file can be found in one walk over its tree, without
recursion. A cursor stands on a node and moves to the first child, to the next sibling
or to the parent. Beside it there is a stack with one frame for each node that has been
entered and not yet left. A frame knows the unit that its node defines, if there is
one, and what has been collected for it. When a node is left, its frame is closed: what
it has collected goes to its unit, or else to the frame below.

What a walk does, in whatever order the moves come, is what recursion over the tree
does, and the walks for units and calls come to what `Run.classify` and `Run.resolve`
give.
-/

namespace CallHierarchy

/-! ### Cursors -/

/-- A position in a tree. -/
structure Cursor where
  tree : SyntaxTree
  /-- The siblings after the tree. -/
  later : List SyntaxTree
  /-- The trees above, the nearest first, each with the siblings after it. -/
  above : List (SyntaxTree × List SyntaxTree)

namespace Cursor

/-- The cursor at the root of a file. -/
def ofFile (file : SourceFile) : Cursor :=
  ⟨file.root, [], []⟩

/-- The node at which a cursor stands. -/
def node (file : SourceFile) (cursor : Cursor) : Node :=
  ⟨file, cursor.tree, cursor.above.map (·.1)⟩

/-- Moves to the first child. -/
def firstChild? (cursor : Cursor) : Option Cursor :=
  match cursor.tree.children with
  | [] => none
  | child :: rest => some ⟨child, rest, (cursor.tree, cursor.later) :: cursor.above⟩

/-- Moves to the next sibling. -/
def nextSibling? (cursor : Cursor) : Option Cursor :=
  match cursor.later with
  | [] => none
  | next :: rest => some ⟨next, rest, cursor.above⟩

/-- Moves to the parent. -/
def parent? (cursor : Cursor) : Option Cursor :=
  match cursor.above with
  | [] => none
  | (tree, later) :: above => some ⟨tree, later, above⟩

end Cursor

/-! ### Walks -/

/-- What is done on a walk over a tree, to a state that has a stack. -/
structure Walker (σ : Type) where
  /-- Enters a node. -/
  enter : Node → σ → σ
  /-- Closes the node that was entered last. -/
  close : σ → σ
  /-- Whether the walk is over, once a node without further siblings has been closed. -/
  isOver : σ → Cursor → Bool
  /-- The height of the stack. -/
  height : σ → Nat
  height_enter : ∀ node state, height (enter node state) = height state + 1
  height_close : ∀ state, height (close state) = height state - 1

/-- A moment of a walk. -/
inductive Walk (σ : Type) where
  | entering (state : σ) (cursor : Cursor)
  | leaving (state : σ) (cursor : Cursor)
  | over (state : σ)

namespace Walker

variable {σ : Type} (walker : Walker σ) (file : SourceFile)

/-- Enters a node and moves down, or leaves it and moves on or up. -/
def step : Walk σ → Option (Walk σ)
  | .entering state cursor =>
    let entered := walker.enter (cursor.node file) state
    match cursor.firstChild? with
    | some child => some (.entering entered child)
    | none => some (.leaving entered cursor)
  | .leaving state cursor =>
    let closed := walker.close state
    match cursor.nextSibling? with
    | some sibling => some (.entering closed sibling)
    | none =>
      if walker.isOver closed cursor then some (.over closed)
      else cursor.parent?.map (.leaving closed)
  | .over _ => none

mutual

/-- Enters a tree, visits what is below it and closes it. -/
def visit (around : List SyntaxTree) (state : σ) : SyntaxTree → σ
  | .node label children =>
    walker.close (visitList (.node label children :: around)
      (walker.enter ⟨file, .node label children, around⟩ state) children)

/-- Visits some trees, one after the other. -/
def visitList (around : List SyntaxTree) (state : σ) : List SyntaxTree → σ
  | [] => state
  | tree :: rest => visitList around (visit around state tree) rest

end

/-- Whether a walk is over when it has come back to the level of the given depth. -/
def EndsAt (depth : Nat) : Prop :=
  ∀ state cursor, walker.height state = cursor.above.length →
    (walker.isOver state cursor ↔ cursor.above.length = depth)

mutual

theorem height_visit (around : List SyntaxTree) (state : σ) : ∀ tree : SyntaxTree,
    walker.height (walker.visit file around state tree) = walker.height state
  | .node label children => by
      rw [visit, walker.height_close, height_visitList (.node label children :: around) _ children,
        walker.height_enter, Nat.add_sub_cancel]

theorem height_visitList (around : List SyntaxTree) (state : σ) : ∀ trees : List SyntaxTree,
    walker.height (walker.visitList file around state trees) = walker.height state
  | [] => rfl
  | tree :: rest => by
      rw [visitList, height_visitList around _ rest, height_visit around state tree]

end

/-- What has been done when a tree is left, before it is closed. -/
def visitBelow (around : List SyntaxTree) (state : σ) (tree : SyntaxTree) : σ :=
  walker.visitList file (tree :: around) (walker.enter ⟨file, tree, around⟩ state) tree.children

theorem visit_eq (around : List SyntaxTree) (state : σ) (tree : SyntaxTree) :
    walker.visit file around state tree =
      walker.close (walker.visitBelow file around state tree) := by
  rcases tree with ⟨label, children⟩
  rfl

variable {walker file}

/-- If the walk gets through each of some siblings, it gets to the end of the last one. -/
theorem exists_leadsTo_last {above : List (SyntaxTree × List SyntaxTree)} {rest : List SyntaxTree}
    {tree : SyntaxTree} {state : σ} (isHeight : walker.height state = above.length)
    (each : ∀ sibling ∈ tree :: rest, ∀ (state : σ) (later : List SyntaxTree),
      walker.height state = above.length →
      LeadsTo (walker.step file) (.entering state ⟨sibling, later, above⟩)
        (.leaving (walker.visitBelow file (above.map (·.1)) state sibling)
          ⟨sibling, later, above⟩)) :
    ∃ before last, LeadsTo (walker.step file) (.entering state ⟨tree, rest, above⟩)
        (.leaving before ⟨last, [], above⟩) ∧
      walker.close before = walker.visitList file (above.map (·.1)) state (tree :: rest) := by
  induction rest generalizing tree state with
  | nil =>
      refine ⟨_, tree, each tree List.mem_cons_self state [] isHeight, ?_⟩
      rw [visitList, visit_eq, visitList]
  | cons next rest ih =>
      let closed := walker.visit file (above.map (·.1)) state tree
      have isHeightNext : walker.height closed = above.length := by
        rw [height_visit, isHeight]
      have through := each tree List.mem_cons_self state (next :: rest) isHeight
      have onward : walker.step file (.leaving (walker.visitBelow file (above.map (·.1)) state tree)
          ⟨tree, next :: rest, above⟩) = some (.entering closed ⟨next, rest, above⟩) := by
        simp only [step, Cursor.nextSibling?, closed, visit_eq]
      rcases ih isHeightNext fun sibling siblingMem =>
        each sibling (List.mem_cons_of_mem _ siblingMem) with ⟨before, last, toLast, isClosed⟩
      exact ⟨before, last, (through.tail onward).trans toLast, isClosed⟩

/-- The walk enters a tree and comes back to leave it. -/
theorem leadsTo_leaving {depth : Nat} (endsAt : walker.EndsAt depth) (tree : SyntaxTree) :
    ∀ (state : σ) (later : List SyntaxTree) (above : List (SyntaxTree × List SyntaxTree)),
      depth ≤ above.length → walker.height state = above.length →
      LeadsTo (walker.step file) (.entering state ⟨tree, later, above⟩)
        (.leaving (walker.visitBelow file (above.map (·.1)) state tree) ⟨tree, later, above⟩) := by
  induction tree using Tree.induction with
  | step label children ih =>
      intro state later above deep isHeight
      cases children with
      | nil => exact .single rfl
      | cons child rest =>
          let tree : SyntaxTree := .node label (child :: rest)
          let entered := walker.enter ⟨file, tree, above.map (·.1)⟩ state
          let below := (tree, later) :: above
          have isHeightBelow : walker.height entered = below.length := by
            rw [walker.height_enter, isHeight, List.length_cons]
          have down : walker.step file (.entering state ⟨tree, later, above⟩) =
              some (.entering entered ⟨child, rest, below⟩) := rfl
          rcases exists_leadsTo_last isHeightBelow fun sibling siblingMem state later isHeight =>
            ih sibling siblingMem state later below (Nat.le_succ_of_le deep) isHeight with
            ⟨before, last, toLast, isClosed⟩
          have closedHeight : walker.height (walker.close before) = below.length := by
            rw [isClosed, height_visitList, isHeightBelow]
          have notOver : ¬walker.isOver (walker.close before) ⟨last, [], below⟩ := by
            rw [endsAt _ ⟨last, [], below⟩ closedHeight]
            exact (Nat.lt_succ_of_le deep).ne'
          have up : walker.step file (.leaving before ⟨last, [], below⟩) =
              some (.leaving (walker.close before) ⟨tree, later, above⟩) := by
            simp only [step, Cursor.nextSibling?, notOver, below, Cursor.parent?]
            rfl
          rw [isClosed] at up
          exact .head down (toLast.tail up)

/-- A walk over some siblings ends when all of them have been visited. -/
theorem endsIn_visitList {depth : Nat} (endsAt : walker.EndsAt depth) {state : σ}
    {tree : SyntaxTree} {rest : List SyntaxTree} {above : List (SyntaxTree × List SyntaxTree)}
    (isDepth : above.length = depth) (isHeight : walker.height state = above.length) :
    EndsIn (walker.step file) (.entering state ⟨tree, rest, above⟩)
      (.over (walker.visitList file (above.map (·.1)) state (tree :: rest))) := by
  rcases exists_leadsTo_last isHeight fun sibling _ state later isHeight =>
    leadsTo_leaving endsAt sibling state later above isDepth.ge isHeight with
    ⟨before, last, toLast, isClosed⟩
  have closedHeight : walker.height (walker.close before) = above.length := by
    rw [isClosed, height_visitList, isHeight]
  have isOver : walker.isOver (walker.close before) ⟨last, [], above⟩ :=
    (endsAt _ ⟨last, [], above⟩ closedHeight).2 isDepth
  have ends : walker.step file (.leaving before ⟨last, [], above⟩) =
      some (.over (walker.close before)) := by
    simp only [step, Cursor.nextSibling?, isOver, if_true]
  rw [isClosed] at ends
  exact ⟨toLast.tail ends, rfl⟩

end Walker

/-! ### Units -/

namespace Run

/-- A node that has been entered and not yet left. -/
structure Frame where
  /-- The unit that the node defines. -/
  unit : Option UnitId
  /-- The numbers that have been collected for the node. -/
  collected : List UnitId

/-- A run, with the frames of the nodes around the current one. -/
structure Walked where
  run : Run
  frames : List Frame

namespace Frame

/-- Collects further numbers in the frame on top of the others. -/
def collect (ids : List UnitId) : List Frame → List Frame
  | [] => []
  | frame :: frames => ⟨frame.unit, frame.collected ++ ids⟩ :: frames

theorem collect_cons (ids : List UnitId) (frame : Frame) (frames : List Frame) :
    collect ids (frame :: frames) = ⟨frame.unit, frame.collected ++ ids⟩ :: frames :=
  rfl

theorem collect_nil (frames : List Frame) : collect [] frames = frames := by
  cases frames with
  | nil => rfl
  | cons frame frames => rw [collect_cons, List.append_nil]

theorem collect_collect (ids later : List UnitId) (frames : List Frame) :
    collect later (collect ids frames) = collect (ids ++ later) frames := by
  cases frames with
  | nil => rfl
  | cons frame frames => simp only [collect_cons, List.append_assoc]

theorem length_collect (ids : List UnitId) (frames : List Frame) :
    (collect ids frames).length = frames.length := by
  cases frames <;> rfl

end Frame

/-- Replaces the units inside a unit. -/
def setChildren (run : Run) (id : UnitId) (children : List UnitId) : Run :=
  { run with
    entries := run.entries.map fun entry =>
      if entry.unit.id = id then { entry with unit := { entry.unit with children := children } }
      else entry }

/-- Adds the unit of a node that defines one, with nothing inside it so far. -/
def enterUnit (node : Node) (walked : Walked) : Walked :=
  match Entity.ofNode? node with
  | some entity =>
    ⟨walked.run.add entity [], ⟨some walked.run.nextId, []⟩ :: walked.frames⟩
  | none => ⟨walked.run, ⟨none, []⟩ :: walked.frames⟩

/-- Puts the units that a frame has collected inside its unit, or else in the frame below. -/
def closeUnit (walked : Walked) : Walked :=
  match walked.frames with
  | frame :: parent :: frames =>
    match frame.unit with
    | some id =>
      ⟨walked.run.setChildren id frame.collected, Frame.collect [id] (parent :: frames)⟩
    | none => ⟨walked.run, Frame.collect frame.collected (parent :: frames)⟩
  | frames => ⟨walked.run, frames.tail⟩

/-- The walk for the units below the root of a file. Only the frame of the root is left. -/
def unitWalker : Walker Walked where
  enter := enterUnit
  close := closeUnit
  isOver walked _ := walked.frames.length = 1
  height walked := walked.frames.length
  height_enter node walked := by
    unfold enterUnit
    split <;> rfl
  height_close walked := by
    unfold closeUnit
    split
    next isFrames =>
      rw [isFrames]
      split <;> rfl
    next frames _ => exact List.length_tail

/-- The walk for the units of a file: the root is entered, and then its children are visited. -/
def unitWalk (run : Run) (file : SourceFile) : Walk Walked :=
  let start : Walked := ⟨run.add ⟨file.rootNode, .file, none⟩ [], [⟨some run.nextId, []⟩]⟩
  match (Cursor.ofFile file).firstChild? with
  | some child => .entering start child
  | none => .over start

/-- The run when the walk for the units of a file is over: the root gets what is inside it. -/
def closeFile (id : UnitId) (walked : Walked) : Run :=
  let entered := match walked.frames with
    | [] => walked.run
    | frame :: _ => walked.run.setChildren id frame.collected
  { entered with roots := walked.run.roots ++ [id] }

theorem nextId_setChildren (run : Run) (id : UnitId) (children : List UnitId) :
    (run.setChildren id children).nextId = run.nextId := by
  simp [nextId, size, setChildren]

theorem constructedUnit?_setChildren (run : Run) (id : UnitId) (children : List UnitId)
    (entity : Entity) :
    (run.setChildren id children).constructedUnit? entity = run.constructedUnit? entity := by
  have nodes : (run.setChildren id children).unitOfNode? = run.unitOfNode? := by
    funext key
    simp only [unitOfNode?, setChildren, List.find?_map, Option.map_map, Function.comp_def,
      apply_ite Entry.node, apply_ite Entry.unit, apply_ite CodeUnit.id, ite_self]
  have kinds : (run.setChildren id children).kindOf? = run.kindOf? := by
    funext key
    simp only [kindOf?, setChildren, List.find?_map, Option.map_map, Function.comp_def,
      apply_ite Entry.unit, apply_ite CodeUnit.id, apply_ite CodeUnit.kind, ite_self]
  simp only [constructedUnit?, nodes, kinds]

/-- To replace what is inside a unit does not touch the units that are added after it. -/
theorem setChildren_enter (run : Run) {id : UnitId} (isOld : id < run.nextId)
    (children : List UnitId) (numbered : List (Entity × List UnitId)) :
    (run.enter numbered).setChildren id children =
      (run.setChildren id children).enter numbered := by
  induction numbered generalizing run with
  | nil => rfl
  | cons item rest ih =>
      have isOther : run.nextId ≠ id := isOld.ne'
      have added : (run.add item.1 item.2).setChildren id children =
          (run.setChildren id children).add item.1 item.2 := by
        have isEntry : (run.setChildren id children).entryOf item.1 item.2 =
            run.entryOf item.1 item.2 := by
          simp only [entryOf, nextId_setChildren, constructedUnit?_setChildren]
        have entries : ((run.add item.1 item.2).setChildren id children).entries =
            run.entryOf item.1 item.2 :: (run.setChildren id children).entries := by
          rw [setChildren, entries_add, List.map_cons]
          simp only [entryOf, Entity.unit, isOther, if_false]
          rfl
        rw [← isEntry, ← entries_add] at entries
        exact congrArg (Run.mk · run.roots) entries
      rw [enter_cons, ih _ (isOld.trans (Nat.lt_succ_self _)), added, enter_cons]

/-- Whether all units of a run have smaller numbers than the next one. -/
def Fresh (run : Run) : Prop :=
  ∀ entry ∈ run.entries, entry.unit.id < run.nextId

theorem Fresh.add {run : Run} (fresh : run.Fresh) (entity : Entity) (children : List UnitId) :
    (run.add entity children).Fresh := by
  intro entry entryMem
  rw [nextId_add]
  rcases List.mem_cons.1 entryMem with rfl | entryMem
  · exact Nat.lt_succ_self _
  · exact (fresh entry entryMem).trans (Nat.lt_succ_self _)

theorem Fresh.enter {run : Run} (fresh : run.Fresh) (numbered : List (Entity × List UnitId)) :
    (run.enter numbered).Fresh := by
  induction numbered generalizing run with
  | nil => exact fresh
  | cons item rest ih => exact ih (fresh.add item.1 item.2)

/--
A unit that gets what is inside it only after further units have been added might as well have
been added with what is inside it.
-/
theorem Fresh.setChildren_add {run : Run} (fresh : run.Fresh) (entity : Entity)
    (children : List UnitId) (numbered : List (Entity × List UnitId)) :
    ((run.add entity []).enter numbered).setChildren run.nextId children =
      (run.add entity children).enter numbered := by
  have others : (run.setChildren run.nextId children).entries = run.entries := by
    rw [setChildren]
    conv_rhs => rw [← List.map_id run.entries]
    apply List.map_congr_left
    intro entry entryMem
    exact if_neg (fresh entry entryMem).ne
  have entries : ((run.add entity []).setChildren run.nextId children).entries =
      (run.add entity children).entries := by
    rw [setChildren, entries_add, List.map_cons, entries_add]
    exact congrArg₂ List.cons (if_pos rfl) others
  have isOld : run.nextId < (run.add entity []).nextId := Nat.lt_succ_self _
  rw [setChildren_enter _ isOld]
  exact congrArg (fun entries => (Run.mk entries run.roots).enter numbered) entries

theorem roots_enter (run : Run) (numbered : List (Entity × List UnitId)) :
    (run.enter numbered).roots = run.roots := by
  induction numbered generalizing run with
  | nil => rfl
  | cons item rest ih => exact ih (run.add item.1 item.2)

theorem nextId_enter_numberedList (run : Run) (outlines : List Outline) :
    (run.enter (Outline.numberedList run.nextId outlines)).nextId =
      run.nextId + Tree.sizeList outlines := by
  rw [nextId_enter, Outline.length_numberedList]

section

variable (file : SourceFile)

mutual

/-- To visit a tree is to add the units in it, and to collect the outermost of them. -/
theorem visit_unitWalker (around : List SyntaxTree) {run : Run} (fresh : run.Fresh) (frame : Frame)
    (frames : List Frame) : ∀ tree : SyntaxTree,
    unitWalker.visit file around ⟨run, frame :: frames⟩ tree =
      ⟨run.enter (Outline.numberedList run.nextId (Outline.ofTree file around tree)),
        Frame.collect (Outline.rootNumbers run.nextId (Outline.ofTree file around tree))
          (frame :: frames)⟩
  | .node label children => by
      rw [Walker.visit, Outline.ofTree]
      cases isEntity : Entity.ofNode? ⟨file, .node label children, around⟩ with
      | none =>
          have entered : unitWalker.enter ⟨file, .node label children, around⟩
              ⟨run, frame :: frames⟩ = ⟨run, ⟨none, []⟩ :: frame :: frames⟩ := by
            simp only [unitWalker, enterUnit, isEntity]
          rw [entered, visitList_unitWalker (.node label children :: around) fresh]
          rfl
      | some entity =>
          let inside := Outline.ofTrees file (.node label children :: around) children
          have entered : unitWalker.enter ⟨file, .node label children, around⟩
              ⟨run, frame :: frames⟩ =
              ⟨run.add entity [], ⟨some run.nextId, []⟩ :: frame :: frames⟩ := by
            simp only [unitWalker, enterUnit, isEntity]
          have below := visitList_unitWalker (.node label children :: around)
            (fresh.add entity []) ⟨some run.nextId, []⟩ (frame :: frames) children
          have added := fresh.setChildren_add entity (Outline.rootNumbers (run.nextId + 1) inside)
            (Outline.numberedList (run.nextId + 1) inside)
          have whole : (run.add entity (Outline.rootNumbers (run.nextId + 1) inside)).enter
              (Outline.numberedList (run.nextId + 1) inside) =
              run.enter (Outline.numberedList run.nextId [.node entity inside]) := by
            rw [Outline.numberedList, Outline.numberedList, Outline.numbered, List.append_nil]
            rfl
          rw [entered, below]
          exact congrArg (Walked.mk · _) (added.trans whole)

theorem visitList_unitWalker (around : List SyntaxTree) {run : Run} (fresh : run.Fresh)
    (frame : Frame) (frames : List Frame) : ∀ trees : List SyntaxTree,
    unitWalker.visitList file around ⟨run, frame :: frames⟩ trees =
      ⟨run.enter (Outline.numberedList run.nextId (Outline.ofTrees file around trees)),
        Frame.collect (Outline.rootNumbers run.nextId (Outline.ofTrees file around trees))
          (frame :: frames)⟩
  | [] => by simp [Walker.visitList, Outline.ofTrees, Outline.numberedList, Outline.rootNumbers,
      enter, Frame.collect]
  | tree :: rest => by
      rw [Walker.visitList, visit_unitWalker around fresh frame frames tree, Frame.collect,
        visitList_unitWalker around (fresh.enter _), nextId_enter_numberedList,
        ← enter_append, ← Outline.numberedList_append]
      simp only [Frame.collect, Outline.ofTrees, Outline.rootNumbers_append, List.append_assoc]

end

end

theorem endsAt_unitWalker : unitWalker.EndsAt 1 := by
  intro walked cursor isHeight
  simp only [unitWalker, decide_eq_true_eq]
  exact isHeight ▸ Iff.rfl

theorem Sound.fresh {run : Run} {files : List SourceFile} (sound : run.Sound files) :
    run.Fresh := by
  intro entry entryMem
  have idMem := List.mem_map_of_mem (f := (·.id)) (mem_units_of_mem entryMem)
  rw [sound.numbered, length_units] at idMem
  have inRange := (List.mem_range'_1.1 idMem).2
  simpa only [nextId, Nat.add_comm 1] using inRange

theorem endsIn_unitWalk (run : Run) (file : SourceFile) :
    EndsIn (unitWalker.step file) (run.unitWalk file) (.over (unitWalker.visitList file [file.root]
      ⟨run.add ⟨file.rootNode, .file, none⟩ [], [⟨some run.nextId, []⟩]⟩ file.root.children)) := by
  unfold unitWalk Cursor.firstChild?
  cases isChildren : file.root.children with
  | nil =>
      simp only [Cursor.ofFile, isChildren]
      exact ⟨.refl, rfl⟩
  | cons child rest =>
      simp only [Cursor.ofFile, isChildren]
      exact Walker.endsIn_visitList endsAt_unitWalker rfl rfl

/-- To enter a file is to walk over its tree and add the units on the way. -/
theorem endsIn_classify (steps : List Step) (file : SourceFile) :
    let run := ofSteps steps
    ∃ walked, EndsIn (unitWalker.step file) (run.unitWalk file) (.over walked) ∧
      closeFile run.nextId walked = run.classify file := by
  intro run
  have fresh : run.Fresh := (sound_empty.foldl_apply steps).fresh
  refine ⟨_, run.endsIn_unitWalk file, ?_⟩
  have entered := fresh.setChildren_add ⟨file.rootNode, .file, none⟩
    (Outline.rootNumbers (run.nextId + 1) (Outline.ofTrees file [file.root] file.root.children))
    (Outline.numberedList (run.nextId + 1) (Outline.ofTrees file [file.root] file.root.children))
  rw [visitList_unitWalker file [file.root] (fresh.add _ []), closeFile, roots_enter]
  exact congrArg (fun entered : Run => { entered with roots := run.roots ++ [run.nextId] }) entered

/-! ### Calls -/

/-- Opens a frame for the unit of a node, with the edge of the node itself. -/
def enterCall (declarations : Declarations) (node : Node) (walked : Walked) : Walked :=
  ⟨walked.run, ⟨walked.run.unitOfNode? node.key, (walked.run.edge? declarations node).toList⟩ ::
    walked.frames⟩

/-- Gives the edges that a frame has collected to its unit, or else to the frame below. -/
def closeCall (walked : Walked) : Walked :=
  match walked.frames with
  | [] => walked
  | frame :: frames =>
    match frame.unit with
    | some id => ⟨walked.run.setCalls id frame.collected, frames⟩
    | none => ⟨walked.run, Frame.collect frame.collected frames⟩

/-- The walk for the calls of a file. It is over at the root, which has no parent. -/
def callWalker (declarations : Declarations) : Walker Walked where
  enter := enterCall declarations
  close := closeCall
  isOver _ cursor := cursor.parent?.isNone
  height walked := walked.frames.length
  height_enter _ _ := rfl
  height_close walked := by
    unfold closeCall
    split
    next isFrames => rw [isFrames]; rfl
    next frame frames isFrames =>
      rw [isFrames]
      split
      · rfl
      · exact Frame.length_collect _ _

theorem setCalls_grant (run : Run) (granted : List (UnitId × List UnitId)) (id : UnitId)
    (calls : List UnitId) :
    (run.grant granted).setCalls id calls = run.grant (granted ++ [(id, calls)]) := by
  rw [setCalls_eq, ← grant_grant]
  rfl

section

variable (run : Run) (declarations : Declarations) (file : SourceFile)

mutual

/-- To visit a tree is to grant what the units in it claim, and to collect what is left. -/
theorem visit_callWalker (around : List SyntaxTree) (granted : List (UnitId × List UnitId))
    (frames : List Frame) : ∀ tree : SyntaxTree,
    (callWalker declarations).visit file around ⟨run.grant granted, frames⟩ tree =
      ⟨run.grant (granted ++ (run.shareOut declarations file around tree).claimed),
        Frame.collect (run.shareOut declarations file around tree).unclaimed frames⟩
  | .node label children => by
      have entered : (callWalker declarations).enter ⟨file, .node label children, around⟩
          ⟨run.grant granted, frames⟩ =
          ⟨run.grant granted, ⟨run.unitOfNode? (Node.key ⟨file, .node label children, around⟩),
            (run.edge? declarations ⟨file, .node label children, around⟩).toList⟩ :: frames⟩ := by
        simp only [callWalker, enterCall, unitOfNode?_grant, edge?_grant]
      rw [Walker.visit, entered, visitList_callWalker (.node label children :: around), shareOut]
      simp only [callWalker, closeCall, Frame.collect_cons]
      cases run.unitOfNode? (Node.key ⟨file, .node label children, around⟩) with
      | none => rfl
      | some id =>
          simp only [Frame.collect_nil, setCalls_grant, List.append_assoc]

theorem visitList_callWalker (around : List SyntaxTree) (granted : List (UnitId × List UnitId))
    (frames : List Frame) : ∀ trees : List SyntaxTree,
    (callWalker declarations).visitList file around ⟨run.grant granted, frames⟩ trees =
      ⟨run.grant (granted ++ (run.shareOutList declarations file around trees).claimed),
        Frame.collect (run.shareOutList declarations file around trees).unclaimed frames⟩
  | [] => by simp only [Walker.visitList, shareOutList, List.append_nil, Frame.collect_nil]
  | tree :: rest => by
      rw [Walker.visitList, visit_callWalker around granted frames tree,
        visitList_callWalker around]
      simp only [shareOutList, Frame.collect_collect, List.append_assoc]

end

end

theorem endsAt_callWalker (declarations : Declarations) : (callWalker declarations).EndsAt 0 := by
  rintro walked ⟨tree, later, above⟩ -
  cases above <;> simp [callWalker, Cursor.parent?]

/-- To find the calls of a file is to walk over its tree and grant the claims on the way. -/
theorem endsIn_resolve (run : Run) (declarations : Declarations) (file : SourceFile) :
    EndsIn ((callWalker declarations).step file) (.entering ⟨run, []⟩ (.ofFile file))
      (.over ⟨run.resolve declarations file, []⟩) := by
  have ends := @Walker.endsIn_visitList Walked (callWalker declarations) file 0
    (endsAt_callWalker declarations) ⟨run, []⟩ file.root [] [] rfl rfl
  have visited := visit_callWalker run declarations file [] [] [] file.root
  rw [grant_nil, List.nil_append] at visited
  rw [List.map_nil, Walker.visitList, visited, Walker.visitList] at ends
  rw [resolve_eq, claims]
  exact ends

end Run

end CallHierarchy
