import CallHierarchy.Proofs.CallGraph.Recursion
import CallHierarchy.Proofs.Loop

/-!
# Outputs by loops over a stack

The outputs of a graph can be written without recursion, by loops that keep what is
still to be done on a stack. A loop takes what is on top, writes a part of the output
and puts the units inside on top, the first one uppermost. Each loop comes to an end,
and what it has written by then is what the recursion gives.

The argument is the same for all loops. From a stack with a unit on top the loop gets
to the stack without it, having written just what the recursion makes of the unit: by
induction on how much is below the unit, and for a list of units one after the other.
-/

namespace CallHierarchy

namespace CallGraph

variable {graph : CallGraph}

/-! ### Units below a unit -/

/-- A list of the units below a unit that is being made. -/
structure DescendantLoop where
  /-- The numbers still to be listed, the next one first. -/
  pending : List UnitId
  found : List UnitId

namespace DescendantLoop

/-- The loop for a unit begins with what the unit lists. -/
def start (graph : CallGraph) (id : UnitId) : DescendantLoop :=
  match graph.unit? id with
  | none => ⟨[], []⟩
  | some unit => ⟨unit.children, []⟩

/-- Lists the next number and puts what its unit lists before the others. -/
def step (graph : CallGraph) (loop : DescendantLoop) : Option DescendantLoop :=
  match loop.pending with
  | [] => none
  | id :: pending =>
    match graph.unit? id with
    | none => some ⟨pending, loop.found ++ [id]⟩
    | some unit => some ⟨unit.children ++ pending, loop.found ++ [id]⟩

theorem leadsTo_of_forall {ids : List UnitId}
    (each : ∀ id ∈ ids, ∀ pending found, LeadsTo (step graph) ⟨id :: pending, found⟩
      ⟨pending, found ++ id :: graph.descendants id⟩) (pending found : List UnitId) :
    LeadsTo (step graph) ⟨ids ++ pending, found⟩
      ⟨pending, found ++ ids.flatMap fun id => id :: graph.descendants id⟩ := by
  let state := fun done waiting : List UnitId =>
    (⟨waiting ++ pending, found ++ done.flatMap fun id => id :: graph.descendants id⟩ :
      DescendantLoop)
  have run : LeadsTo (step graph) (state [] ids) (state ids []) := by
    apply leadsTo_of_each
    rintro done id waiting rfl
    simpa [state] using each id (by simp) (waiting ++ pending)
      (found ++ done.flatMap fun id => id :: graph.descendants id)
  simpa [state] using run

theorem leadsTo_unit (acyclic : ∀ id, ¬graph.Below id id) (id : UnitId) :
    ∀ pending found : List UnitId, LeadsTo (step graph) ⟨id :: pending, found⟩
      ⟨pending, found ++ id :: graph.descendants id⟩ := by
  induction id using induction_of_acyclic acyclic with
  | step id ih =>
      intro pending found
      cases isFound : graph.unit? id with
      | none =>
          rw [descendants_of_missing isFound]
          exact .single (by simp only [step, isFound])
      | some unit =>
          have opened : step graph ⟨id :: pending, found⟩ =
              some ⟨unit.children ++ pending, found ++ [id]⟩ := by simp only [step, isFound]
          rw [descendants_eq acyclic isFound, List.append_cons]
          exact .head opened (leadsTo_of_forall (ih unit isFound) pending _)

/-- The loop ends with what is below the unit. -/
theorem endsIn_descendants (acyclic : ∀ id, ¬graph.Below id id) (id : UnitId) :
    EndsIn (step graph) (start graph id) ⟨[], graph.descendants id⟩ := by
  refine ⟨?_, rfl⟩
  unfold start
  cases isFound : graph.unit? id with
  | none =>
      rw [descendants_of_missing isFound]
      exact .refl
  | some unit =>
      have run := @leadsTo_of_forall graph unit.children
        (fun child _ => leadsTo_unit acyclic child) [] []
      rwa [List.append_nil, List.nil_append, ← descendants_eq acyclic isFound] at run

end DescendantLoop

/-! ### Listings -/

/-- A listing that is being written. -/
structure ListingLoop where
  /-- The units still to be listed and their depths, the next one first. -/
  pending : List (UnitId × Nat)
  lines : List String

namespace ListingLoop

/-- Lists the next unit and puts the units inside it before the others. -/
def step (graph : CallGraph) (loop : ListingLoop) : Option ListingLoop :=
  match loop.pending with
  | [] => none
  | (id, depth) :: pending =>
    match graph.unit? id with
    | none => some ⟨pending, loop.lines⟩
    | some unit =>
      some ⟨unit.children.map (·, depth + 1) ++ pending, loop.lines ++ graph.unitLines depth unit⟩

theorem step_of_found {id : UnitId} {unit : CodeUnit} (isFound : graph.unit? id = some unit)
    (depth : Nat) (pending : List (UnitId × Nat)) (lines : List String) :
    step graph ⟨(id, depth) :: pending, lines⟩ =
      some ⟨unit.children.map (·, depth + 1) ++ pending, lines ++ graph.unitLines depth unit⟩ := by
  simp only [step, isFound]

theorem leadsTo_of_forall (acyclic : ∀ id, ¬graph.Below id id) {ids : List UnitId} {depth : Nat}
    (each : ∀ id ∈ ids, ∀ pending lines, LeadsTo (step graph) ⟨(id, depth) :: pending, lines⟩
      ⟨pending, lines ++ graph.foldLines acyclic graph.listingPart depth id⟩)
    (pending : List (UnitId × Nat)) (lines : List String) :
    LeadsTo (step graph) ⟨ids.map (·, depth) ++ pending, lines⟩
      ⟨pending, lines ++ ids.flatMap (graph.foldLines acyclic graph.listingPart depth)⟩ := by
  let state := fun done waiting : List UnitId =>
    (⟨waiting.map (·, depth) ++ pending,
      lines ++ done.flatMap (graph.foldLines acyclic graph.listingPart depth)⟩ : ListingLoop)
  have run : LeadsTo (step graph) (state [] ids) (state ids []) := by
    apply leadsTo_of_each
    rintro done id waiting rfl
    simpa [state] using each id (by simp) (waiting.map (·, depth) ++ pending)
      (lines ++ done.flatMap (graph.foldLines acyclic graph.listingPart depth))
  simpa [state] using run

theorem leadsTo_unit (acyclic : ∀ id, ¬graph.Below id id) (id : UnitId) :
    ∀ (depth : Nat) (pending : List (UnitId × Nat)) (lines : List String),
    LeadsTo (step graph) ⟨(id, depth) :: pending, lines⟩
      ⟨pending, lines ++ graph.foldLines acyclic graph.listingPart depth id⟩ := by
  induction id using induction_of_acyclic acyclic with
  | step id ih =>
      intro depth pending lines
      cases isFound : graph.unit? id with
      | none =>
          rw [foldLines_of_missing acyclic depth isFound, List.append_nil]
          exact .single (by simp only [step, isFound])
      | some unit =>
          rw [foldLines_listingPart acyclic depth isFound, ← List.append_assoc]
          exact .head (step_of_found isFound depth pending lines) (leadsTo_of_forall acyclic
            (fun child childMem => ih unit isFound child childMem (depth + 1)) pending _)

theorem endsIn_fold (acyclic : ∀ id, ¬graph.Below id id) (ids : List UnitId) (depth : Nat) :
    EndsIn (step graph) ⟨ids.map (·, depth), []⟩
      ⟨[], ids.flatMap (graph.foldLines acyclic graph.listingPart depth)⟩ := by
  refine ⟨?_, rfl⟩
  have run : LeadsTo (step graph) ⟨ids.map (·, depth) ++ [], []⟩
      ⟨[], [] ++ ids.flatMap (graph.foldLines acyclic graph.listingPart depth)⟩ :=
    leadsTo_of_forall acyclic (fun id _ => leadsTo_unit acyclic id depth) [] []
  rwa [List.append_nil] at run

end ListingLoop

/-! ### DOT forms -/

/-- What is still to be done for a DOT form. -/
inductive DotTask where
  | enter (id : UnitId) (depth : Nat)
  /-- Everything inside the unit has been written. -/
  | leave (id : UnitId) (depth : Nat)

/-- A DOT form that is being written. The edges are kept apart until the end. -/
structure DotLoop where
  /-- What is still to be done, the next task first. -/
  pending : List DotTask
  lines : List String
  edges : List String

namespace DotLoop

/-- Does the next task. A unit that lists others is left when they are done. -/
def step (graph : CallGraph) (loop : DotLoop) : Option DotLoop :=
  match loop.pending with
  | [] => none
  | .enter id depth :: pending =>
    match graph.unit? id with
    | none => some ⟨pending, loop.lines, loop.edges⟩
    | some unit =>
      if unit.children.isEmpty then
        some ⟨pending, loop.lines ++ [dotLeaf depth unit], loop.edges ++ graph.dotEdges unit⟩
      else
        some ⟨unit.children.map (.enter · (depth + 1)) ++ .leave id depth :: pending,
          loop.lines ++ dotOpening depth unit, loop.edges ++ graph.dotEdges unit⟩
  | .leave id depth :: pending => some ⟨pending, loop.lines ++ dotClosing depth id, loop.edges⟩

theorem step_of_leaf {id : UnitId} {unit : CodeUnit} (isFound : graph.unit? id = some unit)
    (isLeaf : unit.children.isEmpty = true) (depth : Nat) (pending : List DotTask)
    (lines edges : List String) :
    step graph ⟨.enter id depth :: pending, lines, edges⟩ =
      some ⟨pending, lines ++ [dotLeaf depth unit], edges ++ graph.dotEdges unit⟩ := by
  simp only [step, isFound, if_pos isLeaf]

theorem step_of_cluster {id : UnitId} {unit : CodeUnit} (isFound : graph.unit? id = some unit)
    (isCluster : unit.children.isEmpty = false) (depth : Nat) (pending : List DotTask)
    (lines edges : List String) :
    step graph ⟨.enter id depth :: pending, lines, edges⟩ =
      some ⟨unit.children.map (.enter · (depth + 1)) ++ .leave id depth :: pending,
        lines ++ dotOpening depth unit, edges ++ graph.dotEdges unit⟩ := by
  simp only [step, isFound, isCluster, Bool.false_eq_true, if_false]

theorem leadsTo_of_forall (acyclic : ∀ id, ¬graph.Below id id) {ids : List UnitId} {depth : Nat}
    (each : ∀ id ∈ ids, ∀ pending lines edges,
      LeadsTo (step graph) ⟨.enter id depth :: pending, lines, edges⟩
        ⟨pending, lines ++ graph.foldLines acyclic dotPart depth id,
          edges ++ graph.foldLines acyclic graph.edgePart depth id⟩)
    (pending : List DotTask) (lines edges : List String) :
    LeadsTo (step graph) ⟨ids.map (.enter · depth) ++ pending, lines, edges⟩
      ⟨pending, lines ++ ids.flatMap (graph.foldLines acyclic dotPart depth),
        edges ++ ids.flatMap (graph.foldLines acyclic graph.edgePart depth)⟩ := by
  let state := fun done waiting : List UnitId =>
    (⟨waiting.map (.enter · depth) ++ pending,
      lines ++ done.flatMap (graph.foldLines acyclic dotPart depth),
      edges ++ done.flatMap (graph.foldLines acyclic graph.edgePart depth)⟩ : DotLoop)
  have run : LeadsTo (step graph) (state [] ids) (state ids []) := by
    apply leadsTo_of_each
    rintro done id waiting rfl
    simpa [state] using each id (by simp) (waiting.map (.enter · depth) ++ pending)
      (lines ++ done.flatMap (graph.foldLines acyclic dotPart depth))
      (edges ++ done.flatMap (graph.foldLines acyclic graph.edgePart depth))
  simpa [state] using run

theorem leadsTo_unit (acyclic : ∀ id, ¬graph.Below id id) (id : UnitId) :
    ∀ (depth : Nat) (pending : List DotTask) (lines edges : List String),
    LeadsTo (step graph) ⟨.enter id depth :: pending, lines, edges⟩
      ⟨pending, lines ++ graph.foldLines acyclic dotPart depth id,
        edges ++ graph.foldLines acyclic graph.edgePart depth id⟩ := by
  induction id using induction_of_acyclic acyclic with
  | step id ih =>
      intro depth pending lines edges
      cases isFound : graph.unit? id with
      | none =>
          rw [foldLines_of_missing acyclic depth isFound,
            foldLines_of_missing acyclic depth isFound, List.append_nil, List.append_nil]
          exact .single (by simp only [step, isFound])
      | some unit =>
          rw [foldLines_dotPart acyclic depth isFound, foldLines_edgePart acyclic depth isFound]
          cases isLeaf : unit.children.isEmpty with
          | true =>
              rw [if_pos rfl, List.isEmpty_iff.1 isLeaf, List.flatMap_nil, List.append_nil]
              exact .single (step_of_leaf isFound isLeaf depth pending lines edges)
          | false =>
              rw [if_neg Bool.false_ne_true]
              simp only [← List.append_assoc]
              refine .head (step_of_cluster isFound isLeaf depth pending lines edges) ?_
              refine .tail (leadsTo_of_forall acyclic
                (fun child childMem => ih unit isFound child childMem (depth + 1)) _ _ _) ?_
              rfl

theorem endsIn_fold (acyclic : ∀ id, ¬graph.Below id id) (ids : List UnitId) (depth : Nat) :
    EndsIn (step graph) ⟨ids.map (.enter · depth), [], []⟩
      ⟨[], ids.flatMap (graph.foldLines acyclic dotPart depth),
        ids.flatMap (graph.foldLines acyclic graph.edgePart depth)⟩ := by
  refine ⟨?_, rfl⟩
  have run : LeadsTo (step graph) ⟨ids.map (.enter · depth) ++ [], [], []⟩
      ⟨[], [] ++ ids.flatMap (graph.foldLines acyclic dotPart depth),
        [] ++ ids.flatMap (graph.foldLines acyclic graph.edgePart depth)⟩ :=
    leadsTo_of_forall acyclic (fun id _ => leadsTo_unit acyclic id depth) [] [] []
  rwa [List.append_nil] at run

end DotLoop

/-! ### Trees -/

/-- A tree that is being built. -/
structure TreeFrame where
  unit : CodeUnit
  /-- The trees below the root so far. -/
  built : List (Tree UnitSummary)
  /-- The units whose trees are missing. -/
  pending : List UnitId

/-- The trees that are being built, the innermost first, and the finished one. -/
structure TreeLoop where
  frames : List TreeFrame
  finished : Option (Tree UnitSummary)

namespace TreeLoop

/-- A tree of which only the root is known. -/
def start (unit : CodeUnit) : TreeLoop :=
  ⟨[⟨unit, [], unit.children⟩], none⟩

/-- Starts the next tree inside the innermost one, or else puts that one where it belongs. -/
def step (graph : CallGraph) (loop : TreeLoop) : Option TreeLoop :=
  match loop.frames with
  | [] => none
  | ⟨unit, built, id :: pending⟩ :: frames =>
    match graph.unit? id with
    | none => some ⟨⟨unit, built, pending⟩ :: frames, loop.finished⟩
    | some child =>
      some ⟨⟨child, [], child.children⟩ :: ⟨unit, built, pending⟩ :: frames, loop.finished⟩
  | ⟨unit, built, []⟩ :: frames =>
    let tree := Tree.node (graph.summary unit) built
    match frames with
    | [] => some ⟨[], some tree⟩
    | ⟨parent, before, pending⟩ :: frames =>
      some ⟨⟨parent, before ++ [tree], pending⟩ :: frames, loop.finished⟩

theorem leadsTo_of_forall (acyclic : ∀ id, ¬graph.Below id id) {ids : List UnitId} {depth : Nat}
    (each : ∀ id ∈ ids, ∀ unit built pending frames finished,
      LeadsTo (step graph) ⟨⟨unit, built, id :: pending⟩ :: frames, finished⟩
        ⟨⟨unit, built ++ (graph.fold acyclic graph.treePart depth id).toList, pending⟩ :: frames,
          finished⟩)
    (unit : CodeUnit) (frames : List TreeFrame) (finished : Option (Tree UnitSummary)) :
    LeadsTo (step graph) ⟨⟨unit, [], ids⟩ :: frames, finished⟩
      ⟨⟨unit, ids.filterMap (graph.fold acyclic graph.treePart depth), []⟩ :: frames,
        finished⟩ := by
  let state := fun done waiting : List UnitId =>
    (⟨⟨unit, done.filterMap (graph.fold acyclic graph.treePart depth), waiting⟩ :: frames,
      finished⟩ : TreeLoop)
  have run : LeadsTo (step graph) (state [] ids) (state ids []) := by
    apply leadsTo_of_each
    rintro done id waiting rfl
    have single : [id].filterMap (graph.fold acyclic graph.treePart depth) =
        (graph.fold acyclic graph.treePart depth id).toList := by
      rw [List.filterMap_eq_flatMap_toList, List.flatMap_singleton]
    simpa [state, List.filterMap_append, single] using each id (by simp) unit
      (done.filterMap (graph.fold acyclic graph.treePart depth)) waiting frames finished
  exact run

theorem leadsTo_unit (acyclic : ∀ id, ¬graph.Below id id) (id : UnitId) :
    ∀ (depth : Nat) (unit : CodeUnit) (built : List (Tree UnitSummary)) (pending : List UnitId)
      (frames : List TreeFrame) (finished : Option (Tree UnitSummary)),
    LeadsTo (step graph) ⟨⟨unit, built, id :: pending⟩ :: frames, finished⟩
      ⟨⟨unit, built ++ (graph.fold acyclic graph.treePart depth id).toList, pending⟩ :: frames,
        finished⟩ := by
  induction id using induction_of_acyclic acyclic with
  | step id ih =>
      intro depth unit built pending frames finished
      rw [fold_eq]
      cases isFound : graph.unit? id with
      | none =>
          rw [Option.map_none, Option.toList_none, List.append_nil]
          exact .single (by simp only [step, isFound])
      | some child =>
          have opened : step graph ⟨⟨unit, built, id :: pending⟩ :: frames, finished⟩ =
              some ⟨⟨child, [], child.children⟩ :: ⟨unit, built, pending⟩ :: frames, finished⟩ := by
            simp only [step, isFound]
          refine .head opened (.tail (leadsTo_of_forall acyclic (fun grandchild grandchildMem =>
            ih child isFound grandchild grandchildMem (depth + 1)) _ _ _) ?_)
          rw [Option.map_some, treePart_eq]
          rfl

/-- The loop ends with the tree that the recursion gives. -/
theorem endsIn_fold (acyclic : ∀ id, ¬graph.Below id id) {id : UnitId} {unit : CodeUnit}
    (isFound : graph.unit? id = some unit) (depth : Nat) :
    EndsIn (step graph) (start unit) ⟨[], graph.fold acyclic graph.treePart depth id⟩ := by
  refine ⟨?_, rfl⟩
  rw [fold_eq, isFound, Option.map_some, treePart_eq]
  exact .tail (leadsTo_of_forall acyclic (fun child _ => leadsTo_unit acyclic child (depth + 1))
    unit [] none) rfl

end TreeLoop

/--
The recursion over a graph without cycles, the outputs of the graph and the loops over a stack
agree: the trees of the document, the lines of the listing, and the lines and edges of the DOT
form. Numbers without a unit are skipped, and the loops end.
-/
theorem loops_eq_recursion (graph : CallGraph) (acyclic : ∀ id, ¬graph.Below id id) :
    ((∀ id unit, graph.unit? id = some unit → EndsIn (TreeLoop.step graph) (.start unit)
        ⟨[], graph.fold acyclic graph.treePart 0 id⟩) ∧
      graph.document.roots = graph.roots.filterMap (graph.fold acyclic graph.treePart 0)) ∧
    (EndsIn (ListingLoop.step graph) ⟨graph.roots.map (·, 0), []⟩
        ⟨[], graph.roots.flatMap (graph.foldLines acyclic graph.listingPart 0)⟩ ∧
      graph.listing = String.join
        ((graph.roots.flatMap (graph.foldLines acyclic graph.listingPart 0)).map (· ++ "\n"))) ∧
    EndsIn (DotLoop.step graph) ⟨graph.roots.map (.enter · 1), [], []⟩
        ⟨[], graph.roots.flatMap (graph.foldLines acyclic dotPart 1),
          graph.roots.flatMap (graph.foldLines acyclic graph.edgePart 1)⟩ ∧
      graph.dot = "\n".intercalate
        (["digraph G \x7b", "    rankdir=LR;", "    node [style=filled, color=white];"] ++
          graph.roots.flatMap (graph.foldLines acyclic dotPart 1) ++
          graph.roots.flatMap (graph.foldLines acyclic graph.edgePart 1) ++ ["\x7d"]) ++ "\n" := by
  refine ⟨⟨?_, document_roots_eq_fold acyclic⟩, ⟨?_, listing_eq_fold acyclic⟩, ?_, ?_⟩
  · exact fun id unit isFound => TreeLoop.endsIn_fold acyclic isFound 0
  · exact ListingLoop.endsIn_fold acyclic graph.roots 0
  · exact DotLoop.endsIn_fold acyclic graph.roots 1
  · rw [dot, dotDocument_eq_fold acyclic]

/--
A function listed in two files, whose own contents are missing, and other missing numbers. The
second file stands under another number than its own.
-/
def shared : CallGraph where
  roots := [1, 9, 2]
  table :=
    [(1, ⟨1, .file, some "a.ts", [3, 8], [2, 7], ⟨0, 0, 9, 1⟩⟩),
      (2, ⟨5, .file, none, [3], [], ⟨1, 0, 9, 1⟩⟩),
      (3, ⟨3, .function, some "f", [6], [1, 3], ⟨0, 2, 8, 2⟩⟩)]
  files := [⟨"a.ts"⟩]

theorem loops_eq_recursion_shared :
    (∀ id, ¬shared.Below id id) ∧
    (∃ tree, EndsIn (TreeLoop.step shared) (.start ⟨5, .file, none, [3], [], ⟨1, 0, 9, 1⟩⟩)
      ⟨[], tree⟩) ∧
    (∃ lines, EndsIn (ListingLoop.step shared) ⟨[(1, 0), (9, 0), (2, 0)], []⟩ ⟨[], lines⟩ ∧
      shared.listing = String.join (lines.map (· ++ "\n"))) ∧
    ∃ lines edges, EndsIn (DotLoop.step shared) ⟨[.enter 1 1, .enter 9 1, .enter 2 1], [], []⟩
        ⟨[], lines, edges⟩ ∧
      shared.dot = "\n".intercalate
        (["digraph G \x7b", "    rankdir=LR;", "    node [style=filled, color=white];"] ++
          lines ++ edges ++ ["\x7d"]) ++ "\n" := by
  have acyclic : ∀ id, ¬shared.Below id id := fun id below =>
    lt_irrefl id (lt_of_below (by decide) below)
  have agree := loops_eq_recursion shared acyclic
  exact ⟨acyclic, ⟨_, agree.1.1 2 _ rfl⟩, ⟨_, agree.2.1⟩, ⟨_, _, agree.2.2⟩⟩

end CallGraph

end CallHierarchy
