import CallHierarchy.Proofs.Unit.Containment
import CallHierarchy.Run.Calls

/-!
# What the steps of a run do to its entries

Entering a file puts one entry for each of its entities before the entries so
far. Finding the calls of a file keeps all entries and replaces calls only, by
the last claim made for a unit. No look-up reads calls, so look-ups, edges and
claims stay the same through any number of such steps, and the claims of several
files can be collected first and granted at once.
-/

namespace CallHierarchy

section

variable {α β : Type} [BEq α]

/-- The value that the last pair for a key gives it. -/
def lastFor? (pairs : List (α × β)) (key : α) : Option β :=
  (pairs.reverse.find? (·.1 == key)).map (·.2)

theorem lastFor?_append (left right : List (α × β)) (key : α) :
    lastFor? (left ++ right) key = (lastFor? right key).or (lastFor? left key) := by
  simp [lastFor?, Option.map_or]

variable [LawfulBEq α]

theorem lastFor?_eq_none {pairs : List (α × β)} {key : α}
    (absent : ∀ pair ∈ pairs, pair.1 ≠ key) : lastFor? pairs key = none := by
  rw [lastFor?, Option.map_eq_none_iff, List.find?_eq_none]
  intro pair pairMem
  simpa using absent pair (List.mem_reverse.1 pairMem)

theorem lastFor?_map {γ δ : Type} [BEq γ] [LawfulBEq γ] {keys : α → γ}
    (injective : Function.Injective keys) (values : β → δ) (pairs : List (α × β)) (key : α) :
    lastFor? (pairs.map fun pair => (keys pair.1, values pair.2)) (keys key) =
      (lastFor? pairs key).map values := by
  simp only [lastFor?, ← List.map_reverse, List.find?_map, Option.map_map, Function.comp_def,
    injective.beq_eq]

theorem mem_of_lastFor? {pairs : List (α × β)} {key : α} {value : β}
    (isLast : lastFor? pairs key = some value) : (key, value) ∈ pairs := by
  simp only [lastFor?, Option.map_eq_some_iff] at isLast
  rcases isLast with ⟨⟨other, found⟩, isFound, rfl⟩
  have sameKey : other = key := by simpa using List.find?_some isFound
  rw [← sameKey]
  simpa using List.mem_of_find?_eq_some isFound

/-- Where a key has one value only, the last pair for it gives that value. -/
theorem lastFor?_of_unique {pairs : List (α × β)} {key : α} {value : β}
    (pairMem : (key, value) ∈ pairs) (unique : ∀ other, (key, other) ∈ pairs → other = value) :
    lastFor? pairs key = some value := by
  cases isLast : lastFor? pairs key with
  | none =>
      rw [lastFor?, Option.map_eq_none_iff, List.find?_eq_none] at isLast
      exact absurd (beq_self_eq_true key) (isLast _ (List.mem_reverse.2 pairMem))
  | some other => rw [unique other (mem_of_lastFor? isLast)]

theorem lastFor?_of_mem {pairs : List (α × β)} {key : α} {value : β}
    (distinct : (pairs.map (·.1)).Nodup) (pairMem : (key, value) ∈ pairs) :
    lastFor? pairs key = some value := by
  apply lastFor?_of_unique pairMem
  intro other otherMem
  exact (Prod.mk.inj (List.inj_on_of_nodup_map distinct otherMem pairMem rfl)).2

theorem eq_of_mem_zipIdx {items : List β} (distinct : items.Nodup) {first id otherId : Nat}
    {item : β} (itemMem : (item, id) ∈ items.zipIdx first)
    (otherMem : (item, otherId) ∈ items.zipIdx first) : otherId = id := by
  rw [← List.zipIdx_map_fst first items] at distinct
  exact (Prod.mk.inj (List.inj_on_of_nodup_map distinct otherMem itemMem rfl)).2

/-- Where no two items share a key, each item is found by its key, under its own number. -/
theorem lastFor?_zipIdx {items : List β} (keyOf : β → α) (distinct : items.Nodup)
    {first id : Nat} {item : β} (itemMem : (item, id) ∈ items.zipIdx first)
    (unique : ∀ other ∈ items, keyOf other = keyOf item → other = item) :
    lastFor? ((items.zipIdx first).map fun entry => (keyOf entry.1, entry.2)) (keyOf item) =
      some id := by
  apply lastFor?_of_unique
  · exact List.mem_map.2 ⟨_, itemMem, rfl⟩
  intro otherId pairMem
  rcases List.mem_map.1 pairMem with ⟨⟨other, _⟩, otherMem, isPair⟩
  rcases Prod.mk.inj isPair with ⟨sameKey, rfl⟩
  have same := unique other (List.fst_mem_of_mem_zipIdx otherMem) sameKey
  subst same
  exact eq_of_mem_zipIdx distinct itemMem otherMem

theorem lastFor?_of_perm {pairs permuted : List (α × β)} (perm : pairs.Perm permuted)
    (distinct : (pairs.map (·.1)).Nodup) (key : α) :
    lastFor? pairs key = lastFor? permuted key := by
  have permutedDistinct := (perm.map (·.1)).nodup_iff.1 distinct
  ext value
  exact ⟨fun isLast => lastFor?_of_mem permutedDistinct (perm.mem_iff.1 (mem_of_lastFor? isLast)),
    fun isLast => lastFor?_of_mem distinct (perm.mem_iff.2 (mem_of_lastFor? isLast))⟩

end

namespace Entry

/-- The entry with the calls of the last claim for its unit, or its own if there is none. -/
def claim (claims : List (UnitId × List UnitId)) (entry : Entry) : Entry :=
  { entry with
    unit := { entry.unit with
      calls := (lastFor? claims entry.unit.id).getD entry.unit.calls } }

theorem claim_nil (entry : Entry) : entry.claim [] = entry :=
  rfl

theorem claim_append (left right : List (UnitId × List UnitId)) (entry : Entry) :
    entry.claim (left ++ right) = (entry.claim left).claim right := by
  simp [claim, lastFor?_append, Option.getD_or]

end Entry

namespace Run

@[simp]
theorem units_finish (run : Run) (paths : List Path) : (run.finish paths).units = run.units := by
  rw [finish, CallGraph.units, List.map_map]
  exact List.map_id _

/-- The entry that adding an entity makes. -/
def entryOf (run : Run) (entity : Entity) (children : List UnitId) : Entry where
  unit := entity.unit run.nextId children
  node := entity.node.key
  declaration := entity.declaration.map Node.key
  constructs := run.constructedUnit? entity

/-- Adds the units of some entities, one after the other. -/
def enter (run : Run) (numbered : List (Entity × List UnitId)) : Run :=
  numbered.foldl (fun run (entity, children) => run.add entity children) run

theorem enter_cons (run : Run) (entity : Entity) (children : List UnitId)
    (rest : List (Entity × List UnitId)) :
    run.enter ((entity, children) :: rest) = (run.add entity children).enter rest :=
  rfl

theorem entries_add (run : Run) (entity : Entity) (children : List UnitId) :
    (run.add entity children).entries = run.entryOf entity children :: run.entries :=
  rfl

theorem nextId_add (run : Run) (entity : Entity) (children : List UnitId) :
    (run.add entity children).nextId = run.nextId + 1 :=
  rfl

theorem classify_eq (run : Run) (file : SourceFile) :
    run.classify file = { run.enter (Outline.numberedPlaces run.nextId file.places) with
      roots := run.roots ++ [run.nextId] } := by
  rw [← Outline.numbered_ofFile]
  rfl

theorem entries_classify (run : Run) (file : SourceFile) :
    (run.classify file).entries =
      (run.enter (Outline.numberedPlaces run.nextId file.places)).entries := by
  rw [classify_eq]

theorem enter_append (run : Run) (left right : List (Entity × List UnitId)) :
    run.enter (left ++ right) = (run.enter left).enter right :=
  List.foldl_append

theorem nextId_enter (run : Run) (numbered : List (Entity × List UnitId)) :
    (run.enter numbered).nextId = run.nextId + numbered.length := by
  induction numbered generalizing run with
  | nil => rfl
  | cons item rest ih =>
      rw [enter_cons, ih, nextId_add, List.length_cons, Nat.add_assoc, Nat.add_comm 1]

/--
What is read off the new entries, in reverse order. The reading may depend on all
that was entered before, so it is given for the run up to each item.
-/
theorem map_entries_enter_of_split {ι α : Type} (make : ι → Entity × List UnitId)
    (view : Entry → α) (expected : ι → UnitId → α) (run : Run) (items : List ι)
    (agree : ∀ before item after, items = before ++ item :: after →
      view ((run.enter (before.map make)).entryOf (make item).1 (make item).2) =
        expected item (run.nextId + before.length)) :
    (run.enter (items.map make)).entries.map view =
      ((items.zipIdx run.nextId).map fun item => expected item.1 item.2).reverse ++
        run.entries.map view := by
  induction items using List.reverseRecOn with
  | nil => rfl
  | append_singleton items last ih =>
      have before := ih fun before item after split =>
        agree before item (after ++ [last]) (by simp [split])
      rw [List.map_append, enter_append, List.map_singleton, enter_cons, enter, List.foldl_nil,
        entries_add, List.map_cons, agree items last [] rfl, before]
      simp [List.zipIdx_append]

/--
Whatever is read off an entry, as long as the entity, the numbers inside it and
its own number decide it, is read off all new entries in reverse order.
-/
theorem map_entries_enter {α : Type} (view : Entry → α)
    (expected : Entity → List UnitId → UnitId → α)
    (agree : ∀ (run : Run) (entity : Entity) (children : List UnitId),
      view (run.entryOf entity children) = expected entity children run.nextId)
    (run : Run) (numbered : List (Entity × List UnitId)) :
    (run.enter numbered).entries.map view =
      ((numbered.zipIdx run.nextId).map fun item => expected item.1.1 item.1.2 item.2).reverse ++
        run.entries.map view := by
  have views := map_entries_enter_of_split id view (fun item => expected item.1 item.2) run numbered
    fun before item after _ => by rw [agree, nextId_enter, List.length_map]; rfl
  rwa [List.map_id] at views

/-- New entries stand before the ones so far, and each is that of an entity. -/
theorem exists_newer_enter (run : Run) (numbered : List (Entity × List UnitId)) :
    ∃ newer, (run.enter numbered).entries = newer ++ run.entries ∧
      ∀ entry ∈ newer, ∃ item ∈ numbered,
        entry.node = item.1.node.key ∧ entry.unit.span.file = item.1.node.file.id := by
  induction numbered generalizing run with
  | nil => exact ⟨[], rfl, by simp⟩
  | cons item rest ih =>
      rcases ih (run.add item.1 item.2) with ⟨newer, entries, fromRest⟩
      refine ⟨newer ++ [run.entryOf item.1 item.2], ?_, ?_⟩
      · rw [enter_cons, entries, entries_add, List.append_assoc]
        rfl
      · intro entry entryMem
        rcases List.mem_append.1 entryMem with fromNewer | isEntry
        · rcases fromRest entry fromNewer with ⟨other, otherMem, files⟩
          exact ⟨other, List.mem_cons_of_mem _ otherMem, files⟩
        · rw [List.mem_singleton.1 isEntry]
          exact ⟨item, List.mem_cons_self, rfl, rfl⟩

theorem setCalls_eq (run : Run) (id : UnitId) (calls : List UnitId) :
    run.setCalls id calls =
      { run with entries := run.entries.map (Entry.claim [(id, calls)]) } := by
  simp only [setCalls, Run.mk.injEq, and_true]
  apply List.map_congr_left
  intro entry _
  by_cases own : id = entry.unit.id
  · simp [Entry.claim, lastFor?, own]
  · have other : ¬entry.unit.id = id := fun same => own same.symm
    simp [Entry.claim, lastFor?, own, other]

/-- Grants all claims at once; of two claims for one unit, the later counts. -/
def grant (run : Run) (claims : List (UnitId × List UnitId)) : Run :=
  { run with entries := run.entries.map (Entry.claim claims) }

theorem grant_nil (run : Run) : run.grant [] = run := by
  simp only [grant, funext Entry.claim_nil, List.map_id']

theorem grant_grant (run : Run) (left right : List (UnitId × List UnitId)) :
    (run.grant left).grant right = run.grant (left ++ right) := by
  simp only [grant, List.map_map, Run.mk.injEq, and_true]
  apply List.map_congr_left
  intro entry _
  exact (Entry.claim_append left right entry).symm

theorem foldl_setCalls (run : Run) (claims : List (UnitId × List UnitId)) :
    claims.foldl (fun run (id, calls) => run.setCalls id calls) run = run.grant claims := by
  induction claims generalizing run with
  | nil => exact run.grant_nil.symm
  | cons first rest ih =>
      rw [List.foldl_cons, ih, ← List.singleton_append, ← grant_grant]
      exact congrArg (grant · rest) (run.setCalls_eq first.1 first.2)

/-- The claims that the units of a file make. -/
def claims (run : Run) (declarations : Declarations) (file : SourceFile) :
    List (UnitId × List UnitId) :=
  (run.shareOut declarations file [] file.root).claimed

theorem resolve_eq (run : Run) (declarations : Declarations) (file : SourceFile) :
    run.resolve declarations file = run.grant (run.claims declarations file) :=
  run.foldl_setCalls _

section

variable (run : Run) (claims : List (UnitId × List UnitId))

@[simp]
theorem unitOfNode?_grant (key : NodeKey) :
    (run.grant claims).unitOfNode? key = run.unitOfNode? key := by
  simp only [unitOfNode?, grant, List.find?_map, Option.map_map]
  rfl

@[simp]
theorem unitOfDeclaration?_grant (key : NodeKey) :
    (run.grant claims).unitOfDeclaration? key = run.unitOfDeclaration? key := by
  simp only [unitOfDeclaration?, grant, List.find?_map, Option.map_map]
  rfl

@[simp]
theorem constructorOf?_grant (id : UnitId) :
    (run.grant claims).constructorOf? id = run.constructorOf? id := by
  simp only [constructorOf?, grant, List.find?_map, Option.map_map]
  rfl

@[simp]
theorem kindOf?_grant (id : UnitId) : (run.grant claims).kindOf? id = run.kindOf? id := by
  simp only [kindOf?, grant, List.find?_map, Option.map_map]
  rfl

@[simp]
theorem edge?_grant (declarations : Declarations) (node : Node) :
    (run.grant claims).edge? declarations node = run.edge? declarations node := by
  simp only [edge?, funext (run.unitOfDeclaration?_grant claims),
    funext (run.constructorOf?_grant claims), kindOf?_grant]

mutual

theorem shareOut_grant (declarations : Declarations) (file : SourceFile)
    (around : List SyntaxTree) : ∀ tree : SyntaxTree,
    (run.grant claims).shareOut declarations file around tree =
      run.shareOut declarations file around tree
  | .node label children => by
      simp only [shareOut, edge?_grant, unitOfNode?_grant,
        shareOutList_grant declarations file (.node label children :: around) children]

theorem shareOutList_grant (declarations : Declarations) (file : SourceFile)
    (around : List SyntaxTree) : ∀ trees : List SyntaxTree,
    (run.grant claims).shareOutList declarations file around trees =
      run.shareOutList declarations file around trees
  | [] => rfl
  | tree :: rest => by
      simp only [shareOutList, shareOut_grant declarations file around tree,
        shareOutList_grant declarations file around rest]

end

end

theorem claims_grant (run : Run) (granted : List (UnitId × List UnitId))
    (declarations : Declarations) (file : SourceFile) :
    (run.grant granted).claims declarations file = run.claims declarations file := by
  simp only [claims, shareOut_grant]

/-- To find the calls of several files is to grant all their claims at once. -/
theorem foldl_resolve (run : Run) (declarations : Declarations) (files : List SourceFile) :
    files.foldl (fun run file => run.resolve declarations file) run =
      run.grant (files.flatMap (run.claims declarations)) := by
  induction files generalizing run with
  | nil => exact run.grant_nil.symm
  | cons file rest ih =>
      rw [List.foldl_cons, resolve_eq, ih, grant_grant, List.flatMap_cons,
        funext (run.claims_grant (run.claims declarations file) declarations)]

end Run
end CallHierarchy
