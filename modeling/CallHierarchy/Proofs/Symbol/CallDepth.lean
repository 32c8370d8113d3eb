import CallHierarchy.Proofs.Symbol.Simulation

/-!
# How deep the calls of a look-up are nested

The look-ups for names, members and types call each other. Each call is told at
which depth it is made, and beyond a limit some of the functions return at once.
Others do not look at the depth, and some pass it on as it is, so a call does not
always come closer to the limit.

Here the look-ups are tied together without regard to the limit: `nested` is what is
left of the recursion when at most so many calls may be nested. A call for which
there is no room has no result, and neither has any that waits for it.

Between two calls that go one deeper there is at most one that does not, so a call
needs room for two calls for each step that is left to the limit, and for a few more
(`answers_nested`). With that much room all calls have results, and these are the
plain ones. The room does not depend on what is looked up.
-/

open scoped Relator

namespace CallHierarchy

namespace Effect

/-- Plain results that are missing if there is no room for some call. -/
@[reducible]
def ifRoom : Effect where
  One α := Option (Option α)
  Many := Option (List Symbol)
  Searched := Option (List Symbol × Visited)
  ofOption := some
  bind thing next := thing.bind fun thing => thing.elim (some none) next
  orElse thing next := thing.bind fun thing => thing.elim (next ()) fun value => some (some value)
  ofList := some
  append symbols others := symbols.bind fun symbols => others.map (symbols ++ ·)
  after thing find := thing.bind fun thing => thing.elim (some []) find
  first symbols := symbols.map List.head?
  ended symbols visited := some (symbols, visited)
  andThen search next := search.bind fun search =>
    (next search.2).map fun others => (search.1 ++ others.1, others.2)
  orThen search next := search.bind fun search =>
    if search.1.isEmpty then next search.2 else some search
  symbols search := search.map Prod.fst
  noThing := some none
  noSymbols := some []
  noSearch visited := some ([], visited)

/-- Whether a result is there and stands in a relation to another one. -/
def IsThere {α β : Type} (alike : α → β → Prop) (result : Option α) (other : β) : Prop :=
  ∃ value, result = some value ∧ alike value other

/-- Whether searches have found and entered what corresponds. -/
abbrev SearchedAlike (alike : Symbol → Symbol → Prop) (entered : Visited → Visited → Prop)
    (search other : List Symbol × Visited) : Prop :=
  List.Forall₂ alike search.1 other.1 ∧ entered search.2 other.2

theorem isThere_orThen {alike : Symbol → Symbol → Prop} {entered : Visited → Visited → Prop}
    {search : Option (List Symbol × Visited)} {other : List Symbol × Visited}
    {next : Visited → Option (List Symbol × Visited)} {otherNext : Visited → List Symbol × Visited}
    (isThere : IsThere (SearchedAlike alike entered) search other)
    (agree : (entered ⇒ IsThere (SearchedAlike alike entered)) next otherNext) :
    IsThere (SearchedAlike alike entered) (ifRoom.orThen search next)
      (plain.orThen other otherNext) := by
  rcases isThere with ⟨⟨symbols, visited⟩, rfl, same, start⟩
  rcases other with ⟨otherSymbols, otherVisited⟩
  cases same with
  | nil => exact agree start
  | cons first rest => exact ⟨_, rfl, .cons first rest, start⟩

/-- Where there is room, results are the plain ones. -/
def ifRoomSimulation : ifRoom.Simulation plain where
  one alike := IsThere (Option.Rel alike)
  many alike := IsThere (List.Forall₂ alike)
  searched alike entered := IsThere (SearchedAlike alike entered)
  ofOption related := ⟨_, rfl, related⟩
  bind isThere _ _ agree := by
    rcases isThere with ⟨_, rfl, same | _⟩
    · exact agree same
    · exact ⟨none, rfl, .none⟩
  orElse isThere next := by
    rcases isThere with ⟨_, rfl, same | _⟩
    · exact ⟨_, rfl, .some same⟩
    · exact next
  ofList related := ⟨_, rfl, related⟩
  append isThere _ _ others := by
    rcases isThere with ⟨symbols, rfl, same⟩
    rcases others with ⟨further, rfl, furtherSame⟩
    exact ⟨symbols ++ further, rfl, List.rel_append same furtherSame⟩
  after isThere _ _ agree := by
    rcases isThere with ⟨_, rfl, same | _⟩
    · exact agree same
    · exact ⟨[], rfl, .nil⟩
  first isThere := by
    rcases isThere with ⟨_, rfl, _ | ⟨same, _⟩⟩
    · exact ⟨none, rfl, .none⟩
    · exact ⟨_, rfl, .some same⟩
  ended related _ _ start := ⟨_, rfl, related, start⟩
  andThen isThere _ _ agree := by
    rcases isThere with ⟨search, rfl, same, entered⟩
    rcases agree entered with ⟨others, isNext, otherSame, otherEntered⟩
    refine ⟨(search.1 ++ others.1, others.2), ?_, List.rel_append same otherSame, otherEntered⟩
    simp only [Option.bind_some, isNext, Option.map_some]
  orThen isThere _ _ agree := isThere_orThen isThere agree
  symbols isThere := by
    rcases isThere with ⟨search, rfl, same, _⟩
    exact ⟨search.1, rfl, same⟩
  noThing := ⟨none, rfl, .none⟩
  noSymbols := ⟨[], rfl, .nil⟩
  noSearch start := ⟨_, rfl, .nil, start⟩

end Effect

namespace SymbolTable

/-- Look-ups without results. -/
def spent : Lookups .ifRoom where
  identifierSymbols _ := none
  followBindings _ _ _ := none
  followExport _ _ _ := none
  memberSymbols _ := none
  receiverMembers _ _ := none
  objectMembers _ _ := none
  classMembers _ _ _ := none
  superclass _ := none
  type _ := none
  symbolType _ := none
  declarationType _ := none
  annotatedType _ := none

/-- The look-ups at each depth when at most the given number of calls may be nested. -/
def nested (table : SymbolTable) (limit : Nat) : Nat → Nat → Lookups .ifRoom
  | 0, _ => spent
  | room + 1, depth => .step table (limit < depth) (nested table limit room depth)
      (nested table limit room (depth + 1))

/-- The declarations that a node refers to, if they are found with so many nested calls. -/
def declarationsNested (table : SymbolTable) (limit room : Nat) (node : Node) :
    Option (List NodeKey) :=
  ((table.nested limit room 0).symbols node).map (·.filterMap Symbol.declaration?)

variable {table : SymbolTable} {limit depth : Nat}

theorem nested_of_lt (beyond : limit < depth) (room : Nat) :
    table.nested limit (room + 1) depth = .step table true (table.nested limit room depth)
      (table.nested limit room (depth + 1)) := by
  rw [nested, decide_eq_true beyond]

section Beyond

variable (beyond : limit < depth) (room : Nat)

include beyond

theorem followExport_nested_of_lt : Effect.ifRoomSimulation.Searches .self
    (table.nested limit (room + 1) depth).followExport (Lookups.nothing .plain).followExport := by
  rw [nested_of_lt beyond]
  exact fun _ _ _ _ _ _ => @Effect.ifRoomSimulation.noSearch _ _

theorem type_nested_of_lt : (Eq ⇒ Effect.ifRoomSimulation.Types .self)
    (table.nested limit (room + 1) depth).type (Lookups.nothing .plain).type := by
  rw [nested_of_lt beyond]
  exact fun _ _ _ => Effect.ifRoomSimulation.noThing

theorem superclass_nested_of_lt : (Eq ⇒ Effect.ifRoomSimulation.one fun _ _ => False)
    (table.nested limit (room + 1) depth).superclass (Lookups.nothing .plain).superclass := by
  rw [nested_of_lt beyond]
  exact fun _ _ _ => Effect.ifRoomSimulation.noThing

theorem declarationType_nested_of_lt : (Eq ⇒ Effect.ifRoomSimulation.Types .self)
    (table.nested limit (room + 1) depth).declarationType
    (Lookups.nothing .plain).declarationType := by
  rw [nested_of_lt beyond]
  exact fun _ _ _ => Effect.ifRoomSimulation.noThing

theorem receiverMembers_nested_of_lt :
    (Counterparts.self.TypeLike ⇒ Eq ⇒ Effect.ifRoomSimulation.Symbols .self)
    (table.nested limit (room + 1) depth).receiverMembers
    (Lookups.nothing .plain).receiverMembers := by
  rw [nested_of_lt beyond]
  exact fun _ _ _ _ _ _ => Effect.ifRoomSimulation.noSymbols

/-- Beyond the limit three nested calls are enough. -/
theorem related_nested_of_lt :
    Lookups.Related Effect.ifRoomSimulation .self table table (table.nested limit (room + 3) depth)
      (table.lookups .plain 0) := by
  have deeper : limit < depth + 1 := Nat.lt_succ_of_lt beyond
  have followBindings : ∀ room source otherSource,
      Effect.ifRoomSimulation.Follows .self table table source otherSource
        ((table.nested limit (room + 2) depth).followBindings source)
        ((table.lookups .plain 0).followBindings otherSource) :=
    fun room => Effect.ifRoomSimulation.followBindingsStep (followExport_nested_of_lt deeper room)
  constructor
  · exact Effect.ifRoomSimulation.identifierSymbolsStep table.like_self (followBindings room)
  · exact followBindings (room + 1)
  · exact followExport_nested_of_lt beyond (room + 2)
  · exact Effect.ifRoomSimulation.memberSymbolsStep table.like_self
      (type_nested_of_lt deeper (room + 1)) (receiverMembers_nested_of_lt deeper (room + 1))
  · exact receiverMembers_nested_of_lt beyond (room + 2)
  · exact Effect.ifRoomSimulation.classMembersStep table.like_self
      (superclass_nested_of_lt deeper (room + 1)) fun _ _ => False.elim
  · rw [nested_of_lt beyond]
    exact fun _ _ _ => Effect.ifRoomSimulation.noThing
  · exact type_nested_of_lt beyond (room + 2)
  · exact Effect.ifRoomSimulation.symbolTypeStep (declarationType_nested_of_lt beyond (room + 1))
  · rw [nested_of_lt beyond]
    exact fun _ _ _ => Effect.ifRoomSimulation.noThing

end Beyond

/-- Within the limit two more nested calls are enough. -/
theorem related_nested_within (within : depth ≤ limit) {room budget : Nat}
    (below : ∀ more, Lookups.Related Effect.ifRoomSimulation .self table table
      (table.nested limit (room + more) (depth + 1)) (table.lookups .plain budget)) :
    Lookups.Related Effect.ifRoomSimulation .self table table (table.nested limit (room + 2) depth)
      (table.lookups .plain (budget + 1)) := by
  have limits : Effect.ifRoomSimulation.LimitsAgree (limit < depth) false :=
    .inl (decide_eq_false (Nat.not_lt.2 within)).symm
  exact (below 1).step table.like_self limits
    ((below 0).relatedHere_step table.like_self limits _ _)

/-- There is enough room for two calls for each step to the limit and three more. -/
theorem related_nested (table : SymbolTable) (budget : Nat) : ∀ depth, limit + 1 - depth = budget →
    ∀ room, 2 * budget + 3 ≤ room →
      Lookups.Related Effect.ifRoomSimulation .self table table (table.nested limit room depth)
        (table.lookups .plain budget) := by
  induction budget with
  | zero =>
      intro depth left room enough
      obtain ⟨more, rfl⟩ := Nat.exists_eq_add_of_le' enough
      exact related_nested_of_lt (by omega) more
  | succ budget ih =>
      intro depth left room enough
      obtain ⟨more, rfl⟩ := Nat.exists_eq_add_of_le' enough
      have below := fun further =>
        ih (depth + 1) (by omega) (more + (2 * budget + 3) + further) (by omega)
      exact related_nested_within (by omega) below

theorem declarationsNested_eq (table : SymbolTable) {limit room : Nat}
    (enough : 2 * limit + 5 ≤ room) (node : Node) :
    table.declarationsNested limit room node = some (table.declarationsWithin limit node) := by
  have related := table.related_nested (limit + 1) 0 rfl room enough
  rcases related.symbols table.like_self rfl with ⟨symbols, isThere, same⟩
  have keys : List.Forall₂ Eq (symbols.filterMap Symbol.declaration?)
      (table.declarationsWithin limit node) :=
    List.rel_filterMap (fun _ _ same => same.declaration?) same
  rw [List.forall₂_eq_eq_eq] at keys
  rw [declarationsNested, isThere, Option.map_some, keys]

/--
There is a number of nested calls that is enough for every look-up in every project,
however its imports, classes, values and annotations refer to each other.
-/
theorem exists_room_for_declarations :
    ∃ room, ∀ (table : SymbolTable) (node : Node) (further : Nat),
      table.declarationsNested defaultLimit (room + further) node =
        some (table.declarations node) := by
  refine ⟨2 * defaultLimit + 5, ?_⟩
  intro table node further
  exact table.declarationsNested_eq (Nat.le_add_right _ further) node

/-- A variable whose value is a member of itself. -/
def selfReference : SourceFile where
  id := 0
  path := ⟨"/self.ts"⟩
  text := "let a=a.b"
  root :=
    .node ⟨⟨"program", true⟩, 0, 9, none⟩
      [.node ⟨⟨"lexical_declaration", true⟩, 0, 9, none⟩
        [.node ⟨⟨"variable_declarator", true⟩, 4, 9, none⟩
          [.node ⟨⟨"identifier", true⟩, 4, 5, some "name"⟩ [],
            .node ⟨⟨"member_expression", true⟩, 6, 9, some "value"⟩
              [.node ⟨⟨"identifier", true⟩, 6, 7, some "object"⟩ [],
                .node ⟨⟨"property_identifier", true⟩, 8, 9, some "property"⟩ []]]]]

example :
    let table := ofFiles ⟨"/"⟩ .empty [selfReference]
    let node := selfReference.rootNode.preorder.getD 4 selfReference.rootNode
    table.declarationsNested defaultLimit 40 node = none ∧
      table.declarationsNested defaultLimit 70 node = some [] := by
  decide +kernel

end SymbolTable

end CallHierarchy
