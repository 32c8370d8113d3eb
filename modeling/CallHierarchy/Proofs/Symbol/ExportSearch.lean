import CallHierarchy.Proofs.Symbol.ExportGraph
import CallHierarchy.Symbol.Lookup
import Mathlib.Data.Set.Card

/-!
# What a search for an exported name finds

The search goes depth first through the graph of requests: it makes the moves of a
request one after the other (`followExport_succ`). It enters no request twice, stops
early where it has found something, and gives up where its budget ends. `Explored` says
what any part of it does, from one move to following a whole name: what it finds is
there, what it enters it has come to through distinct requests, and if it finds nothing
then it has left nothing out that was within the budget.

Where few requests can be reached, the budget is never spent, and the search finds
something just if there is something to be found (`exportedSymbols_complete`).
-/

namespace CallHierarchy
namespace SymbolTable

/--
What a part of a search finds and another one after it, or only the first that finds
something.
-/
def inTurn (stops : Bool) (first : List Symbol × Visited)
    (next : Visited → List Symbol × Visited) : List Symbol × Visited :=
  if stops && !first.1.isEmpty then first
  else (first.1 ++ (next first.2).1, (next first.2).2)

/-- What a search with the given budget finds by a move. -/
def perform (table : SymbolTable) (budget : Nat) : Move → Visited → List Symbol × Visited
  | .found symbol, visited => ([symbol], visited)
  | .ask cost next, visited => table.followExport (budget - cost) next.1 next.2 visited

/-- What a search finds by some moves, all of them or up to the first that finds something. -/
def performAll (table : SymbolTable) (budget : Nat) (stops : Bool) :
    List Move → Visited → List Symbol × Visited
  | [], visited => ([], visited)
  | move :: rest, visited =>
    inTurn stops (table.perform budget move visited) (table.performAll budget stops rest)

section

variable {table : SymbolTable} {budget : Nat} {stops : Bool}

theorem inTurn_nil (visited : Visited) (next : Visited → List Symbol × Visited) :
    inTurn stops ([], visited) next = next visited := by
  simp [inTurn]

theorem inTurn_inTurn (first : List Symbol × Visited)
    (next last : Visited → List Symbol × Visited) :
    inTurn stops (inTurn stops first next) last =
      inTurn stops first fun visited => inTurn stops (next visited) last := by
  rcases first with ⟨_ | ⟨symbol, symbols⟩, visited⟩
  · simp only [inTurn_nil]
  · cases stops <;> simp [inTurn]

theorem performAll_append (moves more : List Move) (visited : Visited) :
    table.performAll budget stops (moves ++ more) visited =
      inTurn stops (table.performAll budget stops moves visited)
        (table.performAll budget stops more) := by
  induction moves generalizing visited with
  | nil => rw [List.nil_append, performAll, inTurn_nil]
  | cons move rest ih =>
      simp only [List.cons_append, performAll, inTurn_inTurn]
      exact congrArg (inTurn stops _) (funext ih)

theorem performAll_singleton (move : Move) (visited : Visited) :
    table.performAll budget stops [move] visited = table.perform budget move visited := by
  simp [performAll, inTurn]

section

variable {α : Type} {find : α → Visited → List Symbol × Visited} {movesOf : α → List Move}
  {items : List α}

theorem gather_eq_performAll (visited : Visited)
    (each : ∀ item ∈ items, ∀ visited, find item visited =
      table.performAll budget false (movesOf item) visited) :
    Effect.plain.gather find items visited =
      table.performAll budget false (items.flatMap movesOf) visited := by
  induction items generalizing visited with
  | nil => rfl
  | cons item rest ih =>
      rw [List.forall_mem_cons] at each
      rw [List.flatMap_cons, performAll_append, ← each.1]
      simp only [Effect.gather, inTurn, Bool.false_and, Bool.false_eq_true, if_false, ih _ each.2]

theorem firstFound_eq_performAll (visited : Visited)
    (each : ∀ item ∈ items, ∀ visited, find item visited =
      table.performAll budget true (movesOf item) visited) :
    Effect.plain.firstFound find items visited =
      table.performAll budget true (items.flatMap movesOf) visited := by
  induction items generalizing visited with
  | nil => rfl
  | cons item rest ih =>
      rw [List.forall_mem_cons] at each
      rw [List.flatMap_cons, performAll_append, ← each.1]
      rw [Effect.firstFound]
      rcases find item visited with ⟨_ | ⟨symbol, symbols⟩, entered⟩
      · rw [inTurn_nil]
        exact ih _ each.2
      · rfl

end

theorem found_mem_performAll {moves : List Move} {symbol : Symbol} (visited : Visited)
    (moveMem : .found symbol ∈ moves) :
    symbol ∈ (table.performAll budget false moves visited).1 := by
  induction moves generalizing visited with
  | nil => cases moveMem
  | cons move rest ih =>
      simp only [performAll, inTurn, Bool.false_and, Bool.false_eq_true, if_false, List.mem_append]
      rcases List.mem_cons.1 moveMem with rfl | moveMem
      · exact .inl (List.mem_singleton.2 rfl)
      · exact .inr (ih _ moveMem)

/-- Moves that find symbols on the spot find just these. -/
theorem performAll_found (symbols : List Symbol) (visited : Visited) :
    table.performAll budget false (symbols.map .found) visited = (symbols, visited) := by
  induction symbols with
  | nil => rfl
  | cons symbol rest ih =>
      simp only [List.map_cons, performAll, perform, inTurn, Bool.false_and, Bool.false_eq_true,
        if_false, ih, List.singleton_append]

end

section

variable (table : SymbolTable) (budget : Nat) (file : SourceFile)

theorem findBinding_eq_performAll (stops : Bool) (binding : Binding) (visited : Visited) :
    table.findBinding .plain (table.followExport (budget - 2)) file binding visited =
      table.performAll budget stops (table.bindingMove? file binding).toList visited := by
  rcases binding with ⟨key, _ | ⟨specifier, name | _⟩⟩
  · rw [bindingMove?, Option.toList_some, performAll_singleton]
    rfl
  all_goals
    simp only [findBinding, bindingMove?]
    cases table.target? file specifier with
    | none => rfl
    | some target =>
        rw [Option.map_some, Option.toList_some, performAll_singleton]
        rfl

theorem findForwarded_eq_performAll (stops : Bool) (name specifier : String) (visited : Visited) :
    table.findForwarded .plain (table.followExport (budget - 1)) file name specifier visited =
      table.performAll budget stops (table.forwardedMove? file name specifier).toList visited := by
  simp only [findForwarded, forwardedMove?]
  cases table.target? file specifier with
  | none => rfl
  | some target =>
      rw [Option.map_some, Option.toList_some, performAll_singleton]
      rfl

/-- Bindings are followed by their moves. -/
theorem followBindings_eq_performAll (bindings : List Binding) (visited : Visited) :
    (table.lookups .plain budget).followBindings file bindings visited =
      table.performAll (budget + 1) false (bindings.filterMap (table.bindingMove? file))
        visited := by
  have deeper : (table.lookups .plain budget).followBindings file = Effect.plain.gather
      (table.findBinding .plain (table.followExport (budget + 1 - 2)) file) := by
    cases budget <;> rfl
  rw [deeper, List.filterMap_eq_flatMap_toList]
  exact gather_eq_performAll visited fun binding _ =>
    table.findBinding_eq_performAll (budget + 1) file false binding

theorem findExport_eq_performAll (scopes : ScopeTable) (offer : Export) (visited : Visited) :
    table.findExport .plain (table.followExport budget) file
        ((table.lookups .plain budget).followBindings file) scopes offer visited =
      table.performAll (budget + 1) false (table.offerMoves file scopes offer) visited := by
  cases offer with
  | topLevel name => exact table.followBindings_eq_performAll budget file _ visited
  | declaration key =>
      rw [offerMoves, performAll_singleton]
      rfl
  | forwarded specifier name =>
      exact table.findForwarded_eq_performAll (budget + 1) file false name specifier visited
  | everything specifier =>
      simp only [findExport, offerMoves]
      cases table.target? file specifier with
      | none => rfl
      | some target =>
          simp only [Option.map_some, Option.toList_some, performAll_singleton]
          rfl

end

/-- Whether the file of a request does not export the name itself. -/
def passesOn (table : SymbolTable) (request : Request) : Bool :=
  match table.file? request.1 with
  | none => true
  | some (_, scopes) => (scopes.offers request.2).isEmpty

/-- A search enters a request and makes its moves, if it has not entered the request before. -/
theorem followExport_succ (table : SymbolTable) (budget : Nat) (id : FileId) (name : String)
    (visited : Visited) :
    table.followExport (budget + 1) id name visited =
      if (id, name) ∈ visited then ([], visited)
      else table.performAll (budget + 1) (table.passesOn (id, name)) (table.moves (id, name))
        ((id, name) :: visited) := by
  have step : table.followExport (budget + 1) id name visited =
      (table.lookups .plain budget).followExportStep table false id name visited := rfl
  rw [step, Lookups.followExportStep]
  simp only [Bool.false_eq_true, if_false, List.contains_iff_mem]
  apply if_congr Iff.rfl rfl
  unfold passesOn moves
  cases table.file? id with
  | none => rfl
  | some found =>
      simp only [findOffered, nameMoves]
      cases isOffers : found.2.offers name with
      | nil =>
          simp only
          split
          · rfl
          · rw [List.filterMap_eq_flatMap_toList]
            exact firstFound_eq_performAll _ fun specifier _ =>
              table.findForwarded_eq_performAll (budget + 1) found.1 true name specifier
      | cons offer rest =>
          exact gather_eq_performAll _ fun offer _ =>
            table.findExport_eq_performAll budget found.1 found.2 offer

theorem followExport_of_mem {table : SymbolTable} {budget : Nat} {id : FileId} {name : String}
    {visited : Visited} (isOld : (id, name) ∈ visited) :
    table.followExport budget id name visited = ([], visited) := by
  cases budget with
  | zero => rfl
  | succ budget => rw [followExport_succ, if_pos isOld]

/-- What an identifier refers to is found by the moves of its bindings. -/
theorem identifierSymbols_eq (table : SymbolTable) (budget : Nat) {node : Node}
    {file : SourceFile} {scopes : ScopeTable}
    (isKnown : table.file? node.file.id = some (file, scopes)) :
    table.identifierSymbols budget node = (table.performAll (budget + 1) false
      ((scopes.visible node node.text).filterMap (table.bindingMove? node.file)) []).1 := by
  have step : table.identifierSymbols budget node =
      match table.file? node.file.id with
      | none => []
      | some (_, scopes) => ((table.lookups .plain budget).followBindings node.file
          (scopes.visible node node.text) []).1 := by
    cases budget <;> rfl
  rw [step, isKnown]
  simp only [followBindings_eq_performAll]

/-- A name that is only imported refers to what the other file exports. -/
theorem identifierSymbols_of_imported (table : SymbolTable) (budget : Nat) {node : Node}
    {file : SourceFile} {scopes : ScopeTable} {key : NodeKey} {specifier name : String}
    {target : FileId} (isKnown : table.file? node.file.id = some (file, scopes))
    (isBound : scopes.visible node node.text = [⟨key, .elsewhere specifier (.item name)⟩])
    (isTarget : table.target? node.file specifier = some target) :
    table.identifierSymbols budget node = table.exportedSymbols (budget - 1) target name := by
  rw [identifierSymbols_eq table budget isKnown, isBound]
  simp [bindingMove?, isTarget, performAll_singleton, perform, exportedSymbols]

theorem declarationsWithin_identifier (table : SymbolTable) {node : Node}
    (isKind : node.kindName = "identifier") (limit : Nat) :
    table.declarationsWithin limit node =
      (table.identifierSymbols (limit + 1) node).filterMap Symbol.declaration? := by
  rw [declarationsWithin, Lookups.symbols, isKind]
  rfl

theorem declarationsWithin_access (table : SymbolTable) {node : Node}
    (isKind : node.kindName = "member_expression") (limit : Nat) :
    table.declarationsWithin limit node =
      (table.memberSymbols (limit + 1) node).filterMap Symbol.declaration? := by
  rw [declarationsWithin, Lookups.symbols, isKind]
  rfl

section

variable (table : SymbolTable)

/--
Whether a part of a search came to a request at a cost: from one of its starts,
through distinct requests that it was the first to enter.
-/
def Reached (starts : Nat → Request → Prop) (visited entered : Visited) (cost : Nat)
    (request : Request) : Prop :=
  ∃ initial start rest further, starts initial start ∧
    table.Chain request (start :: rest) further ∧ (start :: rest).Nodup ∧
    (∀ passed ∈ start :: rest, passed ∈ entered ∧ passed ∉ visited) ∧ cost = initial + further

/-- A single start. -/
def StartsAt (cost : Nat) (start : Request) : Nat → Request → Prop := fun initial request =>
  initial = cost ∧ request = start

/--
What a part of a search does that makes some requests, its starts, each at a
cost, and finds some symbols directly.
-/
structure Explored (budget : Nat) (starts : Nat → Request → Prop) (direct : Symbol → Prop)
    (visited : Visited) (outcome : List Symbol × Visited) : Prop where
  /-- Entered requests stay entered. -/
  grown : visited <:+ outcome.2
  /-- No request is entered twice. -/
  distinct : visited.Nodup → outcome.2.Nodup
  /-- What is found is found directly or can be reached. -/
  sound : ∀ symbol ∈ outcome.1, direct symbol ∨ ∃ cost start request, starts cost start ∧
    table.Leads start request ∧ table.DirectSymbol request symbol
  /-- What is entered was come to within the budget, and left only after all steps within it. -/
  entered : ∀ request ∈ outcome.2, request ∉ visited →
    ∃ cost < budget, table.Reached starts visited outcome.2 cost request ∧ (outcome.1 = [] →
      (∀ symbol, ¬table.DirectSymbol request symbol) ∧
      ∀ further next, table.ExportStep request further next → cost + further < budget →
        next ∈ outcome.2)
  /-- If nothing is found, then there was nothing to be found and all starts are entered. -/
  exhausted : outcome.1 = [] → (∀ symbol, ¬direct symbol) ∧
    ∀ cost start, starts cost start → cost < budget → start ∈ outcome.2

end

variable {table : SymbolTable} {budget : Nat} {visited : Visited}

theorem Reached.mono {starts more : Nat → Request → Prop} {before after entered later : Visited}
    {cost : Nat} {request : Request} (reached : table.Reached starts after entered cost request)
    (startsMore : ∀ cost start, starts cost start → more cost start) (earlier : before ⊆ after)
    (grown : entered ⊆ later) : table.Reached more before later cost request := by
  rcases reached with ⟨initial, start, rest, further, isStart, chain, distinct, passed, isCost⟩
  refine ⟨initial, start, rest, further, startsMore _ _ isStart, chain, distinct, ?_, isCost⟩
  intro other otherMem
  rcases passed other otherMem with ⟨isEntered, isNew⟩
  exact ⟨grown isEntered, fun old => isNew (earlier old)⟩

namespace Explored

variable {starts others : Nat → Request → Prop} {direct otherDirect : Symbol → Prop}

theorem nothing (noStarts : ∀ cost start, starts cost start → cost < budget → start ∈ visited)
    (noDirect : ∀ symbol, ¬direct symbol) :
    table.Explored budget starts direct visited ([], visited) where
  grown := List.suffix_rfl
  distinct := id
  sound := by simp
  entered := fun request isEntered isNew => absurd isEntered isNew
  exhausted := fun _ => ⟨noDirect, noStarts⟩

theorem found {symbols : List Symbol} (noStarts : ∀ cost start, ¬starts cost start)
    (isDirect : ∀ symbol, symbol ∈ symbols ↔ direct symbol) :
    table.Explored budget starts direct visited (symbols, visited) where
  grown := List.suffix_rfl
  distinct := id
  sound := fun symbol symbolMem => Or.inl ((isDirect symbol).1 symbolMem)
  entered := fun request isEntered isNew => absurd isEntered isNew
  exhausted := by
    rintro rfl
    refine ⟨fun symbol isSymbol => ?_, fun cost start isStart => absurd isStart (noStarts _ _)⟩
    simpa using (isDirect symbol).2 isSymbol

theorem congr {outcome : List Symbol × Visited}
    (explored : table.Explored budget starts direct visited outcome)
    (sameStarts : ∀ cost start, starts cost start ↔ others cost start)
    (sameDirect : ∀ symbol, direct symbol ↔ otherDirect symbol) :
    table.Explored budget others otherDirect visited outcome := by
  have starts_eq : starts = others := funext₂ fun cost start => propext (sameStarts cost start)
  have direct_eq : direct = otherDirect := funext fun symbol => propext (sameDirect symbol)
  rwa [← starts_eq, ← direct_eq]

/-- A part of a search that finds something can stop, whatever else there would be to do. -/
theorem stop {outcome : List Symbol × Visited}
    (explored : table.Explored budget starts direct visited outcome) (some : outcome.1 ≠ [])
    (startsMore : ∀ cost start, starts cost start → others cost start)
    (directMore : ∀ symbol, direct symbol → otherDirect symbol) :
    table.Explored budget others otherDirect visited outcome where
  grown := explored.grown
  distinct := explored.distinct
  sound := by
    intro symbol symbolMem
    rcases explored.sound symbol symbolMem with isDirect | ⟨cost, start, request, isStart, rest⟩
    · exact Or.inl (directMore symbol isDirect)
    · exact Or.inr ⟨cost, start, request, startsMore cost start isStart, rest⟩
  entered := by
    intro request isEntered isNew
    rcases explored.entered request isEntered isNew with ⟨cost, inBudget, reached, -⟩
    exact ⟨cost, inBudget, reached.mono startsMore (List.Subset.refl _) (List.Subset.refl _),
      fun none => absurd none some⟩
  exhausted := fun none => absurd none some

/-- Two parts of a search, one after the other. -/
theorem append {first second : List Symbol × Visited}
    (left : table.Explored budget starts direct visited first)
    (right : table.Explored budget others otherDirect first.2 second) :
    table.Explored budget (fun cost start => starts cost start ∨ others cost start)
      (fun symbol => direct symbol ∨ otherDirect symbol) visited
      (first.1 ++ second.1, second.2) where
  grown := left.grown.trans right.grown
  distinct := fun distinct => right.distinct (left.distinct distinct)
  sound := by
    intro symbol symbolMem
    rcases List.mem_append.1 symbolMem with symbolMem | symbolMem
    · rcases left.sound symbol symbolMem with isDirect | ⟨cost, start, request, isStart, rest⟩
      · exact Or.inl (Or.inl isDirect)
      · exact Or.inr ⟨cost, start, request, Or.inl isStart, rest⟩
    · rcases right.sound symbol symbolMem with isDirect | ⟨cost, start, request, isStart, rest⟩
      · exact Or.inl (Or.inr isDirect)
      · exact Or.inr ⟨cost, start, request, Or.inr isStart, rest⟩
  entered := by
    intro request isEntered isNew
    by_cases early : request ∈ first.2
    · rcases left.entered request early isNew with ⟨cost, inBudget, reached, done⟩
      refine ⟨cost, inBudget,
        reached.mono (fun _ _ => Or.inl) (List.Subset.refl _) right.grown.subset, ?_⟩
      intro none
      rcases done (List.append_eq_nil_iff.1 none).1 with ⟨noDirect, steps⟩
      exact ⟨noDirect, fun further next step room =>
        right.grown.subset (steps further next step room)⟩
    · rcases right.entered request isEntered early with ⟨cost, inBudget, reached, done⟩
      exact ⟨cost, inBudget,
        reached.mono (fun _ _ => Or.inr) left.grown.subset (List.Subset.refl _),
        fun none => done (List.append_eq_nil_iff.1 none).2⟩
  exhausted := by
    intro none
    rcases List.append_eq_nil_iff.1 none with ⟨firstNone, secondNone⟩
    rcases left.exhausted firstNone with ⟨noDirect, startsEntered⟩
    rcases right.exhausted secondNone with ⟨noOther, othersEntered⟩
    constructor
    · rintro symbol (isDirect | isOther)
      · exact noDirect symbol isDirect
      · exact noOther symbol isOther
    · rintro cost start (isStart | isOther) room
      · exact right.grown.subset (startsEntered cost start isStart room)
      · exact othersEntered cost start isOther room

/-- A search that starts later has less left of the budget. -/
theorem later {start : Request} {outcome : List Symbol × Visited} (cost : Nat)
    (explored : table.Explored (budget - cost) (StartsAt 0 start) direct visited outcome) :
    table.Explored budget (StartsAt cost start) direct visited outcome where
  grown := explored.grown
  distinct := explored.distinct
  sound := by
    intro symbol symbolMem
    rcases explored.sound symbol symbolMem with isDirect | ⟨_, _, request, ⟨rfl, rfl⟩, rest⟩
    · exact Or.inl isDirect
    · exact Or.inr ⟨cost, _, request, ⟨rfl, rfl⟩, rest⟩
  entered := by
    intro request isEntered isNew
    rcases explored.entered request isEntered isNew with
      ⟨_, inBudget, ⟨_, _, rest, further, ⟨rfl, rfl⟩, chain, distinct, passed, rfl⟩, done⟩
    refine ⟨cost + further, by omega,
      ⟨cost, _, rest, further, ⟨rfl, rfl⟩, chain, distinct, passed, rfl⟩, ?_⟩
    intro none
    rcases done none with ⟨noDirect, steps⟩
    exact ⟨noDirect, fun more next step room => steps more next step (by omega)⟩
  exhausted := by
    intro none
    rcases explored.exhausted none with ⟨noDirect, startEntered⟩
    refine ⟨noDirect, ?_⟩
    rintro _ _ ⟨rfl, rfl⟩ room
    exact startEntered 0 _ ⟨rfl, rfl⟩ (by omega)

/-- To enter a request and make the requests that it comes down to is to make the request. -/
theorem enter {request : Request} {outcome : List Symbol × Visited} (positive : 0 < budget)
    (isNew : request ∉ visited)
    (inside : table.Explored budget (table.ExportStep request) (table.DirectSymbol request)
      (request :: visited) outcome) :
    table.Explored budget (StartsAt 0 request) (fun _ => False) visited outcome where
  grown := (List.suffix_cons request visited).trans inside.grown
  distinct := fun distinct => inside.distinct (List.nodup_cons.2 ⟨isNew, distinct⟩)
  sound := by
    intro symbol symbolMem
    rcases inside.sound symbol symbolMem with isDirect | ⟨cost, start, other, step, leads, isDirect⟩
    · exact Or.inr ⟨0, request, request, ⟨rfl, rfl⟩, .refl, isDirect⟩
    · exact Or.inr ⟨0, request, other, ⟨rfl, rfl⟩, .trans step.leads leads, isDirect⟩
  entered := by
    have requestEntered : request ∈ outcome.2 := inside.grown.subset List.mem_cons_self
    intro other otherEntered otherNew
    by_cases same : other = request
    · subst same
      refine ⟨0, positive,
        ⟨0, other, [], 0, ⟨rfl, rfl⟩, .last, List.nodup_singleton other, ?_, rfl⟩, ?_⟩
      · intro passed passedMem
        rw [List.mem_singleton.1 passedMem]
        exact ⟨requestEntered, isNew⟩
      · intro none
        rcases inside.exhausted none with ⟨noDirect, stepsEntered⟩
        exact ⟨noDirect, fun further next step room =>
          stepsEntered further next step (by omega)⟩
    · rcases inside.entered other otherEntered (by simp [same, otherNew]) with
        ⟨_, inBudget, ⟨cost, next, rest, further, step, chain, distinct, passed, rfl⟩, done⟩
      have avoids : request ∉ next :: rest := fun passedMem =>
        (passed request passedMem).2 List.mem_cons_self
      refine ⟨cost + further, inBudget, ⟨0, request, next :: rest, cost + further, ⟨rfl, rfl⟩,
        .step step chain, List.nodup_cons.2 ⟨avoids, distinct⟩, ?_, (Nat.zero_add _).symm⟩, done⟩
      intro onWay onWayMem
      rcases List.mem_cons.1 onWayMem with rfl | onWayMem
      · exact ⟨requestEntered, isNew⟩
      · rcases passed onWay onWayMem with ⟨isEntered, isFresh⟩
        exact ⟨isEntered, fun old => isFresh (List.mem_cons_of_mem _ old)⟩
  exhausted := by
    intro none
    refine ⟨fun _ => id, ?_⟩
    rintro _ _ ⟨-, rfl⟩ -
    exact inside.grown.subset List.mem_cons_self

/-- A move does what it is for, if the search does that it may start. -/
theorem perform {move : Move}
    (searches : ∀ cost id name visited, move = .ask cost (id, name) →
      table.Explored (budget - cost) (StartsAt 0 (id, name)) (fun _ => False) visited
        (table.followExport (budget - cost) id name visited)) (visited : Visited) :
    table.Explored budget (fun cost start => move = .ask cost start)
      (fun symbol => move = .found symbol) visited (table.perform budget move visited) := by
  cases move with
  | found symbol =>
      refine .found (by simp) fun other => ?_
      rw [List.mem_singleton, Move.found.injEq, eq_comm]
  | ask cost next =>
      refine ((searches cost next.1 next.2 visited rfl).later cost).congr ?_ (by simp)
      intro other start
      simp only [StartsAt, Move.ask.injEq]
      grind

theorem performAll {stops : Bool} {moves : List Move}
    (searches : ∀ cost id name visited, .ask cost (id, name) ∈ moves →
      table.Explored (budget - cost) (StartsAt 0 (id, name)) (fun _ => False) visited
        (table.followExport (budget - cost) id name visited)) (visited : Visited) :
    table.Explored budget (fun cost start => .ask cost start ∈ moves)
      (fun symbol => .found symbol ∈ moves) visited
      (table.performAll budget stops moves visited) := by
  induction moves generalizing visited with
  | nil => exact nothing (by simp) (by simp)
  | cons move rest ih =>
      have first := perform (fun cost id name visited isMove => searches cost id name visited
        (isMove ▸ List.mem_cons_self)) visited
      have others := ih (fun cost id name visited moveMem => searches cost id name visited
        (List.mem_cons_of_mem _ moveMem)) (table.perform budget move visited).2
      rw [SymbolTable.performAll, inTurn]
      split
      next some =>
        refine first.stop (by simp_all) ?_ ?_
        · exact fun cost start isMove => isMove ▸ List.mem_cons_self
        · exact fun symbol isMove => isMove ▸ List.mem_cons_self
      · refine (first.append others).congr ?_ ?_
        · simp [eq_comm]
        · simp [eq_comm]

end Explored

/-- What following an exported name does, for every budget and whatever was entered before. -/
theorem explored_followExport (table : SymbolTable) (budget : Nat) (id : FileId) (name : String)
    (visited : Visited) :
    table.Explored budget (StartsAt 0 (id, name)) (fun _ => False) visited
      (table.followExport budget id name visited) := by
  induction budget using Nat.strong_induction_on generalizing id name visited with
  | h budget ih =>
      cases budget with
      | zero =>
          exact .nothing (fun cost start _ room => absurd room (Nat.not_lt_zero cost))
            fun _ => False.elim
      | succ budget =>
          rw [followExport_succ]
          split
          next isOld =>
            refine .nothing ?_ fun _ => False.elim
            rintro _ _ ⟨rfl, rfl⟩ -
            exact isOld
          next isNew =>
            refine .enter (Nat.succ_pos budget) isNew ((Explored.performAll ?_ _).congr ?_ ?_)
            · intro cost other another visited moveMem
              have positive := (ask_mem_moves.1 moveMem).cost_pos
              exact ih (budget + 1 - cost) (by omega) other another visited
            · exact fun _ _ => ask_mem_moves
            · exact fun _ => found_mem_moves

theorem explored_performAll (table : SymbolTable) (budget : Nat) (stops : Bool) (moves : List Move)
    (visited : Visited) :
    table.Explored budget (fun cost start => .ask cost start ∈ moves)
      (fun symbol => .found symbol ∈ moves) visited
      (table.performAll budget stops moves visited) :=
  .performAll (fun cost id name visited _ =>
    table.explored_followExport (budget - cost) id name visited) visited

/-- A search that finds nothing has entered all that could be reached within its budget. -/
theorem followExport_eq_nil {start : Request}
    (nothing : (table.followExport budget start.1 start.2 []).1 = []) :
    (0 < budget → start ∈ (table.followExport budget start.1 start.2 []).2) ∧
    ∀ request ∈ (table.followExport budget start.1 start.2 []).2,
      (∀ symbol, ¬table.DirectSymbol request symbol) ∧
      ∃ rest cost, table.Chain request (start :: rest) cost ∧ (start :: rest).Nodup ∧
        (∀ passed ∈ start :: rest, passed ∈ (table.followExport budget start.1 start.2 []).2) ∧
        ∀ further next, table.ExportStep request further next → cost + further < budget →
          next ∈ (table.followExport budget start.1 start.2 []).2 := by
  have explored := table.explored_followExport budget start.1 start.2 []
  constructor
  · exact (explored.exhausted nothing).2 0 start ⟨rfl, rfl⟩
  · intro request isEntered
    rcases explored.entered request isEntered (by simp) with
      ⟨_, -, ⟨_, _, rest, cost, ⟨rfl, rfl⟩, chain, distinct, passed, rfl⟩, done⟩
    rcases done nothing with ⟨noDirect, steps⟩
    rw [Nat.zero_add] at steps
    exact ⟨noDirect, rest, cost, chain, distinct, fun other otherMem => (passed other otherMem).1,
      steps⟩

theorem leads_of_mem_followExport {start request : Request}
    (isEntered : request ∈ (table.followExport budget start.1 start.2 []).2) :
    table.Leads start request := by
  have explored := table.explored_followExport budget start.1 start.2 []
  rcases explored.entered request isEntered (by simp) with
    ⟨_, -, ⟨_, _, rest, cost, ⟨-, rfl⟩, chain, -, -, -⟩, -⟩
  exact chain.leads_of_mem chain.last_mem

theorem directSymbol_of_mem_exportedSymbols {id : FileId} {name : String} {symbol : Symbol}
    (symbolMem : symbol ∈ table.exportedSymbols budget id name) :
    ∃ request, table.Leads (id, name) request ∧ table.DirectSymbol request symbol := by
  have explored := table.explored_followExport budget id name []
  rcases explored.sound symbol symbolMem with impossible | ⟨_, _, request, ⟨-, rfl⟩, found⟩
  · exact impossible.elim
  · exact ⟨request, found⟩

theorem length_le_of_encard_le {α : Type} [DecidableEq α] {items : List α} {all : Set α}
    {bound : Nat} (distinct : items.Nodup) (inside : ∀ item ∈ items, item ∈ all)
    (few : all.encard ≤ bound) :
    items.length ≤ bound := by
  have subset : (items.toFinset : Set α) ⊆ all := fun item itemMem =>
    inside item (by simpa using itemMem)
  have bounded := (Set.encard_le_encard subset).trans few
  rwa [Set.encard_coe_eq_coe_finsetCard, List.toFinset_card_of_nodup distinct,
    Nat.cast_le] at bounded

/-- If few requests can be reached, then a search that finds nothing has entered them all. -/
theorem mem_followExport_of_leads {start request : Request} {bound : Nat}
    (few : {request | table.Leads start request}.encard ≤ bound) (roomy : 2 * bound ≤ budget)
    (positive : 0 < budget) (nothing : (table.followExport budget start.1 start.2 []).1 = [])
    (leads : table.Leads start request) :
    request ∈ (table.followExport budget start.1 start.2 []).2 := by
  rcases followExport_eq_nil nothing with ⟨startEntered, entered⟩
  induction leads with
  | refl => exact startEntered positive
  | @tail request next before step ih =>
      rcases step with ⟨further, step⟩
      rcases (entered request ih).2 with ⟨rest, cost, chain, distinct, passed, steps⟩
      by_cases onWay : next ∈ start :: rest
      · exact passed next onWay
      · have longer : (next :: start :: rest).length ≤ bound := by
          refine length_le_of_encard_le (List.nodup_cons.2 ⟨onWay, distinct⟩) ?_ few
          intro other otherMem
          rcases List.mem_cons.1 otherMem with rfl | otherMem
          · exact before.tail ⟨further, step⟩
          · exact chain.leads_of_mem otherMem
        have cheap := chain.cost_le
        have cheapStep := step.cost_le
        rw [List.length_cons] at longer
        exact steps further next step (by omega)

/--
Following an exported name finds something just if there is something to be
found, if no more than 16 requests can be reached. What it finds is there, and it
enters no request twice and none that cannot be reached.
-/
theorem exportedSymbols_complete (table : SymbolTable) (id : FileId) (name : String) {depth : Nat}
    (shallow : depth ≤ 1) (few : {request | table.Leads (id, name) request}.encard ≤ 16) :
    (table.exportedSymbols (defaultLimit + 1 - depth) id name ≠ [] ↔
      ∃ request symbol, table.Leads (id, name) request ∧ table.DirectSymbol request symbol) ∧
    (∀ symbol ∈ table.exportedSymbols (defaultLimit + 1 - depth) id name,
      ∃ request, table.Leads (id, name) request ∧ table.DirectSymbol request symbol) ∧
    (table.followExport (defaultLimit + 1 - depth) id name []).2.Nodup ∧
    ∀ request ∈ (table.followExport (defaultLimit + 1 - depth) id name []).2,
      table.Leads (id, name) request := by
  refine ⟨⟨?_, ?_⟩, fun symbol symbolMem => directSymbol_of_mem_exportedSymbols symbolMem, ?_,
    fun request isEntered => leads_of_mem_followExport isEntered⟩
  · intro some
    rcases List.exists_mem_of_ne_nil _ some with ⟨symbol, symbolMem⟩
    rcases directSymbol_of_mem_exportedSymbols symbolMem with ⟨request, leads, direct⟩
    exact ⟨request, symbol, leads, direct⟩
  · rintro ⟨request, symbol, leads, direct⟩ nothing
    replace nothing : (table.followExport (defaultLimit + 1 - depth) (id, name).1 (id, name).2
      []).1 = [] := nothing
    have roomy : 2 * 16 ≤ defaultLimit + 1 - depth := by
      simp only [defaultLimit]
      omega
    have isEntered := mem_followExport_of_leads few roomy (by omega) nothing leads
    exact ((followExport_eq_nil nothing).2 request isEntered).1 symbol direct
  · exact (table.explored_followExport _ id name []).distinct List.nodup_nil

theorem encard_leads_le (requests : List Request) {start : Request} {bound : Nat}
    (startMem : start ∈ requests)
    (closed : ∀ request ∈ requests, ∀ step ∈ table.exportSteps request, step.2 ∈ requests)
    (few : requests.length ≤ bound) :
    {request | table.Leads start request}.encard ≤ bound := by
  have subset : {request | table.Leads start request} ⊆ (requests.toFinset : Set Request) := by
    intro request leads
    rw [Finset.mem_coe, List.mem_toFinset]
    induction leads with
    | refl => exact startMem
    | tail _ step ih =>
        rcases step with ⟨cost, step⟩
        exact closed _ ih _ (mem_exportSteps.2 step)
  have bounded := Set.encard_le_encard subset
  rw [Set.encard_coe_eq_coe_finsetCard] at bounded
  exact bounded.trans (Nat.cast_le.2 (requests.toFinset_card_le.trans few))

/-- The tree of the statement `export * from "./b";`, for any specifier. -/
def starTree (start : Nat) (specifier : String) : SyntaxTree :=
  .node ⟨⟨"export_statement", true⟩, start, start + specifier.length + 17, none⟩
    [.node ⟨⟨"string", true⟩, start + 14, start + specifier.length + 16, some "source"⟩ []]

/-- Such statements one after the other. -/
def starTrees : Nat → List String → List SyntaxTree
  | _, [] => []
  | start, specifier :: rest =>
    starTree start specifier :: starTrees (start + specifier.length + 17) rest

/-- A file that offers all exports of some other files and nothing else. -/
def starFile (id : FileId) (path : String) (specifiers : List String) : SourceFile :=
  let text := String.join (specifiers.map fun specifier =>
    "export * from \"" ++ specifier ++ "\";")
  ⟨id, ⟨path⟩, text, .node ⟨⟨"program", true⟩, 0, text.length, none⟩ (starTrees 0 specifiers)⟩

/-- A file that exports a function `x`. -/
def functionFile (id : FileId) (path : String) : SourceFile :=
  ⟨id, ⟨path⟩, "export function x() {}",
    .node ⟨⟨"program", true⟩, 0, 22, none⟩
      [.node ⟨⟨"export_statement", true⟩, 0, 22, none⟩
        [.node ⟨⟨"function_declaration", true⟩, 7, 22, some "declaration"⟩
          [.node ⟨⟨"identifier", true⟩, 16, 17, some "name"⟩ []]]]⟩

/-- Three files, of which the first two offer all exports of each other. -/
def circle : SymbolTable :=
  .ofFiles ⟨"/"⟩ .empty
    [starFile 0 "/a.ts" ["./b", "./c"], starFile 1 "/b.ts" ["./a"], functionFile 2 "/c.ts"]

theorem encard_leads_circle : {request | circle.Leads (0, "x") request}.encard ≤ 16 :=
  encard_leads_le [(0, "x"), (1, "x"), (2, "x")] (by decide) (by decide +kernel) (by decide)

theorem exportedSymbols_complete_circle :
    {request | circle.Leads (0, "x") request}.encard ≤ 16 ∧
    circle.exportedSymbols (defaultLimit + 1 - 1) 0 "x" =
      [.declaration ⟨2, 7, 22, ⟨"function_declaration", true⟩⟩] ∧
    ∃ request symbol, circle.Leads (0, "x") request ∧ circle.DirectSymbol request symbol := by
  have found : circle.exportedSymbols (defaultLimit + 1 - 1) 0 "x" =
      [.declaration ⟨2, 7, 22, ⟨"function_declaration", true⟩⟩] := by decide +kernel
  have complete := exportedSymbols_complete circle 0 "x" (Nat.le_refl 1) encard_leads_circle
  exact ⟨encard_leads_circle, found, complete.1.1 (found ▸ List.cons_ne_nil _ _)⟩

end SymbolTable
end CallHierarchy
