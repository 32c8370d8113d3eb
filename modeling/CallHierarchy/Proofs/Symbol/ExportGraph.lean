import CallHierarchy.Symbol.Export
import Mathlib.Logic.Relation

/-!
# The graph of exported names

A *request* asks a file for a name. What the file offers under the name is found
on the spot or has to be asked of another file, so requests are the nodes of a
graph: each has the symbols that its file gives for it directly, and steps to the
requests that have to be made next. Imports and exports may lead in circles, and
so may the steps.

The steps have a cost. A name that is passed on to another file costs one step
of a search, and a top-level name that is itself imported costs two: one to look
it up and one to go on in the file that it is imported from.

Nothing here mentions how a search goes about it, but the order in which it does: the
*moves* of a request are its direct symbols and its steps, in the order of the
statements that they go back to.
-/

namespace CallHierarchy

/-- A file and a name that is asked of it. -/
abbrev Request := FileId × String

namespace SymbolTable

section

variable (table : SymbolTable) (file : SourceFile) (scopes : ScopeTable)

/-- What a binding of a file stands for without asking another file for a name. -/
inductive BindingSymbol : Binding → Symbol → Prop
  | here {key : NodeKey} : BindingSymbol ⟨key, .here⟩ (.declaration key)
  | wholeFile {key : NodeKey} {specifier : String} {target : FileId}
      (leads : table.target? file specifier = some target) :
      BindingSymbol ⟨key, .elsewhere specifier .everything⟩ (.exportsOf target)

/-- The request that an imported name comes down to. -/
inductive BindingStep : Binding → Request → Prop
  | imported {key : NodeKey} {specifier name : String} {target : FileId}
      (leads : table.target? file specifier = some target) :
      BindingStep ⟨key, .elsewhere specifier (.item name)⟩ (target, name)

/-- What an export of a file stands for without asking another file for a name. -/
inductive OfferSymbol : Export → Symbol → Prop
  | declaration {key : NodeKey} : OfferSymbol (.declaration key) (.declaration key)
  | wholeFile {specifier : String} {target : FileId}
      (leads : table.target? file specifier = some target) :
      OfferSymbol (.everything specifier) (.exportsOf target)
  | topLevel {name : String} {binding : Binding} {symbol : Symbol}
      (bound : binding ∈ scopes.topBindings name)
      (direct : BindingSymbol table file binding symbol) : OfferSymbol (.topLevel name) symbol

/-- The requests that an export of a file comes down to, with their costs. -/
inductive OfferStep : Export → Nat → Request → Prop
  | forwarded {specifier name : String} {target : FileId}
      (leads : table.target? file specifier = some target) :
      OfferStep (.forwarded specifier name) 1 (target, name)
  | topLevel {name : String} {binding : Binding} {next : Request}
      (bound : binding ∈ scopes.topBindings name)
      (step : BindingStep table file binding next) : OfferStep (.topLevel name) 2 next

end

/-- The symbols that a file gives for a name directly. -/
inductive DirectSymbol (table : SymbolTable) : Request → Symbol → Prop
  | offered {id : FileId} {name : String} {file : SourceFile} {scopes : ScopeTable}
      {offer : Export} {symbol : Symbol} (known : table.file? id = some (file, scopes))
      (offerMem : offer ∈ scopes.offers name)
      (direct : OfferSymbol table file scopes offer symbol) : DirectSymbol table (id, name) symbol

/--
The requests that a request comes down to, with their costs: those of the
exports of the name or, if the file exports no such name, those to the files
whose exports it offers as a whole.
-/
inductive ExportStep (table : SymbolTable) : Request → Nat → Request → Prop
  | offered {id : FileId} {name : String} {file : SourceFile} {scopes : ScopeTable}
      {offer : Export} {cost : Nat} {next : Request}
      (known : table.file? id = some (file, scopes)) (offerMem : offer ∈ scopes.offers name)
      (step : OfferStep table file scopes offer cost next) : ExportStep table (id, name) cost next
  | passedOn {id : FileId} {name specifier : String} {file : SourceFile} {scopes : ScopeTable}
      {target : FileId} (known : table.file? id = some (file, scopes))
      (notOffered : scopes.offers name = []) (notDefault : name ≠ "default")
      (specifierMem : specifier ∈ scopes.stars)
      (leads : table.target? file specifier = some target) :
      ExportStep table (id, name) 1 (target, name)

/-- Whether a request comes down to another one in any number of steps. -/
def Leads (table : SymbolTable) : Request → Request → Prop :=
  Relation.ReflTransGen fun request next => ∃ cost, table.ExportStep request cost next

/-- Requests that lead, each by a step to the next, to a last one, and what the steps cost. -/
inductive Chain (table : SymbolTable) (last : Request) : List Request → Nat → Prop
  | last : Chain table last [last] 0
  | step {request next : Request} {rest : List Request} {cost further : Nat}
      (first : table.ExportStep request cost next)
      (others : Chain table last (next :: rest) further) :
      Chain table last (request :: next :: rest) (cost + further)

variable {table : SymbolTable}

section

variable {id : FileId} {name : String} {file : SourceFile} {scopes : ScopeTable}
  (known : table.file? id = some (file, scopes))

include known

theorem directSymbol_iff {symbol : Symbol} :
    table.DirectSymbol (id, name) symbol ↔
      ∃ offer ∈ scopes.offers name, table.OfferSymbol file scopes offer symbol := by
  constructor
  · rintro ⟨other, offerMem, direct⟩
    rw [known] at other
    cases other
    exact ⟨_, offerMem, direct⟩
  · rintro ⟨offer, offerMem, direct⟩
    exact .offered known offerMem direct

theorem exportStep_iff {cost : Nat} {next : Request} :
    table.ExportStep (id, name) cost next ↔
      (∃ offer ∈ scopes.offers name, table.OfferStep file scopes offer cost next) ∨
      scopes.offers name = [] ∧ name ≠ "default" ∧ ∃ specifier ∈ scopes.stars, ∃ target,
        table.target? file specifier = some target ∧ cost = 1 ∧ next = (target, name) := by
  constructor
  · intro step
    cases step with
    | offered other offerMem step =>
        rw [known] at other
        cases other
        exact Or.inl ⟨_, offerMem, step⟩
    | passedOn other notOffered notDefault specifierMem leads =>
        rw [known] at other
        cases other
        exact Or.inr ⟨notOffered, notDefault, _, specifierMem, _, leads, rfl, rfl⟩
  · rintro (⟨offer, offerMem, step⟩ | ⟨notOffered, notDefault, specifier, specifierMem, target,
      leads, rfl, rfl⟩)
    · exact .offered known offerMem step
    · exact .passedOn known notOffered notDefault specifierMem leads

end

section

variable {id : FileId} {name : String} (unknown : table.file? id = none)

include unknown

theorem not_directSymbol (symbol : Symbol) : ¬table.DirectSymbol (id, name) symbol := by
  rintro ⟨known, -, -⟩
  simp [unknown] at known

theorem not_exportStep (cost : Nat) (next : Request) :
    ¬table.ExportStep (id, name) cost next := by
  rintro (⟨known, -, -⟩ | ⟨known, -, -, -, -⟩) <;> simp [unknown] at known

end

/-- What a search does next at a request. -/
inductive Move
  /-- It finds a symbol on the spot. -/
  | found (symbol : Symbol)
  /-- It asks another file, at a cost. -/
  | ask (cost : Nat) (next : Request)
  deriving DecidableEq

/-- The cost and the request of a move that asks another file. -/
def Move.step? : Move → Option (Nat × Request)
  | .found _ => none
  | .ask cost next => some (cost, next)

section

variable (table : SymbolTable) (file : SourceFile) (scopes : ScopeTable)

/-- What a search does at a binding of a file. -/
def bindingMove? (binding : Binding) : Option Move :=
  match binding.origin with
  | .here => some (.found (.declaration binding.declaration))
  | .elsewhere specifier .everything =>
    (table.target? file specifier).map fun target => .found (.exportsOf target)
  | .elsewhere specifier (.item name) =>
    (table.target? file specifier).map fun target => .ask 2 (target, name)

/-- What a search does at a name that a file forwards. -/
def forwardedMove? (name specifier : String) : Option Move :=
  (table.target? file specifier).map fun target => .ask 1 (target, name)

/-- What a search does at an export of a file. -/
def offerMoves : Export → List Move
  | .topLevel name => (scopes.topBindings name).filterMap (table.bindingMove? file)
  | .declaration key => [.found (.declaration key)]
  | .forwarded specifier name => (table.forwardedMove? file name specifier).toList
  | .everything specifier =>
    ((table.target? file specifier).map fun target => .found (.exportsOf target)).toList

/-- What a search does at a name in a file of the given scopes. -/
def nameMoves (name : String) : List Move :=
  match scopes.offers name with
  | [] => if name = "default" then [] else scopes.stars.filterMap (table.forwardedMove? file name)
  | offers => offers.flatMap (table.offerMoves file scopes)

end

/-- What a search does at a request. -/
def moves (table : SymbolTable) (request : Request) : List Move :=
  match table.file? request.1 with
  | none => []
  | some (file, scopes) => table.nameMoves file scopes request.2

/-- The requests that a request comes down to, with their costs, as a list. -/
def exportSteps (table : SymbolTable) (request : Request) : List (Nat × Request) :=
  (table.moves request).filterMap Move.step?

section

variable {file : SourceFile} {scopes : ScopeTable}

theorem bindingMove?_eq_found {binding : Binding} {symbol : Symbol} :
    table.bindingMove? file binding = some (.found symbol) ↔
      table.BindingSymbol file binding symbol := by
  rcases binding with ⟨key, _ | ⟨specifier, name | _⟩⟩
  all_goals
    simp only [bindingMove?, Option.some.injEq, Option.map_eq_some_iff, Move.found.injEq,
      reduceCtorEq, and_false, exists_false]
    constructor
  · rintro rfl
    exact .here
  · rintro ⟨⟩
    rfl
  · exact False.elim
  · rintro ⟨⟩
  · rintro ⟨target, leads, rfl⟩
    exact .wholeFile leads
  · rintro (_ | leads)
    exact ⟨_, leads, rfl⟩

theorem bindingMove?_eq_ask {binding : Binding} {cost : Nat} {next : Request} :
    table.bindingMove? file binding = some (.ask cost next) ↔
      cost = 2 ∧ table.BindingStep file binding next := by
  rcases binding with ⟨key, _ | ⟨specifier, name | _⟩⟩
  all_goals
    simp only [bindingMove?, Option.some.injEq, Option.map_eq_some_iff, Move.ask.injEq,
      reduceCtorEq, and_false, exists_false]
    constructor
  · exact False.elim
  · rintro ⟨-, ⟨⟩⟩
  · rintro ⟨target, leads, rfl, rfl⟩
    exact ⟨rfl, .imported leads⟩
  · rintro ⟨rfl, ⟨leads⟩⟩
    exact ⟨_, leads, rfl, rfl⟩
  · exact False.elim
  · rintro ⟨-, ⟨⟩⟩

theorem found_mem_offerMoves {offer : Export} {symbol : Symbol} :
    .found symbol ∈ table.offerMoves file scopes offer ↔
      table.OfferSymbol file scopes offer symbol := by
  cases offer with
  | topLevel name =>
      simp only [offerMoves, List.mem_filterMap, bindingMove?_eq_found]
      constructor
      · rintro ⟨binding, bound, direct⟩
        exact .topLevel bound direct
      · rintro (_ | _ | ⟨bound, direct⟩)
        exact ⟨_, bound, direct⟩
  | declaration key =>
      simp only [offerMoves, List.mem_singleton, Move.found.injEq]
      constructor
      · rintro rfl
        exact .declaration
      · rintro ⟨⟩
        rfl
  | forwarded specifier name =>
      simp only [offerMoves, forwardedMove?, Option.mem_toList, Option.map_eq_some_iff,
        reduceCtorEq, and_false, exists_false, false_iff]
      rintro ⟨⟩
  | everything specifier =>
      simp only [offerMoves, Option.mem_toList, Option.map_eq_some_iff, Move.found.injEq]
      constructor
      · rintro ⟨target, leads, rfl⟩
        exact .wholeFile leads
      · rintro (_ | leads)
        exact ⟨_, leads, rfl⟩

theorem ask_mem_offerMoves {offer : Export} {cost : Nat} {next : Request} :
    .ask cost next ∈ table.offerMoves file scopes offer ↔
      table.OfferStep file scopes offer cost next := by
  cases offer with
  | topLevel name =>
      simp only [offerMoves, List.mem_filterMap, bindingMove?_eq_ask]
      constructor
      · rintro ⟨binding, bound, rfl, step⟩
        exact .topLevel bound step
      · rintro (_ | ⟨bound, step⟩)
        exact ⟨_, bound, rfl, step⟩
  | declaration key =>
      simp only [offerMoves, List.mem_singleton, reduceCtorEq, false_iff]
      rintro ⟨⟩
  | forwarded specifier name =>
      simp only [offerMoves, forwardedMove?, Option.mem_toList, Option.map_eq_some_iff,
        Move.ask.injEq]
      constructor
      · rintro ⟨target, leads, rfl, rfl⟩
        exact .forwarded leads
      · rintro (leads | _)
        exact ⟨_, leads, rfl, rfl⟩
  | everything specifier =>
      simp only [offerMoves, Option.mem_toList, Option.map_eq_some_iff, reduceCtorEq, and_false,
        exists_false, false_iff]
      rintro ⟨⟩

end

/-- A search finds on the spot what a file gives for a name directly. -/
theorem found_mem_moves {request : Request} {symbol : Symbol} :
    .found symbol ∈ table.moves request ↔ table.DirectSymbol request symbol := by
  rcases request with ⟨id, name⟩
  unfold moves
  split
  next unknown => simp [not_directSymbol unknown]
  next file scopes known =>
    rw [directSymbol_iff known, nameMoves]
    split
    next notOffered =>
      simp only [notOffered, List.not_mem_nil, false_and, exists_false, iff_false]
      split
      · exact List.not_mem_nil
      · simp [forwardedMove?]
    · simp only [List.mem_flatMap, found_mem_offerMoves]

/-- A search asks for the requests that a request comes down to. -/
theorem ask_mem_moves {request next : Request} {cost : Nat} :
    .ask cost next ∈ table.moves request ↔ table.ExportStep request cost next := by
  rcases request with ⟨id, name⟩
  unfold moves
  split
  next unknown => simp [not_exportStep unknown]
  next file scopes known =>
    rw [exportStep_iff known, nameMoves]
    split
    next notOffered =>
      simp only [notOffered, List.not_mem_nil, false_and, exists_false, false_or, true_and]
      split
      next isDefault => simp [isDefault]
      next notDefault =>
        simp only [notDefault, forwardedMove?, List.mem_filterMap, Option.map_eq_some_iff,
          Move.ask.injEq, not_false_eq_true, true_and, ne_eq]
        simp only [eq_comm]
    next _ offered =>
      have isOffered : scopes.offers name ≠ [] := offered
      simp only [List.mem_flatMap, ask_mem_offerMoves, isOffered, false_and, or_false]

theorem mem_exportSteps {request next : Request} {cost : Nat} :
    (cost, next) ∈ table.exportSteps request ↔ table.ExportStep request cost next := by
  rw [← ask_mem_moves, exportSteps, List.mem_filterMap]
  constructor
  · rintro ⟨_ | ⟨cost, next⟩, moveMem, isStep⟩
    · cases isStep
    · cases isStep
      exact moveMem
  · intro moveMem
    exact ⟨_, moveMem, rfl⟩

instance (request : Request) (cost : Nat) (next : Request) :
    Decidable (table.ExportStep request cost next) :=
  decidable_of_iff _ mem_exportSteps

theorem ExportStep.cost_le {request next : Request} {cost : Nat}
    (step : table.ExportStep request cost next) : cost ≤ 2 := by
  cases step with
  | offered known offerMem step => cases step <;> omega
  | passedOn => omega

theorem ExportStep.cost_pos {request next : Request} {cost : Nat}
    (step : table.ExportStep request cost next) : 0 < cost := by
  cases step with
  | offered known offerMem step => cases step <;> omega
  | passedOn => omega

theorem ExportStep.leads {request next : Request} {cost : Nat}
    (step : table.ExportStep request cost next) : table.Leads request next :=
  .single ⟨cost, step⟩

namespace Chain

variable {last : Request}

/-- Every request of a chain can be reached from its first one. -/
theorem leads_of_mem {start other : Request} {rest : List Request} {cost : Nat}
    (chain : table.Chain last (start :: rest) cost) (otherMem : other ∈ start :: rest) :
    table.Leads start other := by
  generalize isRequests : start :: rest = requests at chain otherMem
  induction chain generalizing start rest with
  | last =>
      rcases List.cons.inj isRequests with ⟨rfl, -⟩
      rw [List.mem_singleton.1 otherMem]
      exact .refl
  | step first others ih =>
      rcases List.cons.inj isRequests with ⟨rfl, -⟩
      rcases List.mem_cons.1 otherMem with rfl | otherMem
      · exact .refl
      · exact .trans first.leads (ih rfl otherMem)

theorem cost_le {requests : List Request} {cost : Nat}
    (chain : table.Chain last requests cost) : cost + 2 ≤ 2 * requests.length := by
  induction chain with
  | last => simp
  | step first others ih =>
      have bounded := first.cost_le
      simp only [List.length_cons] at ih ⊢
      omega

theorem last_mem {requests : List Request} {cost : Nat}
    (chain : table.Chain last requests cost) : last ∈ requests := by
  induction chain with
  | last => exact List.mem_singleton.2 rfl
  | step first others ih => exact List.mem_cons_of_mem _ ih

end Chain

end SymbolTable
end CallHierarchy
