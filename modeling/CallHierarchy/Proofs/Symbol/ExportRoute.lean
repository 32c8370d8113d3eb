import CallHierarchy.Proofs.Symbol.ExportSearch

/-!
# Short ways and long ways to an exported name

A search that is cut off by its budget still has entered the request where it
was cut off, and does not come back to it on a shorter way. A short way to a
symbol can thus be missed. That happens only if the search has come to a request on it
before, so only if an earlier statement starts a longer way there.
-/

namespace CallHierarchy
namespace SymbolTable

variable {table : SymbolTable} {budget : Nat} {visited : Visited}

/-- A request on a route. -/
structure Stop where
  request : Request
  /-- What the rest of the route costs. -/
  left : Nat
  /-- The steps that a search makes before that of the route. -/
  earlier : List (Nat × Request)

/-- Requests, all different, that lead each by a step to the next, and to a direct symbol. -/
inductive Route (table : SymbolTable) : List Stop → Prop
  | found {request : Request} {symbol : Symbol} (direct : table.DirectSymbol request symbol) :
      Route table [⟨request, 0, []⟩]
  | step {request : Request} {cost : Nat} {next : Stop} {earlier later : List (Nat × Request)}
      {rest : List Stop}
      (steps : table.exportSteps request = earlier ++ (cost, next.request) :: later)
      (others : Route table (next :: rest))
      (isNew : request ∉ (next :: rest).map (·.request)) :
      Route table (⟨request, cost + next.left, earlier⟩ :: next :: rest)

/--
Moves that find nothing enter no request of a route, if they come to each request of it
early enough to find something from there.
-/
theorem Route.not_mem_performAll {route : List Stop} (isRoute : table.Route route) {stops : Bool}
    {moves : List Move} (nothing : (table.performAll budget stops moves visited).1 = [])
    (isNew : ∀ stop ∈ route, stop.request ∉ visited)
    (room : ∀ step ∈ moves.filterMap Move.step?, ∀ target ∈ route, ∀ passed cost,
      table.Chain target.request (step.2 :: passed) cost → (step.2 :: passed).Nodup →
        (∀ other ∈ step.2 :: passed, other ∉ visited) →
        step.1 + cost < budget → step.1 + cost + target.left < budget) :
    ∀ stop ∈ route, stop.request ∉ (table.performAll budget stops moves visited).2 := by
  have explored := table.explored_performAll budget stops moves visited
  have fits : ∀ stop ∈ route, ∀ cost < budget,
      table.Reached (fun cost start => .ask cost start ∈ moves) visited
        (table.performAll budget stops moves visited).2 cost stop.request →
      cost + stop.left < budget := by
    rintro stop stopMem _ inBudget
      ⟨initial, start, passed, further, isStart, chain, distinct, fresh, rfl⟩
    exact room (initial, start) (List.mem_filterMap.2 ⟨_, isStart, rfl⟩) stop stopMem passed further
      chain distinct (fun other otherMem => (fresh other otherMem).2) inBudget
  clear room
  induction isRoute with
  | found direct =>
      simp only [List.mem_singleton, forall_eq] at isNew ⊢
      intro isEntered
      rcases explored.entered _ isEntered isNew with ⟨_, -, -, done⟩
      exact (done nothing).1 _ direct
  | @step request cost next earlier later rest steps others isOther ih =>
      rw [List.forall_mem_cons] at isNew fits ⊢
      have notLater := ih isNew.2 fits.2
      refine ⟨fun isEntered => ?_, notLater⟩
      rcases explored.entered _ isEntered isNew.1 with ⟨before, inBudget, reached, done⟩
      have left : before + (cost + next.left) < budget := fits.1 before inBudget reached
      have step : table.ExportStep request cost next.request :=
        mem_exportSteps.1 (steps ▸ List.mem_append_right _ List.mem_cons_self)
      exact notLater next List.mem_cons_self
        ((done nothing).2 cost next.request step (by omega))

/-- A step on a route stands among the moves of its request, after those of the earlier steps. -/
theorem exists_moves_of_exportSteps {request next : Request} {cost : Nat}
    {earlier later : List (Nat × Request)}
    (steps : table.exportSteps request = earlier ++ (cost, next) :: later) :
    ∃ before after, table.moves request = before ++ .ask cost next :: after ∧
      before.filterMap Move.step? = earlier := by
  rcases List.filterMap_eq_append_iff.1 steps with ⟨first, second, isMoves, isEarlier, isLater⟩
  rcases List.filterMap_eq_cons_iff.1 isLater with ⟨skipped, move, after, rfl, areNone, isMove, -⟩
  cases move with
  | found => cases isMove
  | ask =>
      cases isMove
      refine ⟨first ++ skipped, after, by rw [isMoves, List.append_assoc], ?_⟩
      rw [List.filterMap_append, isEarlier, List.filterMap_eq_nil_iff.2 areNone, List.append_nil]

/-- Some moves find something if an early one does, or else one that is made after those. -/
theorem performAll_ne_nil {stops : Bool} {before after : List Move} {move : Move}
    (finds : (table.performAll budget stops before visited).1 = [] →
      (table.perform budget move (table.performAll budget stops before visited).2).1 ≠ []) :
    (table.performAll budget stops (before ++ move :: after) visited).1 ≠ [] := by
  rw [performAll_append]
  rcases isBefore : table.performAll budget stops before visited with
    ⟨_ | ⟨symbol, symbols⟩, entered⟩
  · rw [isBefore] at finds
    have some := finds rfl
    rw [inTurn_nil, performAll]
    rcases isMove : table.perform budget move entered with ⟨_ | ⟨symbol, symbols⟩, later⟩
    · exact absurd (congrArg Prod.fst isMove) some
    · cases stops <;> simp [inTurn]
  · cases stops <;> simp [inTurn]

theorem Route.left_le {start : Stop} {rest : List Stop} (route : table.Route (start :: rest)) :
    ∀ stop ∈ start :: rest, stop.left ≤ start.left := by
  generalize isStops : start :: rest = stops at route
  induction route generalizing start rest with
  | found =>
      cases isStops
      simp
  | step _ _ _ ih =>
      cases isStops
      intro stop stopMem
      rcases List.mem_cons.1 stopMem with rfl | stopMem
      · exact Nat.le_refl _
      · exact (ih rfl stop stopMem).trans (Nat.le_add_left _ _)

theorem nodup_append_of_fresh {before passed : List Request} (distinct : before.Nodup)
    (entered : ∀ request ∈ before, request ∈ visited) (apart : passed.Nodup)
    (fresh : ∀ request ∈ passed, request ∉ visited) : (before ++ passed).Nodup :=
  List.nodup_append'.2
    ⟨distinct, apart, fun request isOld isPassed => fresh request isPassed (entered request isOld)⟩

/--
A search that comes to a route before it has entered any request on it follows the route
to its end, unless it finds something earlier. A longer way to a request on the route
matters only if it starts before the step on the route.
-/
theorem Route.finds {route : List Stop} (isRoute : table.Route route) {slack : Nat}
    (positive : 0 < slack) {before : List Request} (distinct : before.Nodup) {visited : Visited}
    (entered : ∀ request ∈ before, request ∈ visited)
    (isNew : ∀ stop ∈ route, stop.request ∉ visited)
    (room : ∀ middle stop after, route = middle ++ stop :: after → ∀ step ∈ stop.earlier,
      ∀ target ∈ after, ∀ passed cost, table.Chain target.request (step.2 :: passed) cost →
        (before ++ middle.map (·.request) ++ stop.request :: step.2 :: passed).Nodup →
        step.1 + cost < stop.left + slack → step.1 + cost + target.left < stop.left + slack) :
    ∀ stop ∈ route.head?,
      (table.followExport (stop.left + slack) stop.request.1 stop.request.2 visited).1 ≠ [] := by
  induction isRoute generalizing before visited with
  | @found request symbol direct =>
      obtain ⟨budget, rfl⟩ : ∃ budget, slack = budget + 1 := ⟨slack - 1, by omega⟩
      have isNewHere := isNew _ (List.mem_singleton.2 rfl)
      simp only [List.head?_cons, Option.mem_some_iff, forall_eq', Nat.zero_add]
      rw [followExport_succ, if_neg isNewHere]
      rcases List.append_of_mem (found_mem_moves.2 direct) with ⟨before, after, isMoves⟩
      rw [Prod.mk.eta, isMoves]
      exact performAll_ne_nil fun _ => List.cons_ne_nil _ _
  | @step request cost next earlier later rest steps others isOther ih =>
      obtain ⟨budget, isBudget⟩ : ∃ budget, cost + next.left + slack = budget + 1 :=
        ⟨cost + next.left + slack - 1, by omega⟩
      rw [List.forall_mem_cons] at isNew
      rcases isNew with ⟨isNewHere, isNewLater⟩
      rcases exists_moves_of_exportSteps steps with ⟨first, after, isMoves, isEarlier⟩
      simp only [List.head?_cons, Option.mem_some_iff, forall_eq']
      rw [isBudget, followExport_succ, if_neg isNewHere, Prod.mk.eta, isMoves]
      apply performAll_ne_nil
      intro nothing
      have isLess : budget + 1 - cost = next.left + slack := by omega
      have grown := (table.explored_performAll (budget + 1) (table.passesOn request) first
        (request :: visited)).grown.subset
      have distinctHere : (before ++ [request]).Nodup :=
        nodup_append_of_fresh distinct entered (List.nodup_singleton request)
          (by simpa using isNewHere)
      have enteredHere : ∀ other ∈ before ++ [request], other ∈ request :: visited := by
        intro other otherMem
        rcases List.mem_append.1 otherMem with otherMem | isRequest
        · exact List.mem_cons_of_mem _ (entered other otherMem)
        · exact List.mem_singleton.1 isRequest ▸ List.mem_cons_self
      rw [perform, isLess]
      refine ih distinctHere (fun other otherMem => grown (enteredHere other otherMem))
        (others.not_mem_performAll nothing ?_ ?_) ?_ next rfl
      · intro stop stopMem isOld
        rcases List.mem_cons.1 isOld with same | isOld
        · exact isOther (same ▸ List.mem_map_of_mem stopMem)
        · exact isNewLater stop stopMem isOld
      · intro step stepMem target targetMem passed further chain apart fresh
        have stillDistinct := nodup_append_of_fresh distinctHere enteredHere apart fresh
        have fits := room [] ⟨request, cost + next.left, earlier⟩ (next :: rest) rfl step
          (isEarlier ▸ stepMem) target targetMem passed further chain (by simpa using stillDistinct)
        rwa [isBudget] at fits
      · intro middle stop after isRoute
        have along := room (⟨request, cost + next.left, earlier⟩ :: middle) stop after
          (congrArg (_ :: ·) isRoute)
        simpa only [List.append_assoc, List.map_cons, List.cons_append, List.nil_append] using along

/--
A way to a symbol that fits into the budget is found, whatever else the files on it
export. The exception is a longer way through distinct requests to a later request on it,
which an earlier statement starts and which leaves too little for the rest.
-/
theorem exportedSymbols_of_route (table : SymbolTable) {start : Stop} {rest : List Stop}
    {depth : Nat} (route : table.Route (start :: rest)) (room : depth + start.left ≤ defaultLimit)
    (notHidden : ∀ before stop after, start :: rest = before ++ stop :: after →
      ∀ step ∈ stop.earlier, ∀ target ∈ after, ∀ passed cost,
        table.Chain target.request (step.2 :: passed) cost →
        (before.map (·.request) ++ stop.request :: step.2 :: passed).Nodup →
        depth + (start.left - stop.left) + step.1 + cost ≤ defaultLimit →
        depth + (start.left - stop.left) + step.1 + cost + target.left ≤ defaultLimit) :
    table.exportedSymbols (defaultLimit + 1 - depth) start.request.1 start.request.2 ≠ [] := by
  have positive : 0 < defaultLimit + 1 - depth - start.left := by omega
  have isBudget : start.left + (defaultLimit + 1 - depth - start.left) =
      defaultLimit + 1 - depth := by omega
  have noneEntered : ∀ request ∈ ([] : List Request), request ∈ ([] : Visited) := by simp
  rw [exportedSymbols, ← isBudget]
  refine route.finds positive List.nodup_nil noneEntered (by simp) ?_ start rfl
  intro middle stop after isRoute step stepMem target targetMem passed cost chain distinct fits
  have less := route.left_le stop (isRoute ▸ List.mem_append_right _ List.mem_cons_self)
  have left := notHidden middle stop after isRoute step stepMem target targetMem passed cost chain
    distinct (by omega)
  omega

/--
Five files. The first leads to the fourth in one step. An earlier statement leads to the
second file, which leads back only, and a later one leads to the fourth in two steps.
-/
def crossroads : SymbolTable :=
  .ofFiles ⟨"/"⟩ .empty
    [starFile 0 "/a.ts" ["./b", "./d", "./c"], starFile 1 "/b.ts" ["./a"],
      starFile 2 "/c.ts" ["./d"], starFile 3 "/d.ts" ["./e"], functionFile 4 "/e.ts"]

/-- The later way is too long, but the search does not take it. -/
theorem exportedSymbols_of_route_crossroads :
    crossroads.Route [⟨(0, "x"), 2, [(1, (1, "x"))]⟩, ⟨(3, "x"), 1, []⟩, ⟨(4, "x"), 0, []⟩] ∧
    crossroads.Chain (3, "x") [(0, "x"), (2, "x"), (3, "x")] 2 ∧ defaultLimit < 30 + 2 + 1 ∧
    crossroads.exportedSymbols (defaultLimit + 1 - 30) 0 "x" ≠ [] := by
  have first : crossroads.exportSteps (0, "x") =
      [(1, (1, "x"))] ++ (1, (3, "x")) :: [(1, (2, "x"))] := by decide +kernel
  have second : crossroads.exportSteps (3, "x") = [] ++ (1, (4, "x")) :: [] := by decide +kernel
  have back : crossroads.exportSteps (1, "x") = [(1, (0, "x"))] := by decide +kernel
  have direct : crossroads.DirectSymbol (4, "x") (.declaration ⟨4, 7, 22, ⟨"function_declaration",
    true⟩⟩) := .offered rfl (List.mem_singleton.2 rfl) .declaration
  have route : crossroads.Route
      [⟨(0, "x"), 2, [(1, (1, "x"))]⟩, ⟨(3, "x"), 1, []⟩, ⟨(4, "x"), 0, []⟩] :=
    .step first (.step second (.found direct) (by decide)) (by decide)
  have longer : crossroads.Chain (3, "x") [(0, "x"), (2, "x"), (3, "x")] 2 :=
    .step (by decide +kernel : crossroads.ExportStep (0, "x") 1 (2, "x"))
      (.step (by decide +kernel : crossroads.ExportStep (2, "x") 1 (3, "x")) .last)
  refine ⟨route, longer, by decide, exportedSymbols_of_route crossroads route (by decide) ?_⟩
  intro before stop after isRoute step stepMem target targetMem passed cost chain distinct
  rcases before with _ | ⟨_, before⟩
  · rcases List.cons.inj isRoute with ⟨rfl, rfl⟩
    have isTarget : target.request ≠ (1, "x") := by
      simp only [List.mem_cons, List.not_mem_nil, or_false] at targetMem
      rcases targetMem with rfl | rfl <;> decide
    cases List.mem_singleton.1 stepMem
    generalize target.request = last at chain isTarget
    cases chain with
    | last => exact absurd rfl isTarget
    | step away _ =>
        have stepMem := mem_exportSteps.2 away
        rw [back, List.mem_singleton, Prod.mk.injEq] at stepMem
        simp [stepMem.2] at distinct
  · have stopMem : stop ∈ [⟨(3, "x"), 1, []⟩, ⟨(4, "x"), 0, []⟩] := by
      rw [(List.cons.inj isRoute).2]
      exact List.mem_append_right _ List.mem_cons_self
    simp only [List.mem_cons, List.not_mem_nil, or_false] at stopMem
    rcases stopMem with rfl | rfl <;> cases stepMem

/--
Five files. The first leads to the fourth in one step, but first it leads there
in three, and the fourth leads to the last.
-/
def detour : SymbolTable :=
  .ofFiles ⟨"/"⟩ .empty
    [starFile 0 "/a.ts" ["./b", "./d"], starFile 1 "/b.ts" ["./c"], starFile 2 "/c.ts" ["./d"],
      starFile 3 "/d.ts" ["./e"], functionFile 4 "/e.ts"]

/-- A short way that fits into the budget is missed if a longer way to it comes first. -/
theorem exportedSymbols_detour :
    detour.Route [⟨(0, "x"), 2, [(1, (1, "x"))]⟩, ⟨(3, "x"), 1, []⟩, ⟨(4, "x"), 0, []⟩] ∧
    29 + 2 ≤ defaultLimit ∧ detour.exportedSymbols (defaultLimit + 1 - 29) 0 "x" = [] := by
  have first : detour.exportSteps (0, "x") = [(1, (1, "x"))] ++ (1, (3, "x")) :: [] := by
    decide +kernel
  have second : detour.exportSteps (3, "x") = [] ++ (1, (4, "x")) :: [] := by decide +kernel
  have direct : detour.DirectSymbol (4, "x") (.declaration ⟨4, 7, 22, ⟨"function_declaration",
    true⟩⟩) := .offered rfl (List.mem_singleton.2 rfl) .declaration
  exact ⟨.step first (.step second (.found direct) (by decide)) (by decide), by decide,
    by decide +kernel⟩

end SymbolTable
end CallHierarchy
