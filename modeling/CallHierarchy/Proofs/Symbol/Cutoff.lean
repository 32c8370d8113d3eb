import CallHierarchy.Proofs.Symbol.Simulation

/-!
# Look-ups that know when they are cut off

A look-up that goes beyond the limit goes on as if there were nothing more to find,
and its result does not tell the two apart. Here are results that do: an `Answer` can
be that the look-up is cut off, and `Findings` say whether the search for them went
on to the end. Look-ups with such results take the same steps, but they stop at the
first place where they do not know any better.

Such results are true of all plain results that take them further: a plain look-up
with more steps left settles for the same answer and begins with the same findings.
-/

open scoped Relator

namespace CallHierarchy

/-- What a look-up knows when it may have been cut off on the way. -/
inductive Answer (α : Type) where
  | cutOff
  | nothing
  | found (value : α)
  deriving DecidableEq

namespace Answer

variable {α β γ δ : Type}

/-- The answer of a look-up that is not cut off. -/
def ofOption : Option α → Answer α
  | none => nothing
  | some value => found value

/-- The answer of a look-up that goes on from the value that another one has found. -/
def bind (answer : Answer α) (next : α → Answer β) : Answer β :=
  match answer with
  | cutOff => cutOff
  | nothing => nothing
  | found value => next value

/-- The first answer, or else another one, if it is certain that the first is nothing. -/
def orElse (answer : Answer α) (next : Unit → Answer α) : Answer α :=
  match answer with
  | nothing => next ()
  | _ => answer

/-- Whether a result is as the answer says, if the answer says anything. -/
def Settles (alike : α → β → Prop) : Answer α → Option β → Prop
  | cutOff, _ => True
  | nothing, result => result = none
  | found value, result => ∃ other, result = some other ∧ alike value other

variable {alike : α → β → Prop} {result : γ → δ → Prop} {answer : Answer α} {other : Option β}

theorem settles_ofOption {thing : Option α} (related : Option.Rel alike thing other) :
    (ofOption thing).Settles alike other := by
  cases related with
  | none => rfl
  | some same => exact ⟨_, rfl, same⟩

theorem Settles.bind {next : α → Answer γ} {otherNext : β → Option δ}
    (settles : answer.Settles alike other)
    (agree : ∀ value other, alike value other → (next value).Settles result (otherNext other)) :
    (answer.bind next).Settles result (other.bind otherNext) := by
  cases answer with
  | cutOff => trivial
  | nothing =>
      cases settles
      rfl
  | found value =>
      rcases settles with ⟨other, rfl, same⟩
      exact agree value other same

theorem Settles.orElse {next : Unit → Answer α} {otherNext : Unit → Option β}
    (settles : answer.Settles alike other) (agree : (next ()).Settles alike (otherNext ())) :
    (answer.orElse next).Settles alike (other.orElse otherNext) := by
  cases answer with
  | cutOff => trivial
  | nothing =>
      cases settles
      exact agree
  | found value =>
      rcases settles with ⟨other, rfl, same⟩
      exact ⟨other, rfl, same⟩

end Answer

/-- What a search for several things has found, and whether it went on to the end. -/
structure Findings (α : Type) where
  found : List α
  complete : Bool

namespace Findings

variable {α β γ δ : Type}

/-- All there is. -/
def ofList (found : List α) : Findings α :=
  ⟨found, true⟩

/-- Nothing so far. -/
def cutOff : Findings α :=
  ⟨[], false⟩

/-- What one search finds and then another, up to where one is cut off. -/
def append (findings others : Findings α) : Findings α :=
  if findings.complete then ⟨findings.found ++ others.found, others.complete⟩ else findings

/-- The findings to which something corresponds. -/
def filterMap (keep : α → Option β) (findings : Findings α) : Findings β :=
  ⟨findings.found.filterMap keep, findings.complete⟩

/-- What is found from an answer. -/
def after (answer : Answer α) (find : α → Findings β) : Findings β :=
  match answer with
  | .cutOff => cutOff
  | .nothing => ofList []
  | .found value => find value

/-- The first of the findings. There is none only if the search went on to the end. -/
def first (findings : Findings α) : Answer α :=
  match findings.found with
  | value :: _ => .found value
  | [] => if findings.complete then .nothing else .cutOff

/-- Whether a list begins with the findings, and ends with them if the search went on to the end. -/
def Begins (alike : α → β → Prop) (findings : Findings α) (list : List β) : Prop :=
  ∃ known further, list = known ++ further ∧ List.Forall₂ alike findings.found known ∧
    (findings.complete → further = [])

variable {alike : α → β → Prop} {findings others : Findings α} {list rest : List β}

theorem begins_ofList {found : List α} (related : List.Forall₂ alike found list) :
    (ofList found).Begins alike list :=
  ⟨list, [], (List.append_nil list).symm, related, fun _ => rfl⟩

theorem begins_cutOff (list : List β) : cutOff.Begins alike list :=
  ⟨[], list, rfl, .nil, fun complete => by cases complete⟩

theorem complete_append (findings others : Findings α) :
    (findings.append others).complete = (findings.complete && others.complete) := by
  unfold append
  split <;> simp_all

theorem Begins.append (begins : findings.Begins alike list)
    (restBegins : findings.complete → others.Begins alike rest) :
    (findings.append others).Begins alike (list ++ rest) := by
  rcases begins with ⟨known, further, rfl, related, whole⟩
  unfold Findings.append
  split
  next complete =>
    rcases restBegins complete with ⟨restKnown, restFurther, rfl, restRelated, restWhole⟩
    refine ⟨known ++ restKnown, restFurther, ?_, List.rel_append related restRelated, restWhole⟩
    rw [whole complete, List.append_nil, List.append_assoc]
  next cut =>
    exact ⟨known, further ++ rest, List.append_assoc known further rest, related,
      fun complete => absurd complete cut⟩

theorem Begins.first (begins : findings.Begins alike list) :
    findings.first.Settles alike list.head? := by
  rcases findings with ⟨found, complete⟩
  rcases begins with ⟨known, further, rfl, related, whole⟩
  cases related with
  | nil =>
      cases complete with
      | false => trivial
      | true => rw [whole rfl]; rfl
  | cons same _ => exact ⟨_, rfl, same⟩

theorem Begins.filterMap {result : γ → δ → Prop} {keep : α → Option γ} {otherKeep : β → Option δ}
    (begins : findings.Begins alike list)
    (agree : ∀ item other, alike item other → Option.Rel result (keep item) (otherKeep other)) :
    (findings.filterMap keep).Begins result (list.filterMap otherKeep) := by
  rcases begins with ⟨known, further, rfl, related, whole⟩
  refine ⟨known.filterMap otherKeep, further.filterMap otherKeep, List.filterMap_append,
    List.rel_filterMap agree related, fun complete => ?_⟩
  rw [whole complete, List.filterMap_nil]

theorem Begins.eq_of_complete {list : List α} (begins : findings.Begins Eq list)
    (complete : findings.complete) : list = findings.found := by
  rcases begins with ⟨known, further, rfl, same, whole⟩
  rw [List.forall₂_eq_eq_eq] at same
  rw [whole complete, List.append_nil, same]

theorem begins_after {thing : γ → δ → Prop} {answer : Answer γ} {other : Option δ}
    {find : γ → Findings α} {otherFind : δ → List β} (settles : answer.Settles thing other)
    (agree : ∀ value other, thing value other → (find value).Begins alike (otherFind other)) :
    (after answer find).Begins alike (other.elim [] otherFind) := by
  cases answer with
  | cutOff => exact begins_cutOff _
  | nothing =>
      cases settles
      exact begins_ofList .nil
  | found value =>
      rcases settles with ⟨other, rfl, same⟩
      exact agree value other same

end Findings

namespace Effect

/-- Results that say where a look-up is cut off. -/
@[reducible]
def untilCutOff : Effect where
  One := Answer
  Many := Findings Symbol
  Searched := Findings Symbol × Visited
  ofOption := Answer.ofOption
  bind := Answer.bind
  orElse := Answer.orElse
  ofList := Findings.ofList
  append := Findings.append
  after := Findings.after
  first := Findings.first
  ended symbols visited := (.ofList symbols, visited)
  andThen search next :=
    let others := next search.2
    (search.1.append others.1, others.2)
  orThen search next :=
    if search.1.found.isEmpty && search.1.complete then next search.2 else search
  symbols := Prod.fst
  noThing := .cutOff
  noSymbols := .cutOff
  noSearch visited := (.cutOff, visited)

/-- Whether a search finds what an unfinished one has found, and enters the same if that is all. -/
def Continues (alike : Symbol → Symbol → Prop) (entered : Visited → Visited → Prop)
    (search : Findings Symbol × Visited) (other : List Symbol × Visited) : Prop :=
  search.1.Begins alike other.1 ∧ (search.1.complete → entered search.2 other.2)

variable {alike : Symbol → Symbol → Prop} {entered : Visited → Visited → Prop}
  {search : Findings Symbol × Visited} {other : List Symbol × Visited}

theorem continues_cutOff (visited : Visited) (other : List Symbol × Visited) :
    Continues alike entered (.cutOff, visited) other :=
  ⟨Findings.begins_cutOff _, fun complete => by cases complete⟩

theorem Continues.andThen {next : Visited → Findings Symbol × Visited}
    {otherNext : Visited → List Symbol × Visited} (continues : Continues alike entered search other)
    (agree : (entered ⇒ Continues alike entered) next otherNext) :
    Continues alike entered (untilCutOff.andThen search next) (plain.andThen other otherNext) := by
  constructor
  · exact continues.1.append fun complete => (agree (continues.2 complete)).1
  · intro complete
    simp only [Findings.complete_append, Bool.and_eq_true] at complete
    exact (agree (continues.2 complete.1)).2 complete.2

theorem Continues.orThen {next : Visited → Findings Symbol × Visited}
    {otherNext : Visited → List Symbol × Visited} (continues : Continues alike entered search other)
    (agree : (entered ⇒ Continues alike entered) next otherNext) :
    Continues alike entered (untilCutOff.orThen search next) (plain.orThen other otherNext) := by
  rcases search with ⟨⟨found, complete⟩, visited⟩
  rcases other with ⟨symbols, otherVisited⟩
  rcases continues with ⟨⟨known, further, rfl, related, whole⟩, same⟩
  cases related with
  | cons first rest => exact ⟨⟨_, further, rfl, .cons first rest, whole⟩, same⟩
  | nil =>
      cases complete with
      | false => exact continues_cutOff visited _
      | true =>
          rw [whole rfl]
          exact agree (same rfl)

/-- Results that say where a look-up is cut off are true of plain results. -/
def untilCutOffSimulation : untilCutOff.Simulation plain where
  one := Answer.Settles
  many := Findings.Begins
  searched := Continues
  ofOption := Answer.settles_ofOption
  bind settles _ _ agree := settles.bind fun _ _ same => agree same
  orElse := Answer.Settles.orElse
  ofList := Findings.begins_ofList
  append begins _ _ others := begins.append fun _ => others
  after settles _ _ agree := Findings.begins_after settles fun _ _ same => agree same
  first := Findings.Begins.first
  ended related _ _ start := ⟨Findings.begins_ofList related, fun _ => start⟩
  andThen continues _ _ := continues.andThen
  orThen continues _ _ := continues.orThen
  symbols := And.left
  noThing := trivial
  noSymbols := Findings.begins_cutOff _
  noSearch _ := continues_cutOff _ _

theorem untilCutOffSimulation_isOpen : untilCutOffSimulation.IsOpen where
  noThing _ := trivial
  noSymbols := Findings.begins_cutOff
  noSearch := continues_cutOff

end Effect

end CallHierarchy
