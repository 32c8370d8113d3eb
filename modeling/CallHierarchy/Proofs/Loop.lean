import Mathlib.Logic.Relation

/-!
# Loops

A loop takes one step after the other until there is none. What a loop does is said by the
states it leads to from a given one, and by the state in which it ends.
-/

namespace CallHierarchy

variable {σ ι : Type} {step : σ → Option σ}

/-- Whether a loop gets from one state to another. -/
def LeadsTo (step : σ → Option σ) : σ → σ → Prop :=
  Relation.ReflTransGen fun state next => step state = some next

/-- Whether a loop ends, in the given state. -/
def EndsIn (step : σ → Option σ) (start final : σ) : Prop :=
  LeadsTo step start final ∧ step final = none

/-- If a loop can do each of some tasks when it comes to it, it can do all of them, in order. -/
theorem leadsTo_of_each {state : List ι → List ι → σ} {ids : List ι}
    (each : ∀ done id pending, done ++ id :: pending = ids →
      LeadsTo step (state done (id :: pending)) (state (done ++ [id]) pending)) :
    LeadsTo step (state [] ids) (state ids []) := by
  suffices ∀ pending done, done ++ pending = ids → LeadsTo step (state done pending) (state ids [])
    from this ids [] rfl
  intro pending
  induction pending with
  | nil =>
      rintro done rfl
      rw [List.append_nil]
      exact .refl
  | cons id pending ih =>
      intro done isSplit
      exact (each done id pending isSplit).trans (ih (done ++ [id]) (by simpa using isSplit))

end CallHierarchy
