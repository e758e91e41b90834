import Mathlib.Logic.Relation

/-!
# Reachable states of a transition system

A system is a set of initial states and a step relation.  A property of every
reachable state is proved by showing that it holds initially and that every step
from a reachable state keeps it.
-/

namespace ClojureRt
namespace TransitionSystem

variable {State : Type*}

/-- States reached from an initial state by finitely many steps. -/
def Reachable
    (initial : State → Prop)
    (step : State → State → Prop)
    (state : State) : Prop :=
  ∃ start, initial start ∧ Relation.ReflTransGen step start state

namespace Reachable

variable {initial : State → Prop} {step : State → State → Prop}

theorem of_initial {state : State} (isInitial : initial state) :
    Reachable initial step state :=
  ⟨state, isInitial, .refl⟩

theorem tail {before after : State}
    (reachable : Reachable initial step before)
    (stepped : step before after) :
    Reachable initial step after := by
  obtain ⟨start, isInitial, run⟩ := reachable
  exact ⟨start, isInitial, run.tail stepped⟩

/-- The invariant rule.  The step case may use that the state is reachable, so
invariants can be proved one after the other. -/
theorem invariant {Invariant : State → Prop}
    (holdsInitially : ∀ state, initial state → Invariant state)
    (kept : ∀ before after, Reachable initial step before → Invariant before →
      step before after → Invariant after)
    {state : State}
    (reachable : Reachable initial step state) :
    Invariant state := by
  obtain ⟨start, isInitial, run⟩ := reachable
  induction run with
  | refl => exact holdsInitially start isInitial
  | tail run stepped inductionHypothesis =>
      exact kept _ _ ⟨start, isInitial, run⟩ inductionHypothesis stepped

end Reachable

end TransitionSystem
end ClojureRt
