import ClojureRt.Lib.TransitionSystem
import ClojureRt.Runtime.Vector.Defs
import Mathlib.Data.Multiset.AddSub

/-!
# What a caller does with vectors

A caller holds references, to vectors and to other objects.  An operation
consumes some of them and gives back others; `conj!`, `assoc!` and `pop!` run
the same code as `conj`, `assoc` and `pop`, and what they do depends on the
header.
-/

namespace ClojureRt
namespace Runtime
namespace Vector

open RefCount RefCount.Program
open Sharing (Address RTValue NodeType)

/-- The operations on vectors, with the arguments that a caller gives them. -/
inductive Operation
  | newObject
  | create
  | createMany (objects : List RTValue)
  | conj (self : Address) (other : RTValue)
  | assoc (self : Address) (index : Nat) (other : RTValue)
  | pop (self : Address)
  | withMeta (self : Address) (metadata : RTValue)
  | transient (self : Address)
  | persistentBang (self : Address)
  | nth (self : Address) (index : Nat)
  | retain (address : Address)
  | release (address : Address)
  deriving DecidableEq

namespace Operation

/-- The references an operation takes from the caller. -/
def consumed : Operation → List Address
  | newObject => []
  | create => []
  | createMany objects => objects.flatMap addresses
  | conj self other => self :: addresses other
  | assoc self _ other => self :: addresses other
  | pop self => [self]
  | withMeta self metadata => self :: addresses metadata
  | transient self => [self]
  | persistentBang self => [self]
  | nth self _ => [self]
  | retain address => [address]
  | release address => [address]

/-- The vector that an operation gives back, if it does not throw. -/
def resultOf : Except Exception Address → List Address
  | .ok address => [address]
  | .error _ => []

/-- The code of an operation, with the references the caller gets. -/
def run (transientID : Nat) : Operation → Code (List Address)
  | newObject => do
      let address ← allocate (.other [])
      pure [address]
  | create => do
      let vector ← Vector.create
      pure [vector]
  | createMany objects => do
      let vector ← Vector.createMany objects
      pure [vector]
  | conj self other => do
      let new ← conjInternal self other
      pure [new]
  | assoc self index other => do
      let result ← assocInternal self index other
      pure (resultOf result)
  | pop self => do
      let result ← popInternal self
      pure (resultOf result)
  | withMeta self metadata => do
      let new ← Vector.withMeta self metadata
      pure [new]
  | transient self => do
      let new ← Vector.transient self transientID
      pure [new]
  | persistentBang self => do
      let new ← Vector.persistentBang self
      pure [new]
  | nth self index => do
      let result ← Vector.nth self index
      match result with
      | .ok value => pure (addresses value)
      | .error _ => pure []
  | retain address => do
      Program.retain address
      pure [address, address]
  | release address => do
      Program.release address
      pure []

/-- How often an operation calls `getTransientID`. -/
def transientIDs : Operation → Nat
  | transient _ => 1
  | _ => 0

end Operation

/-- The heap, the references the caller holds and the next result of
`getTransientID`. -/
structure State where
  heap : VectorHeap
  held : Multiset Address
  nextTransientID : Nat

/-- After `PersistentVector_initialise`. -/
def State.Initial (state : State) : Prop :=
  state = ⟨initialHeap, 0, 1⟩

/-- An operation on references that the caller holds, with what it gives back.
There is no result where the operation uses an object that has been freed. -/
def State.perform (state : State) (operation : Operation) : Option
    (List Address × State) :=
  if (operation.consumed : Multiset Address) ≤ state.held then
    match operation.run state.nextTransientID state.heap with
    | some (given, heap) =>
        some (given,
          ⟨heap, state.held - operation.consumed + given,
            state.nextTransientID + operation.transientIDs⟩)
    | none => none
  else none

/-- A step runs an operation.  The condition can restrict which. -/
inductive Step (condition : State → Operation → Prop) : State → State → Prop
  | perform
      (before after : State)
      (operation : Operation)
      (given : List Address)
      (meets : condition before operation)
      (result : before.perform operation = some (given, after)) :
      Step condition before after

/-- The states that operations which meet a condition lead to. -/
abbrev Reaches (condition : State → Operation → Prop) : State → Prop :=
  TransitionSystem.Reachable State.Initial (Step condition)

theorem State.perform_eq_some
    {before after : State}
    {operation : Operation}
    {given : List Address}
    (result : before.perform operation = some (given, after)) :
    (operation.consumed : Multiset Address) ≤ before.held ∧
      operation.run before.nextTransientID before.heap =
        some (given, after.heap) ∧
      after.held = before.held - operation.consumed + given := by
  unfold perform at result
  split at result
  · next holds =>
      split at result
      · next given' heap isResult =>
          cases result
          exact ⟨holds, isResult, rfl⟩
      · cases result
  · cases result

/-- Operations one after the other. -/
def State.performAll : List Operation → State → Option State
  | [], state => some state
  | operation :: operations, state =>
      match state.perform operation with
      | some (_, after) => performAll operations after
      | none => none

theorem Reaches.performAll
    {condition : State → Operation → Prop}
    {operations : List Operation}
    (meets : ∀ operation ∈ operations, ∀ state, condition state operation)
    {before after : State}
    (reaches : Reaches condition before)
    (result : before.performAll operations = some after) :
    Reaches condition after := by
  induction operations generalizing before with
  | nil =>
      cases result
      exact reaches
  | cons operation operations inductionHypothesis =>
      rw [State.performAll] at result
      split at result
      · next given middle performed =>
          have stepped : Step condition before middle :=
            .perform before middle operation given
              (meets operation List.mem_cons_self before) performed
          apply inductionHypothesis _ (reaches.tail stepped) result
          exact fun other isOther =>
            meets other (List.mem_cons_of_mem operation isOther)
      · cases result

end Vector
end Runtime
end ClojureRt
