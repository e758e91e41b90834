import Mathlib.Data.List.Basic
import Mathlib.Data.List.Count
import Mathlib.Data.List.Sublists

/-!
# Function objects

What a function object keeps of the values its methods close over: an array for
each method, filled when the object is created and released either by the first
call of a function marked `:once` or when the object is destroyed.

The count of an array is an `unsigned char`.  The fields of a method that play
no part in this (index, arity, implementation, loop id) are left out.
-/

namespace ClojureRt
namespace Runtime
namespace Function

variable {Value : Type}

/-- A `FunctionMethod`. -/
structure FunctionMethod (Value : Type) where
  closedOversCount : UInt8
  closedOvers : List Value

/-- A `ClojureFunction`. -/
structure ClojureFunction (Value : Type) where
  once : Bool
  executed : Bool
  methods : List (FunctionMethod Value)

/-- What `Function_fillMethod` writes.  The array has all of the values, the
stored count is truncated. -/
def fillMethod (closedOvers : List Value) : FunctionMethod Value :=
  ⟨UInt8.ofNat closedOvers.length, closedOvers⟩

/-- `Function_create` and then `Function_fillMethod` for every method. -/
def create (once : Bool) (closedOvers : List (List Value)) :
    ClojureFunction Value :=
  ⟨once, false, closedOvers.map fillMethod⟩

/-- The values released by the loops of `Function_destroy` and
`Function_cleanupOnce`. -/
def releaseClosedOvers (methods : List (FunctionMethod Value)) : List Value :=
  methods.flatMap fun method =>
    method.closedOvers.take method.closedOversCount.toNat

/-- `Function_cleanupOnce`: the values released and the object after it.  The
assertion fails when the function has run before. -/
def cleanupOnce (self : ClojureFunction Value) : Option
    (List Value × ClojureFunction Value) :=
  if self.executed then none
  else some (releaseClosedOvers self.methods, { self with executed := true })

/-- `Function_destroy`: the values released. -/
def destroy (self : ClojureFunction Value) : List Value :=
  if self.once && self.executed then []
  else releaseClosedOvers self.methods

/-- The values held by the arrays of an object. -/
def closedOvers (self : ClojureFunction Value) : List Value :=
  self.methods.flatMap FunctionMethod.closedOvers

/-- The values released by an object until it is gone.  Only a function marked
`:once` is cleaned up by a call. -/
def released (self : ClojureFunction Value) (called : Bool) : List Value :=
  if self.once && called then
    match cleanupOnce self with
    | some (values, after) => values ++ destroy after
    | none => []
  else destroy self

/-- Whether or not a `:once` function is called, its arrays are walked once. -/
theorem released_create (once called : Bool) (closedOvers : List (List Value)) :
    released (create once closedOvers) called =
      releaseClosedOvers (closedOvers.map fillMethod) := by
  cases once <;> cases called <;> simp [released, create, cleanupOnce, destroy]

/-- The part of an array that is released. -/
theorem take_fillMethod (closedOvers : List Value) :
    (fillMethod closedOvers).closedOvers.take
    (fillMethod closedOvers).closedOversCount.toNat =
      closedOvers.take (closedOvers.length % 256) := by
  simp [fillMethod]

theorem releaseClosedOvers_sublist (closedOvers : List (List Value)) :
    (releaseClosedOvers (closedOvers.map fillMethod)).Sublist
    closedOvers.flatten := by
  induction closedOvers with
  | nil => exact List.Sublist.refl _
  | cons first rest inductionHypothesis =>
      simp only [releaseClosedOvers, List.map_cons, List.flatMap_cons,
        take_fillMethod, List.flatten_cons] at inductionHypothesis ⊢
      exact (List.take_sublist _ _).append inductionHypothesis

/-- Everything is released exactly when no count is truncated. -/
theorem length_releaseClosedOvers_eq_iff (closedOvers : List (List Value)) :
    (releaseClosedOvers (closedOvers.map fillMethod)).length =
    closedOvers.flatten.length ↔
      ∀ values ∈ closedOvers, values.length < 256 := by
  induction closedOvers with
  | nil => simp [releaseClosedOvers]
  | cons first rest inductionHypothesis =>
      have restShorter := (releaseClosedOvers_sublist rest).length_le
      simp only [releaseClosedOvers, List.map_cons, List.flatMap_cons,
        take_fillMethod, List.flatten_cons, List.length_append,
        List.length_take, List.forall_mem_cons]
        at inductionHypothesis restShorter ⊢
      rw [← inductionHypothesis]
      omega

/-- An object releases what it holds, value by value, exactly when no count is
truncated. -/
theorem count_released_eq_iff [DecidableEq Value] (once called : Bool)
    (closedOvers : List (List Value)) :
    (∀ value, (released (create once closedOvers) called).count value =
        closedOvers.flatten.count value) ↔
      ∀ values ∈ closedOvers, values.length < 256 := by
  rw [released_create, ← length_releaseClosedOvers_eq_iff]
  constructor
  · intro sameCounts
    exact (List.perm_iff_count.mpr sameCounts).length_eq
  · intro sameLength value
    rw [(releaseClosedOvers_sublist closedOvers).eq_of_length sameLength]

theorem closedOvers_create (once : Bool) (lists : List (List Value)) :
    closedOvers (create once lists) = lists.flatten := by
  simp [closedOvers, create, List.flatMap_map, fillMethod, List.flatMap_id']

end Function
end Runtime
end ClojureRt
