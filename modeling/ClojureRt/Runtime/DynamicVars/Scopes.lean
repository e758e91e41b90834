import ClojureRt.Runtime.DynamicVars.Rules
import Mathlib.Data.Set.Card

/-!
# Dynamic scopes

What the calls are for: a context is a finite function from Vars to values.
Binding makes a new context with more bindings, setting changes one binding of a
context, and a Var that a context does not bind has its root.

A map of bindings that is given to a call is known by what it contains, and a
new root by what its promotion finds.
-/

namespace ClojureRt
namespace Runtime
namespace DynamicVars

open PersistentArrayMap

/-- What a caller does. -/
inductive Operation
  | create (bindingsMap : Option Address)
  | retain (ctx : Nat)
  | release (ctx : Nat)
  | clone (ctx : Nat)
  | bind (ctx : Option Nat) (v val : RTValue)
  | bindMap (ctx : Option Nat) (bindingsMap : RTValue)
  | deref (ctx : Option Nat) (self : Address)
  | set (ctx : Option Nat) (self : Address) (value : RTValue)
  | bindRoot (self : Address) (object : RTValue) (view : SharedView)
  | unbindRoot (self : Address)
  | setDynamic (self : Address) (dynamic : Bool)

/-- What a caller gets. -/
inductive Outcome
  | done
  | context (ctx : Nat)
  | value (value : RTValue)
  | throws (exception : Exception)
  deriving DecidableEq

/-- The values of the bound Vars. -/
abbrev Bindings := Address → Option RTValue

/-- How many Vars are bound. -/
noncomputable def Bindings.size (bindings : Bindings) : Nat :=
  Set.ncard { v | bindings v ≠ none }

/-- A context, which has no bindings at all if its map is nil. -/
structure Scope where
  refCount : Nat
  bindings : Option Bindings

/-- A reference to a context is released. -/
def Scope.release (scope : Scope) : Option Scope :=
  if scope.refCount = 1 then none
  else some { scope with refCount := scope.refCount - 1 }

/-- All Vars and all contexts. -/
structure Scopes where
  vars : Address → Option Var
  contexts : List (Option Scope)

namespace Scopes

variable (scopes : Scopes)

/-- The bindings of a context, if there is one and its map is not nil. -/
def bindings? : Option Nat → Option Bindings
  | some ctx =>
      match scopes.contexts[ctx]? with
      | some (some scope) => scope.bindings
      | _ => none
  | none => none

/-- The bindings that a new context inherits. -/
def inherited (ctx : Option Nat) : Bindings :=
  (scopes.bindings? ctx).getD fun _ => none

/-- What becomes of bindings when a further one is added. -/
noncomputable def add (refusal : Exception) (bindings : Bindings)
    (entry : RTValue × RTValue) : Except Exception Bindings :=
  open scoped Classical in
  match entry.1 with
  | .word _ => .error refusal
  | .pointer v =>
      match scopes.vars v with
      | none => .error refusal
      | some var =>
          if var.dynamic then
            if bindings v = none ∧
              ArrayMap.hashtableThreshold ≤ bindings.size then
              .error (.ofMap tooLarge)
            else .ok (Function.update bindings v (some entry.2))
          else .error notDynamic

/-- The bindings of a map are added, in their order. -/
noncomputable def addAll (bindings : Bindings) : Option Entries →
    Except Exception Bindings
  | some entries => entries.foldlM (scopes.add notVarKey) bindings
  | none => .error notMap

/-- A new context -/
def create (bindings : Option Bindings) : Outcome × Scopes :=
  (.context scopes.contexts.length,
    { scopes with contexts := scopes.contexts ++ [some ⟨1, bindings⟩] })

/-- A new context, unless something is thrown. -/
def derive : Except Exception Bindings → Outcome × Scopes
  | .ok bindings => scopes.create (some bindings)
  | .error exception => (.throws exception, scopes)

/-- The value of a Var. -/
def valueIn (ctx : Option Nat) (self : Address) (var : Var) : RTValue :=
  if var.dynamic then (scopes.inherited ctx self).getD var.root else var.root

/-- What becomes of the bindings of a context when a Var is set. -/
def setIn (ctx : Option Nat) (self : Address) (value : RTValue) (var : Var) :
    Except Exception Bindings :=
  if var.dynamic then
    match scopes.bindings? ctx with
    | some bindings =>
        match bindings self with
        | some _ => .ok (Function.update bindings self (some value))
        | none => .error setUnbound
    | none => .error setOutside
  else .error setNotDynamic

/-- A context, if it is there, is replaced. -/
def replace (ctx : Nat) (change : Scope → Option Scope) : Scopes :=
  match scopes.contexts[ctx]? with
  | some (some scope) =>
      { scopes with contexts := scopes.contexts.set ctx (change scope) }
  | _ => scopes

/-- A Var, if it is there, gets other fields. -/
def write (self : Address) (change : Var → Var) : Scopes :=
  match scopes.vars self with
  | some var =>
      { scopes with
        vars := Function.update scopes.vars self (some (change var)) }
  | none => scopes

/-- A context and a copy of it, for a reference to it. -/
def clone (ctx : Nat) : Outcome × Scopes :=
  (scopes.replace ctx Scope.release).create (scopes.bindings? (some ctx))

/-- A Var is set, unless something is thrown. -/
def set (ctx : Option Nat) (value : RTValue) : Except Exception Bindings →
    Outcome × Scopes
  | .ok bindings =>
      (.value value, ctx.elim scopes fun ctx =>
        scopes.replace ctx fun scope =>
          some { scope with bindings := some bindings })
  | .error exception => (.throws exception, scopes)

/-- A Var gets another root, unless something is thrown. -/
def bindRoot (self : Address) (object : RTValue) : Except Exception Unit →
    Outcome × Scopes
  | .ok () =>
      (.value .boxNil, scopes.write self fun var => { var with root := object })
  | .error exception => (.throws exception, scopes)

/-- What a caller gets, and the scopes afterwards. -/
noncomputable def perform (contents : RTValue → Option Entries) :
    Operation → Outcome × Scopes
  | .create bindingsMap =>
      scopes.create
        (bindingsMap.map fun map =>
        valueFor ((contents (.pointer map)).getD []))
  | .retain ctx =>
      (.done, scopes.replace ctx fun scope =>
        some { scope with refCount := scope.refCount + 1 })
  | .release ctx => (.done, scopes.replace ctx Scope.release)
  | .clone ctx => scopes.clone ctx
  | .bind ctx v val =>
      scopes.derive (scopes.add notVar (scopes.inherited ctx) (v, val))
  | .bindMap ctx bindingsMap =>
      scopes.derive
        (scopes.addAll (scopes.inherited ctx) (contents bindingsMap))
  | .deref ctx self =>
      (((scopes.vars self).map fun var =>
        .value (scopes.valueIn ctx self var)).getD .done, scopes)
  | .set ctx self value =>
      ((scopes.vars self).map fun var =>
        scopes.set ctx value (scopes.setIn ctx self value var)).getD
          (.done, scopes)
  | .bindRoot self object view =>
      ((view.promoteToShared object).map fun promoted =>
        scopes.bindRoot self object promoted).getD (.done, scopes)
  | .unbindRoot self =>
      (.value .boxNil, scopes.write self fun var =>
        { var with root := .boxNull })
  | .setDynamic self dynamic =>
      (.done, scopes.write self fun var => { var with dynamic })

end Scopes

end DynamicVars
end Runtime
end ClojureRt
