import ClojureRt.Runtime.DynamicVars.Calls
import ClojureRt.Runtime.DynamicVars.Scopes

/-!
# Vars and contexts among other things

The caller stands for all threads and for whatever else runs.  Besides the calls
it does anything that transfers the references that it holds, and retired
references are released at some time.  References are lost where `RT_bind_map`
throws since a map has no room, and where `Var_bindRoot` throws since its
argument cannot be shared.
-/

namespace ClojureRt
namespace Runtime
namespace DynamicVars

open RefCount RefCount.Program PersistentArrayMap

/-- The references of contexts to their maps. -/
def mapReferences (contexts : List (Option ExecutionContext)) : List Address :=
  contexts.flatMap fun context => (bindingsOf context).toList

/-- The Vars, the contexts, and who else holds references. -/
structure Holdings where
  vars : Vars
  contexts : List (Option ExecutionContext)
  held : Multiset Address
  retired : Multiset Address
  lost : Multiset Address

/-- All references from outside the heap. -/
def Holdings.owned (holdings : Holdings) : Address → Int :=
  fun address => owns holdings.vars.references address +
    owns (mapReferences holdings.contexts) address + holdings.held.count
      address +
    holdings.retired.count address + holdings.lost.count address +
      own emptyArrayMap address

/-- A heap of maps, and who holds what of it. -/
structure World where
  heap : MapHeap
  holdings : Holdings

namespace World

/-- A context that is there. -/
def contextAt (world : World) (ctx : Nat) : Option ExecutionContext :=
  (world.holdings.contexts[ctx]?).join

/-- The context of a call, where `NULL` is none. -/
def context? (world : World) : Option Nat → Option (Option ExecutionContext)
  | some ctx => (world.contextAt ctx).map some
  | none => some none

/-- Code that takes references from the caller. -/
def consume
    {Result : Type}
    (world : World)
    (consumed : List Address)
    (code : Code Result)
    (finish : Result → Holdings → Outcome × Holdings) :
    Option (Outcome × World) :=
  if (consumed : Multiset Address) ≤ world.holdings.held then
    match code world.heap with
    | some (result, heap) =>
        let finished := finish result
          { world.holdings with held := world.holdings.held - consumed }
        some (finished.1, ⟨heap, finished.2⟩)
    | none => none
  else none

end World

namespace Holdings

variable (holdings : Holdings)

/-- A new context -/
def create (context : ExecutionContext) : Outcome × Holdings :=
  (.context holdings.contexts.length,
    { holdings with contexts := holdings.contexts ++ [some context] })

/-- What is left of a context -/
def replace (ctx : Nat) (left : Option ExecutionContext) : Holdings :=
  { holdings with contexts := holdings.contexts.set ctx left }

/-- The end of `RT_bind` -/
def derive : Except Exception ExecutionContext → Outcome × Holdings
  | .ok context => holdings.create context
  | .error exception => (.throws exception, holdings)

/-- The end of `RT_bind_map`, which does not release its argument if a map has
no room. -/
def deriveAll (bindingsMap : RTValue) : Except Exception ExecutionContext →
    Outcome × Holdings
  | .ok context => holdings.create context
  | .error (.ofMap exception) =>
      (.throws (.ofMap exception),
        { holdings with lost := holdings.lost + addresses bindingsMap })
  | .error exception => (.throws exception, holdings)

/-- The end of `Var_set` -/
def set (ctx : Option Nat) : Except Exception (RTValue × ExecutionContext) →
    Outcome × Holdings
  | .ok (value, context) =>
      (.value value,
        { holdings with
          contexts := ctx.elim holdings.contexts fun ctx =>
            holdings.contexts.set ctx (some context)
          held := holdings.held + addresses value })
  | .error exception => (.throws exception, holdings)

/-- The end of `Var_deref` -/
def give (value : RTValue) : Outcome × Holdings :=
  (.value value, { holdings with held := holdings.held + addresses value })

/-- The end of `Var_bindRoot` and `Var_unbindRoot` -/
def exchanged (self : Address) (result : Var × List Address) :
    Outcome × Holdings :=
  (.value .boxNil,
    { holdings with
      vars := holdings.vars.write self result.1
      retired := holdings.retired + result.2 })

/-- The end of `Var_bindRoot`, which releases nothing if its argument cannot be
shared. -/
def rebound
    (self : Address)
    (object : RTValue) : Except Exception (Var × List Address) →
    Outcome × Holdings
  | .ok result => holdings.exchanged self result
  | .error exception =>
      (.throws exception,
        { holdings with lost := holdings.lost + (self :: addresses object) })

end Holdings

namespace World

/-- A call with references that the caller holds.  There is no result where the
code uses an object that has been freed. -/
def perform (world : World) : Operation → Option (Outcome × World)
  | .create bindingsMap =>
      world.consume bindingsMap.toList (pure ()) fun _ holdings =>
        holdings.create (.create bindingsMap)
  | .retain ctx => do
      let context ← world.contextAt ctx
      some (.done,
        { world with
          holdings := world.holdings.replace ctx (some context.retain) })
  | .release ctx => do
      let context ← world.contextAt ctx
      world.consume [] context.release fun left holdings =>
        (.done, holdings.replace ctx left)
  | .clone ctx => do
      let context ← world.contextAt ctx
      world.consume [] context.clone fun result holdings =>
        (holdings.replace ctx result.2).create result.1
  | .bind ctx v val => do
      let context ← world.context? ctx
      world.consume (addresses v ++ addresses val)
        (bind world.holdings.vars context v val)
        fun result holdings => holdings.derive result
  | .bindMap ctx bindingsMap => do
      let context ← world.context? ctx
      world.consume (addresses bindingsMap)
        (bindMap world.holdings.vars context bindingsMap)
        fun result holdings => holdings.deriveAll bindingsMap result
  | .deref ctx self => do
      let context ← world.context? ctx
      let var ← world.holdings.vars.find self
      world.consume [self] (deref var context self) fun value holdings =>
        holdings.give value
  | .set ctx self value => do
      let context ← world.context? ctx
      let var ← world.holdings.vars.find self
      world.consume (addresses value ++ [self])
        (DynamicVars.set var context self value)
        fun result holdings => holdings.set ctx result
  | .bindRoot self object view => do
      let var ← world.holdings.vars.find self
      let promoted ← view.promoteToShared object
      world.consume (self :: addresses object)
        (bindRoot var self object promoted)
        fun result holdings => holdings.rebound self object result
  | .unbindRoot self => do
      let var ← world.holdings.vars.find self
      world.consume [self] (unbindRoot var self)
        fun result holdings => holdings.exchanged self result
  | .setDynamic self dynamic => do
      let var ← world.holdings.vars.find self
      some (.done,
        { world with
          holdings :=
            { world.holdings with vars := world.holdings.vars.write self { var with dynamic } } })

/-- The caller holds what the call takes, the context and the Var are there, a
context is created with a map of bindings, and what becomes a root can be read
by promotion, which sees the heap as it is. -/
def Allows (world : World) : Operation → Prop
  | .create bindingsMap =>
      (bindingsMap.toList : Multiset Address) ≤ world.holdings.held ∧
        ∃ entries, Shows world.heap (some (.create bindingsMap)) entries
  | .retain ctx | .release ctx | .clone ctx => world.contextAt ctx ≠ none
  | .bind ctx v val =>
      world.context? ctx ≠ none ∧
        ((addresses v ++ addresses val : List Address) : Multiset Address) ≤
        world.holdings.held
  | .bindMap ctx bindingsMap =>
      world.context? ctx ≠ none ∧
        (addresses bindingsMap : Multiset Address) ≤ world.holdings.held
  | .deref ctx self =>
      world.context? ctx ≠ none ∧ world.holdings.vars.find self ≠ none ∧
        (([self] : List Address) : Multiset Address) ≤ world.holdings.held
  | .set ctx self value =>
      world.context? ctx ≠ none ∧ world.holdings.vars.find self ≠ none ∧
        ((addresses value ++ [self] : List Address) : Multiset Address) ≤
        world.holdings.held
  | .bindRoot self object view =>
      world.holdings.vars.find self ≠ none ∧
        ((self :: addresses object : List Address) : Multiset Address) ≤
        world.holdings.held ∧
        view.Views world.heap ∧ view.promoteToShared object ≠ none
  | .unbindRoot self =>
      world.holdings.vars.find self ≠ none ∧
        (([self] : List Address) : Multiset Address) ≤ world.holdings.held
  | .setDynamic self _ => world.holdings.vars.find self ≠ none

/-- What else happens: the caller transfers references that it holds, or retired
ones are released. -/
inductive Other (before : World) : World → Prop
  | transfer (heap : MapHeap) (taken given : List Address)
      (isHeld : (taken : Multiset Address) ≤ before.holdings.held)
      (transfer : Transfer before.heap heap (owns taken) (owns given)) :
      Other before
        ⟨heap, { before.holdings with held := before.holdings.held - taken + given }⟩
  | reclaim (heap : MapHeap) (taken : List Address)
      (isRetired : (taken : Multiset Address) ≤ before.holdings.retired)
      (transfer : Transfer before.heap heap (owns taken) 0) :
      Other before
        ⟨heap, { before.holdings with retired := before.holdings.retired - taken }⟩

/-- A call that meets a condition, or something else. -/
inductive Step (condition : Operation → Outcome → Prop)
    (before : World) : World → Prop
  | call (operation : Operation) (outcome : Outcome) (after : World)
      (meets : condition operation outcome)
      (allowed : before.Allows operation)
      (result : before.perform operation = some (outcome, after)) :
      Step condition before after
  | other (after : World) (happens : before.Other after) :
      Step condition before after

/-- There are Vars and no contexts yet, and all references are accounted for. -/
structure Initial (world : World) : Prop where
  noContexts : world.holdings.contexts = []
  noneLost : world.holdings.lost = 0
  excess : ∀ address, world.heap.excess address = world.holdings.owned address
  empty : world.heap.object? emptyArrayMap = some (.map ⟨[], .boxNil⟩)

/-- The worlds that calls which meet a condition lead to, whatever else
happens. -/
abbrev Reaches (condition : Operation → Outcome → Prop) : World → Prop :=
  TransitionSystem.Reachable Initial (Step condition)

/-! ## Scopes -/

/-- What a value contains if it points to a map. -/
def contents (heap : MapHeap) (value : RTValue) : Option Entries :=
  (mapAt heap value).map ArrayMap.entries

/-- The scope that a context stands for. -/
def scopeOf (heap : MapHeap) (context : ExecutionContext) : Scope where
  refCount := context.refCount
  bindings := context.bindingsMap.map fun map =>
    valueFor ((contents heap (.pointer map)).getD [])

/-- What the calls show of the Vars and the contexts. -/
def scopes (world : World) : Scopes where
  vars := world.holdings.vars.find
  contexts := world.holdings.contexts.map (Option.map (scopeOf world.heap))

end World

end DynamicVars
end Runtime
end ClojureRt
