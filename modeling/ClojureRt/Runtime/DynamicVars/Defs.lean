import ClojureRt.Lib.Transfer
import ClojureRt.Runtime.PersistentArrayMap.Refinement
import ClojureRt.Runtime.Sharing

/-!
# Dynamic Vars

`Var_deref` first looks into the map of bindings of the execution context, which
`RT_bind` and `RT_bind_map` extend for a new context, and `Var_set` for the same
one.  The map is an array map, so it is changed in place if nobody else refers
to it.

The fields of Vars and contexts are kept beside the heap; whatever else they
refer to is on the heap and counted there.  A Var is interned: its namespace
keeps a reference to it.  Vars are compared by their addresses.  The bits that
`promoteToShared` sets are not kept, so a map may be changed in place here where
a shared one is copied; that it may throw is.  The field `rev` is left out, and
a call is one step.
-/

namespace ClojureRt
namespace Runtime
namespace DynamicVars

open RefCount RefCount.Program PersistentArrayMap

/-! ## Vars and contexts -/

/-- The fields of a `Var` that are read here. -/
structure Var where
  dynamic : Bool
  root : RTValue
  deriving DecidableEq

/-- An `ExecutionContext`, whose map of bindings is nil or an array map. -/
structure ExecutionContext where
  refCount : Nat
  bindingsMap : Option Address
  deriving DecidableEq

/-- The vars by their addresses. -/
abbrev Vars := List (Address × Var)

namespace Vars

/-- The var at an address. -/
def find (vars : Vars) (address : Address) : Option Var :=
  AssocList.get (fun first second => decide (first = second)) address vars

/-- The vars with one of them written. -/
def write (vars : Vars) (address : Address) (var : Var) : Vars :=
  AssocList.assoc (fun first second => decide (first = second)) address var vars

/-- The Var that a value points to. -/
def ofValue (vars : Vars) : RTValue → Option Var
  | .pointer address => vars.find address
  | .word _ => none

/-- The references of the namespaces to their Vars, and of the Vars to their
roots. -/
def references (vars : Vars) : List Address :=
  vars.flatMap fun entry => entry.1 :: addresses entry.2.root

end Vars

/-- What the operations throw. -/
inductive Exception
  | illegalArgument (message : String)
  | illegalState (message : String)
  | ofMap (exception : PersistentArrayMap.Exception)
  deriving DecidableEq

/-- What is not a Var cannot be bound. -/
def notVar : Exception :=
  .illegalArgument "First argument to RT_bind must be a Var"

/-- What is not a map of bindings cannot be bound. -/
def notMap : Exception :=
  .illegalArgument "Second argument to RT_bind_map must be a PersistentArrayMap"

/-- A map of bindings has other keys. -/
def notVarKey : Exception :=
  .illegalArgument "Binding keys must be Vars"

/-- The exception of a binding for a var that is not dynamic. -/
def notDynamic : Exception :=
  .illegalState "Can't dynamically bind non-dynamic Var"

/-- The exception of `set!` for a var that is not dynamic. -/
def setNotDynamic : Exception :=
  .illegalState "Can't set! a non-dynamic Var"

/-- The exception of `set!` without a binding in this thread. -/
def setOutside : Exception :=
  .illegalState "Can't set! dynamic Var outside of a binding context"

/-- The exception of `set!` for a var that this thread has not bound. -/
def setUnbound : Exception :=
  .illegalState "Can't set!: Var has no thread-local binding"

/-! ## Contexts -/

namespace ExecutionContext

/-- `ExecutionContext_create` -/
def create (bindingsMap : Option Address) : ExecutionContext :=
  ⟨1, bindingsMap⟩

/-- `Ptr_retain` -/
def retain (self : ExecutionContext) : ExecutionContext :=
  { self with refCount := self.refCount + 1 }

/-- `Ptr_release`, which leaves nothing of a context with one reference after
`ExecutionContext_destroy`. -/
def release (self : ExecutionContext) : Code (Option ExecutionContext) :=
  if self.refCount = 1 then
    match self.bindingsMap with
    | some bindingsMap => do
        Program.release bindingsMap
        pure none
    | none => pure none
  else
    pure (some { self with refCount := self.refCount - 1 })

/-- `ExecutionContext_clone`, which gives the new context and what is left of
the old one. -/
def clone (self : ExecutionContext) : Code
    (ExecutionContext × Option ExecutionContext) :=
  match self.bindingsMap with
  | some map => do
      Program.retain map
      let left ← self.release
      pure (create (some map), left)
  | none => do
      let left ← self.release
      pure (create none, left)

end ExecutionContext

/-- The map of a context that is there and whose map is not nil. -/
def bindingsOf (ctx : Option ExecutionContext) : Option Address :=
  match ctx with
  | some context => context.bindingsMap
  | none => none

/-! ## Bindings -/

/-- The map that new bindings are added to. -/
def currentMap (ctx : Option ExecutionContext) : Code Address :=
  match bindingsOf ctx with
  | some currentMap => do
      retain currentMap
      pure currentMap
  | none => empty

/-- `RT_bind` -/
def bind (vars : Vars) (ctx : Option ExecutionContext) (v val : RTValue) :
    Code (Except Exception ExecutionContext) :=
  match vars.ofValue v with
  | none => do
      releaseValue v
      releaseValue val
      pure (.error notVar)
  | some var =>
      if var.dynamic then do
        let currentMap ← currentMap ctx
        let nextMap ← assoc sameWord currentMap v val
        match nextMap with
        | .ok nextMap => pure (.ok (.create (some nextMap)))
        | .error exception => pure (.error (.ofMap exception))
      else do
        releaseValue v
        releaseValue val
        pure (.error notDynamic)

/-- The loop of `RT_bind_map` over the entries that remain, from an index on. -/
def bindEach (vars : Vars) (bindingsMap : Address) :
    Nat → Nat → Address → Code (Except Exception Address)
  | 0, _, currentMap => pure (.ok currentMap)
  | remaining + 1, i, currentMap => do
      let newBindings ← loadMap bindingsMap
      let (v, val) ← entryAt newBindings.entries i
      match vars.ofValue v with
      | none => do
          release currentMap
          release bindingsMap
          pure (.error notVarKey)
      | some var =>
          if var.dynamic then do
            retainValue v
            retainValue val
            let nextMap ← assoc sameWord currentMap v val
            match nextMap with
            | .ok nextMap => bindEach vars bindingsMap remaining (i + 1) nextMap
            | .error exception => pure (.error (.ofMap exception))
          else do
            release currentMap
            release bindingsMap
            pure (.error notDynamic)

/-- The array map that a value points to. -/
def mapOf : RTValue → Code (Option Address)
  | .pointer address => do
      match ← load address with
      | .map _ => pure (some address)
      | .other _ _ => pure none
  | .word _ => pure none

/-- `RT_bind_map` -/
def bindMap (vars : Vars) (ctx : Option ExecutionContext)
    (bindingsMap : RTValue) :
    Code (Except Exception ExecutionContext) := do
  match ← mapOf bindingsMap with
  | none => do
      releaseValue bindingsMap
      pure (.error notMap)
  | some map => do
      let currentMap ← currentMap ctx
      let newBindings ← loadMap map
      let bound ← bindEach vars map newBindings.entries.length 0 currentMap
      match bound with
      | .ok nextMap => do
          release map
          pure (.ok (.create (some nextMap)))
      | .error exception => pure (.error exception)

/-! ## Promotion -/

/-- The value as promotion sees it. -/
def toSharing : RTValue → Sharing.RTValue
  | .pointer address => .pointer address
  | .word bits => .immediate bits.toNat

/-- What promotion finds: the objects by their types, and the counts with the
bit of those that are shared.  `Sharing.promoteToShared_ne_outOfFuel` says how
much fuel is enough. -/
structure SharedView where
  heap : Sharing.Heap
  fuel : Nat

namespace SharedView

variable (view : SharedView)

/-- `promoteToShared`, with what it throws.  There is no result where the fuel
runs out or what is read has been freed. -/
def promoteToShared (object : RTValue) : Option (Except Exception Unit) :=
  match Sharing.promoteToShared view.fuel (toSharing object) view.heap with
  | .returned _ => some (.ok ())
  | .thrown message _ => some (.error (.illegalState message))
  | .undefined => none
  | .outOfFuel => none

/-- The counts are those of the heap, and its maps are seen as they are. -/
structure Views (heap : MapHeap) : Prop where
  counts : ∀ address cell, heap.cells address = some cell →
    view.heap.rawRefCount address / 2 = cell.count
  maps : ∀ address entries metadata,
    heap.object? address = some (.map ⟨entries, metadata⟩) →
      view.heap.objects address =
        .persistentArrayMap
          (entries.map fun entry => (toSharing entry.1, toSharing entry.2))
          (toSharing metadata)

/-- The view of a heap with nothing shared, where it is said what is no map. -/
def unshared (heap : MapHeap) (others : Address → Sharing.Object)
    (fuel : Nat) : SharedView where
  heap :=
    { objects := fun address =>
        match heap.object? address with
        | some (.map map) =>
            .persistentArrayMap
              (map.entries.map fun entry =>
                (toSharing entry.1, toSharing entry.2))
              (toSharing map.metadata)
        | _ => others address
      rawRefCount := fun address => 2 * heap.count address }
  fuel := fuel

theorem unshared_views (heap : MapHeap) (others : Address → Sharing.Object)
    (fuel : Nat) :
    (unshared heap others fuel).Views heap where
  counts := by
    intro address cell isCell
    have isCount : heap.count address = cell.count := by
      rw [Heap.count, isCell]
      rfl
    change 2 * heap.count address / 2 = cell.count
    rw [isCount, Nat.mul_div_cancel_left _ Nat.two_pos]
  maps := by
    intro address entries metadata isMap
    simp only [unshared, isMap]

end SharedView

/-! ## Vars -/

/-- The value that a context binds a Var to. -/
def threadBinding (ctx : Option ExecutionContext) (self : Address) : Code
    (Option RTValue) :=
  match bindingsOf ctx with
  | some bindingsMap => do
      let m ← loadMap bindingsMap
      searchValue sameWord (.pointer self) m.entries
  | none => pure none

/-- `Var_deref` -/
def deref (var : Var) (ctx : Option ExecutionContext)
    (self : Address) : Code RTValue := do
  let found ← (if var.dynamic then threadBinding ctx self else pure none)
  let val := found.getD var.root
  retainValue val
  release self
  pure val

/-- `Var_set`, which gives the value and the context with its new map. -/
def set (var : Var) (ctx : Option ExecutionContext) (self : Address)
    (value : RTValue) :
    Code (Except Exception (RTValue × ExecutionContext)) :=
  if var.dynamic then
    match ctx with
    | some ⟨refCount, some m⟩ => do
        retain m
        retain self
        let found ← indexOf sameWord m (.pointer self)
        match found with
        | none => do
            releaseValue value
            release self
            pure (.error setUnbound)
        | some _ => do
            retainValue value
            retain self
            retain m
            let bindingsMap ← assoc sameWord m (.pointer self) value
            match bindingsMap with
            | .ok bindingsMap => do
                release m
                release self
                pure (.ok (value, ⟨refCount, some bindingsMap⟩))
            | .error exception => pure (.error (.ofMap exception))
    | _ => do
        releaseValue value
        release self
        pure (.error setOutside)
  else do
    releaseValue value
    release self
    pure (.error setNotDynamic)

/-- The exchange of `Var_bindRoot` and `Var_unbindRoot`, which gives the new
fields and what is retired. -/
def exchangeRoot (var : Var) (self : Address) (root : RTValue) :
    Code (Var × List Address) := do
  release self
  pure ({ var with root }, addresses var.root)

/-- `Var_bindRoot`.  Nothing is exchanged or released if `promoteToShared`
throws. -/
def bindRoot
    (var : Var)
    (self : Address)
    (object : RTValue)
    (promoted : Except Exception Unit) :
    Code (Except Exception (Var × List Address)) :=
  match promoted with
  | .ok () => do
      let exchanged ← exchangeRoot var self object
      pure (.ok exchanged)
  | .error exception => pure (.error exception)

/-- `Var_unbindRoot` -/
def unbindRoot (var : Var) (self : Address) : Code (Var × List Address) :=
  exchangeRoot var self .boxNull

end DynamicVars
end Runtime
end ClojureRt
