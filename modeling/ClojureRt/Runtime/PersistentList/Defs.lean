import ClojureRt.Lib.Since
import ClojureRt.Runtime.Sharing

/-!
# Persistent lists

A list is a cell with its first value and a link to the rest.  Every list ends
in a cell without a value, in general the one that all lists share,
`EMPTY_LIST`.  The operations consume one reference to the list.

`reverse` turns the links of a chain around in place, outside of the reference
counts, and numbers the cells anew.  The loops along a chain have more fuel than
there are addresses. An object that the source allocates and then fills is
allocated with its fields, and where the source releases a field just before it
writes it, the field is written first.
-/

namespace ClojureRt
namespace Runtime
namespace PersistentList

open RefCount RefCount.Program
open Sharing (Address RTValue)

/-- `RT_boxNull`, the mark of a lack of value. -/
def boxNull : RTValue := .immediate 1

/-- `PersistentList`. -/
structure Cell where
  first : RTValue
  rest : Option Address
  count : BitVec 32
  metadata : RTValue
  deriving DecidableEq

/-- What is on the heap: lists, and objects that are only counted here. -/
inductive Object
  | list (cell : Cell)
  | other (references : List Address)
  deriving DecidableEq

/-- The address in a value, if it is a pointer. -/
def addresses : RTValue → List Address
  | .pointer address => [address]
  | .immediate _ => []

instance : Referencing Object where
  references
    | .list cell =>
        cell.rest.toList ++ addresses cell.first ++ addresses cell.metadata
    | .other references => references

/-- A heap with the cells of lists and other objects. -/
abbrev ListHeap := Heap Object

/-- Code of the runtime. -/
abbrev Code := Program Object

/-- `EMPTY_LIST` -/
def emptyList : Address := 0

/-- The cell that `PersistentList_initialise` makes. -/
def emptyCell : Cell := ⟨boxNull, none, 0, .boxNil⟩

/-- The heap after `PersistentList_initialise`. -/
def initialHeap : ListHeap :=
  Heap.empty.set emptyList (some ⟨1, .list emptyCell⟩)

/-! ## Access -/

/-- The cell at an address. -/
def loadList (address : Address) : Code Cell := do
  match ← load address with
  | .list cell => pure cell
  | .other _ => undefined

/-- `retain` of the runtime. -/
def retainValue : RTValue → Code Unit
  | .pointer address => retain address
  | .immediate _ => pure ()

/-- `release` of the runtime. -/
def releaseValue : RTValue → Code Unit
  | .pointer address => release address
  | .immediate _ => pure ()

/-- `if (pointer) Ptr_retain(pointer)` -/
def retainPointer : Option Address → Code Unit
  | some address => retain address
  | none => pure ()

/-- A loop over a chain: there are no more cells than addresses. -/
def alongChain {Result : Type} (loop : Nat → Code Result) : Code Result :=
  fun heap => loop (heap.next + 1) heap

/-! ## Construction -/

/-- `PersistentList_empty` -/
def empty : Code Address := do
  retain emptyList
  pure emptyList

/-- The count of the rest, which may be `NULL`. -/
def countOfRest : Option Address → Code (BitVec 32)
  | some address => do
      let cell ← loadList address
      pure cell.count
  | none => pure 0

/-- `PersistentList_create` -/
def create (first : RTValue) (rest : Option Address) : Code Address := do
  let count ← countOfRest rest
  allocate (.list ⟨first, rest, count + (if first = boxNull then 0 else 1),
    .boxNil⟩)

/-- `PersistentList_conj` -/
def conj (self : Address) (other : RTValue) : Code Address :=
  create other (some self)

/-- A list with some values added one after the other. -/
def conjAll (self : Address) : List RTValue → Code Address
  | [] => pure self
  | value :: values => do
      let next ← conj self value
      conjAll next values

/-- `PersistentList_fromArray`, whose loop runs down from the last argument. -/
def fromArray (args : List RTValue) : Code Address := do
  let list ← empty
  conjAll list args.reverse

/-- The first loop of `reverse`. -/
def reverseLinks : Nat → (current prev : Option Address) → Code (Option Address)
  | _, none, prev => pure prev
  | 0, some _, _ => undefined
  | fuel + 1, some current, prev => do
      let cell ← loadList current
      store current (.list { cell with rest := prev })
      reverseLinks fuel cell.rest (some current)

/-- The second loop of `reverse`. -/
def renumber : Nat → (temp : Option Address) → (runningCount : Nat) → Code Unit
  | _, none, _ => pure ()
  | 0, some _, _ => undefined
  | fuel + 1, some temp, runningCount => do
      let cell ← loadList temp
      store temp (.list { cell with count := BitVec.ofNat 32 runningCount })
      renumber fuel cell.rest (runningCount + 1)

/-- `reverse` -/
def reverse (self : Address) : Code Address := do
  let prev ← alongChain fun fuel => reverseLinks fuel (some self) none
  alongChain fun fuel => renumber fuel prev 0
  match prev with
  | some result => pure result
  | none => undefined

/-- `PersistentList_createMany` -/
def createMany (args : List RTValue) : Code Address := do
  let list ← empty
  let list ← conjAll list args
  reverse list

/-! ## Access to a list -/

/-- `PersistentList_first` -/
def first (self : Address) : Code RTValue := do
  let cell ← loadList self
  if cell.first = boxNull then do
    release self
    pure boxNull
  else do
    retainValue cell.first
    release self
    pure cell.first

/-- `PersistentList_next` -/
def next (self : Address) : Code RTValue := do
  let cell ← loadList self
  match cell.rest with
  | none => do
      release self
      pure .boxNil
  | some next => do
      retain next
      release self
      pure (.pointer next)

/-- `PersistentList_pop` -/
def pop (self : Address) : Code Address := do
  let cell ← loadList self
  match cell.rest with
  | none => do
      release self
      empty
  | some next => do
      retain next
      release self
      pure next

/-- `PersistentList_identity` -/
def identity (self : Address) : Code Address :=
  pure self

/-- What `more` of `clojure.lang.ISeq` is bound to. -/
def more (self : Address) : Code Address :=
  identity self

/-- `PersistentList_count` -/
def count (self : Address) : Code (BitVec 32) := do
  let cell ← loadList self
  release self
  pure cell.count

/-- `PersistentList_withMeta` -/
def withMeta (self : Address) (metadata : RTValue) : Code Address := do
  let cell ← loadList self
  let reusable ← isReusable self
  if reusable then do
    store self (.list { cell with metadata })
    releaseValue cell.metadata
    pure self
  else do
    retainValue cell.first
    retainPointer cell.rest
    let new ← allocate (.list { cell with metadata })
    release self
    pure new

/-- `PersistentList_getMeta` -/
def getMeta (self : Address) : Code RTValue := do
  let cell ← loadList self
  retainValue cell.metadata
  release self
  pure cell.metadata

/-! ## Enumeration -/

/-- Takes `first`, then `next`, until `next` is nil. -/
def enumerate : Nat → Address → Code (List RTValue)
  | 0, _ => undefined
  | fuel + 1, self => do
      retain self
      let value ← first self
      match ← next self with
      | .pointer rest => do
          let values ← enumerate fuel rest
          pure (value :: values)
      | .immediate _ => pure [value]

end PersistentList
end Runtime
end ClojureRt
