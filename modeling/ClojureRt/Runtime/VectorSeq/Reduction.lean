import ClojureRt.Lib.Calls
import ClojureRt.Runtime.VectorSeq.Rules

/-!
# Reduction of vectors

`PersistentVector_reduce` goes through the trie and then the tail.  A node that
it has the only way to is taken apart: a leaf hands its elements on, and an
inner node those children that nobody else holds.  From other nodes the elements
are retained.  The seqs go from block to block and retain every element.

The calls of the reducing function are parameters; a reduction delivers the
result and what was passed, in order.  What the runtime passes here is
`invokeMethodWithFrame` of the method's implementation.  A field that is emptied
after a reduction of what was in it is emptied before: nobody else can see it.
-/

open ClojureRt.Runtime.Vector
  (PersistentVector PersistentVectorNode Subtrie Trie Layout Lays IsTail
    addresses wordSub refs refs_pointer refs_immediate refs_nonneg refsAll
    refsAll_nil refsAll_cons refsAll_nonneg pointer_mem_references)

namespace ClojureRt
namespace Runtime
namespace VectorSeq

open RefCount RefCount.Program
open Sharing (Address RTValue NodeType)

/-- The result of a reduction, and the elements passed to the function. -/
abbrev Reduction := RTValue × List RTValue

/-- `RT_invokeMethodWithFrame` with two arguments.  The implementation of the
method is given as a function of the arguments that the frame is filled with. -/
def invokeMethodWithFrame (impl : RTValue → RTValue → Code RTValue) :
    RTValue → RTValue → Code RTValue :=
  callAndRelease releaseValue impl

section Defs

variable (invoke : RTValue → RTValue → Code RTValue)

/-- Passes what is in some slots of a node that others hold. -/
def reduceSlots (node : Address) : List Nat → RTValue → Code Reduction
  | [], acc => pure (acc, [])
  | slot :: slots, acc => do
      let source ← loadNode node
      let value ← slotValue source.array slot
      retainValue value
      let acc ← invoke acc value
      let rest ← reduceSlots node slots acc
      pure (rest.1, value :: rest.2)

/-- Passes values that were taken out of a node. -/
def reduceValues : List RTValue → RTValue → Code Reduction
  | [], acc => pure (acc, [])
  | value :: values, acc => do
      let acc ← invoke acc value
      let rest ← reduceValues values acc
      pure (rest.1, value :: rest.2)

/-- A leaf, of which the elements are taken or retained. -/
def reduceLeaf
    (self : Address)
    (node : PersistentVectorNode)
    (reusable : Bool)
    (acc : RTValue) :
    Code Reduction :=
  if reusable then do
    store self (.runtime (.node { node with array := [] }))
    let reduction ← reduceValues invoke node.array acc
    release self
    pure reduction
  else reduceSlots invoke self (List.range node.array.length) acc

/-- Whether what is below something may be taken. -/
def reusableBelow (reusable : Bool) (address : Address) : Code Bool :=
  if reusable then isReusable address else pure false

/-- An object is written if a condition holds. -/
def storeWhen (condition : Bool) (address : Address)
    (object : Object) : Code Unit :=
  if condition then store address object else pure ()

/-- An object is released if a condition holds. -/
def releaseWhen (condition : Bool) (address : Address) : Code Unit :=
  if condition then release address else pure ()

/-- `RT_unboxPtr` -/
def unboxPtr : RTValue → Code Address
  | .pointer address => pure address
  | .immediate _ => undefined

/-- The loop over the children of an inner node. -/
def reduceChildren
    (reduceChild : Bool → Address → RTValue → Code Reduction)
    (self : Address)
    (reusable : Bool) :
    List Nat → RTValue → Code Reduction
  | [], acc => pure (acc, [])
  | slot :: slots, acc => do
      let node ← loadNode self
      let entry ← slotValue node.array slot
      let child ← unboxPtr entry
      let childReusable ← reusableBelow reusable child
      storeWhen childReusable self
        (.runtime (.node { node with array := node.array.set slot boxNull }))
      let first ← reduceChild childReusable child acc
      let rest ← reduceChildren reduceChild self reusable slots first.1
      pure (rest.1, first.2 ++ rest.2)

/-- One level of `PersistentVectorNode_reduce`. -/
def reduceNode
    (reduceChild : Bool → Address → RTValue → Code Reduction)
    (reusable : Bool)
    (self : Address)
    (acc : RTValue) :
    Code Reduction := do
  let node ← loadNode self
  match node.type with
  | .leafNode => reduceLeaf invoke self node reusable acc
  | .internalNode => do
      let reduction ←
        reduceChildren reduceChild self reusable
          (List.range node.array.length) acc
      releaseWhen reusable self
      pure reduction

/-- `PersistentVectorNode_reduce` -/
def nodeReduce : Nat → Bool → Address → RTValue → Code Reduction
  | 0 => reduceNode invoke fun _ _ _ => undefined
  | height + 1 => reduceNode invoke (nodeReduce height)

/-- The trie of a vector. -/
def reduceRoot (self : Address) (reusable : Bool)
    (acc : RTValue) : Code Reduction := do
  let vector ← loadVector self
  match vector.root with
  | none => pure (acc, [])
  | some root => do
      let rootReusable ← reusableBelow reusable root
      storeWhen rootReusable self
        (.runtime (.vector { vector with root := none }))
      nodeReduce invoke (vector.shift / 5) rootReusable root acc

/-- The tail of a vector. -/
def reduceTail (self : Address) (reusable : Bool)
    (acc : RTValue) : Code Reduction := do
  let vector ← loadVector self
  match vector.tail with
  | none => pure (acc, [])
  | some tail => do
      let tailReusable ← reusableBelow reusable tail
      let node ← loadNode tail
      storeWhen tailReusable self
        (.runtime (.vector { vector with tail := none }))
      reduceLeaf invoke tail node tailReusable acc

/-- `PersistentVector_reduce` -/
def reduce (self : Address) (f start : RTValue) : Code Reduction := do
  let reusable ← isReusable self
  let first ← reduceRoot invoke self reusable start
  let rest ← reduceTail invoke self reusable first.1
  release self
  releaseValue f
  pure (rest.1, first.2 ++ rest.2)

/-- The count of a tail, which may be `NULL`. -/
def tailCount (tail : Option Address) : Code Nat :=
  match tail with
  | none => pure 0
  | some tail => do
      let node ← loadNode tail
      pure node.array.length

namespace ChunkedSeq

/-- The blocks of the trie from an index on. -/
def reduceBlocks (v : Address) (tailStart : Nat) : Nat → Nat → RTValue →
    Code Reduction
  | 0, _, acc => pure (acc, [])
  | fuel + 1, i, acc =>
      if i < tailStart then do
        let block ← nthBlock v i
        let node ← nonNull block
        let blockEnd := (i - (i &&& 31)) + 32
        let limit := if blockEnd < tailStart then blockEnd else tailStart
        let slots := (List.range' i (limit - i)).map (· &&& 31)
        let first ← reduceSlots invoke node slots acc
        let rest ← reduceBlocks v tailStart fuel limit first.1
        pure (rest.1, first.2 ++ rest.2)
      else pure (acc, [])

/-- The elements of the tail from an index on. -/
def reduceTail
    (v : PersistentVector)
    (tailStart startIdx : Nat)
    (acc : RTValue) :
    Code Reduction :=
  if startIdx < v.count then do
    let tailIdx := if startIdx < tailStart then 0 else startIdx - tailStart
    let tail ← nonNull v.tail
    let node ← loadNode tail
    reduceSlots invoke tail
      (List.range' tailIdx (node.array.length - tailIdx)) acc
  else pure (acc, [])

/-- `PersistentVectorChunkedSeq_reduce` -/
def reduce (self : Address) (f start : RTValue) : Code Reduction := do
  let it ← loadChunkedSeq self
  let v ← loadVector it.parent
  let tailCount ← tailCount v.tail
  let tailStart := wordSub v.count tailCount
  let first ← reduceBlocks invoke it.parent tailStart (tailStart - it.index)
    it.index start
  let rest ← reduceTail invoke v tailStart it.index first.1
  release self
  releaseValue f
  pure (rest.1, first.2 ++ rest.2)

/-- `PersistentVectorChunkedSeq_reduce2`; the call without arguments is a
parameter, too.  The iterator is advanced in the seq itself. -/
def reduce2 (invokeDynamic : Code RTValue) (self : Address)
    (f : RTValue) : Code Reduction := do
  let it ← loadChunkedSeq self
  let parent ← loadVector it.parent
  if parent.count ≤ it.index then do
    release self
    let result ← invokeDynamic
    pure (result, [])
  else do
    let first ← iteratorGet it
    retainValue first
    let it ← iteratorNext it
    store self (.chunkedSeq it)
    if parent.count ≤ it.index then do
      release self
      releaseValue f
      pure (first, [])
    else reduce invoke self f first

end ChunkedSeq

/-- The iterator of `PersistentVector_reduce2`, at the second element. -/
def secondPosition (self : Address) : Code PersistentVectorIterator := do
  let it ← iterator self
  let block ← nonNull it.block
  let node ← loadNode block
  if it.blockIndex < wordSub node.array.length 1 then
    pure { it with index := 1, blockIndex := it.blockIndex + 1 }
  else do
    let block ← nthBlock self 1
    pure { it with index := 1, block := block, blockIndex := 0 }

/-- `PersistentVector_reduce2` -/
def reduce2 (invokeDynamic : Code RTValue) (self : Address)
    (f : RTValue) : Code Reduction := do
  let vector ← loadVector self
  if vector.count = 0 then do
    release self
    let result ← invokeDynamic
    pure (result, [])
  else do
    retain self
    let first ← nth self 0
    if vector.count = 1 then do
      release self
      releaseValue f
      pure (first, [])
    else do
      let it ← secondPosition self
      let seq ← ChunkedSeq.create it
      release self
      ChunkedSeq.reduce invoke seq f first

end Defs

end VectorSeq
end Runtime
end ClojureRt
