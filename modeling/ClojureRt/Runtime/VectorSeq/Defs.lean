import ClojureRt.Runtime.Vector.Defs

/-!
# Sequences over vectors

A chunked seq is a position in a vector: an iterator with the block of the
position, the index in the block and the index in the vector.  A chunk is a
window into a block, and a reverse seq is an index that counts down.  They are
objects on the heap of their own and keep the vector alive; the vectors are
those of `Runtime.Vector`, which they only read.

An iterator that is advanced in place is written when it is complete, and what
an object refers to is retained before the object is allocated.  The sizes fit a
machine word, also with an `int32_t` added; the index into a chunk wraps around.
The reading operations have no result where the source throws for an index that
no caller here passes.
-/

open ClojureRt.Runtime.Vector (PersistentVector PersistentVectorNode wordSub)

namespace ClojureRt
namespace Runtime
namespace VectorSeq

open RefCount RefCount.Program
open Sharing (Address RTValue)

/-- A place in a vector: its index there, the block that it is in and its index
in the block. -/
structure PersistentVectorIterator where
  index : Nat
  blockIndex : Nat
  block : Option Address
  parent : Address
  deriving DecidableEq

/-- A vector and the index of the element that comes next. -/
structure PersistentVectorReverseSeq where
  v : Address
  index : BitVec 32
  deriving DecidableEq

/-- A block of a vector, from an index on. -/
structure ArrayChunk where
  node : Address
  offset : Nat
  deriving DecidableEq

/-- What is on the heap: seqs, chunks, and the objects of the vectors. -/
inductive Object
  | chunkedSeq (it : PersistentVectorIterator)
  | reverseSeq (seq : PersistentVectorReverseSeq)
  | arrayChunk (chunk : ArrayChunk)
  | runtime (object : Vector.Object)
  deriving DecidableEq

instance : Referencing Object where
  references
    | .chunkedSeq it => [it.parent]
    | .reverseSeq seq => [seq.v]
    | .arrayChunk chunk => [chunk.node]
    | .runtime object => Referencing.references object

/-- A heap with vectors, seqs and chunks. -/
abbrev SeqHeap := Heap Object

/-- Code of the runtime. -/
abbrev Code := Program Object

/-- `RT_boxNull` -/
def boxNull : RTValue := .immediate 1

/-- Addition of machine words. -/
def wordAdd (first second : Nat) : Nat :=
  (first + second) % 2 ^ 64

/-- An `int32_t` as a machine word. -/
def toWord (index : BitVec 32) : Nat :=
  (index.signExtend 64).toNat

/-! ## Access -/

/-- An object as the vector operations see it. -/
def plain (object : Object) : Vector.Object :=
  match object with
  | .runtime object => object
  | other => .other (Referencing.references other)

/-- The vectors on a heap. -/
def vectors (heap : SeqHeap) : Vector.VectorHeap where
  cells address := (heap.cells address).map fun cell =>
    ⟨cell.count, plain cell.object⟩
  next := heap.next
  bounded address beyond := by rw [heap.bounded address beyond, Option.map_none]

/-- Code for vectors that only reads. -/
def reading {Result : Type} (code : Vector.Code Result) : Code Result :=
  fun heap => (code (vectors heap)).map fun result => (result.1, heap)

/-- The vector at an address. -/
def loadVector (address : Address) : Code PersistentVector :=
  reading (Vector.loadVector address)

/-- The node at an address. -/
def loadNode (address : Address) : Code PersistentVectorNode :=
  reading (Vector.loadNode address)

/-- `PersistentVector_nthBlock` -/
def nthBlock (self : Address) (index : Nat) : Code (Option Address) :=
  reading (Vector.nthBlock self index)

/-- The chunked seq at an address. -/
def loadChunkedSeq (address : Address) : Code PersistentVectorIterator := do
  match ← load address with
  | .chunkedSeq it => pure it
  | _ => undefined

/-- The reverse seq at an address. -/
def loadReverseSeq (address : Address) : Code PersistentVectorReverseSeq := do
  match ← load address with
  | .reverseSeq seq => pure seq
  | _ => undefined

/-- The chunk at an address. -/
def loadArrayChunk (address : Address) : Code ArrayChunk := do
  match ← load address with
  | .arrayChunk chunk => pure chunk
  | _ => undefined

/-- The pointer in a field that must not be `NULL`. -/
def nonNull : Option Address → Code Address
  | some address => pure address
  | none => undefined

/-- The value in a slot below the count. -/
def slotValue (array : List RTValue) (slot : Nat) : Code RTValue :=
  match array[slot]? with
  | some value => pure value
  | none => undefined

/-- `retain` of the runtime. -/
def retainValue : RTValue → Code Unit
  | .pointer address => retain address
  | .immediate _ => pure ()

/-- `release` of the runtime. -/
def releaseValue : RTValue → Code Unit
  | .pointer address => release address
  | .immediate _ => pure ()

/-- `PersistentVector_nth`, for an index below the count. -/
def nth (self : Address) (index : Nat) : Code RTValue := do
  let vector ← loadVector self
  if vector.count ≤ index then undefined
  else do
    let value ← reading (Vector.element vector index)
    retainValue value
    release self
    pure value

/-! ## Iterators -/

/-- `PersistentVector_iterator` -/
def iterator (self : Address) : Code PersistentVectorIterator := do
  let vector ← loadVector self
  if 0 < vector.count then do
    let block ← nthBlock self 0
    pure ⟨0, 0, block, self⟩
  else pure ⟨0, 0, none, self⟩

/-- `PersistentVector_iteratorGet` -/
def iteratorGet (it : PersistentVectorIterator) : Code RTValue := do
  let block ← nonNull it.block
  let node ← loadNode block
  slotValue node.array it.blockIndex

/-- `PersistentVector_iteratorNext`, whose value no seq uses. -/
def iteratorNext (it : PersistentVectorIterator) :
    Code PersistentVectorIterator := do
  let block ← nonNull it.block
  let node ← loadNode block
  let advanced :=
    { it with blockIndex := it.blockIndex + 1, index := it.index + 1 }
  if advanced.blockIndex < node.array.length then pure advanced
  else do
    let parent ← loadVector it.parent
    if parent.count = advanced.index then pure advanced
    else do
      match ← nthBlock it.parent advanced.index with
      | none => pure advanced
      | some newBlock =>
          pure { advanced with blockIndex := 0, block := some newBlock }

/-! ## Chunks -/

namespace ArrayChunk

/-- `ArrayChunk_create` -/
def create (node : Address) (offset : Nat) : Code Address := do
  retain node
  allocate (.arrayChunk ⟨node, offset⟩)

/-- `ArrayChunk_nth` -/
def nth (self : Address) (i : BitVec 32) : Code
    (Except Vector.Exception RTValue) := do
  let chunk ← loadArrayChunk self
  let node ← loadNode chunk.node
  let idx := wordAdd chunk.offset (toWord i)
  if node.array.length ≤ idx then do
    let cnt := wordSub node.array.length chunk.offset
    release self
    pure (.error (.indexOutOfBounds (toWord i) cnt))
  else do
    let value ← slotValue node.array idx
    retainValue value
    release self
    pure (.ok value)

/-- `ArrayChunk_nth_default` -/
def nthDefault (self : Address) (i : BitVec 32) (notFound : RTValue) :
    Code RTValue := do
  let chunk ← loadArrayChunk self
  let node ← loadNode chunk.node
  let idx := wordAdd chunk.offset (toWord i)
  if node.array.length ≤ idx then do
    release self
    pure notFound
  else do
    let value ← slotValue node.array idx
    retainValue value
    releaseValue notFound
    release self
    pure value

/-- `ArrayChunk_count` -/
def count (self : Address) : Code (BitVec 32) := do
  let chunk ← loadArrayChunk self
  let node ← loadNode chunk.node
  release self
  pure (BitVec.ofNat 32 (wordSub node.array.length chunk.offset))

end ArrayChunk

/-- The text of a value, which is consumed. -/
def toString (text : RTValue → String) (value : RTValue) : Code String := do
  releaseValue value
  pure (text value)

/-- What stands before an element of a seq. -/
def separator (isFirst : Bool) : String :=
  if isFirst then "" else " "

/-! ## Chunked seqs -/

namespace ChunkedSeq

/-- `PersistentVectorChunkedSeq_create` -/
def create (it : PersistentVectorIterator) : Code Address := do
  retain it.parent
  allocate (.chunkedSeq it)

/-- The loop of `PersistentVectorChunkedSeq_toString`. -/
def toStringFrom (text : RTValue → String) :
    Nat → PersistentVectorIterator → Bool → String → Code String
  | 0, _, _, res => pure res
  | remaining + 1, it, isFirst, res => do
      let value ← iteratorGet it
      retainValue value
      let s ← VectorSeq.toString text value
      let it ← iteratorNext it
      toStringFrom text remaining it false (res ++ separator isFirst ++ s)

/-- `PersistentVectorChunkedSeq_toString` -/
def toString (text : RTValue → String) (self : Address) : Code String := do
  let it ← loadChunkedSeq self
  let parent ← loadVector it.parent
  let res ← toStringFrom text (parent.count - it.index) it true "("
  release self
  pure (res ++ ")")

/-- `PersistentVectorChunkedSeq_first` -/
def first (self : Address) : Code RTValue := do
  let it ← loadChunkedSeq self
  let parent ← loadVector it.parent
  if parent.count ≤ it.index then do
    release self
    pure .boxNil
  else do
    let value ← iteratorGet it
    retainValue value
    release self
    pure value

/-- A seq at another position: the seq itself, if it may be changed, or a new
one. -/
def moveTo (self : Address) (reusable : Bool) (it : PersistentVectorIterator) :
    Code RTValue :=
  if reusable then do
    store self (.chunkedSeq it)
    pure (.pointer self)
  else do
    let new ← create it
    release self
    pure (.pointer new)

/-- `PersistentVectorChunkedSeq_next` -/
def next (self : Address) : Code RTValue := do
  let it ← loadChunkedSeq self
  let reusable ← isReusable self
  let it ← iteratorNext it
  let parent ← loadVector it.parent
  if parent.count ≤ it.index then do
    release self
    pure .boxNil
  else moveTo self reusable it

/-- `PersistentVectorChunkedSeq_count` -/
def count (self : Address) : Code (BitVec 32) := do
  let it ← loadChunkedSeq self
  let parent ← loadVector it.parent
  release self
  pure (BitVec.ofNat 32 (wordSub parent.count it.index))

/-- `PersistentVectorChunkedSeq_chunkedFirst` -/
def chunkedFirst (self : Address) : Code RTValue := do
  let it ← loadChunkedSeq self
  let block ← nonNull it.block
  let chunk ← ArrayChunk.create block it.blockIndex
  release self
  pure (.pointer chunk)

/-- `PersistentVectorChunkedSeq_chunkedNext` -/
def chunkedNext (self : Address) : Code RTValue := do
  let it ← loadChunkedSeq self
  let reusable ← isReusable self
  let block ← nonNull it.block
  let node ← loadNode block
  let remainingInBlock := wordSub node.array.length it.blockIndex
  let index := it.index + remainingInBlock
  let parent ← loadVector it.parent
  if parent.count ≤ index then do
    release self
    pure .boxNil
  else do
    let block ← nthBlock it.parent index
    moveTo self reusable ⟨index, 0, block, it.parent⟩

/-- `PersistentVectorChunkedSeq_drop` -/
def drop (self : Address) (n : BitVec 32) : Code RTValue := do
  if n.toInt ≤ 0 then pure (.pointer self)
  else do
    let it ← loadChunkedSeq self
    let reusable ← isReusable self
    let index := it.index + toWord n
    let parent ← loadVector it.parent
    if parent.count ≤ index then do
      release self
      pure .boxNil
    else do
      let block ← nthBlock it.parent index
      moveTo self reusable ⟨index, index &&& 31, block, it.parent⟩

/-- Takes `first`, then `next`, until `next` is nil. -/
def enumerate : Nat → Address → Code (List RTValue)
  | 0, _ => undefined
  | fuel + 1, self => do
      retain self
      let value ← first self
      match ← next self with
      | .pointer rest => do
          let values ← enumerate fuel rest
          pure (value :: values)
      | .immediate _ => pure [value]

end ChunkedSeq

/-- `PersistentVector_seq` -/
def seq (self : Address) : Code RTValue := do
  let vector ← loadVector self
  if vector.count = 0 then do
    release self
    pure .boxNil
  else do
    let it ← iterator self
    let res ← ChunkedSeq.create it
    release self
    pure (.pointer res)

/-! ## Reverse seqs -/

namespace ReverseSeq

/-- `PersistentVectorReverseSeq_create` -/
def create (v : Address) (index : BitVec 32) : Code RTValue :=
  if index.toInt < 0 then pure .boxNil
  else do
    retain v
    let self ← allocate (.reverseSeq ⟨v, index⟩)
    pure (.pointer self)

/-- `PersistentVectorReverseSeq_first` -/
def first (self : Address) : Code RTValue := do
  let seq ← loadReverseSeq self
  retain seq.v
  let value ← nth seq.v (toWord seq.index)
  release self
  pure value

/-- `PersistentVectorReverseSeq_next` -/
def next (self : Address) : Code RTValue := do
  let seq ← loadReverseSeq self
  if seq.index.toInt ≤ 0 then do
    release self
    pure .boxNil
  else do
    let reusable ← isReusable self
    if reusable then do
      store self (.reverseSeq { seq with index := seq.index - 1 })
      pure (.pointer self)
    else do
      let res ← create seq.v (seq.index - 1)
      release self
      pure res

/-- `PersistentVectorReverseSeq_count` -/
def count (self : Address) : Code (BitVec 32) := do
  let seq ← loadReverseSeq self
  release self
  pure (seq.index + 1)

/-- The loop of `PersistentVectorReverseSeq_toString`, which ends below 0. -/
def toStringFrom (text : RTValue → String) (v : Address) :
    Nat → BitVec 32 → Bool → String → Code String
  | 0, _, _, res => pure res
  | remaining + 1, i, isFirst, res => do
      retain v
      let value ← nth v (toWord i)
      let s ← VectorSeq.toString text value
      toStringFrom text v remaining (i - 1) false
        (res ++ separator isFirst ++ s)

/-- `PersistentVectorReverseSeq_toString` -/
def toString (text : RTValue → String) (self : Address) : Code String := do
  let seq ← loadReverseSeq self
  let res ← toStringFrom text seq.v (seq.index.toInt + 1).toNat seq.index true "("
  release self
  pure (res ++ ")")

/-- Takes `first`, then `next`, until `next` is nil. -/
def enumerate : Nat → Address → Code (List RTValue)
  | 0, _ => undefined
  | fuel + 1, self => do
      retain self
      let value ← first self
      match ← next self with
      | .pointer rest => do
          let values ← enumerate fuel rest
          pure (value :: values)
      | .immediate _ => pure [value]

end ReverseSeq

/-- `PersistentVector_rseq` -/
def rseq (self : Address) : Code RTValue := do
  let vector ← loadVector self
  if vector.count = 0 then do
    release self
    pure .boxNil
  else do
    let res ← ReverseSeq.create self (BitVec.ofNat 32 (vector.count - 1))
    release self
    pure res

end VectorSeq
end Runtime
end ClojureRt
