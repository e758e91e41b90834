import ClojureRt.Lib.RefCount
import ClojureRt.Runtime.Sharing

/-!
# Persistent vectors

A vector is a header that refers to a trie of nodes, 32 wide, and to a leaf
outside of it, the tail.  The operations consume one reference to the vector and
reuse the header and the nodes in place where they may.  A transient id of 0
stands for a persistent vector or node.

The array of a node is as long as its count.  A level is a multiple of five and
is given by its height; the sizes fit a machine word.  An object that the source
allocates and then fills is allocated with its fields, and where the source
releases a field just before it writes it, the field is written first: no
release reads it.  `SHARED_BIT` plays no part here.
-/

namespace ClojureRt
namespace Runtime
namespace Vector

open RefCount RefCount.Program
open Sharing (Address RTValue NodeType)

/-- The header of a vector. -/
structure PersistentVector where
  count : Nat
  shift : Nat
  transientID : Nat
  tail : Option Address
  root : Option Address
  metadata : RTValue
  deriving DecidableEq

/-- A node of the trie, or a tail. -/
structure PersistentVectorNode where
  type : NodeType
  transientID : Nat
  array : List RTValue
  deriving DecidableEq

/-- What is on the heap: vectors, their nodes, and objects that are only counted
here. -/
inductive Object
  | vector (vector : PersistentVector)
  | node (node : PersistentVectorNode)
  | other (references : List Address)
  deriving DecidableEq

/-- The address in a value, if it is a pointer. -/
def addresses : RTValue → List Address
  | .pointer address => [address]
  | .immediate _ => []

instance : Referencing Object where
  references
    | .vector vector =>
        vector.root.toList ++ vector.tail.toList ++ addresses vector.metadata
    | .node node => node.array.flatMap addresses
    | .other references => references

/-- A heap with headers, nodes and other objects. -/
abbrev VectorHeap := Heap Object

/-- Code of the runtime. -/
abbrev Code := Program Object

/-- The exceptions of the vector operations. -/
inductive Exception
  | indexOutOfBounds (index count : Nat)
  | illegalState (message : String)
  deriving DecidableEq

/-- Subtraction of machine words. -/
def wordSub (first second : Nat) : Nat :=
  if second ≤ first then first - second else 2 ^ 64 + first - second

/-- The slot at a height on the way to an index. -/
def levelIndex (index height : Nat) : Nat :=
  (index >>> (5 * height)) &&& 31

/-! ## Access -/

/-- The header at an address. -/
def loadVector (address : Address) : Code PersistentVector := do
  match ← load address with
  | .vector vector => pure vector
  | _ => undefined

/-- The node at an address. -/
def loadNode (address : Address) : Code PersistentVectorNode := do
  match ← load address with
  | .node node => pure node
  | _ => undefined

/-- The pointer in a field that must not be `NULL`. -/
def nonNull : Option Address → Code Address
  | some address => pure address
  | none => undefined

/-- `RT_unboxPtr` on an entry of an inner node. -/
def unboxPtr : Option RTValue → Code Address
  | some (.pointer address) => pure address
  | _ => undefined

/-- `retain` of the runtime. -/
def retainValue : RTValue → Code Unit
  | .pointer address => retain address
  | .immediate _ => pure ()

/-- `release` of the runtime. -/
def releaseValue : RTValue → Code Unit
  | .pointer address => release address
  | .immediate _ => pure ()

/-- `retain` for each value. -/
def retainValues : List RTValue → Code Unit
  | [] => pure ()
  | value :: values => do
      retainValue value
      retainValues values

/-- `if (pointer) Ptr_retain(pointer)` -/
def retainPointer : Option Address → Code Unit
  | some address => retain address
  | none => pure ()

/-- `if (pointer) Ptr_release(pointer)` -/
def releasePointer : Option Address → Code Unit
  | some address => release address
  | none => pure ()

/-- A release that depends on a test. -/
def releaseWhen (condition : Bool) (pointer : Option Address) : Code Unit :=
  if condition then releasePointer pointer else pure ()

/-! ## Nodes -/

/-- The test of `replacePath` and `pushTail` for a node they may change in
place. -/
def reusesNode
    (self : Address)
    (node : PersistentVectorNode)
    (allowsReuse : Bool)
    (vectorTransientID : Nat) :
    Code Bool :=
  if allowsReuse then do
    let reusable ← isReusable self
    pure (reusable || node.transientID == vectorTransientID)
  else pure false

/-- The entry that `replacePath` puts in its slot: the new element in a leaf,
the new child in an inner node. -/
def replaceEntry
    (type : NodeType)
    (old other : RTValue)
    (replaceChild : Address → Code Address) :
    Code RTValue :=
  match type with
  | .leafNode => pure other
  | .internalNode => do
      let child ← unboxPtr (some old)
      let newChild ← replaceChild child
      pure (.pointer newChild)

/-- The old element of a leaf is released; an inner node keeps its child's
reference. -/
def releaseReplaced (type : NodeType) (old : RTValue) : Code Unit :=
  match type with
  | .leafNode => releaseValue old
  | .internalNode => pure ()

/-- One level of `replacePath`.  The copied node keeps the transient id of the
old one. -/
def replaceNode
    (slot : Nat)
    (self : Address)
    (other : RTValue)
    (allowsReuse : Bool)
    (vectorTransientID : Nat)
    (replaceChild : Bool → Address → Code Address) :
    Code Address := do
  let node ← loadNode self
  let reusable ← reusesNode self node allowsReuse vectorTransientID
  match node.array[slot]? with
  | none =>
      -- the loop over the entries does not come to the slot
      if reusable then pure self
      else do
        retainValues node.array
        allocate (.node node)
  | some old =>
      if reusable then do
        let entry ← replaceEntry node.type old other (replaceChild true)
        store self (.node { node with array := node.array.set slot entry })
        releaseReplaced node.type old
        pure self
      else do
        retainValues (node.array.take slot)
        let entry ← replaceEntry node.type old other (replaceChild false)
        retainValues (node.array.drop (slot + 1))
        allocate (.node { node with array := node.array.set slot entry })

/-- `PersistentVectorNode_replacePath`. -/
def replacePath : Nat → Address → Nat → RTValue → Bool → Nat → Code Address
  | 0, self, index, other, allowsReuse, vectorTransientID =>
      replaceNode (levelIndex index 0) self other allowsReuse vectorTransientID
        fun _ _ => undefined
  | height + 1, self, index, other, allowsReuse, vectorTransientID =>
      replaceNode (levelIndex index (height + 1)) self other allowsReuse
        vectorTransientID
        fun reusable child =>
          replacePath height child index other reusable vectorTransientID

/-- The end of `pushTail` in an inner node: what was pushed below is put in its
place. -/
def attachSubtree
    (isRoot : Bool)
    (self : Address)
    (node : PersistentVectorNode)
    (reusable : Bool)
    (vectorTransientID : Nat)
    (pushed : Address × Bool) :
    Code (Address × Bool) :=
  if pushed.2 then
    let array := node.array.dropLast ++ [.pointer pushed.1]
    if reusable then do
      let last ← unboxPtr node.array.getLast?
      store self (.node { node with array })
      release last
      pure (self, true)
    else do
      retainValues node.array.dropLast
      let new ← allocate (.node { node with array })
      release self
      pure (new, true)
  else if node.array.length < 32 then do
    retainValues node.array
    let new ← allocate
      (.node { node with array := node.array ++ [.pointer pushed.1] })
    release self
    pure (new, true)
  else if isRoot then do
    let newDown ← allocate
      (.node ⟨.internalNode, vectorTransientID, [.pointer pushed.1]⟩)
    let new ← allocate
      (.node ⟨.internalNode, vectorTransientID,
        [.pointer self, .pointer newDown]⟩)
    pure (new, false)
  else do
    let new ← allocate
      (.node ⟨.internalNode, vectorTransientID, [.pointer pushed.1]⟩)
    release self
    pure (new, false)

/-- One level of `pushTail`. -/
def pushInto
    (isRoot : Bool)
    (self tailToPush : Address)
    (allowsReuse : Bool)
    (vectorTransientID : Nat)
    (pushBelow : PersistentVectorNode → Bool → Code (Address × Bool)) :
    Code (Address × Bool) := do
  let node ← loadNode self
  match node.type with
  | .leafNode => do
      let new ← allocate
        (.node ⟨.internalNode, vectorTransientID,
          [.pointer self, .pointer tailToPush]⟩)
      pure (new, false)
  | .internalNode => do
      let reusable ← reusesNode self node allowsReuse vectorTransientID
      let pushed ← pushBelow node reusable
      attachSubtree isRoot self node reusable vectorTransientID pushed

/-- `PersistentVectorNode_pushTail`: the new node and `*copied`.  At the lowest
inner level there is no entry to go down to. -/
def pushTail : Nat → Bool → Option Address → Address → Bool → Nat → Code
    (Address × Bool)
  | _, _, none, tailToPush, _, _ => pure (tailToPush, false)
  | height + 2, isRoot, some self, tailToPush, allowsReuse, vectorTransientID =>
      pushInto isRoot self tailToPush allowsReuse vectorTransientID
        fun node reusable => do
        let entry ← unboxPtr node.array.getLast?
        retain entry
        pushTail (height + 1) false (some entry) tailToPush reusable
          vectorTransientID
  | _, isRoot, some self, tailToPush, allowsReuse, vectorTransientID =>
      pushInto isRoot self tailToPush allowsReuse vectorTransientID fun _ _ =>
        pure (tailToPush, false)

/-- The test of `popTail`, which does not take two ids of 0 for the same. -/
def popsNode
    (self : Address)
    (node : PersistentVectorNode)
    (allowsReuse : Bool)
    (vectorTransientID : Nat) :
    Code Bool :=
  if allowsReuse then do
    let reusable ← isReusable self
    pure (reusable ||
      (node.transientID != 0 && node.transientID == vectorTransientID))
  else pure false

/-- The end of `popTail` in a node that is changed in place. -/
def popInPlace
    (self lastChild : Address)
    (node : PersistentVectorNode)
    (popped : Option Address × Address) :
    Code (Option Address × Address) :=
  match popped.1 with
  | some newSubtree => do
      store self
        (.node { node with array := node.array.dropLast ++ [.pointer
        newSubtree] })
      releaseWhen (newSubtree != lastChild) (some lastChild)
      pure (some self, popped.2)
  | none => do
      store self (.node { node with array := node.array.dropLast })
      release lastChild
      pure (if node.array.dropLast.isEmpty then none else some self, popped.2)

/-- The end of `popTail` in a node that is copied. -/
def popCopy
    (node : PersistentVectorNode)
    (vectorTransientID : Nat)
    (popped : Option Address × Address) :
    Code (Option Address × Address) := do
  retainValues node.array.dropLast
  match popped.1 with
  | some newSubtree => do
      let newTree ← allocate
        (.node { node with
          transientID := vectorTransientID,
          array := node.array.dropLast ++ [.pointer newSubtree] })
      pure (some newTree, popped.2)
  | none => do
      let newTree ← allocate
        (.node { node with transientID := vectorTransientID, array := node.array.dropLast })
      if node.array.dropLast.isEmpty then do
        release newTree
        pure (none, popped.2)
      else pure (some newTree, popped.2)

/-- One level of `popTail`. -/
def popNode
    (self : Address)
    (allowsReuse : Bool)
    (vectorTransientID : Nat)
    (popBelow : Bool → Address → Code (Option Address × Address)) :
    Code (Option Address × Address) := do
  let node ← loadNode self
  match node.type with
  | .leafNode => do
      retain self
      pure (none, self)
  | .internalNode => do
      let reusable ← popsNode self node allowsReuse vectorTransientID
      let lastChild ← unboxPtr node.array.getLast?
      let popped ← popBelow reusable lastChild
      if reusable then popInPlace self lastChild node popped
      else popCopy node vectorTransientID popped

/-- `PersistentVectorNode_popTail`: the new node, if one is left, and
`*poppedLeaf`. -/
def popTail : Nat → Address → Bool → Nat → Code (Option Address × Address)
  | 0, self, allowsReuse, vectorTransientID =>
      popNode self allowsReuse vectorTransientID fun _ _ => undefined
  | height + 1, self, allowsReuse, vectorTransientID =>
      popNode self allowsReuse vectorTransientID fun reusable child =>
        popTail height child reusable vectorTransientID

/-! ## Vectors -/

/-- Whether an operation changes the header in place. -/
def reusesHeader (self : Address) (vector : PersistentVector) : Code Bool := do
  let reusable ← isReusable self
  pure (reusable || vector.transientID != 0)

/-- `conj` with room in the tail. -/
def conjTail
    (self : Address)
    (vector : PersistentVector)
    (oldTail : Address)
    (tail : PersistentVectorNode)
    (reusable : Bool)
    (other : RTValue) :
    Code Address :=
  if reusable then do
    store oldTail (.node { tail with array := tail.array ++ [other] })
    store self (.vector { vector with count := vector.count + 1 })
    pure self
  else do
    retainPointer vector.root
    retainValues tail.array
    let newTail ← allocate
      (.node { tail with transientID := vector.transientID, array := tail.array ++ [other] })
    let new ← allocate
      (.vector { vector with count := vector.count + 1, tail := some newTail })
    release self
    pure new

/-- The shift after a tail was pushed. -/
def pushedShift (vector : PersistentVector) (copied : Bool) : Nat :=
  if !copied && vector.root.isSome then vector.shift + 5 else vector.shift

/-- `conj` with a full tail.  While the tail is pushed a header that is changed
in place has no root: its reference to the old one is handed on. -/
def conjPush
    (self : Address)
    (vector : PersistentVector)
    (oldTail : Address)
    (reusable : Bool)
    (other : RTValue) :
    Code Address := do
  let newTail ← allocate (.node ⟨.leafNode, vector.transientID, [other]⟩)
  let header := { vector with count := vector.count + 1, tail := some newTail }
  if reusable then do
    store self (.vector { header with root := none })
    let pushed ← pushTail (vector.shift / 5) true vector.root oldTail true
      vector.transientID
    store self (.vector
      { header with root := some pushed.1, shift := pushedShift vector pushed.2 })
    pure self
  else do
    retain oldTail
    retainPointer vector.root
    let pushed ← pushTail (vector.shift / 5) true vector.root oldTail false
      vector.transientID
    let new ← allocate (.vector
      { header with root := some pushed.1, shift := pushedShift vector pushed.2 })
    release self
    pure new

/-- `PersistentVector_conj_internal`. -/
def conjInternal (self : Address) (other : RTValue) : Code Address := do
  let vector ← loadVector self
  let reusable ← reusesHeader self vector
  let oldTail ← nonNull vector.tail
  let tail ← loadNode oldTail
  if tail.array.length < 32 then
    conjTail self vector oldTail tail reusable other
  else conjPush self vector oldTail reusable other

/-- The test of `assoc` and `pop` for a tail they may change in place. -/
def reusesTail
    (vector : PersistentVector)
    (reusable : Bool)
    (tail : Address)
    (node : PersistentVectorNode) :
    Code Bool :=
  let sameTransient :=
    vector.transientID != 0 && vector.transientID == node.transientID
  if reusable then do
    let tailReusable ← isReusable tail
    pure (tailReusable || sameTransient)
  else pure sameTransient

/-- The tail of `assoc` when the index is in it. -/
def replaceInTail
    (vector : PersistentVector)
    (oldTail : Address)
    (tail : PersistentVectorNode)
    (tailReusable : Bool)
    (slot : Nat)
    (other : RTValue) :
    Code Address :=
  match tail.array[slot]? with
  | none => undefined
  | some old =>
      if tailReusable then do
        store oldTail (.node { tail with array := tail.array.set slot other })
        releaseValue old
        pure oldTail
      else do
        retainValues (tail.array.take slot)
        retainValues (tail.array.drop (slot + 1))
        allocate (.node { tail with
          transientID := vector.transientID, array :=
            tail.array.set slot other })

/-- `assoc` at an index in the tail.  A header that is changed in place does not
release the tail it had. -/
def assocTail
    (self : Address)
    (vector : PersistentVector)
    (oldTail : Address)
    (tail : PersistentVectorNode)
    (reusable : Bool)
    (slot : Nat)
    (other : RTValue) :
    Code Address := do
  let tailReusable ← reusesTail vector reusable oldTail tail
  let newTail ← replaceInTail vector oldTail tail tailReusable slot other
  if reusable then do
    store self (.vector { vector with tail := some newTail })
    pure self
  else do
    retainPointer vector.root
    let new ← allocate (.vector { vector with tail := some newTail })
    release self
    pure new

/-- `assoc` at an index in the trie. -/
def assocTrie
    (self : Address)
    (vector : PersistentVector)
    (oldTail : Address)
    (reusable : Bool)
    (index : Nat)
    (other : RTValue) :
    Code Address := do
  let root ← nonNull vector.root
  let newRoot ← replacePath (vector.shift / 5) root index other reusable
    vector.transientID
  if reusable then do
    store self (.vector { vector with root := some newRoot })
    pure self
  else do
    retain oldTail
    let new ← allocate (.vector { vector with root := some newRoot })
    release self
    pure new

/-- `PersistentVector_assoc_internal`. -/
def assocInternal (self : Address) (index : Nat) (other : RTValue) :
    Code (Except Exception Address) := do
  let vector ← loadVector self
  if vector.count < index then do
    release self
    releaseValue other
    pure (.error (.indexOutOfBounds index vector.count))
  else if index = vector.count then do
    let new ← conjInternal self other
    pure (.ok new)
  else do
    let oldTail ← nonNull vector.tail
    let tail ← loadNode oldTail
    let tailOffset := wordSub vector.count tail.array.length
    let reusable ← reusesHeader self vector
    if tailOffset ≤ index then do
      let new ← assocTail self vector oldTail tail reusable
        (index - tailOffset) other
      pure (.ok new)
    else do
      let new ← assocTrie self vector oldTail reusable index other
      pure (.ok new)

/-- `pop` with more than one element in the tail.  Where the header is copied
the tail is copied too. -/
def popFromTail
    (self : Address)
    (vector : PersistentVector)
    (oldTail : Address)
    (tail : PersistentVectorNode)
    (reusable : Bool) :
    Code Address := do
  let tailReusable ← reusesTail vector reusable oldTail tail
  let popped := Object.node
    { tail with transientID := vector.transientID, array := tail.array.dropLast }
  if reusable then
    if tailReusable then do
      store oldTail popped
      releaseValue (tail.array.getLastD .boxNil)
      store self (.vector { vector with count := vector.count - 1 })
      pure self
    else do
      retainValues tail.array.dropLast
      let newTail ← allocate popped
      store self
        (.vector { vector with count := vector.count - 1, tail := some newTail })
      release oldTail
      pure self
  else do
    retainPointer vector.root
    retainValues tail.array.dropLast
    let newTail ← allocate popped
    let new ← allocate
      (.vector { vector with count := vector.count - 1, tail := some newTail })
    release self
    pure new

/-- The child that takes the place of a root it is the only child of. -/
def reduceNodeTree (vector : PersistentVector) (newRoot : Option Address) :
    Code (Option Address) :=
  match newRoot with
  | none => pure none
  | some root => do
      let node ← loadNode root
      if 0 < vector.shift ∧ node.array.length = 1 then do
        let child ← unboxPtr node.array.head?
        retain child
        releaseWhen (newRoot != vector.root) newRoot
        pure (some child)
      else pure none

/-- The header after a leaf was popped from the trie. -/
def poppedHeader
    (vector : PersistentVector)
    (newTail : Address)
    (newRoot onlyChild : Option Address) :
    PersistentVector :=
  match onlyChild with
  | some child =>
      { vector with
        count := vector.count - 1, tail := some newTail, root := some child,
        shift := vector.shift - 5 }
  | none =>
      { vector with count := vector.count - 1, tail := some newTail, root := newRoot }

/-- The end of `pop` when the last leaf of the trie has become the tail. -/
def popHeader
    (self : Address)
    (vector : PersistentVector)
    (oldTail : Address)
    (reusable : Bool)
    (newTail : Address)
    (newRoot : Option Address) :
    Code Address := do
  let onlyChild ← reduceNodeTree vector newRoot
  let header := poppedHeader vector newTail newRoot onlyChild
  if reusable then do
    store self (.vector header)
    release oldTail
    releaseWhen (onlyChild.isSome || newRoot != vector.root) vector.root
    pure self
  else do
    let new ← allocate (.vector header)
    release self
    pure new

/-- The leaf that becomes the tail of `pop`, and what is left of the trie. -/
def popTrie (vector : PersistentVector) (reusable : Bool) :
    Code (Option Address × Address) :=
  match vector.root with
  | some root => popTail (vector.shift / 5) root reusable vector.transientID
  | none => do
      let newTail ← allocate (.node ⟨.leafNode, vector.transientID, []⟩)
      pure (none, newTail)

/-- `PersistentVector_pop_internal`. -/
def popInternal (self : Address) : Code (Except Exception Address) := do
  let vector ← loadVector self
  if vector.count = 0 then do
    release self
    pure (.error (.illegalState "Can't pop empty vector"))
  else do
    let reusable ← reusesHeader self vector
    let oldTail ← nonNull vector.tail
    let tail ← loadNode oldTail
    if 1 < tail.array.length then do
      let new ← popFromTail self vector oldTail tail reusable
      pure (.ok new)
    else do
      let popped ← popTrie vector reusable
      let new ← popHeader self vector oldTail reusable popped.2 popped.1
      pure (.ok new)

/-- `persistent!` makes the header it leaves behind persistent as well. -/
def sealHeader (self : Address) (vector : PersistentVector)
    (transientID : Nat) : Code Unit :=
  if transientID = 0 then store self (.vector { vector with transientID := 0 })
  else pure ()

/-- `PersistentVector_copy_root`.  The copied tail keeps the transient id of the
old one. -/
def copyRoot (self : Address) (transientID : Nat) : Code Address := do
  let vector ← loadVector self
  retainPointer vector.root
  let oldTail ← nonNull vector.tail
  let tail ← loadNode oldTail
  retainValues tail.array
  let newTail ← allocate (.node tail)
  retainValue vector.metadata
  let new ← allocate (.vector { vector with transientID, tail := some newTail })
  sealHeader self vector transientID
  release self
  pure new

/-- `PersistentVector_withMeta`. -/
def withMeta (self : Address) (metadata : RTValue) : Code Address := do
  let vector ← loadVector self
  let reusable ← isReusable self
  if reusable then do
    store self (.vector { vector with metadata })
    releaseValue vector.metadata
    pure self
  else do
    let new ← copyRoot self 0
    let copied ← loadVector new
    store new (.vector { copied with metadata })
    releaseValue copied.metadata
    pure new

/-- `PersistentVector_transient`, with a new id. -/
def transient (self : Address) (transientID : Nat) : Code Address :=
  copyRoot self transientID

/-- `PersistentVector_persistent_BANG_`. -/
def persistentBang (self : Address) : Code Address :=
  copyRoot self 0

/-- The values from a variadic argument, appended one after the other. -/
def conjMany : Address → List RTValue → Code Address
  | self, [] => pure self
  | self, value :: values => do
      let new ← conjInternal self value
      conjMany new values

/-- `PersistentVector_createMany`. -/
def createMany (objects : List RTValue) : Code Address := do
  let tail ← allocate (.node ⟨.leafNode, 0, objects.take 32⟩)
  let vector ← allocate
    (.vector ⟨(objects.take 32).length, 0, 0, some tail, none, .boxNil⟩)
  conjMany vector (objects.drop 32)

/-! ## Reading -/

/-- The walk from the root to the leaf of an index. -/
def descend : Nat → Address → Nat → Code Address
  | 0, node, _ => pure node
  | height + 1, node, index => do
      let current ← loadNode node
      let child ← unboxPtr current.array[levelIndex index (height + 1)]?
      descend height child index

/-- `PersistentVector_nthBlock`. -/
def nthBlock (self : Address) (index : Nat) : Code (Option Address) := do
  let vector ← loadVector self
  if vector.count ≤ index then pure none
  else
    let oldTail ← nonNull vector.tail
    let tail ← loadNode oldTail
    if wordSub vector.count tail.array.length ≤ index then pure (some oldTail)
    else
      let root ← nonNull vector.root
      let block ← descend (vector.shift / 5) root index
      pure (some block)

/-- The element that `nth` and `nth_default` read at an index below the
count. -/
def element (vector : PersistentVector) (index : Nat) : Code RTValue := do
  let oldTail ← nonNull vector.tail
  let tail ← loadNode oldTail
  let tailOffset := wordSub vector.count tail.array.length
  if tailOffset ≤ index then
    match tail.array[index - tailOffset]? with
    | some value => pure value
    | none => undefined
  else
    let root ← nonNull vector.root
    let block ← descend (vector.shift / 5) root index
    let leaf ← loadNode block
    match leaf.array[index &&& 31]? with
    | some value => pure value
    | none => undefined

/-- `PersistentVector_nth`. -/
def nth (self : Address) (index : Nat) : Code (Except Exception RTValue) := do
  let vector ← loadVector self
  if vector.count ≤ index then
    release self
    pure (.error (.indexOutOfBounds index vector.count))
  else
    let value ← element vector index
    retainValue value
    release self
    pure (.ok value)

/-! ## The empty vector -/

/-- `EMPTY_VECTOR`. -/
def emptyVector : Address := 1

/-- The heap after `PersistentVector_initialise`. -/
def initialHeap : VectorHeap :=
  (Heap.empty.set 0 (some ⟨1, .node ⟨.leafNode, 0, []⟩⟩)).set 1
    (some ⟨1, .vector ⟨0, 0, 0, some 0, none, .boxNil⟩⟩)

/-- `PersistentVector_create`. -/
def create : Code Address := do
  retain emptyVector
  pure emptyVector

end Vector
end Runtime
end ClojureRt
