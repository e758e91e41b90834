import ClojureRt.Runtime.Vector.Operations

/-!
# Transient ids

The id of a node is set when it is allocated, but a node that is copied keeps
the id of the one it was copied from, and `persistent!` gives a new id to the
header only.  So a node that was stamped with the id of a transient vector stays
so.

Stamping happens when `conj!` finds a full tail, when `assoc!` copies the tail
and in a `pop!` that shortens the tail or copies a node.  Without these steps
all nodes have the id 0.
-/

namespace ClojureRt
namespace Runtime
namespace Vector

open RefCount RefCount.Program
open Sharing (Address RTValue NodeType)

/-- The vector at an address, if there is one, has an id. -/
def HeaderID (heap : VectorHeap) (address : Address)
    (transientID : Nat) : Prop :=
  ∀ vector, heap.object? address = some (.vector vector) →
    vector.transientID = transientID

/-- A node has the id 0, and a header that had it in the heap `base` has it
still. -/
def Object.Unstamped (base : VectorHeap) (address : Address) : Object → Prop
  | .node stored => stored.transientID = 0
  | .vector stored =>
      address < base.next → HeaderID base address 0 → stored.transientID = 0
  | .other _ => True

/-- All nodes have the id 0, and no header has got an id since the heap
`base`. -/
structure AllUnstamped (base heap : VectorHeap) : Prop where
  all : heap.All (Object.Unstamped base)
  next_le : base.next ≤ heap.next

/-- A node has the id 0. -/
theorem AllUnstamped.node
    {base heap : VectorHeap}
    (unstamped : AllUnstamped base heap)
    {address : Address}
    {stored : PersistentVectorNode}
    (found : heap.object? address = some (.node stored)) :
    stored.transientID = 0 :=
  unstamped.all address (.node stored) found

/-! ## The parts of the operations -/

section Parts

variable {base heap : VectorHeap}

/-- The node is read, and nothing changes. -/
theorem ensures_loadNode
    {address : Address}
    {post : PersistentVectorNode → VectorHeap → Prop}
    (holds : ∀ node, heap.object? address = some (.node node) →
      post node heap) :
    Ensures (loadNode address) heap post := by
  unfold loadNode
  apply Ensures.bind
  apply Ensures.load
  intro object found
  cases object with
  | node node => exact Ensures.pure (holds node found)
  | _ => exact Ensures.undefined

/-- The header is read, and nothing changes. -/
theorem ensures_loadVector
    {address : Address}
    {post : PersistentVector → VectorHeap → Prop}
    (holds : ∀ vector, heap.object? address = some (.vector vector) →
      post vector heap) :
    Ensures (loadVector address) heap post := by
  unfold loadVector
  apply Ensures.bind
  apply Ensures.load
  intro object found
  cases object with
  | vector vector => exact Ensures.pure (holds vector found)
  | _ => exact Ensures.undefined

/-- The pointer is not null. -/
theorem ensures_nonNull
    {pointer : Option Address}
    {post : Address → VectorHeap → Prop}
    (holds : ∀ address, pointer = some address → post address heap) :
    Ensures (nonNull pointer) heap post := by
  cases pointer with
  | none => exact Ensures.undefined
  | some address => exact Ensures.pure (holds address rfl)

/-- The value is a pointer. -/
theorem ensures_unboxPtr
    {value : Option RTValue}
    {post : Address → VectorHeap → Prop}
    (holds : ∀ address, value = some (.pointer address) → post address heap) :
    Ensures (unboxPtr value) heap post := by
  unfold unboxPtr
  split
  · next address => exact Ensures.pure (holds address rfl)
  · exact Ensures.undefined

/-- A reference more changes no object. -/
theorem unstamped_retain
    (all : AllUnstamped base heap)
    {address : Address}
    {post : Unit → VectorHeap → Prop}
    (holds : ∀ after, AllUnstamped base after → after.object? = heap.object? →
      post () after) :
    Ensures (Program.retain address) heap post := by
  apply Ensures.retain all.all
  intro after afterAll larger same
  exact holds after ⟨afterAll, all.next_le.trans larger⟩ same

/-- What is left after a release was there before. -/
theorem unstamped_release
    (all : AllUnstamped base heap)
    {address : Address}
    {post : Unit → VectorHeap → Prop}
    (holds : ∀ after, AllUnstamped base after →
      (∀ other object, after.object? other = some object →
        heap.object? other = some object) ∧
        heap.next ≤ after.next →
      post () after) :
    Ensures (Program.release address) heap post := by
  apply Ensures.release all.all
  intro after afterAll larger kept
  exact holds after ⟨afterAll, all.next_le.trans larger⟩ ⟨kept, larger⟩

/-- Counting changes no object. -/
theorem unstamped_retainValues
    (values : List RTValue)
    (all : AllUnstamped base heap)
    {post : Unit → VectorHeap → Prop}
    (holds : ∀ after, AllUnstamped base after → after.object? = heap.object? →
      post () after) :
    Ensures (retainValues values) heap post := by
  induction values generalizing heap with
  | nil => exact Ensures.pure (holds heap all rfl)
  | cons value values inductionHypothesis =>
      unfold retainValues
      apply Ensures.bind
      cases value with
      | immediate word => exact Ensures.pure (inductionHypothesis all holds)
      | pointer address =>
          change Ensures (Program.retain address) heap _
          apply unstamped_retain all
          intro middle middleAll same
          apply inductionHypothesis middleAll
          intro after afterAll sameAfter
          exact holds after afterAll (sameAfter.trans same)

/-- A reference more changes no object. -/
theorem unstamped_retainValue
    (value : RTValue)
    (all : AllUnstamped base heap)
    {post : Unit → VectorHeap → Prop}
    (holds : ∀ after, AllUnstamped base after → post () after) :
    Ensures (retainValue value) heap post := by
  cases value with
  | immediate word => exact Ensures.pure (holds heap all)
  | pointer address =>
      exact unstamped_retain all fun after afterAll _ => holds after afterAll

/-- A reference more changes no object. -/
theorem unstamped_retainPointer
    (pointer : Option Address)
    (all : AllUnstamped base heap)
    {post : Unit → VectorHeap → Prop}
    (holds : ∀ after, AllUnstamped base after → after.object? = heap.object? →
      post () after) :
    Ensures (retainPointer pointer) heap post := by
  cases pointer with
  | none => exact Ensures.pure (holds heap all rfl)
  | some address => exact unstamped_retain all holds

/-- What is left after a release was there before. -/
theorem unstamped_releaseValue
    (value : RTValue)
    (all : AllUnstamped base heap)
    {post : Unit → VectorHeap → Prop}
    (holds : ∀ after, AllUnstamped base after → post () after) :
    Ensures (releaseValue value) heap post := by
  cases value with
  | immediate word => exact Ensures.pure (holds heap all)
  | pointer address =>
      exact unstamped_release all fun after afterAll _ => holds after afterAll

/-- The object is released or not. -/
theorem unstamped_releaseWhen
    (condition : Bool)
    (pointer : Option Address)
    (all : AllUnstamped base heap)
    {post : Unit → VectorHeap → Prop}
    (holds : ∀ after, AllUnstamped base after → post () after) :
    Ensures (releaseWhen condition pointer) heap post := by
  unfold releaseWhen
  split
  · cases pointer with
    | none => exact Ensures.pure (holds heap all)
    | some address =>
        exact unstamped_release all fun after afterAll _ => holds after afterAll
  · exact Ensures.pure (holds heap all)

/-- A program stamps no node and no header. -/
def KeepsUnstamped (base : VectorHeap) {α : Type} (program : Code α) : Prop :=
  ∀ heap, AllUnstamped base heap →
    Ensures program heap fun _ after => AllUnstamped base after

/-- A new node with the id 0. -/
theorem unstamped_allocateNode
    (all : AllUnstamped base heap)
    {type : NodeType}
    {transientID : Nat}
    {array : List RTValue}
    (unstamped : transientID = 0)
    {post : Address → VectorHeap → Prop}
    (holds : ∀ address after, AllUnstamped base after → post address after) :
    Ensures (allocate (.node ⟨type, transientID, array⟩)) heap post := by
  have valid :
    Object.Unstamped base heap.next (.node ⟨type, transientID, array⟩) :=
    unstamped
  apply Ensures.allocate all.all valid
  intro after afterAll larger _
  exact holds _ after ⟨afterAll, all.next_le.trans larger⟩

/-- A node is written with the id 0. -/
theorem unstamped_storeNode
    (all : AllUnstamped base heap)
    {address : Address}
    {type : NodeType}
    {transientID : Nat}
    {array : List RTValue}
    (unstamped : transientID = 0)
    {post : Unit → VectorHeap → Prop}
    (holds : ∀ after, AllUnstamped base after → post () after) :
    Ensures (store address (.node ⟨type, transientID, array⟩)) heap post := by
  have valid :
    Object.Unstamped base address (.node ⟨type, transientID, array⟩) :=
    unstamped
  apply Ensures.store all.all valid
  intro after afterAll larger _ _
  exact holds after ⟨afterAll, all.next_le.trans larger⟩

/-- A new header may have any id, since no header was at its address in
`base`. -/
theorem unstamped_allocateVector
    (all : AllUnstamped base heap)
    {vector : PersistentVector}
    {post : Address → VectorHeap → Prop}
    (holds : ∀ address after, AllUnstamped base after →
      after.object? address = some (.vector vector) → post address after) :
    Ensures (allocate (.vector vector)) heap post := by
  have valid : Object.Unstamped base heap.next (.vector vector) := by
    intro below
    exact absurd (Nat.lt_of_lt_of_le below all.next_le) (Nat.lt_irrefl _)
  apply Ensures.allocate all.all valid
  intro after afterAll larger found
  exact holds _ after ⟨afterAll, all.next_le.trans larger⟩ found

/-- A header is written with the id that it had. -/
theorem unstamped_storeVector
    (all : AllUnstamped base heap)
    {address : Address}
    {vector old : PersistentVector}
    (kept : Object.Unstamped base address (.vector old))
    (sameID : vector.transientID = old.transientID)
    {post : Unit → VectorHeap → Prop}
    (holds : ∀ after, AllUnstamped base after →
      after.object? address = some (.vector vector) →
      (∀ other, other ≠ address → after.object? other = heap.object? other) →
      post () after) :
    Ensures (store address (.vector vector)) heap post := by
  have valid : Object.Unstamped base address (.vector vector) := by
    intro below persistent
    rw [sameID]
    exact kept below persistent
  apply Ensures.store all.all valid
  intro after afterAll larger found others
  exact holds after ⟨afterAll, all.next_le.trans larger⟩ found others

/-- Whether the node is reused does not matter for what follows. -/
theorem unstamped_reusesNode
    {self : Address}
    {node : PersistentVectorNode}
    {allowsReuse : Bool}
    {vectorTransientID : Nat}
    {post : Bool → VectorHeap → Prop}
    (holds : ∀ reusable, post reusable heap) :
    Ensures (reusesNode self node allowsReuse vectorTransientID) heap post := by
  unfold reusesNode
  split
  · apply Ensures.bind
    apply Ensures.isReusable
    exact Ensures.pure (holds _)
  · exact Ensures.pure (holds _)

end Parts

/-! ## Nodes -/

/-- The entry of a leaf is exchanged, that of an inner node by the code for the
child. -/
theorem keepsUnstamped_replaceEntry
    (type : NodeType)
    (old other : RTValue)
    {replaceChild : Address → Code Address}
    (below : ∀ child, KeepsUnstamped base (replaceChild child)) :
    KeepsUnstamped base (replaceEntry type old other replaceChild) := by
  intro heap all
  cases type with
  | leafNode => exact Ensures.pure all
  | internalNode =>
      unfold replaceEntry
      apply Ensures.bind
      apply ensures_unboxPtr
      intro child _
      apply Ensures.bind
      apply (below child heap all).mono
      intro newChild after afterAll
      exact Ensures.pure afterAll

/-- A node that is not reused is copied with the id 0. -/
theorem keepsUnstamped_replaceNode
    (slot : Nat)
    (self : Address)
    (other : RTValue)
    (allowsReuse : Bool)
    (vectorTransientID : Nat)
    {replaceChild : Bool → Address → Code Address}
    (below : ∀ reusable child,
      KeepsUnstamped base (replaceChild reusable child)) :
    KeepsUnstamped base
      (replaceNode slot self other allowsReuse vectorTransientID
        replaceChild) := by
  intro heap all
  unfold replaceNode
  apply Ensures.bind
  apply ensures_loadNode
  intro node found
  have unstamped : node.transientID = 0 := all.node found
  apply Ensures.bind
  apply unstamped_reusesNode
  intro reusable
  split
  · split
    · exact Ensures.pure all
    · apply Ensures.bind
      apply unstamped_retainValues _ all
      intro after afterAll _
      exact unstamped_allocateNode afterAll unstamped fun _ _ allocatedAll =>
        allocatedAll
  · next old _ =>
      split
      · apply Ensures.bind
        apply (keepsUnstamped_replaceEntry node.type old other (below true) heap
          all).mono
        intro entry after afterAll
        apply Ensures.bind
        apply unstamped_storeNode afterAll unstamped
        intro stored storedAll
        apply Ensures.bind
        unfold releaseReplaced
        split
        · apply unstamped_releaseValue _ storedAll
          intro released releasedAll
          exact Ensures.pure releasedAll
        · exact Ensures.pure (Ensures.pure storedAll)
      · apply Ensures.bind
        apply unstamped_retainValues _ all
        intro first firstAll _
        apply Ensures.bind
        apply (keepsUnstamped_replaceEntry node.type old other (below false)
          first firstAll).mono
        intro entry after afterAll
        apply Ensures.bind
        apply unstamped_retainValues _ afterAll
        intro last lastAll _
        exact unstamped_allocateNode lastAll unstamped fun _ _ allocatedAll =>
          allocatedAll

/-- A path is copied with the ids it has. -/
theorem keepsUnstamped_replacePath
    (height : Nat)
    (self : Address)
    (index : Nat)
    (other : RTValue)
    (allowsReuse : Bool)
    (vectorTransientID : Nat) :
    KeepsUnstamped base
      (replacePath height self index other allowsReuse vectorTransientID) := by
  induction height generalizing self allowsReuse with
  | zero =>
      rw [replacePath]
      apply keepsUnstamped_replaceNode
      intro _ _ heap _
      exact Ensures.undefined
  | succ height inductionHypothesis =>
      rw [replacePath]
      apply keepsUnstamped_replaceNode
      intro reusable child
      exact inductionHypothesis child reusable

/-- The three ways to attach what came back, all for the id 0. -/
theorem keepsUnstamped_attachSubtree
    (isRoot : Bool)
    (self : Address)
    {node : PersistentVectorNode}
    (unstamped : node.transientID = 0)
    (reusable : Bool)
    (pushed : Address × Bool) :
    KeepsUnstamped base (attachSubtree isRoot self node reusable 0 pushed) := by
  intro heap all
  unfold attachSubtree
  split
  · simp only
    split
    · apply Ensures.bind
      apply ensures_unboxPtr
      intro last _
      apply Ensures.bind
      apply unstamped_storeNode all unstamped
      intro stored storedAll
      apply Ensures.bind
      apply unstamped_release storedAll
      intro after afterAll _
      exact Ensures.pure afterAll
    · apply Ensures.bind
      apply unstamped_retainValues _ all
      intro retained retainedAll _
      apply Ensures.bind
      apply unstamped_allocateNode retainedAll unstamped
      intro _ copied copiedAll
      apply Ensures.bind
      apply unstamped_release copiedAll
      intro after afterAll _
      exact Ensures.pure afterAll
  · split
    · apply Ensures.bind
      apply unstamped_retainValues _ all
      intro retained retainedAll _
      apply Ensures.bind
      apply unstamped_allocateNode retainedAll unstamped
      intro _ copied copiedAll
      apply Ensures.bind
      apply unstamped_release copiedAll
      intro after afterAll _
      exact Ensures.pure afterAll
    · split
      · apply Ensures.bind
        apply unstamped_allocateNode all rfl
        intro _ down downAll
        apply Ensures.bind
        apply unstamped_allocateNode downAll rfl
        intro _ after afterAll
        exact Ensures.pure afterAll
      · apply Ensures.bind
        apply unstamped_allocateNode all rfl
        intro _ copied copiedAll
        apply Ensures.bind
        apply unstamped_release copiedAll
        intro after afterAll _
        exact Ensures.pure afterAll

/-- A node is pushed into if the code for the child stamps nothing. -/
theorem keepsUnstamped_pushInto
    (isRoot : Bool)
    (self tailToPush : Address)
    (allowsReuse : Bool)
    {pushBelow : PersistentVectorNode → Bool → Code (Address × Bool)}
    (below : ∀ node reusable, KeepsUnstamped base (pushBelow node reusable)) :
    KeepsUnstamped base
      (pushInto isRoot self tailToPush allowsReuse 0 pushBelow) := by
  intro heap all
  unfold pushInto
  apply Ensures.bind
  apply ensures_loadNode
  intro node found
  split
  · apply Ensures.bind
    apply unstamped_allocateNode all rfl
    intro _ after afterAll
    exact Ensures.pure afterAll
  · apply Ensures.bind
    apply unstamped_reusesNode
    intro reusable
    apply Ensures.bind
    apply (below node reusable heap all).mono
    intro pushed after afterAll
    exact keepsUnstamped_attachSubtree isRoot self (all.node found)
      reusable pushed after afterAll

/-- By induction on the height, for a persistent vector. -/
theorem keepsUnstamped_pushTail
    (base : VectorHeap)
    (height : Nat)
    (isRoot : Bool)
    (self : Option Address)
    (tailToPush : Address)
    (allowsReuse : Bool)
    (vectorTransientID : Nat)
    (persistent : vectorTransientID = 0) :
    KeepsUnstamped base
      (pushTail height isRoot self tailToPush allowsReuse
        vectorTransientID) := by
  fun_induction pushTail height isRoot self tailToPush allowsReuse
    vectorTransientID with
  | case1 =>
      intro heap all
      exact Ensures.pure all
  | case2 height isRoot self tailToPush allowsReuse vectorTransientID
      inductionHypothesis =>
      subst persistent
      apply keepsUnstamped_pushInto
      intro node reusable heap all
      apply Ensures.bind
      apply ensures_unboxPtr
      intro entry _
      apply Ensures.bind
      apply unstamped_retain all
      intro retained retainedAll _
      exact inductionHypothesis reusable entry rfl retained retainedAll
  | case3 =>
      subst persistent
      apply keepsUnstamped_pushInto
      intro node reusable heap all
      exact Ensures.pure all

/-- The node is written with the id that it had. -/
theorem keepsUnstamped_popInPlace
    (self lastChild : Address)
    {node : PersistentVectorNode}
    (unstamped : node.transientID = 0)
    (popped : Option Address × Address) :
    KeepsUnstamped base (popInPlace self lastChild node popped) := by
  intro heap all
  unfold popInPlace
  split
  · apply Ensures.bind
    apply unstamped_storeNode all unstamped
    intro stored storedAll
    apply Ensures.bind
    apply unstamped_releaseWhen _ _ storedAll
    intro after afterAll
    exact Ensures.pure afterAll
  · apply Ensures.bind
    apply unstamped_storeNode all unstamped
    intro stored storedAll
    apply Ensures.bind
    apply unstamped_release storedAll
    intro after afterAll _
    exact Ensures.pure afterAll

/-- A copy gets the id of the vector, which is 0. -/
theorem keepsUnstamped_popCopy
    (node : PersistentVectorNode)
    {vectorTransientID : Nat}
    (persistent : vectorTransientID = 0)
    (popped : Option Address × Address) :
    KeepsUnstamped base (popCopy node vectorTransientID popped) := by
  intro heap all
  unfold popCopy
  apply Ensures.bind
  apply unstamped_retainValues _ all
  intro retained retainedAll _
  split
  · apply Ensures.bind
    apply unstamped_allocateNode retainedAll persistent
    intro _ after afterAll
    exact Ensures.pure afterAll
  · apply Ensures.bind
    apply unstamped_allocateNode retainedAll persistent
    intro _ copied copiedAll
    split
    · apply Ensures.bind
      apply unstamped_release copiedAll
      intro after afterAll _
      exact Ensures.pure afterAll
    · exact Ensures.pure copiedAll

/-- Nobody else refers to the nodes on the way to the last leaf. -/
def SpineAlone (heap : VectorHeap) : Nat → Address → Prop
  | 0, self =>
      ∀ node, heap.object? self = some (.node node) → node.type = .leafNode
  | height + 1, self => ∀ node, heap.object? self = some (.node node) →
      node.type = .internalNode → heap.count self = 1 ∧
      ∀ child, node.array.getLast? = some (.pointer child) →
        SpineAlone heap height child

/-- A node that is popped from is copied for a persistent vector only. -/
theorem unstamped_popNode
    (self : Address)
    (allowsReuse : Bool)
    {vectorTransientID : Nat}
    {heap : VectorHeap}
    (all : AllUnstamped base heap)
    {popBelow : Bool → Address → Code (Option Address × Address)}
    (inPlace : ∀ node, heap.object? self = some (.node node) →
      node.type = .internalNode →
      vectorTransientID ≠ 0 → allowsReuse = true ∧ heap.count self = 1)
    (below : ∀ node reusable child, heap.object? self = some (.node node) →
      node.type = .internalNode → node.array.getLast? = some (.pointer child) →
      (vectorTransientID ≠ 0 → reusable = true) →
      Ensures (popBelow reusable child) heap fun _ after =>
        AllUnstamped base after) :
    Ensures (popNode self allowsReuse vectorTransientID popBelow) heap
      fun _ after => AllUnstamped base after := by
  unfold popNode
  apply Ensures.bind
  apply ensures_loadNode
  intro node found
  split
  · apply Ensures.bind
    apply unstamped_retain all
    intro after afterAll _
    exact Ensures.pure afterAll
  · next isInternal =>
      apply Ensures.bind
      have pops :
          Ensures (popsNode self node allowsReuse vectorTransientID) heap
          fun reusable after => after = heap ∧
            (vectorTransientID ≠ 0 → reusable = true) := by
        unfold popsNode
        split
        · apply Ensures.bind
          apply Ensures.isReusable
          refine Ensures.pure ⟨rfl, ?_⟩
          intro isTransient
          simp [(inPlace node found isInternal isTransient).2]
        · next notAllowed =>
            refine Ensures.pure ⟨rfl, ?_⟩
            intro isTransient
            exact absurd (inPlace node found isInternal isTransient).1
              notAllowed
      apply pops.mono
      rintro reusable middle ⟨rfl, reuses⟩
      apply Ensures.bind
      apply ensures_unboxPtr
      intro lastChild isLast
      apply Ensures.bind
      apply (below node reusable lastChild found isInternal isLast reuses).mono
      intro popped after afterAll
      split
      · exact keepsUnstamped_popInPlace self lastChild (all.node found) popped
          after afterAll
      · next copies =>
          have persistent : vectorTransientID = 0 := by
            by_contra isTransient
            exact copies (reuses isTransient)
          exact keepsUnstamped_popCopy node persistent popped after afterAll

/-- By induction on the height.  For a transient vector the way to the last leaf
is written in place, so that no copy gets its id. -/
theorem unstamped_popTail
    (height : Nat)
    (self : Address)
    (allowsReuse : Bool)
    {vectorTransientID : Nat}
    {heap : VectorHeap}
    (all : AllUnstamped base heap)
    (inPlace : vectorTransientID ≠ 0 → allowsReuse = true ∧
      SpineAlone heap height self) :
    Ensures (popTail height self allowsReuse vectorTransientID) heap
      fun _ after => AllUnstamped base after := by
  induction height generalizing self allowsReuse with
  | zero =>
      rw [popTail]
      apply unstamped_popNode self allowsReuse all
      · intro node found isInternal isTransient
        have isLeaf := (inPlace isTransient).2 node found
        rw [isLeaf] at isInternal
        cases isInternal
      · intros
        exact Ensures.undefined
  | succ height inductionHypothesis =>
      rw [popTail]
      apply unstamped_popNode self allowsReuse all
      · intro node found isInternal isTransient
        obtain ⟨allowed, alone⟩ := inPlace isTransient
        exact ⟨allowed, (alone node found isInternal).1⟩
      · intro node reusable child found isInternal isLast reuses
        apply inductionHypothesis
        intro isTransient
        exact ⟨reuses isTransient,
          ((inPlace isTransient).2 node found isInternal).2 child isLast⟩

/-! ## Vectors -/

/-- The tail of a transient vector has room. -/
def TransientHasRoom (heap : VectorHeap) (self : Address) : Prop :=
  ∀ vector tail node, heap.object? self = some (.vector vector) →
    vector.transientID ≠ 0 →
    vector.tail = some tail → heap.object? tail = some (.node node) →
      node.array.length < 32

/-- An index that is not in the tail of a transient vector, or in a tail without
other references. -/
def TransientTailAlone (heap : VectorHeap) (self : Address)
    (index : Nat) : Prop :=
  ∀ vector tail node, heap.object? self = some (.vector vector) →
    vector.transientID ≠ 0 →
    vector.tail = some tail → heap.object? tail = some (.node node) →
    wordSub vector.count node.array.length ≤ index → index < vector.count →
    heap.count tail = 1

/-- An append to a transient vector finds room in its tail. -/
def AppendsWithRoom (heap : VectorHeap) (self : Address) (index : Nat) : Prop :=
  ∀ vector, heap.object? self = some (.vector vector) → index = vector.count →
    TransientHasRoom heap self

/-- A transient vector that is empty, or whose last leaf becomes its tail
without a node of the trie being copied. -/
def TransientPopsAlone (heap : VectorHeap) (self : Address) : Prop :=
  ∀ vector tail node, heap.object? self = some (.vector vector) →
    vector.transientID ≠ 0 →
    vector.count ≠ 0 → vector.tail = some tail →
      heap.object? tail = some (.node node) →
    node.array.length ≤ 1 ∧
      ∃ root, vector.root = some root ∧ SpineAlone heap (vector.shift / 5) root

/-- The vector at an address. -/
def vectorAt (heap : VectorHeap) (address : Address) :
    Option PersistentVector :=
  match heap.object? address with
  | some (.vector vector) => some vector
  | _ => none

/-- The node at an address. -/
def nodeAt (heap : VectorHeap) (address : Address) :
    Option PersistentVectorNode :=
  match heap.object? address with
  | some (.node node) => some node
  | _ => none

/-- `vectorAt` gives the vector that is there. -/
theorem mem_vectorAt {heap : VectorHeap} {address : Address}
    {vector : PersistentVector} :
    vector ∈ vectorAt heap address ↔
      heap.object? address = some (.vector vector) := by
  unfold vectorAt
  split
  · next found => simp [found, eq_comm]
  · next other =>
      refine iff_of_false (by simp) fun found => ?_
      exact other vector found

/-- `nodeAt` gives the node that is there. -/
theorem mem_nodeAt {heap : VectorHeap} {address : Address}
    {node : PersistentVectorNode} :
    node ∈ nodeAt heap address ↔ heap.object? address = some (.node node) := by
  unfold nodeAt
  split
  · next found => simp [found, eq_comm]
  · next other =>
      refine iff_of_false (by simp) fun found => ?_
      exact other node found

instance (heap : VectorHeap) (self : Address) : Decidable
    (TransientHasRoom heap self) :=
  decidable_of_iff (∀ vector ∈ vectorAt heap self, vector.transientID ≠ 0 →
    ∀ tail ∈ vector.tail, ∀ node ∈ nodeAt heap tail, node.array.length < 32) (by
      simp only [mem_vectorAt, mem_nodeAt]
      constructor
      · intro all vector tail node found isTransient isTail isNode
        exact all vector found isTransient tail isTail node isNode
      · intro all vector found isTransient tail isTail node isNode
        exact all vector tail node found isTransient isTail isNode)

instance (heap : VectorHeap) (self : Address) (index : Nat) :
    Decidable (TransientTailAlone heap self index) :=
  decidable_of_iff (∀ vector ∈ vectorAt heap self, vector.transientID ≠ 0 →
    ∀ tail ∈ vector.tail, ∀ node ∈ nodeAt heap tail,
      wordSub vector.count node.array.length ≤ index → index < vector.count →
        heap.count tail = 1) (by
      simp only [mem_vectorAt, mem_nodeAt]
      constructor
      · intro all vector tail node found isTransient isTail isNode
        exact all vector found isTransient tail isTail node isNode
      · intro all vector found isTransient tail isTail node isNode
        exact all vector tail node found isTransient isTail isNode)

instance (heap : VectorHeap) (self : Address) (index : Nat) :
    Decidable (AppendsWithRoom heap self index) :=
  decidable_of_iff (∀ vector ∈ vectorAt heap self, index = vector.count →
    TransientHasRoom heap self) (by
      simp only [mem_vectorAt, AppendsWithRoom])

/-- The last entry of a node, when it is a pointer. -/
def lastPointer (node : PersistentVectorNode) : Option Address :=
  match node.array.getLast? with
  | some (.pointer child) => some child
  | _ => none

/-- `lastPointer` gives the last entry. -/
theorem mem_lastPointer {node : PersistentVectorNode} {child : Address} :
    child ∈ lastPointer node ↔ node.array.getLast? = some (.pointer child) := by
  unfold lastPointer
  split
  · next found => simp [found, eq_comm]
  · next other =>
      refine iff_of_false (by simp) fun found => ?_
      exact other child found

instance decidableSpineAlone (heap : VectorHeap) :
    ∀ height self, Decidable (SpineAlone heap height self)
  | 0, self =>
      decidable_of_iff (∀ node ∈ nodeAt heap self, node.type = .leafNode) (by
      simp only [mem_nodeAt, SpineAlone])
  | height + 1, self =>
      have := decidableSpineAlone heap height
      decidable_of_iff (∀ node ∈ nodeAt heap self, node.type = .internalNode →
        heap.count self = 1 ∧ ∀ child ∈ lastPointer node,
          SpineAlone heap height child) (by
          simp only [mem_nodeAt, mem_lastPointer, SpineAlone])

instance (heap : VectorHeap) (self : Address) : Decidable
    (TransientPopsAlone heap self) :=
  decidable_of_iff (∀ vector ∈ vectorAt heap self, vector.transientID ≠ 0 →
    vector.count ≠ 0 → ∀ tail ∈ vector.tail, ∀ node ∈ nodeAt heap tail,
      node.array.length ≤ 1 ∧
        ∃ root ∈ vector.root, SpineAlone heap (vector.shift / 5) root) (by
      simp only [mem_vectorAt, mem_nodeAt]
      constructor
      · intro all vector tail node found isTransient nonempty isTail isNode
        exact all vector found isTransient nonempty tail isTail node isNode
      · intro all vector found isTransient nonempty tail isTail node isNode
        exact all vector tail node found isTransient nonempty isTail isNode)

/-- An address that has been given out, with the id of the vector there. -/
structure IssuedHeader (heap : VectorHeap) (address : Address)
    (transientID : Nat) : Prop where
  below : address < heap.next
  header : HeaderID heap address transientID

/-- All nodes are unstamped and the result has an id. -/
abbrev Sealed (base : VectorHeap) (transientID : Nat) (new : Address)
    (after : VectorHeap) : Prop :=
  AllUnstamped base after ∧ IssuedHeader after new transientID

section Vectors

variable {base heap : VectorHeap}

/-- The id of the vector that is there. -/
theorem headerID_of_object
    {address : Address}
    {vector : PersistentVector}
    (found : heap.object? address = some (.vector vector)) :
    HeaderID heap address vector.transientID := by
  intro other isOther
  rw [found] at isOther
  cases isOther
  rfl

/-- What was a vector is one with the same id, or is gone. -/
theorem issuedHeader_of_kept
    {after : VectorHeap}
    {address : Address}
    {vector : PersistentVector}
    (found : heap.object? address = some (.vector vector))
    (kept : (∀ other object, after.object? other = some object →
      heap.object? other = some object) ∧ heap.next ≤ after.next) :
    IssuedHeader after address vector.transientID where
  below := Nat.lt_of_lt_of_le (Heap.lt_next_of_object found) kept.2
  header other isOther :=
    headerID_of_object found other (kept.1 address _ isOther)

/-- A header that is not reused is that of a persistent vector. -/
theorem ensures_reusesHeader
    {self : Address}
    {vector : PersistentVector}
    {post : Bool → VectorHeap → Prop}
    (holds : ∀ reusable, (reusable = false → vector.transientID = 0) →
      post reusable heap) :
    Ensures (reusesHeader self vector) heap post := by
  unfold reusesHeader
  apply Ensures.bind
  apply Ensures.isReusable
  apply Ensures.pure
  apply holds
  intro notReusable
  simpa using (Bool.or_eq_false_iff.mp notReusable).2

/-- The end of every operation that copies the header. -/
theorem sealed_release
    (self new : Address)
    {vector : PersistentVector}
    (all : AllUnstamped base heap)
    (found : heap.object? new = some (.vector vector)) :
    Ensures (do Program.release self; pure new) heap
      (Sealed base vector.transientID) := by
  apply Ensures.bind
  apply unstamped_release all
  intro after afterAll kept
  exact Ensures.pure ⟨afterAll, issuedHeader_of_kept found kept⟩

/-- A new header takes the place of the old one. -/
theorem sealed_allocate_release
    (self : Address)
    (vector : PersistentVector)
    (all : AllUnstamped base heap) :
    Ensures
      (do
        let new ← allocate (.vector vector)
        Program.release self
        pure new)
      heap (Sealed base vector.transientID) := by
  apply Ensures.bind
  apply unstamped_allocateVector all
  intro new after afterAll found
  exact sealed_release self new afterAll found

/-- The header is written in place. -/
theorem sealed_store
    {self : Address}
    {vector old : PersistentVector}
    (all : AllUnstamped base heap)
    (kept : Object.Unstamped base self (.vector old))
    (sameID : vector.transientID = old.transientID) :
    Ensures (do store self (.vector vector); pure self) heap
      (Sealed base vector.transientID) := by
  apply Ensures.bind
  apply unstamped_storeVector all kept sameID
  intro after afterAll found _
  exact Ensures.pure ⟨afterAll, Heap.lt_next_of_object found,
    headerID_of_object found⟩

/-- The new element goes to the tail, which is copied with the id 0 unless the
vector is reused. -/
theorem sealed_conjTail
    {self oldTail : Address}
    {vector : PersistentVector}
    {tail : PersistentVectorNode}
    {reusable : Bool}
    {other : RTValue}
    (all : AllUnstamped base heap)
    (kept : Object.Unstamped base self (.vector vector))
    (unstamped : tail.transientID = 0)
    (copied : reusable = false → vector.transientID = 0) :
    Ensures (conjTail self vector oldTail tail reusable other) heap
      (Sealed base vector.transientID) := by
  unfold conjTail
  split
  · apply Ensures.bind
    apply unstamped_storeNode all unstamped
    intro stored storedAll
    exact sealed_store storedAll kept rfl
  · next notReusable =>
      apply Ensures.bind
      apply unstamped_retainPointer _ all
      intro rootRetained rootAll _
      apply Ensures.bind
      apply unstamped_retainValues _ rootAll
      intro retained retainedAll _
      apply Ensures.bind
      apply unstamped_allocateNode retainedAll
        (copied (by simpa using notReusable))
      intro newTail allocated allocatedAll
      exact sealed_allocate_release self _ allocatedAll

/-- The full tail of a persistent vector is pushed into the trie. -/
theorem sealed_conjPush
    {self oldTail : Address}
    {vector : PersistentVector}
    {reusable : Bool}
    {other : RTValue}
    (all : AllUnstamped base heap)
    (kept : Object.Unstamped base self (.vector vector))
    (persistent : vector.transientID = 0) :
    Ensures (conjPush self vector oldTail reusable other) heap
      (Sealed base vector.transientID) := by
  have pushes :=
    keepsUnstamped_pushTail base (vector.shift / 5) true vector.root oldTail
  unfold conjPush
  apply Ensures.bind
  apply unstamped_allocateNode all persistent
  intro newTail allocated allocatedAll
  simp only
  split
  · apply Ensures.bind
    refine unstamped_storeVector allocatedAll kept (by rfl) ?_
    intro stored storedAll _ _
    apply Ensures.bind
    apply (pushes true vector.transientID persistent stored storedAll).mono
    intro pushed after afterAll
    exact sealed_store afterAll kept rfl
  · apply Ensures.bind
    apply unstamped_retain allocatedAll
    intro tailRetained tailAll _
    apply Ensures.bind
    apply unstamped_retainPointer _ tailAll
    intro rootRetained rootAll _
    apply Ensures.bind
    apply (pushes false vector.transientID persistent rootRetained rootAll).mono
    intro pushed after afterAll
    exact sealed_allocate_release self _ afterAll

/-- `conj` with room in the tail of a transient vector. -/
theorem sealed_conjInternal
    (self : Address)
    (other : RTValue)
    (all : AllUnstamped base heap)
    (room : TransientHasRoom heap self)
    {transientID : Nat}
    (header : HeaderID heap self transientID) :
    Ensures (conjInternal self other) heap (Sealed base transientID) := by
  unfold conjInternal
  apply Ensures.bind
  apply ensures_loadVector
  intro vector isVector
  rw [← header vector isVector]
  apply Ensures.bind
  apply ensures_reusesHeader
  intro reusable copied
  apply Ensures.bind
  apply ensures_nonNull
  intro oldTail isTail
  apply Ensures.bind
  apply ensures_loadNode
  intro tail isNode
  split
  · exact sealed_conjTail all (all.all self _ isVector) (all.node isNode) copied
  · next full =>
      apply sealed_conjPush all (all.all self _ isVector)
      by_contra isTransient
      exact full (room vector oldTail tail isVector isTransient isTail isNode)

/-- The tail is written in place, or copied for a persistent vector. -/
theorem sealed_assocTail
    {self oldTail : Address}
    {vector : PersistentVector}
    {tail : PersistentVectorNode}
    {reusable : Bool}
    {slot : Nat}
    {other : RTValue}
    (all : AllUnstamped base heap)
    (kept : Object.Unstamped base self (.vector vector))
    (unstamped : tail.transientID = 0)
    (copied : reusable = false → vector.transientID = 0)
    (alone : vector.transientID ≠ 0 → heap.count oldTail = 1) :
    Ensures (assocTail self vector oldTail tail reusable slot other) heap
      (Sealed base vector.transientID) := by
  -- where the tail of a transient vector is copied it would get the id of the vector
  have reuses : Ensures (reusesTail vector reusable oldTail tail) heap
      fun tailReusable after => after = heap ∧
        (tailReusable = false → vector.transientID = 0) := by
    unfold reusesTail
    cases reusable with
    | false => exact Ensures.pure ⟨rfl, fun _ => copied rfl⟩
    | true =>
        apply Ensures.bind
        apply Ensures.isReusable
        refine Ensures.pure ⟨rfl, ?_⟩
        intro notReusable
        by_contra isTransient
        simp [alone isTransient] at notReusable
  unfold assocTail
  apply Ensures.bind
  apply reuses.mono
  rintro tailReusable after ⟨rfl, tailCopied⟩
  apply Ensures.bind
  have replaces :
      Ensures (replaceInTail vector oldTail tail tailReusable slot other) after
      fun _ replaced => AllUnstamped base replaced := by
    unfold replaceInTail
    split
    · exact Ensures.undefined
    · split
      · apply Ensures.bind
        apply unstamped_storeNode all unstamped
        intro stored storedAll
        apply Ensures.bind
        apply unstamped_releaseValue _ storedAll
        intro released releasedAll
        exact Ensures.pure releasedAll
      · next notReusable =>
          apply Ensures.bind
          apply unstamped_retainValues _ all
          intro first firstAll _
          apply Ensures.bind
          apply unstamped_retainValues _ firstAll
          intro last lastAll _
          exact unstamped_allocateNode lastAll
            (tailCopied (by simpa using notReusable))
            fun _ _ allocatedAll => allocatedAll
  apply replaces.mono
  intro newTail replaced replacedAll
  split
  · exact sealed_store replacedAll kept rfl
  · apply Ensures.bind
    apply unstamped_retainPointer _ replacedAll
    intro retained retainedAll _
    exact sealed_allocate_release self _ retainedAll

/-- The entry is exchanged in the trie. -/
theorem sealed_assocTrie
    {self oldTail : Address}
    {vector : PersistentVector}
    {reusable : Bool}
    {index : Nat}
    {other : RTValue}
    (all : AllUnstamped base heap)
    (kept : Object.Unstamped base self (.vector vector)) :
    Ensures (assocTrie self vector oldTail reusable index other) heap
      (Sealed base vector.transientID) := by
  unfold assocTrie
  apply Ensures.bind
  apply ensures_nonNull
  intro root _
  apply Ensures.bind
  apply (keepsUnstamped_replacePath _ root index other reusable _ heap all).mono
  intro newRoot after afterAll
  split
  · exact sealed_store afterAll kept rfl
  · apply Ensures.bind
    apply unstamped_retain afterAll
    intro retained retainedAll _
    exact sealed_allocate_release self _ retainedAll

/-- The result of an operation that may throw. -/
abbrev SealedResult
    (base : VectorHeap)
    (transientID : Nat)
    (result : Except Exception Address)
    (after : VectorHeap) : Prop :=
  AllUnstamped base after ∧ ∀ new,
    result = .ok new → IssuedHeader after new transientID

/-- Code that throws nothing. -/
theorem sealedResult_of_sealed
    {program : Code Address}
    {transientID : Nat}
    (seals : Ensures program heap (Sealed base transientID)) :
    Ensures (do let new ← program; pure (Except.ok new)) heap
      (SealedResult base transientID) := by
  apply Ensures.bind
  apply seals.mono
  rintro new after ⟨afterAll, header⟩
  refine Ensures.pure ⟨afterAll, ?_⟩
  rintro other ⟨⟩
  exact header

/-- `assoc` for an index in the tail, in the trie and behind the last
element. -/
theorem sealed_assocInternal
    (self : Address)
    (index : Nat)
    (other : RTValue)
    (all : AllUnstamped base heap)
    (room : AppendsWithRoom heap self index)
    (alone : TransientTailAlone heap self index)
    {transientID : Nat}
    (header : HeaderID heap self transientID) :
    Ensures (assocInternal self index other) heap
      (SealedResult base transientID) := by
  unfold assocInternal
  apply Ensures.bind
  apply ensures_loadVector
  intro vector isVector
  split
  · apply Ensures.bind
    apply unstamped_release all
    intro released releasedAll _
    apply Ensures.bind
    apply unstamped_releaseValue _ releasedAll
    intro after afterAll
    exact Ensures.pure ⟨afterAll, by simp⟩
  · split
    · next atEnd =>
        exact sealedResult_of_sealed
          (sealed_conjInternal self other all
            (room vector isVector atEnd) header)
    · rw [← header vector isVector]
      apply Ensures.bind
      apply ensures_nonNull
      intro oldTail isTail
      apply Ensures.bind
      apply ensures_loadNode
      intro tail isNode
      simp only
      apply Ensures.bind
      apply ensures_reusesHeader
      intro reusable copied
      split
      · next inTail =>
          apply sealedResult_of_sealed
          apply sealed_assocTail all (all.all self _ isVector)
            (all.node isNode) copied
          intro isTransient
          exact alone vector oldTail tail isVector isTransient isTail isNode
            inTail (by omega)
      · exact sealedResult_of_sealed
          (sealed_assocTrie all (all.all self _ isVector))

/-- The last element of a tail with more than one is dropped. -/
theorem sealed_popFromTail
    {self oldTail : Address}
    {vector : PersistentVector}
    {tail : PersistentVectorNode}
    {reusable : Bool}
    (all : AllUnstamped base heap)
    (kept : Object.Unstamped base self (.vector vector))
    (persistent : vector.transientID = 0) :
    Ensures (popFromTail self vector oldTail tail reusable) heap
      (Sealed base vector.transientID) := by
  have reuses : Ensures (reusesTail vector reusable oldTail tail) heap
      fun _ after => after = heap := by
    unfold reusesTail
    simp only
    split
    · exact Ensures.bind (Ensures.isReusable (Ensures.pure rfl))
    · exact Ensures.pure rfl
  unfold popFromTail
  apply Ensures.bind
  apply reuses.mono
  rintro tailReusable after rfl
  simp only
  split
  · split
    · apply Ensures.bind
      apply unstamped_storeNode all persistent
      intro stored storedAll
      apply Ensures.bind
      apply unstamped_releaseValue _ storedAll
      intro released releasedAll
      exact sealed_store releasedAll kept rfl
    · apply Ensures.bind
      apply unstamped_retainValues _ all
      intro retained retainedAll _
      apply Ensures.bind
      apply unstamped_allocateNode retainedAll persistent
      intro newTail allocated allocatedAll
      apply Ensures.bind
      refine unstamped_storeVector allocatedAll kept (by rfl) ?_
      intro stored storedAll found _
      have seals := sealed_release oldTail self storedAll found
      exact seals
  · apply Ensures.bind
    apply unstamped_retainPointer _ all
    intro rootRetained rootAll _
    apply Ensures.bind
    apply unstamped_retainValues _ rootAll
    intro retained retainedAll _
    apply Ensures.bind
    apply unstamped_allocateNode retainedAll persistent
    intro newTail allocated allocatedAll
    exact sealed_allocate_release self _ allocatedAll

/-- A root with one child is left out. -/
theorem keepsUnstamped_reduceNodeTree
    (vector : PersistentVector)
    (newRoot : Option Address) :
    KeepsUnstamped base (reduceNodeTree vector newRoot) := by
  intro heap all
  cases newRoot with
  | none => exact Ensures.pure all
  | some root =>
      unfold reduceNodeTree
      apply Ensures.bind
      apply ensures_loadNode
      intro node _
      split
      · apply Ensures.bind
        apply ensures_unboxPtr
        intro child _
        apply Ensures.bind
        apply unstamped_retain all
        intro retained retainedAll _
        apply Ensures.bind
        apply unstamped_releaseWhen _ _ retainedAll
        intro after afterAll
        exact Ensures.pure afterAll
      · exact Ensures.pure all

/-- The header keeps its id. -/
theorem poppedHeader_transientID
    (vector : PersistentVector)
    (newTail : Address)
    (newRoot onlyChild : Option Address) :
    (poppedHeader vector newTail newRoot onlyChild).transientID =
    vector.transientID := by
  cases onlyChild <;> rfl

/-- The header is written in place, or a new one takes its place. -/
theorem sealed_popHeader
    {self oldTail newTail : Address}
    {vector : PersistentVector}
    {reusable : Bool}
    {newRoot : Option Address}
    (all : AllUnstamped base heap)
    (kept : Object.Unstamped base self (.vector vector)) :
    Ensures (popHeader self vector oldTail reusable newTail newRoot) heap
      (Sealed base vector.transientID) := by
  unfold popHeader
  apply Ensures.bind
  apply (keepsUnstamped_reduceNodeTree vector newRoot heap all).mono
  intro onlyChild reduced reducedAll
  rw [← poppedHeader_transientID vector newTail newRoot onlyChild]
  simp only
  split
  · apply Ensures.bind
    apply unstamped_storeVector reducedAll kept
      (poppedHeader_transientID vector newTail newRoot onlyChild)
    intro stored storedAll found _
    apply Ensures.bind
    apply unstamped_release storedAll
    intro released releasedAll kept
    unfold releaseWhen releasePointer
    split
    · split
      · apply Ensures.bind
        apply unstamped_release releasedAll
        intro after afterAll keptAfter
        refine Ensures.pure ⟨afterAll, issuedHeader_of_kept found ⟨?_, ?_⟩⟩
        · intro other object isOther
          exact kept.1 other object (keptAfter.1 other object isOther)
        · exact kept.2.trans keptAfter.2
      · exact Ensures.bind
          (Ensures.pure
            (Ensures.pure ⟨releasedAll, issuedHeader_of_kept found kept⟩))
    · exact Ensures.bind
        (Ensures.pure
          (Ensures.pure ⟨releasedAll, issuedHeader_of_kept found kept⟩))
  · exact sealed_allocate_release self _ reducedAll

/-- The leaf that becomes the tail is taken from the trie as it is. -/
theorem unstamped_popTrie
    {vector : PersistentVector}
    {reusable : Bool}
    (all : AllUnstamped base heap)
    (inPlace : vector.transientID ≠ 0 → reusable = true ∧
      ∃ root, vector.root = some root ∧
        SpineAlone heap (vector.shift / 5) root) :
    Ensures (popTrie vector reusable) heap fun _ after =>
      AllUnstamped base after := by
  unfold popTrie
  split
  · next root isRoot =>
      apply unstamped_popTail _ root reusable all
      intro isTransient
      obtain ⟨allowed, other, isOther, alone⟩ := inPlace isTransient
      rw [isRoot, Option.some.injEq] at isOther
      subst isOther
      exact ⟨allowed, alone⟩
  · next noRoot =>
      have persistent : vector.transientID = 0 := by
        by_contra isTransient
        obtain ⟨_, root, isRoot, _⟩ := inPlace isTransient
        rw [noRoot] at isRoot
        cases isRoot
      apply Ensures.bind
      apply unstamped_allocateNode all persistent
      intro _ after afterAll
      exact Ensures.pure afterAll

/-- `pop` where no node on the way to the last leaf is copied for a transient
vector. -/
theorem sealed_popInternal
    (self : Address)
    (all : AllUnstamped base heap)
    (alone : TransientPopsAlone heap self)
    {transientID : Nat}
    (header : HeaderID heap self transientID) :
    Ensures (popInternal self) heap (SealedResult base transientID) := by
  unfold popInternal
  apply Ensures.bind
  apply ensures_loadVector
  intro vector isVector
  rw [← header vector isVector]
  split
  · apply Ensures.bind
    apply unstamped_release all
    intro after afterAll _
    exact Ensures.pure ⟨afterAll, by simp⟩
  · next nonempty =>
      apply Ensures.bind
      apply ensures_reusesHeader
      intro reusable copied
      apply Ensures.bind
      apply ensures_nonNull
      intro oldTail isTail
      apply Ensures.bind
      apply ensures_loadNode
      intro tail isNode
      have inTrie : vector.transientID ≠ 0 → tail.array.length ≤ 1 ∧
          ∃ root, vector.root = some root ∧
            SpineAlone heap (vector.shift / 5) root :=
        fun isTransient =>
          alone vector oldTail tail isVector isTransient nonempty isTail isNode
      split
      · next several =>
          have persistent : vector.transientID = 0 := by
            by_contra isTransient
            have := (inTrie isTransient).1
            omega
          exact sealedResult_of_sealed
            (sealed_popFromTail all (all.all self _ isVector) persistent)
      · apply Ensures.bind
        have pops : Ensures (popTrie vector reusable) heap
            fun _ after => AllUnstamped base after := by
          apply unstamped_popTrie all
          intro isTransient
          refine ⟨?_, (inTrie isTransient).2⟩
          by_contra notReusable
          exact isTransient (copied (by simpa using notReusable))
        apply pops.mono
        intro popped after afterAll
        exact sealedResult_of_sealed
          (sealed_popHeader afterAll (all.all self _ isVector))

/-- The copy of a header gets the id that is asked for. -/
theorem sealed_copyRoot
    (self : Address)
    (transientID : Nat)
    (all : AllUnstamped base heap) :
    Ensures (copyRoot self transientID) heap (Sealed base transientID) := by
  unfold copyRoot
  apply Ensures.bind
  apply ensures_loadVector
  intro vector isVector
  apply Ensures.bind
  apply unstamped_retainPointer _ all
  intro rootRetained rootAll _
  apply Ensures.bind
  apply ensures_nonNull
  intro oldTail _
  apply Ensures.bind
  apply ensures_loadNode
  intro tail isNode
  have unstamped : tail.transientID = 0 := rootAll.node isNode
  apply Ensures.bind
  apply unstamped_retainValues _ rootAll
  intro retained retainedAll _
  apply Ensures.bind
  apply unstamped_allocateNode retainedAll unstamped
  intro newTail allocated allocatedAll
  apply Ensures.bind
  apply unstamped_retainValue _ allocatedAll
  intro counted countedAll
  apply Ensures.bind
  apply unstamped_allocateVector countedAll
  intro new copied copiedAll found
  apply Ensures.bind
  unfold sealHeader
  split
  · next isPersistent =>
      have kept :
          Object.Unstamped base self
          (.vector { vector with transientID := 0 }) :=
        fun _ _ => rfl
      refine unstamped_storeVector copiedAll kept (by rfl) ?_
      intro stored storedAll isStored others
      subst isPersistent
      by_cases same : new = self
      · subst same
        exact sealed_release new new storedAll isStored
      · exact sealed_release self new storedAll ((others new same).trans found)
  · exact Ensures.pure (sealed_release self new copiedAll found)

/-- Other metadata. -/
theorem unstamped_withMeta
    (self : Address)
    (metadata : RTValue)
    (all : AllUnstamped base heap) :
    Ensures (withMeta self metadata) heap fun _ after =>
      AllUnstamped base after := by
  unfold withMeta
  apply Ensures.bind
  apply ensures_loadVector
  intro vector isVector
  apply Ensures.bind
  apply Ensures.isReusable
  split
  · apply Ensures.bind
    refine unstamped_storeVector all (all.all self _ isVector) (by rfl) ?_
    intro stored storedAll _ _
    apply Ensures.bind
    apply unstamped_releaseValue _ storedAll
    intro after afterAll
    exact Ensures.pure afterAll
  · apply Ensures.bind
    apply (sealed_copyRoot self 0 all).mono
    rintro new copiedHeap ⟨copiedAll, _⟩
    apply Ensures.bind
    apply ensures_loadVector
    intro copied isCopied
    apply Ensures.bind
    refine unstamped_storeVector copiedAll (copiedAll.all new _ isCopied)
      (by rfl) ?_
    intro stored storedAll _ _
    apply Ensures.bind
    apply unstamped_releaseValue _ storedAll
    intro after afterAll
    exact Ensures.pure afterAll

/-- A persistent vector is not asked for room. -/
theorem transientHasRoom_of_headerID
    {self : Address}
    (header : HeaderID heap self 0) :
    TransientHasRoom heap self := by
  intro vector tail node isVector isTransient
  exact absurd (header vector isVector) isTransient

/-- By induction on the values. -/
theorem sealed_conjMany
    (values : List RTValue)
    (self : Address)
    (all : AllUnstamped base heap)
    (header : IssuedHeader heap self 0) :
    Ensures (conjMany self values) heap (Sealed base 0) := by
  induction values generalizing self heap with
  | nil => exact Ensures.pure ⟨all, header⟩
  | cons value values inductionHypothesis =>
      rw [conjMany]
      apply Ensures.bind
      apply (sealed_conjInternal self value all
        (transientHasRoom_of_headerID header.header) header.header).mono
      rintro new after ⟨afterAll, newHeader⟩
      exact inductionHypothesis new afterAll newHeader

/-- A vector of many values is persistent. -/
theorem sealed_createMany
    (objects : List RTValue)
    (all : AllUnstamped base heap) :
    Ensures (createMany objects) heap (Sealed base 0) := by
  unfold createMany
  apply Ensures.bind
  apply unstamped_allocateNode all rfl
  intro tail allocated allocatedAll
  apply Ensures.bind
  apply unstamped_allocateVector allocatedAll
  intro vector after afterAll found
  exact sealed_conjMany _ vector afterAll
    ⟨Heap.lt_next_of_object found, headerID_of_object found⟩

/-- Going down to a leaf only reads. -/
theorem ensures_descend
    (height : Nat)
    (node : Address)
    (index : Nat) :
    Ensures (descend height node index) heap fun _ after => after = heap := by
  induction height generalizing node with
  | zero => exact Ensures.pure rfl
  | succ height inductionHypothesis =>
      rw [descend]
      apply Ensures.bind
      apply ensures_loadNode
      intro current _
      apply Ensures.bind
      apply ensures_unboxPtr
      intro child _
      exact inductionHypothesis child

/-- An element is only read. -/
theorem ensures_element
    (vector : PersistentVector)
    (index : Nat) :
    Ensures (element vector index) heap fun _ after => after = heap := by
  unfold element
  apply Ensures.bind
  apply ensures_nonNull
  intro oldTail _
  apply Ensures.bind
  apply ensures_loadNode
  intro tail _
  simp only
  split
  · split
    · exact Ensures.pure rfl
    · exact Ensures.undefined
  · apply Ensures.bind
    apply ensures_nonNull
    intro root _
    apply Ensures.bind
    apply (ensures_descend _ root index).mono
    rintro block after rfl
    apply Ensures.bind
    apply ensures_loadNode
    intro leaf _
    split
    · exact Ensures.pure rfl
    · exact Ensures.undefined

/-- The element is retained and the vector released. -/
theorem unstamped_nth
    (self : Address)
    (index : Nat)
    (all : AllUnstamped base heap) :
    Ensures (nth self index) heap fun _ after => AllUnstamped base after := by
  unfold nth
  apply Ensures.bind
  apply ensures_loadVector
  intro vector _
  split
  · apply Ensures.bind
    apply unstamped_release all
    intro after afterAll _
    exact Ensures.pure afterAll
  · apply Ensures.bind
    apply (ensures_element vector index).mono
    rintro value read rfl
    apply Ensures.bind
    apply unstamped_retainValue _ all
    intro retained retainedAll
    apply Ensures.bind
    apply unstamped_release retainedAll
    intro after afterAll _
    exact Ensures.pure afterAll

end Vectors

/-! ## Runs -/

/-- The operation gives no node the id of a transient vector. -/
def Operation.StampsNothing (heap : VectorHeap) : Operation → Prop
  | conj self _ => TransientHasRoom heap self
  | assoc self index _ =>
      AppendsWithRoom heap self index ∧ TransientTailAlone heap self index
  | pop self => TransientPopsAlone heap self
  | _ => True

instance (heap : VectorHeap) : DecidablePred (Operation.StampsNothing heap)
  | .conj self _ => inferInstanceAs (Decidable (TransientHasRoom heap self))
  | .assoc self index _ =>
      inferInstanceAs
        (Decidable
          (AppendsWithRoom heap self index ∧
          TransientTailAlone heap self index))
  | .pop self => inferInstanceAs (Decidable (TransientPopsAlone heap self))
  | .newObject => .isTrue trivial
  | .create => .isTrue trivial
  | .createMany _ => .isTrue trivial
  | .withMeta _ _ => .isTrue trivial
  | .transient _ => .isTrue trivial
  | .persistentBang _ => .isTrue trivial
  | .nth _ _ => .isTrue trivial
  | .retain _ => .isTrue trivial
  | .release _ => .isTrue trivial

/-- The operations whose result is a persistent vector: `persistent!`, and
`conj`, `assoc` and `pop` on a persistent vector. -/
def Operation.Seals (heap : VectorHeap) : Operation → Prop
  | persistentBang _ => True
  | conj self _ => HeaderID heap self 0
  | assoc self _ _ => HeaderID heap self 0
  | pop self => HeaderID heap self 0
  | _ => False

/-- A header and the nodes that can be reached from it have the id 0. -/
def SealedVector (heap : VectorHeap) (self : Address) : Prop :=
  ∀ vector, heap.object? self = some (.vector vector) →
    vector.transientID = 0 ∧
      ∀ address node,
        Relation.ReflTransGen
          (fun source target => target ∈ heap.referencesAt source)
          self address →
        heap.object? address = some (.node node) → node.transientID = 0

/-- The header in a heap, or 0 where there is none. -/
def transientIDOf (heap : VectorHeap) (self : Address) : Nat :=
  match heap.object? self with
  | some (.vector vector) => vector.transientID
  | _ => 0

/-- The id that is looked up is that of the header. -/
theorem headerID_transientIDOf (heap : VectorHeap) (self : Address) :
    HeaderID heap self (transientIDOf heap self) := by
  intro vector isVector
  simp [transientIDOf, isVector]

/-- The id of a persistent vector, or of no vector at all. -/
theorem transientIDOf_eq_zero
    {heap : VectorHeap}
    {self : Address}
    (persistent : HeaderID heap self 0) :
    transientIDOf heap self = 0 := by
  unfold transientIDOf
  split
  · next vector isVector => exact persistent vector isVector
  · rfl

section Runs

variable {base heap : VectorHeap}

/-- The result of an operation is a vector, or there is none. -/
theorem ensures_resultOf
    {program : Code (Except Exception Address)}
    {transientID : Nat}
    (seals : Ensures program heap (SealedResult base transientID)) :
    Ensures (do let result ← program; pure (Operation.resultOf result)) heap
      fun given after => AllUnstamped base after ∧
        ∀ new ∈ given, IssuedHeader after new transientID := by
  apply Ensures.bind
  apply seals.mono
  rintro result after ⟨afterAll, header⟩
  refine Ensures.pure ⟨afterAll, ?_⟩
  intro new isGiven
  cases result with
  | error thrown => cases isGiven
  | ok address =>
      rw [List.mem_singleton.mp isGiven]
      exact header address rfl

/-- One operation that stamps nothing. -/
theorem ensures_run
    (operation : Operation)
    (transientID : Nat)
    (all : AllUnstamped base heap)
    (stampsNothing : operation.StampsNothing heap) :
    Ensures (operation.run transientID) heap fun given after =>
      AllUnstamped base after ∧
        (operation.Seals heap → ∀ new ∈ given, IssuedHeader after new 0) := by
  cases operation with
  | newObject =>
      apply Ensures.bind
      have valid : Object.Unstamped base heap.next (.other []) := trivial
      apply Ensures.allocate all.all valid
      intro after afterAll larger _
      exact Ensures.pure ⟨⟨afterAll, all.next_le.trans larger⟩,
        fun never => never.elim⟩
  | create =>
      apply Ensures.bind
      apply Ensures.bind
      apply unstamped_retain all
      intro after afterAll _
      exact Ensures.pure (Ensures.pure ⟨afterAll, fun never => never.elim⟩)
  | createMany objects =>
      apply Ensures.bind
      apply (sealed_createMany objects all).mono
      rintro new after ⟨afterAll, _⟩
      exact Ensures.pure ⟨afterAll, fun never => never.elim⟩
  | conj self other =>
      have header := headerID_transientIDOf heap self
      apply Ensures.bind
      apply (sealed_conjInternal self other all stampsNothing header).mono
      rintro new after ⟨afterAll, newHeader⟩
      refine Ensures.pure ⟨afterAll, ?_⟩
      intro persistent other isGiven
      rw [List.mem_singleton.mp isGiven, ← transientIDOf_eq_zero persistent]
      exact newHeader
  | assoc self index other =>
      have header := headerID_transientIDOf heap self
      apply (ensures_resultOf
        (sealed_assocInternal self index other all stampsNothing.1
        stampsNothing.2 header)).mono
      rintro given after ⟨afterAll, newHeader⟩
      refine ⟨afterAll, ?_⟩
      intro persistent
      rwa [transientIDOf_eq_zero persistent] at newHeader
  | pop self =>
      have header := headerID_transientIDOf heap self
      apply (ensures_resultOf
        (sealed_popInternal self all stampsNothing header)).mono
      rintro given after ⟨afterAll, newHeader⟩
      refine ⟨afterAll, ?_⟩
      intro persistent
      rwa [transientIDOf_eq_zero persistent] at newHeader
  | withMeta self metadata =>
      apply Ensures.bind
      apply (unstamped_withMeta self metadata all).mono
      intro new after afterAll
      exact Ensures.pure ⟨afterAll, fun never => never.elim⟩
  | transient self =>
      apply Ensures.bind
      apply (sealed_copyRoot self transientID all).mono
      rintro new after ⟨afterAll, _⟩
      exact Ensures.pure ⟨afterAll, fun never => never.elim⟩
  | persistentBang self =>
      apply Ensures.bind
      apply (sealed_copyRoot self 0 all).mono
      rintro new after ⟨afterAll, header⟩
      refine Ensures.pure ⟨afterAll, ?_⟩
      intro _ other isGiven
      rw [List.mem_singleton.mp isGiven]
      exact header
  | nth self index =>
      apply Ensures.bind
      apply (unstamped_nth self index all).mono
      intro result after afterAll
      cases result with
      | ok value => exact Ensures.pure ⟨afterAll, fun never => never.elim⟩
      | error thrown => exact Ensures.pure ⟨afterAll, fun never => never.elim⟩
  | retain address =>
      apply Ensures.bind
      apply unstamped_retain all
      intro after afterAll _
      exact Ensures.pure ⟨afterAll, fun never => never.elim⟩
  | release address =>
      apply Ensures.bind
      apply unstamped_release all
      intro after afterAll _
      exact Ensures.pure ⟨afterAll, fun never => never.elim⟩

end Runs

/-- The vectors that `persistent!` gave back, and those obtained from one of
them by `conj`, `assoc` or `pop`, after one more operation. -/
def Operation.sealed (given vectors : List Address) : Operation → List Address
  | persistentBang _ => given ++ vectors
  | conj self _ => if self ∈ vectors then given ++ vectors else vectors
  | assoc self _ _ => if self ∈ vectors then given ++ vectors else vectors
  | pop self => if self ∈ vectors then given ++ vectors else vectors
  | _ => vectors

/-- A step together with the vectors that are to be sealed. -/
inductive SealingStep (condition : State → Operation → Prop) :
    State × List Address → State × List Address → Prop
  | perform
      (before after : State)
      (vectors : List Address)
      (operation : Operation)
      (given : List Address)
      (meets : condition before operation)
      (result : before.perform operation = some (given, after)) :
      SealingStep condition (before, vectors)
        (after, operation.sealed given vectors)

/-- A run, with the vectors from `persistent!` and what came of them. -/
abbrev SealingReaches (condition : State → Operation → Prop) :
    State × List Address → Prop :=
  TransitionSystem.Reachable (fun state => State.Initial state.1 ∧ state.2 = [])
    (SealingStep condition)

/-- Operations one after the other. -/
def performSealing : List Operation → State × List Address → Option
    (State × List Address)
  | [], state => some state
  | operation :: operations, state =>
      match state.1.perform operation with
      | some (given, after) =>
          performSealing operations (after, operation.sealed given state.2)
      | none => none

/-- Operations one after the other meet a condition. -/
def MeetsAll (condition : State → Operation → Prop) :
    List Operation → State × List Address → Prop
  | [], _ => True
  | operation :: operations, state =>
      condition state.1 operation ∧
        match state.1.perform operation with
        | some (given, after) =>
            MeetsAll condition operations
              (after, operation.sealed given state.2)
        | none => True

instance decidableMeetsAll
    (condition : State → Operation → Prop)
    [∀ state operation, Decidable (condition state operation)] :
    ∀ operations state, Decidable (MeetsAll condition operations state)
  | [], _ => .isTrue trivial
  | operation :: operations, state =>
      match step : state.1.perform operation with
      | some (given, after) =>
          have := decidableMeetsAll condition operations
            (after, operation.sealed given state.2)
          decidable_of_iff (condition state.1 operation ∧
            MeetsAll condition operations
              (after, operation.sealed given state.2)) (by
              rw [MeetsAll, step])
      | none =>
          decidable_of_iff (condition state.1 operation ∧ True)
            (by rw [MeetsAll, step])

/-- A condition that always holds. -/
theorem meetsAll_of_forall
    {condition : State → Operation → Prop}
    (always : ∀ state operation, condition state operation)
    (operations : List Operation)
    (state : State × List Address) :
    MeetsAll condition operations state := by
  induction operations generalizing state with
  | nil => trivial
  | cons operation operations inductionHypothesis =>
      rw [MeetsAll]
      refine ⟨always state.1 operation, ?_⟩
      split
      · exact inductionHypothesis _
      · trivial

/-- Operations that meet the condition lead to states that are reached, by
induction on them. -/
theorem SealingReaches.performSealing
    {condition : State → Operation → Prop}
    {operations : List Operation}
    {before after : State × List Address}
    (meets : MeetsAll condition operations before)
    (reaches : SealingReaches condition before)
    (result : performSealing operations before = some after) :
    SealingReaches condition after := by
  induction operations generalizing before with
  | nil =>
      cases result
      exact reaches
  | cons operation operations inductionHypothesis =>
      rw [Vector.performSealing] at result
      rw [MeetsAll] at meets
      obtain ⟨first, others⟩ := meets
      split at result
      · next given middle performed =>
          rw [performed] at others
          have stepped : SealingStep condition before
              (middle, operation.sealed given before.2) :=
            .perform before.1 middle before.2 operation given first performed
          exact inductionHypothesis others (reaches.tail stepped) result
      · cases result

/-- After `PersistentVector_initialise`, with no vector sealed yet. -/
def sealingStart : State × List Address :=
  (⟨initialHeap, 0, 1⟩, [])

/-- The start is reached. -/
theorem sealingReaches_start (condition : State → Operation → Prop) :
    SealingReaches condition sealingStart :=
  .of_initial ⟨rfl, rfl⟩

/-- The heap as promotion sees it. -/
def toSharing (heap : VectorHeap) (shared : Address → Bool) : Sharing.Heap where
  objects address :=
    match heap.object? address with
    | some (.vector vector) =>
        .persistentVector vector.transientID vector.tail vector.root
          vector.metadata
    | some (.node node) =>
        .persistentVectorNode node.type node.transientID node.array
    | some (.other references) => .other (references.map RTValue.pointer)
    | none => .other []
  rawRefCount address := 2 * heap.count address + (shared address).toNat

/-- The condition of the runs in which `persistent!` seals. -/
abbrev StampsNothing (state : State) (operation : Operation) : Prop :=
  operation.StampsNothing state.heap

/-- What holds in every state of such a run. -/
structure SealingInvariant (state : State × List Address) : Prop where
  unstamped : ∀ address node, state.1.heap.object? address = some (.node node) →
    node.transientID = 0
  sealedHeaders : ∀ self ∈ state.2, IssuedHeader state.1.heap self 0

/-- There are no vectors yet, and no node has an id. -/
theorem sealingInvariant_initial : SealingInvariant
    (⟨initialHeap, 0, 1⟩, []) where
  unstamped := by
    have unused :
        (Heap.empty : VectorHeap).All (Object.Unstamped Heap.empty) := by
      intro address object found
      cases found
    have all : initialHeap.All (Object.Unstamped Heap.empty) := by
      apply Heap.All.set
      · exact unused.set rfl
      · exact fun _ _ => rfl
    exact fun address node found => all address (.node node) found
  sealedHeaders := by simp

/-- A heap compared with itself. -/
theorem allUnstamped_refl
    {heap : VectorHeap}
    (unstamped : ∀ address node, heap.object? address = some (.node node) →
      node.transientID = 0) :
    AllUnstamped heap heap where
  all := by
    intro address object found
    cases object with
    | node node => exact unstamped address node found
    | vector vector => exact fun _ header => header vector found
    | other references => trivial
  next_le := Nat.le_refl _

/-- An operation that stamps nothing keeps the invariant. -/
theorem sealingInvariant_step
    {before after : State × List Address}
    (invariant : SealingInvariant before)
    (stepped : SealingStep StampsNothing before after) :
    SealingInvariant after := by
  cases stepped with
  | perform before after vectors operation given meets result =>
      obtain ⟨_, isResult, _⟩ := State.perform_eq_some result
      obtain ⟨afterAll, seals⟩ := (ensures_run operation before.nextTransientID
        (allUnstamped_refl invariant.unstamped) meets).of_result given
          after.heap isResult
      -- a header that was sealed before the step still is
      have kept : ∀ self ∈ vectors, IssuedHeader after.heap self 0 := by
        intro self isSealed
        have issued := invariant.sealedHeaders self isSealed
        refine ⟨Nat.lt_of_lt_of_le issued.below afterAll.next_le, ?_⟩
        intro vector isVector
        exact afterAll.all self (.vector vector) isVector issued.below
          issued.header
      have extended : operation.Seals before.heap →
          ∀ self ∈ given ++ vectors, IssuedHeader after.heap self 0 := by
        intro isSealing self either
        cases List.mem_append.mp either with
        | inl isGiven => exact seals isSealing self isGiven
        | inr isSealed => exact kept self isSealed
      refine ⟨fun address node found => afterAll.node found, ?_⟩
      cases operation with
      | persistentBang self => exact extended trivial
      | conj self other =>
          simp only [Operation.sealed]
          split
          · next isSealed =>
              exact extended (invariant.sealedHeaders self isSealed).header
          · exact kept
      | assoc self index other =>
          simp only [Operation.sealed]
          split
          · next isSealed =>
              exact extended (invariant.sealedHeaders self isSealed).header
          · exact kept
      | pop self =>
          simp only [Operation.sealed]
          split
          · next isSealed =>
              exact extended (invariant.sealedHeaders self isSealed).header
          · exact kept
      | _ => exact kept

/-- In a run that stamps no node, `persistent!` seals: the vectors it gives back
and those obtained from them are sealed, and promotion refuses no node of a
persistent vector. -/
theorem sealed_of_stampsNothing
    {state : State}
    {vectors : List Address}
    (reaches : SealingReaches StampsNothing (state, vectors)) :
    (∀ self ∈ vectors, SealedVector state.heap self) ∧
      ∀ (self : Address) (vector : PersistentVector) (shared : Address → Bool)
        (fuel : Nat)
        (after : Sharing.Heap),
        state.heap.object? self = some (.vector vector) →
          vector.transientID = 0 →
        Sharing.promoteToShared fuel (.pointer self)
          (toSharing state.heap shared) ≠
          .thrown "Cannot share a transient vector node" after := by
  have invariant : SealingInvariant (state, vectors) := by
    apply TransitionSystem.Reachable.invariant _ _ reaches
    · rintro ⟨start, startVectors⟩ ⟨isInitial, noVectors⟩
      cases isInitial
      cases noVectors
      exact sealingInvariant_initial
    · intro before after _ holds stepped
      exact sealingInvariant_step holds stepped
  constructor
  · intro self isSealed vector isVector
    refine ⟨(invariant.sealedHeaders self isSealed).header vector isVector, ?_⟩
    intro address node _ isNode
    exact invariant.unstamped address node isNode
  · intro self vector shared fuel after _ _
    apply Sharing.promoteToShared_ne_thrown
      (toSharing state.heap shared).objects _ _ _ _ _ rfl
    intro address type transientID array object
    unfold toSharing at object
    simp only at object
    split at object
    · cases object
    · next node isNode =>
        cases object
        exact invariant.unstamped address node isNode
    · cases object
    · cases object

/-- A vector of 40 elements is made transient, grows, changes and is made
persistent again; one of 33 elements loses its last one. -/
def thawAndFreeze : List Operation :=
  [.createMany (List.replicate 40 .boxNil), .transient 3, .conj 6 .boxNil,
    .assoc 6 2 (.immediate 9), .persistentBang 6,
    .createMany (List.replicate 33 .boxNil),
    .transient 10, .pop 13, .assoc 13 4 (.immediate 8), .persistentBang 13]

/-- The operations are run, and both vectors that `persistent!` gives back are
sealed. -/
theorem sealed_of_stampsNothing_forty :
    ∃ state, performSealing thawAndFreeze sealingStart = some state ∧
      state.2 = [15, 8] ∧ SealedVector state.1.heap 8 ∧
        SealedVector state.1.heap 15 := by
  have computed : (performSealing thawAndFreeze sealingStart).any
      (fun state => state.2 = [15, 8]) = true := by
    decide +kernel
  obtain ⟨state, isResult, facts⟩ := (Option.any_eq_true _ _).mp computed
  have isSealed : state.2 = [15, 8] := by simpa using facts
  have meets : MeetsAll StampsNothing thawAndFreeze sealingStart := by
    decide +kernel
  have reaches :=
    (sealingReaches_start StampsNothing).performSealing meets isResult
  obtain ⟨vectors, _⟩ := sealed_of_stampsNothing reaches
  exact ⟨state, isResult, isSealed, vectors 8 (by simp [isSealed]),
    vectors 15 (by simp [isSealed])⟩

/-- `persistent!` after `conj!` on a transient vector with a full tail. -/
def freezeStamped : List Operation :=
  [.createMany (List.replicate 32 .boxNil), .transient 3, .conj 5 .boxNil,
    .persistentBang 5]

/-- The message of an exception. -/
def thrownMessage : Sharing.Outcome → Option String
  | .thrown message _ => some message
  | _ => none

/-- The new tail still has the id of the transient vector, and promotion refuses
it. -/
theorem persistentBang_keeps_stamp :
    ∃ state, SealingReaches (fun _ _ => True) state ∧
      8 ∈ state.2 ∧ ¬ SealedVector state.1.heap 8 ∧
      ∃ vector, state.1.heap.object? 8 = some (.vector vector) ∧
        vector.transientID = 0 ∧
        thrownMessage (Sharing.promoteToShared 3 (.pointer 8)
          (toSharing state.1.heap fun _ => false)) =
            some "Cannot share a transient vector node" := by
  have computed : (performSealing freezeStamped sealingStart).any
      (fun state => 8 ∈ state.2 ∧
        state.1.heap.object? 8 =
          some (.vector ⟨33, 0, 0, some 7, some 4, .boxNil⟩) ∧
        state.1.heap.object? 7 = some (.node ⟨.leafNode, 1, [.boxNil]⟩) ∧
        thrownMessage (Sharing.promoteToShared 3 (.pointer 8)
          (toSharing state.1.heap fun _ => false)) =
            some "Cannot share a transient vector node") = true := by
    decide +kernel
  obtain ⟨state, isResult, facts⟩ := (Option.any_eq_true _ _).mp computed
  obtain ⟨isSealed, isVector, isTail, refused⟩ := of_decide_eq_true facts
  have reaches := (sealingReaches_start fun _ _ => True).performSealing
    (meetsAll_of_forall (fun _ _ => trivial) _ _) isResult
  refine ⟨state, reaches, isSealed, ?_, _, isVector, rfl, refused⟩
  intro isSealedVector
  have toTail : 7 ∈ state.1.heap.referencesAt 8 := by
    obtain ⟨cell, isCell, sameObject⟩ := Option.map_eq_some_iff.mp isVector
    rw [Heap.referencesAt, isCell, Cell.referencesOf, sameObject]
    simp [Referencing.references]
  have stamped := (isSealedVector _ isVector).2 7 _ (.single toTail) isTail
  cases stamped

end Vector
end Runtime
end ClojureRt
