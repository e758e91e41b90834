import ClojureRt.Runtime.Vector.Tries

/-!
# Rules for the code of the runtime

Each rule says that a piece of code runs, what it adds to the effect since a
heap `base`, and what it leaves as it is.
-/

namespace ClojureRt
namespace Runtime
namespace Vector

open RefCount RefCount.Program
open Sharing (Address RTValue NodeType)

/-! ## Counting references -/

/-- The references in a value. -/
def refs (value : RTValue) : Address → Int :=
  owns (addresses value)

/-- The references in values. -/
def refsAll (values : List RTValue) : Address → Int :=
  owns (values.flatMap addresses)

/-- A pointer is one reference. -/
@[simp]
theorem refs_pointer (address : Address) : refs
    (.pointer address) = own address := by
  simp [refs, addresses, owns_cons]

/-- An immediate value is no reference. -/
@[simp]
theorem refs_immediate (word : Nat) : refs (.immediate word) = 0 := by
  simp [refs, addresses]

/-- Nil is no reference. -/
@[simp]
theorem refs_boxNil : refs .boxNil = 0 :=
  refs_immediate 0

@[simp]
theorem refsAll_nil : refsAll [] = 0 := by
  simp [refsAll]

@[simp]
theorem refsAll_cons (value : RTValue) (values : List RTValue) :
    refsAll (value :: values) = refs value + refsAll values := by
  simp [refsAll, refs, owns_append]

/-- The references of two lists. -/
@[simp]
theorem refsAll_append (first second : List RTValue) :
    refsAll (first ++ second) = refsAll first + refsAll second := by
  simp [refsAll, owns_append]

/-- A header refers to the trie, to the tail and to the metadata. -/
@[simp]
theorem owns_references_vector (vector : PersistentVector) :
    owns (Referencing.references (Object.vector vector)) =
      owns vector.root.toList + owns vector.tail.toList +
        refs vector.metadata := by
  rw [refs, ← owns_append, ← owns_append]
  rfl

@[simp]
theorem owns_none : owns (none : Option Address).toList = 0 := by
  simp

@[simp]
theorem owns_some (address : Address) : owns
    (some address).toList = own address := by
  simp [owns_cons]

/-- Nothing is owned a negative number of times. -/
theorem own_nonneg (address other : Address) : 0 ≤ own address other := by
  unfold own
  split <;> decide

/-- The address itself is owned once. -/
theorem own_self (address : Address) : own address address = 1 := by
  simp [own]

/-- A value has no negative number of references. -/
theorem refs_nonneg (value : RTValue)
    (other : Address) : 0 ≤ refs value other :=
  owns_nonneg _ other

/-- Values have no negative number of references. -/
theorem refsAll_nonneg (values : List RTValue)
    (other : Address) : 0 ≤ refsAll values other :=
  owns_nonneg _ other

/-- What somebody owns: the counts are large enough for it and for the
references from the heap. -/
structure Owned (heap : VectorHeap) (held : Address → Int) : Prop where
  nonneg : ∀ address, 0 ≤ held address
  le_excess : ∀ address, held address ≤ heap.excess address

/-- Where references are owned, no count is below what the heap refers to. -/
theorem Owned.excess_nonneg {heap : VectorHeap} {held : Address → Int}
    (owned : Owned heap held)
    (address : Address) : 0 ≤ heap.excess address :=
  (owned.nonneg address).trans (owned.le_excess address)

section Rules

variable {base heap : VectorHeap} {change : Address → Int}
  {changed : Address → Prop}

/-- The node is read, and nothing changes. -/
theorem runs_loadNode
    {address : Address}
    {node : PersistentVectorNode}
    (found : heap.object? address = some (.node node))
    {post : PersistentVectorNode → VectorHeap → Prop}
    (holds : post node heap) :
    Runs (loadNode address) heap post := by
  unfold loadNode
  apply Runs.bind
  apply Runs.load found
  exact Runs.pure holds

/-- The header is read, and nothing changes. -/
theorem runs_loadVector
    {address : Address}
    {vector : PersistentVector}
    (found : heap.object? address = some (.vector vector))
    {post : PersistentVector → VectorHeap → Prop}
    (holds : post vector heap) :
    Runs (loadVector address) heap post := by
  unfold loadVector
  apply Runs.bind
  apply Runs.load found
  exact Runs.pure holds

/-- The value is a pointer. -/
theorem runs_unboxPtr
    {value : Option RTValue}
    {address : Address}
    (isPointer : value = some (.pointer address))
    {post : Address → VectorHeap → Prop}
    (holds : post address heap) :
    Runs (unboxPtr value) heap post := by
  subst isPointer
  exact Runs.pure holds

/-- The value has one more reference. -/
theorem runs_retainValue
    (effect : Effect base heap change changed)
    {value : RTValue}
    (present : ∀ address ∈ addresses value, ∃ object,
      heap.object? address = some object)
    {post : Unit → VectorHeap → Prop}
    (holds : ∀ after, after.object? = heap.object? →
      Effect base after (change + refs value) changed → post () after) :
    Runs (retainValue value) heap post := by
  cases value with
  | immediate word =>
      apply Runs.pure
      apply holds heap rfl
      simpa using effect
  | pointer address =>
      obtain ⟨object, found⟩ := present address (by simp [addresses])
      apply Runs.retain effect found
      intro after same retained
      apply holds after same
      simpa using retained

/-- Each value has one more reference. -/
theorem runs_retainValues
    (effect : Effect base heap change changed)
    {values : List RTValue}
    (present : ∀ address ∈ values.flatMap addresses, ∃ object,
      heap.object? address = some object)
    {post : Unit → VectorHeap → Prop}
    (holds : ∀ after, after.object? = heap.object? →
      Effect base after (change + refsAll values) changed → post () after) :
    Runs (retainValues values) heap post := by
  induction values generalizing heap change with
  | nil =>
      apply Runs.pure
      apply holds heap rfl
      simpa using effect
  | cons value values inductionHypothesis =>
      rw [List.flatMap_cons] at present
      rw [retainValues]
      apply Runs.bind
      apply runs_retainValue effect fun address isIn =>
        present address (List.mem_append_left _ isIn)
      intro middle same retained
      apply inductionHypothesis retained
      · intro address isIn
        rw [same]
        exact present address (List.mem_append_right _ isIn)
      · intro after sameAfter retainedAll
        apply holds after (sameAfter.trans same)
        rwa [refsAll_cons, ← add_assoc]

/-- The object has one more reference, if there is one. -/
theorem runs_retainPointer
    (effect : Effect base heap change changed)
    {pointer : Option Address}
    (present : ∀ address, pointer = some address → ∃ object,
      heap.object? address = some object)
    {post : Unit → VectorHeap → Prop}
    (holds : ∀ after, after.object? = heap.object? →
      Effect base after (change + owns pointer.toList) changed →
        post () after) :
    Runs (retainPointer pointer) heap post := by
  cases pointer with
  | none =>
      apply Runs.pure
      apply holds heap rfl
      simpa using effect
  | some address =>
      obtain ⟨object, found⟩ := present address rfl
      apply Runs.retain effect found
      intro after same retained
      apply holds after same
      rwa [owns_some]

/-- The owner of `pointer` gives it up if the condition holds. -/
theorem runs_releaseWhen
    (effect : Effect base heap change changed)
    {condition : Bool}
    {pointer : Option Address}
    (owned : condition = true →
      ∀ other, owns pointer.toList other ≤ base.excess other + change other)
    {post : Unit → VectorHeap → Prop}
    (holds : ∀ after,
      (∀ other object, after.object? other = some object →
        heap.object? other = some object) →
      Effect heap after (-(if condition then owns pointer.toList else 0))
        (fun _ => False) →
      Effect base after (change - if condition then owns pointer.toList else 0)
        changed →
      post () after) :
    Runs (releaseWhen condition pointer) heap post := by
  unfold releaseWhen
  cases condition with
  | false =>
      apply Runs.pure
      apply holds heap fun _ _ found => found
      · simpa using Effect.refl heap
      · simpa using effect
  | true =>
      simp only [if_true] at holds ⊢
      cases pointer with
      | none =>
          apply Runs.pure
          apply holds heap fun _ _ found => found
          · simpa using Effect.refl heap
          · simpa using effect
      | some address =>
          rw [owns_some] at holds
          have ownedAddress := owned rfl
          rw [owns_some] at ownedAddress
          exact Runs.release effect ownedAddress holds

/-- A new node has one reference, and takes those to its entries. -/
theorem runs_allocateNode
    (effect : Effect base heap change changed)
    {node : PersistentVectorNode}
    {post : Address → VectorHeap → Prop}
    (holds : ∀ after, after.object? heap.next = some (.node node) →
      (∀ other, other ≠ heap.next → after.object? other = heap.object? other) →
      Effect base after (change + (own heap.next - refsAll node.array))
        changed →
      post heap.next after) :
    Runs (allocate (.node node)) heap post := by
  apply Runs.allocate effect
  intro after found others _ allocated
  exact holds after found others allocated

/-- A node that is written gives up the references to its old entries and takes
those to the new ones. -/
theorem runs_storeNode
    (effect : Effect base heap change changed)
    {address : Address}
    {node old : PersistentVectorNode}
    (found : heap.object? address = some (.node old))
    {post : Unit → VectorHeap → Prop}
    (holds : ∀ after, after.object? address = some (.node node) →
      (∀ other, other ≠ address → after.object? other = heap.object? other) →
      Effect base after (change + (refsAll old.array - refsAll node.array))
        (fun other => changed other ∨ other = address) →
      post () after) :
    Runs (store address (.node node)) heap post :=
  Runs.store effect found holds

/-- A node is written in place if it has one reference or the transient id of
the vector. -/
theorem runs_reusesNode
    {self : Address}
    {node : PersistentVectorNode}
    (found : heap.object? self = some (.node node))
    {allowsReuse : Bool}
    {vectorTransientID : Nat}
    {post : Bool → VectorHeap → Prop}
    (holds : post (allowsReuse &&
      (heap.count self == 1 || node.transientID == vectorTransientID)) heap) :
    Runs (reusesNode self node allowsReuse vectorTransientID) heap post := by
  unfold reusesNode
  cases allowsReuse with
  | false => exact Runs.pure holds
  | true =>
      apply Runs.bind
      apply Runs.isReusable found
      exact Runs.pure holds

/-- `pop` asks for a transient id other than 0. -/
theorem runs_popsNode
    {self : Address}
    {node : PersistentVectorNode}
    (found : heap.object? self = some (.node node))
    {allowsReuse : Bool}
    {vectorTransientID : Nat}
    {post : Bool → VectorHeap → Prop}
    (holds : post (allowsReuse && (heap.count self == 1 ||
      (node.transientID != 0 && node.transientID == vectorTransientID))) heap) :
    Runs (popsNode self node allowsReuse vectorTransientID) heap post := by
  unfold popsNode
  cases allowsReuse with
  | false => exact Runs.pure holds
  | true =>
      apply Runs.bind
      apply Runs.isReusable found
      exact Runs.pure holds

/-- The addresses in a node that is there are there. -/
theorem present_of_node
    {heap : VectorHeap}
    (nonneg : ∀ address, 0 ≤ heap.excess address)
    {self : Address}
    {node : PersistentVectorNode}
    (found : heap.object? self = some (.node node))
    {values : List RTValue}
    (some_of : values ⊆ node.array) :
    ∀ address ∈ values.flatMap addresses, ∃ object,
      heap.object? address = some object := by
  intro address isIn
  obtain ⟨value, isValue, isAddress⟩ := List.mem_flatMap.mp isIn
  exact Heap.object_of_reference nonneg found
    (List.mem_flatMap.mpr ⟨value, some_of isValue, isAddress⟩)

end Rules

end Vector
end Runtime
end ClojureRt
